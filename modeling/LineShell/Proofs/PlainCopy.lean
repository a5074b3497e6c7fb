import LineShell.Proofs.Composition

/-!
# A plain `cat` in a pipe

`cat` without arguments and redirections hands on what it reads. So it can stand between a command
that feeds a pipe and the one that reads it, and the line runs as it would without it. The two runs
are compared side by side: up to the first of these commands they are the same, and after `cat` the
longer one is one position ahead, with the bytes under way in the pipe of `cat`.

* `Course.OneMore`: two courses of which the second has an outcome more, and nothing else shows;
* `Shell.invoke_plain_cat`: what is in the pipe before `cat` is then in the pipe after it;
* `Shell.abreast_plain_cat`: the longer course goes on as the shorter one does;
* `Shell.run_plain_cat`: so both lines end in the same world, and their reports differ in the entry of
  `cat` alone.

The code of `cat` is 0 and is never looked back to: the operator after it is a pipe, and whatever
comes after that runs.
-/

namespace LineShell

/-! ## 1. What `cat` does without operands -/

/-- `cat` without arguments and without redirections, before a pipe. -/
structure Node.IsPlainCat {α : Type} (n : Node α) : Prop where
  texts : n.segment.texts = ["cat"]
  source : ∀ path, n.input ≠ .file path
  sink : n.output = .none
  operator : n.operator = .pipe

namespace Node.IsPlainCat

variable {α : Type} {n : Node α}

theorem name (h : n.IsPlainCat) : n.name = "cat" := by
  rw [Node.name, Segment.command?, h.texts]
  rfl

theorem operands (h : n.IsPlainCat) : (Call.ofSegment n.segment).operands = [] := by
  rw [Call.operands, Call.args, Call.ofSegment, h.texts]
  rfl

theorem feedsPipe (h : n.IsPlainCat) : n.feedsPipe = true := by
  rw [Node.feedsPipe, h.operator]
  rfl

end Node.IsPlainCat

/-- Without operands `cat` writes what it reads. -/
theorem Builtin.run_cat_bytes (v : View) {call : Call} (h : call.operands = []) (data : Bytes) :
    Builtin.cat.run v call (.bytes data) = some ⟨data, .ok 0⟩ := by
  show copyEach v [] (.bytes data) (if call.operands.isEmpty then ["-"] else call.operands) = _
  rw [h]
  rfl

/-! ## 2. Chains -/

/-- The handles of a chain are those of the names. -/
theorem Realizes.resolved {α : Type} {r : Resolver α} {piped : Bool} {cs : List Clause}
    {ns : List (Node α)} (h : Realizes r piped cs ns) :
    ∀ n ∈ ns, r.resolve n.name = some n.handle := by
  induction h with
  | nil => simp
  | @cons piped c handle cs ns hr h ih =>
    rintro n (_ | ⟨_, hn⟩)
    · have hname : (c.node handle piped).name = c.name := by
        rw [Node.name, Segment.command?, Clause.name, List.headD_eq_head?_getD]
        rfl
      rw [hname, hr]
      rfl
    · exact ih n hn

/-- The command after one that feeds a pipe reads it, or a file in its place. -/
theorem PipesMeet.next {α : Type} {before rest : List (Node α)} (meet : PipesMeet (before ++ rest))
    (hpipe : before.getLast?.map Node.operator = some .pipe) :
    ∃ m tail, rest = m :: tail ∧ (m.input = .piped ∨ ∃ path, m.input = .file path) := by
  obtain ⟨n, hlast, hop⟩ := Option.map_eq_some_iff.mp hpipe
  obtain ⟨front, rfl⟩ := List.getLast?_eq_some_iff.mp hlast
  obtain ⟨m, hm, hin⟩ := meet.reader front.length n (by simp) hop
  have hend : (front ++ [n]).length = front.length + 1 := List.length_append
  rw [← hend, List.getElem?_append_right (Nat.le_refl _), Nat.sub_self] at hm
  cases rest with
  | nil => cases hm
  | cons m' tail =>
    cases hm
    exact ⟨m, tail, rfl, hin⟩

/-- A plain `cat` after a command that feeds a pipe reads that pipe. -/
theorem Node.IsPlainCat.input_eq {α : Type} {n : Node α} (plain : n.IsPlainCat)
    {before after : List (Node α)} (meet : PipesMeet (before ++ n :: after))
    (hpipe : before.getLast?.map Node.operator = some .pipe) : n.input = .piped := by
  obtain ⟨m, tail, hm, hin⟩ := meet.next hpipe
  obtain ⟨rfl, -⟩ := List.cons.inj hm
  obtain hin | ⟨path, hin⟩ := hin
  · exact hin
  · exact absurd hin (plain.source path)

/-- A plain `cat` runs what the name stands for. -/
theorem Node.IsPlainCat.builtin_eq {n : Node Handle} (plain : n.IsPlainCat) {r : Registry}
    {cs : List Clause} {nodes : List (Node Handle)} (h : Realizes r.resolver false cs nodes)
    (hn : n ∈ nodes) {b : Builtin} (hname : (r.resolve "cat").map Handle.builtin = some b) :
    n.handle.builtin = b := by
  have hresolved : r.resolve n.name = some n.handle := h.resolved n hn
  rw [plain.name] at hresolved
  rw [hresolved] at hname
  exact Option.some.inj hname

/-! ## 3. Courses with an entry more -/

/-- The second course has an outcome more, at position `i`, and otherwise nothing shows which is
which. -/
structure Course.OneMore (i : Nat) (c c' : Course Running) : Prop where
  world : c'.state.world = c.state.world
  fault : c'.state.fault = c.state.fault
  hang : c'.state.hang.isSome = c.state.hang.isSome
  code : c.state.hang = none → c'.code = c.code
  outcomes : ∃ os o os', os.length = i ∧ c.outcomes = os ++ os' ∧ c'.outcomes = os ++ o :: os'

namespace Course.OneMore

variable {c c' : Course Running} {before before' after after' : List (Node Handle)}

/-- Courses that go on side by side, the second one ahead by an outcome. -/
theorem of_abreast {b : Nat} {os : List Outcome} {o : Outcome}
    (h : Abreast 1 b [] [] os (os ++ [o]) c c') (regular : c.Regular)
    (hlen : os.length < c.outcomes.length) : OneMore os.length c c' := by
  obtain ⟨os', ho, ho', -⟩ := h.outcomes
  refine ⟨h.state.world_eq, h.state.fault, h.state.hang, fun hhang => h.code regular hhang hlen, os,
    o, os', rfl, ho, ?_⟩
  rw [ho', List.append_assoc]
  rfl

/-- Once a line has stopped, a command more is one that is not run. -/
theorem of_stopped {sh : Shell} (h : Abreast 0 0 [] [] [] [] c c') (regular : c.Regular)
    (hs : c.stopped = true) (alike : List.Forall₂ Node.Alike after after') (n : Node Handle) :
    OneMore c.outcomes.length (c.through sh.invoke after) (c'.through sh.invoke (n :: after')) := by
  obtain ⟨os, ho, ho', -⟩ := h.outcomes
  have houtcomes : c'.outcomes = c.outcomes := ho'.trans ho.symm
  rw [through_of_stopped after hs, through_of_stopped (n :: after') (h.stopped.trans hs)]
  refine ⟨h.state.world_eq, h.state.fault, h.state.hang, fun hhang => ?_, c.outcomes, .notRun, _, rfl,
    rfl, ?_⟩
  · obtain ⟨text, hfault⟩ := regular.fault_of_stopped hs hhang
    rw [Course.code, Course.code, hfault, h.state.fault.trans hfault]
    rfl
  · rw [houtcomes, List.map_cons, List.map_const', List.map_const', alike.length_eq]

/-- The report of the second course has an entry more. -/
theorem report (h : OneMore before.length c c') (alike : List.Forall₂ Node.Alike before before')
    (alike' : List.Forall₂ Node.Alike after after') (n : Node Handle) :
    (c.report (before ++ after)).nodes =
      (c'.report (before' ++ n :: after')).nodes.eraseIdx before.length := by
  obtain ⟨os, o, os', hos, ho, ho'⟩ := h.outcomes
  have hos' : before'.length = os.length := alike.length_eq.symm.trans hos.symm
  have hentries : (List.zipWith NodeReport.ofNode before os).length = before.length := by
    rw [List.length_zipWith, hos, Nat.min_self]
  rw [Course.report, Course.report, ho, ho', List.zipWith_append hos.symm,
    List.zipWith_append hos', List.zipWith_cons_cons,
    Node.Alike.zipWith_ofNode alike, Node.Alike.zipWith_ofNode alike',
    List.eraseIdx_append_of_length_le (Nat.le_of_eq hentries), hentries, Nat.sub_self]
  rfl

end Course.OneMore

/-! ## 4. Running a plain `cat` -/

namespace Shell

variable (sh : Shell)

/-- **A plain `cat` hands on what the command before it wrote**, and ends with 0. -/
theorem invoke_plain_cat {n : Node Handle} (plain : n.IsPlainCat) (hcat : n.handle.builtin = .cat)
    (hin : n.input = .piped) (i : Nat) (r : Running) :
    ∃ r', sh.invoke (i + 1) n r = (some 0, r') ∧ r'.world = r.world ∧ r'.fault = r.fault ∧
      r'.hang = r.hang ∧ r'.pipes.lookup (i + 1) = some ((r.pipes.lookup i).getD []) ∧
      ∀ j, i + 1 < j → r'.pipes.lookup j = r.pipes.lookup j := by
  have hran := Builtin.run_cat_bytes ⟨r.world.files, Sink.pipe.place?⟩ plain.operands
    ((r.pipes.lookup i).getD [])
  have hsink : Running.openSink r.world.files n.feedsPipe n.output =
      .ok (r.world.files, .pipe) := by
    rw [plain.sink, plain.feedsPipe]
    rfl
  have hinvoke : ∃ e rest, sh.invoke (i + 1) n r =
      (some 0, { r with pipes := (i + 1, (r.pipes.lookup i).getD []) :: rest,
                        invocations := r.invocations ++ [e] }) := by
    rw [invoke, hin]
    simp only [Running.openInput, Running.takePipe, hsink, Running.reread, hcat, hran]
    exact ⟨_, _, rfl⟩
  obtain ⟨e, rest, hinvoke⟩ := hinvoke
  have hlater := fun j (hj : i + 1 < j) => sh.lookup_invoke hj n r
  rw [hinvoke] at hlater
  exact ⟨_, hinvoke, rfl, rfl, rfl, List.lookup_cons_self, hlater⟩

/-- **A course that has come through a plain `cat` goes on like one without it.** -/
theorem abreast_plain_cat {c c' : Course Running} (h : Course.Abreast 0 0 [] [] [] [] c c')
    (regular : c.Regular) (regular' : c'.Regular) (hgo : c.stopped = false)
    (hgate : c.gate = .pipe) {i : Nat} (hi : c.outcomes.length = i + 1) {n : Node Handle}
    (plain : n.IsPlainCat) (hcat : n.handle.builtin = .cat) (hin : n.input = .piped) :
    Course.Abreast 1 i [] [] c.outcomes (c.outcomes ++ [.ran 0]) c (c'.step sh.invoke n) := by
  have hpipe : ∀ last, gateOpen .pipe last = true := fun last => by cases last <;> rfl
  obtain ⟨os, ho, ho', -⟩ := h.outcomes
  have houtcomes : c'.outcomes = c.outcomes := ho'.trans ho.symm
  have hi' : c'.outcomes.length = i + 1 := by rw [houtcomes, hi]
  have hgo' : c'.stopped = false := h.stopped.trans hgo
  have hopen : gateOpen c'.gate c'.last = true := by
    rw [h.gate hgo, hgate, hpipe]
  obtain ⟨r', hinvoke, hworld, hfault, hhang, hhere, hlater⟩ :=
    sh.invoke_plain_cat plain hcat hin i c'.state
  rw [← hi'] at hinvoke
  have hpipes : ∀ j, i ≤ j → (r'.pipes.lookup (j + 1)).getD [] =
      (c.state.pipes.lookup j).getD [] := by
    intro j hj
    obtain rfl | hlt := Nat.eq_or_lt_of_le hj
    · rw [hhere, ← h.state.pipes i (Nat.zero_le i)]
      rfl
    · rw [hlater _ (Nat.succ_lt_succ hlt), regular.pipes j (by omega),
        regular'.pipes (j + 1) (by omega)]
  rw [Course.step_of_ran hgo' hopen hinvoke]
  refine ⟨List.length_append, ?_, hgo'.trans hgo.symm, [], (List.append_nil _).symm, ?_,
    fun _ => .inr ⟨rfl, ?_, ?_⟩⟩
  · have hstate := h.state.hang
    rw [← hhang] at hstate
    refine ⟨?_, ?_, ?_, ?_, ?_, hpipes, hfault.trans h.state.fault, hstate⟩ <;>
      rw [hworld, h.state.world_eq] <;> rfl
  · rw [houtcomes, List.append_nil]
  · rw [hgate, hpipe]
  · show gateOpen n.operator (some 0) = true
    rw [plain.operator, hpipe]

variable {line line' : String} {before before' after after' : List (Node Handle)}
  {copier : Node Handle}

/-- The courses of two chains that differ in a plain `cat`. -/
theorem oneMore_plain_cat (alike : List.Forall₂ Node.Alike before before')
    (alike' : List.Forall₂ Node.Alike after after')
    (hhead : ∀ n ∈ before.head?, n.input ≠ .piped) (hafter : after ≠ [])
    (hpipe : before.getLast?.map Node.operator = some .pipe) (plain : copier.IsPlainCat)
    (hcat : copier.handle.builtin = .cat) (hin : copier.input = .piped) (w : World) :
    Course.OneMore before.length (sh.course (before ++ after) w)
      (sh.course (before' ++ copier :: after') w) := by
  let c := sh.course before w
  have regular : c.Regular := sh.regular_course before w
  have hfront := sh.course_alike alike hhead w
  have hlen : c.outcomes.length = before.length := sh.length_outcomes_course before w
  have hmore : (sh.course (before ++ after) w).outcomes.length = before.length + after.length := by
    rw [sh.length_outcomes_course, List.length_append]
  rw [sh.course_append before after] at hmore ⊢
  rw [sh.course_append before' (copier :: after'), ← hlen]
  cases hs : c.stopped with
  | true => exact .of_stopped hfront regular hs alike' copier
  | false =>
    obtain ⟨n, hlast, hop⟩ := Option.map_eq_some_iff.mp hpipe
    obtain ⟨front, rfl⟩ := List.getLast?_eq_some_iff.mp hlast
    have hi : c.outcomes.length = front.length + 1 := hlen.trans List.length_append
    have hgate : c.gate = .pipe := (Course.gate_through_concat _ hlast hs).trans hop
    have hb : front.length < c.outcomes.length := hi ▸ Nat.lt_succ_self _
    have habreast := (sh.abreast_plain_cat hfront regular (sh.regular_course before' w) hs hgate hi
      plain hcat hin).through alike' sh (Nat.le_of_lt hb) fun _ _ _ => hb
    have hregular : (c.through sh.invoke after).Regular :=
      Course.through_induction (fun _ m h => h.step sh m) after regular
    refine .of_abreast habreast hregular ?_
    have hpos := List.length_pos_iff.mpr hafter
    omega

/-- **A plain `cat` in a pipe changes nothing.** Two lines whose chains differ in that `cat` alone end
in the same world: the same is shown and said, and the files are the same. Both have the same fault and
the same code, and the same became of every other command. If the one goes on for ever, so does the
other. -/
theorem run_plain_cat (hline : sh.chain line = .ok (before ++ after))
    (hline' : sh.chain line' = .ok (before' ++ copier :: after'))
    (alike : List.Forall₂ Node.Alike before before')
    (alike' : List.Forall₂ Node.Alike after after')
    (hpipe : before.getLast?.map Node.operator = some .pipe) (plain : copier.IsPlainCat)
    (hcat : (sh.registry.resolve "cat").map Handle.builtin = some .cat) (w : World) :
    (sh.run line w = none ∧ sh.run line' w = none) ∨
      ∃ report report' world, sh.run line w = some (.ok report, world) ∧
        sh.run line' w = some (.ok report', world) ∧ report'.fault = report.fault ∧
        report'.exitCode = report.exitCode ∧
        report.nodes = report'.nodes.eraseIdx before.length := by
  obtain ⟨_, hcs, meet⟩ := sh.realizes_chain hline
  obtain ⟨_, hcs', meet'⟩ := sh.realizes_chain hline'
  have hpipe' : before'.getLast?.map Node.operator = some .pipe := by
    rw [← List.getLast?_map, Node.Alike.map_eq Node.Alike.operator alike, List.getLast?_map, hpipe]
  have hhead : ∀ n ∈ before.head?, n.input ≠ .piped := by
    intro n hn
    refine sh.head_chain hline n ?_
    rw [List.head?_append, Option.mem_def.mp hn]
    rfl
  have hafter : after ≠ [] := by
    obtain ⟨m, tail, rfl, -⟩ := meet.next hpipe
    exact List.cons_ne_nil m tail
  have hin : copier.input = .piped := plain.input_eq meet' hpipe'
  have hbuiltin : copier.handle.builtin = .cat :=
    plain.builtin_eq hcs' (List.mem_append_right _ List.mem_cons_self) hcat
  have hmore := sh.oneMore_plain_cat alike alike' hhead hafter hpipe plain hbuiltin hin w
  rw [sh.run_course hline hcs.fresh w, sh.run_course hline' hcs'.fresh w]
  obtain ⟨hnone, hnone'⟩ | ⟨hhang, hsome, hsome'⟩ :=
    Course.results hmore.hang (before ++ after) (before' ++ copier :: after')
  · exact .inl ⟨hnone, hnone'⟩
  · rw [hmore.world] at hsome'
    refine .inr ⟨_, _, _, hsome, hsome', hmore.fault, ?_, hmore.report alike alike' copier⟩
    rw [sh.exitCode_course, sh.exitCode_course, hmore.code hhang]

/-- The bytes of `echo x` go through `cat` and are counted as without it. -/
theorem run_plain_cat_echo_wc :
    let sh : Shell := .ofConfig {}
    ∃ report report' after, sh.run "echo x | wc -c" {} = some (.ok report, after) ∧
      sh.run "echo x | cat | wc -c" {} = some (.ok report', after) ∧ report'.fault = report.fault ∧
      report'.exitCode = report.exitCode ∧ report.nodes = report'.nodes.eraseIdx 1 := by
  intro sh
  let line := "echo x | wc -c"
  let line' := "echo x | cat | wc -c"
  let nodes := (sh.chain line).toOption.getD []
  let nodes' := (sh.chain line').toOption.getD []
  obtain ⟨hok, hok', hlen⟩ : (sh.chain line).isOk = true ∧ (sh.chain line').isOk = true ∧
      1 < nodes'.length := by decide +kernel
  let copier := nodes'.get ⟨1, by decide +kernel⟩
  have hline : sh.chain line = .ok (nodes.take 1 ++ nodes.drop 1) := by
    rw [List.take_append_drop]
    exact sh.chain_eq_ok hok
  have hline' : sh.chain line' = .ok (nodes'.take 1 ++ copier :: nodes'.drop 2) := by
    show _ = Except.ok (nodes'.take 1 ++ nodes'[1] :: nodes'.drop 2)
    rw [← List.drop_eq_getElem_cons hlen, List.take_append_drop]
    exact sh.chain_eq_ok hok'
  obtain ⟨alike, alike', hpipe, hbefore⟩ :
      List.Forall₂ Node.Alike (nodes.take 1) (nodes'.take 1) ∧
        List.Forall₂ Node.Alike (nodes.drop 1) (nodes'.drop 2) ∧
        (nodes.take 1).getLast?.map Node.operator = some .pipe ∧
        (nodes.take 1).length = 1 := by decide +kernel
  obtain ⟨htexts, hin, hsink, hop⟩ : copier.segment.texts = ["cat"] ∧ copier.input = .piped ∧
      copier.output = .none ∧ copier.operator = .pipe := by decide +kernel
  have plain : copier.IsPlainCat := ⟨htexts, by rw [hin]; simp, hsink, hop⟩
  have hends : (sh.run line {}).isSome = true := by decide +kernel
  obtain ⟨hnever, -⟩ | ⟨report, report', after, hrun, hrun', hfault, hcode, hnodes⟩ :=
    sh.run_plain_cat hline hline' alike alike' hpipe plain (by decide +kernel) {}
  · rw [hnever] at hends
    cases hends
  rw [hbefore] at hnodes
  exact ⟨report, report', after, hrun, hrun', hfault, hcode, hnodes⟩

end Shell

end LineShell
