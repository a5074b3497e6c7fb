import LineShell.Proofs.SideBySide

/-!
# One line after another

A line with a semicolon in it is run like the part before the semicolon and then, if that came to
its end, like the part after it. Nothing but the files is handed on: where the two parts meet, the
pipes of the commands to come are empty (`Course.Regular`), and a semicolon lets the next command run
after any code.

* `Shell.run_alike`: a line runs like every chain that is alike to its own;
* `Shell.course_after_semicolon`: after a semicolon a chain runs as in a run of its own;
* `Shell.run_sequence`: so the report on the line and what it shows are those of the two parts.
-/

namespace LineShell

/-! ## 1. What every course keeps -/

namespace Shell

variable (sh : Shell)

/-- Running a command puts nothing in the pipes of later ones. -/
theorem lookup_invoke {i j : Nat} (hij : i < j) (n : Node Handle) (r : Running) :
    (sh.invoke i n r).2.pipes.lookup j = r.pipes.lookup j := by
  have hle : i ≤ j := Nat.le_of_lt hij
  obtain ⟨f, -, hinvoke⟩ | ⟨source, r', hin, hrest⟩ := sh.invoke_cases i n r
  · rw [hinvoke, (Running.sameData_stopAt sh n.name r f).pipes]
  obtain ⟨-, -, -, hpipes⟩ := Running.openInput_ok hin
  obtain ⟨f, -, hinvoke⟩ | ⟨opened, h, -, -, -, -, hinvoke⟩ | ⟨opened, e, -, rfl, -, -, hinvoke⟩ :=
    hrest
  · rw [hinvoke, (Running.sameData_stopAt sh n.name r' f).pipes, hpipes j hle]
  · rw [hinvoke]
    exact hpipes j hle
  · have hother : ¬ (e.sink = .pipe ∧ e.index = j) := fun h => Nat.ne_of_lt hij h.2
    rw [hinvoke, (Running.sameData_settle sh n.name e.sink e.ending _).pipes,
      Running.lookup_after, if_neg hother, hpipes j hle]

/-- A command that gives a code sets no fault and does not go on for ever. -/
theorem goes_of_code {i : Nat} {n : Node Handle} {r r' : Running} {code : ExitCode}
    (h : sh.invoke i n r = (some code, r')) : r'.fault = r.fault ∧ r'.hang = r.hang := by
  obtain ⟨-, -, hcases⟩ := sh.invoke_ends i n r
  rw [h] at hcases
  obtain ⟨f, -, hnone, -⟩ | ⟨_, -, hnone, -⟩ |
    ⟨e, -, -, hhang, ⟨-, -, hfault⟩ | ⟨-, hnone, -⟩⟩ := hcases
  · cases hnone
  · cases hnone
  · exact ⟨hfault, hhang⟩
  · cases hnone

/-- A command that gives none does one of the two. -/
theorem stops_of_no_code {i : Nat} {n : Node Handle} {r r' : Running}
    (h : sh.invoke i n r = (none, r')) : (r'.fault.isSome || r'.hang.isSome) = true := by
  obtain ⟨-, -, hcases⟩ := sh.invoke_ends i n r
  rw [h] at hcases
  obtain ⟨f, -, -, -, hfault, -⟩ | ⟨_, -, -, -, -, hhang⟩ |
    ⟨e, -, -, -, ⟨-, hsome, -⟩ | ⟨-, -, hfault⟩⟩ := hcases
  · rw [hfault]
    rfl
  · rw [hhang]
    exact Bool.or_true _
  · cases hsome
  · rw [hfault]
    rfl

end Shell

/-- A course has stopped exactly if a fault is set or a command goes on for ever, the pipes of the
commands to come are empty, and the last code is the last one among the outcomes. -/
structure Course.Regular (c : Course Running) : Prop where
  stopped : c.stopped = (c.state.fault.isSome || c.state.hang.isSome)
  pipes : ∀ j, c.outcomes.length ≤ j → c.state.pipes.lookup j = none
  last : c.last = c.outcomes.reverse.findSome? Outcome.code?

namespace Course.Regular

theorem step {c : Course Running} (h : c.Regular) (sh : Shell) (n : Node Handle) :
    (c.step sh.invoke n).Regular := by
  have hlast := @last_eq_step _ _ sh.invoke c h.last n
  have hpipes : ∀ o j, (c.outcomes ++ [o]).length ≤ j → c.state.pipes.lookup j = none := by
    intro o j hj
    rw [List.length_append] at hj
    exact h.pipes j (Nat.le_of_succ_le hj)
  have hinvoke : ∀ {code s}, sh.invoke c.outcomes.length n c.state = (code, s) →
      ∀ o j, (c.outcomes ++ [o]).length ≤ j → s.pipes.lookup j = none := by
    intro code s ha o j hj
    have hlt : c.outcomes.length < j := by
      rw [List.length_append] at hj
      exact hj
    have hkept := sh.lookup_invoke hlt n c.state
    rw [ha] at hkept
    exact hkept.trans (hpipes o j hj)
  obtain ⟨-, hstep⟩ | ⟨-, -, hstep⟩ | ⟨-, -, ⟨code, s, ha, hstep⟩ | ⟨s, ha, hstep⟩⟩ :=
    step_cases sh.invoke c n <;> rw [hstep] at hlast ⊢
  · exact ⟨h.stopped, hpipes .notRun, hlast⟩
  · exact ⟨h.stopped, hpipes .skipped, hlast⟩
  · obtain ⟨hfault, hhang⟩ := sh.goes_of_code ha
    exact ⟨h.stopped.trans (by rw [hfault, hhang]), hinvoke ha (.ran code), hlast⟩
  · exact ⟨(sh.stops_of_no_code ha).symm, hinvoke ha .notRun, hlast⟩

/-- As long as a course goes on there is no fault and no command that goes on for ever. -/
theorem of_running {c : Course Running} (h : c.Regular) (hgo : c.stopped = false) :
    c.state.fault = none ∧ c.state.hang = none := by
  have hneither := h.stopped.symm.trans hgo
  rw [Bool.or_eq_false_iff] at hneither
  exact ⟨Option.isNone_iff_eq_none.mp (by simpa using hneither.1),
    Option.isNone_iff_eq_none.mp (by simpa using hneither.2)⟩

theorem fault_of_stopped {c : Course Running} (h : c.Regular) (hs : c.stopped = true)
    (hhang : c.state.hang = none) : ∃ text, c.state.fault = some text := by
  rw [h.stopped, hhang, Option.isSome_none, Bool.or_false] at hs
  exact Option.isSome_iff_exists.mp hs

end Course.Regular

/-- Courses side by side end with the same code, once a command was looked at. -/
theorem Course.Abreast.code {d b : Nat} {shown : Bytes} {said : List Notice}
    {before before' : List Outcome} {c c' : Course Running}
    (h : Abreast d b shown said before before' c c') (regular : c.Regular)
    (hhang : c.state.hang = none) (hlen : before.length < c.outcomes.length) :
    c'.code = c.code := by
  have hstopped := regular.stopped
  rw [hhang, Option.isSome_none, Bool.or_false] at hstopped
  rw [Course.code, Course.code, h.state.fault, ← hstopped]
  cases hs : c.stopped with
  | true => rfl
  | false => rw [h.last hs hlen]

namespace Shell

variable (sh : Shell)

theorem regular_course (nodes : List (Node Handle)) (w : World) : (sh.course nodes w).Regular :=
  Course.through_induction (fun _ n h => h.step sh n) nodes ⟨rfl, fun _ _ => rfl, rfl⟩

theorem length_outcomes_course (nodes : List (Node Handle)) (w : World) :
    (sh.course nodes w).outcomes.length = nodes.length := by
  rw [course, Course.length_outcomes_through]
  exact Nat.zero_add _

theorem course_append (xs ys : List (Node Handle)) (w : World) :
    sh.course (xs ++ ys) w = (sh.course xs w).through sh.invoke ys :=
  Course.through_append _ xs ys

theorem exitCode_course (nodes : List (Node Handle)) (w : World) :
    ((sh.course nodes w).report nodes).exitCode = (sh.course nodes w).code :=
  Course.exitCode_report (sh.regular_course nodes w).last (sh.length_outcomes_course nodes w)

/-! ## 2. Lines whose chains are alike -/

variable {line : String} {nodes : List (Node Handle)}

theorem realizes_chain (h : sh.chain line = .ok nodes) :
    ∃ cs, Realizes sh.registry.resolver false cs nodes ∧ PipesMeet nodes := by
  obtain ⟨-, cs, -, hcs, hlast⟩ := build_ok_iff_splits.mp h
  exact ⟨cs, hcs, .of_realizes hcs hlast⟩

theorem chain_eq_ok (h : (sh.chain line).isOk = true) :
    sh.chain line = .ok ((sh.chain line).toOption.getD []) := by
  cases hchain : sh.chain line with
  | error e =>
    rw [hchain] at h
    cases h
  | ok nodes => rfl

/-- The first command of a line reads no pipe. -/
theorem head_chain (h : sh.chain line = .ok nodes) : ∀ n ∈ nodes.head?, n.input ≠ .piped := by
  obtain ⟨cs, hcs, -⟩ := sh.realizes_chain h
  intro n hn
  rw [Option.mem_def, List.head?_eq_getElem?] at hn
  exact hcs.head_not_piped hn

theorem course_alike {ns ns' : List (Node Handle)} (alike : List.Forall₂ Node.Alike ns ns')
    (hhead : ∀ n ∈ ns.head?, n.input ≠ .piped) (w : World) :
    Course.Abreast 0 0 [] [] [] [] (sh.course ns w) (sh.course ns' w) := by
  have start : Course.Abreast 0 0 [] [] [] [] { state := { world := w } }
      { state := { world := w } } :=
    ⟨rfl, ⟨rfl, rfl, rfl, rfl, rfl, fun _ _ => rfl, rfl, rfl⟩, rfl, [], rfl, rfl,
      fun _ => .inl ⟨rfl, rfl⟩⟩
  exact start.through alike sh (Nat.le_refl _) fun n hn hin => absurd hin (hhead n hn)

/-- **A line runs like every chain that is alike to its own.** -/
theorem run_alike {ns : List (Node Handle)} (h : sh.chain line = .ok ns)
    (alike : List.Forall₂ Node.Alike ns nodes) (w : World) :
    sh.run line w = (sh.course nodes w).result nodes := by
  obtain ⟨cs, hcs, -⟩ := sh.realizes_chain h
  have habreast := sh.course_alike alike (sh.head_chain h) w
  obtain ⟨os, ho, ho', -⟩ := habreast.outcomes
  have houtcomes : (sh.course nodes w).outcomes = (sh.course ns w).outcomes := ho'.trans ho.symm
  have hreport : (sh.course nodes w).report nodes = (sh.course ns w).report ns := by
    rw [Course.report, Course.report, houtcomes, habreast.state.fault,
      Node.Alike.zipWith_ofNode alike]
  rw [sh.run_course h hcs.fresh]
  obtain ⟨hnone, hnone'⟩ | ⟨-, hsome, hsome'⟩ := Course.results habreast.state.hang ns nodes
  · rw [hnone, hnone']
  · rw [hsome, hsome', hreport, habreast.state.world_eq]

end Shell

/-! ## 3. One line after another -/

/-- The world as the next line finds it: the files stay, and nothing has been said or shown yet. -/
def World.renewed (w : World) : World :=
  { w with stdout := { w.stdout with written := [] }, notices := [] }

namespace World

variable {w w₁ w₂ : World}

theorem stderr_of_notices (h : w.notices = w₁.notices ++ w₂.notices) :
    w.stderr = w₁.stderr ++ w₂.stderr := by
  rw [stderr, h, List.filterMap_append, String.join_append]
  rfl

theorem warnings_of_notices (h : w.notices = w₁.notices ++ w₂.notices) :
    w.warnings = w₁.warnings ++ w₂.warnings := by
  rw [warnings, h, List.filterMap_append]
  rfl

end World

namespace Shell

variable (sh : Shell)

/-- **After a semicolon a chain runs as it would in a run of its own**, unless the line has
stopped. -/
theorem course_after_semicolon {xs ys ys' : List (Node Handle)} (w : World)
    (hlast : xs.getLast?.map Node.operator = some .semicolon)
    (hgo : (sh.course xs w).stopped = false) (alike : List.Forall₂ Node.Alike ys' ys)
    (hhead : ∀ n ∈ ys'.head?, n.input ≠ .piped) :
    let c := sh.course xs w
    Course.Abreast xs.length 0 c.state.world.stdout.written c.state.world.notices [] c.outcomes
      (sh.course ys' c.state.world.renewed) (sh.course (xs ++ ys) w) := by
  intro c
  have regular : c.Regular := sh.regular_course xs w
  have hlen : c.outcomes.length = xs.length := sh.length_outcomes_course xs w
  have hgate : c.gate = .semicolon := by
    obtain ⟨n, hn, hop⟩ := Option.map_eq_some_iff.mp hlast
    exact (Course.gate_through_concat _ hn hgo).trans hop
  have start : Course.Abreast xs.length 0 c.state.world.stdout.written c.state.world.notices []
      c.outcomes { state := { world := c.state.world.renewed } } c := by
    refine ⟨by rw [hlen, List.length_nil, Nat.zero_add], ?_, hgo, [], rfl,
      (List.append_nil _).symm, fun _ => .inr ⟨rfl, rfl, ?_⟩⟩
    · refine ⟨rfl, rfl, (List.append_nil _).symm, rfl, (List.append_nil _).symm, fun j _ => ?_,
        (regular.of_running hgo).1, by rw [(regular.of_running hgo).2]⟩
      rw [regular.pipes _ (by omega)]
      rfl
    · rw [hgate]
      cases c.last <;> rfl
  rw [sh.course_append]
  exact start.through alike sh (Nat.le_refl _) fun n hn hin => absurd hin (hhead n hn)

/-- A line that has stopped before the semicolon does nothing after it. -/
theorem course_of_stopped {xs : List (Node Handle)} (ys : List (Node Handle)) {w : World}
    (hs : (sh.course xs w).stopped = true) :
    sh.course (xs ++ ys) w = { sh.course xs w with
      outcomes := (sh.course xs w).outcomes ++ ys.map fun _ => .notRun } := by
  rw [sh.course_append, Course.through_of_stopped ys hs]

/-- **A semicolon runs one line after another.** If the commands before the semicolon come to their
end, the line runs on like a line of the commands after it, in the files that those before it left:
the entries of both reports and what both show stand one after the other, and the fault is that of
the second line, and so is the code, unless there is nothing after the semicolon. If the commands
before it stop, that is all: nothing more is done, and nothing after the semicolon is run. The line
goes on for ever if one of the two does. -/
theorem run_sequence {line first second : String} {xs ys xs' ys' : List (Node Handle)}
    (hline : sh.chain line = .ok (xs ++ ys)) (hfirst : sh.chain first = .ok xs')
    (hsecond : sh.chain second = .ok ys') (alike : List.Forall₂ Node.Alike xs' xs)
    (alike' : List.Forall₂ Node.Alike ys' ys)
    (hlast : xs.getLast?.map Node.operator = some .semicolon) (w : World) :
    (sh.run first w = none ∧ sh.run line w = none) ∨
      ∃ report₁ after₁, sh.run first w = some (.ok report₁, after₁) ∧
        match report₁.fault with
        | none =>
          (sh.run second after₁.renewed = none ∧ sh.run line w = none) ∨
            ∃ report report₂ after after₂, sh.run line w = some (.ok report, after) ∧
              sh.run second after₁.renewed = some (.ok report₂, after₂) ∧
              report.nodes = report₁.nodes ++ report₂.nodes ∧ report.fault = report₂.fault ∧
              (ys ≠ [] → report.exitCode = report₂.exitCode) ∧ after.files = after₂.files ∧
              after.stdout.written = after₁.stdout.written ++ after₂.stdout.written ∧
              after.stderr = after₁.stderr ++ after₂.stderr ∧
              after.warnings = after₁.warnings ++ after₂.warnings
        | some _ =>
          ∃ report after, sh.run line w = some (.ok report, after) ∧
            report.nodes = report₁.nodes ++ ys.map (NodeReport.ofNode · .notRun) ∧
            report.fault = report₁.fault ∧ after = after₁ := by
  let c := sh.course xs w
  let c' := sh.course (xs ++ ys) w
  let c₂ := sh.course ys' c.state.world.renewed
  have regular : c.Regular := sh.regular_course xs w
  obtain ⟨_, hcs, -⟩ := sh.realizes_chain hline
  obtain ⟨_, hcs₂, -⟩ := sh.realizes_chain hsecond
  have hrun : sh.run line w = c'.result (xs ++ ys) := sh.run_course hline hcs.fresh w
  have hrun₁ : sh.run first w = c.result xs := sh.run_alike hfirst alike w
  have hrun₂ : sh.run second c.state.world.renewed = c₂.result ys' :=
    sh.run_course hsecond hcs₂.fresh _
  have hlen : xs.length = c.outcomes.length := (sh.length_outcomes_course xs w).symm
  cases hs : c.stopped with
  | false =>
    obtain ⟨hfault, hhang⟩ := regular.of_running hs
    have hfault : (c.report xs).fault = none := hfault
    refine .inr ⟨c.report xs, c.state.world, hrun₁.trans (Course.result_of_no_hang hhang), ?_⟩
    rw [hfault]
    have habreast := sh.course_after_semicolon w hlast hs alike' (sh.head_chain hsecond)
    obtain ⟨os, ho, ho', -⟩ := habreast.outcomes
    have hstate := habreast.state
    obtain ⟨hnone, hnone'⟩ | ⟨hhang₂, hsome, hsome'⟩ := Course.results hstate.hang ys' (xs ++ ys)
    · exact .inl ⟨hrun₂.trans hnone, hrun.trans hnone'⟩
    · refine .inr ⟨c'.report (xs ++ ys), c₂.report ys', c'.state.world, c₂.state.world,
        hrun.trans hsome', hrun₂.trans hsome, ?_, hstate.fault, fun hys => ?_, hstate.files,
        hstate.written, World.stderr_of_notices hstate.notices,
        World.warnings_of_notices hstate.notices⟩
      · have hos : c₂.outcomes = os := ho
        rw [Course.report_append hlen ho', Node.Alike.zipWith_ofNode alike', ← hos]
        rfl
      · have hlooked : ([] : List Outcome).length < c₂.outcomes.length := by
          rw [sh.length_outcomes_course, alike'.length_eq]
          exact List.length_pos_iff.mpr hys
        rw [sh.exitCode_course, sh.exitCode_course]
        exact habreast.code (sh.regular_course ys' _) hhang₂ hlooked
  | true =>
    have hrest : c' = { c with outcomes := c.outcomes ++ ys.map fun _ => .notRun } :=
      sh.course_of_stopped ys hs
    have hstate : c'.state = c.state := by rw [hrest]
    obtain ⟨hnone, hnone'⟩ | ⟨hhang, hsome, hsome'⟩ :=
      Course.results (congrArg (·.hang.isSome) hstate) xs (xs ++ ys)
    · exact .inl ⟨hrun₁.trans hnone, hrun.trans hnone'⟩
    · obtain ⟨text, hfault⟩ := regular.fault_of_stopped hs hhang
      have hfault : (c.report xs).fault = some text := hfault
      refine .inr ⟨c.report xs, c.state.world, hrun₁.trans hsome, ?_⟩
      rw [hfault]
      refine ⟨c'.report (xs ++ ys), c'.state.world, hrun.trans hsome', ?_, ?_, ?_⟩
      · rw [Course.report_append hlen (by rw [hrest]), List.zipWith_map_right, List.zipWith_self]
      · rw [Course.report, hstate]
        exact hfault
      · rw [hstate]

/-- The second line reads the file that the first one wrote. -/
theorem run_sequence_echo_wc :
    let sh : Shell := .ofConfig {}
    ∃ report report₁ report₂ after after₁ after₂,
      sh.run "echo a > f; false && cat < f; cat f | wc -c" {} = some (.ok report, after) ∧
      sh.run "echo a > f;" {} = some (.ok report₁, after₁) ∧
      sh.run "false && cat < f; cat f | wc -c" after₁.renewed = some (.ok report₂, after₂) ∧
      report.nodes = report₁.nodes ++ report₂.nodes ∧ report.exitCode = report₂.exitCode ∧
      after.files = after₂.files ∧
      after.stdout.written = after₁.stdout.written ++ after₂.stdout.written := by
  intro sh
  let line := "echo a > f; false && cat < f; cat f | wc -c"
  let first := "echo a > f;"
  let second := "false && cat < f; cat f | wc -c"
  let nodes := (sh.chain line).toOption.getD []
  obtain ⟨hok, hok₁, hok₂⟩ : (sh.chain line).isOk = true ∧
      (sh.chain first).isOk = true ∧ (sh.chain second).isOk = true := by decide +kernel
  have hline : sh.chain line = .ok (nodes.take 1 ++ nodes.drop 1) := by
    rw [List.take_append_drop]
    exact sh.chain_eq_ok hok
  obtain ⟨alike, alike', hlast, hrest⟩ :
      List.Forall₂ Node.Alike ((sh.chain first).toOption.getD []) (nodes.take 1) ∧
        List.Forall₂ Node.Alike ((sh.chain second).toOption.getD []) (nodes.drop 1) ∧
        (nodes.take 1).getLast?.map Node.operator = some .semicolon ∧
        (nodes.drop 1).isEmpty = false := by decide +kernel
  have hends : (sh.run line {}).isSome = true := by decide +kernel
  have hnever : sh.run line {} ≠ none := fun h => by
    rw [h] at hends
    cases hends
  obtain ⟨-, h⟩ | ⟨report₁, after₁, hrun₁, hrun⟩ :=
    sh.run_sequence hline (sh.chain_eq_ok hok₁) (sh.chain_eq_ok hok₂) alike alike' hlast {}
  · exact absurd h hnever
  have hfault : (sh.run first {}).bind (fun r => r.1.toOption.map Report.fault) = some none := by
    decide +kernel
  rw [hrun₁] at hfault
  have hfault : report₁.fault = none := Option.some.inj hfault
  rw [hfault] at hrun
  obtain ⟨-, h⟩ | ⟨report, report₂, after, after₂, hrun, hrun₂, hnodes, -, hcode, hfiles, hwritten,
    -⟩ := hrun
  · exact absurd h hnever
  · exact ⟨report, report₁, report₂, after, after₁, after₂, hrun, hrun₁, hrun₂, hnodes,
      hcode (List.isEmpty_eq_false_iff.mp hrest), hfiles, hwritten⟩

end Shell

end LineShell
