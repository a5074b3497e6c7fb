import LineShell.Program.Log
import LineShell.Proofs.Composition
import Mathlib.Data.List.Basic

/-!
# The log of a line

The log of a line comes from a run that also notes what is said in the course of each command. The
notes change nothing of the run (`Course.running_through`), and they lose nothing of what is said
(`Course.Heard`). So **without its details, the log of a line is what the line says**
(`Shell.filter_log`).
-/

namespace LineShell

/-! ## 1. What is said is added at the end -/

/-- The second world has more said, and no details. -/
def World.Says (w w' : World) : Prop :=
  ∃ more, w'.notices = w.notices ++ more ∧ ∀ x ∈ more, x.isDetail = false

namespace World

variable {w w' w'' : World}

theorem says_of_eq (h : w'.notices = w.notices) : w.Says w' :=
  ⟨[], by rw [h, List.append_nil], fun _ hx => absurd hx List.not_mem_nil⟩

theorem says_of_one {x : Notice} (h : w'.notices = w.notices ++ [x]) (hx : x.isDetail = false) :
    w.Says w' :=
  ⟨[x], h, fun _ hy => List.mem_singleton.mp hy ▸ hx⟩

theorem Says.trans (h : w.Says w') (h' : w'.Says w'') : w.Says w'' := by
  obtain ⟨more, hmore, hplain⟩ := h
  obtain ⟨more', hmore', hplain'⟩ := h'
  refine ⟨more ++ more', by rw [hmore', hmore, List.append_assoc], fun x hx => ?_⟩
  exact (List.mem_append.mp hx).elim (hplain x) (hplain' x)

theorem says_warn (w : World) (message : String) : w.Says (w.warn message) := says_of_one rfl rfl

theorem says_say {line : String} (h : w.say line = .ok w') : w.Says w' := by
  rw [Running.say_ok h]
  exact says_of_one rfl rfl

end World

namespace Shell

variable (sh : Shell)

theorem says_stopAt (name : String) (r : Running) (f : RoutingFault) :
    r.world.Says (sh.stopAt name r f).world := by
  simp only [stopAt]
  split
  · rename_i hsay
    exact (World.says_warn _ _).trans (World.says_say hsay)
  · exact (World.says_warn _ _).trans (World.says_warn _ _)

theorem says_settle (name : String) (sink : Sink) (ending : Except CommandFault ExitCode)
    (r : Running) : r.world.Says (sh.settle name sink ending r).2.world := by
  simp only [settle]
  split
  · split
    · exact World.says_of_eq rfl
    · exact sh.says_stopAt name r _
  · split
    · rename_i world hreport
      have hreported : r.world.Says world := (World.says_warn _ _).trans (World.says_say hreport)
      split
      · exact hreported
      · exact hreported.trans (sh.says_stopAt name { r with world := world } _)
    · exact (World.says_warn _ _).trans (sh.says_stopAt name { r with world := _ } _)

/-- A command that runs adds to what was said. -/
theorem says_invoke (i : Nat) (n : Node Handle) (r : Running) :
    r.world.Says (sh.invoke i n r).2.world := by
  obtain ⟨f, -, hinvoke⟩ | ⟨source, r', hin, hrest⟩ := sh.invoke_cases i n r
  · rw [hinvoke]
    exact sh.says_stopAt n.name r f
  obtain ⟨hworld, -⟩ := Running.openInput_ok hin
  rw [← hworld]
  obtain ⟨f, -, hinvoke⟩ | ⟨opened, h, -, -, -, -, hinvoke⟩ | ⟨opened, e, -, -, -, -, hinvoke⟩ :=
    hrest
  · rw [hinvoke]
    exact sh.says_stopAt n.name r' f
  · rw [hinvoke]
    exact World.says_of_eq rfl
  · have hafter : (r'.after opened e).world.notices = r'.world.notices := by
      cases hsink : e.sink <;> simp [Running.after, Running.collect, hsink]
    rw [hinvoke]
    exact (World.says_of_eq hafter).trans (sh.says_settle n.name e.sink e.ending _)

end Shell

/-! ## 2. A run that takes notes -/

/-- What was noted of the command at position `k`. -/
def Noted.notesOn (s : Noted) (k : Nat) : List Notice := (s.notes.lookup k).getD []

namespace Course

/-- The course without the notes. -/
def unnoted (c : Course Noted) : Course Running :=
  { state := c.state.running, gate := c.gate, last := c.last, outcomes := c.outcomes,
    stopped := c.stopped }

theorem unnoted_step (sh : Shell) (c : Course Noted) (n : Node Handle) :
    (c.step sh.noting n).unnoted = c.unnoted.step sh.invoke n := by
  obtain ⟨hstopped, h⟩ | ⟨hgo, hgate, h⟩ | ⟨hgo, hgate, ⟨code, s, hact, h⟩ | ⟨s, hact, h⟩⟩ :=
    step_cases sh.noting c n
  · rw [h, @step_of_stopped _ _ sh.invoke c.unnoted n hstopped]
    rfl
  · rw [h, @step_of_closed _ _ sh.invoke c.unnoted n hgo hgate]
    rfl
  · have hinvoke : sh.invoke c.unnoted.outcomes.length n c.unnoted.state = (some code, s.running) :=
      congrArg (fun p => (p.1, p.2.running)) hact
    rw [h, @step_of_ran _ _ sh.invoke c.unnoted n hgo hgate code s.running hinvoke]
    rfl
  · have hinvoke : sh.invoke c.unnoted.outcomes.length n c.unnoted.state = (none, s.running) :=
      congrArg (fun p => (p.1, p.2.running)) hact
    rw [h, @step_of_stop _ _ sh.invoke c.unnoted n hgo hgate s.running hinvoke]
    rfl

/-- **Taking notes changes nothing.** -/
theorem running_through (sh : Shell) (nodes : List (Node Handle)) : ∀ c : Course Noted,
    (c.through sh.noting nodes).unnoted = c.unnoted.through sh.invoke nodes := by
  induction nodes with
  | nil => exact fun _ => rfl
  | cons n nodes ih =>
    intro c
    rw [through_cons, through_cons, ih, unnoted_step]

/-- The notes on the commands so far hold all that was said, with nothing but details besides. -/
structure Heard (c : Course Noted) : Prop where
  positions : ∀ p ∈ c.state.notes, p.1 < c.outcomes.length
  said : c.state.running.world.notices =
    ((List.range c.outcomes.length).flatMap c.state.notesOn).filter fun x => !x.isDetail

namespace Heard

variable {c : Course Noted}

theorem lookup_length (h : c.Heard) : c.state.notes.lookup c.outcomes.length = none := by
  refine List.lookup_eq_none_iff.mpr fun p hp => ?_
  have hlt := h.positions p hp
  rw [bne_iff_ne]
  omega

/-- Nothing is noted of a command that does not run. -/
theorem passes (h : c.Heard) {c' : Course Noted} {o : Outcome} (hstate : c'.state = c.state)
    (houtcomes : c'.outcomes = c.outcomes ++ [o]) : c'.Heard := by
  have hlength : c'.outcomes.length = c.outcomes.length + 1 := by simp [houtcomes]
  have hhere : c.state.notesOn c.outcomes.length = [] := by
    rw [Noted.notesOn, h.lookup_length, Option.getD_none]
  refine ⟨fun p hp => ?_, ?_⟩
  · have hlt := h.positions p (hstate ▸ hp)
    omega
  · rw [hstate, hlength, List.range_succ, List.flatMap_append, List.flatMap_singleton, hhere,
      List.append_nil, h.said]

/-- What a command says while it runs is noted. -/
theorem notes (h : c.Heard) (sh : Shell) (n : Node Handle) {c' : Course Noted} {o : Outcome}
    (hstate : c'.state = (sh.noting c.outcomes.length n c.state).2)
    (houtcomes : c'.outcomes = c.outcomes ++ [o]) : c'.Heard := by
  have hlength : c'.outcomes.length = c.outcomes.length + 1 := by simp [houtcomes]
  obtain ⟨more, hmore, hplain⟩ := sh.says_invoke c.outcomes.length n c.state.running
  have hsaid : ((sh.invoke c.outcomes.length n c.state.running).2.world.notices.drop
      c.state.running.world.notices.length) = more := by
    rw [hmore, List.drop_left]
  have hnotes : c'.state.notes =
      c.state.notes ++ [(c.outcomes.length, n.startDetail c.outcomes.length :: more)] := by
    rw [hstate, ← hsaid]
    rfl
  have hbefore : ∀ k ∈ List.range c.outcomes.length, c'.state.notesOn k = c.state.notesOn k := by
    intro k hk
    have hne : (k == c.outcomes.length) = false :=
      beq_false_of_ne (Nat.ne_of_lt (List.mem_range.mp hk))
    rw [Noted.notesOn, hnotes, List.lookup_append, List.lookup_cons, hne, List.lookup_nil,
      Option.or_none, Noted.notesOn]
  have hhere : c'.state.notesOn c.outcomes.length = n.startDetail c.outcomes.length :: more := by
    rw [Noted.notesOn, hnotes, List.lookup_append, h.lookup_length, Option.none_or,
      List.lookup_cons_self, Option.getD_some]
  have hkeep : (n.startDetail c.outcomes.length :: more).filter (fun x => !x.isDetail) = more := by
    rw [List.filter_cons_of_neg (by simp [Node.startDetail, Notice.isDetail])]
    exact List.filter_eq_self.mpr fun x hx => by rw [hplain x hx]; rfl
  have hworld : c'.state.running.world.notices = c.state.running.world.notices ++ more := by
    rw [hstate]
    exact hmore
  refine ⟨fun p hp => ?_, ?_⟩
  · rw [hnotes] at hp
    obtain hp | hp := List.mem_append.mp hp
    · have hlt := h.positions p hp
      omega
    · rw [List.mem_singleton.mp hp, hlength]
      exact Nat.lt_succ_self _
  · rw [hworld, hlength, List.range_succ, List.flatMap_append, List.flatMap_singleton,
      List.filter_append, hhere, hkeep, List.flatMap_congr hbefore, h.said]

theorem step (h : c.Heard) (sh : Shell) (n : Node Handle) : (c.step sh.noting n).Heard := by
  obtain ⟨-, hstep⟩ | ⟨-, -, hstep⟩ | ⟨-, -, ⟨code, s, hact, hstep⟩ | ⟨s, hact, hstep⟩⟩ :=
    step_cases sh.noting c n
  · exact h.passes (by rw [hstep]) (by rw [hstep])
  · exact h.passes (by rw [hstep]) (by rw [hstep])
  · exact h.notes sh n (by rw [hstep, hact]) (by rw [hstep])
  · exact h.notes sh n (by rw [hstep, hact]) (by rw [hstep])

end Heard
end Course

/-! ## 3. The log -/

namespace Shell

variable (sh : Shell)

theorem filter_commandLog (d : Drive Handle Noted) (k : Nat) (n : Node Handle) :
    (commandLog d k n).filter (fun x => !x.isDetail) =
      (d.state.notesOn k).filter fun x => !x.isDetail := by
  rw [commandLog, Noted.notesOn]
  cases d.state.notes.lookup k with
  | some said => rfl
  | none =>
    dsimp only
    split <;> rfl

/-- Without its details, what a run puts on the log is what the run says. -/
theorem filter_runLog {nodes : List (Node Handle)} (fresh : ∀ n ∈ nodes, n.result = none)
    (files : FileTree) :
    (sh.runLog nodes files).filter (fun x => !x.isDetail) =
      (sh.course nodes { files := files }).state.world.notices := by
  let start : Noted := { running := { world := { files := files } } }
  let d := Drive.run sh.noting { nodes := nodes, state := start }
  let c := Course.through sh.noting { state := start } nodes
  obtain ⟨hstate, -, hnodes⟩ := @run_eq_course _ _ sh.noting nodes start fresh
  have hlength : d.nodes.length = c.outcomes.length := by
    have hmap := congrArg List.length (hnodes (fun _ => ()) fun _ _ => rfl)
    rw [List.length_map, List.length_map] at hmap
    rw [Course.length_outcomes_through, List.length_nil, Nat.zero_add]
    exact hmap
  have hheard : c.Heard := by
    refine Course.through_induction (fun c n h => h.step sh n) nodes ⟨?_, rfl⟩
    exact fun p hp => absurd hp List.not_mem_nil
  have hcourse : sh.course nodes { files := files } = c.unnoted :=
    (Course.running_through sh nodes { state := start }).symm
  rw [hcourse]
  calc (sh.runLog nodes files).filter (fun x => !x.isDetail)
      = d.nodes.zipIdx.flatMap fun p => (c.state.notesOn p.2).filter fun x => !x.isDetail := by
        rw [runLog, List.filter_flatMap, ← hstate]
        exact List.flatMap_congr fun p _ => filter_commandLog d p.2 p.1
    _ = ((List.range c.outcomes.length).flatMap c.state.notesOn).filter fun x => !x.isDetail := by
        rw [← hlength, List.range_eq_range', ← List.zipIdx_map_snd, List.flatMap_map,
          List.filter_flatMap]
    _ = c.unnoted.state.world.notices := hheard.said.symm

variable (plain : Char → Bool)

theorem isDetail_of_chainDetails (nodes : List (Node Handle)) :
    ∀ x ∈ chainDetails plain nodes, x.isDetail = true := by
  have hnode (k : Nat) (piped : Bool) (n : Node Handle) :
      ∀ x ∈ n.details plain k piped, x.isDetail = true := by
    cases hinput : n.input <;> cases piped <;> simp [Node.details, hinput, Notice.isDetail]
  intro x hx
  obtain ⟨⟨n, k⟩, -, hx⟩ := List.mem_flatMap.mp hx
  exact hnode _ _ n x hx

/-- Reading a line and building its chain puts nothing but details on the log. -/
theorem filter_reading (parts : List Segment) (nodes : List (Node Handle)) :
    (parts.map (Segment.detail plain) ++ chainDetails plain nodes).filter (fun x => !x.isDetail) =
      [] := by
  refine List.filter_eq_nil_iff.mpr fun x hx => ?_
  obtain hx | hx := List.mem_append.mp hx
  · obtain ⟨s, -, rfl⟩ := List.mem_map.mp hx
    exact Bool.false_ne_true
  · simp [isDetail_of_chainDetails plain nodes x hx]

/-- The log of a line that makes a chain: of its segments, of the commands of the chain, and of the
run. -/
theorem log_of_chain {line : String} {nodes : List (Node Handle)}
    (hchain : sh.chain line = .ok nodes) (files : FileTree) :
    sh.log plain line files =
      (sh.parse line).map (Segment.detail plain) ++ chainDetails plain nodes ++
        builtDetail nodes :: sh.runLog nodes files := by
  rw [log, hchain, completeNodes_of_build hchain]

/-- **Without its details, the log of a line is what the line says.** -/
theorem filter_log {line : String} {files : FileTree} {result : Except ChainError Report}
    {after : World} (h : sh.run line { files := files } = some (result, after)) :
    (sh.log plain line files).filter (fun x => !x.isDetail) = after.notices := by
  cases hchain : sh.chain line with
  | error e =>
    rw [run, hchain] at h
    obtain ⟨-, rfl⟩ := Prod.mk.inj (Option.some.inj h)
    simp only [log, hchain]
    exact filter_reading plain _ _
  | ok nodes =>
    obtain ⟨cs, hcs, -⟩ := sh.realizes_chain hchain
    rw [sh.run_course hchain hcs.fresh] at h
    obtain ⟨-, hresult⟩ := Running.of_result h
    cases hresult
    rw [sh.log_of_chain plain hchain, List.filter_append, filter_reading,
      List.nil_append, List.filter_cons_of_neg (by simp [builtDetail, Notice.isDetail]),
      sh.filter_runLog hcs.fresh]

end Shell
end LineShell
