import LineShell.Proofs.Evaluation
import LineShell.Run

/-!
# The course of a run

A run of a chain asks the schedule for one command after the other. Its course looks at every command
once, in order, and needs no schedule: it carries the operator before the next command and the last
code, and a line that has stopped stays stopped. As it is a fold over the chain, what becomes of a
chain in two parts is what becomes of the second part after the first (`through_append`).

* `Course.step`: what becomes of the next command;
* `through_of_stopped`: once the line has stopped nothing happens any more;
* `run_eq_course`: the run of a chain has the outcomes and the state of its course;
* `Shell.run_course`: so what a line comes to can be read off its course.
-/

namespace LineShell

variable {α σ : Type}

/-! ## 1. Courses -/

/-- A chain under way, seen from the next command. -/
structure Course (σ : Type) where
  state : σ
  /-- The operator before the next command. -/
  gate : Operator := .endOfLine
  /-- The code of the last command that ran. -/
  last : Option ExitCode := none
  /-- What became of the commands so far. Their number is the position of the next one. -/
  outcomes : List Outcome := []
  stopped : Bool := false

namespace Course

/-- The next command runs, or its gate is closed, or the line has stopped. -/
def step (act : Nat → Node α → σ → Option ExitCode × σ) (c : Course σ) (n : Node α) : Course σ :=
  if c.stopped then { c with outcomes := c.outcomes ++ [.notRun] }
  else if gateOpen c.gate c.last then
    match act c.outcomes.length n c.state with
    | (some code, s) =>
      { c with state := s, gate := n.operator, last := some code,
               outcomes := c.outcomes ++ [.ran code] }
    | (none, s) => { c with state := s, stopped := true, outcomes := c.outcomes ++ [.notRun] }
  else { c with gate := n.operator, outcomes := c.outcomes ++ [.skipped] }

/-- The course through further commands. -/
def through (act : Nat → Node α → σ → Option ExitCode × σ) (c : Course σ) (nodes : List (Node α)) :
    Course σ :=
  nodes.foldl (step act) c

variable {act : Nat → Node α → σ → Option ExitCode × σ} {c : Course σ} {n : Node α}

@[simp] theorem through_nil (c : Course σ) : c.through act [] = c := rfl

@[simp] theorem through_cons (c : Course σ) (n : Node α) (nodes : List (Node α)) :
    c.through act (n :: nodes) = (c.step act n).through act nodes := rfl

theorem through_append (c : Course σ) (xs ys : List (Node α)) :
    c.through act (xs ++ ys) = (c.through act xs).through act ys :=
  List.foldl_append

theorem step_of_stopped (h : c.stopped = true) :
    c.step act n = { c with outcomes := c.outcomes ++ [.notRun] } :=
  if_pos h

theorem step_of_closed (h : c.stopped = false) (hgate : gateOpen c.gate c.last = false) :
    c.step act n = { c with gate := n.operator, outcomes := c.outcomes ++ [.skipped] } := by
  rw [step, if_neg (by simp [h]), if_neg (by simp [hgate])]

theorem step_of_ran (h : c.stopped = false) (hgate : gateOpen c.gate c.last = true)
    {code : ExitCode} {s : σ} (ha : act c.outcomes.length n c.state = (some code, s)) :
    c.step act n =
      { c with state := s, gate := n.operator, last := some code,
               outcomes := c.outcomes ++ [.ran code] } := by
  rw [step, if_neg (by simp [h]), if_pos hgate, ha]

theorem step_of_stop (h : c.stopped = false) (hgate : gateOpen c.gate c.last = true) {s : σ}
    (ha : act c.outcomes.length n c.state = (none, s)) :
    c.step act n =
      { c with state := s, stopped := true, outcomes := c.outcomes ++ [.notRun] } := by
  rw [step, if_neg (by simp [h]), if_pos hgate, ha]

/-- **What becomes of the next command**, in all cases. -/
theorem step_cases (act : Nat → Node α → σ → Option ExitCode × σ) (c : Course σ) (n : Node α) :
    (c.stopped = true ∧ c.step act n = { c with outcomes := c.outcomes ++ [.notRun] }) ∨
      (c.stopped = false ∧ gateOpen c.gate c.last = false ∧
        c.step act n = { c with gate := n.operator, outcomes := c.outcomes ++ [.skipped] }) ∨
      c.stopped = false ∧ gateOpen c.gate c.last = true ∧
        ((∃ code s, act c.outcomes.length n c.state = (some code, s) ∧
            c.step act n = { c with state := s, gate := n.operator, last := some code,
                                    outcomes := c.outcomes ++ [.ran code] }) ∨
          ∃ s, act c.outcomes.length n c.state = (none, s) ∧
            c.step act n = { c with state := s, stopped := true,
                                    outcomes := c.outcomes ++ [.notRun] }) := by
  by_cases hstopped : c.stopped = true
  · exact .inl ⟨hstopped, step_of_stopped hstopped⟩
  rw [Bool.not_eq_true] at hstopped
  by_cases hgate : gateOpen c.gate c.last = true
  · refine .inr (.inr ⟨hstopped, hgate, ?_⟩)
    rcases ha : act c.outcomes.length n c.state with ⟨- | code, s⟩
    · exact .inr ⟨s, rfl, step_of_stop hstopped hgate ha⟩
    · exact .inl ⟨code, s, rfl, step_of_ran hstopped hgate ha⟩
  · rw [Bool.not_eq_true] at hgate
    exact .inr (.inl ⟨hstopped, hgate, step_of_closed hstopped hgate⟩)

theorem length_outcomes_step (c : Course σ) (n : Node α) :
    (c.step act n).outcomes.length = c.outcomes.length + 1 := by
  obtain ⟨-, h⟩ | ⟨-, -, h⟩ | ⟨-, -, ⟨code, s, -, h⟩ | ⟨s, -, h⟩⟩ := step_cases act c n <;>
    simp [h]

theorem length_outcomes_through (nodes : List (Node α)) : ∀ c : Course σ,
    (c.through act nodes).outcomes.length = c.outcomes.length + nodes.length := by
  induction nodes with
  | nil => exact fun _ => rfl
  | cons n nodes ih =>
    intro c
    rw [through_cons, ih, length_outcomes_step, List.length_cons]
    omega

/-- **Once the line has stopped nothing happens any more.** -/
theorem through_of_stopped (nodes : List (Node α)) : ∀ {c : Course σ}, c.stopped = true →
    c.through act nodes = { c with outcomes := c.outcomes ++ nodes.map fun _ => .notRun } := by
  induction nodes with
  | nil =>
    intro c _
    rw [through_nil, List.map_nil, List.append_nil]
  | cons n nodes ih =>
    intro c h
    have hnext : (c.step act n).stopped = true := by rw [step_of_stopped h, h]
    rw [through_cons, ih hnext, step_of_stopped h, List.append_assoc]
    rfl

/-- What every step keeps holds at the end. -/
theorem through_induction {P : Course σ → Prop} (hstep : ∀ c n, P c → P (c.step act n)) :
    ∀ (nodes : List (Node α)) {c : Course σ}, P c → P (c.through act nodes)
  | [], _, h => h
  | n :: nodes, _, h => through_induction hstep nodes (hstep _ n h)

/-- The gate of the next command is the operator of the command before it. -/
theorem gate_through_concat {nodes : List (Node α)} (c : Course σ) {n : Node α}
    (h : nodes.getLast? = some n) (hgo : (c.through act nodes).stopped = false) :
    (c.through act nodes).gate = n.operator := by
  obtain ⟨front, rfl⟩ := List.getLast?_eq_some_iff.mp h
  rw [through_append, through_cons, through_nil] at hgo ⊢
  obtain ⟨hs, hstep⟩ | ⟨-, -, hstep⟩ | ⟨-, -, ⟨code, s, -, hstep⟩ | ⟨s, -, hstep⟩⟩ :=
    step_cases act (c.through act front) n
  · rw [hstep] at hgo
    exact absurd (hs.symm.trans hgo) (by decide)
  · rw [hstep]
  · rw [hstep]
  · rw [hstep] at hgo
    cases hgo

/-- The last code is the last one among the outcomes. -/
theorem last_eq_step (h : c.last = c.outcomes.reverse.findSome? Outcome.code?) (n : Node α) :
    (c.step act n).last = (c.step act n).outcomes.reverse.findSome? Outcome.code? := by
  obtain ⟨-, hstep⟩ | ⟨-, -, hstep⟩ | ⟨-, -, ⟨code, s, -, hstep⟩ | ⟨s, -, hstep⟩⟩ :=
    step_cases act c n <;> simp [hstep, h, List.findSome?_cons, Outcome.code?]

end Course

/-! ## 2. Runs and their courses -/

section Runs

variable {act : Nat → Node α → σ → Option ExitCode × σ} {nodes : List (Node α)}
  {codes : Nat → ExitCode} {start : σ}

/-- The outcome of the command at position `i` in the evaluation from left to right. -/
def outcomeAt (nodes : List (Node α)) (codes : Nat → ExitCode) (i : Nat) : Outcome :=
  if runsAt nodes codes i then .ran (codes i) else .skipped

theorem operatorAfter_getElem {k : Nat} (hk : k < nodes.length) :
    operatorAfter nodes k = nodes[k].operator := by
  rw [operatorAfter, List.getElem?_eq_getElem hk]
  rfl

/-- **An evaluation up to position `k` is the course through the commands before it.** -/
theorem Reaches.through {k : Nat} {s : σ} (h : Reaches act nodes codes start k s) :
    Course.through act { state := start } (nodes.take k) =
      { state := s, gate := gateBefore (operatorAfter nodes) k,
        last := codeBefore (operatorAfter nodes) codes k,
        outcomes := (List.range k).map (outcomeAt nodes codes) } := by
  induction h with
  | start => rfl
  | @skip k s _ hk hr ih =>
    have hgate := @gateOpen_before (operatorAfter nodes) codes k
    rw [← runsAt, hr] at hgate
    rw [List.take_succ_eq_append_getElem hk, Course.through_append, ih, Course.through_cons,
      Course.step_of_closed rfl hgate, codeBefore_of_not_runs hr, List.range_succ,
      List.map_append, List.map_singleton, outcomeAt, hr, gateBefore, operatorAfter_getElem hk]
    rfl
  | @run k s s' n _ hr hn ha ih =>
    obtain ⟨hk, rfl⟩ := List.getElem?_eq_some_iff.mp hn
    have hgate := @gateOpen_before (operatorAfter nodes) codes k
    rw [← runsAt, hr] at hgate
    have hact : act ((List.range k).map (outcomeAt nodes codes)).length nodes[k] s =
        (some (codes k), s') := by
      rw [List.length_map, List.length_range, ha]
    rw [List.take_succ_eq_append_getElem hk, Course.through_append, ih, Course.through_cons,
      Course.step_of_ran rfl hgate hact, codeBefore_of_runs hr, List.range_succ,
      List.map_append, List.map_singleton, outcomeAt, hr, gateBefore, operatorAfter_getElem hk]
    rfl

/-- The outcomes at the moment before position `k`, as a list. -/
theorem outcomes_moment (fresh : ∀ n ∈ nodes, n.result = none) {k : Nat} (hk : k ≤ nodes.length)
    (s : σ) :
    (moment nodes codes k s).schedule.outcomes (moment nodes codes k s).nodes =
      (List.range k).map (outcomeAt nodes codes) ++
        List.replicate (nodes.length - k) .notRun := by
  have hlen : (moment nodes codes k s).nodes.length = nodes.length := length_nodesBefore k
  rw [Schedule.outcomes, hlen, range_split hk, List.map_append]
  congr 1
  · refine List.map_congr_left fun i hi => ?_
    rw [outcome_moment codes fresh hk, if_pos (List.mem_range.mp hi), outcomeAt]
  · rw [List.eq_replicate_iff, List.length_map, List.length_range']
    refine ⟨rfl, fun o ho => ?_⟩
    obtain ⟨i, hi, rfl⟩ := List.mem_map.mp ho
    rw [List.mem_range'_1] at hi
    rw [outcome_moment codes fresh hk, if_neg (by omega)]

/-- Whatever does not look at the codes sees the chain of a run as it was at the start. -/
theorem map_nodesBefore {β : Type} (f : Node α → β) (hf : ∀ n code, f (n.record code) = f n)
    (k : Nat) : (nodesBefore nodes codes k).map f = nodes.map f := by
  apply List.ext_getElem?
  intro i
  rw [List.getElem?_map, List.getElem?_map, getElem?_nodesBefore, Option.map_map]
  congr 1
  funext n
  rw [Function.comp_apply]
  split
  · exact hf n _
  · rfl

/-- **A run of a chain has the outcomes and the state of its course.** -/
theorem run_eq_course (fresh : ∀ n ∈ nodes, n.result = none) :
    let d := Drive.run act { nodes := nodes, state := start }
    let c := Course.through act { state := start } nodes
    d.state = c.state ∧ d.schedule.outcomes d.nodes = c.outcomes ∧
      ∀ {β : Type} (f : Node α → β), (∀ n code, f (n.record code) = f n) →
        d.nodes.map f = nodes.map f := by
  intro d c
  obtain ⟨codes, k, s, hreach, hends⟩ := @run_reaches _ _ act nodes start fresh
  have hthrough := hreach.through
  obtain ⟨rfl, hd⟩ | ⟨n, s', hr, hn, ha, hd⟩ := hends
  · rw [List.take_length] at hthrough
    have hd : d = moment nodes codes nodes.length s := hd
    have hc : c = _ := hthrough
    rw [hd, outcomes_moment fresh hreach.le_length, hc, Nat.sub_self]
    exact ⟨rfl, List.append_nil _, fun f hf => map_nodesBefore f hf _⟩
  · obtain ⟨hk, rfl⟩ := List.getElem?_eq_some_iff.mp hn
    have hgate := @gateOpen_before (operatorAfter nodes) codes k
    rw [← runsAt, hr] at hgate
    have hact : act ((List.range k).map (outcomeAt nodes codes)).length nodes[k] s =
        (none, s') := by
      rw [List.length_map, List.length_range, ha]
    have hsplit : nodes = nodes.take k ++ nodes[k] :: nodes.drop (k + 1) := by
      rw [← List.drop_eq_getElem_cons hk, List.take_append_drop]
    have hrest : nodes.length - k = (nodes.drop (k + 1)).length + 1 := by
      rw [List.length_drop]
      omega
    have hd : d = moment nodes codes k s' := hd
    have hc : c = Course.through act { state := start }
        (nodes.take k ++ nodes[k] :: nodes.drop (k + 1)) := by
      rw [← hsplit]
    rw [Course.through_append, hthrough, Course.through_cons,
      Course.step_of_stop rfl hgate hact, Course.through_of_stopped _ rfl] at hc
    rw [hd, outcomes_moment fresh hreach.le_length, hc, hrest, List.replicate_succ,
      List.map_const', List.append_assoc]
    exact ⟨rfl, rfl, fun f hf => map_nodesBefore f hf _⟩

end Runs

/-! ## 3. Lines -/

/-- The report that the course of a chain gives. -/
def Course.report (c : Course Running) (nodes : List (Node α)) : Report :=
  { nodes := List.zipWith NodeReport.ofNode nodes c.outcomes, fault := c.state.fault }

/-- What a line comes to with the course of its chain. -/
def Course.result (c : Course Running) (nodes : List (Node α)) :
    Option (Except ChainError Report × World) :=
  c.state.result (c.report nodes)

theorem Course.result_of_hang {c : Course Running} {nodes : List (Node α)}
    (h : c.state.hang.isSome = true) : c.result nodes = none := by
  obtain ⟨hang, hhang⟩ := Option.isSome_iff_exists.mp h
  exact Running.result_of_hang hhang _

theorem Course.result_of_no_hang {c : Course Running} {nodes : List (Node α)}
    (h : c.state.hang = none) :
    c.result nodes = some (.ok (c.report nodes), c.state.world) :=
  Running.result_of_no_hang h _

/-- Where two courses go on for ever together or not at all, their lines come to nothing together, or
each of them to its report. -/
theorem Course.results {c c' : Course Running} (hang : c'.state.hang.isSome = c.state.hang.isSome)
    (nodes nodes' : List (Node α)) :
    (c.result nodes = none ∧ c'.result nodes' = none) ∨
      c.state.hang = none ∧ c.result nodes = some (.ok (c.report nodes), c.state.world) ∧
        c'.result nodes' = some (.ok (c'.report nodes'), c'.state.world) := by
  cases hsome : c.state.hang.isSome with
  | true => exact .inl ⟨result_of_hang hsome, result_of_hang (hang.trans hsome)⟩
  | false =>
    have hends : ∀ {r : Running}, r.hang.isSome = false → r.hang = none := fun h =>
      Option.isNone_iff_eq_none.mp (Option.isSome_eq_false_iff.mp h)
    exact .inr ⟨hends hsome, result_of_no_hang (hends hsome),
      result_of_no_hang (hends (hang.trans hsome))⟩

/-- The entries of a report stand one after the other as the commands do. -/
theorem Course.report_append {c c' : Course Running} {xs ys : List (Node α)} {os : List Outcome}
    (hlen : xs.length = c.outcomes.length) (ho : c'.outcomes = c.outcomes ++ os) :
    (c'.report (xs ++ ys)).nodes = (c.report xs).nodes ++ List.zipWith NodeReport.ofNode ys os := by
  rw [Course.report, ho, List.zipWith_append hlen]
  rfl

theorem Report.ofChain_eq (nodes : List (Node α)) (s : Schedule) (fault : Option String) :
    Report.ofChain nodes s fault =
      { nodes := List.zipWith NodeReport.ofNode nodes (s.outcomes nodes), fault := fault } := by
  rw [ofChain, Report.mk.injEq]
  refine ⟨?_, rfl⟩
  apply List.ext_getElem?
  intro i
  rw [List.getElem?_map, List.getElem?_zipIdx, List.getElem?_zipWith, Schedule.outcomes,
    List.getElem?_map]
  by_cases hi : i < nodes.length
  · simp [hi]
  · simp [hi]

/-- Entries of a report are told apart by nothing but what the nodes show. -/
theorem zipWith_ofNode_congr {xs ys : List (Node α)}
    (h : xs.map NodeReport.ofNode = ys.map NodeReport.ofNode) (os : List Outcome) :
    List.zipWith NodeReport.ofNode xs os = List.zipWith NodeReport.ofNode ys os := by
  have hmap := congrArg (List.zipWith (fun (entry : Outcome → NodeReport) o => entry o) · os) h
  simpa only [List.zipWith_map_left] using hmap

/-- The code that the course of a line ends with: the last code, and -1 after a fault. -/
def Course.code (c : Course Running) : ExitCode :=
  if c.state.fault.isSome then -1 else c.last.getD 0

/-- The code of a line is that of its course. -/
theorem Course.exitCode_report {c : Course Running} {nodes : List (Node α)}
    (hlast : c.last = c.outcomes.reverse.findSome? Outcome.code?)
    (hlen : c.outcomes.length = nodes.length) :
    (c.report nodes).exitCode = c.code := by
  have houtcomes : (c.report nodes).outcomes = c.outcomes := by
    have hsnd : (c.report nodes).outcomes = (nodes.zip c.outcomes).map Prod.snd := by
      rw [Report.outcomes, report, List.zip, List.map_zipWith, List.map_zipWith]
      rfl
    rw [hsnd, List.map_snd_zip (Nat.le_of_eq hlen)]
  rw [Report.exitCode, houtcomes, ← hlast]
  rfl

/-- The course of a chain in a world. -/
def Shell.course (sh : Shell) (nodes : List (Node Handle)) (w : World) : Course Running :=
  Course.through sh.invoke { state := { world := w } } nodes

/-- **A line comes to what its course comes to.** -/
theorem Shell.run_course (sh : Shell) {line : String} {nodes : List (Node Handle)}
    (hchain : sh.chain line = .ok nodes) (fresh : ∀ n ∈ nodes, n.result = none) (w : World) :
    sh.run line w = (sh.course nodes w).result nodes := by
  obtain ⟨hstate, houtcomes, hnodes⟩ := @run_eq_course _ _ sh.invoke nodes { world := w } fresh
  have hsame := hnodes NodeReport.ofNode fun _ _ => rfl
  have hrun : sh.run line w = (sh.drive nodes w).state.result
      (.ofChain (sh.drive nodes w).nodes (sh.drive nodes w).schedule
        (sh.drive nodes w).state.fault) := by
    simp only [run, hchain]
  rw [hrun, Report.ofChain_eq, drive, houtcomes, hstate, zipWith_ofNode_congr hsame]
  rfl

end LineShell
