import LineShell.Schedule

/-!
# The schedule runs what left-to-right evaluation runs

The reference evaluation of a chain looks at every command once, from left to right, and carries the
code of the last command that ran (`lastCode`): the first command runs, and a later one runs when
the operator before it opens its gate on that code (`runs`). A skipped command leaves the code alone.

The schedule starts over on each call. What ties the two together is the moment at which exactly the
commands before position `k` are decided (`nodesBefore`, `skippedBefore`):

* `exists_nearest`: the code carried is the one of the nearest command that ran;
* `nextRunnable_before`: at such a moment the schedule offers the next command that runs, and has
  skipped the ones in between, which is such a moment again;
* `outcome_moment`: at such a moment a command before position `k` has run or is skipped, and
  nothing is known of the others;
* `go_before`, `run_recording`: so pulling commands and recording their codes is the reference
  evaluation, from any such moment and from the start.
-/

namespace LineShell

/-! ## 1. The reference evaluation -/

section Reference

variable (gate : Nat → Operator) (codes : Nat → ExitCode)

/-- The code of the last command that ran, once the command at position `i` has been looked at. -/
def lastCode : Nat → ExitCode
  | 0 => codes 0
  | i + 1 => if (gate i).opens (lastCode i) then codes (i + 1) else lastCode i

/-- The command at position `i` runs; `gate i` is the operator after it. -/
def runs : Nat → Bool
  | 0 => true
  | i + 1 => (gate i).opens (lastCode gate codes i)

variable {gate codes}

theorem lastCode_of_runs : ∀ {i : Nat}, runs gate codes i = true → lastCode gate codes i = codes i
  | 0, _ => rfl
  | _ + 1, h => if_pos h

theorem lastCode_of_not_runs {i : Nat} (h : runs gate codes (i + 1) = false) :
    lastCode gate codes (i + 1) = lastCode gate codes i :=
  if_neg (by rw [runs] at h; simp [h])

/-- **The code carried is the one of the nearest command that ran.** -/
theorem exists_nearest (i : Nat) :
    ∃ j, j ≤ i ∧ runs gate codes j = true ∧ lastCode gate codes i = codes j ∧
      ∀ m, j < m → m ≤ i → runs gate codes m = false := by
  induction i with
  | zero => exact ⟨0, Nat.le_refl _, rfl, rfl, fun m h1 h2 => by omega⟩
  | succ i ih =>
    cases hr : runs gate codes (i + 1) with
    | true => exact ⟨i + 1, Nat.le_refl _, hr, lastCode_of_runs hr, fun m h1 h2 => by omega⟩
    | false =>
      obtain ⟨j, hj, hrun, hcode, hbetween⟩ := ih
      refine ⟨j, by omega, hrun, ?_, fun m h1 h2 => ?_⟩
      · rw [lastCode_of_not_runs hr, hcode]
      · rcases Nat.lt_or_ge i m with h | h
        · have e : m = i + 1 := by omega
          rw [e, hr]
        · exact hbetween m h1 h

/-- The gate of the command at position `i`. -/
def gateBefore (gate : Nat → Operator) : Nat → Operator
  | 0 => .endOfLine
  | i + 1 => gate i

/-- The code on which that gate is asked; none for the first command. -/
def codeBefore (gate : Nat → Operator) (codes : Nat → ExitCode) : Nat → Option ExitCode
  | 0 => none
  | i + 1 => some (lastCode gate codes i)

theorem gateOpen_before : ∀ i : Nat,
    gateOpen (gateBefore gate i) (codeBefore gate codes i) = runs gate codes i
  | 0 => rfl
  | _ + 1 => rfl

theorem codeBefore_of_runs {i : Nat} (h : runs gate codes i = true) :
    codeBefore gate codes (i + 1) = some (codes i) :=
  congrArg some (lastCode_of_runs h)

theorem codeBefore_of_not_runs : ∀ {i : Nat}, runs gate codes i = false →
    codeBefore gate codes (i + 1) = codeBefore gate codes i
  | 0, h => by cases h
  | _ + 1, h => congrArg some (lastCode_of_not_runs h)

end Reference

/-! ## 2. Sets of positions -/

theorem Positions.insert_of_lt : ∀ {js : Positions} {i : Nat}, (∀ j ∈ js, j < i) →
    js.insert i = js ++ [i]
  | [], _, _ => rfl
  | j :: js, i, h => by
    have hj : j < i := h j List.mem_cons_self
    have ih := insert_of_lt fun m hm => h m (List.mem_cons_of_mem j hm)
    rw [Positions.insert, if_neg (by omega), if_neg (by omega), ih]
    rfl

/-- Positions that all lie past the set are added at its end. -/
theorem Positions.insertAll_range' (m : Nat) : ∀ {js : Positions} {k : Nat}, (∀ j ∈ js, j < k) →
    js.insertAll (List.range' k m) = js ++ List.range' k m := by
  induction m with
  | zero =>
    intro js k _
    exact (List.append_nil js).symm
  | succ m ih =>
    intro js k h
    have hnext : ∀ j ∈ js ++ [k], j < k + 1 := by
      intro j hj
      rcases List.mem_append.mp hj with hj | hj
      · exact Nat.lt_succ_of_lt (h j hj)
      · rw [List.mem_singleton.mp hj]
        exact Nat.lt_succ_self k
    have step : js.insertAll (List.range' k (m + 1)) =
        Positions.insertAll (js.insert k) (List.range' (k + 1) m) := rfl
    rw [step, insert_of_lt h, ih hnext, List.append_assoc]
    rfl

theorem range_split {k j : Nat} (h : k ≤ j) :
    List.range j = List.range k ++ List.range' k (j - k) := by
  have split := @List.range'_append_1 0 k (j - k)
  rw [Nat.zero_add, Nat.add_sub_cancel' h] at split
  rw [List.range_eq_range', List.range_eq_range', split]

/-- A stretch of positions that all pass a test passes the filter whole. -/
theorem filter_range_of_all {p : Nat → Bool} {k j : Nat} (hkj : k ≤ j)
    (h : ∀ m, k ≤ m → m < j → p m = true) :
    (List.range j).filter p = (List.range k).filter p ++ List.range' k (j - k) := by
  have all : (List.range' k (j - k)).filter p = List.range' k (j - k) := by
    rw [List.filter_eq_self]
    intro m hm
    rw [List.mem_range'_1] at hm
    exact h m hm.1 (by omega)
  rw [range_split hkj, List.filter_append, all]

/-- A stretch of positions that all fail a test adds nothing to the filter. -/
theorem filter_range_of_none {p : Nat → Bool} {k j : Nat} (hkj : k ≤ j)
    (h : ∀ m, k ≤ m → m < j → p m = false) :
    (List.range j).filter p = (List.range k).filter p := by
  have none : (List.range' k (j - k)).filter p = [] := by
    rw [List.filter_eq_nil_iff]
    intro m hm
    rw [List.mem_range'_1] at hm
    rw [h m hm.1 (by omega)]
    exact Bool.false_ne_true
  rw [range_split hkj, List.filter_append, none, List.append_nil]

/-! ## 3. The moment before position `k` -/

section Moment

variable {α : Type} (nodes : List (Node α)) (codes : Nat → ExitCode)

/-- The operator after the command at position `i`. -/
def operatorAfter (i : Nat) : Operator := (nodes[i]?.map Node.operator).getD .endOfLine

/-- The command at position `i` runs in the reference evaluation of the chain. -/
def runsAt (i : Nat) : Bool := runs (operatorAfter nodes) codes i

/-- The chain once the commands before position `k` are decided: those that run have their codes. -/
def nodesBefore (k : Nat) : List (Node α) :=
  nodes.mapIdx fun i n => if i < k ∧ runsAt nodes codes i then n.record (codes i) else n

/-- The commands before position `k` that are skipped. -/
def skippedBefore (k : Nat) : Positions := (List.range k).filter fun i => !runsAt nodes codes i

/-- The commands before position `k` that run. -/
def ranBefore (k : Nat) : List Nat := (List.range k).filter (runsAt nodes codes)

variable {nodes codes}

@[simp] theorem length_nodesBefore (k : Nat) : (nodesBefore nodes codes k).length = nodes.length :=
  List.length_mapIdx

theorem getElem?_nodesBefore (k i : Nat) :
    (nodesBefore nodes codes k)[i]? =
      nodes[i]?.map fun n => if i < k ∧ runsAt nodes codes i then n.record (codes i) else n :=
  List.getElem?_mapIdx

theorem nodesBefore_zero : nodesBefore nodes codes 0 = nodes := by
  apply List.ext_getElem?
  intro i
  rw [getElem?_nodesBefore]
  simp

/-- Commands that do not run are decided without a change to the chain. -/
theorem nodesBefore_of_none {k j : Nat} (hkj : k ≤ j)
    (h : ∀ m, k ≤ m → m < j → runsAt nodes codes m = false) :
    nodesBefore nodes codes j = nodesBefore nodes codes k := by
  apply List.ext_getElem?
  intro i
  rw [getElem?_nodesBefore, getElem?_nodesBefore]
  congr 1
  funext n
  by_cases hr : runsAt nodes codes i = true
  · have hi : i < j ↔ i < k := by
      refine ⟨fun hij => ?_, fun hik => by omega⟩
      rcases Nat.lt_or_ge i k with hik | hki
      · exact hik
      · rw [h i hki hij] at hr
        cases hr
    simp only [hi]
  · rw [if_neg fun e => hr e.2, if_neg fun e => hr e.2]

/-- Recording the code of the next command decides it. -/
theorem recordAt_nodesBefore {j : Nat} (h : runsAt nodes codes j = true) :
    recordAt (nodesBefore nodes codes j) j (codes j) = nodesBefore nodes codes (j + 1) := by
  apply List.ext_getElem?
  intro i
  rw [recordAt, List.getElem?_modify, getElem?_nodesBefore, getElem?_nodesBefore,
    Option.map_eq_map, Option.map_map]
  congr 1
  funext n
  rcases Nat.lt_trichotomy i j with hij | rfl | hij
  · have h1 : j ≠ i := by omega
    have h2 : i < j + 1 := by omega
    simp [h1, h2, hij]
  · simp [h]
  · have h1 : j ≠ i := by omega
    have h2 : ¬ i < j + 1 := by omega
    have h3 : ¬ i < j := by omega
    simp [h1, h2, h3]

theorem skippedBefore_of_none {k j : Nat} (hkj : k ≤ j)
    (h : ∀ m, k ≤ m → m < j → runsAt nodes codes m = false) :
    skippedBefore nodes codes j =
      (skippedBefore nodes codes k).insertAll (List.range' k (j - k)) := by
  have below : ∀ i ∈ skippedBefore nodes codes k, i < k := fun i hi =>
    List.mem_range.mp (List.mem_filter.mp hi).1
  rw [Positions.insertAll_range' (j - k) below, skippedBefore, skippedBefore]
  exact filter_range_of_all hkj fun m h1 h2 => by rw [h m h1 h2]; rfl

theorem skippedBefore_succ {j : Nat} (h : runsAt nodes codes j = true) :
    skippedBefore nodes codes (j + 1) = skippedBefore nodes codes j := by
  rw [skippedBefore, skippedBefore, List.range_succ, List.filter_append]
  simp [h]

theorem ranBefore_of_none {k j : Nat} (hkj : k ≤ j)
    (h : ∀ m, k ≤ m → m < j → runsAt nodes codes m = false) :
    ranBefore nodes codes j = ranBefore nodes codes k :=
  filter_range_of_none hkj h

theorem ranBefore_succ {j : Nat} (h : runsAt nodes codes j = true) :
    ranBefore nodes codes (j + 1) = ranBefore nodes codes j ++ [j] := by
  rw [ranBefore, ranBefore, List.range_succ, List.filter_append]
  simp [h]

/-! ## 4. The next command -/

variable (codes)

/-- The command at position `i`, at the moment before position `k`. -/
theorem drop_nodesBefore (fresh : ∀ n ∈ nodes, n.result = none) (k : Nat) {i : Nat}
    (hi : i < nodes.length) :
    ∃ n : Node α,
      (nodesBefore nodes codes k).drop i = n :: (nodesBefore nodes codes k).drop (i + 1) ∧
      n.operator = operatorAfter nodes i ∧
      n.result = if i < k ∧ runsAt nodes codes i then some (codes i) else none := by
  have hi' : i < (nodesBefore nodes codes k).length := by rw [length_nodesBefore]; exact hi
  have hget := @getElem?_nodesBefore _ nodes codes k i
  rw [List.getElem?_eq_getElem hi', List.getElem?_eq_getElem hi, Option.map_some,
    Option.some.injEq] at hget
  refine ⟨(nodesBefore nodes codes k)[i], List.drop_eq_getElem_cons hi', ?_, ?_⟩
  · rw [hget, operatorAfter, List.getElem?_eq_getElem hi]
    split <;> rfl
  · rw [hget]
    split
    · rfl
    · exact fresh _ (List.getElem_mem hi)

/-- The search passes over the decided commands and arrives with the code of the last that ran. -/
theorem seek_decided (fresh : ∀ n ∈ nodes, n.result = none) {k : Nat} (hk : k ≤ nodes.length) :
    ∀ d i : Nat, i + d = k →
      seek (skippedBefore nodes codes k) i (gateBefore (operatorAfter nodes) i)
          (codeBefore (operatorAfter nodes) codes i) ((nodesBefore nodes codes k).drop i) =
        seek (skippedBefore nodes codes k) k (gateBefore (operatorAfter nodes) k)
          (codeBefore (operatorAfter nodes) codes k) ((nodesBefore nodes codes k).drop k)
  | 0, i, h => by
    rw [Nat.add_zero] at h
    rw [h]
  | d + 1, i, h => by
    have ih := seek_decided fresh hk d (i + 1) (by omega)
    obtain ⟨n, hdrop, hop, hres⟩ := drop_nodesBefore codes fresh k (show i < nodes.length by omega)
    rw [← ih, hdrop]
    cases hr : runsAt nodes codes i with
    | true =>
      rw [if_pos ⟨by omega, hr⟩] at hres
      rw [codeBefore_of_runs hr]
      simp only [seek, hres, hop, gateBefore]
    | false =>
      have hskip : (skippedBefore nodes codes k).contains i = true := by
        rw [List.contains_iff_mem, skippedBefore, List.mem_filter, List.mem_range, hr]
        exact ⟨by omega, rfl⟩
      rw [if_neg fun e => by rw [hr] at e; cases e.2] at hres
      rw [codeBefore_of_not_runs hr]
      simp only [seek, hres, hop, hskip, if_true, gateBefore]

/-- Past the decided commands the search skips up to the next one that runs. -/
theorem seek_undecided (fresh : ∀ n ∈ nodes, n.result = none) {k : Nat} :
    ∀ d i : Nat, k ≤ i → i + d = nodes.length →
      ∃ j, i ≤ j ∧ j ≤ nodes.length ∧ (∀ m, i ≤ m → m < j → runsAt nodes codes m = false) ∧
        (j < nodes.length → runsAt nodes codes j = true) ∧
        seek (skippedBefore nodes codes k) i (gateBefore (operatorAfter nodes) i)
          (codeBefore (operatorAfter nodes) codes i) ((nodesBefore nodes codes k).drop i) =
        (if j < nodes.length then some j else none, List.range' i (j - i))
  | 0, i, _, h => by
    refine ⟨i, Nat.le_refl i, by omega, fun m h1 h2 => by omega, fun hlt => by omega, ?_⟩
    rw [List.drop_eq_nil_of_le (by rw [length_nodesBefore]; omega), if_neg (by omega), Nat.sub_self]
    rfl
  | d + 1, i, hki, h => by
    obtain ⟨n, hdrop, hop, hres⟩ := drop_nodesBefore codes fresh k (show i < nodes.length by omega)
    rw [if_neg fun e => by omega] at hres
    have hskip : (skippedBefore nodes codes k).contains i = false := by
      rw [← Bool.not_eq_true, List.contains_iff_mem, skippedBefore, List.mem_filter, List.mem_range]
      exact fun e => absurd e.1 (by omega)
    have hgate := @gateOpen_before (operatorAfter nodes) codes i
    rw [hdrop]
    cases hr : runsAt nodes codes i with
    | true =>
      rw [← runsAt, hr] at hgate
      refine ⟨i, Nat.le_refl i, by omega, fun m h1 h2 => by omega, fun _ => hr, ?_⟩
      rw [if_pos (by omega), Nat.sub_self]
      simp only [seek, hres, hskip, hgate, if_true]
      rfl
    | false =>
      rw [← runsAt, hr] at hgate
      obtain ⟨j, hj, hjn, hnone, hrun, hseek⟩ :=
        seek_undecided fresh (k := k) d (i + 1) (by omega) (by omega)
      refine ⟨j, by omega, hjn, fun m h1 h2 => ?_, hrun, ?_⟩
      · rcases Nat.eq_or_lt_of_le h1 with rfl | h1
        · exact hr
        · exact hnone m h1 h2
      · rw [codeBefore_of_not_runs hr] at hseek
        have hrange : List.range' i (j - i) = i :: List.range' (i + 1) (j - (i + 1)) := by
          rw [show j - i = (j - (i + 1)) + 1 by omega, List.range'_succ]
        simp only [gateBefore] at hseek
        simp only [seek, hres, hop, hskip, hgate, hseek, hrange]
        rfl

/-- **At a moment before position `k` the next command is the next one that runs**, and afterwards
the ones in between are skipped. -/
theorem nextRunnable_before (fresh : ∀ n ∈ nodes, n.result = none) {k : Nat}
    (hk : k ≤ nodes.length) :
    ∃ j, k ≤ j ∧ j ≤ nodes.length ∧ (∀ m, k ≤ m → m < j → runsAt nodes codes m = false) ∧
      (j < nodes.length → runsAt nodes codes j = true) ∧
      nextRunnable (nodesBefore nodes codes k) (skippedBefore nodes codes k) =
        (if j < nodes.length then some j else none, skippedBefore nodes codes j) := by
  have hstart := seek_decided codes fresh hk k 0 (Nat.zero_add k)
  rw [List.drop_zero] at hstart
  obtain ⟨j, hkj, hjn, hnone, hrun, hseek⟩ :=
    seek_undecided codes fresh (nodes.length - k) k (Nat.le_refl k) (by omega)
  refine ⟨j, hkj, hjn, hnone, hrun, ?_⟩
  rw [skippedBefore_of_none hkj hnone]
  simp only [nextRunnable]
  rw [show seek (skippedBefore nodes codes k) 0 .endOfLine none (nodesBefore nodes codes k) = _ from
    hstart.trans hseek]

/-! ## 5. The chain at a moment -/

variable {σ : Type}

variable (nodes) in
/-- The chain under way at the moment before position `k`, with the state that its commands act
on. -/
def moment (k : Nat) (s : σ) : Drive α σ :=
  { nodes := nodesBefore nodes codes k, schedule := ⟨skippedBefore nodes codes k⟩, state := s }

theorem moment_zero (s : σ) : moment nodes codes 0 s = { nodes := nodes, state := s } := by
  rw [moment, nodesBefore_zero]
  rfl

/-- **The outcomes at a moment**: the commands before it have run or are skipped, and nothing is
known of the others. -/
theorem outcome_moment (fresh : ∀ n ∈ nodes, n.result = none) {k : Nat} (hk : k ≤ nodes.length)
    (s : σ) (i : Nat) :
    (moment nodes codes k s).schedule.outcome (moment nodes codes k s).nodes i =
      if i < k then if runsAt nodes codes i then .ran (codes i) else .skipped else .notRun := by
  have hresult : (nodesBefore nodes codes k)[i]?.bind Node.result =
      if i < k ∧ runsAt nodes codes i then some (codes i) else none := by
    rw [getElem?_nodesBefore]
    cases hn : nodes[i]? with
    | none =>
      rw [List.getElem?_eq_none_iff] at hn
      rw [if_neg fun e => by omega]
      rfl
    | some n =>
      simp only [Option.map_some, Option.bind_some]
      split
      · rfl
      · exact fresh n (List.mem_of_getElem? hn)
  have hskipped : (skippedBefore nodes codes k).contains i =
      decide (i < k ∧ runsAt nodes codes i = false) := by
    rw [Bool.eq_iff_iff, List.contains_iff_mem, skippedBefore, List.mem_filter, List.mem_range,
      decide_eq_true_iff, Bool.not_eq_true']
  simp only [Schedule.outcome, Schedule.isSkipped, moment, hresult, hskipped]
  by_cases hi : i < k <;> cases hr : runsAt nodes codes i <;> simp [hi]

end Moment

/-! ## 6. The whole run -/

section Run

variable {α : Type}

/-- Runs a command by giving it its code, and notes its position. -/
def recording (codes : Nat → ExitCode) (i : Nat) (_ : Node α) (order : List Nat) :
    Option ExitCode × List Nat :=
  (some (codes i), order ++ [i])

/-- The chain under way, at the moment before position `k`. -/
def driveBefore (nodes : List (Node α)) (codes : Nat → ExitCode) (k : Nat) : Drive α (List Nat) :=
  { nodes := nodesBefore nodes codes k, schedule := ⟨skippedBefore nodes codes k⟩,
    state := ranBefore nodes codes k }

variable {nodes : List (Node α)} {codes : Nat → ExitCode}

theorem driveBefore_zero : driveBefore nodes codes 0 = { nodes := nodes, state := [] } := by
  rw [driveBefore, nodesBefore_zero]
  rfl

/-- **Pulling commands decides the whole chain**, from every moment, with any fuel that is
enough. -/
theorem go_before (fresh : ∀ n ∈ nodes, n.result = none) :
    ∀ fuel k : Nat, k ≤ nodes.length → nodes.length < k + fuel →
      Drive.go (recording codes) fuel (driveBefore nodes codes k) =
        driveBefore nodes codes nodes.length
  | 0, k, hk, hfuel => by omega
  | fuel + 1, k, hk, hfuel => by
    obtain ⟨j, hkj, hjn, hnone, hrun, hnext⟩ := nextRunnable_before codes fresh hk
    have hnodes := nodesBefore_of_none hkj hnone
    have hran := ranBefore_of_none hkj hnone
    rcases Nat.lt_or_ge j nodes.length with hj | hj
    · -- the command at `j` runs, and the moment after it is the one before `j + 1`
      have hget : (nodesBefore nodes codes k)[j]? ≠ none := by
        rw [Ne, List.getElem?_eq_none_iff, length_nodesBefore]
        omega
      obtain ⟨n, hn⟩ := Option.ne_none_iff_exists'.mp hget
      have ih := go_before fresh fuel (j + 1) (by omega) (by omega)
      rw [if_pos hj] at hnext
      rw [← ih, driveBefore, driveBefore, ← recordAt_nodesBefore (hrun hj),
        skippedBefore_succ (hrun hj), ranBefore_succ (hrun hj), hnodes, hran]
      simp only [Drive.go, Schedule.next, hnext, hn, recording]
    · have e : j = nodes.length := by omega
      rw [if_neg (by omega)] at hnext
      rw [driveBefore, driveBefore, ← e, hnodes, hran]
      simp only [Drive.go, Schedule.next, hnext]

/-- At the end nothing is left to offer. -/
theorem next_driveBefore_length (fresh : ∀ n ∈ nodes, n.result = none) :
    (driveBefore nodes codes nodes.length).schedule.next
        (driveBefore nodes codes nodes.length).nodes =
      (none, (driveBefore nodes codes nodes.length).schedule) := by
  obtain ⟨j, hkj, hjn, -, -, hnext⟩ :=
    nextRunnable_before codes fresh (Nat.le_refl nodes.length)
  have e : j = nodes.length := by omega
  rw [if_neg (by omega), e] at hnext
  simp only [Schedule.next, driveBefore, hnext]

theorem outcome_driveBefore_length (fresh : ∀ n ∈ nodes, n.result = none) {i : Nat}
    (hi : i < nodes.length) :
    (driveBefore nodes codes nodes.length).schedule.outcome
        (driveBefore nodes codes nodes.length).nodes i =
      if runsAt nodes codes i then .ran (codes i) else .skipped := by
  have h := outcome_moment codes fresh (Nat.le_refl _) (ranBefore nodes codes nodes.length) i
  rwa [if_pos hi] at h

/-- **Driving a chain is left-to-right evaluation with short circuits.** Pulling commands and
recording the code of each ends by itself, whatever the fuel beyond the length of the chain. The
commands pulled are those that run in the reference evaluation, in ascending order, the skipped ones
are all the others, and no command is left without an outcome. -/
theorem run_recording (nodes : List (Node α)) (codes : Nat → ExitCode)
    (fresh : ∀ n ∈ nodes, n.result = none) :
    let start : Drive α (List Nat) := { nodes := nodes, state := [] }
    let d := Drive.run (recording codes) start
    (∀ fuel, nodes.length < fuel → Drive.go (recording codes) fuel start = d) ∧
      d.schedule.next d.nodes = (none, d.schedule) ∧
      d.state.Pairwise (· < ·) ∧
      d.state = (List.range nodes.length).filter (runsAt nodes codes) ∧
      d.schedule.skipped = (List.range nodes.length).filter (fun i => !runsAt nodes codes i) ∧
      ∀ i, i < nodes.length →
        d.schedule.outcome d.nodes i =
          if runsAt nodes codes i then .ran (codes i) else .skipped := by
  intro start d
  have hgo : ∀ fuel, nodes.length < fuel →
      Drive.go (recording codes) fuel start = driveBefore nodes codes nodes.length := by
    intro fuel hfuel
    have h := @go_before _ nodes codes fresh fuel 0 (Nat.zero_le _) (by omega)
    rw [driveBefore_zero] at h
    exact h
  have hd : d = driveBefore nodes codes nodes.length := hgo _ (Nat.lt_succ_self _)
  rw [hd]
  refine ⟨hgo, next_driveBefore_length fresh, ?_, rfl, rfl,
    fun i => outcome_driveBefore_length fresh⟩
  exact List.Pairwise.filter _ List.pairwise_lt_range

/-- Four commands `&&`, `||`, `;` apart, the first of which fails: the second is skipped, and the
third sees the code of the first. -/
theorem run_recording_of_failed_first :
    let node (op : Operator) : Node Unit :=
      { handle := (), segment := { typed := "", words := [], operator := op }, operator := op }
    let nodes := [node .andThen, node .orElse, node .semicolon, node .endOfLine]
    let codes : Nat → ExitCode := fun i => if i = 0 then 1 else 0
    let d := Drive.run (recording codes) { nodes := nodes, state := [] }
    (∀ n ∈ nodes, n.result = none) ∧ d.state = [0, 2, 3] ∧ d.schedule.skipped = [1] := by
  intro node nodes codes d
  have fresh : ∀ n ∈ nodes, n.result = none := by
    simp [nodes, node]
  obtain ⟨-, -, -, hran, hskipped, -⟩ := run_recording nodes codes fresh
  exact ⟨fresh, hran.trans (by decide), hskipped.trans (by decide)⟩

end Run

end LineShell
