import LineShell.Proofs.ShortCircuit

/-!
# A run of a chain is an evaluation from left to right

`ShortCircuit` drives a chain with codes that are given beforehand. Here the commands act on a
state, their codes come out of it, and any of them may stop the run.

* `Reaches` evaluates a chain from left to right, with the state that its commands act on: at
  position `k` the command runs and hands over its code and the next state, or it is skipped;
* `Reaches.congr`: the evaluation up to position `k` asks for the codes of the commands before it
  only, so the codes can be collected along the way;
* `run_reaches`: `Drive.run` ends at the end of such an evaluation, or where a command stopped it;
* `run_keeps`, `run_keeps_or`: so what every command keeps is kept by a run.
-/

namespace LineShell

variable {α σ : Type}

/-! ## 1. Codes that have not been seen -/

section Congruence

variable {gate : Nat → Operator} {nodes : List (Node α)} {codes codes' : Nat → ExitCode}

theorem lastCode_congr : ∀ {i : Nat}, (∀ j, j ≤ i → codes' j = codes j) →
    lastCode gate codes' i = lastCode gate codes i
  | 0, h => h 0 (Nat.le_refl 0)
  | i + 1, h => by
    have ih := @lastCode_congr i fun j hj => h j (by omega)
    rw [lastCode, lastCode, ih, h (i + 1) (Nat.le_refl _)]

/-- Whether a command runs is known from the codes of the commands before it. -/
theorem runsAt_congr {i : Nat} (h : ∀ j, j < i → codes' j = codes j) :
    runsAt nodes codes' i = runsAt nodes codes i := by
  cases i with
  | zero => rfl
  | succ i => rw [runsAt, runsAt, runs, runs, lastCode_congr fun j hj => h j (by omega)]

theorem nodesBefore_congr {k : Nat} (h : ∀ j, j < k → codes' j = codes j) :
    nodesBefore nodes codes' k = nodesBefore nodes codes k := by
  apply List.ext_getElem?
  intro i
  rw [getElem?_nodesBefore, getElem?_nodesBefore]
  congr 1
  funext n
  by_cases hi : i < k
  · rw [runsAt_congr fun j hj => h j (by omega), h i hi]
  · rw [if_neg fun e => hi e.1, if_neg fun e => hi e.1]

theorem skippedBefore_congr {k : Nat} (h : ∀ j, j < k → codes' j = codes j) :
    skippedBefore nodes codes' k = skippedBefore nodes codes k := by
  apply List.filter_congr
  intro i hi
  rw [runsAt_congr fun j hj => h j (Nat.lt_trans hj (List.mem_range.mp hi))]

end Congruence

/-! ## 2. Evaluation with a state -/

section Evaluation

variable (act : Nat → Node α → σ → Option ExitCode × σ) (nodes : List (Node α))
  (codes : Nat → ExitCode) (start : σ)

/-- The commands before position `k` have been evaluated from left to right: those that run gave
`codes`, and the last of them left the state. -/
inductive Reaches : (k : Nat) → σ → Prop
  | start : Reaches 0 start
  | skip {k : Nat} {s : σ} (h : Reaches k s) (hk : k < nodes.length)
      (hr : runsAt nodes codes k = false) : Reaches (k + 1) s
  | run {k : Nat} {s s' : σ} {n : Node α} (h : Reaches k s) (hr : runsAt nodes codes k = true)
      (hn : nodes[k]? = some n) (ha : act k n s = (some (codes k), s')) : Reaches (k + 1) s'

variable {act nodes codes start}

namespace Reaches

theorem le_length {k : Nat} {s : σ} (h : Reaches act nodes codes start k s) :
    k ≤ nodes.length := by
  cases h with
  | start => exact Nat.zero_le _
  | skip _ hk _ => exact hk
  | run _ _ hn _ => exact (List.getElem?_eq_some_iff.mp hn).1

/-- The codes of the commands that are still to come play no part. -/
theorem congr {codes' : Nat → ExitCode} {k : Nat} {s : σ} (h : Reaches act nodes codes start k s)
    (hc : ∀ j, j < k → codes' j = codes j) : Reaches act nodes codes' start k s := by
  induction h with
  | start => exact .start
  | @skip k s _ hk hr ih =>
    refine .skip (ih fun j hj => hc j (by omega)) hk ?_
    rw [runsAt_congr fun j hj => hc j (by omega), hr]
  | @run k s s' n _ hr hn ha ih =>
    refine .run (ih fun j hj => hc j (by omega)) ?_ hn ?_
    · rw [runsAt_congr fun j hj => hc j (by omega), hr]
    · rw [ha, hc k (Nat.lt_succ_self k)]

/-- A stretch of commands that do not run is skipped. -/
theorem skips {k : Nat} {s : σ} (h : Reaches act nodes codes start k s) :
    ∀ {j : Nat}, k ≤ j → j ≤ nodes.length →
      (∀ m, k ≤ m → m < j → runsAt nodes codes m = false) → Reaches act nodes codes start j s := by
  intro j hkj
  induction hkj with
  | refl => exact fun _ _ => h
  | @step j hkj ih =>
    intro hj hnone
    exact .skip (ih (by omega) fun m h1 h2 => hnone m h1 (by omega)) hj
      (hnone j hkj (Nat.lt_succ_self j))

end Reaches

/-- Where a run ends: at the end of the chain, or before a command that ran and gave no code. -/
def EndsAt (act : Nat → Node α → σ → Option ExitCode × σ) (nodes : List (Node α))
    (codes : Nat → ExitCode) (k : Nat) (s : σ) (d : Drive α σ) : Prop :=
  (k = nodes.length ∧ d = moment nodes codes k s) ∨
    ∃ n s', runsAt nodes codes k = true ∧ nodes[k]? = some n ∧ act k n s = (none, s') ∧
      d = moment nodes codes k s'

/-- **From every moment of an evaluation the run goes on as an evaluation**, with any fuel that is
enough. -/
theorem go_reaches (fresh : ∀ n ∈ nodes, n.result = none) :
    ∀ (fuel k : Nat) (codes : Nat → ExitCode) (s : σ), Reaches act nodes codes start k s →
      nodes.length < k + fuel →
      ∃ codes' k' s', Reaches act nodes codes' start k' s' ∧
        EndsAt act nodes codes' k' s' (Drive.go act fuel (moment nodes codes k s))
  | 0, k, codes, s, h, hfuel => by
    have hk := h.le_length
    omega
  | fuel + 1, k, codes, s, h, hfuel => by
    obtain ⟨j, hkj, hjn, hnone, hrun, hnext⟩ := nextRunnable_before codes fresh h.le_length
    have hj := h.skips hkj hjn hnone
    have hnodes := nodesBefore_of_none hkj hnone
    rcases Nat.lt_or_ge j nodes.length with hlt | hge
    · rw [if_pos hlt] at hnext
      have hget : nodes[j]? = some nodes[j] := List.getElem?_eq_getElem hlt
      have hn : (nodesBefore nodes codes k)[j]? = some nodes[j] := by
        rw [getElem?_nodesBefore, hget, Option.map_some, if_neg fun e => by omega]
      rcases hact : act j nodes[j] s with ⟨- | code, s'⟩
      · -- the command at `j` stops the run at the moment before itself
        refine ⟨codes, j, s, hj, .inr ⟨nodes[j], s', hrun hlt, hget, hact, ?_⟩⟩
        rw [moment, moment, hnodes]
        simp only [Drive.go, Schedule.next, hnext, hn, hact]
      · -- its code joins those collected so far, and the run goes on from the moment after it
        let codes' : Nat → ExitCode := fun i => if i = j then code else codes i
        have hself : codes' j = code := if_pos rfl
        have hc : ∀ i, i < j → codes' i = codes i := fun i hi => if_neg (by omega)
        have hruns : runsAt nodes codes' j = true := by rw [runsAt_congr hc, hrun hlt]
        have hstep : Reaches act nodes codes' start (j + 1) s' :=
          .run (hj.congr hc) hruns hget (by rw [hact, hself])
        obtain ⟨codes'', k', s'', hreach, hends⟩ :=
          go_reaches fresh fuel (j + 1) codes' s' hstep (by omega)
        refine ⟨codes'', k', s'', hreach, ?_⟩
        have hgo : Drive.go act (fuel + 1) (moment nodes codes k s) =
            Drive.go act fuel (moment nodes codes' (j + 1) s') := by
          rw [moment, moment, ← recordAt_nodesBefore hruns, skippedBefore_succ hruns,
            nodesBefore_congr hc, skippedBefore_congr hc, hself, hnodes]
          simp only [Drive.go, Schedule.next, hnext, hn, hact]
        rw [hgo]
        exact hends
    · have e : j = nodes.length := by omega
      refine ⟨codes, j, s, hj, .inl ⟨e, ?_⟩⟩
      rw [if_neg (by omega)] at hnext
      rw [moment, moment, hnodes]
      simp only [Drive.go, Schedule.next, hnext]

/-- **A run of a chain is an evaluation from left to right**, up to the end of the chain or to the
command that stopped it. -/
theorem run_reaches (fresh : ∀ n ∈ nodes, n.result = none) :
    ∃ codes k s, Reaches act nodes codes start k s ∧
      EndsAt act nodes codes k s (Drive.run act { nodes := nodes, state := start }) := by
  have h := @go_reaches _ _ act nodes start fresh (nodes.length + 1) 0 (fun _ => 0) start .start
    (by omega)
  rwa [moment_zero] at h

/-- **What every command keeps is kept by a run**, unless a command that gives no code leaves the state
as `Q` says. -/
theorem run_keeps_or {P Q : σ → Prop} (fresh : ∀ n ∈ nodes, n.result = none) (hstart : P start)
    (hact : ∀ k n s, nodes[k]? = some n → P s →
      P (act k n s).2 ∨ ((act k n s).1 = none ∧ Q (act k n s).2)) :
    let d := Drive.run act { nodes := nodes, state := start }
    P d.state ∨ Q d.state := by
  intro d
  obtain ⟨codes, k, s, hreach, hends⟩ := @run_reaches _ _ act nodes start fresh
  have hs : P s := by
    clear hends
    induction hreach with
    | start => exact hstart
    | skip _ _ _ ih => exact ih
    | run _ _ hn ha ih =>
      obtain hnext | ⟨hnone, -⟩ := hact _ _ _ hn ih
      · rwa [ha] at hnext
      · rw [ha] at hnone
        cases hnone
  obtain ⟨-, hd⟩ | ⟨n, s', -, hn, ha, hd⟩ := hends
  · rw [show d = _ from hd]
    exact .inl hs
  · rw [show d = _ from hd]
    have hlast := hact k n s hn hs
    rw [ha] at hlast
    exact hlast.imp_right And.right

/-- **What every command keeps is kept by a run**, however it ends. -/
theorem run_keeps {P : σ → Prop} (fresh : ∀ n ∈ nodes, n.result = none) (hstart : P start)
    (hact : ∀ k n s, nodes[k]? = some n → P s → P (act k n s).2) :
    P (Drive.run act { nodes := nodes, state := start }).state :=
  (run_keeps_or (Q := fun _ => False) fresh hstart
    fun k n s hn hs => .inl (hact k n s hn hs)).elim id False.elim

end Evaluation

end LineShell
