import LineShell.Proofs.Interleaving
import LineShell.Proofs.ShortCircuit
import Mathlib.Order.Bounds.Defs

/-!
# The next command of a chain in any state

A chain may be in a state that no run of it leads to: codes may stand on any of its commands, and
any positions may be skipped, also those of commands with a code and those past the end of the
chain. What comes next is told from that state alone.

* `Undecided`: a command without a code that is not skipped; `Enabled`: a command that the operator
  before it lets run, if anything before it has a code. `lastBefore` is that code, and `enabled_iff`
  says that a command is enabled if its gate is open on it;
* `Sought`: what there is to say about a search from position `i` on. Each of its lemmas is about
  one command that the search looks at, and `seek_sought` is the search;
* `nextRunnable_isLeast`: so the next command is the first one that is undecided and enabled, and
  the undecided ones before it are skipped.
-/

namespace LineShell

variable {α : Type} {nodes : List (Node α)} {skipped : Positions} {i : Nat}

/-! ## 1. Commands that may come next -/

/-- The code that stands at position `i`, if there is one. -/
def codeAt (nodes : List (Node α)) (i : Nat) : Option ExitCode := nodes[i]?.bind Node.result

/-- The command at position `i` has no code and is not skipped. -/
structure Undecided (nodes : List (Node α)) (skipped : Positions) (i : Nat) : Prop where
  lt : i < nodes.length
  uncoded : codeAt nodes i = none
  unskipped : i ∉ skipped

/-- The nearest command with a code before position `i` has the given one. -/
def NearestCode (nodes : List (Node α)) (i : Nat) (code : ExitCode) : Prop :=
  ∃ j, j < i ∧ codeAt nodes j = some code ∧ ∀ m, j < m → m < i → codeAt nodes m = none

/-- The command at position `i` may run: it is the first one, or no command before it has a code, or
the operator right before it opens its gate on the nearest code. -/
inductive Enabled (nodes : List (Node α)) : Nat → Prop
  | first : Enabled nodes 0
  | fresh {i : Nat} (h : ∀ j, j < i → codeAt nodes j = none) : Enabled nodes i
  | opens {i : Nat} {code : ExitCode} (hcode : NearestCode nodes (i + 1) code)
      (hgate : (operatorAfter nodes i).opens code = true) : Enabled nodes (i + 1)

/-- The nearest code before position `i`. -/
def lastBefore (nodes : List (Node α)) : Nat → Option ExitCode
  | 0 => none
  | i + 1 => (codeAt nodes i).or (lastBefore nodes i)

theorem lastBefore_eq_none_iff :
    lastBefore nodes i = none ↔ ∀ j, j < i → codeAt nodes j = none := by
  induction i with
  | zero => exact ⟨fun _ j hj => absurd hj (Nat.not_lt_zero j), fun _ => rfl⟩
  | succ i ih =>
    rw [lastBefore, Option.or_eq_none_iff, ih, and_comm, Nat.forall_lt_succ_right]

theorem lastBefore_eq_some_iff {code : ExitCode} :
    lastBefore nodes i = some code ↔ NearestCode nodes i code := by
  induction i with
  | zero =>
    refine ⟨nofun, ?_⟩
    rintro ⟨j, hj, -⟩
    exact absurd hj (Nat.not_lt_zero j)
  | succ i ih =>
    rw [lastBefore, Option.or_eq_some_iff, ih]
    constructor
    · rintro (hcode | ⟨hnone, j, hj, hcode, hbetween⟩)
      · exact ⟨i, Nat.lt_succ_self i, hcode, fun m h1 h2 => by omega⟩
      · refine ⟨j, by omega, hcode, fun m h1 h2 => ?_⟩
        rcases Nat.lt_succ_iff_lt_or_eq.mp h2 with h2 | rfl
        · exact hbetween m h1 h2
        · exact hnone
    · rintro ⟨j, hj, hcode, hbetween⟩
      rcases Nat.lt_succ_iff_lt_or_eq.mp hj with hj | rfl
      · exact .inr ⟨hbetween i hj (Nat.lt_succ_self i), j, hj, hcode,
          fun m h1 h2 => hbetween m h1 (by omega)⟩
      · exact .inl hcode

/-- **A command is enabled if its gate is open on the nearest code.** -/
theorem enabled_iff : Enabled nodes i ↔
    gateOpen (gateBefore (operatorAfter nodes) i) (lastBefore nodes i) = true := by
  constructor
  · intro h
    cases h with
    | first => rfl
    | fresh h => rw [lastBefore_eq_none_iff.mpr h, gateOpen]
    | opens hcode hgate => rwa [lastBefore_eq_some_iff.mpr hcode]
  · intro h
    cases hlast : lastBefore nodes i with
    | none => exact .fresh (lastBefore_eq_none_iff.mp hlast)
    | some code =>
      cases i with
      | zero => exact .first
      | succ i =>
        rw [hlast] at h
        exact .opens (lastBefore_eq_some_iff.mp hlast) h

/-! ## 2. One search -/

/-- What a search from position `i` on gives: the command that it finds may come next, and it passes
over the undecided commands before that, none of which is enabled. -/
structure Sought (nodes : List (Node α)) (skipped : Positions) (i : Nat)
    (r : Option Nat × List Nat) : Prop where
  found : ∀ j, r.1 = some j → i ≤ j ∧ Undecided nodes skipped j ∧ Enabled nodes j
  mem_iff : ∀ m, m ∈ r.2 ↔ i ≤ m ∧ Undecided nodes skipped m ∧ ∀ j, r.1 = some j → m < j
  disabled : ∀ m, m ∈ r.2 → ¬ Enabled nodes m

namespace Sought

variable {r : Option Nat × List Nat}

/-- Past the end there is nothing. -/
theorem past (h : nodes.length ≤ i) : Sought nodes skipped i (none, []) where
  found := fun j hj => by cases hj
  mem_iff := fun m => by
    refine ⟨nofun, ?_⟩
    rintro ⟨hle, hm, -⟩
    exact absurd hm.lt (Nat.not_lt_of_le (Nat.le_trans h hle))
  disabled := fun m hm => by cases hm

/-- A command with a code, or a skipped one, is passed over. -/
theorem decided (hi : ¬ Undecided nodes skipped i) (h : Sought nodes skipped (i + 1) r) :
    Sought nodes skipped i r where
  found := fun j hj => by
    obtain ⟨hij, hnext⟩ := h.found j hj
    exact ⟨by omega, hnext⟩
  mem_iff := fun m => by
    rw [h.mem_iff]
    refine and_congr_left fun hm => ⟨fun hle => by omega, fun hle => ?_⟩
    rcases Nat.eq_or_lt_of_le hle with rfl | hlt
    · exact absurd hm.1 hi
    · exact hlt
  disabled := h.disabled

/-- An undecided command that is enabled is found. -/
theorem here (hi : Undecided nodes skipped i) (henabled : Enabled nodes i) :
    Sought nodes skipped i (some i, []) where
  found := fun j hj => by
    cases hj
    exact ⟨Nat.le_refl i, hi, henabled⟩
  mem_iff := fun m => by
    refine ⟨nofun, ?_⟩
    rintro ⟨hle, -, hlt⟩
    exact absurd (hlt i rfl) (Nat.not_lt_of_le hle)
  disabled := fun m hm => by cases hm

/-- An undecided command that is not enabled is passed over, and is one that will be skipped. -/
theorem passes (hi : Undecided nodes skipped i) (hdisabled : ¬ Enabled nodes i)
    (h : Sought nodes skipped (i + 1) r) : Sought nodes skipped i (r.1, i :: r.2) where
  found := fun j hj => by
    obtain ⟨hij, hnext⟩ := h.found j hj
    exact ⟨by omega, hnext⟩
  mem_iff := fun m => by
    rw [List.mem_cons, h.mem_iff]
    constructor
    · rintro (rfl | ⟨hle, hm⟩)
      · refine ⟨Nat.le_refl m, hi, fun j hj => ?_⟩
        obtain ⟨hmj, -⟩ := h.found j hj
        omega
      · exact ⟨by omega, hm⟩
    · rintro ⟨hle, hm⟩
      rcases Nat.eq_or_lt_of_le hle with rfl | hlt
      · exact .inl rfl
      · exact .inr ⟨hlt, hm⟩
  disabled := fun m hm => by
    rcases List.mem_cons.mp hm with rfl | hm
    · exact hdisabled
    · exact h.disabled m hm

end Sought

/-- What is left of a chain begins with the command at that position, and the operator of that
command is the gate of the next one. -/
theorem of_drop_eq_cons {n : Node α} {rest : List (Node α)} (h : nodes.drop i = n :: rest) :
    i < nodes.length ∧ nodes.drop (i + 1) = rest ∧ codeAt nodes i = n.result ∧
      n.operator = gateBefore (operatorAfter nodes) (i + 1) := by
  have hlt : i < nodes.length := by
    have hlen := congrArg List.length h
    rw [List.length_drop, List.length_cons] at hlen
    omega
  rw [List.drop_eq_getElem_cons hlt, List.cons.injEq] at h
  obtain ⟨rfl, hrest⟩ := h
  refine ⟨hlt, hrest, ?_, ?_⟩
  · rw [codeAt, List.getElem?_eq_getElem hlt]
    rfl
  · rw [gateBefore, operatorAfter, List.getElem?_eq_getElem hlt]
    rfl

/-- **A search from any position on**, that has come there with the nearest code. -/
theorem seek_sought {gate : Operator} {last : Option ExitCode} {rest : List (Node α)}
    (hrest : nodes.drop i = rest) (hgate : gate = gateBefore (operatorAfter nodes) i)
    (hlast : last = lastBefore nodes i) :
    Sought nodes skipped i (seek skipped i gate last rest) := by
  fun_induction seek skipped i gate last rest with
  | case1 => exact .past (List.drop_eq_nil_iff.mp hrest)
  | case2 i gate last n rest code hcode ih =>
    obtain ⟨-, hdrop, hat, hop⟩ := of_drop_eq_cons hrest
    rw [hcode] at hat
    refine .decided (fun hi => ?_) (ih hdrop hop ?_)
    · rw [hi.uncoded] at hat
      cases hat
    · rw [lastBefore, hat, Option.some_or]
  | case3 i gate last n rest hcode hskipped ih =>
    obtain ⟨-, hdrop, hat, hop⟩ := of_drop_eq_cons hrest
    rw [hcode] at hat
    refine .decided (fun hi => hi.unskipped (List.contains_iff_mem.mp hskipped)) (ih hdrop hop ?_)
    rw [lastBefore, hat, Option.none_or, hlast]
  | case4 i gate last n rest hcode hskipped hopen =>
    obtain ⟨hlt, -, hat, -⟩ := of_drop_eq_cons hrest
    rw [List.contains_iff_mem] at hskipped
    refine .here ⟨hlt, hat.trans hcode, hskipped⟩ ?_
    rwa [enabled_iff, ← hgate, ← hlast]
  | case5 i gate last n rest hcode hskipped hclosed found closed hseek ih =>
    obtain ⟨hlt, hdrop, hat, hop⟩ := of_drop_eq_cons hrest
    rw [List.contains_iff_mem] at hskipped
    have hi : Undecided nodes skipped i := ⟨hlt, hat.trans hcode, hskipped⟩
    have hdisabled : ¬ Enabled nodes i := by rwa [enabled_iff, ← hgate, ← hlast]
    rw [hseek] at ih
    refine (ih hdrop hop ?_).passes hi hdisabled
    rw [lastBefore, hi.uncoded, Option.none_or, hlast]

/-! ## 3. The skipped commands -/

/-- A set of positions stays in order. -/
theorem Positions.insert_ascending {i : Nat} : ∀ {js : Positions}, js.Pairwise (· < ·) →
    (js.insert i).Pairwise (· < ·)
  | [], _ => List.pairwise_singleton _ _
  | j :: js, h => by
    obtain ⟨hj, hjs⟩ := List.pairwise_cons.mp h
    rw [Positions.insert]
    split
    · rename_i hij
      refine List.pairwise_cons.mpr ⟨fun m hm => ?_, h⟩
      rcases List.mem_cons.mp hm with rfl | hm
      · exact hij
      · exact Nat.lt_trans hij (hj m hm)
    · split
      · exact h
      · refine List.pairwise_cons.mpr ⟨fun m hm => ?_, insert_ascending hjs⟩
        rcases mem_insert.mp hm with rfl | hm
        · omega
        · exact hj m hm

theorem Positions.insertAll_ascending (is : List Nat) {js : Positions}
    (h : js.Pairwise (· < ·)) : (js.insertAll is).Pairwise (· < ·) := by
  induction is generalizing js with
  | nil => exact h
  | cons i is ih => exact ih (insert_ascending h)

/-! ## 4. The next command -/

/-- **The next command is the first one that is undecided and enabled**, if there is one. The
positions skipped afterwards are those skipped before and those of the undecided commands before the
next one, or of all undecided ones if nothing comes next. -/
theorem nextRunnable_isLeast (nodes : List (Node α)) (skipped : Positions) :
    (match (nextRunnable nodes skipped).1 with
      | some i => IsLeast {j | Undecided nodes skipped j ∧ Enabled nodes j} i
      | none => ∀ j, Undecided nodes skipped j → ¬ Enabled nodes j) ∧
    (∀ j, j ∈ (nextRunnable nodes skipped).2 ↔ j ∈ skipped ∨ (Undecided nodes skipped j ∧
      ∀ i, (nextRunnable nodes skipped).1 = some i → j < i)) ∧
    (skipped.Pairwise (· < ·) → (nextRunnable nodes skipped).2.Pairwise (· < ·)) := by
  have hsought : Sought nodes skipped 0 (seek skipped 0 .endOfLine none nodes) :=
    seek_sought (i := 0) List.drop_zero rfl rfl
  simp only [nextRunnable]
  generalize seek skipped 0 .endOfLine none nodes = r at hsought ⊢
  refine ⟨?_, fun j => ?_, fun hskipped => Positions.insertAll_ascending r.2 hskipped⟩
  · cases hfound : r.1 with
    | none =>
      intro j hj
      exact hsought.disabled j ((hsought.mem_iff j).mpr
        ⟨Nat.zero_le j, hj, fun i hi => by rw [hfound] at hi; cases hi⟩)
    | some i =>
      obtain ⟨-, hnext⟩ := hsought.found i hfound
      refine ⟨hnext, ?_⟩
      rintro j ⟨hj, henabled⟩
      refine Nat.le_of_not_lt fun hlt => ?_
      have hpassed : j ∈ r.2 := by
        refine (hsought.mem_iff j).mpr ⟨Nat.zero_le j, hj, fun k hk => ?_⟩
        rw [hfound] at hk
        cases hk
        exact hlt
      exact hsought.disabled j hpassed henabled
  · rw [Positions.mem_insertAll, hsought.mem_iff]
    exact or_congr_right (and_iff_right (Nat.zero_le j))

/-- A skipped command that has run all the same gives its code to the gates after it, and one past
the end of the chain stays among the skipped ones. -/
example :
    let segment (op : Operator) : Segment := { typed := "", words := [], operator := op }
    let node (op : Operator) (result : Option ExitCode) : Node Unit :=
      { handle := (), segment := segment op, operator := op, result }
    nextRunnable [node .pipe (some 0), node .andThen (some 1), node .andThen none,
      node .orElse none, node .endOfLine none] [1, 7] = (some 4, [1, 2, 3, 7]) := by
  decide

end LineShell
