import LineShell.Registry
import Mathlib.Order.Bounds.Defs

/-!
# The edit distance is the least number of edits

An edit puts one character into a text, takes one out, or replaces one, anywhere in it. `Edits n`
says that `n` of them turn one text into another. The table of the distance compares two texts
character by character instead, so the edits of a script are brought into the order of the texts:
two texts are `Aligned n` if they can be written side by side with at most `n` gaps and differences.

* `Aligned.trans`: alignments compose, so any script makes one (`Edits.aligned`), and an alignment
  is a script (`Aligned.exists_edits`);
* `entry` is the table as a recursion on the two texts, and `aligned_iff_entry_le` says that it has
  the least number of gaps and differences. Where the texts begin alike, nothing is gained by a gap
  there (`aligned_cons_self_iff`);
* `editDistance_eq_entry`: filling the table row by row gives that entry. The rows go through the
  starts of the texts, so the recursion is on the texts with their last character first;
* `editDistance_isLeast`: so the edit distance is the least number of edits.
-/

namespace LineShell

/-! ## 1. Edits -/

/-- One edit of a text. -/
inductive Edit : List Char → List Char → Prop
  | insert (front back : List Char) (c : Char) : Edit (front ++ back) (front ++ c :: back)
  | delete (front back : List Char) (c : Char) : Edit (front ++ c :: back) (front ++ back)
  | replace (front back : List Char) (c d : Char) :
      Edit (front ++ c :: back) (front ++ d :: back)

/-- That many edits, one after another, turn the one text into the other. -/
inductive Edits : Nat → List Char → List Char → Prop
  | none (a : List Char) : Edits 0 a a
  | more {n : Nat} {a b c : List Char} (h : Edit a b) (hrest : Edits n b c) : Edits (n + 1) a c

theorem Edit.cons {a b : List Char} (c : Char) (h : Edit a b) : Edit (c :: a) (c :: b) := by
  cases h with
  | insert front back d => exact .insert (c :: front) back d
  | delete front back d => exact .delete (c :: front) back d
  | replace front back d d' => exact .replace (c :: front) back d d'

theorem Edit.reverse {a b : List Char} (h : Edit a b) : Edit a.reverse b.reverse := by
  cases h with
  | insert front back c =>
    simpa using Edit.insert back.reverse front.reverse c
  | delete front back c =>
    simpa using Edit.delete back.reverse front.reverse c
  | replace front back c d =>
    simpa using Edit.replace back.reverse front.reverse c d

theorem Edits.cons {n : Nat} {a b : List Char} (c : Char) (h : Edits n a b) :
    Edits n (c :: a) (c :: b) := by
  induction h with
  | none a => exact .none _
  | more h _ ih => exact .more (h.cons c) ih

theorem Edits.reverse {n : Nat} {a b : List Char} (h : Edits n a b) :
    Edits n a.reverse b.reverse := by
  induction h with
  | none a => exact .none _
  | more h _ ih => exact .more h.reverse ih

/-! ## 2. Alignments -/

/-- The texts can be written side by side with at most that many gaps and differences. -/
inductive Aligned : Nat → List Char → List Char → Prop
  | nil (n : Nat) : Aligned n [] []
  | keep {n : Nat} {a b : List Char} (c : Char) (h : Aligned n a b) : Aligned n (c :: a) (c :: b)
  | replace {n : Nat} {a b : List Char} (c d : Char) (h : Aligned n a b) :
      Aligned (n + 1) (c :: a) (d :: b)
  | delete {n : Nat} {a b : List Char} (c : Char) (h : Aligned n a b) : Aligned (n + 1) (c :: a) b
  | insert {n : Nat} {a b : List Char} (d : Char) (h : Aligned n a b) : Aligned (n + 1) a (d :: b)

namespace Aligned

variable {m n : Nat} {a b c : List Char} {x y : Char}

theorem mono (h : Aligned m a b) (hle : m ≤ n) : Aligned n a b := by
  induction h generalizing n with
  | nil m => exact .nil n
  | keep x _ ih => exact .keep x (ih hle)
  | replace x y _ ih =>
    obtain ⟨k, rfl⟩ := Nat.exists_eq_add_of_le' hle
    exact .replace x y (ih (Nat.le_add_left _ _))
  | delete x _ ih =>
    obtain ⟨k, rfl⟩ := Nat.exists_eq_add_of_le' hle
    exact .delete x (ih (Nat.le_add_left _ _))
  | insert y _ ih =>
    obtain ⟨k, rfl⟩ := Nat.exists_eq_add_of_le' hle
    exact .insert y (ih (Nat.le_add_left _ _))

theorem refl : ∀ a : List Char, Aligned 0 a a
  | [] => .nil 0
  | x :: a => .keep x (refl a)

/-- **Alignments compose.** A character that the first one puts in and the second one keeps or
replaces is put in, and one that the second takes out again was never there. -/
theorem trans : {m n : Nat} → {a b c : List Char} → Aligned m a b → Aligned n b c →
    Aligned (m + n) a c
  | m, n, _, _, _, .nil _, h => h.mono (Nat.le_add_left n m)
  | _, n, _, _, _, .delete (n := m) x h, h' =>
    ((h.trans h').delete x).mono (by omega)
  | m, _, _, _, _, h, .insert (n := n) z h' =>
    ((h.trans h').insert z).mono (by omega)
  | m, n, _, _, _, .keep x h, .keep _ h' => (h.trans h').keep x
  | m, _, _, _, _, .keep x h, .replace (n := n) _ z h' =>
    ((h.trans h').replace x z).mono (by omega)
  | m, _, _, _, _, .keep x h, .delete (n := n) _ h' =>
    ((h.trans h').delete x).mono (by omega)
  | _, n, _, _, _, .replace (n := m) x y h, .keep _ h' =>
    ((h.trans h').replace x y).mono (by omega)
  | _, _, _, _, _, .replace (n := m) x y h, .replace (n := n) _ z h' =>
    ((h.trans h').replace x z).mono (by omega)
  | _, _, _, _, _, .replace (n := m) x y h, .delete (n := n) _ h' =>
    ((h.trans h').delete x).mono (by omega)
  | _, n, _, _, _, .insert (n := m) y h, .keep _ h' =>
    ((h.trans h').insert y).mono (by omega)
  | _, _, _, _, _, .insert (n := m) y h, .replace (n := n) _ z h' =>
    ((h.trans h').insert z).mono (by omega)
  | _, _, _, _, _, .insert (n := m) y h, .delete (n := n) _ h' =>
    (h.trans h').mono (by omega)
termination_by _ _ a b c => a.length + b.length + c.length

theorem prepend (front : List Char) (h : Aligned n a b) :
    Aligned n (front ++ a) (front ++ b) := by
  induction front with
  | nil => exact h
  | cons x front ih => exact .keep x ih

end Aligned

theorem Edit.aligned {a b : List Char} (h : Edit a b) : Aligned 1 a b := by
  cases h with
  | insert front back c => exact .prepend front (.insert c (.refl back))
  | delete front back c => exact .prepend front (.delete c (.refl back))
  | replace front back c d => exact .prepend front (.replace c d (.refl back))

/-- **A script makes an alignment** with a gap or a difference for each edit, at most. -/
theorem Edits.aligned {n : Nat} {a b : List Char} (h : Edits n a b) : Aligned n a b := by
  induction h with
  | none a => exact .refl a
  | more h _ ih => exact (h.aligned.trans ih).mono (Nat.le_of_eq (Nat.add_comm 1 _))

/-- An alignment is a script: the texts are gone through from left to right. -/
theorem Aligned.exists_edits {n : Nat} {a b : List Char} (h : Aligned n a b) :
    ∃ m ≤ n, Edits m a b := by
  induction h with
  | nil n => exact ⟨0, Nat.zero_le n, .none []⟩
  | keep c _ ih =>
    obtain ⟨m, hm, hedits⟩ := ih
    exact ⟨m, hm, hedits.cons c⟩
  | replace c d _ ih =>
    obtain ⟨m, hm, hedits⟩ := ih
    exact ⟨m + 1, Nat.succ_le_succ hm, .more (.replace [] _ c d) (hedits.cons d)⟩
  | delete c _ ih =>
    obtain ⟨m, hm, hedits⟩ := ih
    exact ⟨m + 1, Nat.succ_le_succ hm, .more (.delete [] _ c) hedits⟩
  | insert d _ ih =>
    obtain ⟨m, hm, hedits⟩ := ih
    exact ⟨m + 1, Nat.succ_le_succ hm, .more (.insert [] _ d) (hedits.cons d)⟩

/-! ## 3. The entries of the table -/

/-- The entry of the table for two texts, from the entries without their first characters. -/
def entry : List Char → List Char → Nat
  | [], b => b.length
  | a, [] => a.length
  | c :: a, d :: b =>
    if c = d then entry a b
    else 1 + min (min (entry a b) (entry a (d :: b))) (entry (c :: a) b)
termination_by a b => a.length + b.length

section Entry

variable {n : Nat} {a b : List Char} {c d : Char}

theorem aligned_nil_left_iff : Aligned n [] b ↔ b.length ≤ n := by
  induction b generalizing n with
  | nil => exact iff_of_true (.nil n) (Nat.zero_le n)
  | cons d b ih =>
    constructor
    · intro h
      cases h with
      | insert _ h => exact Nat.succ_le_succ (ih.mp h)
    · intro hle
      obtain ⟨k, rfl⟩ := Nat.exists_eq_add_of_le' hle
      exact .insert d (ih.mpr (Nat.le_add_left _ _))

theorem aligned_nil_right_iff : Aligned n a [] ↔ a.length ≤ n := by
  induction a generalizing n with
  | nil => exact iff_of_true (.nil n) (Nat.zero_le n)
  | cons c a ih =>
    constructor
    · intro h
      cases h with
      | delete _ h => exact Nat.succ_le_succ (ih.mp h)
    · intro hle
      obtain ⟨k, rfl⟩ := Nat.exists_eq_add_of_le' hle
      exact .delete c (ih.mpr (Nat.le_add_left _ _))

/-- **Where two texts begin alike, nothing is gained by a gap.** An alignment that leaves out the
one character can be composed with leaving out the other. -/
theorem aligned_cons_self_iff : Aligned n (c :: a) (c :: b) ↔ Aligned n a b := by
  refine ⟨fun h => ?_, .keep c⟩
  cases h with
  | keep _ h => exact h
  | replace _ _ h => exact h.mono (Nat.le_succ _)
  | delete _ h => exact h.trans (.delete c (.refl b))
  | insert _ h =>
    have hinsert : Aligned 1 a (c :: a) := .insert c (.refl a)
    exact (hinsert.trans h).mono (Nat.le_of_eq (Nat.add_comm 1 _))

theorem aligned_cons_of_ne_iff (hne : c ≠ d) :
    Aligned (n + 1) (c :: a) (d :: b) ↔
      Aligned n a b ∨ Aligned n a (d :: b) ∨ Aligned n (c :: a) b := by
  constructor
  · intro h
    cases h with
    | keep _ h => exact absurd rfl hne
    | replace _ _ h => exact .inl h
    | delete _ h => exact .inr (.inl h)
    | insert _ h => exact .inr (.inr h)
  · rintro (h | h | h)
    · exact .replace c d h
    · exact .delete c h
    · exact .insert d h

theorem not_aligned_zero_of_ne (hne : c ≠ d) : ¬ Aligned 0 (c :: a) (d :: b) := by
  intro h
  cases h
  exact hne rfl

/-- **The entry is the least number of gaps and differences** of two texts. -/
theorem aligned_iff_entry_le : Aligned n a b ↔ entry a b ≤ n := by
  fun_induction entry a b generalizing n with
  | case1 b => exact aligned_nil_left_iff
  | case2 a => exact aligned_nil_right_iff
  | case3 a d b ih => rw [aligned_cons_self_iff, ih]
  | case4 c a d b hne ihboth ihleft ihright =>
    cases n with
    | zero => exact iff_of_false (not_aligned_zero_of_ne hne) (by omega)
    | succ n =>
      rw [aligned_cons_of_ne_iff hne, ihboth, ihleft, ihright]
      omega

end Entry

/-! ## 4. The rows -/

/-- The entries of a row behind a place. The row belongs to the start `p` of the first text, and the
start `q` of the second text has been passed; both have their last character first. -/
def entriesAfter (p q : List Char) : List Char → List Nat
  | [] => []
  | d :: ds => entry p (d :: q) :: entriesAfter p (d :: q) ds

/-- The row of a start of the first text. -/
def entries (p b : List Char) : List Nat := entry p [] :: entriesAfter p [] b

theorem entry_nil (p : List Char) : entry p [] = p.length := by
  cases p with
  | nil => rw [entry]
  | cons c p => simp [entry]

theorem entries_nil (b : List Char) : entries [] b = List.range (b.length + 1) := by
  have hrow (ds q : List Char) : entriesAfter [] q ds = List.range' (q.length + 1) ds.length := by
    induction ds generalizing q with
    | nil => rfl
    | cons d ds ih =>
      rw [entriesAfter, ih, entry, List.length_cons, List.length_cons, List.range'_succ]
  rw [entries, hrow, entry_nil, List.range_eq_range', List.range'_succ]
  rfl

/-- **A row is filled from the one above it.** -/
theorem nextCells_entriesAfter (c : Char) (p q ds : List Char) :
    nextCells c (entry p q) (entry (c :: p) q) ds (entriesAfter p q ds) =
      entriesAfter (c :: p) q ds := by
  induction ds generalizing q with
  | nil => rfl
  | cons d ds ih =>
    have hcell : (if c = d then entry p q
        else 1 + min (min (entry p q) (entry p (d :: q))) (entry (c :: p) q)) =
        entry (c :: p) (d :: q) := by
      rw [entry]
    rw [entriesAfter, nextCells, hcell, ih]
    rfl

theorem nextRow_entries (c : Char) (p b : List Char) :
    nextRow b (entries p b) c = entries (c :: p) b := by
  have hfirst : entry p [] + 1 = entry (c :: p) [] := by
    rw [entry_nil, entry_nil, List.length_cons]
  rw [entries, nextRow, hfirst, nextCells_entriesAfter]
  rfl

theorem foldl_nextRow_entries (a p b : List Char) :
    a.foldl (nextRow b) (entries p b) = entries (a.reverse ++ p) b := by
  induction a generalizing p with
  | nil => rfl
  | cons c a ih => rw [List.foldl_cons, nextRow_entries, ih]; simp

theorem getLastD_entriesAfter (p q ds : List Char) :
    (entriesAfter p q ds).getLastD (entry p q) = entry p (ds.reverse ++ q) := by
  induction ds generalizing q with
  | nil => rfl
  | cons d ds ih =>
    rw [entriesAfter, List.getLastD_cons, ih]
    simp

/-- **The distance is the entry for the whole texts**, read from their ends. -/
theorem editDistance_eq_entry (a b : List Char) :
    editDistance a b = entry a.reverse b.reverse := by
  rw [editDistance, ← entries_nil, foldl_nextRow_entries, List.append_nil, entries,
    List.getLastD_cons, getLastD_entriesAfter, List.append_nil]

/-! ## 5. The distance -/

/-- **The edit distance is the least number of edits** that turn the one text into the other. -/
theorem editDistance_isLeast (a b : List Char) : IsLeast {n | Edits n a b} (editDistance a b) := by
  have hle {n : Nat} (h : Edits n a b) : editDistance a b ≤ n := by
    rw [editDistance_eq_entry]
    exact aligned_iff_entry_le.mp h.reverse.aligned
  refine ⟨?_, fun n h => hle h⟩
  have haligned : Aligned (editDistance a b) a.reverse b.reverse :=
    aligned_iff_entry_le.mpr (Nat.le_of_eq (editDistance_eq_entry a b).symm)
  obtain ⟨m, hm, hedits⟩ := haligned.exists_edits
  have hedits : Edits m a b := by simpa using hedits.reverse
  obtain rfl : m = editDistance a b := Nat.le_antisymm hm (hle hedits)
  exact hedits

/-- Two characters in the wrong order are two edits. -/
example : editDistance "ehco".toList "echo".toList = 2 := by decide

end LineShell
