import LineShell.Text.Bytes
import Mathlib.Tactic.SplitIfs

/-!
# The lines of an input

A newline ends a line, and a carriage return before the newline belongs to its end. What stands after
the last newline is a line too, if there is anything (`CutsIntoLines`). An input is read as texts up to
the first line that is not UTF-8 (`ReadsAs`).

* `cutsIntoLines_pieces`: stripped of their ends, the pieces of an input are its lines;
* `CutsIntoLines.unique`: and it has no others;
* `readsAs_linesUntilBad`: reading stops where the texts stop.
-/

namespace LineShell
namespace Bytes

/-! ## 1. Lines -/

/-- A carriage return at the end of a line that a newline ends is no part of it. -/
def dropReturn (line : Bytes) : Bytes := if line.getLast? = some 13 then line.dropLast else line

/-- The bytes hold these lines, without their ends. -/
inductive CutsIntoLines : Bytes → List Bytes → Prop
  | nil : CutsIntoLines [] []
  /-- What follows the last newline is taken as it is. -/
  | last {line : Bytes} (hne : line ≠ []) (h : 10 ∉ line) : CutsIntoLines line [line]
  | ended {line rest : Bytes} {lines : List Bytes} (h : 10 ∉ line)
      (hrest : CutsIntoLines rest lines) :
      CutsIntoLines (line ++ 10 :: rest) (dropReturn line :: lines)

/-- The first line goes up to the first newline. -/
theorem splitLine_cases (bs : Bytes) :
    (10 ∉ bs ∧ splitLine bs = (bs, [])) ∨
      ∃ line rest, bs = line ++ 10 :: rest ∧ 10 ∉ line ∧ splitLine bs = (line ++ [10], rest) := by
  induction bs with
  | nil => exact .inl ⟨List.not_mem_nil, rfl⟩
  | cons b bs ih =>
    rw [splitLine]
    by_cases hb : b = 10
    · subst hb
      exact .inr ⟨[], bs, rfl, List.not_mem_nil, rfl⟩
    · rw [if_neg (by simpa using hb)]
      obtain ⟨hno, hsplit⟩ | ⟨line, rest, rfl, hno, hsplit⟩ := ih
      · refine .inl ⟨?_, by rw [hsplit]⟩
        simp [hno, Ne.symm hb]
      · refine .inr ⟨b :: line, rest, rfl, ?_, by rw [hsplit]; rfl⟩
        simp [hno, Ne.symm hb]

/-- A piece that no newline ends is a line as it is. -/
theorem stripLineEnd_of_not_mem {line : Bytes} (h : 10 ∉ line) : stripLineEnd line = line := by
  unfold stripLineEnd
  split
  · rename_i r hr
    exact absurd (List.mem_reverse.mp (hr ▸ List.mem_cons_self)) h
  · rename_i r _ hr
    exact absurd (List.mem_reverse.mp (hr ▸ List.mem_cons_self)) h
  · rfl

theorem stripLineEnd_ended (line : Bytes) : stripLineEnd (line ++ [10]) = dropReturn line := by
  unfold stripLineEnd dropReturn
  rw [List.reverse_append, List.reverse_singleton, List.singleton_append, ← List.head?_reverse]
  cases hrev : line.reverse with
  | nil =>
    have hnil : line = [] := List.reverse_eq_nil_iff.mp hrev
    simp [hnil]
  | cons b r =>
    have hline : line = r.reverse ++ [b] := by
      rw [← List.reverse_reverse line, hrev, List.reverse_cons]
    by_cases hb : b = 13
    · subst hb
      simp [hline]
    · rw [List.head?_cons, if_neg (by simpa using hb)]
      split
      · rename_i heq
        cases heq
        exact absurd rfl hb
      · rename_i heq
        cases heq
        rw [hline, List.reverse_cons]
      · rename_i hno
        exact absurd rfl (hno _)

/-- **Stripped of their ends, the pieces of an input are its lines.** -/
theorem cutsIntoLines_pieces (bs : Bytes) : CutsIntoLines bs ((pieces bs).map stripLineEnd) := by
  fun_induction pieces bs with
  | case1 => exact .nil
  | case2 b bs ih =>
    obtain ⟨hno, hsplit⟩ | ⟨line, rest, hbs, hno, hsplit⟩ := splitLine_cases (b :: bs)
    · rw [hsplit, List.map_cons, stripLineEnd_of_not_mem hno, pieces, List.map_nil]
      exact .last (List.cons_ne_nil b bs) hno
    · rw [hsplit] at ih
      rw [hsplit, List.map_cons, stripLineEnd_ended, hbs]
      exact .ended hno ih

/-- Two cuts at the first newline are the same. -/
theorem append_newline_inj {line rest line' rest' : Bytes} (h : 10 ∉ line) (h' : 10 ∉ line')
    (heq : line ++ 10 :: rest = line' ++ 10 :: rest') : line = line' ∧ rest = rest' := by
  induction line generalizing line' with
  | nil =>
    cases line' with
    | nil => exact ⟨rfl, (List.cons.inj heq).2⟩
    | cons b line' => exact absurd ((List.cons.inj heq).1 ▸ List.mem_cons_self) h'
  | cons b line ih =>
    cases line' with
    | nil => exact absurd ((List.cons.inj heq).1 ▸ List.mem_cons_self) h
    | cons b' line' =>
      obtain ⟨rfl, hrest⟩ := List.cons.inj heq
      obtain ⟨rfl, rfl⟩ := ih (fun hmem => h (List.mem_cons_of_mem _ hmem))
        (fun hmem => h' (List.mem_cons_of_mem _ hmem)) hrest
      exact ⟨rfl, rfl⟩

/-- An input has one list of lines. -/
theorem CutsIntoLines.unique {bs : Bytes} {lines lines' : List Bytes} (h : CutsIntoLines bs lines)
    (h' : CutsIntoLines bs lines') : lines = lines' := by
  induction h generalizing lines' with
  | nil =>
    generalize hbs : ([] : Bytes) = bs at h'
    cases h' with
    | nil => rfl
    | last hne => exact absurd hbs.symm hne
    | ended => simp at hbs
  | @last line hne hno =>
    generalize hbs : line = bs at h'
    cases h' with
    | nil => exact absurd hbs hne
    | last => rfl
    | ended => exact absurd (hbs ▸ by simp) hno
  | @ended line rest lines hno hrest ih =>
    generalize hbs : line ++ 10 :: rest = bs at h'
    cases h' with
    | nil => simp at hbs
    | last _ hno' => exact absurd (hbs ▸ by simp) hno'
    | ended hno' hrest' =>
      obtain ⟨rfl, rfl⟩ := append_newline_inj hno hno' hbs
      rw [ih hrest']

/-! ## 2. Texts -/

/-- The texts are those of the lines up to the first one that is not UTF-8, if there is one. -/
def ReadsAs (lines : List Bytes) (texts : List String) : Prop :=
  (lines.map ofUtf8?).takeWhile Option.isSome = texts.map some

/-- **Reading stops where the texts stop.** -/
theorem readsAs_linesUntilBad (pieces : List Bytes) :
    ReadsAs (pieces.map stripLineEnd) (linesUntilBad pieces).1 ∧
      ((linesUntilBad pieces).2 = true ↔ ∃ line ∈ pieces.map stripLineEnd, ofUtf8? line = none) := by
  induction pieces with
  | nil => exact ⟨rfl, by simp [linesUntilBad]⟩
  | cons piece rest ih =>
    obtain ⟨htexts, hbad⟩ := ih
    rw [linesUntilBad]
    cases htext : ofUtf8? (stripLineEnd piece) with
    | none =>
      refine ⟨?_, ?_⟩
      · simp [ReadsAs, htext]
      · simp [htext]
    | some text =>
      refine ⟨?_, ?_⟩
      · rw [ReadsAs] at htexts
        rw [ReadsAs, List.map_cons, List.map_cons, htext, List.takeWhile_cons_of_pos rfl, htexts,
          List.map_cons]
      · rw [hbad, List.map_cons]
        simp [htext]

end Bytes
end LineShell
