import LineShell.Proofs.Continuation

/-!
# Segments do not influence one another

What the scan carries over an operator is the place it has reached and what its last character was,
and without a cursor nobody asks for the latter. So a segment is what its own text is: scanned alone
the text is one segment, with the same words and the same faults (`Segment.StandsAlone`).

* `segmentsFrom_head`: the first segment is read as if the line stopped where it does;
* `standsAlone_close`: an operator ends a segment as the end of the line would, except that the end of
  the line does not ask for a word;
* `segments_typed`: so every segment of a line stands alone, because after an operator a text has its
  own segments (`Fresh.segmentsFrom`).
-/

namespace LineShell

/-- The segment `t` is `s` as the only segment of a line, without the `n` bytes before it. A segment
that has nothing before its operator is then a line without words. -/
structure Segment.StandsAlone (n : Nat) (s t : Segment) : Prop where
  typed : t.typed = s.typed
  operator : t.operator = .endOfLine
  /-- The same words, `n` bytes further up. -/
  words : s.words = t.words.map (.shift n)
  status : t.status = if s.status = .emptyBeforeOperator then .ok else s.status
  error : t.error = if s.status = .emptyBeforeOperator then none else s.error
  empty : s.status = .emptyBeforeOperator → t.words = []

theorem Segment.StandsAlone.shift {m : Nat} {s t : Segment} (h : s.StandsAlone m t) (n : Nat) :
    (s.shift n).StandsAlone (n + m) t where
  typed := h.typed
  operator := h.operator
  words := by simp [Segment.shift, h.words, Word.shift_shift]
  status := h.status
  error := h.error
  empty := h.empty

/-! ## 1. Text before a cut -/

namespace Operator

/-- What a text does not start with, no text starts with that it goes on from. -/
theorem longestAt_of_prefix {enabled : List Operator} {xs ys : List Char} (h : xs <+: ys)
    (hnone : longestAt enabled ys = none) : longestAt enabled xs = none := by
  rw [longestAt_eq_none_iff] at hnone ⊢
  intro op hop hstarts
  obtain ⟨hwritten, hxs⟩ := startsAt_iff.mp hstarts
  exact hnone op hop (startsAt_iff.mpr ⟨hwritten, hxs.trans h⟩)

end Operator

namespace Scan

variable {o : ScanOptions} {s : Scan}

theorem operatorAt_of_prefix {xs ys : List Char} (h : xs <+: ys)
    (hnone : s.operatorAt o.operators ys = none) : s.operatorAt o.operators xs = none := by
  rw [operatorAt] at hnone ⊢
  split at hnone
  · rename_i hbare
    rw [if_pos hbare]
    exact Operator.longestAt_of_prefix h hnone
  · rename_i hbare
    rw [if_neg hbare]

theorem isBare_of_operatorAt {rest : List Char} {op : Operator}
    (h : s.operatorAt o.operators rest = some op) : s.isBare = true := by
  rw [operatorAt] at h
  split at h
  · assumption
  · cases h

/-- How the first segment ends that the scan has read: with the line, or at an operator that stands
where the scan is bare. -/
inductive HeadEnds (o : ScanOptions) (s : Scan) : Segment → List Segment → Prop
  | line : HeadEnds o s (s.finish o) []
  | operator {op : Operator} {rest : List Char} (h : s.isBare = true) :
      HeadEnds o s (s.close o op) ((s.after op).segmentsFrom o rest)

/-- **The first segment is read as if the line stopped where it does.** -/
theorem segmentsFrom_head (ho : o.cursor = none) {cs : List Char} {t : Segment}
    {back : List Segment} (h : s.segmentsFrom o cs = t :: back) :
    ∃ p s', s.segmentsFrom o p = [s'.finish o] ∧ p <+: cs ∧
      s'.read.reverse = s.read.reverse ++ p ∧ s'.pos = s.pos + byteLength p ∧
      HeadEnds o s' t back := by
  fun_induction segmentsFrom o s cs with
  | case1 s =>
    cases h
    exact ⟨[], s, by rw [segmentsFrom], List.nil_prefix, (List.append_nil _).symm, rfl, .line⟩
  | case2 s c rest s' op hop ih =>
    rw [show s' = s from atCursor_of_no_cursor ho s] at hop h
    cases h
    exact ⟨[], s, by rw [segmentsFrom], List.nil_prefix, (List.append_nil _).symm, rfl,
      .operator (isBare_of_operatorAt hop)⟩
  | case3 s c rest s' hop ih =>
    rw [show s' = s from atCursor_of_no_cursor ho s] at hop ih h
    obtain ⟨p, s'', hsegs, hp, hread, hpos, hends⟩ := ih h
    have hp' : c :: p <+: c :: rest := List.cons_prefix_cons.mpr ⟨rfl, hp⟩
    have hnone : (s.atCursor o.cursor).operatorAt o.operators (c :: p) = none := by
      rw [atCursor_of_no_cursor ho]
      exact operatorAt_of_prefix hp' hop
    refine ⟨c :: p, s'', ?_, hp', ?_, ?_, hends⟩
    · rw [segmentsFrom_cons hnone, atCursor_of_no_cursor ho, hsegs]
    · rw [hread, step_read, List.reverse_cons, List.append_assoc, List.singleton_append]
    · rw [hpos, step_pos, byteLength_cons, Nat.add_assoc]

/-! ## 2. The end of a segment -/

/-- What is wrong at the end of a line is never that something is missing before an operator. -/
theorem endStatus_ne_empty : s.endStatus ≠ .emptyBeforeOperator := by
  unfold endStatus
  split <;> simp

theorem standsAlone_finish : (s.finish o).StandsAlone 0 (s.finish o) where
  typed := rfl
  operator := rfl
  words := by simp
  status := (if_neg endStatus_ne_empty).symm
  error := (if_neg endStatus_ne_empty).symm
  empty := fun h => absurd h endStatus_ne_empty

/-- **An operator ends a segment as the end of the line would**, which does not ask for a word. -/
theorem standsAlone_close (ho : o.cursor = none) (h : s.isBare = true) (op : Operator) :
    (s.close o op).StandsAlone 0 (s.finish o) := by
  rw [finish_of_bare ho (isBare_iff.mp h), close]
  simp only [emit_of_no_cursor ho, flushText_read]
  cases s.flushText.words with
  | nil => exact ⟨rfl, rfl, rfl, rfl, rfl, fun _ => rfl⟩
  | cons w ws =>
    exact ⟨rfl, rfl, (Word.map_shift_zero _).symm, rfl, rfl, fun hempty => by cases hempty⟩

theorem HeadEnds.standsAlone (ho : o.cursor = none) {t : Segment} {back : List Segment}
    (h : s.HeadEnds o t back) : t.StandsAlone 0 (s.finish o) := by
  cases h with
  | line => exact standsAlone_finish
  | operator h => exact standsAlone_close ho h _

/-! ## 3. The segments of a line -/

/-- **Every segment of a text from the start of a segment stands alone.** -/
theorem Fresh.standsAlone (ho : o.cursor = none) {n : Nat} (h : s.Fresh n) {cs : List Char}
    {front back : List Segment} {t : Segment} (hsegs : s.segmentsFrom o cs = front ++ t :: back) :
    ∃ u, ({} : Scan).segmentsFrom o t.typed.toList = [u] ∧
      t.StandsAlone (n + byteLength (lineOf front)) u := by
  induction front generalizing s n cs with
  | nil =>
    -- read at the start of the line, the segment is the first one there
    rw [h.segmentsFrom ho, List.nil_append, List.map_eq_cons_iff] at hsegs
    obtain ⟨t, back', hsegs, rfl, -⟩ := hsegs
    obtain ⟨p, s', halone, -, hread, -, hends⟩ := segmentsFrom_head ho hsegs
    have hstands := hends.standsAlone ho
    have htyped : (t.shift n).typed.toList = p := by
      rw [show (t.shift n).typed = t.typed from rfl, ← hstands.typed, finish_typed, hread]
      rfl
    exact ⟨s'.finish o, by rw [htyped, halone], hstands.shift n⟩
  | cons f front ih =>
    rw [List.cons_append] at hsegs
    obtain ⟨p, s', -, -, hread, hpos, hends⟩ := segmentsFrom_head ho hsegs
    generalize hrest : front ++ t :: back = segs at hends
    cases hends with
    | line => simp at hrest
    | @operator op rest hbare =>
      obtain ⟨u, halone, hu⟩ := ih (Fresh.after s' op) hrest.symm
      have hplace : n + byteLength (lineOf (s'.close o op :: front)) =
          s'.pos + byteLength op.spelling + byteLength (lineOf front) := by
        have hf : byteLength (lineOf [s'.close o op]) = byteLength p + byteLength op.spelling := by
          rw [lineOf, List.flatMap_singleton, close_typed, byteLength_append, hread, h.read]
          rfl
        rw [lineOf_cons, byteLength_append, hf, hpos, h.pos]
        omega
      rw [hplace]
      exact ⟨u, halone, hu⟩

end Scan

/-- **A segment does not depend on the others.** The text of a segment, scanned alone, is one segment
that the end of the line ends. It has the same words, at their places in that text, and the same
faults, except that a text without words is in order when no operator follows it. -/
theorem segments_typed {o : ScanOptions} {line : String} {front back : List Segment} {s : Segment}
    (ho : o.cursor = none) (h : segments o line = front ++ s :: back) :
    ∃ t, segments o s.typed = [t] ∧ s.StandsAlone (byteLength (lineOf front)) t := by
  have hstart : ({} : Scan).Fresh 0 := ⟨false, false, rfl⟩
  have hstands := hstart.standsAlone ho h
  rwa [Nat.zero_add] at hstands

/-- Quotes and brackets around an operator, a character of two bytes before the segment, and
a segment without words after it. -/
theorem segments_typed_between_operators :
    let o : ScanOptions := { brackets := true, operators := [.semicolon, .andThen] }
    let front : List Segment :=
      [{ typed := "é ", words := [⟨"é", 0, .plain⟩], operator := .semicolon }]
    let s : Segment :=
      { typed := " 'a;b' {c;d} ", words := [⟨"a;b", 5, .plain⟩, ⟨"{c;d}", 11, .plain⟩],
        operator := .andThen }
    let back : List Segment :=
      [{ typed := " ", words := [], status := .emptyBeforeOperator,
         error := some "linechain: syntax error near unexpected token ';'", operator := .semicolon },
       { typed := "", words := [], operator := .endOfLine }]
    o.cursor = none ∧ segments o "é ; 'a;b' {c;d} && ;" = front ++ s :: back ∧
      ∃ t, segments o s.typed = [t] ∧ s.StandsAlone (byteLength (lineOf front)) t := by
  intro o front s back
  have hsplit : segments o "é ; 'a;b' {c;d} && ;" = front ++ s :: back := by decide +kernel
  exact ⟨rfl, hsplit, segments_typed rfl hsplit⟩

end LineShell
