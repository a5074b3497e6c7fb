import LineShell.Proofs.CursorOwner

/-!
# The cursor leaves the segments alone

While it passes over a line the scan notes the word at the cursor, and it never looks at what it has
noted. So a cursor adds marks to the segments of a line and changes nothing else about them.

* `Scan.noting` puts a note into a state, and `Segment.unmarked` takes the marks of the cursor off a
  segment;
* `step_noting`, `after_noting`, `close_noting`, `finish_noting`: each move of the scan does the same
  with any note, and up to the marks each end of a segment gives the same;
* `segmentsFrom_noting`: so, up to the marks, the segments from a state on are those without a cursor;
* `segments_cursor_free`: two cursors give the same segments up to the marks, and what is completed
  stands in a segment of the line as it is run.
-/

namespace LineShell

/-- The segment without what a cursor adds to it. -/
def Segment.unmarked (s : Segment) : Segment :=
  { s with cursor := none, selectedWord := none, cursorInWord := 0 }

namespace Scan

/-- The state of the scan with another note about the word at the cursor. -/
def noting (note : Option (Nat × Nat)) (s : Scan) : Scan := { s with selection := note }

variable (note : Option (Nat × Nat)) (s : Scan)

/-! ## 1. Moves -/

theorem flushText_noting : (s.noting note).flushText = s.flushText.noting note := by
  unfold flushText
  split_ifs with h h' h'
  · rfl
  · exact absurd h h'
  · exact absurd h' h
  · rfl

variable {note s} {brackets : Bool} {c : Char}

theorem stepBare_noting :
    (s.noting note).stepBare brackets c = (s.stepBare brackets c).noting note := by
  simp only [stepBare, flushText_noting, apply_ite (noting note)]
  rfl

theorem stepSingle_noting {odd : Bool} :
    (s.noting note).stepSingle odd c = (s.stepSingle odd c).noting note := by
  simp only [stepSingle, apply_ite (noting note)]
  rfl

theorem stepDouble_noting {openedAt : Nat} {odd : Bool} :
    (s.noting note).stepDouble openedAt odd c = (s.stepDouble openedAt odd c).noting note := by
  simp only [stepDouble, apply_ite (noting note)]
  rfl

theorem stepDoubled_noting {before : Nat} :
    (s.noting note).stepDoubled before c = (s.stepDoubled before c).noting note := by
  simp only [stepDoubled, apply_ite (noting note)]
  rfl

theorem stepBracketed_noting :
    (s.noting note).stepBracketed c = (s.stepBracketed c).noting note := by
  simp only [stepBracketed, apply_ite (noting note)]
  rfl

theorem take_noting : (s.noting note).take brackets c = (s.take brackets c).noting note := by
  have hopen : ({ s.noting note with wordClosed := false } : Scan) =
      ({ s with wordClosed := false } : Scan).noting note := rfl
  rw [take, take, hopen]
  generalize ({ s with wordClosed := false } : Scan) = s
  have hclosers : (s.noting note).closers = s.closers := rfl
  have hquotation : (s.noting note).quotation = s.quotation := rfl
  simp only [hclosers, hquotation]
  split
  · rw [stepBracketed_noting]
    rfl
  · cases s.quotation with
    | none => exact stepBare_noting
    | some q =>
      cases q with
      | single odd =>
        simp only [stepSingle_noting]
        rfl
      | double openedAt odd =>
        simp only [stepDouble_noting]
        rfl
      | doubled second before =>
        simp only [stepDoubled_noting]
        rfl

/-- **One character does the same whatever was noted**, and keeps the note. -/
theorem step_noting : (s.noting note).step brackets c = (s.step brackets c).noting note := by
  rw [step, take_noting]
  rfl

/-- An operator drops the note. -/
theorem after_noting (op : Operator) : (s.noting note).after op = s.after op := rfl

theorem operatorAt_noting (operators : List Operator) (rest : List Char) :
    (s.noting note).operatorAt operators rest = s.operatorAt operators rest := rfl

/-- At the cursor another note is taken, and elsewhere the note stays. -/
theorem atCursor_eq_noting (cursor : Option Nat) (s : Scan) :
    ∃ note, s.atCursor cursor = s.noting note := by
  unfold atCursor
  split
  · exact ⟨_, rfl⟩
  · exact ⟨s.selection, rfl⟩

/-! ## 2. The end of a segment -/

variable {o : ScanOptions}

/-- Up to the marks a segment is what was read, how it ended, and the words. -/
theorem emit_unmarked (s : Scan) (cursor : Option Nat) (next : Nat) (op : Operator)
    (status : SegmentStatus) (openEnd : Bool) :
    (s.emit { o with cursor := cursor } next op status openEnd).unmarked =
      s.emit { o with cursor := none } next op status openEnd := by
  simp [emit, Segment.unmarked]

theorem close_noting (cursor : Option Nat) (op : Operator) :
    ((s.noting note).close { o with cursor := cursor } op).unmarked =
      s.close { o with cursor := none } op := by
  rw [close, close, flushText_noting, emit_unmarked]
  simp [emit, noting]

theorem settleDoubled_noting : (s.noting note).settleDoubled = s.settleDoubled.noting note := by
  cases hq : s.quotation with
  | none => simp [settleDoubled, noting, hq]
  | some q =>
    cases q with
    | single odd => simp [settleDoubled, noting, hq]
    | double openedAt odd => simp [settleDoubled, noting, hq]
    | doubled second before =>
      simp only [settleDoubled, noting, hq]
      split
      · rfl
      · rw [hq]

theorem flushEnd_noting : (s.noting note).flushEnd = s.flushEnd.noting note := by
  simp only [flushEnd, apply_ite (noting note)]
  have hlast := flushText_noting note
    { s with letters := if s.escaped then '\\' :: s.letters else s.letters }
  rw [← hlast]
  rfl

theorem finish_noting (cursor : Option Nat) :
    ((s.noting note).finish { o with cursor := cursor }).unmarked =
      s.finish { o with cursor := none } := by
  rw [finish, finish, settleDoubled_noting, flushEnd_noting, emit_unmarked]
  simp [emit, noting, endStatus]

/-! ## 3. The segments -/

/-- **Up to the marks the segments are those without a cursor**, whatever was noted before. -/
theorem segmentsFrom_noting (cursor : Option Nat) (note : Option (Nat × Nat)) (s : Scan)
    (cs : List Char) :
    ((s.noting note).segmentsFrom { o with cursor := cursor } cs).map Segment.unmarked =
      s.segmentsFrom { o with cursor := none } cs := by
  -- both scans stand at the same place, and only the first one may hold a note
  induction hk : cs.length using Nat.strongRecOn generalizing note s cs with
  | _ k ih =>
    have hnocursor (t : Scan) : t.atCursor none = t := by simp [atCursor]
    rw [segmentsFrom.eq_def, segmentsFrom.eq_def]
    cases cs with
    | nil => simp only [List.map_singleton, finish_noting]
    | cons c rest =>
      obtain ⟨note', hnote⟩ := atCursor_eq_noting cursor (s.noting note)
      have hat : (s.noting note).atCursor cursor = s.noting note' := hnote
      simp only [hat, hnocursor, operatorAt_noting]
      cases hop : s.operatorAt o.operators (c :: rest) with
      | none =>
        have hlt : rest.length < k := by
          rw [← hk, List.length_cons]
          exact Nat.lt_succ_self _
        simp only [step_noting, ih _ hlt note' _ rest rfl]
      | some op =>
        have hlt : (rest.drop (op.spelling.length - 1)).length < k := by
          rw [← hk, List.length_drop, List.length_cons]
          omega
        have hrest := ih _ hlt none (s.after op) _ rfl
        simp only [List.map_cons, close_noting, after_noting]
        rw [← hrest]
        rfl

end Scan

/-- Up to the marks of the cursor the segments of a line are those without a cursor. -/
theorem segments_unmarked (o : ScanOptions) (cursor : Option Nat) (line : String) :
    (segments { o with cursor := cursor } line).map Segment.unmarked =
      segments { o with cursor := none } line :=
  Scan.segmentsFrom_noting cursor none {} line.toList

/-- What is completed stands in a segment of the line without a cursor. -/
theorem getElem?_of_completionTarget {o : ScanOptions} {line : String} {c : Nat}
    {t : CompletionTarget} (h : completionTarget line c o = some t) :
    (segments { o with cursor := none } line)[t.segmentIndex]? = some t.segment.unmarked := by
  have htarget := completionTarget_eq o line c
  rw [h] at htarget
  rw [← segments_unmarked o (some c), List.getElem?_map, htarget.1]
  rfl

/-- **The cursor never changes the segments.** With any two cursors, or with none, a line has the same
segments up to the marks of the cursor: as many of them, with the same text, words, status, error and
operator. And the segment that something is completed in is the one of that number when the line is
run. -/
theorem segments_cursor_free (o : ScanOptions) (cursor cursor' : Option Nat) (line : String) :
    (segments { o with cursor := cursor } line).map Segment.unmarked =
        (segments { o with cursor := cursor' } line).map Segment.unmarked ∧
      ∀ c, ∀ t ∈ completionTarget line c o,
        (segments { o with cursor := none } line)[t.segmentIndex]? = some t.segment.unmarked := by
  refine ⟨?_, fun c t ht => getElem?_of_completionTarget ht⟩
  rw [segments_unmarked, segments_unmarked]

end LineShell
