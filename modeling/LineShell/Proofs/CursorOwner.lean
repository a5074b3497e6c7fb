import LineShell.Completion
import LineShell.Proofs.Partition
import LineShell.Proofs.Shift

/-!
# The segment that owns the cursor

The segments of a line lie one after another, so each of them takes up a stretch of bytes: from its
start up to the end of the operator that ended it, and for the last one up to the end of the line,
that end included (`Covers`). The stretches leave nothing out and do not meet.

* `exists_covers`, `Covers.unique`: every byte offset up to the length of the line is covered by
  exactly one segment;
* `segmentsFrom_cursor`: the scan gives the cursor to a segment by the bytes that it has counted, and
  these are the bytes of what it has read;
* `cursor_owner`: so a cursor in the line is owned by the segment that covers it and by no other, a
  segment without a cursor has no word selected, and what is completed is what stands in the owner.
-/

namespace LineShell

/-! ## 1. Stretches of bytes -/

/-- The segment between `front` and `back` takes up the byte `c` of the line. The last segment also
owns the end of the line. -/
def Covers (front : List Segment) (s : Segment) (back : List Segment) (c : Nat) : Prop :=
  byteLength (lineOf front) ≤ c ∧
    (c < byteLength (lineOf (front ++ [s])) ∨ (back = [] ∧ c = byteLength (lineOf (front ++ [s]))))

section Stretches

variable {segs front back front' back' : List Segment} {s s' : Segment} {c : Nat}

/-- A segment further down covers what it would cover at the start, further down. -/
theorem Covers.cons (f : Segment) (h : Covers front s back c) :
    Covers (f :: front) s back (byteLength (lineOf [f]) + c) := by
  rw [Covers, List.cons_append, lineOf_cons f front, lineOf_cons f (front ++ [s]),
    byteLength_append, byteLength_append]
  obtain ⟨hle, hlt | ⟨hback, heq⟩⟩ := h
  · exact ⟨by omega, .inl (by omega)⟩
  · exact ⟨by omega, .inr ⟨hback, by omega⟩⟩

/-- **Every byte offset up to the length of the line is covered.** -/
theorem exists_covers (hne : segs ≠ []) (hc : c ≤ byteLength (lineOf segs)) :
    ∃ front s back, segs = front ++ s :: back ∧ Covers front s back c := by
  induction segs generalizing c with
  | nil => exact absurd rfl hne
  | cons f rest ih =>
    by_cases hfirst : c < byteLength (lineOf [f])
    · exact ⟨[], f, rest, rfl, Nat.zero_le _, .inl hfirst⟩
    by_cases hrest : rest = []
    · subst hrest
      exact ⟨[], f, [], rfl, Nat.zero_le _, .inr ⟨rfl, Nat.le_antisymm hc (Nat.le_of_not_lt hfirst)⟩⟩
    · rw [lineOf_cons, byteLength_append] at hc
      obtain ⟨front, s, back, hsplit, hcovers⟩ :=
        ih hrest (c := c - byteLength (lineOf [f])) (by omega)
      refine ⟨f :: front, s, back, by rw [hsplit, List.cons_append], ?_⟩
      have hmoved := hcovers.cons f
      rwa [Nat.add_sub_cancel' (Nat.le_of_not_lt hfirst)] at hmoved

/-- What a segment covers lies in the line. -/
theorem Covers.le_length (h : Covers front s back c) (hsplit : segs = front ++ s :: back) :
    c ≤ byteLength (lineOf segs) := by
  have hline : lineOf segs = lineOf (front ++ [s]) ++ lineOf back := by
    rw [hsplit, ← lineOf_append, List.append_assoc, List.singleton_append]
  rw [hline, byteLength_append]
  obtain ⟨-, hlt | ⟨-, heq⟩⟩ := h <;> omega

/-- Nothing that a segment covers is covered by a later one. -/
theorem Covers.not_later (h : Covers front s back c) (h' : Covers front' s' back' c)
    (hsplit : segs = front ++ s :: back) (hsplit' : segs = front' ++ s' :: back') :
    ¬ front.length < front'.length := by
  intro hlt
  have hprefix : front ++ [s] <+: front' := by
    have hleft : front ++ [s] <+: segs := ⟨back, by rw [hsplit, List.append_assoc]; rfl⟩
    have hright : front' <+: segs := ⟨s' :: back', hsplit'.symm⟩
    refine List.prefix_of_prefix_length_le hleft hright ?_
    rw [List.length_append, List.length_singleton]
    exact hlt
  have hback : back ≠ [] := by
    rintro rfl
    have hlen := congrArg List.length (hsplit.symm.trans hsplit')
    simp only [List.length_append, List.length_cons, List.length_nil] at hlen
    omega
  obtain ⟨more, hmore⟩ := hprefix
  have hle := h'.1
  rw [← hmore, lineOf_append, byteLength_append] at hle
  obtain ⟨-, hin | ⟨hnil, -⟩⟩ := h
  · omega
  · exact hback hnil

/-- **No byte offset is covered twice.** -/
theorem Covers.unique (h : Covers front s back c) (h' : Covers front' s' back' c)
    (hsplit : segs = front ++ s :: back) (hsplit' : segs = front' ++ s' :: back') :
    front.length = front'.length := by
  have hle := h.not_later h' hsplit hsplit'
  have hge := h'.not_later h hsplit' hsplit
  omega

end Stretches

/-! ## 2. What the scan counts -/

namespace Scan

variable {o : ScanOptions} {s : Scan}

/-- The scan stands where the text of its segment ends. -/
def Placed (s : Scan) : Prop := s.pos = s.start + byteLength s.read

@[simp] theorem flushText_start : s.flushText.start = s.start := by
  unfold flushText
  split <;> rfl

theorem Placed.step (h : s.Placed) (brackets : Bool) (c : Char) : (s.step brackets c).Placed := by
  rw [Placed, step_pos, step_start, step_read, byteLength_cons, h]
  omega

theorem Placed.atCursor (h : s.Placed) (cursor : Option Nat) : (s.atCursor cursor).Placed := by
  unfold Scan.atCursor
  split <;> exact h

theorem placed_after (op : Operator) : (s.after op).Placed := rfl

@[simp] theorem atCursor_start (cursor : Option Nat) : (s.atCursor cursor).start = s.start := by
  unfold Scan.atCursor
  split <;> rfl

@[simp] theorem settleDoubled_start : s.settleDoubled.start = s.start := by
  unfold settleDoubled
  split
  · dsimp only
    split <;> rfl
  · rfl

@[simp] theorem settleDoubled_pos : s.settleDoubled.pos = s.pos := by
  unfold settleDoubled
  split
  · dsimp only
    split <;> rfl
  · rfl

@[simp] theorem flushEnd_start : s.flushEnd.start = s.start := by
  unfold flushEnd
  split
  · rfl
  · split
    · rfl
    · exact flushText_start

theorem close_cursor (op : Operator) : (s.close o op).cursor =
    o.cursor.filter fun c => s.start ≤ c && c < s.pos + byteLength op.spelling := by
  simp [close, emit]

theorem finish_cursor : (s.finish o).cursor =
    o.cursor.filter fun c => s.start ≤ c && c < s.pos + 1 := by
  simp [finish, emit]

theorem close_operator (op : Operator) : (s.close o op).operator = op := rfl

theorem finish_operator : (s.finish o).operator = .endOfLine := rfl

/-- The bytes of a segment and its operator are those that the scan has counted. -/
theorem byteLength_close (h : s.Placed) (op : Operator) :
    s.start + byteLength (lineOf [s.close o op]) = s.pos + byteLength op.spelling := by
  rw [lineOf, List.flatMap_singleton, close_typed, close_operator, byteLength_append,
    byteLength_reverse, h, Nat.add_assoc]

theorem byteLength_finish (h : s.Placed) :
    s.start + byteLength (lineOf [s.finish o]) = s.pos := by
  rw [lineOf, List.flatMap_singleton, finish_typed, finish_operator, byteLength_append,
    byteLength_reverse, h]
  rfl

theorem segmentsFrom_ne_nil (o : ScanOptions) (s : Scan) (cs : List Char) :
    s.segmentsFrom o cs ≠ [] := by
  fun_induction segmentsFrom o s cs with
  | case1 => exact List.cons_ne_nil _ _
  | case2 => exact List.cons_ne_nil _ _
  | case3 _ _ _ _ _ ih => exact ih

/-- **The cursor goes to a segment by the bytes of the line that the segment takes up.** -/
theorem segmentsFrom_cursor {cs : List Char} (h : s.Placed) {front back : List Segment}
    {t : Segment} (hsegs : s.segmentsFrom o cs = front ++ t :: back) :
    t.cursor = o.cursor.filter fun c => s.start + byteLength (lineOf front) ≤ c &&
      c < s.start + byteLength (lineOf (front ++ [t])) + if back = [] then 1 else 0 := by
  fun_induction segmentsFrom o s cs generalizing front with
  | case1 s =>
    obtain ⟨rfl, e⟩ := List.append_eq_singleton_iff.mp hsegs.symm |>.resolve_right (by simp)
    cases e
    rw [List.nil_append, byteLength_finish h, if_pos rfl, finish_cursor]
    rfl
  | case2 s c rest s' op hop ih =>
    have h' : s'.Placed := h.atCursor _
    have hstart : s'.start = s.start := atCursor_start _
    cases front with
    | nil =>
      rw [List.nil_append, List.cons.injEq] at hsegs
      obtain ⟨rfl, hback⟩ := hsegs
      have hne : back ≠ [] := hback ▸ segmentsFrom_ne_nil _ _ _
      rw [List.nil_append, ← hstart, byteLength_close h', if_neg hne, close_cursor]
      rfl
    | cons f front =>
      rw [List.cons_append, List.cons.injEq] at hsegs
      obtain ⟨rfl, hback⟩ := hsegs
      have hnext (segs : List Segment) : s.start + byteLength (lineOf (s'.close o op :: segs)) =
          (s'.after op).start + byteLength (lineOf segs) := by
        rw [lineOf_cons, byteLength_append, ← Nat.add_assoc, ← hstart, byteLength_close h']
        rfl
      rw [ih (placed_after op) hback, List.cons_append, hnext, hnext]
  | case3 s c rest s' hop ih =>
    have h' : s'.Placed := h.atCursor _
    rw [ih (h'.step _ _) hsegs, step_start, show s'.start = s.start from atCursor_start _]

/-- In a segment that does not own the cursor no word is selected. -/
theorem emit_unselected {next : Nat} {op : Operator} {status : SegmentStatus} {openEnd : Bool}
    (h : (s.emit o next op status openEnd).cursor = none) :
    (s.emit o next op status openEnd).selectedWord = none ∧
      (s.emit o next op status openEnd).cursorInWord = 0 := by
  have hcursor : (o.cursor.filter fun c => s.start ≤ c && c < next) = none := h
  simp [emit, hcursor]

theorem segmentsFrom_unselected {cs : List Char} :
    ∀ t ∈ s.segmentsFrom o cs, t.cursor = none → t.selectedWord = none ∧ t.cursorInWord = 0 := by
  fun_induction segmentsFrom o s cs with
  | case1 s =>
    intro t ht
    rw [List.mem_singleton.mp ht]
    exact emit_unselected
  | case2 s c rest s' op hop ih =>
    intro t ht
    rcases List.mem_cons.mp ht with rfl | ht
    · exact emit_unselected
    · exact ih t ht
  | case3 s c rest s' hop ih => exact ih

/-- A word that is selected is one of the segment. -/
theorem emit_selected {next : Nat} {op : Operator} {status : SegmentStatus} {openEnd : Bool}
    {i : Nat} (h : (s.emit o next op status openEnd).selectedWord = some i) :
    i < s.words.length := by
  simp only [emit, Option.map_eq_some_iff] at h
  obtain ⟨selection, hselection, rfl⟩ := h
  split at hselection
  · have hlt := (Option.filter_eq_some_iff.mp hselection).2
    exact of_decide_eq_true hlt
  · cases hselection

theorem segmentsFrom_selected {cs : List Char} :
    ∀ t ∈ s.segmentsFrom o cs, ∀ i, t.selectedWord = some i → i < t.words.length := by
  fun_induction segmentsFrom o s cs with
  | case1 s =>
    intro t ht i
    rw [List.mem_singleton.mp ht]
    exact emit_selected
  | case2 s c rest s' op hop ih =>
    intro t ht i
    rcases List.mem_cons.mp ht with rfl | ht
    · exact emit_selected
    · exact ih t ht i
  | case3 s c rest s' hop ih => exact ih

end Scan

/-! ## 3. The owner -/

section Owner

variable (o : ScanOptions) (line : String) (c : Nat)

theorem lineOf_segments : lineOf (segments o line) = line.toList :=
  (Scan.segmentsFrom_cuts _ (Nat.le_refl _) Scan.follows_start).lineOf_eq

variable {o line c}

/-- **A segment owns the cursor if and only if it covers it.** -/
theorem cursor_of_split {front back : List Segment} {s : Segment} (ho : o.cursor = some c)
    (hsplit : segments o line = front ++ s :: back) :
    (Covers front s back c ∧ s.cursor = some c) ∨ (¬ Covers front s back c ∧ s.cursor = none) := by
  have hcursor := Scan.segmentsFrom_cursor (s := {}) rfl hsplit
  rw [ho, Nat.zero_add, Nat.zero_add] at hcursor
  have hcovers : Covers front s back c ↔ (decide (byteLength (lineOf front) ≤ c) &&
      decide (c < byteLength (lineOf (front ++ [s])) + if back = [] then 1 else 0)) = true := by
    rw [Covers, Bool.and_eq_true, decide_eq_true_iff, decide_eq_true_iff]
    by_cases hback : back = []
    · simp only [hback, if_true, true_and]
      omega
    · simp [hback]
  by_cases h : Covers front s back c
  · refine .inl ⟨h, ?_⟩
    rw [hcursor, Option.filter_some, if_pos (hcovers.mp h)]
  · refine .inr ⟨h, ?_⟩
    rw [hcursor, Option.filter_some, if_neg fun e => h (hcovers.mpr e)]

/-- The segment that covers the cursor owns it, and no segment before it or after it does. -/
theorem owner_alone {front back : List Segment} {s : Segment} (ho : o.cursor = some c)
    (hsplit : segments o line = front ++ s :: back) (h : Covers front s back c) :
    s.cursor = some c ∧ ∀ t ∈ front ++ back, t.cursor = none := by
  -- another owner would cover the cursor too
  have other : ∀ front' t back', segments o line = front' ++ t :: back' →
      front'.length ≠ front.length → t.cursor = none := by
    intro front' t back' hsplit' hne
    obtain ⟨h', -⟩ | ⟨-, hcursor⟩ := cursor_of_split ho hsplit'
    · exact absurd (h'.unique h hsplit' hsplit) hne
    · exact hcursor
  refine ⟨?_, fun t ht => ?_⟩
  · obtain ⟨-, hcursor⟩ | ⟨hno, -⟩ := cursor_of_split ho hsplit
    · exact hcursor
    · exact absurd h hno
  · rcases List.mem_append.mp ht with ht | ht
    · obtain ⟨before, between, rfl⟩ := List.append_of_mem ht
      refine other before t (between ++ s :: back) ?_ ?_
      · rw [hsplit, List.append_assoc, List.cons_append]
      · rw [List.length_append, List.length_cons]
        omega
    · obtain ⟨between, after, rfl⟩ := List.append_of_mem ht
      refine other (front ++ s :: between) t after ?_ ?_
      · rw [hsplit, List.append_assoc, List.cons_append]
      · rw [List.length_append, List.length_cons]
        omega

/-- Only a cursor in the line has an owner. -/
theorem le_length_of_cursor {s : Segment} (ho : o.cursor = some c) (hs : s ∈ segments o line)
    (hcursor : s.cursor ≠ none) : s.cursor = some c ∧ c ≤ byteLength line.toList := by
  obtain ⟨front, back, hsplit⟩ := List.append_of_mem hs
  obtain ⟨hcovers, hsome⟩ | ⟨-, hnone⟩ := cursor_of_split ho hsplit
  · have hle := hcovers.le_length hsplit
    rw [lineOf_segments] at hle
    exact ⟨hsome, hle⟩
  · exact absurd hnone hcursor

/-- A cursor in the line has an owner. -/
theorem exists_owner (o : ScanOptions) (hc : c ≤ byteLength line.toList) :
    ∃ front s back, segments o line = front ++ s :: back ∧ Covers front s back c := by
  rw [← lineOf_segments o line] at hc
  exact exists_covers (Scan.segmentsFrom_ne_nil _ _ _) hc

/-- **What is completed is what stands in the owner of the cursor.** -/
theorem completionTarget_eq (o : ScanOptions) (line : String) (c : Nat) :
    match completionTarget line c o with
    | some t =>
      (segments { o with cursor := some c } line)[t.segmentIndex]? = some t.segment ∧
        t.segment.cursor ≠ none
    | none => ∀ s ∈ segments { o with cursor := some c } line, s.cursor = none := by
  rw [completionTarget]
  generalize segments { o with cursor := some c } line = segs
  cases hfind : segs.zipIdx.find? (·.1.cursor.isSome) with
  | none =>
    intro s hs
    obtain ⟨i, hi⟩ := List.mem_iff_getElem?.mp hs
    have hmem : (s, i) ∈ segs.zipIdx := List.mem_zipIdx_iff_getElem?.mpr hi
    simpa using List.find?_eq_none.mp hfind _ hmem
  | some found =>
    obtain ⟨s, i⟩ := found
    have hmem : (s, i) ∈ segs.zipIdx := List.mem_of_find?_eq_some hfind
    have hsome := List.find?_some hfind
    exact ⟨List.mem_zipIdx_iff_getElem?.mp hmem, Option.isSome_iff_ne_none.mp hsome⟩

/-- **The cursor of a line has one owner.** Every segment that covers the cursor has it, as it is,
and every other one has none and no word selected. A cursor at a byte of the line or at its end is
owned by exactly one segment, and one past the end by none. There is something to complete if and
only if the cursor lies in the line, and it is what stands in the owner. -/
theorem cursor_owner (o : ScanOptions) (line : String) (c : Nat) :
    let segs := segments { o with cursor := some c } line
    (∀ front s back, segs = front ++ s :: back →
      (Covers front s back c ∧ s.cursor = some c) ∨
        (¬ Covers front s back c ∧ s.cursor = none ∧ s.selectedWord = none ∧
          s.cursorInWord = 0)) ∧
      (c ≤ byteLength line.toList → ∃ front s back, segs = front ++ s :: back ∧
        s.cursor = some c ∧ ∀ t ∈ front ++ back, t.cursor = none) ∧
      (byteLength line.toList < c → ∀ s ∈ segs, s.cursor = none) ∧
      match completionTarget line c o with
      | some t =>
        c ≤ byteLength line.toList ∧ segs[t.segmentIndex]? = some t.segment ∧
          t.segment.cursor = some c
      | none => byteLength line.toList < c := by
  intro segs
  refine ⟨fun front s back hsplit => ?_, fun hc => ?_, fun hc s hs => ?_, ?_⟩
  · obtain h | ⟨hcovers, hcursor⟩ := cursor_of_split rfl hsplit
    · exact .inl h
    · have hs : s ∈ segs := by
        rw [hsplit]
        exact List.mem_append_right _ List.mem_cons_self
      exact .inr ⟨hcovers, hcursor, Scan.segmentsFrom_unselected s hs hcursor⟩
  · obtain ⟨front, s, back, hsplit, hcovers⟩ :=
      exists_owner { o with cursor := some c } hc
    exact ⟨front, s, back, hsplit, owner_alone rfl hsplit hcovers⟩
  · cases hcursor : s.cursor with
    | none => rfl
    | some d =>
      have hle := (le_length_of_cursor rfl hs (by rw [hcursor]; simp)).2
      exact absurd hle (Nat.not_le_of_lt hc)
  · have htarget := completionTarget_eq o line c
    cases ht : completionTarget line c o with
    | some t =>
      rw [ht] at htarget
      obtain ⟨hget, hcursor⟩ := htarget
      obtain ⟨hsome, hle⟩ := le_length_of_cursor rfl (List.mem_of_getElem? hget) hcursor
      exact ⟨hle, hget, hsome⟩
    | none =>
      rw [ht] at htarget
      refine Nat.lt_of_not_le fun hc => ?_
      obtain ⟨front, s, back, hsplit, hcovers⟩ := exists_owner { o with cursor := some c } hc
      have hnone := htarget s (by rw [hsplit]; exact List.mem_append_right _ List.mem_cons_self)
      rw [(owner_alone rfl hsplit hcovers).1] at hnone
      cases hnone

/-- A cursor inside a character, inside an operator, right after it, and past the end of the line. -/
example :
    let owners (c : Nat) : List (Option Nat) :=
      (segments { cursor := some c, operators := [.orElse] } "é||b").map (·.cursor)
    owners 1 = [some 1, none] ∧ owners 3 = [some 3, none] ∧ owners 4 = [none, some 4] ∧
      owners 6 = [none, none] := by
  decide +kernel

end Owner
end LineShell
