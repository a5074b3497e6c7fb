import LineShell.Segment.Scan
import Mathlib.Tactic.SplitIfs

/-!
# A scan further down the line

The scan counts bytes from the start of the line, but looks at no byte count except to tell how far
it is from a place that it noted before. So a scan that begins `n` bytes later does the same, and
notes every place `n` bytes later.

* `Scan.shift` moves the places of a state; `step_shift`, `after_shift`, `close_shift` and
  `finish_shift` say that the moves of the scan and the ends of a segment commute with it;
* `segmentsFrom_shift`: so the segments of a text that begins further down the line are those of the
  text itself, the offsets of their words moved (`Segment.shift`). The scan has to be one without a
  cursor, which is a place that does not move;
* `Fresh.segmentsFrom`: after an operator the scan begins like that, except that it knows what the
  last character was, and without a cursor nobody asks for it.
-/

namespace LineShell

/-! ## 1. Moved places -/

/-- The word, `n` bytes further down the line. -/
def Word.shift (n : Nat) (w : Word) : Word := { w with offset := w.offset + n }

/-- The segment, `n` bytes further down the line. -/
def Segment.shift (n : Nat) (s : Segment) : Segment := { s with words := s.words.map (.shift n) }

/-- The quotation, opened `n` bytes further down the line. -/
def Quotation.shift (n : Nat) : Quotation → Quotation
  | .single odd => .single odd
  | .double openedAt odd => .double (openedAt + n) odd
  | .doubled second before => .doubled (second + n) before

@[simp] theorem Word.map_shift_zero (ws : List Word) : ws.map (.shift 0) = ws := List.map_id ws

theorem Word.shift_shift (m n : Nat) (w : Word) : (w.shift m).shift n = w.shift (n + m) := by
  simp [Word.shift, Nat.add_comm n, Nat.add_assoc]

theorem Segment.shift_shift (m n : Nat) (s : Segment) :
    (s.shift m).shift n = s.shift (n + m) := by
  simp [Segment.shift, Word.shift_shift]

namespace Scan

/-- The state of the scan, `n` bytes further down the line. -/
def shift (n : Nat) (s : Scan) : Scan :=
  { s with
    start := s.start + n
    pos := s.pos + n
    words := s.words.map (.shift n)
    wordStart := s.wordStart.map (· + n)
    quotation := s.quotation.map (.shift n) }

variable (n : Nat) (s : Scan)

/-! ## 2. Words -/

theorem begin_shift : (s.shift n).begin = s.begin.shift n := by
  cases h : s.wordStart <;> simp [begin, shift, h]

theorem push_shift (c : Char) : (s.shift n).push c = (s.push c).shift n := by
  rw [push, begin_shift]
  rfl

theorem flush_shift (status : WordStatus) :
    (s.shift n).flush status = (s.flush status).shift n := by
  cases h : s.wordStart <;> simp [flush, shift, Word.shift, h]

theorem flushText_shift : (s.shift n).flushText = s.flushText.shift n := by
  unfold flushText
  split_ifs with h h' h'
  · rfl
  · exact absurd h h'
  · exact absurd h' h
  · exact flush_shift n s .plain

theorem closeQuotation_shift : (s.shift n).closeQuotation = s.closeQuotation.shift n := by
  have h := flush_shift n { s with quotation := none } .plain
  rw [closeQuotation, closeQuotation]
  exact congrArg (fun s : Scan => { s with wordClosed := true }) h

/-! ## 3. One character -/

variable {n s} {brackets : Bool} {c : Char}

theorem stepBare_shift : (s.shift n).stepBare brackets c = (s.stepBare brackets c).shift n := by
  simp only [stepBare, push_shift, begin_shift, flushText_shift, apply_ite (shift n)]
  rfl

theorem stepSingle_shift {odd : Bool} :
    (s.shift n).stepSingle odd c = (s.stepSingle odd c).shift n := by
  simp only [stepSingle, push_shift, closeQuotation_shift, apply_ite (shift n)]
  rfl

theorem stepDouble_shift {openedAt : Nat} {odd : Bool} :
    (s.shift n).stepDouble (openedAt + n) odd c = (s.stepDouble openedAt odd c).shift n := by
  have hpos : (s.shift n).pos = openedAt + n + 1 ↔ s.pos = openedAt + 1 := by
    show s.pos + n = _ ↔ _
    omega
  simp only [stepDouble, push_shift, closeQuotation_shift, hpos, apply_ite (shift n)]
  rfl

theorem stepDoubled_shift {before : Nat} :
    (s.shift n).stepDoubled before c = (s.stepDoubled before c).shift n := by
  have hletters : (s.shift n).letters = s.letters := rfl
  have hread : (s.shift n).read = s.read := rfl
  unfold stepDoubled
  simp only [hletters, hread, push_shift]
  generalize (if before < byteLength s.letters then s.letters.tail else s.letters) = letters
  split_ifs
  · rfl
  · exact closeQuotation_shift n { s with letters := letters }
  · rfl

theorem stepBracketed_shift : (s.shift n).stepBracketed c = (s.stepBracketed c).shift n := by
  simp only [stepBracketed, push_shift, apply_ite (shift n)]
  rfl

theorem take_shift : (s.shift n).take brackets c = (s.take brackets c).shift n := by
  have hopen : ({ s.shift n with wordClosed := false } : Scan) =
      ({ s with wordClosed := false } : Scan).shift n := rfl
  rw [take, take, hopen]
  generalize ({ s with wordClosed := false } : Scan) = s
  have hclosers : (s.shift n).closers = s.closers := rfl
  have hquotation : (s.shift n).quotation = s.quotation.map (.shift n) := rfl
  simp only [hclosers, hquotation]
  split
  · rw [stepBracketed_shift]
    rfl
  · cases s.quotation with
    | none => exact stepBare_shift
    | some q =>
      cases q with
      | single odd =>
        simp only [Option.map_some, Quotation.shift, stepSingle_shift]
        rfl
      | double openedAt odd =>
        simp only [Option.map_some, Quotation.shift, stepDouble_shift]
        rfl
      | doubled second before =>
        simp only [Option.map_some, Quotation.shift, stepDoubled_shift]
        rfl

theorem advance_shift : (s.shift n).advance c = (s.advance c).shift n := by
  have hpos : s.pos + n + c.utf8Size = s.pos + c.utf8Size + n := by omega
  simp [advance, shift, hpos]

/-- **One character does the same further down the line.** -/
theorem step_shift : (s.shift n).step brackets c = (s.step brackets c).shift n := by
  rw [step, take_shift, advance_shift, step]

/-- What a character does to the words is done at one place. -/
theorem take_places :
    (s.take brackets c).start = s.start ∧ (s.take brackets c).pos = s.pos := by
  rw [take]
  split
  · unfold stepBracketed
    dsimp only
    split_ifs <;> exact ⟨rfl, rfl⟩
  · split
    · simp only [stepSingle, push, begin, closeQuotation, flush, apply_ite start, apply_ite pos,
        ite_self, and_self]
    · simp only [stepDouble, push, begin, closeQuotation, flush, apply_ite start, apply_ite pos,
        ite_self, and_self]
    · simp only [stepDoubled, push, begin, closeQuotation, flush, apply_ite start, apply_ite pos,
        ite_self, and_self]
    · simp only [stepBare, push, begin, flushText, flush, apply_ite start, apply_ite pos, ite_self,
        and_self]

/-- One character takes the scan as far as it is long. -/
theorem step_pos : (s.step brackets c).pos = s.pos + c.utf8Size := by
  rw [step, advance, take_places.2]

theorem step_start : (s.step brackets c).start = s.start := take_places.1

/-! ## 4. The end of a segment -/

theorem after_shift (op : Operator) : (s.shift n).after op = (s.after op).shift n := by
  have hpos : s.pos + n + byteLength op.spelling = s.pos + byteLength op.spelling + n := by omega
  simp [after, shift, hpos]

variable {o : ScanOptions}

/-- Without a cursor a segment is what was read, how it ended, and the words. -/
theorem emit_of_no_cursor (ho : o.cursor = none) (s : Scan) (next : Nat) (op : Operator)
    (status : SegmentStatus) (openEnd : Bool) :
    s.emit o next op status openEnd =
      { typed := String.ofList s.read.reverse, words := s.words, status := status,
        error := status.message? o.label op, operator := op } := by
  simp [emit, ho]

theorem close_shift (ho : o.cursor = none) (op : Operator) :
    (s.shift n).close o op = (s.close o op).shift n := by
  rw [close, close]
  simp only [flushText_shift, emit_of_no_cursor ho]
  simp [shift, Segment.shift]

theorem settleDoubled_shift : (s.shift n).settleDoubled = s.settleDoubled.shift n := by
  cases hq : s.quotation with
  | none => simp [settleDoubled, shift, hq]
  | some q =>
    cases q with
    | single odd => simp [settleDoubled, shift, Quotation.shift, hq]
    | double openedAt odd => simp [settleDoubled, shift, Quotation.shift, hq]
    | doubled second before =>
      have htail : s.pos + n - (second + n + 1) = s.pos - (second + 1) := by omega
      have hblank : second + n + 1 < s.pos + n ↔ second + 1 < s.pos := by omega
      have hflush := flush_shift n
        { s with letters := s.letters.drop (byteLength s.letters - before), quotation := none }
        .plain
      simp only [settleDoubled, shift, Quotation.shift, hq, Option.map_some, htail, hblank]
      split
      · exact congrArg (fun t : Scan => { t with atBlank := decide (second + 1 < s.pos) }) hflush
      · simp [hq, Quotation.shift]

theorem endStatus_shift : (s.shift n).endStatus = s.endStatus := by
  cases hq : s.quotation with
  | none => simp [endStatus, shift, hq]
  | some q =>
    have hshift : (s.shift n).quotation = some (q.shift n) := by simp [shift, hq]
    rw [endStatus, endStatus, hshift, hq]
    rcases q with _ | ⟨_, _ | _⟩ | _ <;> rfl

theorem flushEnd_shift : (s.shift n).flushEnd = s.flushEnd.shift n := by
  have hquotation : (s.shift n).quotation.isSome = s.quotation.isSome := by simp [shift]
  have hclosers : (s.shift n).closers = s.closers := rfl
  rw [flushEnd, flushEnd, hquotation, hclosers]
  split
  · exact flush_shift n s .openQuote
  split
  · exact flush_shift n s .openBracket
  · exact flushText_shift n
      { s with letters := if s.escaped then '\\' :: s.letters else s.letters }

theorem finish_shift (ho : o.cursor = none) : (s.shift n).finish o = (s.finish o).shift n := by
  rw [finish, finish]
  simp only [settleDoubled_shift, flushEnd_shift, endStatus_shift, emit_of_no_cursor ho]
  simp [shift, Segment.shift]

theorem operatorAt_shift (rest : List Char) :
    (s.shift n).operatorAt o.operators rest = s.operatorAt o.operators rest := by
  simp [operatorAt, isBare, shift]

/-- Without a cursor there is nothing to note. -/
theorem atCursor_of_no_cursor (ho : o.cursor = none) (s : Scan) : s.atCursor o.cursor = s := by
  simp [atCursor, ho]

/-! ## 5. The segments -/

/-- **Further down the line a text has the same segments**, with the offsets of their words moved. -/
theorem segmentsFrom_shift (ho : o.cursor = none) (s : Scan) (cs : List Char) :
    (s.shift n).segmentsFrom o cs = (s.segmentsFrom o cs).map (.shift n) := by
  fun_induction segmentsFrom o s cs with
  | case1 s => rw [segmentsFrom, finish_shift ho, List.map_singleton]
  | case2 s c rest s' op hop ih =>
    have hs' : s' = s := atCursor_of_no_cursor ho s
    rw [segmentsFrom, atCursor_of_no_cursor ho]
    rw [hs'] at hop ih ⊢
    simp only [operatorAt_shift, hop, close_shift ho, after_shift, ih, List.map_cons]
  | case3 s c rest s' hop ih =>
    have hs' : s' = s := atCursor_of_no_cursor ho s
    rw [segmentsFrom, atCursor_of_no_cursor ho]
    rw [hs'] at hop ih ⊢
    simp only [operatorAt_shift, hop, step_shift, ih]

/-! ## 6. After an operator -/

/-- The scan stands at the start of a segment, at byte `n`. It may still know what the last character
was. -/
def Fresh (n : Nat) (s : Scan) : Prop :=
  ∃ atBlank wordClosed, s = { start := n, pos := n, atBlank, wordClosed }

namespace Fresh

theorem after (s : Scan) (op : Operator) :
    (s.after op).Fresh (s.pos + byteLength op.spelling) := ⟨_, _, rfl⟩

theorem pos (h : s.Fresh n) : s.pos = n := by
  obtain ⟨b, w, rfl⟩ := h
  rfl

theorem read (h : s.Fresh n) : s.read = [] := by
  obtain ⟨b, w, rfl⟩ := h
  rfl

theorem operatorAt (h : s.Fresh n) (rest : List Char) :
    s.operatorAt o.operators rest = ({} : Scan).operatorAt o.operators rest := by
  obtain ⟨b, w, rfl⟩ := h
  rfl

/-- What the last character was plays no part in what the first one does. -/
theorem step (h : s.Fresh n) (brackets : Bool) (c : Char) :
    s.step brackets c = (({} : Scan).step brackets c).shift n := by
  obtain ⟨b, w, rfl⟩ := h
  have hstart : ({} : Scan).shift n = { start := n, pos := n } := by simp [Scan.shift]
  have hbare : stepBare brackets { start := n, pos := n, atBlank := b } c =
      stepBare brackets { start := n, pos := n } c := rfl
  rw [← step_shift, hstart]
  exact congrArg (advance · c) hbare

theorem close (ho : o.cursor = none) (h : s.Fresh n) (op : Operator) :
    s.close o op = (({} : Scan).close o op).shift n := by
  obtain ⟨b, w, rfl⟩ := h
  rw [Scan.close, Scan.close]
  simp only [emit_of_no_cursor ho]
  rfl

theorem finish (ho : o.cursor = none) (h : s.Fresh n) :
    s.finish o = (({} : Scan).finish o).shift n := by
  obtain ⟨b, w, rfl⟩ := h
  rw [Scan.finish, Scan.finish]
  simp only [emit_of_no_cursor ho]
  rfl

/-- **From the start of a segment a text has its own segments**, further down the line. -/
theorem segmentsFrom (ho : o.cursor = none) (h : s.Fresh n) (cs : List Char) :
    s.segmentsFrom o cs = (({} : Scan).segmentsFrom o cs).map (.shift n) := by
  -- what is read after an operator starts fresh on both sides
  induction hk : cs.length using Nat.strongRecOn generalizing s n cs with
  | _ k ih =>
    have hnocursor (t : Scan) : t.atCursor o.cursor = t := atCursor_of_no_cursor ho t
    rw [Scan.segmentsFrom.eq_def, Scan.segmentsFrom.eq_def]
    cases cs with
    | nil => simp only [h.finish ho, List.map_singleton]
    | cons c rest =>
      simp only [hnocursor, h.operatorAt]
      cases hop : ({} : Scan).operatorAt o.operators (c :: rest) with
      | none => simp only [h.step, segmentsFrom_shift ho]
      | some op =>
        have hlt : (rest.drop (op.spelling.length - 1)).length < k := by
          rw [← hk, List.length_drop, List.length_cons]
          omega
        simp only [h.close ho, ih _ hlt (Fresh.after s op) _ rfl,
          ih _ hlt (Fresh.after {} op) _ rfl]
        simp [h.pos, Segment.shift_shift, Function.comp_def]

end Fresh
end Scan
end LineShell
