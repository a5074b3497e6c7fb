import LineShell.Proofs.WordStart

/-!
# The scan in flat fields

`Scan` keeps the quotation that it is inside in one field, so that no state says two things about
it. Here is the scan with a field for each thing: a flag for each kind of quote, a flag for each
count of the other quote, the place of the last opening double quote, and the place and the length
that were noted when a second one followed it. Such a state can say things that go together for no
text, and an operator resets a few of its fields only.

* `FlatScan` with `step`, `after`, `close`, `finish` and `segmentsFrom` is that scan. `flush` asks
  for the place where the word began and has a place to fall back to, which is given from outside;
* `Scan.flat`: the flat fields of a state of the scan. Which place the last opening quote had, once
  its quotation is over, the scan does not remember;
* `step_flat`, `after_flat`, `close_flat`, `finish_flat`: on the flat fields of a state that keeps
  to what the scan keeps to, each move does what it does on the state. No word is finished at the
  place to fall back to.
-/

namespace LineShell

/-! ## 1. Bytes of a text -/

/-- The longest start of a text that has at most `n` bytes. -/
def takeBytes : Nat → List Char → List Char
  | _, [] => []
  | n, c :: cs => if c.utf8Size ≤ n then c :: takeBytes (n - c.utf8Size) cs else []

/-- What is left of a text after `n` bytes. -/
def dropBytes : Nat → List Char → List Char
  | _, [] => []
  | n, c :: cs => if n = 0 then c :: cs else dropBytes (n - c.utf8Size) cs

theorem takeBytes_byteLength (xs ys : List Char) : takeBytes (byteLength xs) (xs ++ ys) = xs := by
  induction xs with
  | nil =>
    cases ys with
    | nil => rfl
    | cons c ys => exact if_neg (Nat.not_le.mpr c.utf8Size_pos)
  | cons c xs ih =>
    rw [List.cons_append, takeBytes, byteLength_cons, if_pos (Nat.le_add_right _ _),
      Nat.add_sub_cancel_left, ih]

theorem dropBytes_byteLength (xs ys : List Char) : dropBytes (byteLength xs) (xs ++ ys) = ys := by
  induction xs with
  | nil => cases ys <;> rfl
  | cons c xs ih =>
    have hsize := c.utf8Size_pos
    rw [List.cons_append, dropBytes, byteLength_cons, if_neg (by omega), Nat.add_sub_cancel_left,
      ih]

/-! ## 2. The flat scan -/

/-- The state of the scan within one segment, with each thing in a field of its own. -/
structure FlatScan where
  start : Nat := 0
  pos : Nat := 0
  /-- The characters of the segment so far. -/
  typed : List Char := []
  words : List Word := []
  /-- The text of the unfinished word. -/
  buffer : List Char := []
  wordStart : Option Nat := none
  selection : Option (Nat × Nat) := none
  escaped : Bool := false
  /-- Inside a quotation that a single quote has opened. -/
  single : Bool := false
  /-- Inside a quotation that a double quote has opened. -/
  double : Bool := false
  /-- The place of the last double quote that opened a quotation. -/
  openedAt : Nat := 0
  /-- The place of the second of two opening quotes, and the bytes of the buffer then. -/
  doubled : Option (Nat × Nat) := none
  /-- An odd number of single quotes stands in the quotation. -/
  oddSingle : Bool := false
  /-- An odd number of double quotes stands in the quotation. -/
  oddDouble : Bool := false
  /-- The brackets that have to close, the innermost first. -/
  closers : List Char := []
  /-- The last character of the segment. -/
  prev : Option Char := none
  atBlank : Bool := false
  wordClosed : Bool := false
  deriving DecidableEq, Repr

namespace FlatScan

def begin (f : FlatScan) : FlatScan := { f with wordStart := some (f.wordStart.getD f.pos) }

def push (f : FlatScan) (c : Char) : FlatScan := { f.begin with buffer := f.buffer ++ [c] }

section Moves

variable (fallback : FlatScan → Nat) (brackets : Bool)

/-- Finishes the word where it began, or at the place to fall back to if it never did. -/
def flush (f : FlatScan) (status : WordStatus) : FlatScan :=
  { f with
    words := f.words ++ [⟨String.ofList f.buffer, f.wordStart.getD (fallback f), status⟩]
    buffer := []
    wordStart := none }

def flushText (f : FlatScan) : FlatScan :=
  if f.buffer.isEmpty then f else f.flush fallback .plain

def stepBare (f : FlatScan) (c : Char) : FlatScan :=
  if f.escaped then { f.push c with escaped := false, atBlank := false }
  else if c = ' ' || c = '\t' then { f.flushText fallback with atBlank := true }
  else if c = '\\' then { f.begin with escaped := true, atBlank := false }
  else if c = '\'' then { f.begin with single := true, atBlank := false }
  else if c = '"' then { f.begin with double := true, openedAt := f.pos, atBlank := false }
  else if brackets && (c = '{' || c = '(') then
    { f.push c with closers := Scan.closerOf c :: f.closers, atBlank := false }
  else { f.push c with atBlank := false }

def stepSingle (f : FlatScan) (c : Char) : FlatScan :=
  if f.escaped then { f.push c with escaped := false }
  else if c = '\\' then { f.push c with escaped := true }
  else if c = '\'' then
    { ({ f with single := false, oddDouble := false } : FlatScan).flush fallback .plain with
      wordClosed := true }
  else if c = '"' then { f.push c with oddDouble := !f.oddDouble }
  else f.push c

/-- A character after two opening quotes, when the buffer had `before` bytes then. -/
def stepDoubled (f : FlatScan) (before : Nat) (c : Char) : FlatScan :=
  if c = '"' && f.prev == some '"' then
    let buffer := if before < byteLength f.buffer then f.buffer.dropLast else f.buffer
    let f := { f with buffer := buffer, double := false, doubled := none, oddSingle := false }
    if f.buffer.isEmpty then { f with wordStart := none }
    else { f.flush fallback .plain with wordClosed := true }
  else f.push c

def stepDouble (f : FlatScan) (c : Char) : FlatScan :=
  if f.escaped then { f.push c with escaped := false }
  else if c = '\\' then { f.push c with escaped := true }
  else if c = '"' then
    if f.pos = f.openedAt + 1 then { f with doubled := some (f.pos, byteLength f.buffer) }
    else
      { ({ f with double := false, oddSingle := false } : FlatScan).flush fallback .plain with
        wordClosed := true }
  else if c = '\'' then { f.push c with oddSingle := !f.oddSingle }
  else f.push c

def stepBracketed (f : FlatScan) (c : Char) : FlatScan :=
  let f := f.push c
  if f.escaped then { f with escaped := false }
  else if c = '\\' then { f with escaped := true }
  else if c = '{' || c = '(' then { f with closers := Scan.closerOf c :: f.closers }
  else if f.closers.head? == some c then { f with closers := f.closers.tail }
  else f

/-- What a character does, by the first of the fields that says where the scan stands. -/
def take (f : FlatScan) (c : Char) : FlatScan :=
  let f := { f with wordClosed := false }
  if !f.closers.isEmpty then { f.stepBracketed c with atBlank := false }
  else if f.single then { f.stepSingle fallback c with atBlank := false }
  else if f.double then
    match f.doubled with
    | some (_, before) => { f.stepDoubled fallback before c with atBlank := false }
    | none => { f.stepDouble fallback c with atBlank := false }
  else f.stepBare fallback brackets c

def advance (f : FlatScan) (c : Char) : FlatScan :=
  { f with typed := f.typed ++ [c], prev := some c, pos := f.pos + c.utf8Size }

def step (f : FlatScan) (c : Char) : FlatScan := (f.take fallback brackets c).advance c

def lastWord (f : FlatScan) : Option (Nat × Nat) :=
  f.words.getLast?.map fun w => (f.words.length - 1, byteLength w.text.toList)

def markCursor (f : FlatScan) : FlatScan :=
  { f with
    selection :=
      if f.atBlank then none
      else if f.wordClosed && f.wordStart.isNone then f.lastWord
      else some (f.words.length, byteLength f.buffer) }

def atCursor (cursor : Option Nat) (f : FlatScan) : FlatScan :=
  if cursor = some f.pos then f.markCursor else f

/-- Something hides what follows or is open. -/
def isOpen (f : FlatScan) : Bool := f.escaped || f.single || f.double || !f.closers.isEmpty

def operatorAt (operators : List Operator) (f : FlatScan) (rest : List Char) : Option Operator :=
  if f.isOpen then none else Operator.longestAt operators rest

def emit (o : ScanOptions) (f : FlatScan) (next : Nat) (op : Operator) (status : SegmentStatus)
    (openEnd : Bool) : Segment :=
  let cursor := o.cursor.filter fun c => f.start ≤ c && c < next
  let selection :=
    if cursor.any (f.pos ≤ ·) then
      if openEnd || !f.atBlank then f.lastWord else none
    else f.selection
  let selection := if cursor.isSome then selection.filter (·.1 < f.words.length) else none
  { typed := String.ofList f.typed
    words := f.words
    cursor := cursor
    selectedWord := selection.map (·.1)
    cursorInWord := (selection.map (·.2)).getD 0
    status := status
    error := status.message? o.label op
    operator := op }

def close (o : ScanOptions) (f : FlatScan) (op : Operator) : Segment :=
  let f := f.flushText fallback
  let status := if f.words.isEmpty then .emptyBeforeOperator else .ok
  f.emit o (f.pos + byteLength op.spelling) op status false

/-- The state after an operator. What is open, and the buffer, are left as they are. -/
def after (f : FlatScan) (op : Operator) : FlatScan :=
  let f := f.flushText fallback
  let next := f.pos + byteLength op.spelling
  { f with
    start := next, pos := next, typed := [], words := [], wordStart := none, selection := none
    prev := none, atBlank := true }

def settleDoubled (f : FlatScan) : FlatScan :=
  match f.doubled with
  | some (second, before) =>
    if (dropBytes (second + 1 - f.start) f.typed).all fun c => c = ' ' || c = '\t' then
      let f := { f with
        buffer := takeBytes before f.buffer, double := false, doubled := none, oddSingle := false }
      { f.flush fallback .plain with atBlank := second + 1 < f.pos }
    else f
  | none => f

def endStatus (f : FlatScan) : SegmentStatus :=
  if f.single && f.oddDouble || f.double && f.oddSingle then .unclosedBothQuotes
  else if f.single || f.double then .unclosedQuote
  else .ok

def flushEnd (f : FlatScan) : FlatScan :=
  let hides := f.escaped && !f.single && !f.double && f.closers.isEmpty
  let f := { f with buffer := if hides then f.buffer ++ ['\\'] else f.buffer }
  if f.single || f.double then f.flush fallback .openQuote
  else if !f.closers.isEmpty then f.flush fallback .openBracket
  else f.flushText fallback

def finish (o : ScanOptions) (f : FlatScan) : Segment :=
  let f := f.settleDoubled fallback
  (f.flushEnd fallback).emit o (f.pos + 1) .endOfLine f.endStatus f.isOpen

def segmentsFrom (o : ScanOptions) (f : FlatScan) : List Char → List Segment
  | [] => [f.finish fallback o]
  | c :: rest =>
    let f := f.atCursor o.cursor
    match f.operatorAt o.operators (c :: rest) with
    | some op =>
      f.close fallback o op ::
        segmentsFrom o (f.after fallback op) (rest.drop (op.spelling.length - 1))
    | none => segmentsFrom o (f.step fallback o.brackets c) rest
termination_by cs => cs.length
decreasing_by
  · simp only [List.length_drop, List.length_cons]; omega
  · simp

end Moves
end FlatScan

/-! ## 3. The flat fields of a state -/

namespace Scan

/-- The flat fields of a state. `earlier` is the place of the last opening quote whose quotation is
over. -/
def flat (s : Scan) (earlier : Nat) : FlatScan :=
  { start := s.start, pos := s.pos, typed := s.read.reverse, words := s.words
    buffer := s.letters.reverse, wordStart := s.wordStart, selection := s.selection
    escaped := s.escaped
    single := match s.quotation with | some (.single _) => true | _ => false
    double := match s.quotation with | some (.double ..) | some (.doubled ..) => true | _ => false
    openedAt := match s.quotation with | some (.double openedAt _) => openedAt | _ => earlier
    doubled := match s.quotation with
      | some (.doubled second before) => some (second, before)
      | _ => none
    oddSingle := match s.quotation with | some (.double _ odd) => odd | _ => false
    oddDouble := match s.quotation with | some (.single odd) => odd | _ => false
    closers := s.closers, prev := s.read.head?, atBlank := s.atBlank, wordClosed := s.wordClosed }

variable {s : Scan} {brackets : Bool} {c : Char} (fallback : FlatScan → Nat) (earlier : Nat)

theorem begin_flat : (s.flat earlier).begin = s.begin.flat earlier := rfl

theorem push_flat : (s.flat earlier).push c = (s.push c).flat earlier := by
  simp [flat, FlatScan.push, FlatScan.begin, push, begin]

/-- A word that has begun is not finished at the place to fall back to. -/
theorem flush_flat (h : s.wordStart.isSome = true) (status : WordStatus) :
    (s.flat earlier).flush fallback status = (s.flush status).flat earlier := by
  obtain ⟨a, ha⟩ := Option.isSome_iff_exists.mp h
  simp [flat, FlatScan.flush, flush, ha]

theorem flushText_flat (h : s.letters ≠ [] → s.wordStart.isSome = true) :
    (s.flat earlier).flushText fallback = s.flushText.flat earlier := by
  by_cases hletters : s.letters = []
  · simp [flat, FlatScan.flushText, flushText, hletters]
  · rw [FlatScan.flushText, if_neg (by simpa [flat] using hletters), flushText,
      if_neg (by simpa using hletters)]
    exact flush_flat fallback earlier (h hletters) .plain

/-! ## 4. One character -/

/-- Right after a double quote that opens a quotation no single quote has been counted in it. -/
def Even (s : Scan) : Prop :=
  ∀ openedAt odd, s.quotation = some (.double openedAt odd) → s.pos = openedAt + 1 → odd = false

theorem even_of_none (h : s.quotation = none) : s.Even := by
  intro openedAt odd hq
  rw [h] at hq
  cases hq

/-- A quotation that was open before the last character was not opened by it. -/
theorem step_even (hcoherent : s.Coherent) : (s.step brackets c).Even := by
  intro openedAt odd hq hpos
  have hsize : 0 < c.utf8Size := c.utf8Size_pos
  rw [step_pos] at hpos
  revert hq
  simp only [step, advance, take]
  cases hclosers : s.closers with
  | cons closer outer =>
    have hnone : s.quotation = none := by
      cases hquotation : s.quotation with
      | none => rfl
      | some q => rw [hcoherent.exclusive (by rw [hquotation]; rfl)] at hclosers; cases hclosers
    simp only [List.isEmpty_cons, Bool.not_false, if_true, stepBracketed]
    split_ifs <;> simp [push, begin, hnone]
  | nil =>
    simp only [List.isEmpty_nil, Bool.not_true, Bool.false_eq_true, if_false]
    rcases hquotation : s.quotation with - | ⟨odd' | ⟨openedAt', odd'⟩ | ⟨second, before⟩⟩
    · simp only [stepBare]
      split_ifs <;> simp [push, begin]
    · simp only [stepSingle]
      split_ifs <;> simp [push, begin, closeQuotation, flush]
    · have hopened := hcoherent.opened openedAt' odd' hquotation
      simp only [stepDouble]
      split_ifs <;> simp [push, begin, closeQuotation, flush] <;> omega
    · simp only [stepDoubled]
      split_ifs <;> simp [push, begin, closeQuotation, flush]

/-- What the scan keeps to between two characters. -/
structure Sound (s : Scan) : Prop where
  coherent : s.Coherent
  begun : s.Begun
  tracked : s.Tracked
  even : s.Even
  placed : s.Placed

/-- The place of the last opening quote is all that is needed of the earlier ones. -/
theorem flat_openedAt : s.flat (s.flat earlier).openedAt = s.flat earlier := by
  rcases hq : s.quotation with - | ⟨_ | _ | _⟩ <;> simp [flat, hq]

theorem stepBare_flat (hclosers : s.closers = []) (hq : s.quotation = none)
    (hstart : s.letters ≠ [] → s.wordStart.isSome = true) :
    (s.flat earlier).stepBare fallback brackets c = (s.stepBare brackets c).flat earlier := by
  have hescaped : (s.flat earlier).escaped = s.escaped := rfl
  simp only [FlatScan.stepBare, stepBare, hescaped, begin_flat, push_flat,
    flushText_flat fallback earlier hstart]
  split_ifs
  · rfl
  · rfl
  · rfl
  · simp [flat, begin, hq]
  · simp [flat, begin, hq]
  · simp [flat, push, begin, hq, hclosers]
  · rfl

/-- The quotation that the state is in is over, and its word with it. -/
theorem closeQuotation_flat (hstart : s.wordStart.isSome = true) :
    { (({ s with quotation := none } : Scan).flat earlier).flush fallback .plain with
      wordClosed := true } = s.closeQuotation.flat earlier := by
  rw [flush_flat fallback earlier (s := { s with quotation := none }) hstart]
  rfl

theorem stepSingle_flat {odd : Bool} (hq : s.quotation = some (.single odd))
    (hstart : s.wordStart.isSome = true) :
    (s.flat earlier).stepSingle fallback c = (s.stepSingle odd c).flat earlier := by
  have hescaped : (s.flat earlier).escaped = s.escaped := rfl
  simp only [FlatScan.stepSingle, stepSingle, hescaped, push_flat]
  split_ifs
  · rfl
  · rfl
  · rw [← closeQuotation_flat fallback earlier hstart]
    simp [flat, hq]
  · simp [flat, push, begin, hq]
  · rfl

theorem stepDouble_flat {openedAt : Nat} {odd : Bool}
    (hq : s.quotation = some (.double openedAt odd)) (hstart : s.wordStart.isSome = true)
    (heven : s.pos = openedAt + 1 → odd = false) :
    (s.flat earlier).stepDouble fallback c = (s.stepDouble openedAt odd c).flat openedAt := by
  have hescaped : (s.flat earlier).escaped = s.escaped := rfl
  have hopened : (s.flat earlier).openedAt = openedAt := by simp [flat, hq]
  have hpos : (s.flat earlier).pos = s.pos := rfl
  have hsame : s.flat earlier = s.flat openedAt := by rw [← flat_openedAt earlier, hopened]
  simp only [FlatScan.stepDouble, stepDouble, hescaped, hopened, hpos]
  rw [hsame, push_flat]
  split_ifs with hhidden hback hquote hfresh
  · rfl
  · rfl
  · simp [flat, hq, heven hfresh]
  · rw [← closeQuotation_flat fallback openedAt hstart]
    simp [flat, hq]
  · simp [flat, push, begin, hq]
  · rfl

theorem stepDoubled_flat {second before : Nat} (hq : s.quotation = some (.doubled second before))
    (hstart : s.wordStart.isSome = true) :
    (s.flat earlier).stepDoubled fallback before c = (s.stepDoubled before c).flat earlier := by
  have hprev : (s.flat earlier).prev = s.read.head? := rfl
  have hbuffer : (if before < byteLength (s.flat earlier).buffer then
        (s.flat earlier).buffer.dropLast else (s.flat earlier).buffer) =
      (if before < byteLength s.letters then s.letters.tail else s.letters).reverse := by
    rw [apply_ite List.reverse, ← List.dropLast_reverse]
    simp [flat]
  simp only [FlatScan.stepDoubled, stepDoubled, hprev, hbuffer, push_flat, List.isEmpty_reverse]
  generalize (if before < byteLength s.letters then s.letters.tail else s.letters) = letters
  split_ifs
  · simp_all [flat]
  · have hclose := closeQuotation_flat fallback earlier (s := { s with letters := letters }) hstart
    rw [← hclose]
    simp [flat, hq]
  · rfl

theorem stepBracketed_flat :
    (s.flat earlier).stepBracketed c = (s.stepBracketed c).flat earlier := by
  simp only [FlatScan.stepBracketed, stepBracketed, push_flat, apply_ite (flat · earlier)]
  rfl

theorem advance_flat : (s.flat earlier).advance c = (s.advance c).flat earlier := by
  simp [flat, FlatScan.advance, advance]

/-- What holds of the character holds of the mark that is put after it. -/
theorem take_flat_of {f : FlatScan} {t : Scan} {n : Nat} (h : f = t.flat n)
    (hflat : (s.flat earlier).take fallback brackets c = { f with atBlank := false })
    (hscan : s.take brackets c = { t with atBlank := false }) :
    (s.flat earlier).take fallback brackets c = (s.take brackets c).flat n := by
  rw [hflat, hscan, h]
  rfl

theorem take_flat (h : s.Sound) :
    (s.flat earlier).take fallback brackets c =
      (s.take brackets c).flat (s.flat earlier).openedAt := by
  cases hclosers : s.closers with
  | cons closer outer =>
    have hq : s.quotation = none := by
      rw [← Option.not_isSome_iff_eq_none]
      intro hsome
      rw [h.coherent.exclusive hsome] at hclosers
      cases hclosers
    have hopened : (s.flat earlier).openedAt = earlier := by simp [flat, hq]
    rw [hopened]
    exact take_flat_of fallback earlier
      (stepBracketed_flat (s := { s with wordClosed := false }) earlier)
      (if_pos (by simp [flat, hclosers])) (if_pos (by simp [hclosers]))
  | nil =>
    have hmode : s.quotation.isSome = true → s.wordStart.isSome = true := by
      intro hsome
      refine (h.begun.underway_of_mode ?_).wordStart
      obtain ⟨q, hq⟩ := Option.isSome_iff_exists.mp hsome
      cases q <;> simp [mode, hclosers, hq]
    rcases hq : s.quotation with - | ⟨odd | ⟨openedAt, odd⟩ | ⟨second, before⟩⟩
    · have hopened : (s.flat earlier).openedAt = earlier := by simp [flat, hq]
      have hflat : (s.flat earlier).take fallback brackets c =
          (({ s with wordClosed := false } : Scan).flat earlier).stepBare fallback brackets c := by
        simp [FlatScan.take, flat, hq, hclosers]
      have hscan : s.take brackets c =
          ({ s with wordClosed := false } : Scan).stepBare brackets c := by
        simp [take, hq, hclosers]
      rw [hflat, hscan, hopened]
      exact stepBare_flat fallback earlier (s := { s with wordClosed := false }) hclosers hq
        fun hne => (h.begun.underway_of_letters hne).wordStart
    · have hopened : (s.flat earlier).openedAt = earlier := by simp [flat, hq]
      have hstep := stepSingle_flat (c := c) fallback earlier
        (s := { s with wordClosed := false }) hq (hmode (by rw [hq]; rfl))
      rw [hopened]
      exact take_flat_of fallback earlier hstep (by simp [FlatScan.take, flat, hq, hclosers])
        (by simp [take, hq, hclosers])
    · have hopened : (s.flat earlier).openedAt = openedAt := by simp [flat, hq]
      have hstep := stepDouble_flat (c := c) fallback earlier
        (s := { s with wordClosed := false }) hq (hmode (by rw [hq]; rfl)) (h.even openedAt odd hq)
      rw [hopened]
      exact take_flat_of fallback earlier hstep (by simp [FlatScan.take, flat, hq, hclosers])
        (by simp [take, hq, hclosers])
    · have hopened : (s.flat earlier).openedAt = earlier := by simp [flat, hq]
      have hstep := stepDoubled_flat (c := c) fallback earlier
        (s := { s with wordClosed := false }) hq (hmode (by rw [hq]; rfl))
      rw [hopened]
      exact take_flat_of fallback earlier hstep (by simp [FlatScan.take, flat, hq, hclosers])
        (by simp [take, hq, hclosers])

/-- **A character does to the flat fields what it does to the state.** -/
theorem step_flat (h : s.Sound) :
    (s.flat earlier).step fallback brackets c =
      (s.step brackets c).flat (s.flat earlier).openedAt := by
  rw [FlatScan.step, step, take_flat fallback earlier h, advance_flat]

/-! ## 5. The cursor and the end of a segment -/

theorem atCursor_flat (cursor : Option Nat) :
    (s.flat earlier).atCursor cursor = (s.atCursor cursor).flat earlier := by
  have hpos : (s.flat earlier).pos = s.pos := rfl
  have hmark : (s.flat earlier).markCursor = s.markCursor.flat earlier := by
    simp [flat, FlatScan.markCursor, markCursor, FlatScan.lastWord, lastWord]
  rw [FlatScan.atCursor, atCursor, hpos, hmark, apply_ite (flat · earlier)]

theorem isOpen_flat : (s.flat earlier).isOpen = !s.isBare := by
  rcases hq : s.quotation with - | ⟨_ | _ | _⟩ <;> simp [flat, FlatScan.isOpen, isBare, hq]

theorem operatorAt_flat (operators : List Operator) (rest : List Char) :
    (s.flat earlier).operatorAt operators rest = s.operatorAt operators rest := by
  rw [FlatScan.operatorAt, operatorAt, isOpen_flat]
  cases s.isBare <;> rfl

theorem close_flat {o : ScanOptions} (hbegun : s.Begun) (op : Operator) :
    (s.flat earlier).close fallback o op = s.close o op := by
  have hletters : s.letters ≠ [] → s.wordStart.isSome = true := fun hne =>
    (hbegun.underway_of_letters hne).wordStart
  rw [FlatScan.close, flushText_flat fallback earlier hletters]
  rfl

/-- An operator resets a few fields, and where it is looked for the others hold nothing. -/
theorem after_flat (hbare : s.isBare = true) (op : Operator) :
    (s.flat earlier).after fallback op = (s.after op).flat earlier := by
  obtain ⟨hclosers, hquotation, hescaped⟩ := mode_eq_bare (isBare_iff.mp hbare)
  by_cases hletters : s.letters = [] <;>
    simp [FlatScan.after, FlatScan.flushText, FlatScan.flush, flat, after, hletters, hclosers,
      hquotation, hescaped]

theorem endStatus_flat : (s.flat earlier).endStatus = s.endStatus := by
  rcases hq : s.quotation with - | ⟨(_ | _) | ⟨_, _ | _⟩ | _⟩ <;>
    simp [flat, FlatScan.endStatus, endStatus, hq]

theorem flushEnd_flat (hbegun : s.Begun) (hcoherent : s.Coherent) :
    (s.flat earlier).flushEnd fallback = s.flushEnd.flat earlier := by
  have hmode : s.mode ≠ .bare false → s.wordStart.isSome = true := fun hne =>
    (hbegun.underway_of_mode hne).wordStart
  cases hq : s.quotation with
  | some q =>
    have hclosers := hcoherent.exclusive (by rw [hq]; rfl)
    have hl : (s.flat earlier).flushEnd fallback = (s.flat earlier).flush fallback .openQuote := by
      cases q <;> simp [FlatScan.flushEnd, flat, hq]
    have hr : s.flushEnd = s.flush .openQuote := if_pos (by rw [hq]; rfl)
    rw [hl, hr, flush_flat fallback earlier (hmode (by cases q <;> simp [mode, hclosers, hq]))]
  | none =>
    cases hclosers : s.closers with
    | cons closer outer =>
      have hl : (s.flat earlier).flushEnd fallback =
          (s.flat earlier).flush fallback .openBracket := by
        simp [FlatScan.flushEnd, flat, hq, hclosers]
      have hr : s.flushEnd = s.flush .openBracket := by simp [flushEnd, hq, hclosers]
      rw [hl, hr, flush_flat fallback earlier (hmode (by simp [mode, hclosers]))]
    | nil =>
      have hl : (s.flat earlier).flushEnd fallback =
          (({ s with letters := if s.escaped then '\\' :: s.letters else s.letters } :
            Scan).flat earlier).flushText fallback := by
        simp [FlatScan.flushEnd, flat, hq, hclosers, apply_ite List.reverse]
      have hr : s.flushEnd =
          ({ s with letters := if s.escaped then '\\' :: s.letters else s.letters } :
            Scan).flushText := by
        simp [flushEnd, hq, hclosers]
      rw [hl, hr]
      refine flushText_flat fallback earlier fun hletters => ?_
      by_cases hescaped : s.escaped = true
      · exact hmode (by simp [mode, hclosers, hq, hescaped])
      · exact (hbegun.underway_of_letters (by simpa [hescaped] using hletters)).wordStart

section InsideDoubled

variable {inner entry : List Char} {second before : Nat}

/-- What follows the second quote in the segment is what the quotation has added. -/
theorem InsideDoubled.dropBytes_read (h : s.InsideDoubled inner entry)
    (hq : s.quotation = some (.doubled second before)) (hplaced : s.Placed) :
    dropBytes (second + 1 - s.start) s.read.reverse = inner := by
  obtain ⟨second', hquotation, hpos⟩ := h.quotation
  obtain ⟨front, hread⟩ := h.read
  rw [hq, Option.some.injEq, Quotation.doubled.injEq] at hquotation
  obtain ⟨rfl, -⟩ := hquotation
  have hbytes : second + 1 - s.start = byteLength (front.reverse ++ ['"']) := by
    have hone : byteLength ['"'] = 1 := rfl
    have hsize : '"'.utf8Size = 1 := rfl
    rw [Placed, hread, byteLength_append, byteLength_reverse, byteLength_cons] at hplaced
    rw [byteLength_append, byteLength_reverse]
    omega
  rw [hbytes, hread, List.reverse_append, List.reverse_cons, List.reverse_reverse,
    dropBytes_byteLength]

theorem InsideDoubled.takeBytes_letters (h : s.InsideDoubled inner entry) :
    takeBytes (byteLength entry) s.letters.reverse = entry := by
  rw [h.letters, List.reverse_append, List.reverse_reverse, List.reverse_reverse,
    takeBytes_byteLength]

end InsideDoubled

theorem settleDoubled_flat (h : s.Sound) :
    (s.flat earlier).settleDoubled fallback = s.settleDoubled.flat earlier := by
  rcases hq : s.quotation with - | ⟨_ | _ | ⟨second, before⟩⟩
  · simp [FlatScan.settleDoubled, settleDoubled, flat, hq]
  · simp [FlatScan.settleDoubled, settleDoubled, flat, hq]
  · simp [FlatScan.settleDoubled, settleDoubled, flat, hq]
  obtain ⟨inner, entry, hinside⟩ := h.tracked second before hq
  have hstart := (h.begun.underway_of_mode (by rw [hinside.mode]; simp)).wordStart
  obtain ⟨second', hquotation, -⟩ := hinside.quotation
  have hbefore : before = byteLength entry := by
    rw [hq, Option.some.injEq, Quotation.doubled.injEq] at hquotation
    exact hquotation.2
  have hleft : dropBytes (second + 1 - (s.flat earlier).start) (s.flat earlier).typed = inner :=
    hinside.dropBytes_read hq h.placed
  have hall : (inner.all fun c => c = ' ' || c = '\t') = true ↔ IsGap inner := by simp [IsGap]
  have hdoubled : (s.flat earlier).doubled = some (second, before) := by simp [flat, hq]
  rw [FlatScan.settleDoubled, hdoubled]
  simp only [settleDoubled, hq, hleft]
  by_cases hgap : IsGap inner
  · rw [if_pos (hall.mpr hgap), if_pos ((hinside.all_blank_iff hq).mpr hgap), hbefore,
      hinside.drop_letters hgap]
    have hbuffer : takeBytes (byteLength entry) (s.flat earlier).buffer = entry :=
      hinside.takeBytes_letters
    have hclosed : ({ s.flat earlier with
          buffer := takeBytes (byteLength entry) (s.flat earlier).buffer, double := false,
          doubled := none, oddSingle := false } : FlatScan) =
        ({ s with letters := entry.reverse, quotation := none } : Scan).flat earlier := by
      rw [hbuffer]
      simp [flat, hq]
    have hflush := hclosed ▸ flush_flat fallback earlier
      (s := { s with letters := entry.reverse, quotation := none }) hstart .plain
    exact congrArg (fun f : FlatScan => { f with atBlank := second + 1 < s.pos }) hflush
  · rw [if_neg (hall.not.mpr hgap), if_neg ((hinside.all_blank_iff hq).not.mpr hgap)]

theorem Coherent.settleDoubled (hcoherent : s.Coherent) : s.settleDoubled.Coherent := by
  unfold Scan.settleDoubled
  split
  · dsimp only
    split
    · exact coherent_of_none rfl
    · exact hcoherent
  · exact hcoherent

theorem finish_flat {o : ScanOptions} (h : s.Sound) :
    (s.flat earlier).finish fallback o = s.finish o := by
  have hbegun : s.settleDoubled.Begun := h.begun.settleDoubled h.coherent
  rw [FlatScan.finish, finish, settleDoubled_flat fallback earlier h,
    flushEnd_flat fallback earlier hbegun h.coherent.settleDoubled, endStatus_flat, isOpen_flat]
  rfl

end Scan
end LineShell
