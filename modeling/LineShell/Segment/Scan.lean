import LineShell.Segment
import LineShell.Text.Bytes

/-!
# The scan: cutting a line into segments and words

One pass over the characters of a line, with the operator spellings as only lookahead.

* A backslash outside quotes takes the next character as it is. Inside a quotation or bracket the
  backslash stays in the word and only hides what follows it from the rules below.
* A quotation ends the word it stands in. `'...'` and `"..."` keep what is between them.
* Two double quotes open a doubled quotation, which only two double quotes in a row close again;
  the first of them has been written into the word by then and is taken back.
* With brackets on, `{...}` and `(...)` are kept whole, brackets included.
* Outside all of these an enabled operator ends the segment.

`segments` is the whole scan; `Scan` is its state, and the functions `Scan.step` and `Scan.close`
are its two moves, one character and one operator.
-/

namespace LineShell

/-! ## 1. State -/

/-- How a line is cut. -/
structure ScanOptions where
  /-- The byte offset of an editing cursor. -/
  cursor : Option Nat := none
  /-- Whether `{}` and `()` group. -/
  brackets : Bool := false
  /-- The operators that end a segment. -/
  operators : List Operator := []
  /-- The name that opens every error message. -/
  label : String := "linechain"
  deriving DecidableEq, Repr

/-- The quotation the scan is inside, with what its end depends on. -/
inductive Quotation
  /-- Opened by a single quote. The flag says that an odd number of double quotes stands in it. -/
  | single (oddDouble : Bool)
  /-- Opened by the double quote at byte `openedAt`. The flag is the one for single quotes. -/
  | double (openedAt : Nat) (oddSingle : Bool)
  /-- Opened by two double quotes, the second at byte `second`, when `before` bytes of the word had
  been read. -/
  | doubled (second before : Nat)
  deriving DecidableEq, Repr

/-- The state of the scan within one segment. -/
structure Scan where
  /-- The byte at which the segment began. -/
  start : Nat := 0
  /-- The byte at which the scan stands. -/
  pos : Nat := 0
  /-- The characters of the segment so far, the last one first. -/
  read : List Char := []
  /-- The finished words of the segment. -/
  words : List Word := []
  /-- The text of the unfinished word, its last character first. -/
  letters : List Char := []
  /-- The byte at which the unfinished word began. -/
  wordStart : Option Nat := none
  /-- The word that the cursor touches and the byte of its text, as noted when the scan passed the
  cursor. -/
  selection : Option (Nat × Nat) := none
  /-- The last character was a backslash that hides the next one. -/
  escaped : Bool := false
  quotation : Option Quotation := none
  /-- The brackets that have to close, the innermost first. -/
  closers : List Char := []
  /-- The last character was a blank between words. -/
  atBlank : Bool := false
  /-- The last character closed a quotation, and with it a word. -/
  wordClosed : Bool := false
  deriving DecidableEq, Repr

namespace Scan

/-! ## 2. Words -/

/-- A word is under way from here on, if none was. -/
def begin (s : Scan) : Scan := { s with wordStart := some (s.wordStart.getD s.pos) }

def push (s : Scan) (c : Char) : Scan := { s.begin with letters := c :: s.letters }

def flush (s : Scan) (status : WordStatus) : Scan :=
  { s with
    words := s.words ++ [⟨String.ofList s.letters.reverse, s.wordStart.getD s.start, status⟩]
    letters := []
    wordStart := none }

/-- Finishes the word if it has any text. -/
def flushText (s : Scan) : Scan := if s.letters.isEmpty then s else s.flush .plain

/-- Finishes the word at the end of its quotation. -/
def closeQuotation (s : Scan) : Scan :=
  { ({ s with quotation := none } : Scan).flush .plain with wordClosed := true }

/-! ## 3. One character -/

/-- The bracket that closes the given one. -/
def closerOf (c : Char) : Char := if c = '{' then '}' else ')'

/-- A character outside quotes and brackets. -/
def stepBare (brackets : Bool) (s : Scan) (c : Char) : Scan :=
  if s.escaped then { s.push c with escaped := false, atBlank := false }
  else if c = ' ' || c = '\t' then { s.flushText with atBlank := true }
  else if c = '\\' then { s.begin with escaped := true, atBlank := false }
  else if c = '\'' then { s.begin with quotation := some (.single false), atBlank := false }
  else if c = '"' then { s.begin with quotation := some (.double s.pos false), atBlank := false }
  else if brackets && (c = '{' || c = '(') then
    { s.push c with closers := [closerOf c], atBlank := false }
  else { s.push c with atBlank := false }

/-- A character between single quotes. -/
def stepSingle (s : Scan) (oddDouble : Bool) (c : Char) : Scan :=
  if s.escaped then { s.push c with escaped := false }
  else if c = '\\' then { s.push c with escaped := true }
  else if c = '\'' then s.closeQuotation
  else if c = '"' then { s.push c with quotation := some (.single !oddDouble) }
  else s.push c

/-- A character between double quotes. A quote right after the opening one makes the quotation a
doubled one. -/
def stepDouble (s : Scan) (openedAt : Nat) (oddSingle : Bool) (c : Char) : Scan :=
  if s.escaped then { s.push c with escaped := false }
  else if c = '\\' then { s.push c with escaped := true }
  else if c = '"' then
    if s.pos = openedAt + 1 then
      { s with quotation := some (.doubled s.pos (byteLength s.letters)) }
    else s.closeQuotation
  else if c = '\'' then { s.push c with quotation := some (.double openedAt !oddSingle) }
  else s.push c

/-- A character in a doubled quotation: the second of two double quotes closes it. A quotation that
adds nothing to an empty word leaves no word behind. -/
def stepDoubled (s : Scan) (before : Nat) (c : Char) : Scan :=
  if c = '"' && s.read.head? == some '"' then
    let letters := if before < byteLength s.letters then s.letters.tail else s.letters
    if letters.isEmpty then { s with letters := [], quotation := none, wordStart := none }
    else ({ s with letters := letters } : Scan).closeQuotation
  else s.push c

/-- A character between brackets. -/
def stepBracketed (s : Scan) (c : Char) : Scan :=
  let s := s.push c
  if s.escaped then { s with escaped := false }
  else if c = '\\' then { s with escaped := true }
  else if c = '{' || c = '(' then { s with closers := closerOf c :: s.closers }
  else if s.closers.head? == some c then { s with closers := s.closers.tail }
  else s

/-- What a character does, by where the scan stands. -/
def take (brackets : Bool) (s : Scan) (c : Char) : Scan :=
  let s := { s with wordClosed := false }
  if !s.closers.isEmpty then { s.stepBracketed c with atBlank := false }
  else match s.quotation with
    | some (.single odd) => { s.stepSingle odd c with atBlank := false }
    | some (.double openedAt odd) => { s.stepDouble openedAt odd c with atBlank := false }
    | some (.doubled _ before) => { s.stepDoubled before c with atBlank := false }
    | none => s.stepBare brackets c

def advance (s : Scan) (c : Char) : Scan :=
  { s with read := c :: s.read, pos := s.pos + c.utf8Size }

def step (brackets : Bool) (s : Scan) (c : Char) : Scan := (s.take brackets c).advance c

/-! ## 4. The cursor -/

/-- The end of the last finished word. -/
def lastWord (s : Scan) : Option (Nat × Nat) :=
  s.words.getLast?.map fun w => (s.words.length - 1, byteLength w.text.toList)

/-- Notes the word that the cursor touches, when the scan stands at the cursor. -/
def markCursor (s : Scan) : Scan :=
  { s with
    selection :=
      if s.atBlank then none
      else if s.wordClosed && s.wordStart.isNone then s.lastWord
      else some (s.words.length, byteLength s.letters) }

/-- The scan, having noted the cursor if it is here. -/
def atCursor (cursor : Option Nat) (s : Scan) : Scan :=
  if cursor = some s.pos then s.markCursor else s

/-! ## 5. The end of a segment -/

/-- The scan is outside quotes and brackets and no backslash hides what follows. -/
def isBare (s : Scan) : Bool := !s.escaped && s.quotation.isNone && s.closers.isEmpty

/-- The operator that ends the segment where the scan stands, before the text `rest`. -/
def operatorAt (operators : List Operator) (s : Scan) (rest : List Char) : Option Operator :=
  if s.isBare then Operator.longestAt operators rest else none

/-- The segment that the scan has read. It owns the cursor if that stands at one of the bytes from
its start up to `next`, exclusively; `openEnd` says that the line stopped inside a word. -/
def emit (o : ScanOptions) (s : Scan) (next : Nat) (op : Operator) (status : SegmentStatus)
    (openEnd : Bool) : Segment :=
  let cursor := o.cursor.filter fun c => s.start ≤ c && c < next
  let selection :=
    if cursor.any (s.pos ≤ ·) then
      if openEnd || !s.atBlank then s.lastWord else none
    else s.selection
  let selection := if cursor.isSome then selection.filter (·.1 < s.words.length) else none
  { typed := String.ofList s.read.reverse
    words := s.words
    cursor := cursor
    selectedWord := selection.map (·.1)
    cursorInWord := (selection.map (·.2)).getD 0
    status := status
    error := status.message? o.label op
    operator := op }

/-- The segment that an operator ends. -/
def close (o : ScanOptions) (s : Scan) (op : Operator) : Segment :=
  let s := s.flushText
  let status := if s.words.isEmpty then .emptyBeforeOperator else .ok
  s.emit o (s.pos + byteLength op.spelling) op status false

/-- The scan at the start of the segment after an operator. -/
def after (s : Scan) (op : Operator) : Scan :=
  let next := s.pos + byteLength op.spelling
  { start := next, pos := next, atBlank := true, wordClosed := s.wordClosed }

/-- At the end of the line, two double quotes with only blanks after them are an empty quotation
and not the start of a doubled one. -/
def settleDoubled (s : Scan) : Scan :=
  match s.quotation with
  | some (.doubled second before) =>
    let tail := s.pos - (second + 1)
    if (s.read.take tail).all fun c => c = ' ' || c = '\t' then
      let letters := s.letters.drop (byteLength s.letters - before)
      { ({ s with letters := letters, quotation := none } : Scan).flush .plain with
        atBlank := second + 1 < s.pos }
    else s
  | _ => s

/-- The state of the quotations at the end of the line. -/
def endStatus (s : Scan) : SegmentStatus :=
  match s.quotation with
  | none => .ok
  | some (.single true) | some (.double _ true) => .unclosedBothQuotes
  | some _ => .unclosedQuote

/-- Finishes the word that the end of the line cuts off. -/
def flushEnd (s : Scan) : Scan :=
  if s.quotation.isSome then s.flush .openQuote
  else if !s.closers.isEmpty then s.flush .openBracket
  else ({ s with letters := if s.escaped then '\\' :: s.letters else s.letters } : Scan).flushText

/-- The segment that the end of the line ends. -/
def finish (o : ScanOptions) (s : Scan) : Segment :=
  let s := s.settleDoubled
  s.flushEnd.emit o (s.pos + 1) .endOfLine s.endStatus (!s.isBare)

/-- The segments from a state on. -/
def segmentsFrom (o : ScanOptions) (s : Scan) : List Char → List Segment
  | [] => [s.finish o]
  | c :: rest =>
    let s := s.atCursor o.cursor
    match s.operatorAt o.operators (c :: rest) with
    | some op => s.close o op :: segmentsFrom o (s.after op) (rest.drop (op.spelling.length - 1))
    | none => segmentsFrom o (s.step o.brackets c) rest
termination_by cs => cs.length
decreasing_by
  · simp only [List.length_drop, List.length_cons]; omega
  · simp

end Scan

/-- **The segments of a line.** There is always at least one, and the last one is ended by the end
of the line. -/
def segments (o : ScanOptions) (line : String) : List Segment :=
  ({} : Scan).segmentsFrom o line.toList

end LineShell
