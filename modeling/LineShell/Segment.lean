import LineShell.Operator

/-!
# Segments: the parts of a line between its operators

A `Segment` is a stretch of the line together with the operator that ended it. It holds the words
of the stretch, each with the byte offset at which it began, and says whether the stretch is in
order. If an editing cursor stands in the segment, it also says which word the cursor touches.

`SegmentStatus.message?` gives the one wording of each thing that can be wrong.
-/

namespace LineShell

/-! ## 1. Words -/

/-- How a word ended: in the line, or still inside a quotation or bracket when the line stopped. -/
inductive WordStatus
  | plain
  | openQuote
  | openBracket
  deriving DecidableEq, Repr

/-- One word of a line. -/
structure Word where
  /-- The word as the command receives it, quotes removed and escapes applied. -/
  text : String
  /-- The byte of the line at which the word began. -/
  offset : Nat
  status : WordStatus
  deriving DecidableEq, Repr

/-! ## 2. What can be wrong -/

/-- Whether a segment is in order. -/
inductive SegmentStatus
  | ok
  | unclosedQuote
  | unclosedBothQuotes
  | emptyBeforeOperator
  deriving DecidableEq, Repr

/-- The error message of a segment that ended at `op`; `label` is the name that opens every
message. -/
def SegmentStatus.message? (label : String) (op : Operator) : SegmentStatus → Option String
  | .ok => none
  | .unclosedQuote => some (label ++ ": unexpected end of input, unclosed quote")
  | .unclosedBothQuotes =>
    some (label ++ ": unexpected end of input, unclosed single and double quotes")
  | .emptyBeforeOperator =>
    some (label ++ ": syntax error near unexpected token '" ++ op.literal ++ "'")

/-! ## 3. Segments -/

/-- One part of a line. -/
structure Segment where
  /-- The part as typed, without the operator. -/
  typed : String
  words : List Word
  /-- The cursor, as a byte offset in the line, if it stands in this segment. -/
  cursor : Option Nat := none
  /-- The word under the cursor. -/
  selectedWord : Option Nat := none
  /-- The byte of the selected word's text at which the cursor stands. -/
  cursorInWord : Nat := 0
  status : SegmentStatus := .ok
  error : Option String := none
  /-- The operator that ended the segment. -/
  operator : Operator
  deriving DecidableEq, Repr

namespace Segment

def isOk (s : Segment) : Bool := s.status == .ok

/-- The word under the cursor. -/
def selected? (s : Segment) : Option Word := s.selectedWord.bind (s.words[·]?)

def texts (s : Segment) : List String := s.words.map (·.text)

/-- The first word, which names a command. -/
def command? (s : Segment) : Option String := s.texts.head?

def args (s : Segment) : List String := s.texts.tail

end Segment
end LineShell
