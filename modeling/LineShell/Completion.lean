import LineShell.Segment.Scan

/-!
# Completion: what stands under the cursor of a line

`completionTarget` finds the segment that owns the cursor and the word of it that the cursor
touches. `isCommandPosition` says whether a command name is expected there.
-/

namespace LineShell

/-- What a completer has to complete. -/
structure CompletionTarget where
  /-- The number of the segment that owns the cursor. -/
  segmentIndex : Nat
  /-- The number of the word under the cursor; none when a new word begins there. -/
  wordIndex : Option Nat
  /-- The text of that word. -/
  word : String
  /-- The byte of that text at which the cursor stands. -/
  offset : Nat
  segment : Segment
  deriving DecidableEq, Repr

namespace CompletionTarget

/-- The target in the segment with number `i`, which owns the cursor. -/
def ofSegment (s : Segment) (i : Nat) : CompletionTarget :=
  { segmentIndex := i
    wordIndex := s.selectedWord
    word := (s.selected?.map (·.text)).getD ""
    offset := s.cursorInWord
    segment := s }

/-- A command name is expected at the cursor: it touches the first word, or a new word begins before
all words of the segment. -/
def isCommandPosition (t : CompletionTarget) : Bool :=
  match t.wordIndex with
  | some i => i == 0
  | none => t.segment.words.all fun w => t.segment.cursor.any (· ≤ w.offset)

end CompletionTarget

/-- The target at a cursor, if that lies in the line. The cursor of the options is overridden. -/
def completionTarget (line : String) (cursor : Nat) (o : ScanOptions) : Option CompletionTarget :=
  let found := (segments { o with cursor := some cursor } line).zipIdx
  (found.find? (·.1.cursor.isSome)).map fun (s, i) => .ofSegment s i

end LineShell
