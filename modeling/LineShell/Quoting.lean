import LineShell.Segment.Scan
import LineShell.Text.Character

/-!
# Quoting: writing words so that the scan reads them back

A closing quote ends a word, so a word is written as it is, as one single-quoted chunk, or with a
backslash before each special character, never as chunks glued together. The chunk comes from a
`Quoter` for shells, whose answer is used only if it is a single chunk.

* `quoteWith` and `joinWith` write a word and a list of words with a given quoter;
* `quote` and `join` do so with `chunked`, the quoter of the program;
* `tokenize` reads a whole line as words and ignores operators;
* `Segment.normalized` writes the words of a segment again.
-/

namespace LineShell

/-! ## 1. Special characters -/

/-- The characters with a meaning outside quotes, and the blanks. -/
def isSpecial (c : Char) : Bool :=
  isBlank c || ['\\', '\'', '"', ';', '|', '>', '<', '&', '{', '}', '(', ')'].contains c

/-- A special character, hidden by a backslash. -/
def escape (c : Char) : List Char := if isSpecial c then ['\\', c] else [c]

/-! ## 2. Quoters -/

/-- How a word is quoted for shells, where it can be. -/
abbrev Quoter := List Char → Option (List Char)

/-- A character that may stand anywhere in a single-quoted chunk. The caret is kept out because some
shells expand it, the backslash because some read it as an escape. -/
def fitsQuotes (c : Char) : Bool := c != '\'' && c != '\\' && c != '^' && c != '\x00'

/-- The word can be written as one single-quoted chunk. A caret is harmless right after the opening
quote. -/
def isQuotable : List Char → Bool
  | '^' :: cs => cs.all fitsQuotes
  | cs => cs.all fitsQuotes

/-- The quoter of the program, which only writes single chunks. -/
def chunked : Quoter := fun word => if isQuotable word then some ('\'' :: word ++ ['\'']) else none

/-- The text begins and ends with a single quote, and has no other. -/
def isChunk (cs : List Char) : Bool :=
  2 ≤ cs.length && cs.head? == some '\'' && cs.getLast? == some '\'' &&
    !cs.tail.dropLast.contains '\''

/-! ## 3. Words -/

/-- The written form of a word. A backslash at its end would hide a closing quote. -/
def quoteChars (quoter : Quoter) (word : List Char) : List Char :=
  if word.isEmpty then ['\'', '\'']
  else if !word.any isSpecial then word
  else if word.getLast? == some '\\' then word.flatMap escape
  else ((quoter word).filter isChunk).getD (word.flatMap escape)

/-- The written form of a word. -/
def quoteWith (quoter : Quoter) (word : String) : String :=
  String.ofList (quoteChars quoter word.toList)

/-- The written forms of the words, one blank between them. -/
def joinWith (quoter : Quoter) (words : List String) : String :=
  " ".intercalate (words.map (quoteWith quoter))

/-- The written form of a word, as the program quotes it. -/
def quote : String → String := quoteWith chunked

/-- The written forms of the words, as the program quotes them. -/
def join : List String → String := joinWith chunked

/-- The words of a whole line. -/
def tokenize (line : String) : List String := (segments {} line).flatMap Segment.texts

/-- The words of the segment, quoted anew and joined. -/
def Segment.normalized (s : Segment) : String := join s.texts

end LineShell
