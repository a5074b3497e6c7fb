import LineShell.Segment.Scan

/-!
# The grammar of words

A raw word is a word as it is written: a sequence of pieces and then, optionally, one quotation.

* A `Piece` is a plain character, a character that a backslash hides, or, with brackets on, a
  bracket group, which is kept as it is written. A group closes at its own closing bracket; backslash
  pairs and groups inside it are passed over whole (`InGroup`).
* A `Tail` is a quotation in single, double or doubled double quotes, and what is between the quotes
  is kept as it is written: `QuotedBody` for the first two, in which a backslash hides the next
  quote, and `DoubledBody` for the third, in which a double quote may stand alone.
* A `RawLine` has blanks between its words; a quotation needs none after it.

Every raw word has a text and a value, and `RawLine.meaning` lists the words that a line stands for.
The data carry the proofs that they are well formed. What the scan makes of them is proved elsewhere.
-/

namespace LineShell

/-! ## 1. Bodies -/

/-- What stands between a bracket and the bracket that closes it. -/
inductive InGroup : (closer : Char) → List Char → Prop
  | nil {closer : Char} : InGroup closer []
  /-- A backslash hides the next character. -/
  | hidden {closer : Char} (c : Char) {cs : List Char} (h : InGroup closer cs) :
      InGroup closer ('\\' :: c :: cs)
  /-- A group inside the group. -/
  | nested {closer opener : Char} {inner cs : List Char} (ho : opener = '{' ∨ opener = '(')
      (hi : InGroup (Scan.closerOf opener) inner) (h : InGroup closer cs) :
      InGroup closer (opener :: (inner ++ Scan.closerOf opener :: cs))
  | other {closer c : Char} {cs : List Char} (hc : c ∉ ['\\', '{', '(', closer])
      (h : InGroup closer cs) : InGroup closer (c :: cs)

/-- What stands between two quotes of the given kind. -/
inductive QuotedBody (quote : Char) : List Char → Prop
  | nil : QuotedBody quote []
  /-- A backslash hides the next character. -/
  | hidden (c : Char) {cs : List Char} (h : QuotedBody quote cs) :
      QuotedBody quote ('\\' :: c :: cs)
  | other {c : Char} {cs : List Char} (hc : c ∉ ['\\', quote]) (h : QuotedBody quote cs) :
      QuotedBody quote (c :: cs)

/-- What stands between two pairs of double quotes. -/
structure DoubledBody (cs : List Char) : Prop where
  ne_nil : cs ≠ []
  first : cs.head? ≠ some '"'
  last : cs.getLast? ≠ some '"'
  /-- No two double quotes stand in a row. -/
  apart : ¬ ['"', '"'] <:+: cs

/-! ## 2. Words -/

/-- The characters that stand for themselves: they open and hide nothing, and no operator that is
looked for begins with them. -/
structure IsPlain (o : ScanOptions) (c : Char) : Prop where
  mark : c ∉ [' ', '\t', '\\', '\'', '"']
  bracket : o.brackets = true → c ∉ ['{', '(']
  operator : ∀ op ∈ o.operators, op.spelling.head? ≠ some c

/-- One piece of a word. -/
inductive Piece (o : ScanOptions)
  | plain (c : Char) (h : IsPlain o c)
  | hidden (c : Char)
  | group (opener : Char) (body : List Char) (on : o.brackets = true)
      (ho : opener = '{' ∨ opener = '(') (h : InGroup (Scan.closerOf opener) body)

namespace Piece

variable {o : ScanOptions}

def text : Piece o → List Char
  | plain c _ => [c]
  | hidden c => ['\\', c]
  | group opener body _ _ _ => opener :: (body ++ [Scan.closerOf opener])

def value : Piece o → List Char
  | plain c _ => [c]
  | hidden c => [c]
  | group opener body _ _ _ => opener :: (body ++ [Scan.closerOf opener])

end Piece

/-- The quotation at the end of a word. -/
inductive Tail
  | single (body : List Char) (h : QuotedBody '\'' body)
  | double (body : List Char) (h : QuotedBody '"' body) (hne : body ≠ [])
  | doubled (body : List Char) (h : DoubledBody body)

namespace Tail

def text : Tail → List Char
  | single body _ => '\'' :: (body ++ ['\''])
  | double body _ _ => '"' :: (body ++ ['"'])
  | doubled body _ => '"' :: '"' :: (body ++ ['"', '"'])

def value : Tail → List Char
  | single body _ | double body _ _ | doubled body _ => body

end Tail

/-- A word as it is written. -/
structure RawWord (o : ScanOptions) where
  pieces : List (Piece o)
  tail : Option Tail := none
  /-- There is something of it. -/
  written : pieces ≠ [] ∨ tail.isSome = true

namespace RawWord

variable {o : ScanOptions}

def text (w : RawWord o) : List Char :=
  w.pieces.flatMap Piece.text ++ (w.tail.map Tail.text).getD []

/-- What the word stands for. -/
def value (w : RawWord o) : List Char :=
  w.pieces.flatMap Piece.value ++ (w.tail.map Tail.value).getD []

end RawWord

/-! ## 3. Lines -/

/-- Blanks, as many as there may be. -/
def IsGap (cs : List Char) : Prop := ∀ c ∈ cs, c = ' ' ∨ c = '\t'

/-- Raw words, each with the blanks after it. -/
structure RawLine (o : ScanOptions) where
  leading : List Char := []
  words : List (RawWord o × List Char)
  leading_gap : IsGap leading
  gaps : ∀ p ∈ words, IsGap p.2
  /-- A word that does not end in a quotation needs a blank before the next one. -/
  apart : ∀ p ∈ words.dropLast, p.2 ≠ [] ∨ p.1.tail.isSome = true

/-- The words that raw words stand for, where the first one begins at the given byte. -/
def wordsFrom {o : ScanOptions} (start : Nat) : List (RawWord o × List Char) → List Word
  | [] => []
  | (w, gap) :: rest =>
    ⟨String.ofList w.value, start, .plain⟩ ::
      wordsFrom (start + byteLength w.text + byteLength gap) rest

namespace RawLine

variable {o : ScanOptions}

def text (l : RawLine o) : List Char := l.leading ++ l.words.flatMap fun p => p.1.text ++ p.2

/-- The words that the line stands for. -/
def meaning (l : RawLine o) : List Word := wordsFrom (byteLength l.leading) l.words

end RawLine
end LineShell
