import LineShell.Toml.Scalar

/-!
# Writing strings and keys

A string is written in the plainest of the styles that can hold it: between double quotes or between
single ones if it needs no escapes there, then between three of either, and with escapes as the last
resort. Keys of letters, digits, hyphens and underscores are written bare.
-/

namespace LineShell.Toml

/-! ## 1. What a string holds -/

/-- A control character other than a tab and a newline. -/
def isControl (c : Char) : Bool := (c.toNat < 0x20 && c != '\t' && c != '\n') || c.toNat == 0x7F

/-- The length of the longest run of a character, where `current` of it stand right before. -/
def longestRun (c : Char) : (current : Nat) → List Char → Nat
  | current, [] => current
  | current, d :: ds =>
    if d = c then longestRun c (current + 1) ds else max current (longestRun c 0 ds)

/-! ## 2. Escapes -/

/-- An upper-case hexadecimal digit. -/
def hexDigit (n : Nat) : Char := if n < 10 then Char.ofNat (48 + n) else Char.ofNat (55 + n)

/-- The escape of a character by its number, with four digits. -/
def numberEscape (n : Nat) : List Char :=
  ['\\', 'u', hexDigit (n / 4096 % 16), hexDigit (n / 256 % 16), hexDigit (n / 16 % 16),
    hexDigit (n % 16)]

/-- A character other than a quote, with a backslash before it where it needs one. -/
def escapeChar (c : Char) : List Char :=
  match c with
  | '\x08' => ['\\', 'b']
  | '\t' => ['\\', 't']
  | '\n' => ['\\', 'n']
  | '\x0c' => ['\\', 'f']
  | '\r' => ['\\', 'r']
  | '\\' => ['\\', '\\']
  | c => if isControl c then numberEscape c.toNat else [c]

/-- The text with escapes, as it stands between double quotes. With `lines` newlines stand for
themselves, and so do up to two quotes in a row; `quotes` of them stand right before. -/
def escaped (lines : Bool) : (quotes : Nat) → List Char → List Char
  | _, [] => []
  | quotes, c :: cs =>
    if c = '"' then
      if lines && quotes < 2 then c :: escaped lines (quotes + 1) cs
      else '\\' :: c :: escaped lines 0 cs
    else if lines && c == '\n' then c :: escaped lines 0 cs
    else escapeChar c ++ escaped lines 0 cs

/-! ## 3. Styles -/

/-- A line end after the opening quotes, if the text has several lines. -/
def openingNewline (cs : List Char) : List Char := if cs.contains '\n' then ['\n'] else []

/-- The text between double quotes. -/
def basicForm (cs : List Char) : List Char := '"' :: escaped false 0 cs ++ ['"']

/-- The text between single quotes. -/
def literalForm (cs : List Char) : List Char := '\'' :: cs ++ ['\'']

/-- The text between three double quotes. -/
def basicLinesForm (cs : List Char) : List Char :=
  ['"', '"', '"'] ++ openingNewline cs ++ escaped true 0 cs ++ ['"', '"', '"']

/-- The text between three single quotes. -/
def literalLinesForm (cs : List Char) : List Char :=
  ['\'', '\'', '\''] ++ openingNewline cs ++ cs ++ ['\'', '\'', '\'']

/-- The text stands between double quotes without an escape, tabs apart. -/
def needsNoEscape (cs : List Char) : Bool :=
  !cs.any fun c => isControl c || c == '\\' || c == '"' || c == '\n'

/-- The text stands between single quotes. -/
def fitsLiteral (cs : List Char) : Bool := !cs.any fun c => isControl c || c == '\'' || c == '\n'

def stringForm (cs : List Char) : List Char :=
  if needsNoEscape cs then basicForm cs
  else if fitsLiteral cs then literalForm cs
  else if !cs.any (fun c => isControl c || c == '\\') && longestRun '"' 0 cs ≤ 2 then
    basicLinesForm cs
  else if !cs.any isControl && longestRun '\'' 0 cs ≤ 2 then literalLinesForm cs
  else if cs.contains '\n' then basicLinesForm cs
  else basicForm cs

/-- The key needs no quotes. -/
def isBare (cs : List Char) : Bool := !cs.isEmpty && cs.all isBareKey

def keyForm (cs : List Char) : List Char :=
  if isBare cs then cs
  else if needsNoEscape cs then basicForm cs
  else if fitsLiteral cs then literalForm cs
  else basicForm cs

/-! ## 4. Lines -/

def stringText (s : String) : String := String.ofList (stringForm s.toList)

def keyText (s : String) : String := String.ofList (keyForm s.toList)

def arrayText (items : List String) : String := "[" ++ ", ".intercalate (items.map stringText) ++ "]"

/-- The line of a key with its value. -/
def fieldLine (key value : String) : String := keyText key ++ " = " ++ value ++ "\n"

/-- A table under its header; `fields` are its lines. -/
def tableText (header : String) (fields : List String) : String :=
  "[" ++ header ++ "]\n" ++ String.join fields

end LineShell.Toml
