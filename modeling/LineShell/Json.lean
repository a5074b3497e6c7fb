/-!
# JSON text

`Json.render` writes a document without any blanks. The members of an object are written in the order
in which they are given. Strings keep every character but quotes, backslashes and the control
characters below U+0020.
-/

namespace LineShell

/-- A document. -/
inductive JsonText
  | null
  | boolean (b : Bool)
  | number (n : Int)
  | string (s : String)
  | array (items : List JsonText)
  | object (members : List (String × JsonText))

namespace JsonText

/-! ## 1. Strings -/

/-- A lower-case hexadecimal digit. -/
def hexDigit (n : Nat) : Char := if n < 10 then Char.ofNat (48 + n) else Char.ofNat (87 + n)

/-- A character as it stands in a string. -/
def escapeChar (c : Char) : List Char :=
  match c with
  | '"' => ['\\', '"']
  | '\\' => ['\\', '\\']
  | '\x08' => ['\\', 'b']
  | '\t' => ['\\', 't']
  | '\n' => ['\\', 'n']
  | '\x0c' => ['\\', 'f']
  | '\r' => ['\\', 'r']
  | c =>
    if c.toNat < 0x20 then ['\\', 'u', '0', '0', hexDigit (c.toNat / 16), hexDigit (c.toNat % 16)]
    else [c]

/-- A string between its quotes. -/
def quoted (s : String) : List Char := '"' :: s.toList.flatMap escapeChar ++ ['"']

/-! ## 2. Documents -/

mutual

def chars : JsonText → List Char
  | null => ['n', 'u', 'l', 'l']
  | boolean true => ['t', 'r', 'u', 'e']
  | boolean false => ['f', 'a', 'l', 's', 'e']
  | number n => (toString n).toList
  | string s => quoted s
  | array items => '[' :: itemChars items ++ [']']
  | object members => '\x7b' :: memberChars members ++ ['\x7d']

/-- Items with commas between them. -/
def itemChars : List JsonText → List Char
  | [] => []
  | [j] => chars j
  | j :: rest => chars j ++ ',' :: itemChars rest

/-- Members with commas between them. -/
def memberChars : List (String × JsonText) → List Char
  | [] => []
  | [(key, j)] => quoted key ++ ':' :: chars j
  | (key, j) :: rest => quoted key ++ ':' :: chars j ++ ',' :: memberChars rest

end

def render (j : JsonText) : String := String.ofList j.chars

/-- A document that may be missing. -/
def ofOption {α : Type} (f : α → JsonText) : Option α → JsonText
  | none => null
  | some a => f a

def ofNat (n : Nat) : JsonText := number (Int.ofNat n)

end JsonText
end LineShell
