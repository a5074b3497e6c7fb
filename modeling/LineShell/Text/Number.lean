/-!
# Decimal numbers

Numbers of a fixed range are read: an optional sign and at least one digit; a minus sign only where
negative numbers are in the range. The digits are read from left to right, and the first thing wrong
decides the error: a character that is no digit, or the value leaving the range.

`padded` writes a number with zeros in front.
-/

namespace LineShell

/-- Why a text is no number of the range. -/
inductive NumberError
  | empty
  | invalidDigit
  | tooLarge
  | tooSmall
  deriving DecidableEq, Repr

def NumberError.message : NumberError → String
  | empty => "cannot parse integer from empty string"
  | invalidDigit => "invalid digit found in string"
  | tooLarge => "number too large to fit in target type"
  | tooSmall => "number too small to fit in target type"

def digit? (c : Char) : Option Nat := if c.isDigit then some (c.toNat - 48) else none

/-- Reads the digits after the value `n`, which is at most `most`. -/
def readDigits (most : Nat) (overflow : NumberError) : Nat → List Char → Except NumberError Nat
  | n, [] => .ok n
  | n, c :: cs =>
    match digit? c with
    | none => .error .invalidDigit
    | some d => if most < n * 10 + d then .error overflow else readDigits most overflow (n * 10 + d) cs

/-- Reads a number of at most `most`. -/
def readNatural (most : Nat) (cs : List Char) : Except NumberError Nat :=
  match cs with
  | [] => .error .empty
  | ['+'] => .error .invalidDigit
  | '+' :: cs => readDigits most .tooLarge 0 cs
  | cs => readDigits most .tooLarge 0 cs

/-- Reads a number from `-least` to `most`. -/
def readInteger (least most : Nat) (cs : List Char) : Except NumberError Int :=
  match cs with
  | ['-'] => .error .invalidDigit
  | '-' :: cs => (readDigits least .tooSmall 0 cs).map fun n => -(n : Int)
  | cs => (readNatural most cs).map Int.ofNat

/-- A number with at least `width` digits. -/
def padded (width n : Nat) : List Char := (Nat.toDigits 10 n).leftpad width '0'

end LineShell
