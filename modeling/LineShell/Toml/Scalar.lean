import LineShell.Toml.Date

/-!
# Values of a configuration text

A `Value` is what a key of the text can hold. Numbers are kept as they are written: they are read so
that a text that is no TOML is refused, and nothing is computed from them. A date has a field as
tables do: its text, under `momentKey`.

`scalar?` reads a run of letters, digits and signs as a value. Underscores may stand between digits,
numbers have no leading zeros, and integers take 64 bits.
-/

namespace LineShell.Toml

/-! ## 1. Values -/

/-- A value. -/
inductive Value
  | string (s : String)
  | boolean (b : Bool)
  | number (text : String)
  | date (m : Moment)
  | array (items : List Value)
  | table (fields : List (String × Value))

/-- The characters of a key without quotes. -/
def isBareKey (c : Char) : Bool := c.isAlphanum || c == '_' || c == '-'

/-- The value under a key. -/
def field? (key : String) (fields : List (String × Value)) : Option Value :=
  (fields.find? (·.1 == key)).map (·.2)

/-- The key of the text of a date. -/
def momentKey : String := "$__toml_private_datetime"

/-- The fields of a value that has some. -/
def Value.fields? : Value → Option (List (String × Value))
  | .table fields => some fields
  | .date m => some [(momentKey, .string m.text)]
  | _ => none

/-! ## 2. Runs of digits -/

/-- The value of a digit in bases up to 16. -/
def hexValue? (c : Char) : Option Nat :=
  if c.isDigit then some (c.toNat - 48)
  else if 'a' ≤ c ∧ c ≤ 'f' then some (c.toNat - 87)
  else if 'A' ≤ c ∧ c ≤ 'F' then some (c.toNat - 55)
  else none

/-- The value of the digits in a base, read after the value `n`; `before` says that a digit comes
right before, which an underscore needs on both sides. -/
def digitsFrom? (base : Nat) : (before : Bool) → Nat → List Char → Option Nat
  | before, n, [] => if before then some n else none
  | before, n, c :: cs =>
    if c = '_' then if before then digitsFrom? base false n cs else none
    else match hexValue? c with
      | some d => if d < base then digitsFrom? base true (n * base + d) cs else none
      | none => none

/-- The value of a run of digits, with underscores between them. -/
def digits? (base : Nat) (cs : List Char) : Option Nat := digitsFrom? base false 0 cs

/-- The value of a decimal number without a superfluous zero in front. -/
def decimal? (cs : List Char) : Option Nat :=
  match cs with
  | '0' :: _ :: _ => none
  | cs => digits? 10 cs

/-! ## 3. Integers -/

/-- The first number that 63 bits are too few for. -/
def integerBound : Nat := Nat.pow 2 63

/-- The text is an integer of 64 bits. -/
def isInteger (cs : List Char) : Bool :=
  match cs with
  | '0' :: 'x' :: cs => (digits? 16 cs).any (· < integerBound)
  | '0' :: 'o' :: cs => (digits? 8 cs).any (· < integerBound)
  | '0' :: 'b' :: cs => (digits? 2 cs).any (· < integerBound)
  | '-' :: cs => (decimal? cs).any (· ≤ integerBound)
  | '+' :: cs => (decimal? cs).any (· < integerBound)
  | cs => (decimal? cs).any (· < integerBound)

/-! ## 4. Fractions and exponents -/

/-- The sign and the rest. -/
def splitSign : List Char → Bool × List Char
  | '-' :: cs => (true, cs)
  | '+' :: cs => (false, cs)
  | cs => (false, cs)

/-- The least number that is too large: it would be rounded past the largest one of 64 bits. -/
def tooLargeNumber : Nat := Nat.pow 2 1024 - Nat.pow 2 970

/-- The number `mantissa · 10 ^ exponent` is too large. -/
def isTooLarge (mantissa : Nat) (exponent : Int) : Bool :=
  if mantissa = 0 then false
  else if 400 < exponent then true
  else if 0 ≤ exponent then tooLargeNumber ≤ mantissa * Nat.pow 10 exponent.toNat
  else if mantissa.log2 < (-exponent).toNat then false
  else tooLargeNumber * Nat.pow 10 (-exponent).toNat ≤ mantissa

/-- The exponent of a number, or 0 if it has none. -/
def exponent? : Option (List Char) → Option Int
  | none => some 0
  | some cs =>
    let (negative, cs) := splitSign cs
    (digits? 10 cs).map fun n => if negative then -(n : Int) else n

/-- The parts of a text before and after the first character that satisfies a test. -/
def splitAtFirst (p : Char → Bool) (cs : List Char) : List Char × Option (List Char) :=
  match cs.span (!p ·) with
  | (before, []) => (before, none)
  | (before, _ :: after) => (before, some after)

/-- The text is a number with a fraction, an exponent, or both. -/
def isFraction (cs : List Char) : Bool :=
  let (negative, cs) := splitSign cs
  let (mantissa, exponent) := splitAtFirst (fun c => c == 'e' || c == 'E') cs
  let (whole, fraction) := splitAtFirst (· == '.') mantissa
  if exponent.isNone && fraction.isNone then false
  else
    let places := (fraction.getD []).filter (· != '_')
    match decimal? whole, fraction.elim (some 0) (digits? 10), exponent? exponent with
    | some w, some f, some e =>
      negative || !isTooLarge (w * Nat.pow 10 places.length + f) (e - places.length)
    | _, _, _ => false

/-- The text stands for infinity or for no number. -/
def isSpecialNumber (cs : List Char) : Bool :=
  let (_, cs) := splitSign cs
  cs == ['i', 'n', 'f'] || cs == ['n', 'a', 'n']

/-! ## 5. All of them -/

/-- The value that a run of characters denotes. -/
def scalar? (cs : List Char) : Option Value :=
  if cs == ['t', 'r', 'u', 'e'] then some (.boolean true)
  else if cs == ['f', 'a', 'l', 's', 'e'] then some (.boolean false)
  else if isInteger cs || isFraction cs || isSpecialNumber cs then some (.number (String.ofList cs))
  else (moment? cs).map .date

end LineShell.Toml
