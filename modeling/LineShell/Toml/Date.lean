import LineShell.Moment

/-!
# Reading dates and times

`moment?` reads a run of characters as a moment. Every part has as many digits as it always has, but
a fraction of a second may have any number of them, of which nine count. The day has to be in the
calendar and the time on the clock. Between date and time stands a `T`, in either case, or a blank.
-/

namespace LineShell.Toml

/-! ## 1. Parts -/

/-- The value of a text of exactly two digits. -/
def twoDigits? (a b : Char) : Option Nat :=
  if a.isDigit && b.isDigit then some (Nat.ofDigitChars 10 [a, b] 0) else none

/-- Reads a date; the second part of the result is what follows it. -/
def date? : List Char → Option (Date × List Char)
  | a :: b :: c :: d :: '-' :: e :: f :: '-' :: g :: h :: rest => do
    let date : Date :=
      ⟨(← twoDigits? a b) * 100 + (← twoDigits? c d), ← twoDigits? e f, ← twoDigits? g h⟩
    if date.isValid then some (date, rest) else none
  | _ => none

/-- Reads hours and minutes. -/
def clock? : List Char → Option (Nat × Nat × List Char)
  | a :: b :: ':' :: c :: d :: rest => do
    let hour ← twoDigits? a b
    let minute ← twoDigits? c d
    if hour ≤ 23 ∧ minute ≤ 59 then some (hour, minute, rest) else none
  | _ => none

/-- The number of nanoseconds that the digits of a fraction give. -/
def nanoseconds (digits : List Char) : Nat :=
  Nat.ofDigitChars 10 ((digits.take 9).rightpad 9 '0') 0

/-- Reads the fraction of a second, if there is one, as nanoseconds. A point needs a digit. -/
def fraction? : List Char → Option (Nat × List Char)
  | '.' :: rest =>
    match rest.span Char.isDigit with
    | ([], _) => none
    | (digits, rest) => some (nanoseconds digits, rest)
  | rest => some (0, rest)

/-- Reads a time of day; the second part of the result is what follows it. -/
def time? (cs : List Char) : Option (Time × List Char) :=
  match clock? cs with
  | some (hour, minute, ':' :: a :: b :: rest) => do
    let second ← twoDigits? a b
    let (nanosecond, rest) ← fraction? rest
    let time : Time := ⟨hour, minute, second, nanosecond⟩
    if time.isValid then some (time, rest) else none
  | _ => none

/-- The minutes that hours and minutes alone make. -/
def minutes? (cs : List Char) : Option Nat :=
  match clock? cs with
  | some (hour, minute, []) => some (hour * 60 + minute)
  | _ => none

/-- The time zone that a text is, or that there is none. -/
def zone? : List Char → Option (Option Zone)
  | [] => some none
  | ['Z'] | ['z'] => some (some .utc)
  | '+' :: cs => (minutes? cs).map fun n => some (.ahead n)
  | '-' :: cs => (minutes? cs).map fun n => some (.ahead (-n))
  | _ => none

/-! ## 2. All of them -/

/-- The moment that a text is. -/
def moment? (cs : List Char) : Option Moment :=
  match date? cs with
  | some (date, []) => some (.date date)
  | some (date, c :: rest) =>
    if c == 'T' || c == 't' || c == ' ' then do
      let (time, rest) ← time? rest
      return .dateTime date time (← zone? rest)
    else none
  | none =>
    match time? cs with
    | some (time, []) => some (.time time)
    | _ => none

end LineShell.Toml
