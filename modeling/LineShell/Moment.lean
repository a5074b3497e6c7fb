import LineShell.Text.Number

/-!
# Dates and times

A `Moment` is a date, a time of day, or both, and where it is both it may say how far its clock is
ahead of UTC. `Moment.text` writes it in one form: the date before the time, a `T` between them, the
fraction of a second with as few digits as it needs, and no fraction for a whole second.
-/

namespace LineShell

/-! ## 1. Dates -/

/-- A day of the calendar. -/
structure Date where
  year : Nat
  month : Nat
  day : Nat
  deriving DecidableEq, Repr

def daysOf (year month : Nat) : Nat :=
  if month = 2 then
    if year % 4 = 0 ∧ (year % 100 ≠ 0 ∨ year % 400 = 0) then 29 else 28
  else if month = 4 ∨ month = 6 ∨ month = 9 ∨ month = 11 then 30
  else 31

def Date.isValid (d : Date) : Bool :=
  1 ≤ d.month && d.month ≤ 12 && 1 ≤ d.day && d.day ≤ daysOf d.year d.month

def Date.text (d : Date) : List Char :=
  padded 4 d.year ++ '-' :: padded 2 d.month ++ '-' :: padded 2 d.day

/-! ## 2. Times -/

/-- A time of day. -/
structure Time where
  hour : Nat
  minute : Nat
  second : Nat
  nanosecond : Nat
  deriving DecidableEq, Repr

/-- A clock shows the time. A minute has up to 61 seconds, as the last one of a day may be a second
longer. -/
def Time.isValid (t : Time) : Bool := t.hour ≤ 23 && t.minute ≤ 59 && t.second ≤ 60

/-- The digits without the zeros at their end. -/
def withoutLastZeros (digits : List Char) : List Char :=
  (digits.reverse.dropWhile (· == '0')).reverse

/-- The fraction of a second, from the point on. -/
def fractionText (nanosecond : Nat) : List Char :=
  if nanosecond = 0 then [] else '.' :: withoutLastZeros (padded 9 nanosecond)

def Time.text (t : Time) : List Char :=
  padded 2 t.hour ++ ':' :: padded 2 t.minute ++ ':' :: padded 2 t.second ++
    fractionText t.nanosecond

/-! ## 3. Time zones -/

/-- A time zone: UTC by name, or how many minutes its clocks are ahead of UTC. -/
inductive Zone
  | utc
  | ahead (minutes : Int)
  deriving DecidableEq, Repr

def Zone.text : Zone → List Char
  | .utc => ['Z']
  | .ahead minutes =>
    (if minutes < 0 then '-' else '+') ::
      padded 2 (minutes.natAbs / 60) ++ ':' :: padded 2 (minutes.natAbs % 60)

/-! ## 4. All of them -/

/-- A date, a time, or both. -/
inductive Moment
  | date (d : Date)
  | time (t : Time)
  | dateTime (d : Date) (t : Time) (zone : Option Zone)
  deriving DecidableEq, Repr

def Moment.text : Moment → String
  | .date d => String.ofList d.text
  | .time t => String.ofList t.text
  | .dateTime d t zone => String.ofList (d.text ++ 'T' :: t.text ++ (zone.map Zone.text).getD [])

example : (Moment.time ⟨7, 32, 0, 120000000⟩).text = "07:32:00.12" := by cbv

example : (Moment.dateTime ⟨1, 2, 3⟩ ⟨4, 5, 60, 1⟩ (some (.ahead (-90)))).text =
    "0001-02-03T04:05:60.000000001-01:30" := by cbv

end LineShell
