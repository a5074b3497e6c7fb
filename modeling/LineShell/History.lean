import LineShell.Chain.Error
import LineShell.Moment
import LineShell.Report

/-!
# The history: one record for each line

A record is the line, the exit code and a detail, with tabs between. Line breaks and tabs of the line
become blanks, and long lines are cut.

The history shows moments in UTC (`utcStamp`). Years are counted from the first of March, so that the
day that some years have more is the last one.
-/

namespace LineShell

/-! ## 1. Records -/

/-- The longest line that a record keeps, in characters. -/
def maxRecordedLine : Nat := 200

/-- The exit code of a line that was rejected. -/
def rejectedCode : ExitCode := 2

/-- The line as a record shows it. -/
def recordedLine (line : List Char) : List Char :=
  (line.map fun c => if c = '\n' ∨ c = '\t' then ' ' else c).take maxRecordedLine

/-- The detail as a record shows it. -/
def recordedDetail (detail : List Char) : List Char :=
  detail.flatMap fun c => if c = '\n' then [';', ' '] else [c]

def historyRecord (line : String) (code : ExitCode) (detail : String) : String :=
  String.ofList (recordedLine line.toList) ++ "\t" ++ codeText code ++ "\t" ++
    String.ofList (recordedDetail detail.toList)

/-- The record of a line that was run. -/
def Report.record (r : Report) (line : String) : String := historyRecord line r.exitCode r.summary

/-- The record of a line that was rejected. -/
def ChainError.record (e : ChainError) (label line : String) : String :=
  historyRecord line rejectedCode (e.message label)

/-- The record of a line, by what came of it. -/
def recordOf (label line : String) : Except ChainError Report → String
  | .ok r => r.record line
  | .error e => e.record label line

/-! ## 2. Stamps -/

/-- The days from the first of March of the year 0 to the start of 1970. -/
def daysBefore1970 : Nat := 719468

/-- The number of years from one first of March that the days reach over, at most 400 of them. -/
def yearsIn (days : Nat) : Nat := (days - days / 1460 + days / 36524 - days / 146096) / 365

/-- The date of a number of days since the start of 1970. -/
def civilDate (days : Nat) : Date :=
  let d := days + daysBefore1970
  let inCycle := d % 146097
  let years := yearsIn inCycle
  let inYear := inCycle - (365 * years + years / 4 - years / 100)
  let m := (5 * inYear + 2) / 153
  let month := if m < 10 then m + 3 else m - 9
  let year := years + d / 146097 * 400
  ⟨if month ≤ 2 then year + 1 else year, month, inYear - (153 * m + 2) / 5 + 1⟩

/-- The time of day of a number of seconds since midnight. -/
def timeOfDay (seconds : Nat) : Time := ⟨seconds / 3600, seconds / 60 % 60, seconds % 60, 0⟩

/-- The date and the time. -/
def utcStamp (seconds : Nat) : String :=
  (Moment.dateTime (civilDate (seconds / 86400)) (timeOfDay (seconds % 86400)) (some .utc)).text

example : utcStamp 951827696 = "2000-02-29T12:34:56Z" := by cbv

end LineShell
