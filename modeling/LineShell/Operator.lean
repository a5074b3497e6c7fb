/-!
# Operators: what ends a command or routes its streams

* seven operators have a spelling; `endOfLine` is what ends a line that simply stops;
* three of them are redirections (`<`, `>`, `>>`): they say where a command's stream goes and are
  followed by a file name;
* the others end a command, and `opens` says whether the next command runs after a given code;
* `longestAt` picks, among the enabled operators that a text starts with, one of longest spelling,
  so that `>>` is never read as two `>`.
-/

namespace LineShell

/-- The exit code of a command: a signed 32-bit number, 0 for success. -/
abbrev ExitCode := Int32

/-- The operators of a command line. -/
inductive Operator
  | endOfLine
  | semicolon
  | pipe
  | writeTo
  | appendTo
  | readFrom
  | andThen
  | orElse
  deriving DecidableEq, Repr, Inhabited

namespace Operator

/-! ## 1. Spellings -/

/-- Every operator that can be written. -/
def written : List Operator :=
  [.semicolon, .pipe, .writeTo, .appendTo, .readFrom, .andThen, .orElse]

/-- The characters an operator is written with; none for the end of the line. -/
def spelling : Operator → List Char
  | .endOfLine => []
  | .semicolon => [';']
  | .pipe => ['|']
  | .writeTo => ['>']
  | .appendTo => ['>', '>']
  | .readFrom => ['<']
  | .andThen => ['&', '&']
  | .orElse => ['|', '|']

/-- The spelling as a string. -/
def literal (op : Operator) : String := String.ofList op.spelling

/-- The written operator with the given literal. -/
def ofLiteral? (s : String) : Option Operator := written.find? (·.literal == s)

/-- How messages name an operator. -/
def display : Operator → String
  | .endOfLine => "end of input"
  | op => op.literal

/-! ## 2. Kinds -/

/-- Redirections route a stream of the current command instead of ending it. -/
def isRedirection : Operator → Bool
  | .writeTo | .appendTo | .readFrom => true
  | _ => false

/-- The operators that end a command. -/
def endsCommand (op : Operator) : Bool := !op.isRedirection

/-- A redirection takes one word after it, the name of a file. -/
def takesFile (op : Operator) : Bool := op.isRedirection

/-- The redirection of a command's input. -/
def isSource : Operator → Bool
  | .readFrom => true
  | _ => false

/-- The gate of the next command: whether it runs, given the code of the nearest command before it
that ran. -/
def opens : Operator → ExitCode → Bool
  | .andThen, code => code == 0
  | .orElse, code => code != 0
  | _, _ => true

/-! ## 3. Recognition -/

/-- The operator is enabled at a place where `text` goes on if it is written and `text` starts with
its spelling. -/
def startsAt (text : List Char) (op : Operator) : Bool :=
  op != .endOfLine && op.spelling.isPrefixOf text

/-- The longer spelled of two candidates, the later one if they are equally long. -/
def longer : Option Operator → Operator → Option Operator
  | none, op => some op
  | some best, op => if op.spelling.length < best.spelling.length then some best else some op

/-- An enabled operator of longest spelling that `text` starts with. -/
def longestAt (enabled : List Operator) (text : List Char) : Option Operator :=
  (enabled.filter (startsAt text)).foldl longer none

/-! ## 4. Laws -/

theorem startsAt_iff {text : List Char} {op : Operator} :
    op.startsAt text = true ↔ op ≠ .endOfLine ∧ op.spelling <+: text := by
  simp [startsAt]

theorem spelling_ne_nil {op : Operator} (h : op ≠ .endOfLine) : op.spelling ≠ [] := by
  cases op <;> simp_all [spelling]

theorem mem_of_foldl_longer : ∀ (ops : List Operator) (best : Option Operator) (op : Operator),
    ops.foldl longer best = some op → op ∈ ops ∨ best = some op
  | [], _, _, h => .inr h
  | o :: ops, best, op, h => by
    rcases mem_of_foldl_longer ops (longer best o) op h with h | h
    · exact .inl (List.mem_cons_of_mem _ h)
    · cases best with
      | none => simp [longer] at h; simp [h]
      | some b =>
        simp only [longer] at h
        split at h
        · exact .inr h
        · simp at h; simp [h]

/-- What is recognised is enabled and stands there. -/
theorem of_longestAt {enabled : List Operator} {text : List Char} {op : Operator}
    (h : longestAt enabled text = some op) : op ∈ enabled ∧ op.startsAt text = true := by
  rcases mem_of_foldl_longer _ _ _ h with h | h
  · exact List.mem_filter.1 h
  · simp at h

end Operator
end LineShell
