import LineShell.Run

/-!
# The log

What the program is doing can be followed in a log. A level says how much of it is shown: warnings
from `warn` on, details from `debug` on.

* `LogStyle` is how the log writes things out, which is not for the program to say;
* a detail is a `Notice` with the part of the program that it comes from: one for each segment, for
  each command of a chain, for each command that is started and for each that is skipped;
* `Shell.log` is what the log and the message stream get in the course of a line, in order.
-/

namespace LineShell

/-! ## 1. Levels -/

/-- How much of the log is shown. -/
inductive LogLevel
  | off
  | error
  | warn
  | info
  | debug
  | trace
  deriving DecidableEq, Repr

namespace LogLevel

/-- All levels. -/
def all : List LogLevel := [.off, .error, .warn, .info, .debug, .trace]

/-- The name of a level. -/
def name : LogLevel → String
  | off => "off"
  | error => "error"
  | warn => "warn"
  | info => "info"
  | debug => "debug"
  | trace => "trace"

/-- The level with a name, in letters of either case. -/
def ofName? (s : String) : Option LogLevel :=
  all.find? fun level => level.name.toList == s.toList.map Char.toLower

/-- Warnings are shown. -/
def showsWarnings : LogLevel → Bool
  | off | error => false
  | _ => true

/-- Details are shown. -/
def showsDetails : LogLevel → Bool
  | debug | trace => true
  | _ => false

end LogLevel

/-- How the log writes things out. -/
structure LogStyle where
  /-- The characters that stand as they are between quotes: those beyond ASCII, and the single quote
  in a path. -/
  plain : Char → Bool
  /-- The text of a detail, with what the logger puts around it. -/
  detail : (source message : String) → String

/-- What is seen of a notice at a level. -/
def Notice.shown (level : LogLevel) (style : LogStyle) : Notice → String
  | .text s => s
  | .warning m => if level.showsWarnings then "[WARN] " ++ m ++ "\n" else ""
  | .detail source m => if level.showsDetails then style.detail source m else ""

/-- What is seen of notices. -/
def shownNotices (level : LogLevel) (style : LogStyle) (notices : List Notice) : String :=
  String.join (notices.map (Notice.shown level style))

/-- What is seen of everything that was said. -/
def World.messages (w : World) (level : LogLevel) (style : LogStyle) : String :=
  shownNotices level style w.notices

/-! ## 2. Quotes -/

/-- A character between double quotes. -/
def escapedChar (plain : Char → Bool) (c : Char) : List Char :=
  if c = '\x00' then ['\\', '0']
  else if c = '\t' then ['\\', 't']
  else if c = '\n' then ['\\', 'n']
  else if c = '\r' then ['\\', 'r']
  else if c = '\\' ∨ c = '"' then ['\\', c]
  else if c = '\'' then if plain c then [c] else ['\\', c]
  else if ' ' ≤ c ∧ c ≤ '~' ∨ '\x7f' < c ∧ plain c then [c]
  else ['\\', 'u', '{'] ++ Nat.toDigits 16 c.toNat ++ ['}']

/-- A text between double quotes. -/
def quotedText (plain : Char → Bool) (text : String) : String :=
  "\"" ++ String.ofList (text.toList.flatMap (escapedChar fun c => c == '\'' || plain c)) ++ "\""

/-- A path between double quotes. -/
def quotedPath (plain : Char → Bool) (path : String) : String :=
  "\"" ++ String.ofList (path.toList.flatMap (escapedChar plain)) ++ "\""

/-! ## 3. Segments and chains -/

/-- The name of an operator in the log. -/
def Operator.logName : Operator → String
  | .endOfLine => "Eol"
  | .semicolon => "Semi"
  | .pipe => "Pipe"
  | .writeTo => "RedirectOut"
  | .appendTo => "AppendOut"
  | .readFrom => "RedirectIn"
  | .andThen => "And"
  | .orElse => "Or"

/-- The name of a status in the log. -/
def SegmentStatus.logName : SegmentStatus → String
  | .ok => "Ok"
  | .unclosedQuote => "UnclosedQuote"
  | .unclosedBothQuotes => "DoubleUnclosedQuote"
  | .emptyBeforeOperator => "EmptyBeforeOperator"

def Input.logText (plain : Char → Bool) : Input → String
  | .none => "None"
  | .file path => "File \x7b path: " ++ quotedPath plain path ++ " \x7d"
  | .piped => "Piped"

def Output.logText (plain : Char → Bool) : Output → String
  | .none => "None"
  | .file path append =>
    "File \x7b path: " ++ quotedPath plain path ++ ", append: " ++ toString append ++ " \x7d"

/-- The detail on a segment. -/
def Segment.detail (plain : Char → Bool) (s : Segment) : Notice :=
  .detail "linechain::parse::segment"
    ("segment " ++ quotedText plain s.typed ++ ": " ++ toString s.words.length ++ " word(s), " ++
      s.status.logName ++ ", ended by " ++ s.operator.logName)

section

variable {α : Type}

/-- The node before a position. -/
def nodeBefore? (nodes : List (Node α)) : Nat → Option (Node α)
  | 0 => none
  | k + 1 => nodes[k]?

/-- The details on the command at position `k`; `piped` says that the one before it feeds a pipe. -/
def Node.details (plain : Char → Bool) (k : Nat) (piped : Bool) (n : Node α) : List Notice :=
  let complete : Notice := .detail "linechain::exec::chain"
    ("node " ++ toString k ++ ": '" ++ n.name ++ "' input=" ++ n.input.logText plain ++ " output=" ++
      n.output.logText plain ++ " ended by " ++ n.operator.logName)
  match n.input, piped with
  | .file path, true =>
    [.detail "linechain::exec::chain" ("'" ++ path ++ "': input file replaces piped input"), complete]
  | _, _ => [complete]

/-- The details on the commands of a chain. -/
def chainDetails (plain : Char → Bool) (nodes : List (Node α)) : List Notice :=
  nodes.zipIdx.flatMap fun (n, k) =>
    n.details plain k ((nodeBefore? nodes k).any Node.feedsPipe)

/-- The detail on a chain that was built. -/
def builtDetail (nodes : List (Node α)) : Notice :=
  .detail "linechain::exec::chain" ("built chain of " ++ toString nodes.length ++ " node(s)")

/-! ## 4. Runs -/

/-- The detail on the command at position `k` when it is started. -/
def Node.startDetail (k : Nat) (n : Node α) : Notice :=
  .detail "linechain::exec::runner" ("running node " ++ toString k ++ " '" ++ n.name ++ "'")

/-- The detail on the command at position `k` of a chain when it is skipped: the operator before it,
and the code of the nearest command before it that ran. -/
def Node.skipDetail (nodes : List (Node α)) (k : Nat) (n : Node α) : Notice :=
  let gate := ((nodeBefore? nodes k).map (·.operator)).getD .endOfLine
  let last := ((nodes.take k).reverse.findSome? (·.result)).getD 0
  .detail "linechain::exec::scheduler"
    ("skipping node " ++ toString k ++ " '" ++ n.name ++ "': '" ++ gate.display ++ "' after exit " ++
      codeText last)

end

/-- The state of a run with what was said in the course of each command, by its position. -/
structure Noted where
  running : Running
  notes : List (Nat × List Notice) := []

namespace Shell

/-- Runs the command at position `i` and notes what is said. -/
def noting (sh : Shell) (i : Nat) (n : Node Handle) (s : Noted) : Option ExitCode × Noted :=
  let (code, r) := sh.invoke i n s.running
  let said := r.world.notices.drop s.running.world.notices.length
  (code, { running := r, notes := s.notes ++ [(i, n.startDetail i :: said)] })

/-- What the log and the message stream get of the command at position `k` of a chain that was run:
what was said if it was started, and otherwise whether it was skipped. -/
def commandLog (d : Drive Handle Noted) (k : Nat) (n : Node Handle) : List Notice :=
  match d.state.notes.lookup k with
  | some said => said
  | none => if d.schedule.isSkipped k then [n.skipDetail d.nodes k] else []

/-- What they get while a chain is run in some files. -/
def runLog (sh : Shell) (nodes : List (Node Handle)) (files : FileTree) : List Notice :=
  let d := Drive.run sh.noting
    { nodes := nodes, state := { running := { world := { files := files } } } }
  d.nodes.zipIdx.flatMap fun (n, k) => commandLog d k n

/-- **What the log and the message stream get in the course of a line** that finds some files, both
streams taking everything. -/
def log (sh : Shell) (plain : Char → Bool) (line : String) (files : FileTree) : List Notice :=
  let parts := sh.parse line
  let reading :=
    parts.map (Segment.detail plain) ++ chainDetails plain (completeNodes sh.registry.resolver parts)
  match sh.chain line with
  | .error _ => reading
  | .ok nodes => reading ++ builtDetail nodes :: sh.runLog nodes files

end Shell
end LineShell
