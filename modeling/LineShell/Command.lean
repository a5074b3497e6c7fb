import LineShell.FileTree
import LineShell.Segment
import LineShell.Text.Number

/-!
# Commands: what they see of the line, and what they write

A command sees its `Call`, the words of its segment. Words that begin with a hyphen are flags, except
a hyphen alone; the other arguments are operands.

It ends with an exit code or with a fault. A fault is no exit code: it says that the command could not
do its work, and what it had written before stays written (`Emission`).
-/

namespace LineShell

/-! ## 1. Calls -/

/-- One command with its arguments. -/
structure Call where
  /-- The text as typed, without the operator. -/
  raw : String
  /-- The command word and the arguments. -/
  words : List String
  deriving DecidableEq, Repr

namespace Call

def ofSegment (s : Segment) : Call := { raw := s.typed, words := s.texts }

def name (c : Call) : String := c.words.head?.getD ""

def args (c : Call) : List String := c.words.tail

/-- The flag is among the arguments. -/
def hasFlag (c : Call) (flag : String) : Bool := c.args.contains flag

/-- One of the flags is among the arguments. -/
def hasAnyFlag (c : Call) (flags : List String) : Bool := c.args.any flags.contains

/-- An argument that is no flag. -/
def isOperand (w : String) : Bool := w == "-" || !(['-'].isPrefixOf w.toList)

def operands (c : Call) : List String := c.args.filter isOperand

end Call

/-! ## 2. Emissions -/

/-- Why a command could not do its work. -/
inductive CommandFault
  | missingPattern
  | badStatus (text : String) (cause : NumberError)
  | cannotOpen (name : String) (cause : IoError)
  | stream (cause : IoError)
  deriving DecidableEq, Repr

/-- The text of the fault, the causes after it. -/
def CommandFault.message : CommandFault → String
  | missingPattern => "missing pattern"
  | badStatus text cause => "invalid exit status '" ++ text ++ "': " ++ cause.message
  | cannotOpen name cause => name ++ ": " ++ cause.message
  | stream cause => cause.message

/-- What a command writes to its output, and how it ends. -/
structure Emission where
  output : Bytes := []
  ending : Except CommandFault ExitCode

namespace Emission

/-- Nothing written, and an exit code. -/
def quiet (code : ExitCode) : Emission := { ending := .ok code }

/-- Nothing written, and a fault. -/
def fault (f : CommandFault) : Emission := { ending := .error f }

end Emission

end LineShell
