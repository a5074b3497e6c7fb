import LineShell.Segment

/-!
# Chains: the commands of a line with their routing

A chain is a list of nodes. A `Node` is one command of the line with the handle that its name
resolved to, the places its input comes from and its output goes to, and the operator that ended it.
Nodes of a chain under way also carry the code of the command, once that has run.
-/

namespace LineShell

/-- Where a command reads its input. -/
inductive Input
  | none
  | file (path : String)
  /-- The output of the command before it. -/
  | piped
  deriving DecidableEq, Repr

/-- Where a command's output goes, other than to the default place. -/
inductive Output
  | none
  | file (path : String) (append : Bool)
  deriving DecidableEq, Repr

/-- One command of a chain. -/
structure Node (α : Type) where
  handle : α
  /-- The segment with the command word and its arguments. -/
  segment : Segment
  input : Input := .none
  output : Output := .none
  /-- The operator that ended the command. -/
  operator : Operator
  result : Option ExitCode := none

namespace Node

variable {α : Type}

def name (n : Node α) : String := n.segment.command?.getD ""

def args (n : Node α) : List String := n.segment.args

def hasRun (n : Node α) : Bool := n.result.isSome

/-- The node after its command ended with a code. -/
def record (n : Node α) (code : ExitCode) : Node α := { n with result := some code }

/-- The output is handed to the next command. -/
def feedsPipe (n : Node α) : Bool := n.operator == .pipe

end Node

/-- The chain after the command with number `i` ended with a code. -/
def recordAt {α : Type} (nodes : List (Node α)) (i : Nat) (code : ExitCode) : List (Node α) :=
  nodes.modify i (·.record code)

end LineShell
