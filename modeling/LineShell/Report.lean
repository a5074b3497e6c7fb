import LineShell.Chain
import LineShell.Quoting
import LineShell.Schedule

/-!
# Reports: what became of a line

One entry for each command of the chain, and the fault that stopped the run, if one did. The exit
code of a line is that of the last command that ran; after a fault it is -1.
-/

namespace LineShell

/-- What became of one command. -/
structure NodeReport where
  command : String
  /-- The words of the command, quoted anew. -/
  line : String
  operator : Operator
  input : Input
  output : Output
  outcome : Outcome
  deriving DecidableEq, Repr

/-- What became of a line. -/
structure Report where
  nodes : List NodeReport := []
  /-- Why the run stopped before its end. -/
  fault : Option String := none
  deriving DecidableEq, Repr

/-- The entry of a command with its outcome. -/
def NodeReport.ofNode {α : Type} (n : Node α) (outcome : Outcome) : NodeReport :=
  { command := n.name, line := n.segment.normalized, operator := n.operator, input := n.input,
    output := n.output, outcome := outcome }

namespace Report

/-- The report on a chain that has been run as far as it goes. -/
def ofChain {α : Type} (nodes : List (Node α)) (schedule : Schedule) (fault : Option String) :
    Report :=
  { nodes := nodes.zipIdx.map fun (n, i) => .ofNode n (schedule.outcome nodes i)
    fault := fault }

def outcomes (r : Report) : List Outcome := r.nodes.map (·.outcome)

/-- The exit code of the line; 0 if nothing ran. -/
def exitCode (r : Report) : ExitCode :=
  if r.fault.isSome then -1
  else (r.outcomes.reverse.findSome? Outcome.code?).getD 0

/-- The commands with their outcomes, in one line. -/
def summary (r : Report) : String :=
  " ".intercalate (r.nodes.map fun n => n.command ++ "=" ++ n.outcome.display)

end Report
end LineShell
