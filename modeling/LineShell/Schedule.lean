import LineShell.Chain

/-!
# The schedule: which command of a chain runs next

The commands of a chain are asked for one at a time. A command is offered unless the operator before
it closes its gate on the code of the nearest command before it that ran; one whose gate is closed is
skipped, for good.

* `Outcome` says what became of a command once the run is over;
* `seek` looks for the next command and lists those it skips on the way;
* `Schedule` keeps the set of skipped commands, and `Schedule.next` offers the next one;
* `Drive.run` runs a chain to its end, or until the first command that stops it.
-/

namespace LineShell

/-! ## 1. Outcomes -/

/-- What became of one command once the run is over. -/
inductive Outcome
  | ran (code : ExitCode)
  /-- Its gate was closed. -/
  | skipped
  /-- The run stopped before it. -/
  | notRun
  deriving DecidableEq, Repr

/-- An exit code in decimal. -/
def codeText (code : ExitCode) : String := toString code.toInt

namespace Outcome

/-- The exit code of a command that ran. -/
def code? : Outcome → Option ExitCode
  | ran code => some code
  | _ => none

def display : Outcome → String
  | ran code => "ran(" ++ codeText code ++ ")"
  | skipped => "skipped"
  | notRun => "not_run"

end Outcome

variable {α : Type}

/-! ## 2. Sets of positions -/

/-- A set of positions, in ascending order. -/
abbrev Positions := List Nat

def Positions.insert (i : Nat) : Positions → Positions
  | [] => [i]
  | j :: js => if i < j then i :: j :: js else if i = j then j :: js else j :: insert i js

def Positions.insertAll (js : Positions) (is : List Nat) : Positions :=
  is.foldl (fun js i => js.insert i) js

/-! ## 3. The next command -/

/-- The gate of an operator after the last code, which is open when no command has run. -/
def gateOpen (op : Operator) : Option ExitCode → Bool
  | some code => op.opens code
  | none => true

/-- The position of the next command to run among `nodes`, and the positions of those whose gate is
closed on the way. The first of `nodes` has position `i`; `gate` is the operator before it, and
`last` the code of the nearest command before it that ran. -/
def seek (skipped : Positions) :
    Nat → Operator → Option ExitCode → List (Node α) → Option Nat × List Nat
  | _, _, _, [] => (none, [])
  | i, gate, last, n :: nodes =>
    match n.result with
    | some code => seek skipped (i + 1) n.operator (some code) nodes
    | none =>
      if skipped.contains i then seek skipped (i + 1) n.operator last nodes
      else if gateOpen gate last then (some i, [])
      else
        let (found, closed) := seek skipped (i + 1) n.operator last nodes
        (found, i :: closed)

/-- The next command to run, and the skipped ones afterwards. -/
def nextRunnable (nodes : List (Node α)) (skipped : Positions) : Option Nat × Positions :=
  let (found, closed) := seek skipped 0 .endOfLine none nodes
  (found, skipped.insertAll closed)

/-! ## 4. Schedules -/

/-- The commands skipped so far. -/
structure Schedule where
  skipped : Positions := []
  deriving DecidableEq, Repr

namespace Schedule

/-- The next command to run, and the schedule afterwards. -/
def next (s : Schedule) (nodes : List (Node α)) : Option Nat × Schedule :=
  let (found, skipped) := nextRunnable nodes s.skipped
  (found, ⟨skipped⟩)

def isSkipped (s : Schedule) (i : Nat) : Bool := s.skipped.contains i

def outcome (s : Schedule) (nodes : List (Node α)) (i : Nat) : Outcome :=
  match nodes[i]?.bind Node.result with
  | some code => .ran code
  | none => if s.isSkipped i then .skipped else .notRun

def outcomes (s : Schedule) (nodes : List (Node α)) : List Outcome :=
  (List.range nodes.length).map (s.outcome nodes)

end Schedule

/-! ## 5. Running a chain -/

/-- A chain under way, with the state that its commands act on. -/
structure Drive (α σ : Type) where
  nodes : List (Node α)
  schedule : Schedule := {}
  state : σ

namespace Drive

variable {σ : Type}

/-- Runs up to `fuel` commands. `act` runs one; without a code from it the run stops there. -/
def go (act : Nat → Node α → σ → Option ExitCode × σ) : Nat → Drive α σ → Drive α σ
  | 0, d => d
  | fuel + 1, d =>
    let (found, schedule) := d.schedule.next d.nodes
    let d := { d with schedule := schedule }
    match found with
    | none => d
    | some i =>
      match d.nodes[i]? with
      | none => d
      | some node =>
        match act i node d.state with
        | (none, state) => { d with state := state }
        | (some code, state) =>
          go act fuel { d with nodes := recordAt d.nodes i code, state := state }

/-- Runs a chain to its end, or until a command stops it. Every command that runs gets its code, so
one round more than there are commands is enough. -/
def run (act : Nat → Node α → σ → Option ExitCode × σ) (d : Drive α σ) : Drive α σ :=
  go act (d.nodes.length + 1) d

end Drive
end LineShell
