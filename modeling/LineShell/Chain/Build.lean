import LineShell.Chain
import LineShell.Chain.Error

/-!
# Building a chain from the segments of a line

A command is a segment with at least one word, then for each of its redirections a segment of exactly
one word, the file name, and it is ended by an operator that is no redirection. `assemble` reads the
segments from left to right and is always in one of two phases: it expects a command, or it has a
command under way and expects the file of a redirection.

* A command takes at most one source and at most one sink, the source first.
* Every command name is resolved when it is met, once, and nothing else is: `Assembly.asked` holds
  the names that were asked for.
* A segment that is not in order stops the building before anything is resolved.
-/

namespace LineShell

variable {α : Type}

/-! ## 1. Resolving names -/

/-- What command names stand for. -/
structure Resolver (α : Type) where
  resolve : String → Option α
  /-- Known names that are close to an unknown one, the best first. -/
  suggest : String → List String := fun _ => []

/-! ## 2. A command under way -/

/-- A command whose ending operator has not been met. -/
structure Draft (α : Type) where
  handle : α
  segment : Segment
  source : Option String := none
  /-- The file for the output, and whether it is appended to. -/
  sink : Option (String × Bool) := none

namespace Draft

/-- The redirection that gave the command its sink. -/
def sinkOperator (d : Draft α) : Option Operator :=
  d.sink.map fun s => if s.2 then .appendTo else .writeTo

/-- The error of a further redirection, if it is not acceptable. -/
def objection (d : Draft α) (op : Operator) : Option ChainError :=
  if op.isSource then
    if d.source.isSome then some (.duplicateRedirection op)
    else d.sinkOperator.map (.sinkBeforeSource · op)
  else if d.sink.isSome then some (.duplicateRedirection op)
  else none

/-- The command with the file of a redirection. -/
def attach (d : Draft α) (op : Operator) (path : String) : Draft α :=
  if op.isSource then { d with source := some path }
  else { d with sink := some (path, op == .appendTo) }

/-- The input of the command. A source file replaces the pipe. -/
def input (d : Draft α) (piped : Bool) : Input :=
  match d.source with
  | some path => .file path
  | none => if piped then .piped else .none

def output (d : Draft α) : Output :=
  match d.sink with
  | some (path, append) => .file path append
  | none => .none

def finish (d : Draft α) (op : Operator) (piped : Bool) : Node α :=
  { handle := d.handle, segment := d.segment, input := d.input piped, output := d.output,
    operator := op }

end Draft

/-! ## 3. The segments in order -/

/-- What the next segment has to be. -/
inductive Phase (α : Type)
  | command
  | file (draft : Draft α) (op : Operator)

/-- The names asked for, in order, and what came of it. -/
structure Assembly (α : Type) where
  asked : List String := []
  result : Except ChainError (List (Node α))

namespace Assembly

/-- Nothing more is asked for. -/
def stop (result : Except ChainError (List (Node α))) : Assembly α := { result := result }

/-- The assembly, with one name asked for before. -/
def asking (name : String) (a : Assembly α) : Assembly α := { a with asked := name :: a.asked }

end Assembly

/-- A command meets an operator: a redirection makes it wait for a file, any other ends it. -/
def Draft.meet (d : Draft α) (op : Operator) (done : List (Node α)) :
    Except ChainError (List (Node α) × Phase α) :=
  if op.isRedirection then
    match d.objection op with
    | some e => .error e
    | none => .ok (done, .file d op)
  else .ok (done ++ [d.finish op (done.getLast?.any Node.feedsPipe)], .command)

/-- A redirection was followed by `found` words instead of one. -/
def wrongArgument (op : Operator) (found : Nat) : ChainError :=
  if found == 0 then .missingArgument op else .badArgument op found

/-- The operators that need a command after them. -/
def needsCommand : Operator → Bool
  | .pipe | .andThen | .orElse => true
  | _ => false

/-- A chain whose last operator wants another command is none. -/
def conclude (done : List (Node α)) : Except ChainError (List (Node α)) :=
  match done.getLast? with
  | some last => if needsCommand last.operator then .error (.missingCommand last.operator) else .ok done
  | none => .ok done

/-- An operator with no words before it. -/
def emptyCommand (label : String) (op : Operator) : ChainError :=
  .malformed .emptyBeforeOperator ((SegmentStatus.emptyBeforeOperator.message? label op).getD "")

/-- The chain of the segments, `done` being the commands before them. -/
def assemble (r : Resolver α) (label : String) :
    List (Node α) → Phase α → List Segment → Assembly α
  | done, .command, [] => .stop (conclude done)
  | _, .file _ op, [] => .stop (.error (wrongArgument op 0))
  | done, .command, s :: rest =>
    match s.command? with
    | none =>
      if s.operator = .endOfLine then assemble r label done .command rest
      else .stop (.error (emptyCommand label s.operator))
    | some name =>
      .asking name <|
        match r.resolve name with
        | none => .stop (.error (.notFound name (r.suggest name)))
        | some handle =>
          match ({ handle := handle, segment := s } : Draft α).meet s.operator done with
          | .error e => .stop (.error e)
          | .ok (done, phase) => assemble r label done phase rest
  | done, .file draft op, s :: rest =>
    match s.texts with
    | [path] =>
      match (draft.attach op path).meet s.operator done with
      | .error e => .stop (.error e)
      | .ok (done, phase) => assemble r label done phase rest
    | texts => .stop (.error (wrongArgument op texts.length))

/-- **The chain of a line's segments**, with the names that were asked for. `label` opens the error
messages. -/
def build (r : Resolver α) (label : String) (segments : List Segment) : Assembly α :=
  match segments.find? (!·.isOk) with
  | some bad => .stop (.error (.malformed bad.status (bad.error.getD "")))
  | none => assemble r label [] .command segments

/-! ## 4. How far the building comes -/

/-- The commands that are complete when `assemble` ends, whatever it comes to. -/
def completeFrom (r : Resolver α) : List (Node α) → Phase α → List Segment → List (Node α)
  | done, _, [] => done
  | done, .command, s :: rest =>
    match s.command? with
    | none => if s.operator = .endOfLine then completeFrom r done .command rest else done
    | some name =>
      match r.resolve name with
      | none => done
      | some handle =>
        match ({ handle := handle, segment := s } : Draft α).meet s.operator done with
        | .error _ => done
        | .ok (done, phase) => completeFrom r done phase rest
  | done, .file draft op, s :: rest =>
    match s.texts with
    | [path] =>
      match (draft.attach op path).meet s.operator done with
      | .error _ => done
      | .ok (done, phase) => completeFrom r done phase rest
    | _ => done

/-- The commands that are complete when the building of a chain ends. -/
def completeNodes (r : Resolver α) (segments : List Segment) : List (Node α) :=
  if segments.all Segment.isOk then completeFrom r [] .command segments else []

end LineShell
