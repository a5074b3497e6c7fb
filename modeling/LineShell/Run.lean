import LineShell.Registry
import LineShell.Report
import LineShell.World

/-!
# Running a line

A line is cut into segments, the segments are built into a chain, and the commands of the chain are
run one at a time as the schedule offers them.

* `Shell.invoke` routes one command: its input is its file, the pipe before it, or nothing; its
  output goes to its file, to the pipe after it, or to the output stream.
* A command that faults counts as one that ended with -1, and the line goes on. A file that cannot be
  opened, or a stream that fails, stops the line.
* A command that reads the file it writes to may go on for ever, and then the line does.
* `Shell.run` runs a line; `Running.invocations` is the record of the commands that were started and
  have ended.
-/

namespace LineShell

/-! ## 1. Shells -/

/-- What lines are run against: the commands, and how lines are read. -/
structure Shell where
  registry : Registry
  operators : List Operator
  brackets : Bool
  /-- The name that opens every error message. -/
  label : String
  deriving Repr

namespace Shell

def ofConfig (c : Config) : Shell :=
  { registry := .ofConfig c, operators := c.activeOperators, brackets := c.settings.brackets,
    label := c.settings.label }

/-- How the shell cuts lines. -/
def options (sh : Shell) : ScanOptions :=
  { brackets := sh.brackets, operators := sh.operators, label := sh.label }

def parse (sh : Shell) (line : String) : List Segment := segments sh.options line

def chain (sh : Shell) (line : String) : Except ChainError (List (Node Handle)) :=
  (build sh.registry.resolver sh.label (sh.parse line)).result

end Shell

/-! ## 2. One command -/

/-- Why a line stops. -/
inductive RoutingFault
  | cannotOpen (path : String) (cause : IoError)
  | stream (cause : IoError)
  deriving DecidableEq, Repr

def RoutingFault.message : RoutingFault → String
  | cannotOpen path cause => "cannot open " ++ path ++ ": " ++ cause.message
  | stream cause => cause.message

/-- Where the output of a command goes. -/
inductive Sink
  | stdout
  | file (place : Place)
  | pipe
  deriving DecidableEq, Repr

/-- The place that the sink writes to, if it is a file. -/
def Sink.place? : Sink → Option Place
  | file place => some place
  | _ => none

/-- A command that was started and has ended: what it read, what it wrote, where that went, and how it
ended. -/
structure Invocation where
  index : Nat
  stdin : FileTree.Source
  sink : Sink
  written : Bytes
  ending : Except CommandFault ExitCode

/-- A command that was started and never ends: what it reads, and where its output goes. -/
structure Hang where
  index : Nat
  stdin : FileTree.Source
  sink : Sink

/-- The state of a run between two commands. -/
structure Running where
  world : World
  /-- What was written to pipes and has not been taken out, with the position of the command that
  wrote it. -/
  pipes : List (Nat × Bytes) := []
  /-- The commands that were started and have ended, in order. -/
  invocations : List Invocation := []
  /-- The text of the fault that stopped the line. -/
  fault : Option String := none
  /-- The command that goes on for ever. -/
  hang : Option Hang := none

namespace Running

/-- What is left in the pipes without that of the command at position `j`. -/
def drainPipe (r : Running) (j : Nat) : List (Nat × Bytes) := r.pipes.filter (·.1 != j)

/-- Takes out what the command before position `i` wrote to its pipe; nothing if it wrote to
none. -/
def takePipe (r : Running) : Nat → Bytes × Running
  | 0 => ([], r)
  | j + 1 => ((r.pipes.lookup j).getD [], { r with pipes := r.drainPipe j })

/-- Opens the input of the command at position `i`, and the state afterwards. -/
def openInput (r : Running) (i : Nat) : Input → Except RoutingFault (FileTree.Source × Running)
  | .none => .ok (.bytes [], r)
  | .piped => .ok (.bytes (r.takePipe i).1, (r.takePipe i).2)
  | .file path =>
    ((r.world.files.openForReading path).mapError (.cannotOpen path)).map fun source => (source, r)

/-- Opens the sink of a command: the files afterwards, and the sink. -/
def openSink (files : FileTree) (feedsPipe : Bool) : Output → Except RoutingFault (FileTree × Sink)
  | .none => .ok (files, if feedsPipe then .pipe else .stdout)
  | .file path append =>
    ((files.openForWriting path append).mapError (.cannotOpen path)).map fun (files, place) =>
      (files, .file place)

/-- What a command reads once its sink is open, which may have emptied the file of its input. -/
def reread (v : View) (source : FileTree.Source) : Input → FileTree.Source
  | .file path =>
    match v.openForReading path with
    | .ok s => s
    | .error _ => source
  | _ => source

/-- What a sink takes of the output of a command. Files and pipes take everything; a stream that
fails takes nothing, and the command faults. -/
def deliver (w : World) (sink : Sink) (e : Emission) : Emission :=
  if sink = .stdout ∧ !Stream.accepts w.stdout.mode e.output then .fault (.stream .brokenPipe) else e

/-- The state after the output of the command at position `i` reached its sink. -/
def collect (r : Running) (i : Nat) (sink : Sink) (output : Bytes) : Running :=
  match sink with
  | .stdout => { r with world := { r.world with stdout := r.world.stdout.add output } }
  | .file place => { r with world := { r.world with files := r.world.files.append place output } }
  | .pipe => { r with pipes := (i, output) :: r.drainPipe i }

/-- Reports a command that faulted. -/
def reportFault (label name : String) (w : World) (f : CommandFault) : Except IoError World :=
  (w.warn ("'" ++ name ++ "' failed: " ++ f.message)).say (label ++ ": " ++ name ++ ": " ++ f.message)

def flush (w : World) : Sink → Except IoError Unit
  | .stdout => if w.stdout.mode == .failingFlush then .error .brokenPipe else .ok ()
  | _ => .ok ()

end Running

namespace Shell

/-- Stops the line at a command and reports the fault, on the log and on the message stream. -/
def stopAt (sh : Shell) (name : String) (r : Running) (f : RoutingFault) : Running :=
  let message := sh.label ++ ": " ++ name ++ ": " ++ f.message
  let world := r.world.warn message
  let world :=
    match world.say message with
    | .ok world => world
    | .error e => world.warn ("cannot report fault on stderr: " ++ e.message)
  { r with world := world, fault := some message }

/-- Ends a command whose output has been collected: a fault is reported and becomes the code -1, and
the sink is flushed. -/
def settle (sh : Shell) (name : String) (sink : Sink) (ending : Except CommandFault ExitCode)
    (r : Running) : Option ExitCode × Running :=
  let closing (code : ExitCode) (r : Running) : Option ExitCode × Running :=
    match Running.flush r.world sink with
    | .ok () => (some code, r)
    | .error e => (none, sh.stopAt name r (.stream e))
  match ending with
  | .ok code => closing code r
  | .error f =>
    match Running.reportFault sh.label name r.world f with
    | .ok world => closing (-1) { r with world := world }
    | .error e =>
      let world := r.world.warn ("'" ++ name ++ "' failed: " ++ f.message)
      (none, sh.stopAt name { r with world := world } (.stream e))

/-- Runs the command at position `i`. Without a code the line stops there, or goes on for ever. -/
def invoke (sh : Shell) (i : Nat) (n : Node Handle) (r : Running) : Option ExitCode × Running :=
  match r.openInput i n.input with
  | .error f => (none, sh.stopAt n.name r f)
  | .ok (source, r) =>
    match Running.openSink r.world.files n.feedsPipe n.output with
    | .error f => (none, sh.stopAt n.name r f)
    | .ok (files, sink) =>
      let r := { r with world := { r.world with files := files } }
      let v : View := ⟨files, sink.place?⟩
      let stdin := Running.reread v source n.input
      match n.handle.builtin.run v (.ofSegment n.segment) stdin with
      | none => (none, { r with hang := some ⟨i, stdin, sink⟩ })
      | some e =>
        let e := Running.deliver r.world sink e
        let started : Invocation := ⟨i, stdin, sink, e.output, e.ending⟩
        let r := { r with invocations := r.invocations ++ [started] }
        sh.settle n.name sink e.ending (r.collect i sink e.output)

end Shell

/-! ## 3. A whole line -/

/-- What a line comes to that is left in this state, with the report on it. -/
def Running.result (r : Running) (report : Report) : Option (Except ChainError Report × World) :=
  match r.hang with
  | some _ => none
  | none => some (.ok report, r.world)

theorem Running.result_of_hang {r : Running} {hang : Hang} (h : r.hang = some hang)
    (report : Report) : r.result report = none := by
  simp only [result, h]

theorem Running.result_of_no_hang {r : Running} (h : r.hang = none) (report : Report) :
    r.result report = some (.ok report, r.world) := by
  simp only [result, h]

theorem Running.of_result {r : Running} {report : Report} {p : Except ChainError Report × World}
    (h : r.result report = some p) : r.hang = none ∧ p = (.ok report, r.world) := by
  cases hhang : r.hang with
  | some hang =>
    rw [result_of_hang hhang] at h
    cases h
  | none =>
    rw [result_of_no_hang hhang] at h
    exact ⟨rfl, (Option.some.inj h).symm⟩

namespace Shell

/-- Runs a chain in a world. -/
def drive (sh : Shell) (nodes : List (Node Handle)) (w : World) : Drive Handle Running :=
  Drive.run sh.invoke { nodes := nodes, state := { world := w } }

/-- **Runs a line**: the report on it, or why it makes no chain, and the world afterwards. A line that
makes no chain changes nothing. A line with a command that goes on for ever comes to nothing. -/
def run (sh : Shell) (line : String) (w : World) : Option (Except ChainError Report × World) :=
  match sh.chain line with
  | .error e => some (.error e, w)
  | .ok nodes =>
    let d := sh.drive nodes w
    d.state.result (.ofChain d.nodes d.schedule d.state.fault)

end Shell
end LineShell
