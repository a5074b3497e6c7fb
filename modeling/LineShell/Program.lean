import LineShell.Program.Session

/-!
# The program

`execute` says what a call of the program does: from its arguments and what it finds around it to its
exit status, its output and the files it leaves.
-/

namespace LineShell

/-- What a call of the program comes to. -/
structure Finish where
  status : Nat
  stdout : Bytes
  stderr : String
  files : FileTree

namespace Session

/-- What the session has come to. -/
def finish (s : Session) (status : Nat) : Finish :=
  { status := status, stdout := s.world.stdout.written, stderr := s.world.messages s.level s.style,
    files := s.world.files }

/-- Prints a line and ends. -/
def printLine (s : Session) (text : String) (status : Nat) : Finish :=
  { s with world := s.world.print (text ++ "\n") }.finish status

/-- The session after the details on the segments of a line. -/
def noteSegments (s : Session) (parts : List Segment) : Session :=
  { s with world := s.world.note (parts.map (Segment.detail s.style.plain)) }

/-- Shows the segments of a line. -/
def showSegments (s : Session) (line : String) : Finish :=
  let parts := s.shell.parse line
  (s.noteSegments parts).printLine (JsonText.array (parts.map Segment.toJson)).render
    (if parts.all Segment.isOk then 0 else rejectedCode.toInt.toNat)

/-- Shows what there is to complete. -/
def showTarget (s : Session) (cursor : Nat) (line : String) : Finish :=
  let parts := segments { s.shell.options with cursor := some cursor } line
  let target := completionTarget line cursor s.shell.options
  (s.noteSegments parts).printLine (JsonText.ofOption CompletionTarget.toJson target).render
    (if target.isSome then 0 else 1)

/-- Does what the mode asks for. -/
def perform (s : Session) (a : Arguments) (stdin : Bytes) : Option Finish :=
  match a.mode with
  | .parse line => some (s.showSegments line)
  | .complete cursor line => some (s.showTarget cursor line)
  | .dumpConfig => some ({ s with world := s.world.print s.config.dump }.finish 0)
  | .help => some (s.finish 0)
  | .run =>
    let run : Option (Nat × Session) :=
      match a.line with
      | some line => s.runLine line
      | none => s.script stdin
    run.map fun (status, s) => s.finish status

end Session

/-- **What a call of the program does**, if it ever ends. -/
def execute (s : Surroundings) (args : List String) : Option Finish :=
  match parseArguments args with
  | .error e =>
    some { status := rejectedCode.toInt.toNat, stdout := [], files := s.files
           stderr := "linechain: " ++ e.message ++ "\n" ++ usage ++ "\n" }
  | .ok a =>
    if a.mode = .help then
      some { status := 0, stdout := Bytes.utf8 (usage ++ "\n"), stderr := "", files := s.files }
    else (Session.start s a).perform a s.stdin

end LineShell
