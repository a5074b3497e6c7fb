import LineShell.Config.Load
import LineShell.History
import LineShell.Json.Encoding
import LineShell.Program.Arguments
import LineShell.Program.Log

/-!
# Sessions: line after line against one shell

A `Session` is a shell in a world, with the place of the history. `Session.start` loads the
configuration and opens the history; `Session.runLine` runs a line and records it; `Session.script`
runs the lines of an input. A line that never ends comes to nothing, and so does everything after it.
-/

namespace LineShell

/-- What the program finds around it. -/
structure Surroundings where
  /-- The home directory. -/
  home : String
  /-- The time, as the history shows it. -/
  stamp : String
  /-- What the reader of overlays says about a text that it refuses. -/
  explain : String → String
  style : LogStyle
  files : FileTree
  stdin : Bytes := []

/-- A shell at work. -/
structure Session where
  config : Config
  level : LogLevel
  style : LogStyle
  shell : Shell
  world : World
  /-- The history file. -/
  history : Option Place
  stamp : String
  /-- Whether a report is shown after each line. -/
  json : Bool

/-! ## 1. The start -/

/-- Makes the history file ready to be added to. -/
def openHistory (files : FileTree) (path : String) : FileTree × Except IoError Place :=
  match files.makeParents path.toList with
  | (files, some e) => (files, .error e)
  | (files, none) =>
    match files.openForWriting path true with
    | .ok (files, place) => (files, .ok place)
    | .error e => (files, .error e)

namespace Session

/-- The level of the log, and the world after a complaint about its name. -/
def chooseLevel (verbose : Bool) (name : String) (w : World) : LogLevel × World :=
  if verbose then (.debug, w)
  else match LogLevel.ofName? name with
    | some level => (level, w)
    | none => (.warn, w.tell ("linechain: unknown log level '" ++ name ++ "', using warn"))

/-- The place of the history, if there is one, and the world after it was opened. -/
def chooseHistory (path : Option String) (w : World) : Option Place × World :=
  match path with
  | none => (none, w)
  | some path =>
    match openHistory w.files path with
    | (files, .ok place) => (some place, { w with files := files })
    | (files, .error e) =>
      (none, { w with files := files }.tell
        ("linechain: cannot open history file " ++ path ++ ": " ++ e.message))

/-- What the log gets when the shell of a configuration is made. -/
def shellNotices (c : Config) : List Notice :=
  let warn (warnings : List ConfigWarning) : List Notice := warnings.map (.warning ·.message)
  let count := (Registry.ofConfig c).names.length
  let registered := "registered " ++ toString count ++ " command name(s)"
  warn (Registry.warnings c) ++ .detail "linechain::exec" registered :: warn c.operatorWarnings

/-- The session at the start of the program. -/
def start (s : Surroundings) (a : Arguments) : Session :=
  let (config, problem) := Config.load s.files s.home a.config
  let world : World := { files := s.files }
  let world := problem.elim world fun p => world.tell (p.message s.explain)
  let (level, world) := chooseLevel a.verbose config.settings.logLevel world
  let (history, world) := chooseHistory (config.settings.historyPath? s.home) world
  { config := config, level := level, style := s.style, shell := .ofConfig config,
    world := world.note (shellNotices config), history := history, stamp := s.stamp, json := a.json }

/-! ## 2. One line -/

/-- Adds a record to the history. -/
def remember (s : Session) (record : String) (w : World) : World :=
  match s.history with
  | none => w
  | some place =>
    { w with
      files := w.files.append place (Bytes.utf8 (s.stamp ++ " [INFO] " ++ record ++ "\n")) }

/-- Shows what came of a line that was run. -/
def showReport (s : Session) (r : Report) (w : World) : World :=
  if s.json then w.print (r.toJson.render ++ "\n") else w

/-- Says why a line was rejected, and which command may have been meant. -/
def showRejection (s : Session) (e : ChainError) (w : World) : World :=
  let w := w.tell (e.message s.shell.label)
  if e.suggestions.isEmpty then w
  else w.tell (s.shell.label ++ ": did you mean: " ++ ", ".intercalate e.suggestions ++ "?")

/-- Shows what came of a line. -/
def showResult (s : Session) (w : World) : Except ChainError Report → World
  | .ok r => s.showReport r w
  | .error e => s.showRejection e w

/-- The exit status for an exit code: codes outside the range of a byte become 255. -/
def exitStatus (code : ExitCode) : Nat :=
  if 0 ≤ code.toInt ∧ code.toInt ≤ 255 then code.toInt.toNat else 255

/-- The exit status for a line. -/
def lineStatus : Except ChainError Report → Nat
  | .ok r => exitStatus r.exitCode
  | .error _ => rejectedCode.toInt.toNat

/-- **Runs a line**, records it and shows what came of it: its exit status, and the session afterwards.
The log of the line takes the place of what the run by itself says. -/
def runLine (s : Session) (line : String) : Option (Nat × Session) :=
  (s.shell.run line s.world).map fun (result, world) =>
    let said := s.world.notices ++ s.shell.log s.style.plain line s.world.files
    let world := s.remember (recordOf s.shell.label line result) { world with notices := said }
    (lineStatus result, { s with world := s.showResult world result })

/-! ## 3. Many lines -/

/-- The line holds more than blanks. -/
def isRunnable (line : String) : Bool := !line.toList.all isBlank

/-- Runs lines in order: the status of the last one, or `status` if there is none, and the session
afterwards. -/
def runLines (s : Session) (status : Nat) : List String → Option (Nat × Session)
  | [] => some (status, s)
  | line :: rest => (s.runLine line).bind fun (status, s) => runLines s status rest

/-- **Runs the lines of an input** up to the first one that is not UTF-8. Lines of blanks are passed
over. -/
def script (s : Session) (input : Bytes) : Option (Nat × Session) :=
  let (lines, bad) := Bytes.linesUntilBad (Bytes.pieces input)
  (s.runLines 0 (lines.filter isRunnable)).map fun (status, s) =>
    if bad then
      (1, { s with world :=
        s.world.tell ("linechain: failed to read stdin: " ++ IoError.notUtf8.message) })
    else (status, s)

end Session
end LineShell
