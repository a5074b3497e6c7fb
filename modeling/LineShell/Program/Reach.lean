import LineShell.Program.Session

/-!
# The files that a call of the program can reach

A call touches no files but the overlay, the history, and those that the words of its lines name. So
it is enough to look at these, and at the directories above them, before the call.
-/

namespace LineShell

/-- The place that a path leads to from a directory if no name on the way is missing. -/
def placeFrom (here : Place) : List String → Place
  | [] => here
  | name :: rest =>
    if name = "." then placeFrom here rest
    else if name = ".." then placeFrom here.dropLast rest
    else placeFrom (here ++ [name]) rest

/-- The places that a path leads over, in the order of its names. -/
def placesOf (cwd : Place) (path : String) : List Place :=
  let origin := if isAbsolute path.toList then [] else cwd
  let names := pathNames path.toList
  (List.range (names.length + 1)).map fun n => placeFrom origin (names.take n)

/-- The path of the overlay. -/
def Surroundings.overlayPath (s : Surroundings) (a : Arguments) : String :=
  expandTilde s.home (a.config.getD userConfigPath)

/-- The lines that a call runs. -/
def Surroundings.lines (s : Surroundings) (a : Arguments) : List String :=
  match a.mode, a.line with
  | .run, some line => [line]
  | .run, none => (Bytes.linesUntilBad (Bytes.pieces s.stdin)).1
  | _, _ => []

/-- The paths of the history and of the words, once the overlay can be read. -/
def Surroundings.namedPaths (s : Surroundings) (a : Arguments) : List String :=
  let config := (Config.load s.files s.home a.config).1
  let words := (s.lines a).flatMap fun line =>
    ((Shell.ofConfig config).parse line).flatMap Segment.texts
  (config.settings.historyPath? s.home).toList ++ words

/-- The call reads its input. -/
def Arguments.readsInput (a : Arguments) : Bool := a.mode == .run && a.line.isNone

end LineShell
