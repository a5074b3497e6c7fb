import LineShell.Config.Text
import LineShell.FileTree.Path

/-!
# Loading a configuration

The configuration in force is the one given in the program, changed by the overlay in a file. The
user's own file may be missing; a file asked for may not. A file that cannot be read, or that is no
overlay, changes nothing.
-/

namespace LineShell

/-- The overlay file where none is asked for. -/
def userConfigPath : String := "~/.config/linechain/config.toml"

/-- Why an overlay file has no effect. -/
inductive LoadProblem
  | unreadable (path : String) (cause : IoError)
  | malformed (text : String)
  deriving DecidableEq, Repr

/-- The text of the problem. `explain` is what the reader of overlays says about a text. -/
def LoadProblem.message (explain : String → String) : LoadProblem → String
  | unreadable path cause => "linechain: cannot read config " ++ path ++ ": " ++ cause.message
  | malformed text => "linechain: config parse error: " ++ explain text

/-- The contents of a text file. -/
def FileTree.readText (t : FileTree) (path : String) : Except IoError String :=
  match t.readFile path with
  | .error e => .error e
  | .ok data =>
    match Bytes.ofUtf8? data with
    | some s => .ok s
    | none => .error .notUtf8

/-- The configuration with the overlay of a text, and what is wrong with that text. -/
def Config.withOverlay (c : Config) (text : String) : Config × Option LoadProblem :=
  match Overlay.ofText? text with
  | some o => (o.apply c, none)
  | none => (c, some (.malformed text))

/-- **The configuration in force**, and the problem with its overlay file. `path` is the file asked
for. -/
def Config.load (files : FileTree) (home : String) (path : Option String) :
    Config × Option LoadProblem :=
  let expanded := expandTilde home (path.getD userConfigPath)
  match files.readText expanded with
  | .ok text => Config.withOverlay {} text
  | .error e => ({}, path.map fun _ => .unreadable expanded e)

end LineShell
