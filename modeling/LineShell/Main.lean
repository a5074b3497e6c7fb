import Std.Time.DateTime.Timestamp
import LineShell.Program
import LineShell.Program.Reach

/-!
# The command line

Reads what the program needs to know, lets `execute` decide, and carries out what it says.
-/

namespace LineShell

/-- A place as an absolute path. -/
def absolutePath (place : Place) : String := "/" ++ "/".intercalate place

def lookAt (place : Place) : IO (Option Entry) := do
  try
    let path ← IO.FS.realPath (absolutePath place)
    if ← path.isDir then
      return some .directory
    else
      return some (.file (← IO.FS.readBinFile path).toList)
  catch _ =>
    return none

/-- The tree with what stands on the way to a path. -/
def lookUp (files : FileTree) (path : String) : IO FileTree := do
  let mut files := files
  for place in placesOf files.cwd path do
    if (files.find? place).isNone then
      if let some entry ← lookAt place then
        files := files.put place entry
  return files

/-- Everything that the input holds. -/
partial def readAll (input : IO.FS.Stream) (before : ByteArray) : IO ByteArray := do
  let more ← input.read 65536
  if more.isEmpty then return before else readAll input (before ++ more)

/-- Makes the changes from one tree to another. -/
def carryOut (before after : FileTree) : IO Unit := do
  for (place, entry) in after.entries do
    if before.find? place != some entry then
      match entry with
      | .directory => IO.FS.createDirAll (absolutePath place)
      | .file data => IO.FS.writeBinFile (absolutePath place) ⟨data.toArray⟩

/-- The log of the command line: a detail with its level and the part of the program that it comes
from, after the number of the only thread. -/
def commandLineStyle : LogStyle :=
  { plain := fun c => '\u00a0' < c ∧ c ≠ '\u00ad'
    detail := fun source message => "[DEBUG] (1) " ++ source ++ ": " ++ message ++ "\n" }

/-- The surroundings of a call with the files that it can reach. -/
def lookAround (args : List String) : IO Surroundings := do
  let cwd := pathNames (← IO.currentDir).toString.toList
  let home := (← IO.getEnv "HOME").getD "~"
  let now ← Std.Time.Timestamp.now
  let base : Surroundings :=
    { home := home, stamp := utcStamp now.toSecondsSinceUnixEpoch.val.toNat
      explain := fun _ => "this is no overlay", style := commandLineStyle
      files := FileTree.emptyAt cwd }
  match parseArguments args with
  | .error _ => return base
  | .ok a =>
    let stdin ← if a.readsInput then readAll (← IO.getStdin) .empty else pure .empty
    let files ← lookUp base.files (base.overlayPath a)
    let s := { base with stdin := stdin.toList, files := files }
    return { s with files := ← (s.namedPaths a).foldlM lookUp files }

end LineShell

open LineShell in
/-- Runs a call of the program and ends with its exit status. A call that never ends shows nothing. -/
def main (args : List String) : IO UInt32 := do
  let s ← lookAround args
  match execute s args with
  | none =>
    repeat IO.sleep 1000
    return 0
  | some f =>
    carryOut s.files f.files
    let stdout ← IO.getStdout
    stdout.write ⟨f.stdout.toArray⟩
    stdout.flush
    IO.eprint f.stderr
    return f.status.toUInt32
