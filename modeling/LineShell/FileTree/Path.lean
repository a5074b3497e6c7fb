import LineShell.FileTree

/-!
# Paths: finding, opening and creating what a path names

A path is read name by name from the root or from the tree's own directory. Every name before the
last has to be a directory; a slash at the end asks for a directory too.

* `openForReading` gives the contents, or says that the path names a directory, which can be opened
  but not read;
* `openForWriting` makes the file if it is missing, and empties it unless it is appended to;
* `makeParents` makes the directories above a path.

The output of a command reaches its sink while the command still runs. Where the sink is a file, the
command can read that file too, and then it reads what it has written itself. A `View` is a tree with
the place of that file.
-/

namespace LineShell

/-! ## 1. Names -/

/-- The longest name, in bytes. -/
def maxName : Nat := 255

/-- The longest path, in bytes. -/
def maxPath : Nat := 4095

/-- The names of a path; empty ones between slashes are dropped. -/
def pathNames (path : List Char) : List String :=
  ((path.splitOn '/').filter (!·.isEmpty)).map String.ofList

/-- The path starts at the root. -/
def isAbsolute (path : List Char) : Bool := path.head? == some '/'

/-- What is wrong with a path whatever the tree holds. -/
def pathFault? (path : List Char) : Option IoError :=
  if path.contains '\x00' then some .nulInPath
  else if path.isEmpty then some .notFound
  else if maxPath < byteLength path then some .nameTooLong
  else none

/-- The path asks for a directory. -/
def endsInSlash (path : List Char) : Bool := path.getLast? == some '/'

namespace FileTree

/-! ## 2. Finding -/

/-- The place that the names lead to from a directory, and what stands there. -/
def walk (t : FileTree) : Place → List String → Except IoError (Place × Option Entry)
  | here, [] => .ok (here, some .directory)
  | here, name :: rest =>
    if name = "." then walk t here rest
    else if name = ".." then walk t here.dropLast rest
    else if maxName < byteLength name.toList then .error .nameTooLong
    else
      let place := here ++ [name]
      match t.find? place, rest with
      | some .directory, _ => walk t place rest
      | e, [] => .ok (place, e)
      | some (.file _), _ => .error .notDirectory
      | none, _ => .error .notFound

/-- The directory that a path starts from. -/
def origin (t : FileTree) (path : List Char) : Place := if isAbsolute path then [] else t.cwd

/-- The place that a path names, and what stands there. -/
def locate (t : FileTree) (path : List Char) : Except IoError (Place × Option Entry) :=
  match pathFault? path with
  | some e => .error e
  | none => t.walk (t.origin path) (pathNames path)

/-! ## 3. Opening -/

/-- What a file opened for reading gives. -/
inductive Source
  | bytes (data : Bytes)
  /-- The file that the reader's own output goes to: what it holds before the reader writes. -/
  | target (before : Bytes)
  /-- A directory, which can be opened but not read. -/
  | directory
  deriving DecidableEq, Repr

/-- What reading to the end gives a reader that has written nothing yet. -/
def Source.read : Source → Except IoError Bytes
  | .bytes data => .ok data
  | .target before => .ok before
  | .directory => .error .isDirectory

def openForReading (t : FileTree) (path : String) : Except IoError Source :=
  match t.locate path.toList with
  | .error e => .error e
  | .ok (_, none) => .error .notFound
  | .ok (_, some .directory) => .ok .directory
  | .ok (_, some (.file data)) =>
    if endsInSlash path.toList then .error .notDirectory else .ok (.bytes data)

def readFile (t : FileTree) (path : String) : Except IoError Bytes :=
  (t.openForReading path).bind Source.read

/-- Opens a path that ends in a slash for writing: it fails, at the latest because nothing but a
directory could stand there. -/
def refuseSlash (t : FileTree) (path : List Char) : IoError :=
  match t.walk (t.origin path) (pathNames path).dropLast with
  | .error e => e
  | .ok (_, some .directory) => .isDirectory
  | .ok (_, some (.file _)) => .notDirectory
  | .ok (_, none) => .notFound

/-- Opens a path for writing: the tree with the file made, or emptied unless it is appended to, and
the place of the file. -/
def openForWriting (t : FileTree) (path : String) (append : Bool) :
    Except IoError (FileTree × Place) :=
  match pathFault? path.toList with
  | some e => .error e
  | none =>
    if endsInSlash path.toList then .error (t.refuseSlash path.toList)
    else match t.locate path.toList with
      | .error e => .error e
      | .ok (_, some .directory) => .error .isDirectory
      | .ok (place, some (.file _)) =>
        .ok (if append then t else t.put place (.file []), place)
      | .ok (place, none) => .ok (t.put place (.file []), place)

end FileTree

/-! ## 4. Views -/

/-- The files as a command sees them that is running. -/
structure View where
  files : FileTree
  /-- The place of the file that its output goes to. -/
  target : Option Place := none

namespace View

open FileTree (Source)

/-- The path leads to the file that the output goes to. -/
def isTarget (v : View) (path : String) : Bool :=
  match v.target, v.files.locate path.toList with
  | some place, .ok (found, _) => found == place
  | _, _ => false

/-- A source as that of a file that grows with the output. -/
def growing : Source → Source
  | .bytes data => .target data
  | source => source

/-- What a file gives that is opened for reading before anything is written. -/
def openForReading (v : View) (path : String) : Except IoError Source :=
  (v.files.openForReading path).map fun source =>
    if v.isTarget path then growing source else source

end View

namespace FileTree

/-! ## 5. Making directories -/

/-- The names of a path as its owner reads them: a dot counts only at the start. -/
def ownNames (path : List Char) : List String :=
  match pathNames path with
  | [] => []
  | name :: rest =>
    let rest := rest.filter (· != ".")
    if name = "." && isAbsolute path then rest else name :: rest

/-- Makes the directories that the names lead to. `done` names are known to be there. -/
def makeFrom (t : FileTree) (base : Place) (names : List String) (last : Nat) : List Nat →
    FileTree × Option IoError
  | [] => (t, none)
  | n :: ns =>
    match t.walk base (names.take n) with
    | .error e => (t, some e)
    | .ok (_, some .directory) => makeFrom t base names last ns
    | .ok (_, some (.file _)) => (t, some (if n = last then .alreadyExists else .notDirectory))
    | .ok (place, none) => makeFrom (t.put place .directory) base names last ns

/-- Makes the directories above a path that are missing. -/
def makeParents (t : FileTree) (path : List Char) : FileTree × Option IoError :=
  let parents := (ownNames path).dropLast
  let fault :=
    if parents.any (·.toList.contains '\x00') then some IoError.nulInPath
    else if maxPath < byteLength ("/".intercalate parents).toList then some .nameTooLong
    else none
  match fault with
  | some e => (t, some e)
  | none =>
    t.makeFrom (t.origin path) parents parents.length ((List.range parents.length).map (· + 1))

end FileTree
end LineShell
