import LineShell.Text.Bytes

/-!
# File trees: directories and the contents of files

A `FileTree` says what stands at each place and which directory paths start from. Places are lists of
names from the root, so that two paths to one file meet in one place.

* `IoError` lists what can go wrong with files and streams;
* `find?` reads the tree, `put` changes one place of it, and `find?_put` ties the two;
* `append` adds bytes to a file;
* `filesBelow` lists the files under the directory that paths start from.
-/

namespace LineShell

/-- Why a file or stream operation failed. -/
inductive IoError
  | notFound
  | alreadyExists
  | notDirectory
  | isDirectory
  | nameTooLong
  /-- A path holds the character NUL, which no name can. -/
  | nulInPath
  | notUtf8
  | brokenPipe
  deriving DecidableEq, Repr

/-- The text of the error; those of the system come with its number. -/
def IoError.message : IoError → String
  | notFound => "No such file or directory (os error 2)"
  | alreadyExists => "File exists (os error 17)"
  | notDirectory => "Not a directory (os error 20)"
  | isDirectory => "Is a directory (os error 21)"
  | nameTooLong => "File name too long (os error 36)"
  | nulInPath => "file name contained an unexpected NUL byte"
  | notUtf8 => "stream did not contain valid UTF-8"
  | brokenPipe => "broken pipe"

/-- The names that lead from the root to a file or directory. -/
abbrev Place := List String

/-- What stands at a place. -/
inductive Entry
  | file (data : Bytes)
  | directory
  deriving DecidableEq, Repr

/-- The files and directories, and the directory that relative paths start from. -/
structure FileTree where
  cwd : Place := []
  entries : List (Place × Entry) := []
  deriving DecidableEq, Repr

namespace FileTree

/-! ## 1. Reading and changing -/

/-- The entry at a place of a list of entries. -/
def lookup (place : Place) : List (Place × Entry) → Option Entry
  | [] => none
  | (p, e) :: rest => if p = place then some e else lookup place rest

/-- What stands at a place. The root is always a directory. -/
def find? (t : FileTree) (place : Place) : Option Entry :=
  if place = [] then some .directory else lookup place t.entries

/-- The entries with one place changed, or added at the end. -/
def replace (place : Place) (e : Entry) : List (Place × Entry) → List (Place × Entry)
  | [] => [(place, e)]
  | (p, d) :: rest => if p = place then (p, e) :: rest else (p, d) :: replace place e rest

/-- The tree with one place changed. -/
def put (t : FileTree) (place : Place) (e : Entry) : FileTree :=
  { t with entries := replace place e t.entries }

theorem lookup_replace (place other : Place) (e : Entry) (es : List (Place × Entry)) :
    lookup other (replace place e es) = if other = place then some e else lookup other es := by
  induction es with
  | nil => simp [replace, lookup, eq_comm]
  | cons p es ih => grind [replace, lookup]

/-- Changing a place changes that place and no other. -/
theorem find?_put {t : FileTree} {place : Place} (h : place ≠ []) (e : Entry) (other : Place) :
    (t.put place e).find? other = if other = place then some e else t.find? other := by
  by_cases h' : other = [] <;> simp_all [find?, put, lookup_replace, eq_comm]

/-- The tree with bytes added to the file at a place. -/
def append (t : FileTree) (place : Place) (bytes : Bytes) : FileTree :=
  match t.find? place with
  | some (.file data) => t.put place (.file (data ++ bytes))
  | _ => t

/-! ## 2. Directories -/

/-- The places on the way to a place, from the top down, itself included. -/
def places (place : Place) : List Place := (List.range place.length).map fun n => place.take (n + 1)

/-- The tree with directories where nothing stands on the way to a place. -/
def putDirectories (t : FileTree) (place : Place) : FileTree :=
  (places place).foldl (fun t p => if (t.find? p).isNone then t.put p .directory else t) t

/-- The tree with nothing in it but the directory that paths start from. -/
def emptyAt (cwd : Place) : FileTree := ({ cwd := cwd } : FileTree).putDirectories cwd

/-- The files below the directory that paths start from: their places from there, and contents. -/
def filesBelow (t : FileTree) : List (Place × Bytes) :=
  t.entries.filterMap fun
    | (place, .file data) =>
      if t.cwd.isPrefixOf place then some (place.drop t.cwd.length, data) else none
    | (_, .directory) => none

end FileTree
end LineShell
