import LineShell.Builtin
import LineShell.Chain.Build
import LineShell.Config

/-!
# The registry: which command a name runs

* `Registry.register` puts a built-in command under a name, with a handle of its own;
* `Registry.link` puts the handle of another name under a name, so that both share it;
* `Registry.ofConfig` makes the registry of a configuration. An alias stands for a command that is
  enabled by name, never for another alias;
* `Registry.suggest` lists the names close to an unknown one, by `editDistance`.
-/

namespace LineShell

/-! ## 1. Edit distance

The least number of single-character insertions, deletions and replacements that turn one text into
another. The table of the distances between the starts of the two texts is filled row by row; a row
holds the distances from one start of the first text to every start of the second. -/

/-- The rest of a row, for the next character `c` of the first text. `diagonal` and the list are the
cells of the row above, `left` is the cell just filled. -/
def nextCells (c : Char) : Nat → Nat → List Char → List Nat → List Nat
  | diagonal, left, d :: ds, above :: cells =>
    let cell := if c = d then diagonal else 1 + min (min diagonal above) left
    cell :: nextCells c above cell ds cells
  | _, _, _, _ => []

/-- The row below `row`. -/
def nextRow (b : List Char) (row : List Nat) (c : Char) : List Nat :=
  match row with
  | [] => []
  | first :: cells => (first + 1) :: nextCells c first (first + 1) b cells

/-- The edit distance of two texts. -/
def editDistance (a b : List Char) : Nat :=
  (a.foldl (nextRow b) (List.range (b.length + 1))).getLastD 0

/-! ## 2. Names -/

/-- A registered command. Two handles are the same only if one was made from the other. -/
structure Handle where
  serial : Nat
  builtin : Builtin
  deriving DecidableEq, Repr

/-- The commands by name. -/
structure Registry where
  commands : Dictionary Handle := .empty
  /-- How many handles have been made. -/
  issued : Nat := 0
  deriving DecidableEq, Repr

namespace Registry

def resolve (r : Registry) (name : String) : Option Handle := r.commands.get? name

def names (r : Registry) : List String := r.commands.names

/-- Puts a new handle for a command under a name. -/
def register (r : Registry) (name : String) (b : Builtin) : Registry :=
  { commands := r.commands.insert name ⟨r.issued, b⟩, issued := r.issued + 1 }

/-- Puts a handle that is there already under a name. -/
def link (r : Registry) (name : String) (h : Handle) : Registry :=
  { r with commands := r.commands.insert name h }

/-! ## 3. Suggestions -/

/-- The largest distance at which a name is suggested. -/
def closeDistance : Nat := 2

/-- The order of suggestions: the nearer first, equally near ones by name. -/
def nearer (a b : Nat × String) : Bool := a.1 < b.1 || (a.1 == b.1 && a.2 ≤ b.2)

/-- The names close to a given one, the nearest first. -/
def suggest (r : Registry) (name : String) : List String :=
  let candidates := r.names.map fun n => (editDistance name.toList n.toList, n)
  ((candidates.filter (·.1 ≤ closeDistance)).mergeSort nearer).map (·.2)

/-- The registry as a resolver of command names. -/
def resolver (r : Registry) : Resolver Handle := { resolve := r.resolve, suggest := r.suggest }

/-! ## 4. From a configuration -/

/-- Registers the enabled commands that exist. -/
def enable (names : List String) : Registry :=
  names.foldl (fun r name => (Builtin.ofName? name).elim r (r.register name)) {}

/-- Links the aliases whose targets are among the enabled commands. -/
def linkAll (r : Registry) (aliases : Dictionary String) : Registry :=
  (aliases.filterMap r.resolve).entries.foldl (fun r p => r.link p.1 p.2) r

def ofConfig (c : Config) : Registry := (enable c.commands).linkAll c.aliases

/-- What of the configuration the registry leaves out: the commands first, then the aliases. -/
def warnings (c : Config) : List ConfigWarning :=
  (c.commands.filter fun name => (Builtin.ofName? name).isNone).map .unknownCommand ++
    (c.aliases.filter fun p => ((enable c.commands).resolve p.2).isNone).entries.map fun p =>
      .unknownTarget p.1 p.2

end Registry
end LineShell
