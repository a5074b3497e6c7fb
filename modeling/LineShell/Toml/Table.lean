import LineShell.Toml.Scalar

/-!
# Tables under construction

A text fills its tables bit by bit: headers open tables, and keys with dots in them reach into tables
below. Which table may be reached how often depends on how it came to be, so every table keeps that
(`Origin`) until the text is read.

* `descend` follows a path, makes the tables that are missing on it, and changes the one it leads to;
* `openTable` and `openElement` are what the two kinds of headers do, `assign` what a key with a
  value does. Each of them refuses to define anything twice.
-/

namespace LineShell.Toml

/-! ## 1. Tables -/

/-- How a table came to be. -/
inductive Origin
  /-- By a header of its own, or as an element of an array of tables. -/
  | header
  /-- By the header of a table below it. -/
  | implied
  /-- By a key with dots in it. -/
  | dotted
  deriving DecidableEq, Repr

/-- What stands under a key of a table under construction. -/
inductive Item
  | value (v : Value)
  | table (origin : Origin) (fields : List (String × Item))
  /-- An array of tables: the finished ones, and the last one, which can still grow. -/
  | tables (done : List (List (String × Item))) (last : List (String × Item))

/-- The fields of a table under construction. -/
abbrev Fields := List (String × Item)

/-- A key with the keys of the tables above it. -/
structure KeyPath where
  above : List String := []
  last : String

def KeyPath.keys (p : KeyPath) : List String := p.above ++ [p.last]

namespace Fields

def get? (key : String) (fields : Fields) : Option Item := (fields.find? (·.1 == key)).map (·.2)

/-- The fields with one item put in place of the one under the same key, or at the end. -/
def put (key : String) (item : Item) : Fields → Fields
  | [] => [(key, item)]
  | (k, i) :: rest => if k = key then (key, item) :: rest else (k, i) :: put key item rest

/-! ## 2. Paths -/

/-- The origin of a table that a path makes on its way. -/
def originOfMissing (byDots : Bool) : Origin := if byDots then .dotted else .implied

/-- Changes the table that a path leads to. `change` gets the origin of that table and its fields;
`origin` is that of the table where the path starts. A path with dots may not enter a table that has
a header of its own, and no path leads through a value. -/
def descend (byDots : Bool) (change : Origin → Fields → Option Fields) :
    (path : List String) → (origin : Origin) → Fields → Option Fields
  | [], origin, fields => change origin fields
  | key :: path, _, fields =>
    match get? key fields with
    | none =>
      (descend byDots change path (originOfMissing byDots) []).map fun below =>
        put key (.table (originOfMissing byDots) below) fields
    | some (.value _) => none
    | some (.table origin below) =>
      if byDots && origin == .header then none
      else (descend byDots change path origin below).map fun below =>
        put key (.table origin below) fields
    | some (.tables done last) =>
      (descend byDots change path .header last).map fun last => put key (.tables done last) fields

/-! ## 3. Statements -/

/-- Opens the table of a header. -/
def openTable (path : KeyPath) (root : Fields) : Option Fields :=
  descend false (fun _ fields =>
    match get? path.last fields with
    | none => some (put path.last (.table .header []) fields)
    | some (.table .implied below) => some (put path.last (.table .header below) fields)
    | some _ => none) path.above .header root

/-- Opens a new element of the array of tables of a header. -/
def openElement (path : KeyPath) (root : Fields) : Option Fields :=
  descend false (fun _ fields =>
    match get? path.last fields with
    | none => some (put path.last (.tables [] []) fields)
    | some (.tables done last) => some (put path.last (.tables (done ++ [last]) []) fields)
    | some _ => none) path.above .header root

/-- Gives a key of a table its value. Tables that the dots of the key make can be reached only so,
and others never. -/
def assign (path : KeyPath) (v : Value) (fields : Fields) : Option Fields :=
  descend true (fun origin fields =>
    if (origin == .dotted) == path.above.isEmpty || (get? path.last fields).isSome then none
    else some (put path.last (.value v) fields)) path.above .header fields

/-- Gives a key its value in the table that `here` leads to. -/
def assignIn (here : List String) (path : KeyPath) (v : Value) (root : Fields) : Option Fields :=
  descend false (fun _ fields => assign path v fields) here .header root

end Fields

/-! ## 4. Finished tables -/

mutual

/-- The value that an item has become. -/
def Item.finish : Item → Value
  | .value v => v
  | .table _ fields => .table (finishFields fields)
  | .tables done last => .array (finishTables done ++ [.table (finishFields last)])

/-- The fields that a table has become. -/
def finishFields : List (String × Item) → List (String × Value)
  | [] => []
  | (key, item) :: rest => (key, item.finish) :: finishFields rest

/-- The values that the elements of an array of tables have become. -/
def finishTables : List (List (String × Item)) → List Value
  | [] => []
  | fields :: rest => .table (finishFields fields) :: finishTables rest

end

end LineShell.Toml
