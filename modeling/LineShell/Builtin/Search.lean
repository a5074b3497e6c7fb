import LineShell.Command
import LineShell.FileTree.Path
import LineShell.Text.Character

/-!
# Searching: the command `grep`

Selects the lines of its inputs that hold a fixed text, with `-v` those that do not, with `-i`
without regard to case, and with `-c` only counts them. The first operand is the text, the others
name files; without any the input is searched. A line that is not UTF-8 is a fault; the lines
selected before it have been written by then.

Every selected line is written before the next one is read. A file that the output itself goes to
grows with every selected line, and its search (`LineFilter.scanTarget`) may have no end.
-/

namespace LineShell

open FileTree (Source)

/-- One text stands somewhere in the other. -/
def occursIn (part : List Char) : List Char → Bool
  | [] => part.isEmpty
  | c :: cs => part.isPrefixOf (c :: cs) || occursIn part cs

/-- Which lines are selected. -/
structure LineFilter where
  pattern : List Char
  invert : Bool := false
  ignoreCase : Bool := false

namespace LineFilter

def hits (f : LineFilter) (line : List Char) : Bool :=
  if f.ignoreCase then occursIn (lowercase f.pattern) (lowercase line)
  else occursIn f.pattern line

def selects (f : LineFilter) (line : String) : Bool := f.hits line.toList != f.invert

/-- The selected lines of one input, and the fault that reading it ended with. -/
def scan (f : LineFilter) (data : Bytes) : List String × Option CommandFault :=
  let (lines, bad) := Bytes.linesUntilBad (Bytes.pieces data)
  (lines.filter f.selects, if bad then some (.stream .notUtf8) else none)

end LineFilter

/-- The text of lines, each with a newline. -/
def linesText (lines : List String) : Bytes := lines.flatMap fun l => Bytes.utf8 l ++ [10]

namespace LineFilter

/-- The selected lines of the file that they are written to, of which `unread` is left, and the fault
that reading it ended with. Without a result the search has no end. -/
def scanTarget (f : LineFilter) (unread : Bytes) : Option (List String × Option CommandFault) :=
  match unread with
  | [] => some ([], none)
  | b :: bs =>
    let (piece, rest) := Bytes.splitLine (b :: bs)
    match Bytes.ofUtf8? (Bytes.stripLineEnd piece) with
    | none => some ([], some (.stream .notUtf8))
    | some line =>
      if f.selects line then do
        let (lines, fault) ← f |>.scanTarget (rest ++ linesText [line])
        some (line :: lines, fault)
      else f |>.scanTarget rest
partial_fixpoint

/-- The selected lines of one source, where the lines `found` were selected before. They have been
written by then if lines are printed. -/
def scanSource (f : LineFilter) (prints : Bool) (found : List String) :
    Source → Option (List String × Option CommandFault)
  | .bytes data => some (f.scan data)
  | .target before =>
    if prints then f.scanTarget (before ++ linesText found) else some (f.scan before)
  | .directory => some ([], some (.stream .isDirectory))

/-- The selected lines of all inputs up to the first fault, after the lines `found`. -/
def scanAll (f : LineFilter) (prints : Bool) (found : List String) :
    List (Except CommandFault Source) → Option (List String × Option CommandFault)
  | [] => some (found, none)
  | .error e :: _ => some (found, some e)
  | .ok source :: rest =>
    match f.scanSource prints found source with
    | none => none
    | some (lines, some e) => some (found ++ lines, some e)
    | some (lines, none) => scanAll f prints (found ++ lines) rest

end LineFilter

/-- The inputs that a search opens. -/
def searchInputs (v : View) (stdin : Source) (names : List String) :
    List (Except CommandFault Source) :=
  if names.isEmpty then [.ok stdin]
  else names.map fun name => (v.openForReading name).mapError (.cannotOpen name)

/-- The code of a search that selected `n` lines. -/
def searchCode (n : Nat) : ExitCode := if 0 < n then 0 else 1

/-- The command `grep`. -/
def searchLines (v : View) (stdin : Source) (call : Call) : Option Emission :=
  match call.operands with
  | [] => some (.fault .missingPattern)
  | pattern :: names =>
    let f : LineFilter := ⟨pattern.toList, call.hasFlag "-v", call.hasFlag "-i"⟩
    let countOnly := call.hasFlag "-c"
    match f.scanAll (!countOnly) [] (searchInputs v stdin names) with
    | none => none
    | some (lines, fault) =>
      let shown := if countOnly then [] else linesText lines
      match fault with
      | some e => some ⟨shown, .error e⟩
      | none =>
        let total := if countOnly then Bytes.utf8 (toString lines.length ++ "\n") else []
        some ⟨shown ++ total, .ok (searchCode lines.length)⟩

end LineShell
