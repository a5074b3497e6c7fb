import LineShell.Text.Number

/-!
# The arguments of the program

`parseArguments` reads them from left to right. Of several modes the last one counts; options may
stand before and after the line.
-/

namespace LineShell

/-- What the program does. -/
inductive Mode
  /-- Runs the line of the arguments, or the lines of the input. -/
  | run
  /-- Shows the segments of a line. -/
  | parse (line : String)
  /-- Shows what there is to complete at a cursor. -/
  | complete (cursor : Nat) (line : String)
  | dumpConfig
  | help
  deriving DecidableEq, Repr

/-- The arguments. -/
structure Arguments where
  /-- The overlay file asked for. -/
  config : Option String := none
  verbose : Bool := false
  /-- Whether a report is shown after each line. -/
  json : Bool := false
  mode : Mode := .run
  line : Option String := none
  deriving DecidableEq, Repr

/-- What is wrong with the arguments. -/
inductive ArgumentError
  | missingPath
  | missingLine
  | missingCursor
  | invalidCursor (text : String)
  | unknownOption (text : String)
  | secondLine
  deriving DecidableEq, Repr

/-- The text of the error. -/
def ArgumentError.message : ArgumentError → String
  | missingPath => "--config needs a path"
  | missingLine => "--parse needs a line"
  | missingCursor => "--complete needs a cursor and a line"
  | invalidCursor text => "invalid cursor '" ++ text ++ "'"
  | unknownOption text => "unknown option '" ++ text ++ "'"
  | secondLine => "only one LINE may be given; quote it"

/-- How the program is to be called. -/
def usage : String :=
  "usage: linechain [--config PATH] [--verbose] [--json] [LINE]\n" ++
  "       linechain [--config PATH] --parse LINE\n" ++
  "       linechain [--config PATH] --complete CURSOR LINE\n" ++
  "       linechain [--config PATH] --dump-config"

/-- The largest cursor, which takes 64 bits. -/
def maxCursor : Nat := Nat.pow 2 64 - 1

/-- Reads the arguments that come after those of `a`. -/
def parseFrom (a : Arguments) : List String → Except ArgumentError Arguments
  | [] => .ok a
  | arg :: rest =>
    if arg = "--config" then
      match rest with
      | path :: rest => parseFrom { a with config := some path } rest
      | [] => .error .missingPath
    else if arg = "--verbose" ∨ arg = "-v" then parseFrom { a with verbose := true } rest
    else if arg = "--json" then parseFrom { a with json := true } rest
    else if arg = "--parse" then
      match rest with
      | line :: rest => parseFrom { a with mode := .parse line } rest
      | [] => .error .missingLine
    else if arg = "--complete" then
      match rest with
      | [] => .error .missingCursor
      | cursor :: rest =>
        match readNatural maxCursor cursor.toList, rest with
        | .error _, _ => .error (.invalidCursor cursor)
        | .ok n, line :: rest => parseFrom { a with mode := .complete n line } rest
        | .ok _, [] => .error .missingCursor
    else if arg = "--dump-config" then parseFrom { a with mode := .dumpConfig } rest
    else if arg = "--help" ∨ arg = "-h" then parseFrom { a with mode := .help } rest
    else if ['-', '-'].isPrefixOf arg.toList then .error (.unknownOption arg)
    else if a.line.isSome then .error .secondLine
    else parseFrom { a with line := some arg } rest

/-- Reads the arguments. -/
def parseArguments (args : List String) : Except ArgumentError Arguments := parseFrom {} args

end LineShell
