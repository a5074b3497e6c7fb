import LineShell.Dictionary
import LineShell.Operator
import LineShell.Text.Character

/-!
# Configurations: what a shell knows and how it reads lines

The operators and commands are given by name, so a configuration can hold names that mean nothing.
These are left out with a warning: `ConfigWarning` lists the ways, and
`Config.activeOperators` does it for the operators.
-/

namespace LineShell

/-! ## 1. Configurations -/

/-- How lines are read and what is recorded. -/
structure Settings where
  /-- Whether `{}` and `()` group. -/
  brackets : Bool := true
  /-- The name that opens every error message. -/
  label : String := "linechain"
  logLevel : String := "warn"
  /-- The file for the history of lines; with nothing but blanks there is none. -/
  historyFile : String := ""
  deriving DecidableEq, Repr

/-- A configuration. The values given here are the ones in force without any other. -/
structure Config where
  settings : Settings := {}
  /-- The literals of the operators that end a segment. -/
  operators : List String := [";", "|", ">", ">>", "<", "&&", "||"]
  /-- The names of the built-in commands to offer. -/
  commands : List String := ["cat", "echo", "false", "grep", "status", "true", "wc"]
  /-- Further names, each with the command it stands for. -/
  aliases : Dictionary String := .ofPairs [("print", "echo")]
  deriving DecidableEq, Repr

/-- What is left out of a configuration. -/
inductive ConfigWarning
  | unknownCommand (name : String)
  | unknownTarget (name target : String)
  | unknownOperator (literal : String)
  deriving DecidableEq, Repr

def ConfigWarning.message : ConfigWarning → String
  | unknownCommand name => "ignoring unknown command '" ++ name ++ "' in configuration"
  | unknownTarget name target =>
    "ignoring alias '" ++ name ++ "': '" ++ target ++ "' is not a registered command"
  | unknownOperator literal => "ignoring unknown operator '" ++ literal ++ "' in configuration"

/-! ## 2. Operators -/

/-- The operators of the literals, each once, after those already `known`. -/
def operatorsOf : List Operator → List String → List Operator
  | known, [] => known
  | known, s :: rest =>
    match Operator.ofLiteral? s with
    | some op => operatorsOf (if known.contains op then known else known ++ [op]) rest
    | none => operatorsOf known rest

/-- The operators in force, in the order of the configuration. -/
def Config.activeOperators (c : Config) : List Operator := operatorsOf [] c.operators

/-- One warning for each literal that is no operator. -/
def Config.operatorWarnings (c : Config) : List ConfigWarning :=
  (c.operators.filter fun s => (Operator.ofLiteral? s).isNone).map .unknownOperator

/-! ## 3. The history file -/

/-- The path with a leading tilde, alone or before a slash, replaced by the home directory. -/
def expandTilde (home : String) (path : String) : String :=
  match path.toList with
  | ['~'] => home
  | '~' :: '/' :: rest => home ++ String.ofList ('/' :: rest)
  | _ => path

/-- The path of the history file, if there is to be one. -/
def Settings.historyPath? (s : Settings) (home : String) : Option String :=
  let raw := trimBlanks s.historyFile.toList
  if raw.isEmpty then none else some (expandTilde home (String.ofList raw))

end LineShell
