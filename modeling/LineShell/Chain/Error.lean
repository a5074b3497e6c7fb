import LineShell.Segment

/-!
# Why a line makes no chain

`ChainError` lists the causes. They fall into three kinds, of which each error has exactly one: an
unclosed quotation (`isLexical`), a name that nothing answers to (`isNotFound`), and an operator in
the wrong place or without what it needs (`isStructural`).
-/

namespace LineShell

/-- Why a line cannot be turned into a chain. -/
inductive ChainError
  /-- A segment is not in order, or an operator has no words before it. -/
  | malformed (status : SegmentStatus) (message : String)
  | sinkBeforeSource (sink source : Operator)
  | duplicateRedirection (op : Operator)
  | badArgument (op : Operator) (found : Nat)
  | missingArgument (op : Operator)
  | missingCommand (op : Operator)
  | notFound (name : String) (suggestions : List String)
  deriving DecidableEq, Repr

namespace ChainError

/-- The text of the error; `label` is the name that opens every message. -/
def message (label : String) : ChainError → String
  | malformed _ text => text
  | sinkBeforeSource sink source =>
    label ++ ": syntax error: data sink '" ++ sink.display ++ "' cannot precede data source '" ++
      source.display ++ "'"
  | duplicateRedirection op =>
    label ++ ": syntax error: duplicate redirection '" ++ op.display ++ "'"
  | badArgument op found =>
    label ++ ": syntax error: '" ++ op.display ++ "' expects exactly one argument, found " ++
      toString found
  | missingArgument op =>
    label ++ ": syntax error: '" ++ op.display ++ "' is missing its argument"
  | missingCommand op =>
    label ++ ": syntax error: expected a command after '" ++ op.display ++ "'"
  | notFound name _ => label ++ ": command not found: " ++ name

/-- The line stops inside a quotation. -/
def isLexical : ChainError → Bool
  | malformed .unclosedQuote _ | malformed .unclosedBothQuotes _ => true
  | _ => false

/-- A command name is not known. -/
def isNotFound : ChainError → Bool
  | notFound .. => true
  | _ => false

/-- An operator stands in the wrong place or lacks what it needs. -/
def isStructural (e : ChainError) : Bool := !e.isLexical && !e.isNotFound

/-- Known names that are close to the one not found. -/
def suggestions : ChainError → List String
  | notFound _ names => names
  | _ => []

end ChainError
end LineShell
