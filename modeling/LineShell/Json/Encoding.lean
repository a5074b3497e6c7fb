import LineShell.Completion
import LineShell.Json
import LineShell.Report

/-!
# Segments, completion targets and reports as JSON

The documents hold everything there is, under names of their own, in the order given here.
-/

namespace LineShell

open JsonText

/-! ## 1. Names of cases -/

def Operator.tag : Operator → String
  | endOfLine => "eol"
  | semicolon => "semi"
  | pipe => "pipe"
  | writeTo => "redirect_out"
  | appendTo => "append_out"
  | readFrom => "redirect_in"
  | andThen => "and"
  | orElse => "or"

def WordStatus.tag : WordStatus → String
  | plain => "plain"
  | openQuote => "open_quote"
  | openBracket => "open_bracket"

def SegmentStatus.tag : SegmentStatus → String
  | ok => "ok"
  | unclosedQuote => "unclosed_quote"
  | unclosedBothQuotes => "double_unclosed_quote"
  | emptyBeforeOperator => "empty_before_operator"

/-! ## 2. Segments -/

def Word.toJson (w : Word) : JsonText :=
  object [("text", string w.text), ("offset", ofNat w.offset), ("status", string w.status.tag)]

def Segment.toJson (s : Segment) : JsonText :=
  object [("original", string s.typed), ("words", array (s.words.map Word.toJson)),
    ("cursor", ofOption ofNat s.cursor), ("selected_word", ofOption ofNat s.selectedWord),
    ("cursor_in_word", ofNat s.cursorInWord), ("status", string s.status.tag),
    ("error", ofOption string s.error), ("operator", string s.operator.tag)]

def CompletionTarget.toJson (t : CompletionTarget) : JsonText :=
  object [("segment_index", ofNat t.segmentIndex), ("word_index", ofOption ofNat t.wordIndex),
    ("word", string t.word), ("offset", ofNat t.offset), ("segment", t.segment.toJson)]

/-! ## 3. Reports -/

def Input.toJson : Input → JsonText
  | none => object [("kind", string "none")]
  | file path => object [("kind", string "file"), ("path", string path)]
  | piped => object [("kind", string "piped")]

def Output.toJson : Output → JsonText
  | none => object [("kind", string "none")]
  | file path append =>
    object [("kind", string "file"), ("path", string path), ("append", boolean append)]

def Outcome.toJson : Outcome → JsonText
  | ran code => object [("state", string "ran"), ("code", number code.toInt)]
  | skipped => object [("state", string "skipped")]
  | notRun => object [("state", string "not_run")]

def NodeReport.toJson (n : NodeReport) : JsonText :=
  object [("command", string n.command), ("line", string n.line),
    ("operator", string n.operator.tag), ("input", n.input.toJson), ("output", n.output.toJson),
    ("outcome", n.outcome.toJson)]

def Report.toJson (r : Report) : JsonText :=
  object [("nodes", array (r.nodes.map NodeReport.toJson)), ("fault", ofOption string r.fault)]

end LineShell
