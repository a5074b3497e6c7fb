import LineShell.FileTree

/-!
# The world of a run: files, the two output streams, and what was said

The output of commands goes to one stream, messages go to another. What is meant for the log
is kept among the messages, so that the order of both is known: whoever shows the run decides what
becomes of it.

A stream can be closed, which makes every writing of at least one byte fail, or it can fail when it
is flushed.
-/

namespace LineShell

/-- How a stream behaves. -/
inductive StreamMode
  | working
  | closed
  | failingFlush
  deriving DecidableEq, Repr

/-- A stream and what has been written to it. -/
structure Stream where
  mode : StreamMode := .working
  written : Bytes := []
  deriving DecidableEq, Repr

namespace Stream

/-- Whether writing these bytes succeeds. Writing nothing always does. -/
def accepts (mode : StreamMode) (bytes : Bytes) : Bool := mode != .closed || bytes.isEmpty

/-- The stream after a successful writing. -/
def add (s : Stream) (bytes : Bytes) : Stream := { s with written := s.written ++ bytes }

end Stream

/-- Something said in the course of a run. -/
inductive Notice
  /-- Written to the message stream. -/
  | text (s : String)
  /-- A warning for the log. -/
  | warning (message : String)
  /-- For the log, what a part of the program is doing. -/
  | detail (source message : String)
  deriving DecidableEq, Repr

def Notice.isDetail : Notice → Bool
  | detail _ _ => true
  | _ => false

/-- The files, the output stream, and the message stream with what was said so far. -/
structure World where
  files : FileTree := {}
  stdout : Stream := {}
  stderrMode : StreamMode := .working
  notices : List Notice := []
  deriving DecidableEq, Repr

namespace World

def warn (w : World) (message : String) : World :=
  { w with notices := w.notices ++ [.warning message] }

/-- The world after several notices. -/
def note (w : World) (notices : List Notice) : World := { w with notices := w.notices ++ notices }

/-- The world after a line on a message stream that takes everything. -/
def tell (w : World) (line : String) : World :=
  { w with notices := w.notices ++ [.text (line ++ "\n")] }

/-- Writes a line to the message stream; the error says that it took nothing. -/
def say (w : World) (line : String) : Except IoError World :=
  if w.stderrMode == .closed then .error .brokenPipe else .ok (w.tell line)

/-- The world after a text on an output stream that takes everything. -/
def print (w : World) (text : String) : World :=
  { w with stdout := w.stdout.add (Bytes.utf8 text) }

/-- What was written to the message stream. -/
def stderr (w : World) : String :=
  String.join (w.notices.filterMap fun | .text s => some s | _ => none)

def warnings (w : World) : List String :=
  w.notices.filterMap fun | .warning m => some m | _ => none

end World
end LineShell
