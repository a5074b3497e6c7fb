import LineShell.Builtin.Copy
import LineShell.Builtin.Search

/-!
# The built-in commands

`Builtin` lists them; `Builtin.run` says what each one writes and how it ends, from its call, its
input and the files it finds. A command changes nothing itself: where its output goes is decided by
who runs it, and the command is told only which of the files that is.
-/

namespace LineShell

/-! ## 1. Counting -/

/-- The counts with the flags that ask for them. -/
def inputCounts (data : Bytes) : List (String × Nat) :=
  [("-l", data.count 10), ("-w", countWords false (Bytes.ofUtf8Lossy data).toList),
    ("-c", data.length)]

/-- The command `wc`: the numbers of newlines, words and bytes of its input, in this order, and with
flags only those that are asked for. Bytes that are no UTF-8 count as characters that are not
blank. -/
def countInput (call : Call) (stdin : FileTree.Source) : Emission :=
  match stdin.read with
  | .error e => .fault (.stream e)
  | .ok data =>
    let everything := !call.hasAnyFlag ["-l", "-w", "-c"]
    let shown := (inputCounts data).filter fun c => everything || call.hasFlag c.1
    ⟨Bytes.utf8 (" ".intercalate (shown.map fun c => toString c.2) ++ "\n"), .ok 0⟩

/-! ## 2. Ending with a code -/

/-- The exit code that a text denotes. -/
def readExitCode (text : String) : Except NumberError ExitCode :=
  (readInteger (Nat.pow 2 31) (Nat.pow 2 31 - 1) text.toList).map Int32.ofInt

/-- The command `status`: ends with the code that its first argument denotes, and without one with
success. -/
def exitWith : List String → Emission
  | [] => .quiet 0
  | text :: _ =>
    match readExitCode text with
    | .ok code => .quiet code
    | .error e => .fault (.badStatus text e)

/-! ## 3. All of them -/

/-- The built-in commands. -/
inductive Builtin
  | cat
  | echo
  | fail
  | grep
  | status
  | succeed
  | wc
  deriving DecidableEq, Repr

namespace Builtin

/-- All of them, in the order of their names. -/
def all : List Builtin := [.cat, .echo, .fail, .grep, .status, .succeed, .wc]

def name : Builtin → String
  | cat => "cat"
  | echo => "echo"
  | fail => "false"
  | grep => "grep"
  | status => "status"
  | succeed => "true"
  | wc => "wc"

def ofName? (s : String) : Option Builtin := all.find? (·.name == s)

/-- **What a command writes and how it ends**, if it does. A command that reads what it writes may go
on for ever. -/
def run (b : Builtin) (v : View) (call : Call) (stdin : FileTree.Source) : Option Emission :=
  match b with
  | cat => copyAll v stdin call.operands
  | echo => some (echoWords call.args)
  | fail => some (.quiet 1)
  | grep => searchLines v stdin call
  | status => some (exitWith call.args)
  | succeed => some (.quiet 0)
  | wc => some (countInput call stdin)

end Builtin
end LineShell
