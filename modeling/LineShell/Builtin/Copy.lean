import LineShell.Command
import LineShell.FileTree.Path

/-!
# Copying: `cat` and `echo`

What is copied is written piece by piece. A file that the output itself goes to grows with every
piece, so copying it comes to an end only if there is nothing in it (`Bytes.copyTarget_eq`).
-/

namespace LineShell

open FileTree (Source)

/-! ## 1. Copying a source -/

/-- How many bytes are copied at a time. -/
def bufferSize : Nat := 8192

/-- Copies the file that the output goes to, of which `unread` is left: the bytes that are written
become unread in their turn. Without a result the copying has no end. -/
def Bytes.copyTarget (unread : Bytes) : Option Bytes :=
  if unread.isEmpty then some []
  else do
    let chunk := unread.take bufferSize
    let left : Bytes := unread.drop bufferSize ++ chunk
    let more ← left |>.copyTarget
    some (chunk ++ more)
partial_fixpoint

/-- What copying a source to its end writes, after the bytes `written`; the error is one of
reading. -/
def copySource (written : Bytes) : Source → Option (Except IoError Bytes)
  | .target before => (Bytes.copyTarget (before ++ written)).map .ok
  | source => some source.read

/-- What is left of a source that was copied to its end. Of the file that the output goes to nothing
has been read, because the copying of anything has no end. -/
def drained : Source → Source
  | .bytes _ => .bytes []
  | source => source

/-! ## 2. The commands -/

/-- Copies the operands in order, after the bytes `written`; a hyphen stands for what is left of the
input. -/
def copyEach (v : View) (written : Bytes) : Source → List String → Option Emission
  | _, [] => some ⟨written, .ok 0⟩
  | stdin, "-" :: rest =>
    match copySource written stdin with
    | none => none
    | some (.error e) => some ⟨written, .error (.stream e)⟩
    | some (.ok data) => copyEach v (written ++ data) (drained stdin) rest
  | stdin, name :: rest =>
    match v.openForReading name with
    | .error e => some ⟨written, .error (.cannotOpen name e)⟩
    | .ok source =>
      match copySource written source with
      | none => none
      | some (.error e) => some ⟨written, .error (.stream e)⟩
      | some (.ok data) => copyEach v (written ++ data) stdin rest

/-- The command `cat`: without operands it copies its input. -/
def copyAll (v : View) (stdin : Source) (operands : List String) : Option Emission :=
  copyEach v [] stdin (if operands.isEmpty then ["-"] else operands)

/-- The command `echo`: its arguments with blanks between them and a newline, which `-n` as the first
argument suppresses. -/
def echoWords : List String → Emission
  | "-n" :: words => { output := Bytes.utf8 (" ".intercalate words), ending := .ok 0 }
  | words => { output := Bytes.utf8 (" ".intercalate words ++ "\n"), ending := .ok 0 }

end LineShell
