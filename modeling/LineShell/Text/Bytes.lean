/-!
# Texts as bytes

Offsets in a line count the bytes of its UTF-8 form, and streams and files hold bytes.

* `byteLength` is the number of bytes a run of characters takes;
* `utf8` and `ofUtf8?` go between a text and its bytes, and `ofUtf8?` refuses what is not UTF-8;
* `ofUtf8Lossy` reads any bytes, with one replacement character for each longest run that begins
  like a character and does not go on like one.
-/

namespace LineShell

/-- The contents of a stream or a file. -/
abbrev Bytes := List UInt8

/-- The number of bytes that the characters take in UTF-8. -/
def byteLength : List Char → Nat
  | [] => 0
  | c :: cs => c.utf8Size + byteLength cs

@[simp] theorem byteLength_nil : byteLength [] = 0 := rfl

@[simp] theorem byteLength_cons (c : Char) (cs : List Char) :
    byteLength (c :: cs) = c.utf8Size + byteLength cs := rfl

@[simp] theorem byteLength_append (xs ys : List Char) :
    byteLength (xs ++ ys) = byteLength xs + byteLength ys := by
  induction xs with
  | nil => simp
  | cons c cs ih => simp [ih, Nat.add_assoc]

@[simp] theorem byteLength_reverse (cs : List Char) : byteLength cs.reverse = byteLength cs := by
  induction cs with
  | nil => rfl
  | cons c cs ih => simp [ih, Nat.add_comm]

namespace Bytes

/-! ## 1. Strict reading -/

def utf8 (s : String) : Bytes := s.toByteArray.data.toList

/-- The text with the given bytes, if they are UTF-8. -/
def ofUtf8? (bs : Bytes) : Option String := String.fromUTF8? ⟨bs.toArray⟩

/-! ## 2. Lossy reading -/

/-- What may follow a leading byte: how many bytes in all, and the range of the second one. -/
structure Lead where
  size : Nat
  low : UInt8
  high : UInt8

/-- The leading bytes of characters that take more than one byte. The narrow ranges of the second
byte shut out overlong forms, surrogates and numbers past the last code point. -/
def lead? (b : UInt8) : Option Lead :=
  if 0xC2 ≤ b && b ≤ 0xDF then some ⟨2, 0x80, 0xBF⟩
  else if b == 0xE0 then some ⟨3, 0xA0, 0xBF⟩
  else if b == 0xED then some ⟨3, 0x80, 0x9F⟩
  else if 0xE1 ≤ b && b ≤ 0xEF then some ⟨3, 0x80, 0xBF⟩
  else if b == 0xF0 then some ⟨4, 0x90, 0xBF⟩
  else if b == 0xF4 then some ⟨4, 0x80, 0x8F⟩
  else if 0xF1 ≤ b && b ≤ 0xF3 then some ⟨4, 0x80, 0xBF⟩
  else none

/-- The low six bits that a byte after the first one carries. -/
def tailBits (b : UInt8) : Nat := b.toNat % 64

/-- The bits that a leading byte carries. -/
def leadBits (size : Nat) (b : UInt8) : Nat :=
  if size = 2 then b.toNat % 32 else if size = 3 then b.toNat % 16 else b.toNat % 8

/-- The bytes, as far as they continue a character whose first byte announced them: how many of
`bs` belong to it, and its number if it is complete. -/
def continuation (bits : Nat) : Nat → UInt8 → UInt8 → Bytes → Nat × Option Nat
  | 0, _, _, _ => (0, some bits)
  | _ + 1, _, _, [] => (0, none)
  | n + 1, low, high, b :: bs =>
    if low ≤ b && b ≤ high then
      let (k, code) := continuation (bits * 64 + tailBits b) n 0x80 0xBF bs
      (k + 1, code)
    else (0, none)

/-- The first character of `b :: bs`, and how many of the bytes `bs` it takes. -/
def firstChar (b : UInt8) (bs : Bytes) : Char × Nat :=
  if b < 0x80 then (Char.ofNat b.toNat, 0)
  else match lead? b with
    | none => ('\uFFFD', 0)
    | some l =>
      match continuation (leadBits l.size b) (l.size - 1) l.low l.high bs with
      | (k, some code) => (Char.ofNat code, k)
      | (k, none) => ('\uFFFD', k)

/-- Any bytes as characters. -/
def lossyChars : Bytes → List Char
  | [] => []
  | b :: bs =>
    let (c, k) := firstChar b bs
    c :: lossyChars (bs.drop k)
termination_by bs => bs.length
decreasing_by rw [List.length_drop, List.length_cons]; omega

/-- Any bytes as a text. -/
def ofUtf8Lossy (bs : Bytes) : String :=
  match ofUtf8? bs with
  | some s => s
  | none => String.ofList (lossyChars bs)

/-! ## 3. Lines -/

/-- The bytes up to and including the first newline, and the rest. -/
def splitLine : Bytes → Bytes × Bytes
  | [] => ([], [])
  | b :: bs =>
    if b == 10 then ([b], bs)
    else let (line, rest) := splitLine bs; (b :: line, rest)

theorem splitLine_append (bs : Bytes) : (splitLine bs).1 ++ (splitLine bs).2 = bs := by
  induction bs with
  | nil => rfl
  | cons b bs ih =>
    simp only [splitLine]
    split
    · rfl
    · simp [ih]

theorem splitLine_cons_length (b : UInt8) (bs : Bytes) :
    (splitLine (b :: bs)).2.length ≤ bs.length := by
  have h := congrArg List.length (splitLine_append bs)
  simp only [List.length_append] at h
  simp only [splitLine]
  split
  · simp
  · simp; omega

/-- The bytes cut after each newline. -/
def pieces : Bytes → List Bytes
  | [] => []
  | b :: bs => (splitLine (b :: bs)).1 :: pieces (splitLine (b :: bs)).2
termination_by bs => bs.length
decreasing_by
  have := splitLine_cons_length b bs
  simp; omega

theorem flatten_pieces (bs : Bytes) : (pieces bs).flatten = bs := by
  fun_induction pieces bs with
  | case1 => rfl
  | case2 b bs ih =>
    rw [List.flatten_cons, ih]
    exact splitLine_append (b :: bs)

/-- A line without its end: the newline, and the carriage return before it. A piece that no newline
ends is left as it is. -/
def stripLineEnd (line : Bytes) : Bytes :=
  match line.reverse with
  | 10 :: 13 :: r => r.reverse
  | 10 :: r => r.reverse
  | _ => line

/-- The lines of the bytes, each read as a text, up to the first one that is not UTF-8; the flag
says that there was such a line. -/
def linesUntilBad : List Bytes → List String × Bool
  | [] => ([], false)
  | piece :: rest =>
    match ofUtf8? (stripLineEnd piece) with
    | none => ([], true)
    | some line =>
      let (lines, bad) := linesUntilBad rest
      (line :: lines, bad)

end Bytes
end LineShell
