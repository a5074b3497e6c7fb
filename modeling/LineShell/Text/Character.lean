import LineShell.Text.CaseTable

/-!
# Characters: blanks and small letters

`isBlank` is the property White_Space; trimming and counting the words of a text are built on it.

`lowercase` maps every character on its own, with two exceptions: the capital I with a dot becomes two
characters, and the capital sigma becomes the final small one where it ends a word.
-/

namespace LineShell

/-! ## 1. Blanks -/

/-- The property White_Space. -/
def isBlank (c : Char) : Bool :=
  let n := c.toNat
  (0x09 ≤ n && n ≤ 0x0D) || n == 0x20 || n == 0x85 || n == 0xA0 || n == 0x1680 ||
    (0x2000 ≤ n && n ≤ 0x200A) || n == 0x2028 || n == 0x2029 || n == 0x202F || n == 0x205F ||
    n == 0x3000

/-- The text without the blanks at its two ends. -/
def trimBlanks (cs : List Char) : List Char :=
  ((cs.dropWhile isBlank).reverse.dropWhile isBlank).reverse

/-- The number of words, which are longest runs of other characters; `inWord` says that a word
reaches up to the start of the text. -/
def countWords : (inWord : Bool) → List Char → Nat
  | _, [] => 0
  | inWord, c :: cs =>
    if isBlank c then countWords false cs
    else (if inWord then 0 else 1) + countWords true cs

/-! ## 2. Small letters -/

/-- The number lies in one of the ranges. -/
def inRanges (ranges : List (Nat × Nat)) (n : Nat) : Bool :=
  ranges.any fun r => r.1 ≤ n && n ≤ r.2

/-- The property Cased. -/
def isCased (c : Char) : Bool := inRanges casedRanges c.toNat

/-- The property Case_Ignorable. -/
def isCaseIgnorable (c : Char) : Bool := inRanges caseIgnorableRanges c.toNat

/-- The small letters for one character, whatever stands around it. -/
def lowerChar (c : Char) : List Char :=
  if c = '\u0130' then ['i', '\u0307']
  else
    let n := c.toNat
    match lowerRuns.find? fun r => r.first ≤ n && n ≤ r.last && (n - r.first) % r.step == 0 with
    | some r => [Char.ofNat (n + r.shift).toNat]
    | none => [c]

/-- Past the characters that case rules overlook comes a letter with case. -/
def reachesCased (cs : List Char) : Bool :=
  match cs.dropWhile isCaseIgnorable with
  | c :: _ => isCased c
  | [] => false

/-- The small sigma between the characters `before`, the nearest first, and `after`: final if a
letter comes before and none after. -/
def lowerSigma (before after : List Char) : Char :=
  if reachesCased before && !reachesCased after then '\u03c2' else '\u03c3'

/-- The small letters of a text that stands after the characters `before`, the nearest first. -/
def lowerAfter : List Char → List Char → List Char
  | _, [] => []
  | before, c :: cs =>
    (if c = '\u03a3' then [lowerSigma before cs] else lowerChar c) ++ lowerAfter (c :: before) cs

/-- The text in small letters. -/
def lowercase (cs : List Char) : List Char := lowerAfter [] cs

end LineShell
