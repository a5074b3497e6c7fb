import LineShell.Toml.Scalar

/-!
# Quoted strings

Four kinds: basic strings with escapes between double quotes, literal strings between single quotes,
and both over several lines between three quotes. A reader takes the text after the opening quotes
and gives the string with what follows the closing ones. Line ends are single newlines here; the text
has been prepared so.
-/

namespace LineShell.Toml

/-- A character that may stand for itself in a string: a tab, or no control character. -/
def isPlain (c : Char) : Bool := c == '\t' || (0x20 ≤ c.toNat && c.toNat != 0x7F)

/-- The character that a one-letter escape stands for. -/
def shortEscape? : Char → Option Char
  | 'b' => some '\x08'
  | 't' => some '\t'
  | 'n' => some '\n'
  | 'f' => some '\x0c'
  | 'r' => some '\r'
  | '"' => some '"'
  | '\\' => some '\\'
  | _ => none

/-- The character with the number that the hexadecimal digits give. -/
def codePoint? (cs : List Char) : Option Char :=
  match digits? 16 (cs.filter (· != '_')) with
  | some n => if n.isValidChar ∧ cs.all (· != '_') then some (Char.ofNat n) else none
  | none => none

/-- Reads an escape after its backslash. -/
def escape? : List Char → Option (Char × List Char)
  | 'u' :: a :: b :: c :: d :: rest => (codePoint? [a, b, c, d]).map (·, rest)
  | 'U' :: a :: b :: c :: d :: e :: f :: g :: h :: rest =>
    (codePoint? [a, b, c, d, e, f, g, h]).map (·, rest)
  | c :: rest => (shortEscape? c).map (·, rest)
  | [] => none

/-- An escape takes at least one character. -/
theorem length_of_escape? {cs rest : List Char} {c : Char} (h : escape? cs = some (c, rest)) :
    rest.length < cs.length := by
  unfold escape? at h
  split at h
  · obtain ⟨_, _, h⟩ := Option.map_eq_some_iff.1 h; cases h; simp; omega
  · obtain ⟨_, _, h⟩ := Option.map_eq_some_iff.1 h; cases h; simp; omega
  · obtain ⟨_, _, h⟩ := Option.map_eq_some_iff.1 h; cases h; simp
  · simp at h

/-- Reads a literal string of one line. -/
def literal? (cs : List Char) : Option (String × List Char) :=
  match cs.span fun c => isPlain c && c != '\'' with
  | (text, '\'' :: rest) => some (String.ofList text, rest)
  | _ => none

/-- Reads a basic string of one line; `read` is what came before, the last character first. -/
def basic? (read : List Char) (cs : List Char) : Option (String × List Char) :=
  match cs with
  | [] => none
  | '"' :: rest => some (String.ofList read.reverse, rest)
  | '\\' :: rest =>
    match _h : escape? rest with
    | some (c, rest') => basic? (c :: read) rest'
    | none => none
  | c :: rest => if isPlain c then basic? (c :: read) rest else none
termination_by cs.length
decreasing_by
  · have := length_of_escape? _h; simp; omega
  · simp

/-- The number of quotes at the start of a text. -/
def quoteRun (quote : Char) (cs : List Char) : Nat := (cs.takeWhile (· == quote)).length

/-- The end of a string over several lines: three quotes, or up to five, of which the first ones
belong to the string. The string and what follows it. -/
def closeLines (quote : Char) (read cs : List Char) : String × List Char :=
  let n := min (quoteRun quote cs) 5
  (String.ofList (read.reverse ++ List.replicate (n - 3) quote), cs.drop n)

/-- Reads a literal string over several lines. -/
def literalLines? (read : List Char) : List Char → Option (String × List Char)
  | [] => none
  | c :: rest =>
    if 3 ≤ quoteRun '\'' (c :: rest) then some (closeLines '\'' read (c :: rest))
    else if isPlain c || c == '\n' then literalLines? (c :: read) rest
    else none

/-- Past a backslash at the end of a line: what follows the blanks and line ends after it. -/
def afterLineEnd? (cs : List Char) : Option (List Char) :=
  match cs.dropWhile fun c => c == ' ' || c == '\t' with
  | '\n' :: rest => some (rest.dropWhile fun c => c == ' ' || c == '\t' || c == '\n')
  | _ => none

theorem length_dropWhile_le (p : Char → Bool) (cs : List Char) :
    (cs.dropWhile p).length ≤ cs.length := (List.dropWhile_sublist p).length_le

theorem length_of_afterLineEnd? {cs rest : List Char} (h : afterLineEnd? cs = some rest) :
    rest.length < cs.length := by
  unfold afterLineEnd? at h
  split at h
  · rename_i r hr
    have h₁ := length_dropWhile_le (fun c => c == ' ' || c == '\t') cs
    have h₂ := length_dropWhile_le (fun c => c == ' ' || c == '\t' || c == '\n') r
    simp only [Option.some.injEq] at h
    rw [hr] at h₁
    subst h
    simp at h₁
    omega
  · simp at h

/-- Reads a basic string over several lines. -/
def basicLines? (read : List Char) (cs : List Char) : Option (String × List Char) :=
  match cs with
  | [] => none
  | '\\' :: rest =>
    match _h : afterLineEnd? rest with
    | some rest' => basicLines? read rest'
    | none =>
      match _h' : escape? rest with
      | some (c, rest') => basicLines? (c :: read) rest'
      | none => none
  | c :: rest =>
    if 3 ≤ quoteRun '"' (c :: rest) then some (closeLines '"' read (c :: rest))
    else if isPlain c || c == '\n' then basicLines? (c :: read) rest
    else none
termination_by cs.length
decreasing_by
  · have := length_of_afterLineEnd? _h; simp; omega
  · have := length_of_escape? _h'; simp; omega
  · simp

/-- A string over several lines does not begin with the line end after its opening quotes. -/
def skipFirstNewline : List Char → List Char
  | '\n' :: rest => rest
  | cs => cs

/-- Reads a quoted string of any kind. -/
def quoted? : List Char → Option (String × List Char)
  | '"' :: '"' :: '"' :: rest => basicLines? [] (skipFirstNewline rest)
  | '\'' :: '\'' :: '\'' :: rest => literalLines? [] (skipFirstNewline rest)
  | '"' :: rest => basic? [] rest
  | '\'' :: rest => literal? rest
  | _ => none

/-- Reads a quoted string of one line. -/
def quotedKey? : List Char → Option (String × List Char)
  | '"' :: rest => basic? [] rest
  | '\'' :: rest => literal? rest
  | _ => none

end LineShell.Toml
