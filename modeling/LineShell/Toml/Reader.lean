import LineShell.Toml.Quoted
import LineShell.Toml.Table

/-!
# Reading a configuration text

`read?` gives the table that a text denotes, or nothing if the text is malformed anywhere. A text is
a list of statements, one a line: a header `[a.b]` or `[[a.b]]` opens a table, `key = value` adds to
the table that is open. Arrays may stretch over several lines; tables in braces may not.

Keys have fewer than `maxKeys` parts, and values are nested fewer than `maxKeys` levels deep.
-/

namespace LineShell.Toml

/-! ## 1. Between the words -/

/-- Blanks within a line. -/
def isGap (c : Char) : Bool := c == ' ' || c == '\t'

/-- The text after the blanks at its start. -/
def skipGap (cs : List Char) : List Char := cs.dropWhile isGap

/-- The text after the comment at its start, if there is one. -/
def skipComment : List Char → List Char
  | '#' :: rest => rest.dropWhile isPlain
  | cs => cs

/-- What follows the rest of a line on which nothing but a comment may stand. -/
def afterLine? (cs : List Char) : Option (List Char) :=
  match skipComment (skipGap cs) with
  | [] => some []
  | '\n' :: rest => some rest
  | _ => none

/-- The text after the blanks, line ends and comments at its start. -/
def skipFiller : (inComment : Bool) → List Char → List Char
  | _, [] => []
  | false, c :: cs =>
    if isGap c || c == '\n' then skipFiller false cs
    else if c == '#' then skipFiller true cs
    else c :: cs
  | true, c :: cs =>
    if c == '\n' then skipFiller false cs
    else if isPlain c then skipFiller true cs
    else c :: cs

/-! ## 2. Keys -/

/-- The bound on the parts of a key and on the depth of a value. -/
def maxKeys : Nat := 80

/-- Reads one part of a key. -/
def simpleKey? (cs : List Char) : Option (String × List Char) :=
  match cs with
  | '"' :: _ => quotedKey? cs
  | '\'' :: _ => quotedKey? cs
  | cs =>
    match cs.span isBareKey with
    | ([], _) => none
    | (key, rest) => some (String.ofList key, rest)

/-- Reads a key of at most `parts` parts and the blanks around them. -/
def keyPath? : (parts : Nat) → List Char → Option (KeyPath × List Char)
  | 0, _ => none
  | parts + 1, cs =>
    match simpleKey? (skipGap cs) with
    | none => none
    | some (key, rest) =>
      match skipGap rest with
      | '.' :: rest =>
        (keyPath? parts rest).map fun (path, rest) =>
          ({ path with above := key :: path.above }, rest)
      | rest => some ({ last := key }, rest)

/-- Reads a key and the blanks around it. -/
def key? (cs : List Char) : Option (KeyPath × List Char) := keyPath? (maxKeys - 1) cs

/-! ## 3. Values -/

/-- The characters of values without quotes and brackets. -/
def isScalarChar (c : Char) : Bool :=
  c.isAlphanum || c == '+' || c == '-' || c == '_' || c == '.' || c == ':'

/-- The run of characters that a value without quotes and brackets takes. A blank belongs to it only
between a date and a time. -/
def scalarRun (cs : List Char) : List Char × List Char :=
  let (run, rest) := cs.span isScalarChar
  match rest with
  | ' ' :: rest' =>
    match date? run, rest'.span isScalarChar with
    | some (_, []), (c :: time, rest'') => (run ++ ' ' :: c :: time, rest'')
    | _, _ => (run, rest)
  | _ => (run, rest)

/-- Reads a value that holds no other values. -/
def atom? (cs : List Char) : Option (Value × List Char) :=
  match cs with
  | '"' :: _ => (quoted? cs).map fun (s, rest) => (.string s, rest)
  | '\'' :: _ => (quoted? cs).map fun (s, rest) => (.string s, rest)
  | cs =>
    let (run, rest) := scalarRun cs
    (scalar? run).map (·, rest)

/-- Reads the items of an array and the bracket after them. `item` reads one; each takes at least a
character, so the length of the text is fuel enough. -/
def items? (item : List Char → Option (Value × List Char)) :
    (fuel : Nat) → List Char → Option (List Value × List Char)
  | 0, _ => none
  | fuel + 1, cs =>
    match skipFiller false cs with
    | ']' :: rest => some ([], rest)
    | cs =>
      match item cs with
      | none => none
      | some (v, rest) =>
        match skipFiller false rest with
        | ',' :: rest => (items? item fuel rest).map fun (vs, rest) => (v :: vs, rest)
        | ']' :: rest => some ([v], rest)
        | _ => none

/-- Reads the keys and values of a table in braces, and the brace after them. -/
def pairs? (item : List Char → Option (Value × List Char)) :
    (fuel : Nat) → Fields → List Char → Option (Fields × List Char)
  | 0, _, _ => none
  | fuel + 1, fields, cs =>
    match key? cs with
    | some (path, '=' :: rest) =>
      match item (skipGap rest) with
      | none => none
      | some (v, rest) =>
        match fields.assign path v, skipGap rest with
        | some fields, ',' :: rest => pairs? item fuel fields rest
        | some fields, '}' :: rest => some (fields, rest)
        | _, _ => none
    | _ => none

/-- Reads the inside of a table in braces. -/
def inlineTable? (item : List Char → Option (Value × List Char)) (cs : List Char) :
    Option (Value × List Char) :=
  match skipGap cs with
  | '}' :: rest => some (.table [], rest)
  | cs => (pairs? item (cs.length + 1) [] cs).map fun (fields, rest) =>
    (.table (finishFields fields), rest)

/-- Reads a value that nests at most `depth` deep. -/
def value? : (depth : Nat) → List Char → Option (Value × List Char)
  | 0, cs => atom? cs
  | depth + 1, '[' :: rest =>
    (items? (value? depth) (rest.length + 1) rest).map fun (vs, rest) => (.array vs, rest)
  | depth + 1, '{' :: rest => inlineTable? (value? depth) rest
  | _ + 1, cs => atom? cs

/-! ## 4. Statements -/

/-- A text read so far: its tables, and the path of the one that is open. -/
structure Draft where
  root : Fields := []
  here : List String := []

/-- Reads one statement. -/
def statement? (d : Draft) (cs : List Char) : Option (Draft × List Char) :=
  match cs with
  | '[' :: '[' :: rest =>
    match key? rest with
    | some (path, ']' :: ']' :: rest) =>
      (d.root.openElement path).map fun root => (⟨root, path.keys⟩, rest)
    | _ => none
  | '[' :: rest =>
    match key? rest with
    | some (path, ']' :: rest) =>
      (d.root.openTable path).map fun root => (⟨root, path.keys⟩, rest)
    | _ => none
  | cs =>
    match key? cs with
    | some (path, '=' :: rest) =>
      match value? (maxKeys - 1) (skipGap rest) with
      | some (v, rest) =>
        (d.root.assignIn d.here path v).map fun root => ({ d with root := root }, rest)
      | none => none
    | _ => none

/-- Reads the statements of a text, each up to the end of its line. Every line takes at least a
character, so the length of the text is fuel enough. -/
def statements? : (fuel : Nat) → Draft → List Char → Option Fields
  | 0, _, _ => none
  | fuel + 1, d, cs =>
    match skipGap cs with
    | [] => some d.root
    | '#' :: rest => (afterLine? ('#' :: rest)).bind (statements? fuel d)
    | '\n' :: rest => statements? fuel d rest
    | cs =>
      match statement? d cs with
      | some (d, rest) => (afterLine? rest).bind (statements? fuel d)
      | none => none

/-! ## 5. Texts -/

/-- The text with single newlines for line ends. -/
def joinLineEnds : List Char → List Char
  | '\r' :: '\n' :: rest => '\n' :: joinLineEnds rest
  | c :: rest => c :: joinLineEnds rest
  | [] => []

/-- The text without the byte order mark at its start. -/
def skipMark : List Char → List Char
  | '\uFEFF' :: rest => rest
  | cs => cs

/-- **Reads a text**: the fields of the table that it denotes. -/
def read? (text : String) : Option (List (String × Value)) :=
  let cs := joinLineEnds (skipMark text.toList)
  (statements? (cs.length + 1) {} cs).map finishFields

end LineShell.Toml
