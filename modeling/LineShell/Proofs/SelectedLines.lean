import LineShell.Builtin
import LineShell.Proofs.TextLines
import Mathlib.Data.List.Forall2

/-!
# What a search finds

A search reads its input, or else the files that are named. If all of this is text (`ReadsTexts`) it
reads every line of it. The lines it finds are those that its filter selects; it prints them, or
only their number, and its code says whether there are any (`Finds`).

The files are those that a running search sees (`View`). What it reads here does not grow with what
it writes.

* `LineFilter.scanAll_texts`: of texts every line is judged, in order;
* `run_grep`: what a search comes to depends on its operands and on three flags only, wherever they
  stand;
* `finds_of_reads`: so it finds the lines that its filter selects;
* `search_splits`: a search and the same search with `-v` split the lines between them, and `-c`
  changes only how they are shown.
-/

namespace LineShell

open FileTree (Source)
open Bytes (LinesOf utf8)

/-! ## 1. Inputs -/

/-- What a search reads, if it is text: the input, or else the files that are named, in order. -/
inductive ReadsTexts (v : View) (stdin : Source) : List String → List String → Prop
  | input {text : String} (h : stdin = .bytes (utf8 text)) : ReadsTexts v stdin [] [text]
  | named {names texts : List String} (hne : names ≠ [])
      (h : List.Forall₂ (fun name text => v.openForReading name = .ok (.bytes (utf8 text)))
        names texts) : ReadsTexts v stdin names texts

variable {v : View} {stdin : Source} {names texts : List String}

/-- The texts are what a search gets to read. -/
theorem ReadsTexts.searchInputs_eq (h : ReadsTexts v stdin names texts) :
    searchInputs v stdin names = texts.map fun text => .ok (.bytes (utf8 text)) := by
  unfold searchInputs
  cases h with
  | input h =>
    rw [h]
    rfl
  | named hne h =>
    rw [if_neg (by simpa using hne)]
    clear hne
    induction h with
    | nil => rfl
    | cons hname _ ih =>
      rw [List.map_cons, List.map_cons, hname, ih]
      rfl

/-! ## 2. Filters -/

/-- The test for a text in another one is the relation. -/
theorem occursIn_iff {part cs : List Char} : occursIn part cs = true ↔ part <:+: cs := by
  induction cs with
  | nil => rw [occursIn, List.isEmpty_iff, List.infix_nil]
  | cons c cs ih =>
    rw [occursIn, Bool.or_eq_true, List.isPrefixOf_iff_prefix, ih, List.infix_cons_iff]

namespace LineFilter

theorem scan_text (f : LineFilter) {text : String} {lines : List String}
    (h : LinesOf text lines) : f.scan (utf8 text) = (lines.filter f.selects, none) := by
  obtain ⟨lines', h', hread, -⟩ := Bytes.linesUntilBad_utf8 text
  rw [h.unique h', scan, hread]
  rfl

/-- **Of texts every line is judged, in order.** -/
theorem scanAll_texts (f : LineFilter) (prints : Bool) {parts : List (List String)}
    (h : List.Forall₂ LinesOf texts parts) (found : List String) :
    f.scanAll prints found (texts.map fun text => .ok (.bytes (utf8 text))) =
      some (found ++ parts.flatten.filter f.selects, none) := by
  induction h generalizing found with
  | nil => rw [List.flatten_nil, List.filter_nil, List.append_nil, List.map_nil, scanAll]
  | cons hlines _ ih =>
    rw [List.map_cons, scanAll, scanSource, f.scan_text hlines]
    simp only [ih]
    rw [List.flatten_cons, List.filter_append, List.append_assoc]

/-- Inverting a filter exchanges the lines that it selects for the others. -/
theorem selects_invert (pattern : List Char) (ignoreCase : Bool) (line : String) :
    (⟨pattern, true, ignoreCase⟩ : LineFilter).selects line =
      !(⟨pattern, false, ignoreCase⟩ : LineFilter).selects line := by
  simp only [selects, hits]
  cases ignoreCase <;> simp

end LineFilter

/-! ## 3. Calls -/

namespace Call

/-- The filter that a call asks for. -/
def filter (call : Call) (pattern : String) : LineFilter :=
  ⟨pattern.toList, call.hasFlag "-v", call.hasFlag "-i"⟩

/-- The second call has one flag more among its arguments than the first. -/
def Adds (flag : String) (call call' : Call) : Prop :=
  ∃ front back, call.args = front ++ back ∧ call'.args = front ++ flag :: back

variable {flag : String} {call call' : Call}

/-- A flag is no operand. -/
theorem Adds.operands (h : call.Adds flag call') (hflag : isOperand flag = false) :
    call'.operands = call.operands := by
  obtain ⟨front, back, hargs, hargs'⟩ := h
  rw [Call.operands, Call.operands, hargs, hargs', List.filter_append, List.filter_append,
    List.filter_cons_of_neg (by simp [hflag])]

theorem Adds.hasFlag (h : call.Adds flag call') (other : String) :
    call'.hasFlag other = (other == flag || call.hasFlag other) := by
  obtain ⟨front, back, hargs, hargs'⟩ := h
  rw [Call.hasFlag, Call.hasFlag, hargs, hargs']
  grind

/-- How the lines are shown is no matter of the filter. -/
theorem Adds.filter_eq (h : call.Adds "-c" call') (pattern : String) :
    call'.filter pattern = call.filter pattern := by
  rw [Call.filter, Call.filter, h.hasFlag, h.hasFlag]
  simp

/-- With `-v` the other lines are selected. -/
theorem Adds.selects_eq (h : call.Adds "-v" call') (hplain : call.hasFlag "-v" = false)
    (pattern : String) :
    (call'.filter pattern).selects = fun line => !(call.filter pattern).selects line := by
  funext line
  rw [Call.filter, Call.filter, h.hasFlag, h.hasFlag, hplain, ← LineFilter.selects_invert]
  simp

end Call

/-! ## 4. Runs -/

/-- An emission shows the lines that were found: it ends with 0 if there are any and with 1 if not, and
prints each of them on a line of its own, or with `-c` their number. -/
structure Emission.Shows (e : Emission) (call : Call) (found : List String) : Prop where
  code : e.ending = .ok (if found = [] then 1 else 0)
  prints : call.hasFlag "-c" = false →
    Bytes.pieces e.output = found.map fun line => utf8 line ++ [10]
  counts : call.hasFlag "-c" = true → e.output = utf8 (toString found.length ++ "\n")

/-- A search comes to its end, and it shows the lines that were found. -/
def Finds (v : View) (stdin : Source) (call : Call) (found : List String) : Prop :=
  ∃ e, Builtin.grep.run v call stdin = some e ∧ e.Shows call found

/-- What a search writes that found these lines, and how it ends. -/
def shown (call : Call) (found : List String) : Emission :=
  ⟨if call.hasFlag "-c" then utf8 (toString found.length ++ "\n") else linesText found,
    .ok (searchCode found.length)⟩

section Run

variable {call : Call} {pattern : String} {parts : List (List String)}

/-- **What a search of texts comes to.** -/
theorem run_grep (hoperands : call.operands = pattern :: names)
    (hread : ReadsTexts v stdin names texts) (hlines : List.Forall₂ LinesOf texts parts) :
    Builtin.grep.run v call stdin =
      some (shown call (parts.flatten.filter (call.filter pattern).selects)) := by
  show searchLines v stdin call = _
  simp only [searchLines, hoperands, hread.searchInputs_eq]
  rw [← Call.filter, LineFilter.scanAll_texts _ _ hlines, shown]
  cases call.hasFlag "-c" <;> simp

/-- Lines that are printed are cut where they were joined. -/
theorem pieces_linesText {lines : List String} (h : ∀ line ∈ lines, 10 ∉ utf8 line) :
    Bytes.pieces (linesText lines) = lines.map fun line => utf8 line ++ [10] := by
  induction lines with
  | nil => rw [linesText, List.flatMap_nil, Bytes.pieces, List.map_nil]
  | cons line lines ih =>
    obtain ⟨hline, hlines⟩ := List.forall_mem_cons.mp h
    rw [linesText, List.flatMap_cons, List.append_assoc, List.singleton_append,
      Bytes.pieces_ended hline, List.map_cons, ← ih hlines, linesText]

theorem not_mem_newline_of_mem {line : String} (hlines : List.Forall₂ LinesOf texts parts)
    (h : line ∈ parts.flatten) : 10 ∉ utf8 line := by
  induction hlines with
  | nil => cases h
  | cons hpart _ ih =>
    rw [List.flatten_cons, List.mem_append] at h
    exact h.elim (hpart.not_mem_newline line) ih

/-- **A search of texts finds the lines that its filter selects.** -/
theorem finds_of_reads (hoperands : call.operands = pattern :: names)
    (hread : ReadsTexts v stdin names texts) (hlines : List.Forall₂ LinesOf texts parts) :
    Finds v stdin call (parts.flatten.filter (call.filter pattern).selects) := by
  refine ⟨_, run_grep hoperands hread hlines, ?_, fun hcount => ?_, fun hcount => ?_⟩
  · rw [shown, searchCode]
    cases parts.flatten.filter (call.filter pattern).selects <;> simp
  · rw [shown, hcount, if_neg Bool.false_ne_true]
    exact pieces_linesText fun line hline =>
      not_mem_newline_of_mem hlines (List.mem_of_mem_filter hline)
  · rw [shown, hcount, if_pos rfl]

end Run

theorem exists_forall₂_linesOf (texts : List String) : ∃ parts, List.Forall₂ LinesOf texts parts := by
  induction texts with
  | nil => exact ⟨[], .nil⟩
  | cons text texts ih =>
    obtain ⟨lines, hlines, -⟩ := Bytes.linesUntilBad_utf8 text
    obtain ⟨parts, hparts⟩ := ih
    exact ⟨lines :: parts, .cons hlines hparts⟩

/-! ## 5. A search and its inversion -/

/-- **A search and the same search with `-v` split the lines between them.** The lines of the texts
that are read are those that the one finds and those that the other finds, both in order. With `-c`,
which may be added to either, they find the same lines and print the number of them only. -/
theorem search_splits {call : Call} {pattern : String}
    (hoperands : call.operands = pattern :: names) (hplain : call.hasFlag "-v" = false)
    (hread : ReadsTexts v stdin names texts) :
    ∃ (parts : List (List String)) (found rest : List String),
      List.Forall₂ LinesOf texts parts ∧
        found = parts.flatten.filter (call.filter pattern).selects ∧
        rest = (parts.flatten.filter fun line => !(call.filter pattern).selects line) ∧
        found.length + rest.length = parts.flatten.length ∧
        ∀ call', call' = call ∨ call.Adds "-c" call' →
          Finds v stdin call' found ∧
            ∀ call'', call'.Adds "-v" call'' → Finds v stdin call'' rest := by
  obtain ⟨parts, hlines⟩ := exists_forall₂_linesOf texts
  refine ⟨parts, _, _, hlines, rfl, rfl, ?_, fun call' hcall' => ?_⟩
  · exact (List.length_eq_length_filter_add _).symm
  obtain ⟨hoperands', hplain', hfilter⟩ : call'.operands = pattern :: names ∧
      call'.hasFlag "-v" = false ∧ call'.filter pattern = call.filter pattern := by
    obtain rfl | hadds := hcall'
    · exact ⟨hoperands, hplain, rfl⟩
    · refine ⟨(hadds.operands (by decide)).trans hoperands, ?_, hadds.filter_eq pattern⟩
      rw [hadds.hasFlag, hplain]
      decide
  refine ⟨hfilter ▸ finds_of_reads hoperands' hread hlines, fun call'' hadds => ?_⟩
  have hselects := hadds.selects_eq hplain' pattern
  rw [hfilter] at hselects
  exact hselects ▸ finds_of_reads ((hadds.operands (by decide)).trans hoperands') hread hlines

/-- Two files, the first with a line that nothing ends, and flags between the operands. -/
theorem search_splits_of_two_files :
    let files : FileTree :=
      (({} : FileTree).put ["f1"] (.file (utf8 "an\nno\r\nfan"))).put ["f2"] (.file (utf8 "Ant\n"))
    let v : View := { files := files }
    let call : Call := ⟨"grep an f1 -i f2", ["grep", "an", "f1", "-i", "f2"]⟩
    call.operands = ["an", "f1", "f2"] ∧ call.hasFlag "-v" = false ∧
      ReadsTexts v (.bytes []) ["f1", "f2"] ["an\nno\r\nfan", "Ant\n"] ∧
      Finds v (.bytes []) call ["an", "fan", "Ant"] ∧
      Finds v (.bytes []) ⟨"", ["grep", "an", "-v", "f1", "-i", "f2"]⟩ ["no"] ∧
      Finds v (.bytes []) ⟨"", ["grep", "an", "-v", "f1", "-i", "f2", "-c"]⟩ ["no"] := by
  intro files v call
  have hread : ReadsTexts v (.bytes []) ["f1", "f2"] ["an\nno\r\nfan", "Ant\n"] :=
    .named (by decide) (.cons (by decide +kernel) (.cons (by decide +kernel) .nil))
  have hfirst : LinesOf "an\nno\r\nfan" ["an", "no", "fan"] := by
    rw [LinesOf, show ["an", "no", "fan"].map utf8 = (Bytes.pieces (utf8 "an\nno\r\nfan")).map
      Bytes.stripLineEnd by decide +kernel]
    exact Bytes.cutsIntoLines_pieces _
  have hsecond : LinesOf "Ant\n" ["Ant"] := by
    rw [LinesOf, show ["Ant"].map utf8 = (Bytes.pieces (utf8 "Ant\n")).map Bytes.stripLineEnd by
      decide +kernel]
    exact Bytes.cutsIntoLines_pieces _
  have hoperands : call.operands = "an" :: ["f1", "f2"] := rfl
  obtain ⟨parts, found, rest, hlines, hfound, hrest, -, hfinds⟩ :=
    search_splits hoperands rfl hread
  obtain rfl : parts = [["an", "no", "fan"], ["Ant"]] := by
    obtain _ | ⟨hone, _ | ⟨htwo, ⟨⟩⟩⟩ := hlines
    rw [hone.unique hfirst, htwo.unique hsecond]
  rw [show found = ["an", "fan", "Ant"] from hfound.trans (by decide +kernel),
    show rest = ["no"] from hrest.trans (by decide +kernel)] at hfinds
  obtain ⟨hplain, hinverted⟩ := hfinds call (.inl rfl)
  obtain ⟨-, hcounted⟩ := hfinds ⟨"", ["grep", "an", "f1", "-i", "f2", "-c"]⟩
    (.inr ⟨["an", "f1", "-i", "f2"], [], rfl, rfl⟩)
  exact ⟨hoperands, rfl, hread, hplain, hinverted _ ⟨["an"], ["f1", "-i", "f2"], rfl, rfl⟩,
    hcounted _ ⟨["an"], ["f1", "-i", "f2", "-c"], rfl, rfl⟩⟩

end LineShell
