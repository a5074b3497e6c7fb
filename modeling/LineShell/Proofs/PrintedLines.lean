import LineShell.Proofs.SelectedLines

/-!
# What a search prints of its input

An input is cut after each newline. A search prints the pieces whose lines it selects, and adds a
newline to a last piece that has none (`completed`), but a carriage return before a newline is lost:
lines are read without their ends and printed with a newline (`printed`).

* `stripLineEnd_append_newline`: what is printed of a piece, and `printed_eq_completed_iff`: when that
  is the piece;
* `linesText_eq_flatMap_printed`: so a search prints what it selects, piece by piece;
* `flatMap_printed_eq_iff`: and passes it on unchanged if no piece ends in a carriage return and a
  newline;
* `search_prints_pieces`: this for whole runs, and how a search for the empty text differs from
  copying.
-/

namespace LineShell

open FileTree (Source)
open Bytes (LinesOf utf8 pieces stripLineEnd)

/-! ## 1. One piece -/

/-- A piece with a newline at its end, its own one or one that is added. -/
def completed (piece : Bytes) : Bytes := if piece.getLast? = some 10 then piece else piece ++ [10]

/-- What is printed of a piece: a carriage return before its newline is left out. -/
def printed (piece : Bytes) : Bytes :=
  if [13, 10] <:+ piece then piece.dropLast.dropLast ++ [10] else completed piece

/-- A line is printed without its end and with a newline. -/
theorem stripLineEnd_append_newline (piece : Bytes) : stripLineEnd piece ++ [10] = printed piece := by
  have hreturn : [13, 10] <:+ piece ↔ [10, 13] <+: piece.reverse := List.reverse_prefix.symm
  have hlast : piece.getLast? = piece.reverse.head? := List.head?_reverse.symm
  unfold stripLineEnd
  split
  · rename_i r hr
    have hpiece : piece = r.reverse ++ [13, 10] := by
      rw [← List.reverse_reverse piece, hr]
      simp
    rw [hpiece, printed, if_pos (List.suffix_append _ _)]
    simp
  · rename_i r hne hr
    have hno : ¬ [13, 10] <:+ piece := by
      rw [hreturn, hr]
      rintro ⟨more, hmore⟩
      exact hne more (List.cons.inj hmore).2.symm
    rw [printed, if_neg hno, completed, if_pos (by rw [hlast, hr, List.head?_cons]),
      ← List.reverse_cons, ← hr, List.reverse_reverse]
  · rename_i hne hne'
    have hno : ¬ [13, 10] <:+ piece := by
      rw [hreturn]
      rintro ⟨more, hmore⟩
      exact hne more hmore.symm
    have hopen : piece.getLast? ≠ some 10 := by
      rw [hlast, ne_eq, List.head?_eq_some_iff]
      rintro ⟨more, hmore⟩
      exact hne' more hmore
    rw [printed, if_neg hno, completed, if_neg hopen]

theorem length_printed_of_return {piece : Bytes} (h : [13, 10] <:+ piece) :
    (printed piece).length + 1 = (completed piece).length := by
  obtain ⟨front, rfl⟩ := h
  rw [printed, if_pos (List.suffix_append _ _), completed]
  simp

theorem length_printed_le (piece : Bytes) : (printed piece).length ≤ (completed piece).length := by
  by_cases h : [13, 10] <:+ piece
  · have := length_printed_of_return h
    omega
  · exact Nat.le_of_eq (by rw [printed, if_neg h])

/-- **A piece is printed as it is unless a carriage return ends its line.** -/
theorem printed_eq_completed_iff {piece : Bytes} :
    printed piece = completed piece ↔ ¬ [13, 10] <:+ piece := by
  refine ⟨fun heq h => ?_, fun h => by rw [printed, if_neg h]⟩
  have := length_printed_of_return h
  rw [heq] at this
  omega

/-! ## 2. All pieces -/

theorem length_flatMap_printed_le (chosen : List Bytes) :
    (chosen.flatMap printed).length ≤ (chosen.flatMap completed).length := by
  induction chosen with
  | nil => exact Nat.le_refl 0
  | cons piece chosen ih =>
    have := length_printed_le piece
    rw [List.flatMap_cons, List.flatMap_cons, List.length_append, List.length_append]
    omega

/-- **Pieces are printed as they are if no carriage return ends the line of one.** -/
theorem flatMap_printed_eq_iff {chosen : List Bytes} :
    chosen.flatMap printed = chosen.flatMap completed ↔ ∀ piece ∈ chosen, ¬ [13, 10] <:+ piece := by
  induction chosen with
  | nil => simp
  | cons piece chosen ih =>
    rw [List.flatMap_cons, List.flatMap_cons, List.forall_mem_cons, ← ih, ← printed_eq_completed_iff]
    refine ⟨fun h => ?_, fun ⟨hpiece, hchosen⟩ => by rw [hpiece, hchosen]⟩
    -- what is printed is nowhere longer, so it is as long everywhere
    have hlength := congrArg List.length h
    have hpiece := length_printed_le piece
    have hchosen := length_flatMap_printed_le chosen
    rw [List.length_append, List.length_append] at hlength
    exact List.append_inj h (by omega)

/-- The filter selects the line that a piece holds. -/
def LineFilter.selectsPiece (f : LineFilter) (piece : Bytes) : Bool :=
  (Bytes.ofUtf8? (stripLineEnd piece)).any f.selects

/-- **The selected lines are printed piece by piece.** -/
theorem linesText_eq_flatMap_printed (f : LineFilter) {cut : List Bytes} {lines : List String}
    (h : cut.map stripLineEnd = lines.map utf8) :
    linesText (lines.filter f.selects) = (cut.filter f.selectsPiece).flatMap printed := by
  induction cut generalizing lines with
  | nil =>
    obtain rfl := List.map_eq_nil_iff.mp h.symm
    rfl
  | cons piece cut ih =>
    obtain ⟨line, lines, rfl, hline, hlines⟩ := List.map_eq_cons_iff.mp h.symm
    have hselects : f.selectsPiece piece = f.selects line := by
      rw [LineFilter.selectsPiece, ← hline, Bytes.ofUtf8?_utf8, Option.any_some]
    rw [List.filter_cons, List.filter_cons, hselects]
    split_ifs
    · rw [List.flatMap_cons, ← ih hlines.symm, ← stripLineEnd_append_newline, ← hline]
      rfl
    · exact ih hlines.symm

/-- The pieces of a text that a filter selects. -/
def LineFilter.chosen (f : LineFilter) (text : String) : List Bytes :=
  (pieces (utf8 text)).filter f.selectsPiece

theorem linesText_flatten_filter (f : LineFilter) {texts : List String} {parts : List (List String)}
    (h : List.Forall₂ LinesOf texts parts) :
    linesText (parts.flatten.filter f.selects) = (texts.flatMap f.chosen).flatMap printed := by
  induction h with
  | nil => rfl
  | @cons text lines texts parts hlines _ ih =>
    obtain ⟨lines', h', -, hcut⟩ := Bytes.linesUntilBad_utf8 text
    obtain rfl := hlines.unique h'
    rw [List.flatten_cons, List.filter_append, List.flatMap_cons, List.flatMap_append, ← ih,
      LineFilter.chosen, ← linesText_eq_flatMap_printed f hcut]
    exact List.flatMap_append

/-! ## 3. Copying -/

/-- The text ends with a newline, if there is anything. -/
def EndsInNewline (data : Bytes) : Prop := data = [] ∨ data.getLast? = some 10

/-- The pieces of an input that ends with a newline all do. -/
theorem completed_of_mem_pieces {data : Bytes} (h : EndsInNewline data) :
    ∀ piece ∈ pieces data, completed piece = piece := by
  fun_induction pieces data with
  | case1 => exact fun _ h => absurd h List.not_mem_nil
  | case2 b bs ih =>
    have hlast : (b :: bs).getLast? = some 10 := h.resolve_left (List.cons_ne_nil b bs)
    obtain ⟨hno, -⟩ | ⟨line, rest, hbs, -, hsplit⟩ := Bytes.splitLine_cases (b :: bs)
    · exact absurd (List.mem_of_getLast? hlast) hno
    · rw [hsplit] at ih ⊢
      refine List.forall_mem_cons.mpr ⟨?_, ih ?_⟩
      · rw [completed, if_pos (List.getLast?_concat ..)]
      · obtain rfl | ⟨front, last, rfl⟩ := rest.eq_nil_or_concat
        · exact .inl rfl
        · rw [hbs, List.concat_eq_append, ← List.cons_append, ← List.append_assoc,
            List.getLast?_concat] at hlast
          rw [List.concat_eq_append]
          exact .inr (by rw [List.getLast?_concat, hlast])

/-- A carriage return before a newline ends the first line or stands in the rest. -/
theorem return_infix_ended {line rest : Bytes} (hline : 10 ∉ line) :
    [13, 10] <:+: line ++ 10 :: rest ↔ [13, 10] <:+ line ++ [10] ∨ [13, 10] <:+: rest := by
  constructor
  · rintro ⟨front, back, h⟩
    have hcut : (front ++ [13]) ++ 10 :: back = line ++ 10 :: rest := by
      rw [← h]
      simp
    by_cases hfront : 10 ∈ front
    · obtain ⟨first, more, rfl, hfirst⟩ := List.eq_append_cons_of_mem hfront
      rw [List.append_assoc, List.append_assoc, List.cons_append] at hcut
      obtain ⟨-, hrest⟩ := Bytes.append_newline_inj hfirst hline hcut
      exact .inr ⟨more, back, by rw [← hrest]; simp⟩
    · obtain ⟨rfl, -⟩ := Bytes.append_newline_inj (by simpa using hfront) hline hcut
      exact .inl ⟨front, by simp⟩
  · rintro (h | h)
    · obtain ⟨front, hfront⟩ := h
      exact ⟨front, rest, by rw [hfront]; simp⟩
    · exact h.trans (List.suffix_append_of_suffix (List.suffix_cons 10 rest)).isInfix

/-- A carriage return before a newline is at the end of a piece. -/
theorem return_infix_iff {data : Bytes} :
    [13, 10] <:+: data ↔ ∃ piece ∈ pieces data, [13, 10] <:+ piece := by
  fun_induction pieces data with
  | case1 => simp
  | case2 b bs ih =>
    obtain ⟨hno, hsplit⟩ | ⟨line, rest, hbs, hno, hsplit⟩ := Bytes.splitLine_cases (b :: bs)
    · rw [hsplit] at ih ⊢
      rw [List.exists_mem_cons_iff, ← ih]
      refine ⟨fun h => absurd (h.subset (by simp)) hno, ?_⟩
      rintro (h | h)
      · exact absurd (h.subset (by simp)) hno
      · simp at h
    · rw [hsplit] at ih ⊢
      rw [hbs, return_infix_ended hno, List.exists_mem_cons_iff, ih]

theorem copyEach_texts {v : View} {names texts : List String} (stdin : Source)
    (hnames : "-" ∉ names)
    (h : List.Forall₂ (fun name text => v.openForReading name = .ok (.bytes (utf8 text)))
      names texts) (written : Bytes) :
    copyEach v written stdin names = some ⟨written ++ texts.flatMap utf8, .ok 0⟩ := by
  induction h generalizing written with
  | nil => rw [copyEach, List.flatMap_nil, List.append_nil]
  | @cons name text names texts hname _ ih =>
    have hne : name ≠ "-" := fun heq => hnames (heq ▸ List.mem_cons_self)
    rw [copyEach.eq_3 _ _ _ _ _ hne, hname]
    simp only [copySource, Source.read]
    rw [ih fun hmem => hnames (List.mem_cons_of_mem _ hmem), List.flatMap_cons, List.append_assoc]

/-- **What is read is what copying writes.** -/
theorem run_cat {v : View} {stdin : Source} {names texts : List String} {call : Call}
    (hoperands : call.operands = names) (hnames : "-" ∉ names) (h : ReadsTexts v stdin names texts) :
    Builtin.cat.run v call stdin = some ⟨texts.flatMap utf8, .ok 0⟩ := by
  show copyAll v stdin call.operands = _
  rw [copyAll, hoperands]
  cases h with
  | @input text h =>
    rw [h, List.flatMap_singleton]
    rfl
  | named hne h =>
    rw [if_neg (by simpa using hne), copyEach_texts stdin hnames h]
    rfl

/-! ## 4. Runs -/

/-- A filter for the empty text selects every line. -/
theorem LineFilter.selects_empty (ignoreCase : Bool) (line : String) :
    (⟨[], false, ignoreCase⟩ : LineFilter).selects line = true := by
  have hits : (⟨[], false, ignoreCase⟩ : LineFilter).hits line.toList = true := by
    rw [LineFilter.hits]
    cases ignoreCase
    · exact occursIn_iff.mpr List.nil_infix
    · exact occursIn_iff.mpr List.nil_infix
  rw [LineFilter.selects, hits]
  rfl

/-- It selects every piece of a text. -/
theorem LineFilter.chosen_empty (ignoreCase : Bool) (text : String) :
    (⟨[], false, ignoreCase⟩ : LineFilter).chosen text = pieces (utf8 text) := by
  refine List.filter_eq_self.mpr fun piece hpiece => ?_
  obtain ⟨lines, -, -, hcut⟩ := Bytes.linesUntilBad_utf8 text
  obtain ⟨line, -, hline⟩ := List.mem_map.mp (hcut ▸ List.mem_map_of_mem hpiece)
  rw [LineFilter.selectsPiece, ← hline, Bytes.ofUtf8?_utf8, Option.any_some,
    LineFilter.selects_empty]

/-- Completed, the pieces of texts that end with newlines are the texts. -/
theorem flatMap_completed_pieces {texts : List String}
    (h : ∀ text ∈ texts, EndsInNewline (utf8 text)) :
    (texts.flatMap fun text => pieces (utf8 text)).flatMap completed = texts.flatMap utf8 := by
  rw [List.flatMap_assoc]
  refine List.flatMap_congr fun text htext => ?_
  calc (pieces (utf8 text)).flatMap completed
    _ = (pieces (utf8 text)).flatMap id :=
      List.flatMap_congr (completed_of_mem_pieces (h text htext))
    _ = utf8 text := by rw [List.flatMap_id, Bytes.flatten_pieces]

/-- **A search prints the pieces of its input that it selects.** It adds a newline to a last piece
that has none, and it leaves out a carriage return before a newline: so the pieces are printed as they
are if and only if none of them has one there. In particular a search for the empty text copies inputs
that end with newlines if and only if they hold no carriage return before a newline. -/
theorem search_prints_pieces {v : View} {stdin : Source} {call : Call} {pattern : String}
    {names texts : List String} (hoperands : call.operands = pattern :: names)
    (hprints : call.hasFlag "-c" = false) (hread : ReadsTexts v stdin names texts) :
    let chosen := texts.flatMap (call.filter pattern).chosen
    ∃ search, Builtin.grep.run v call stdin = some search ∧
      search.output = chosen.flatMap printed ∧
      (search.output = chosen.flatMap completed ↔ ∀ piece ∈ chosen, ¬ [13, 10] <:+ piece) ∧
      (pattern = "" → call.hasFlag "-v" = false → "-" ∉ names →
        (∀ text ∈ texts, EndsInNewline (utf8 text)) →
        ∀ copy : Call, copy.operands = names →
          ∃ copied, Builtin.cat.run v copy stdin = some copied ∧
            (search.output = copied.output ↔ ∀ text ∈ texts, ¬ [13, 10] <:+: utf8 text)) := by
  intro chosen
  obtain ⟨parts, hlines⟩ := exists_forall₂_linesOf texts
  refine ⟨_, run_grep hoperands hread hlines, ?_⟩
  have houtput : (shown call (parts.flatten.filter (call.filter pattern).selects)).output =
      chosen.flatMap printed := by
    rw [shown, hprints, if_neg Bool.false_ne_true]
    exact linesText_flatten_filter _ hlines
  rw [houtput]
  refine ⟨rfl, flatMap_printed_eq_iff, fun hempty hplain hnames hends copy hcopy =>
    ⟨_, run_cat hcopy hnames hread, ?_⟩⟩
  -- all pieces are selected, and completed they make up the inputs
  have hchosen : chosen = texts.flatMap fun text => pieces (utf8 text) := by
    refine List.flatMap_congr fun text _ => ?_
    rw [Call.filter, hempty, hplain]
    exact LineFilter.chosen_empty _ text
  rw [← flatMap_completed_pieces hends, ← hchosen, flatMap_printed_eq_iff, hchosen]
  constructor
  · intro h text htext hreturn
    obtain ⟨piece, hpiece, hend⟩ := return_infix_iff.mp hreturn
    exact h piece (List.mem_flatMap.mpr ⟨text, htext, hpiece⟩) hend
  · intro h piece hpiece hend
    obtain ⟨text, htext, hmem⟩ := List.mem_flatMap.mp hpiece
    exact h text htext (return_infix_iff.mpr ⟨piece, hmem, hend⟩)

/-- A search for the empty text in an input that ends with a newline and holds a carriage return. -/
theorem search_prints_pieces_of_return :
    let v : View := { files := {} }
    let call : Call := ⟨"grep ''", ["grep", ""]⟩
    let stdin : Source := .bytes (utf8 "b\r\na\n")
    call.operands = [""] ∧ call.hasFlag "-c" = false ∧ ReadsTexts v stdin [] ["b\r\na\n"] ∧
      ∃ search copied, Builtin.grep.run v call stdin = some search ∧
        Builtin.cat.run v ⟨"cat", ["cat"]⟩ stdin = some copied ∧
        search.output = utf8 "b\na\n" ∧ search.output ≠ copied.output := by
  intro v call stdin
  have hread : ReadsTexts v stdin [] ["b\r\na\n"] := .input rfl
  have hoperands : call.operands = "" :: [] := rfl
  obtain ⟨search, hrun, hprinted, -, hcopies⟩ := search_prints_pieces hoperands rfl hread
  have hends : ∀ text ∈ ["b\r\na\n"], EndsInNewline (utf8 text) := by
    simp only [List.forall_mem_singleton]
    exact .inr (by decide +kernel)
  obtain ⟨copied, hcopy, hcopied⟩ := hcopies rfl rfl List.not_mem_nil hends ⟨"cat", ["cat"]⟩ rfl
  refine ⟨hoperands, rfl, hread, search, copied, hrun, hcopy, hprinted.trans (by decide +kernel),
    fun hsame => ?_⟩
  exact hcopied.mp hsame _ List.mem_cons_self ⟨[98], [97, 10], by decide +kernel⟩

/-- A line that is selected is printed without the carriage return at its end. -/
theorem search_loses_return :
    let call : Call := ⟨"grep a", ["grep", "a"]⟩
    let chosen := (call.filter "a").chosen "a\r\n"
    let output := (Builtin.grep.run { files := {} } call (.bytes (utf8 "a\r\n"))).map Emission.output
    chosen = [utf8 "a\r\n"] ∧ output = some (utf8 "a\n") ∧
      output ≠ some (chosen.flatMap completed) := by
  decide +kernel

end LineShell
