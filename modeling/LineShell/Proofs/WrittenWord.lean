import LineShell.Proofs.Partition
import LineShell.Quoting

/-!
# What is written as a word is read as that word

`Reading` is what the words of a line depend on in a state of the scan: the mode, the texts of the
finished words and the letters of the unfinished one. `Reads` says that a text takes the scan from
one reading to another, whatever comes after it, and that no operator is recognised on the way.

* `step_copied`: what a character that is a letter of its word does (`Copied`), whatever the scan is
  inside;
* `reads_bare`, `reads_escaped`, `reads_chunk`: the three forms of a word;
* `reads_quoteChars`: so the written form of a word is read as that word, with any quoter that
  changes nothing inside a chunk (`Quoter.Verbatim`);
* `reads_joinWith`: and written words with blanks between them are read as those words;
* `closes_operator`, `closes_end`: how an operator and the end of the line end the segment.
-/

namespace LineShell

/-! ## 1. Letters -/

/-- In the mode the character is a letter of the word. -/
def Copied : LexMode → Char → Prop
  | .bare hidden, c => hidden = true ∨ c ∉ [' ', '\t', '\\', '\'', '"']
  | .single hidden, c => hidden = true ∨ c ≠ '\''
  | .double _ hidden, c => hidden = true ∨ c ≠ '"'
  | .doubled afterQuote, c => ¬ (afterQuote = true ∧ c = '"')
  | .bracketed _ _ _, _ => True

namespace Scan

variable {brackets : Bool} {s : Scan} {c : Char}

/-- What a character that is a letter does to the word. -/
structure Adds (s : Scan) (c : Char) (s' : Scan) : Prop where
  words : s'.words = s.words
  letters : s'.letters = c :: s.letters
  wordStart : s'.wordStart = some (s.wordStart.getD s.pos)
  /-- What a doubled quotation has noted stays as it is. -/
  quotation : s'.quotation = s.quotation ∨
    ∀ second before, s'.quotation ≠ some (.doubled second before)

/-- A letter of the word is added to it, whatever the scan is inside. -/
theorem step_copied (hc : Copied s.mode c) : s.Adds c (s.step brackets c) := by
  cases hclosers : s.closers with
  | cons closer outer =>
    simp only [step, take, hclosers, List.isEmpty_cons, Bool.not_false, if_true, stepBracketed]
    split_ifs <;> exact ⟨rfl, rfl, rfl, .inl rfl⟩
  | nil =>
    simp only [step, take, hclosers, List.isEmpty_nil, Bool.not_true, Bool.false_eq_true, if_false]
    rcases hq : s.quotation with - | ⟨odd | ⟨openedAt, odd⟩ | ⟨second, before⟩⟩ <;>
      rw [mode, hclosers, hq, Copied] at hc
    · simp only [stepBare]
      split_ifs with hesc hblank hback hsingle hdouble
      · exact ⟨rfl, rfl, rfl, .inl hq.symm⟩
      · simp_all
      · simp_all
      · simp_all
      · simp_all
      all_goals exact ⟨rfl, rfl, rfl, .inl hq.symm⟩
    · simp only [stepSingle]
      split_ifs with hesc hback hquote hdouble
      · exact ⟨rfl, rfl, rfl, .inl hq.symm⟩
      · exact ⟨rfl, rfl, rfl, .inl hq.symm⟩
      · exact absurd hquote (hc.resolve_left hesc)
      · exact ⟨rfl, rfl, rfl, .inr fun _ _ h => by cases h⟩
      · exact ⟨rfl, rfl, rfl, .inl hq.symm⟩
    · simp only [stepDouble]
      split_ifs with hesc hback hquote hfresh hsingle
      · exact ⟨rfl, rfl, rfl, .inl hq.symm⟩
      · exact ⟨rfl, rfl, rfl, .inl hq.symm⟩
      · exact absurd hquote (hc.resolve_left hesc)
      · exact absurd hquote (hc.resolve_left hesc)
      · exact ⟨rfl, rfl, rfl, .inr fun _ _ h => by cases h⟩
      · exact ⟨rfl, rfl, rfl, .inl hq.symm⟩
    · have hopen : ¬ (c = '"' && s.read.head? == some '"') = true := by simpa [and_comm] using hc
      simp only [stepDoubled, if_neg hopen]
      exact ⟨rfl, rfl, rfl, .inl hq.symm⟩

end Scan

/-! ## 2. Readings -/

/-- What the words depend on in a state of the scan. -/
structure Reading where
  mode : LexMode := .bare false
  /-- The texts of the finished words, which are all plain. -/
  texts : List String
  /-- The letters of the unfinished word. -/
  letters : List Char := []

/-- The word of the given letters, unless there are none. -/
def pending (letters : List Char) : List String :=
  if letters = [] then [] else [String.ofList letters]

/-- Nothing is open, and if the word under way is finished here, the words are `texts`. -/
structure Reading.Ends (v : Reading) (texts : List String) : Prop where
  mode : v.mode = .bare false
  texts : v.texts ++ pending v.letters = texts

theorem isSpecial_false_iff {c : Char} : isSpecial c = false ↔ isBlank c = false ∧
    c ∉ ['\\', '\'', '"', ';', '|', '>', '<', '&', '{', '}', '(', ')'] := by
  rw [isSpecial, Bool.or_eq_false_iff, List.contains_eq_mem, decide_eq_false_iff_not]

namespace Scan

/-- The scan has got to the given reading. -/
structure Shows (s : Scan) (v : Reading) : Prop extends Coherent s where
  mode : s.mode = v.mode
  words : s.words.map (fun w => (w.text, w.status)) = v.texts.map fun t => (t, .plain)
  letters : s.letters = v.letters.reverse

variable {s : Scan} {texts : List String} {letters : List Char}

theorem mode_eq_bare {hidden : Bool} (h : s.mode = .bare hidden) :
    s.closers = [] ∧ s.quotation = none ∧ s.escaped = hidden := by
  unfold mode at h
  rcases hc : s.closers with - | ⟨closer, outer⟩ <;>
    rcases hq : s.quotation with - | ⟨_ | _ | _⟩ <;> simp_all

theorem mode_eq_single {hidden : Bool} (h : s.mode = .single hidden) :
    s.closers = [] ∧ (∃ odd, s.quotation = some (.single odd)) ∧ s.escaped = hidden := by
  unfold mode at h
  rcases hc : s.closers with - | ⟨closer, outer⟩ <;>
    rcases hq : s.quotation with - | ⟨_ | _ | _⟩ <;> simp_all

theorem shows_start : ({} : Scan).Shows { texts := [] } where
  toCoherent := coherent_of_none rfl
  mode := rfl
  words := rfl
  letters := rfl

theorem shows_after (s : Scan) (op : Operator) : (s.after op).Shows { texts := [] } where
  toCoherent := coherent_of_none rfl
  mode := rfl
  words := rfl
  letters := rfl

/-- Noting the cursor has no part in it. -/
theorem Shows.atCursor {v : Reading} (h : s.Shows v) (cursor : Option Nat) :
    (s.atCursor cursor).Shows v := by
  unfold Scan.atCursor
  split
  · exact ⟨⟨h.exclusive, h.opened, h.plain⟩, h.mode, h.words, h.letters⟩
  · exact h

/-! ## 3. One character -/

variable {brackets : Bool} {c : Char}

/-- A letter of the word is added to it. -/
theorem Shows.adds {v : Reading} {mode : LexMode} (h : s.Shows v) (hc : Copied v.mode c)
    (hmode : v.mode.next brackets c = mode) :
    (s.step brackets c).Shows ⟨mode, v.texts, v.letters ++ [c]⟩ := by
  have hadds := @step_copied brackets s c (by rwa [h.mode])
  exact
    { toCoherent := (mode_step h.toCoherent).2
      mode := by rw [(mode_step h.toCoherent).1, h.mode, hmode]
      words := by rw [hadds.words, h.words]
      letters := by rw [hadds.letters, h.letters, List.reverse_append]; rfl }

/-- Outside everything a character without a meaning is a letter. -/
theorem Shows.letter (h : s.Shows ⟨.bare false, texts, letters⟩) (hc : isSpecial c = false) :
    (s.step brackets c).Shows ⟨.bare false, texts, letters ++ [c]⟩ := by
  obtain ⟨hblank, hmem⟩ := isSpecial_false_iff.mp hc
  simp only [List.mem_cons, not_or, List.not_mem_nil, not_false_eq_true, and_true] at hmem
  have hspace : c ≠ ' ' := by rintro rfl; revert hblank; decide
  have htab : c ≠ '\t' := by rintro rfl; revert hblank; decide
  have hnext : (LexMode.bare false).next brackets c = .bare false := by
    simp [LexMode.next, hmem]
  exact h.adds (.inr (by simp [hspace, htab, hmem])) hnext

/-- Outside everything a backslash hides what follows. -/
theorem Shows.backslash (h : s.Shows ⟨.bare false, texts, letters⟩) :
    (s.step brackets '\\').Shows ⟨.bare true, texts, letters⟩ := by
  obtain ⟨hclosers, hquotation, hescaped⟩ := mode_eq_bare h.mode
  have hstep : s.step brackets '\\' =
      ({ ({ s with wordClosed := false } : Scan).begin with escaped := true, atBlank := false } :
        Scan).advance '\\' := by
    simp [step, take, stepBare, hclosers, hquotation, hescaped]
  refine ⟨(mode_step h.toCoherent).2, ?_, ?_, ?_⟩
  · rw [(mode_step h.toCoherent).1, h.mode]
    rfl
  · rw [hstep]
    exact h.words
  · rw [hstep]
    exact h.letters

/-- What a backslash hides is a letter. -/
theorem Shows.hidden (h : s.Shows ⟨.bare true, texts, letters⟩) :
    (s.step brackets c).Shows ⟨.bare false, texts, letters ++ [c]⟩ :=
  h.adds (.inl rfl) rfl

/-- A single quote outside everything opens a quotation. -/
theorem Shows.quote (h : s.Shows ⟨.bare false, texts, letters⟩) :
    (s.step brackets '\'').Shows ⟨.single false, texts, letters⟩ := by
  obtain ⟨hclosers, hquotation, hescaped⟩ := mode_eq_bare h.mode
  have hstep : s.step brackets '\'' =
      ({ ({ s with wordClosed := false } : Scan).begin with
          quotation := some (.single false), atBlank := false } : Scan).advance '\'' := by
    simp [step, take, stepBare, hclosers, hquotation, hescaped]
  refine ⟨(mode_step h.toCoherent).2, ?_, ?_, ?_⟩
  · rw [(mode_step h.toCoherent).1, h.mode]
    rfl
  · rw [hstep]
    exact h.words
  · rw [hstep]
    exact h.letters

/-- Between single quotes every character other than a single quote is a letter, backslashes
included. -/
theorem Shows.quoted {hidden : Bool} (h : s.Shows ⟨.single hidden, texts, letters⟩)
    (hc : c ≠ '\'') :
    (s.step brackets c).Shows ⟨.single (!hidden && c = '\\'), texts, letters ++ [c]⟩ := by
  have hnext : (LexMode.single hidden).next brackets c = .single (!hidden && c = '\\') := by
    cases hidden <;> by_cases hback : c = '\\' <;> simp [LexMode.next, hc, hback]
  exact h.adds (.inr hc) hnext

/-- A single quote that nothing hides closes the quotation, and the word with it, even an empty
one. -/
theorem Shows.unquote (h : s.Shows ⟨.single false, texts, letters⟩) :
    (s.step brackets '\'').Shows ⟨.bare false, texts ++ [String.ofList letters], []⟩ := by
  obtain ⟨hclosers, ⟨odd, hquotation⟩, hescaped⟩ := mode_eq_single h.mode
  have hstep : s.step brackets '\'' =
      ({ ({ s with wordClosed := false } : Scan).closeQuotation with atBlank := false } :
        Scan).advance '\'' := by
    simp [step, take, stepSingle, hclosers, hquotation, hescaped]
  refine ⟨(mode_step h.toCoherent).2, ?_, ?_, ?_⟩
  · rw [(mode_step h.toCoherent).1, h.mode]
    rfl
  · rw [hstep]
    simp [advance, closeQuotation, flush, h.words, h.letters]
  · rw [hstep]
    rfl

/-- Finishing the word under way. -/
theorem Shows.flushText {v : Reading} (h : s.Shows v) (hends : v.Ends texts) :
    s.flushText.words.map (fun w => (w.text, w.status)) = texts.map (fun t => (t, .plain)) ∧
      s.flushText.letters = [] := by
  obtain ⟨mode, finished, letters⟩ := v
  rw [← hends.texts, Scan.flushText, h.letters, List.isEmpty_reverse, List.map_append, ← h.words]
  cases letters with
  | nil => exact ⟨(List.append_nil _).symm, h.letters⟩
  | cons c cs =>
    rw [if_neg (by simp)]
    simp [flush, pending, h.letters]

/-- A blank outside everything finishes the word under way and is no part of a word. -/
theorem step_blank (h : s.mode = .bare false) (hc : c = ' ' ∨ c = '\t') :
    s.step brackets c =
      ({ ({ s with wordClosed := false } : Scan).flushText with atBlank := true } : Scan).advance
        c := by
  obtain ⟨hclosers, hquotation, hescaped⟩ := mode_eq_bare h
  rcases hc with rfl | rfl <;> simp [step, take, stepBare, hclosers, hquotation, hescaped]

/-- A blank outside everything finishes the word under way, if there is one. -/
theorem Shows.blank {v : Reading} (h : s.Shows v) (hends : v.Ends texts) :
    (s.step brackets ' ').Shows { texts := texts } := by
  have hstep := @step_blank s brackets ' ' (h.mode.trans hends.mode) (.inl rfl)
  have h' : ({ s with wordClosed := false } : Scan).Shows v :=
    ⟨⟨h.exclusive, h.opened, h.plain⟩, h.mode, h.words, h.letters⟩
  obtain ⟨hwords, hletters⟩ := h'.flushText hends
  refine ⟨(mode_step h.toCoherent).2, ?_, ?_, ?_⟩
  · rw [(mode_step h.toCoherent).1, h.mode, hends.mode]
    cases brackets <;> rfl
  · rw [hstep]
    exact hwords
  · rw [hstep]
    exact hletters

end Scan

/-! ## 4. A text -/

/-- The characters that an operator can begin with. -/
theorem Operator.mem_of_head {op : Operator} {c : Char} (h : op.spelling.head? = some c) :
    c ∈ [';', '|', '>', '<', '&'] := by
  cases op <;> cases h <;> decide

theorem Operator.head_of_startsAt {op : Operator} {c : Char} {rest : List Char}
    (h : op.startsAt (c :: rest) = true) : op.spelling.head? = some c := by
  obtain ⟨hwritten, tail, htail⟩ := startsAt_iff.mp h
  cases hop : op.spelling with
  | nil => exact absurd hop (spelling_ne_nil hwritten)
  | cons d ds =>
    rw [hop, List.cons_append, List.cons.injEq] at htail
    rw [List.head?_cons, htail.1]

/-- Reading the text takes the scan from a state of one kind to a state of another, whatever comes
after it, and no operator is recognised on the way. -/
def Carries (o : ScanOptions) (P : Scan → Prop) (cs : List Char) (Q : Scan → Prop) : Prop :=
  ∀ s : Scan, P s → ∃ s' : Scan, Q s' ∧
    ∀ rest, s.segmentsFrom o (cs ++ rest) = s'.segmentsFrom o rest

section Carries

variable {o : ScanOptions} {P Q R : Scan → Prop}

theorem Carries.nil : Carries o P [] P := fun s hs => ⟨s, hs, fun _ => rfl⟩

theorem Carries.append {cs ds : List Char} (h : Carries o P cs Q) (h' : Carries o Q ds R) :
    Carries o P (cs ++ ds) R := by
  intro s hs
  obtain ⟨s', hs', hcs⟩ := h s hs
  obtain ⟨s'', hs'', hds⟩ := h' s' hs'
  exact ⟨s'', hs'', fun rest => by rw [List.append_assoc, hcs, hds]⟩

/-- One character is read if no operator can be recognised at it. -/
theorem carries_char {c : Char} (hcursor : ∀ s : Scan, P s → P (s.atCursor o.cursor))
    (hc : ∀ s : Scan, P s → s.mode = .bare false → ∀ op ∈ o.operators, op.spelling.head? ≠ some c)
    (hstep : ∀ s : Scan, P s → Q (s.step o.brackets c)) : Carries o P [c] Q := by
  intro s hs
  have hs' := hcursor s hs
  refine ⟨_, hstep _ hs', fun rest => ?_⟩
  have hnone : (s.atCursor o.cursor).operatorAt o.operators (c :: rest) = none := by
    rw [Scan.operatorAt]
    split
    · rename_i hbare
      rw [Operator.longestAt_eq_none_iff]
      intro op hop hstarts
      exact hc _ hs' (Scan.isBare_iff.mp hbare) op hop (Operator.head_of_startsAt hstarts)
    · rfl
  exact Scan.segmentsFrom_cons hnone

end Carries

/-- Reading the text takes the scan from one reading to another, whatever comes after it. -/
def Reads (o : ScanOptions) (v : Reading) (cs : List Char) (v' : Reading) : Prop :=
  ∀ s : Scan, s.Shows v → ∃ s' : Scan, s'.Shows v' ∧
    ∀ rest, s.segmentsFrom o (cs ++ rest) = s'.segmentsFrom o rest

section Reads

variable {o : ScanOptions} {v v' v'' : Reading} {texts : List String}

theorem Reads.nil : Reads o v [] v := Carries.nil

theorem Reads.append {cs ds : List Char} (h : Reads o v cs v') (h' : Reads o v' ds v'') :
    Reads o v (cs ++ ds) v'' :=
  Carries.append h h'

theorem reads_char {c : Char} (hc : v.mode = .bare false → c ∉ [';', '|', '>', '<', '&'])
    (hstep : ∀ s : Scan, s.Shows v → (s.step o.brackets c).Shows v') : Reads o v [c] v' := by
  refine carries_char (fun s hs => hs.atCursor o.cursor) (fun s hs hbare op _ hhead => ?_) hstep
  exact hc (hs.mode.symm.trans hbare) (Operator.mem_of_head hhead)

theorem not_mem_of_not_isSpecial {c : Char} (h : isSpecial c = false) :
    c ∉ [';', '|', '>', '<', '&'] := by
  have hmem := (isSpecial_false_iff.mp h).2
  simp only [List.mem_cons, not_or] at hmem ⊢
  simp [hmem]

/-- A blank between words. -/
theorem reads_blank (h : v.Ends texts) : Reads o v [' '] { texts := texts } :=
  reads_char (fun _ => by decide) fun _ hs => hs.blank h

theorem Reading.ends_between : Reading.Ends { texts := texts } texts where
  mode := rfl
  texts := List.append_nil texts

theorem reads_blanks : ∀ n : Nat,
    Reads o { texts := texts } (List.replicate n ' ') { texts := texts }
  | 0 => .nil
  | n + 1 => (reads_blank Reading.ends_between).append (reads_blanks n)

/-! ## 5. A written word -/

/-- What is relied on in a quoter: a single chunk that it answers with is the word itself between
quotes. -/
def Quoter.Verbatim (quoter : Quoter) : Prop :=
  ∀ word chunk, quoter word = some chunk → isChunk chunk = true → chunk = '\'' :: word ++ ['\'']

theorem chunked_verbatim : chunked.Verbatim := by
  intro word chunk h _
  rw [chunked] at h
  split at h
  · exact (Option.some.inj h).symm
  · cases h

theorem not_mem_of_isChunk {word : List Char} (h : isChunk ('\'' :: word ++ ['\'']) = true) :
    '\'' ∉ word := by
  obtain ⟨-, hmem⟩ : ('\'' :: (word ++ ['\''])).getLast? = some '\'' ∧ '\'' ∉ word := by
    simpa [isChunk] using h
  exact hmem

variable {letters : List Char}

theorem reads_bare : ∀ {letters word : List Char}, (∀ c ∈ word, isSpecial c = false) →
    Reads o ⟨.bare false, texts, letters⟩ word ⟨.bare false, texts, letters ++ word⟩
  | letters, [], _ => by
    rw [List.append_nil]
    exact .nil
  | letters, c :: word, h => by
    obtain ⟨hc, hword⟩ := List.forall_mem_cons.mp h
    have hfirst : Reads o ⟨.bare false, texts, letters⟩ [c] ⟨.bare false, texts, letters ++ [c]⟩ :=
      reads_char (fun _ => not_mem_of_not_isSpecial hc) fun _ hs => hs.letter hc
    have hrest := @reads_bare (letters ++ [c]) word hword
    rw [List.append_assoc] at hrest
    exact hfirst.append hrest

theorem reads_escape (c : Char) : Reads o ⟨.bare false, texts, letters⟩ (escape c)
    ⟨.bare false, texts, letters ++ [c]⟩ := by
  unfold escape
  split
  · have hback : Reads o ⟨.bare false, texts, letters⟩ ['\\'] ⟨.bare true, texts, letters⟩ :=
      reads_char (fun _ => by decide) fun _ hs => hs.backslash
    have hhidden : Reads o ⟨.bare true, texts, letters⟩ [c] ⟨.bare false, texts, letters ++ [c]⟩ :=
      reads_char (fun hbare => by cases hbare) fun _ hs => hs.hidden
    exact hback.append hhidden
  · rename_i hc
    rw [Bool.not_eq_true] at hc
    exact reads_char (fun _ => not_mem_of_not_isSpecial hc) fun _ hs => hs.letter hc

theorem reads_escaped : ∀ {letters word : List Char},
    Reads o ⟨.bare false, texts, letters⟩ (word.flatMap escape)
      ⟨.bare false, texts, letters ++ word⟩
  | letters, [] => by
    rw [List.append_nil]
    exact .nil
  | letters, c :: word => by
    have hrest := @reads_escaped (letters ++ [c]) word
    rw [List.append_assoc] at hrest
    exact (reads_escape c).append hrest

/-- The letters of a chunk. Only a backslash at its end can hide what comes after it. -/
theorem reads_quoted : ∀ {letters word : List Char} {hidden : Bool}, '\'' ∉ word →
    ∃ hidden', Reads o ⟨.single hidden, texts, letters⟩ word
        ⟨.single hidden', texts, letters ++ word⟩ ∧
      (hidden' = true → word.getLast? = some '\\' ∨ word = [] ∧ hidden = true)
  | letters, [], hidden, _ => by
    rw [List.append_nil]
    exact ⟨hidden, .nil, fun h => .inr ⟨rfl, h⟩⟩
  | letters, c :: word, hidden, h => by
    obtain ⟨hc, hword⟩ : '\'' ≠ c ∧ '\'' ∉ word := by simpa using h
    have hfirst : Reads o ⟨.single hidden, texts, letters⟩ [c]
        ⟨.single (!hidden && c = '\\'), texts, letters ++ [c]⟩ :=
      reads_char (fun hbare => by cases hbare) fun _ hs => hs.quoted (Ne.symm hc)
    obtain ⟨hidden', hrest, hlast⟩ :=
      @reads_quoted (letters ++ [c]) word (!hidden && c = '\\') hword
    rw [List.append_assoc] at hrest
    refine ⟨hidden', hfirst.append hrest, fun e => .inl ?_⟩
    -- what hides the next character is a backslash at the end of the rest, or this one
    rcases hlast e with hlast | ⟨rfl, hback⟩
    · rw [List.getLast?_cons, hlast]
      rfl
    · simp only [Bool.and_eq_true, decide_eq_true_eq] at hback
      rw [hback.2]
      rfl

/-- A chunk is a word, backslashes in it included. -/
theorem reads_chunk {word : List Char} (hquote : '\'' ∉ word) (hlast : word.getLast? ≠ some '\\') :
    Reads o { texts := texts } ('\'' :: word ++ ['\''])
      { texts := texts ++ [String.ofList word] } := by
  have hopen : Reads o { texts := texts } ['\''] ⟨.single false, texts, []⟩ :=
    reads_char (fun _ => by decide) fun _ hs => hs.quote
  obtain ⟨hidden, hword, hhidden⟩ := @reads_quoted o texts [] word false hquote
  have hseen : hidden = false := by
    rw [← Bool.not_eq_true]
    exact fun e => (hhidden e).elim hlast fun e => by cases e.2
  rw [hseen, List.nil_append] at hword
  have hclose : Reads o ⟨.single false, texts, word⟩ ['\'']
      { texts := texts ++ [String.ofList word] } :=
    reads_char (fun _ => by decide) fun _ hs => hs.unquote
  exact hopen.append (hword.append hclose)

/-- **The written form of a word is read as that word.** -/
theorem reads_quoteChars {quoter : Quoter} (hq : quoter.Verbatim) (word : List Char) :
    ∃ v, Reads o { texts := texts } (quoteChars quoter word) v ∧
      v.Ends (texts ++ [String.ofList word]) := by
  have hunquoted (hne : word ≠ []) :
      Reading.Ends ⟨.bare false, texts, word⟩ (texts ++ [String.ofList word]) :=
    ⟨rfl, by rw [pending, if_neg hne]⟩
  unfold quoteChars
  split
  · rename_i hempty
    rw [List.isEmpty_iff.mp hempty]
    exact ⟨_, reads_chunk (by simp) (by simp), Reading.ends_between⟩
  rename_i hne
  rw [List.isEmpty_iff] at hne
  split
  · rename_i hplain
    have hbare : ∀ c ∈ word, isSpecial c = false := by simpa using hplain
    exact ⟨_, reads_bare hbare, hunquoted hne⟩
  split
  · exact ⟨_, reads_escaped, hunquoted hne⟩
  rename_i hlast
  cases hquoted : (quoter word).filter isChunk with
  | none => exact ⟨_, reads_escaped, hunquoted hne⟩
  | some chunk =>
    obtain ⟨hsome, hchunk⟩ := Option.filter_eq_some_iff.mp hquoted
    have hword := hq word chunk hsome hchunk
    rw [hword] at hchunk
    rw [Option.getD_some, hword]
    exact ⟨_, reads_chunk (not_mem_of_isChunk hchunk) (by simpa using hlast), Reading.ends_between⟩

/-- Written words with blanks between them are read as those words. -/
theorem reads_joinWith {quoter : Quoter} (hq : quoter.Verbatim) : ∀ {texts : List String}
    (words : List String), ∃ v, Reads o { texts := texts } (joinWith quoter words).toList v ∧
      v.Ends (texts ++ words)
  | texts, [] => ⟨_, .nil, by rw [List.append_nil]; exact Reading.ends_between⟩
  | texts, [word] => by
    have h := @reads_quoteChars o texts quoter hq word.toList
    simpa [joinWith, quoteWith, String.toList_intercalate] using h
  | texts, word :: word' :: words => by
    obtain ⟨v, hword, hends⟩ := @reads_quoteChars o texts quoter hq word.toList
    rw [String.ofList_toList] at hends
    obtain ⟨v', hrest, hends'⟩ := @reads_joinWith _ hq (texts ++ [word]) (word' :: words)
    have hline : (joinWith quoter (word :: word' :: words)).toList =
        quoteChars quoter word.toList ++ ([' '] ++ (joinWith quoter (word' :: words)).toList) := by
      simp [joinWith, quoteWith, String.toList_intercalate]
    rw [List.append_assoc] at hends'
    rw [hline]
    exact ⟨v', hword.append ((reads_blank hends).append hrest), hends'⟩

/-! ## 6. The end of a segment -/

/-- The segment is in order, has the given words, all of them finished, and is ended by the
operator. -/
structure Segment.Holds (s : Segment) (texts : List String) (op : Operator) : Prop where
  status : s.status = .ok
  error : s.error = none
  texts : s.texts = texts
  plain : ∀ w ∈ s.words, w.status = .plain
  operator : s.operator = op

theorem texts_plain_of_words {words : List Word}
    (h : words.map (fun w => (w.text, w.status)) = texts.map fun t => (t, WordStatus.plain)) :
    words.map Word.text = texts ∧ ∀ w ∈ words, w.status = .plain := by
  constructor
  · have htexts := congrArg (List.map Prod.fst) h
    simpa [Function.comp_def] using htexts
  · intro w hw
    have hmem := List.mem_map_of_mem (f := fun w : Word => (w.text, w.status)) hw
    rw [h] at hmem
    obtain ⟨t, -, ht⟩ := List.mem_map.mp hmem
    exact (congrArg Prod.snd ht).symm

namespace Scan

variable {s : Scan}

theorem Shows.close (h : s.Shows v) (hends : v.Ends texts) (hne : texts ≠ []) (op : Operator) :
    (s.close o op).Holds texts op := by
  obtain ⟨htexts, hplain⟩ := texts_plain_of_words (h.flushText hends).1
  have hwords : s.flushText.words.isEmpty = false := by
    rw [Bool.eq_false_iff, Ne, List.isEmpty_iff]
    intro hnil
    rw [hnil] at htexts
    exact hne htexts.symm
  have hstatus : (s.close o op).status = .ok := by
    simp [Scan.close, emit, hwords]
  refine ⟨hstatus, ?_, htexts, hplain, rfl⟩
  simp [Scan.close, emit, hwords, SegmentStatus.message?]

/-- At the end of the line a bare scan has nothing to settle. -/
theorem settleDoubled_of_bare (h : s.mode = .bare false) : s.settleDoubled = s := by
  simp [settleDoubled, (mode_eq_bare h).2.1]

/-- It finishes the word under way, as at an operator. -/
theorem flushEnd_of_bare (h : s.mode = .bare false) : s.flushEnd = s.flushText := by
  obtain ⟨hclosers, hquotation, hescaped⟩ := mode_eq_bare h
  rw [flushEnd, if_neg (by simp [hquotation]), if_neg (by simp [hclosers]),
    if_neg (by simp [hescaped])]

/-- At the end of the line a bare scan finishes the word under way, and nothing is wrong. -/
theorem finish_eq_of_bare (h : s.mode = .bare false) :
    s.finish o = s.flushText.emit o (s.pos + 1) .endOfLine .ok (!s.isBare) := by
  have hstatus : s.endStatus = .ok := by
    simp [endStatus, (mode_eq_bare h).2.1]
  simp only [Scan.finish, settleDoubled_of_bare h, flushEnd_of_bare h, hstatus]

theorem Shows.finish (h : s.Shows v) (hends : v.Ends texts) :
    (s.finish o).Holds texts .endOfLine := by
  obtain ⟨htexts, hplain⟩ := texts_plain_of_words (h.flushText hends).1
  rw [finish_eq_of_bare (h.mode.trans hends.mode)]
  exact ⟨rfl, rfl, htexts, hplain, rfl⟩

end Scan

/-- Wherever words end, the text ends their segment with the operator, and what it leaves of the
segments after it satisfies `next`. -/
def Closes (o : ScanOptions) (op : Operator) (cs : List Char) (next : List Segment → Prop) : Prop :=
  ∀ (s : Scan) (v : Reading) (texts : List String), s.Shows v → v.Ends texts → texts ≠ [] →
    ∃ (seg : Segment) (segs : List Segment), s.segmentsFrom o cs = seg :: segs ∧
      seg.Holds texts op ∧ next segs

/-- The segments are those of the text, read from its start. -/
def StartsOver (o : ScanOptions) (cs : List Char) (segs : List Segment) : Prop :=
  ∃ s : Scan, s.Shows { texts := [] } ∧ segs = s.segmentsFrom o cs

/-- Blanks and then the end of the line end the last segment. -/
theorem Scan.Shows.segmentsFrom_blanks {s : Scan} (h : s.Shows v) (hends : v.Ends texts) (n : Nat) :
    ∃ seg, s.segmentsFrom o (List.replicate n ' ') = [seg] ∧ seg.Holds texts .endOfLine := by
  cases n with
  | zero =>
    refine ⟨s.finish o, ?_, h.finish hends⟩
    rw [List.replicate_zero, Scan.segmentsFrom]
  | succ n =>
    obtain ⟨s', hs', hcs⟩ := ((reads_blank hends).append (reads_blanks n)) s h
    refine ⟨s'.finish o, ?_, hs'.finish Reading.ends_between⟩
    have hline := hcs []
    rwa [List.append_nil, Scan.segmentsFrom] at hline

theorem closes_end (n : Nat) : Closes o .endOfLine (List.replicate n ' ') (· = []) := by
  intro s v texts hs hends _
  obtain ⟨seg, hsegs, hseg⟩ := hs.segmentsFrom_blanks hends n
  exact ⟨seg, [], hsegs, hseg, rfl⟩

theorem Operator.spelling_injective {op op' : Operator} (h : op.spelling = op'.spelling) :
    op = op' := by
  cases op <;> cases op' <;> first | rfl | cases h

theorem Operator.blank_not_mem_spelling (op : Operator) : ' ' ∉ op.spelling := by
  cases op <;> decide

/-- An enabled operator that stands before a blank or at the end of the line is recognised. -/
theorem Operator.longestAt_spelling {enabled : List Operator} {op : Operator} (hmem : op ∈ enabled)
    (hop : op ≠ .endOfLine) {rest : List Char} (hrest : ∀ c ∈ rest.head?, c = ' ') :
    longestAt enabled (op.spelling ++ rest) = some op := by
  have hstarts : op.startsAt (op.spelling ++ rest) = true :=
    startsAt_iff.mpr ⟨hop, List.prefix_append _ _⟩
  cases hlongest : longestAt enabled (op.spelling ++ rest) with
  | none => exact absurd hstarts (longestAt_eq_none_iff.mp hlongest op hmem)
  | some longest =>
    have h := longestAt_isLongest hlongest
    obtain ⟨more, hmore⟩ := List.prefix_of_prefix_length_le (startsAt_iff.mp hstarts).2
      (startsAt_iff.mp h.startsAt).2 (h.le op hmem hstarts)
    -- a longer operator would go on with the blank
    cases more with
    | nil => rw [List.append_nil] at hmore; rw [spelling_injective hmore]
    | cons c more =>
      obtain ⟨tail, htail⟩ := (startsAt_iff.mp h.startsAt).2
      rw [← hmore, List.append_assoc, List.append_cancel_left_eq] at htail
      have hblank : c = ' ' := hrest c (by rw [← htail]; rfl)
      refine absurd ?_ longest.blank_not_mem_spelling
      rw [← hmore, hblank]
      simp

/-- A blank and an operator that another blank or the end of the line follows end the segment. -/
theorem closes_operator (hall : ∀ op ∈ Operator.written, op ∈ o.operators) {op : Operator}
    (hop : op ≠ .endOfLine) {rest : List Char} (hrest : ∀ c ∈ rest.head?, c = ' ') :
    Closes o op (' ' :: (op.spelling ++ rest)) (StartsOver o rest) := by
  intro s v texts hs hends hne
  obtain ⟨s', hs', hcs⟩ := @reads_blank o v texts hends s hs
  have hs'' := hs'.atCursor o.cursor
  have hmem : op ∈ o.operators := hall op (by cases op <;> simp_all [Operator.written])
  have hlongest := Operator.longestAt_spelling hmem hop hrest
  refine ⟨(s'.atCursor o.cursor).close o op,
    ((s'.atCursor o.cursor).after op).segmentsFrom o rest, ?_,
    hs''.close Reading.ends_between hne op, _, Scan.shows_after _ op, rfl⟩
  rw [← List.singleton_append, hcs]
  refine Scan.segmentsFrom_spelling hop ?_
  rw [Scan.operatorAt, if_pos (Scan.isBare_iff.mpr hs''.mode), hlongest]

end Reads
end LineShell
