import LineShell.Proofs.RawWord
import LineShell.Proofs.Shift
import LineShell.Proofs.WrittenWord

/-!
# What is written in the grammar of words is read as those words

`Progress` is what the words of a line and their places depend on in a state of the scan. A
character of a word is a letter of it (`Stands.copies`), or it opens something (`Stands.opens`,
`Stands.doubles`), or it closes a quotation and the word with it (`Stands.closes`,
`Stands.closes_doubled`).

* `Copies`: a text all of whose characters are letters, with the modes it passes through. Groups and
  the bodies of quotations are such texts (`InGroup.copies`, `QuotedBody.copies`,
  `DoubledBody.copies`);
* `leads_pieces`, `leads_tail`, `leads_word`, `leads_words`: so pieces, quotations and words are
  read as what they stand for;
* `segments_rawLine`: and a line of raw words is one segment with those words, each at its place.
-/

namespace LineShell

/-! ## 1. Progress -/

/-- What the words of a line and their places depend on in a state of the scan. -/
structure Progress where
  mode : LexMode := .bare false
  /-- The text that has been read. -/
  text : List Char
  /-- The finished words. -/
  words : List Word
  /-- The letters of the unfinished word. -/
  letters : List Char := []
  /-- The byte at which the unfinished word began. -/
  wordStart : Option Nat := none
  /-- How many bytes of the word stood before its doubled quotation. -/
  before : Nat := 0

namespace Progress

/-- Where the word under way began, or the next one begins. -/
def wordAt (p : Progress) : Nat := p.wordStart.getD (byteLength p.text)

/-- More of a word has been read, which is written as `text` and stands for `letters`. -/
def grow (p : Progress) (mode : LexMode) (text letters : List Char) : Progress :=
  { p with
    mode := mode
    text := p.text ++ text
    letters := p.letters ++ letters
    wordStart := some p.wordAt }

/-- A quotation has been read to its end, which is written as `text` and stands for `letters`, and
the word is finished. -/
def finish (p : Progress) (text letters : List Char) : Progress :=
  { text := p.text ++ text
    words := p.words ++ [⟨String.ofList (p.letters ++ letters), p.wordAt, .plain⟩] }

variable (p : Progress) (m m' : LexMode) (text text' letters letters' : List Char)

theorem grow_grow : (p.grow m text letters).grow m' text' letters' =
    p.grow m' (text ++ text') (letters ++ letters') := by
  simp [grow, wordAt]

theorem grow_finish : (p.grow m text letters).finish text' letters' =
    p.finish (text ++ text') (letters ++ letters') := by
  simp [grow, finish, wordAt]

end Progress

namespace Scan

/-- The scan has got as far as that. -/
structure Stands (s : Scan) (p : Progress) : Prop extends Coherent s where
  mode : s.mode = p.mode
  read : s.read = p.text.reverse
  pos : s.pos = byteLength p.text
  words : s.words = p.words
  letters : s.letters = p.letters.reverse
  wordStart : s.wordStart = p.wordStart
  before : ∀ second before, s.quotation = some (.doubled second before) → before = p.before

variable {brackets : Bool} {s : Scan} {c : Char} {p : Progress}

/-- Noting the cursor has no part in it. -/
theorem Stands.atCursor (h : s.Stands p) (cursor : Option Nat) :
    (s.atCursor cursor).Stands p := by
  unfold Scan.atCursor
  split
  · exact ⟨⟨h.exclusive, h.opened, h.plain⟩, h.mode, h.read, h.pos, h.words, h.letters, h.wordStart,
      h.before⟩
  · exact h

/-- One more character: the mode and the text are those that follow, whatever became of the word. -/
theorem Stands.next (h : s.Stands p) {p' : Progress} (hmode : p'.mode = p.mode.next brackets c)
    (htext : p'.text = p.text ++ [c]) (hwords : (s.step brackets c).words = p'.words)
    (hletters : (s.step brackets c).letters = p'.letters.reverse)
    (hstart : (s.step brackets c).wordStart = p'.wordStart)
    (hbefore : ∀ second before, (s.step brackets c).quotation = some (.doubled second before) →
      before = p'.before) : (s.step brackets c).Stands p' where
  toCoherent := (mode_step h.toCoherent).2
  mode := by rw [(mode_step h.toCoherent).1, h.mode, hmode]
  read := by rw [step_read, h.read, htext, List.reverse_append]; rfl
  pos := by rw [step_pos, h.pos, htext, byteLength_append]; rfl
  words := hwords
  letters := hletters
  wordStart := hstart
  before := hbefore

theorem Stands.wordAt (h : s.Stands p) : s.wordStart.getD s.pos = p.wordAt := by
  rw [h.wordStart, h.pos, Progress.wordAt]

/-- A letter of the word. -/
theorem Stands.copies (h : s.Stands p) (hc : Copied p.mode c) :
    (s.step brackets c).Stands (p.grow (p.mode.next brackets c) [c] [c]) := by
  obtain ⟨hwords, hletters, hstart, hquotation⟩ := @step_copied brackets s c (by rwa [h.mode])
  refine h.next rfl rfl (by rw [hwords, h.words]; rfl) ?_ ?_ fun second before hdoubled => ?_
  · rw [hletters, h.letters]
    simp [Progress.grow]
  · rw [hstart, h.wordAt]
    rfl
  · obtain hsame | hother := hquotation
    · exact h.before second before (hsame ▸ hdoubled)
    · exact absurd hdoubled (hother second before)

/-- Outside everything a backslash or a quote begins a word, if none is under way, and is no letter
of it. -/
theorem Stands.opens (h : s.Stands p) (hmode : p.mode = .bare false) (hc : c ∈ ['\\', '\'', '"']) :
    (s.step brackets c).Stands (p.grow ((LexMode.bare false).next brackets c) [c] []) := by
  obtain ⟨hclosers, hquotation, hescaped⟩ := mode_eq_bare (h.mode.trans hmode)
  obtain ⟨q, e, hstep, hq⟩ : ∃ q e, s.step brackets c =
      ({ ({ s with wordClosed := false } : Scan).begin with
          quotation := q, escaped := e, atBlank := false } : Scan).advance c ∧
      ∀ second before, q ≠ some (.doubled second before) := by
    simp only [List.mem_cons, List.not_mem_nil, or_false] at hc
    rcases hc with rfl | rfl | rfl
    · exact ⟨none, true,
        by simp [step, take, stepBare, begin, hclosers, hquotation, hescaped], by simp⟩
    · exact ⟨some (.single false), false,
        by simp [step, take, stepBare, begin, hclosers, hquotation, hescaped], by simp⟩
    · exact ⟨some (.double s.pos false), false,
        by simp [step, take, stepBare, begin, hclosers, hquotation, hescaped], by simp⟩
  refine h.next (by rw [hmode]; rfl) rfl ?_ ?_ ?_ ?_ <;> rw [hstep]
  · exact h.words
  · rw [Progress.grow, List.append_nil]
    exact h.letters
  · exact congrArg some h.wordAt
  · exact fun second before hdoubled => absurd hdoubled (hq second before)

theorem mode_eq_double {fresh hidden : Bool} (h : s.mode = .double fresh hidden) :
    s.closers = [] ∧ (∃ openedAt odd, s.quotation = some (.double openedAt odd) ∧
      (s.pos == openedAt + 1) = fresh) ∧ s.escaped = hidden := by
  unfold mode at h
  rcases hc : s.closers with - | ⟨closer, outer⟩ <;>
    rcases hq : s.quotation with - | ⟨_ | _ | _⟩ <;> simp_all

theorem mode_eq_doubled {afterQuote : Bool} (h : s.mode = .doubled afterQuote) :
    s.closers = [] ∧ (∃ second before, s.quotation = some (.doubled second before)) ∧
      (s.read.head? == some '"') = afterQuote := by
  unfold mode at h
  rcases hc : s.closers with - | ⟨closer, outer⟩ <;>
    rcases hq : s.quotation with - | ⟨_ | _ | _⟩ <;> simp_all

/-- A second double quote right after the first opens a doubled quotation. -/
theorem Stands.doubles (h : s.Stands p) (hmode : p.mode = .double true false)
    (hstart : p.wordStart.isSome = true) :
    (s.step brackets '"').Stands
      { p.grow (.doubled true) ['"'] [] with before := byteLength p.letters } := by
  obtain ⟨hclosers, ⟨openedAt, odd, hquotation, hfresh⟩, hescaped⟩ :=
    mode_eq_double (h.mode.trans hmode)
  have hstep : s.step brackets '"' =
      ({ s with
          wordClosed := false, quotation := some (.doubled s.pos (byteLength s.letters)),
          atBlank := false } : Scan).advance '"' := by
    have hpos : s.pos = openedAt + 1 := beq_iff_eq.mp hfresh
    simp [step, take, stepDouble, hclosers, hquotation, hescaped, hpos]
  refine h.next (by rw [hmode]; rfl) rfl ?_ ?_ ?_ ?_ <;> rw [hstep]
  · exact h.words
  · rw [Progress.grow, List.append_nil]
    exact h.letters
  · obtain ⟨start, hstart⟩ := Option.isSome_iff_exists.mp hstart
    have hwordAt : p.wordAt = start := by rw [Progress.wordAt, hstart]; rfl
    exact h.wordStart.trans (by rw [hstart, ← hwordAt]; rfl)
  · rintro second before hdoubled
    cases hdoubled
    rw [h.letters, byteLength_reverse]

/-- A quotation that ends finishes its word. -/
theorem Stands.finishes (h : s.Stands p) {letters : List Char}
    (hstart : p.wordStart.isSome = true) (hnext : p.mode.next brackets c = .bare false)
    (hstep : s.step brackets c =
      ({ ({ s with wordClosed := false, letters := letters.reverse } : Scan).closeQuotation with
          atBlank := false } : Scan).advance c) :
    (s.step brackets c).Stands ({ p with letters := letters }.finish [c] []) := by
  refine h.next hnext.symm rfl ?_ ?_ ?_ ?_ <;> rw [hstep]
  · obtain ⟨start, hstart⟩ := Option.isSome_iff_exists.mp hstart
    simp [advance, closeQuotation, flush, Progress.finish, Progress.wordAt, h.words, h.wordStart,
      hstart]
  · rfl
  · rfl
  · exact fun _ _ hdoubled => by cases hdoubled

/-- A quote of its kind closes a quotation, and the word with it. -/
theorem Stands.closes (h : s.Stands p) (hstart : p.wordStart.isSome = true)
    (hmode : p.mode = .single false ∧ c = '\'' ∨ p.mode = .double false false ∧ c = '"') :
    (s.step brackets c).Stands (p.finish [c] []) := by
  have hletters : ({ s with wordClosed := false, letters := p.letters.reverse } : Scan) =
      { s with wordClosed := false } := by rw [← h.letters]
  obtain ⟨hmode, rfl⟩ | ⟨hmode, rfl⟩ := hmode
  · obtain ⟨hclosers, ⟨odd, hquotation⟩, hescaped⟩ := mode_eq_single (h.mode.trans hmode)
    refine h.finishes hstart (by rw [hmode]; rfl) ?_
    rw [hletters]
    simp [step, take, stepSingle, hclosers, hquotation, hescaped]
  · obtain ⟨hclosers, ⟨openedAt, odd, hquotation, hfresh⟩, hescaped⟩ :=
      mode_eq_double (h.mode.trans hmode)
    have hpos : s.pos ≠ openedAt + 1 := beq_eq_false_iff_ne.mp hfresh
    refine h.finishes hstart (by rw [hmode]; rfl) ?_
    rw [hletters]
    simp [step, take, stepDouble, hclosers, hquotation, hescaped, hpos]

/-- The second of two double quotes closes a doubled quotation, and the word with it; the first of
them is taken back. -/
theorem Stands.closes_doubled (h : s.Stands p) (hmode : p.mode = .doubled true)
    (hstart : p.wordStart.isSome = true) {letters : List Char}
    (hletters : p.letters = letters ++ ['"']) (hbefore : p.before ≤ byteLength letters)
    (hne : letters ≠ []) :
    (s.step brackets '"').Stands ({ p with letters := letters }.finish ['"'] []) := by
  obtain ⟨hclosers, ⟨second, before, hquotation⟩, hread⟩ := mode_eq_doubled (h.mode.trans hmode)
  obtain rfl := h.before second before hquotation
  have hs : s.letters = '"' :: letters.reverse := by
    rw [h.letters, hletters, List.reverse_append]
    rfl
  have hlonger : p.before < byteLength s.letters := by
    have hsize : '"'.utf8Size = 1 := rfl
    rw [hs, byteLength_cons, byteLength_reverse, hsize]
    omega
  refine h.finishes hstart (by rw [hmode]; rfl) ?_
  simp only [step, take, stepDoubled, hclosers, hquotation, hread, hlonger]
  simp [hs, hne]

end Scan

/-- Nothing is open, and if the word under way is finished here, the words are `words`. -/
inductive Progress.Ends : Progress → List Word → Prop
  | between {text : List Char} {words : List Word} : Ends { text := text, words := words } words
  /-- A word with letters is under way. -/
  | within {p : Progress} {text letters : List Char} (hne : letters ≠ []) (hnone : p.letters = []) :
      Ends (p.grow (.bare false) text letters)
        (p.words ++ [⟨String.ofList letters, p.wordAt, .plain⟩])

theorem Progress.Ends.eq_between {p : Progress} {words : List Word} (h : p.Ends words)
    (hletters : p.letters = []) : p = { text := p.text, words := words } := by
  cases h with
  | between => rfl
  | within hne _ => exact absurd (List.append_eq_nil_iff.mp hletters).2 hne

theorem Progress.Ends.mode {p : Progress} {words : List Word} (h : p.Ends words) :
    p.mode = .bare false := by
  cases h <;> rfl

namespace Scan

variable {brackets : Bool} {s : Scan} {c : Char} {p : Progress} {words : List Word}

/-- Finishing the word under way. -/
theorem Stands.flushText (h : s.Stands p) (hends : p.Ends words) :
    s.flushText.words = words ∧ s.flushText.letters = [] ∧ s.flushText.wordStart = none := by
  rw [Scan.flushText, h.letters]
  cases hends with
  | between => exact ⟨h.words, h.letters, h.wordStart⟩
  | within hne hnone => simp [Progress.grow, hnone, hne, flush, h.words, h.letters, h.wordStart]

/-- A blank outside everything finishes the word under way. -/
theorem Stands.blank (h : s.Stands p) (hends : p.Ends words) (hc : c = ' ' ∨ c = '\t') :
    (s.step brackets c).Stands { text := p.text ++ [c], words := words } := by
  have hmode := h.mode.trans hends.mode
  have hstep := @step_blank s brackets c hmode hc
  have hopen : ({ s with wordClosed := false } : Scan).Stands p :=
    ⟨⟨h.exclusive, h.opened, h.plain⟩, h.mode, h.read, h.pos, h.words, h.letters, h.wordStart,
      h.before⟩
  obtain ⟨hwords, hletters, hstart⟩ := hopen.flushText hends
  have hnext : p.mode.next brackets c = .bare false := by
    rw [hends.mode]
    rcases hc with rfl | rfl <;> cases brackets <;> rfl
  refine h.next hnext.symm rfl ?_ ?_ ?_ ?_ <;> rw [hstep]
  · exact hwords
  · exact hletters
  · exact hstart
  · intro second before hdoubled
    have hquotation : s.quotation = some (.doubled second before) := by
      simpa [advance] using hdoubled
    rw [(mode_eq_bare hmode).2.1] at hquotation
    cases hquotation

end Scan

/-! ## 2. Texts that are letters -/

/-- Every character of the text is a letter of the word, and no operator is looked for at it; the
text leads from one mode to the other. -/
inductive Copies (o : ScanOptions) : LexMode → List Char → LexMode → Prop
  | nil {m : LexMode} : Copies o m [] m
  | cons {m m' : LexMode} {c : Char} {cs : List Char} (hc : Copied m c)
      (hop : m = .bare false → ∀ op ∈ o.operators, op.spelling.head? ≠ some c)
      (h : Copies o (m.next o.brackets c) cs m') : Copies o m (c :: cs) m'

section Copies

variable {o : ScanOptions}

theorem Copies.append {m m' m'' : LexMode} {cs ds : List Char} (h : Copies o m cs m')
    (h' : Copies o m' ds m'') : Copies o m (cs ++ ds) m'' := by
  induction h with
  | nil => exact h'
  | cons hc hop _ ih => exact .cons hc hop (ih h')

/-- Inside something a letter is only a letter. -/
theorem Copies.inside {m m' : LexMode} {c : Char} {cs : List Char} (hc : Copied m c)
    (hm : m ≠ .bare false) (h : Copies o (m.next o.brackets c) cs m') : Copies o m (c :: cs) m' :=
  .cons hc (fun e => absurd e hm) h

/-- The closing bracket ends the group. -/
theorem copies_closer {opener : Char} (ho : opener = '{' ∨ opener = '(') (outer : List Char) :
    Copies o (.bracketed (Scan.closerOf opener) outer false) [Scan.closerOf opener]
      (LexMode.inside outer) := by
  refine .inside trivial (by simp) ?_
  have hnext : (LexMode.bracketed (Scan.closerOf opener) outer false).next o.brackets
      (Scan.closerOf opener) = LexMode.inside outer := by
    rcases ho with rfl | rfl <;> rfl
  rw [hnext]
  exact .nil

/-- What stands in a group leaves the reader in the group. -/
theorem InGroup.copies {closer : Char} {cs : List Char} (h : InGroup closer cs) :
    ∀ outer, Copies o (.bracketed closer outer false) cs (.bracketed closer outer false) := by
  induction h with
  | nil => exact fun _ => .nil
  | @hidden closer c cs h ih =>
    intro outer
    refine .inside trivial (by simp) ?_
    refine .inside (by trivial) (by simp [LexMode.next]) ?_
    simpa [LexMode.next] using ih outer
  | @nested closer opener inner cs ho hi h ihi ih =>
    intro outer
    refine .inside trivial (by simp) ?_
    have hopener : opener ≠ '\\' := by rcases ho with rfl | rfl <;> decide
    have hrest := (ihi (closer :: outer)).append ((copies_closer ho _).append (ih outer))
    rw [LexMode.next, if_neg hopener, if_pos ho]
    exact hrest
  | @other closer c cs hc h ih =>
    intro outer
    simp only [List.mem_cons, not_or, List.not_mem_nil, not_false_eq_true, and_true] at hc
    refine .inside trivial (by simp) ?_
    simpa [LexMode.next, hc] using ih outer

/-- A group is read as it is written. -/
theorem copies_group (on : o.brackets = true) {opener : Char} (ho : opener = '{' ∨ opener = '(')
    {body : List Char} (h : InGroup (Scan.closerOf opener) body) :
    Copies o (.bare false) (opener :: (body ++ [Scan.closerOf opener])) (.bare false) := by
  have hnext : (LexMode.bare false).next o.brackets opener =
      .bracketed (Scan.closerOf opener) [] false := by
    rw [on]
    rcases ho with rfl | rfl <;> rfl
  refine .cons (.inr ?_) (fun _ op _ hhead => ?_) ?_
  · rcases ho with rfl | rfl <;> decide
  · have hmem := Operator.mem_of_head hhead
    rcases ho with rfl | rfl <;> revert hmem <;> decide
  · rw [hnext]
    exact (h.copies []).append (copies_closer ho [])

theorem QuotedBody.copies_single {body : List Char} (h : QuotedBody '\'' body) :
    Copies o (.single false) body (.single false) := by
  induction h with
  | nil => exact .nil
  | hidden c h ih =>
    refine .inside (.inr (by decide)) (by simp) ?_
    refine .inside (.inl rfl) (by simp [LexMode.next]) ?_
    simpa [LexMode.next] using ih
  | other hc h ih =>
    simp only [List.mem_cons, not_or, List.not_mem_nil, not_false_eq_true, and_true] at hc
    refine .inside (.inr hc.2) (by simp) ?_
    simpa [LexMode.next, hc] using ih

/-- Past its first character a quotation in double quotes is read like one in single quotes. -/
theorem QuotedBody.copies_double {body : List Char} (h : QuotedBody '"' body) :
    ∀ fresh, (fresh = true → body ≠ []) →
      Copies o (.double fresh false) body (.double false false) := by
  induction h with
  | nil =>
    intro fresh hne
    cases fresh with
    | false => exact .nil
    | true => exact absurd rfl (hne rfl)
  | hidden c h ih =>
    intro fresh _
    refine .inside (.inr (by decide)) (by simp) ?_
    refine .inside (.inl rfl) (by simp [LexMode.next]) ?_
    simpa [LexMode.next] using ih false (by simp)
  | other hc h ih =>
    intro fresh _
    simp only [List.mem_cons, not_or, List.not_mem_nil, not_false_eq_true, and_true] at hc
    refine .inside (.inr hc.2) (by simp) ?_
    simpa [LexMode.next, hc] using ih false (by simp)

/-- A text without two double quotes in a row is read as it is written between doubled quotes. -/
theorem copies_doubled : ∀ {body : List Char} {afterQuote : Bool}, ¬ ['"', '"'] <:+: body →
    (afterQuote = true → body.head? ≠ some '"') →
    ∃ afterQuote', Copies o (.doubled afterQuote) body (.doubled afterQuote') ∧
      (afterQuote' = true → body.getLast? = some '"' ∨ body = [] ∧ afterQuote = true)
  | [], afterQuote, _, _ => ⟨afterQuote, .nil, fun h => .inr ⟨rfl, h⟩⟩
  | c :: cs, afterQuote, hapart, hfirst => by
    have hc : ¬ (afterQuote = true ∧ c = '"') := fun h => hfirst h.1 (by rw [h.2]; rfl)
    have hnext : (LexMode.doubled afterQuote).next o.brackets c = .doubled (c == '"') := by
      by_cases hquote : c = '"'
      · have hfalse : afterQuote = false := by simpa [hquote] using hc
        simp [LexMode.next, hquote, hfalse]
      · simp [LexMode.next, hquote]
    have hrest : ¬ ['"', '"'] <:+: cs := fun h => hapart (List.infix_cons h)
    have hsecond : (c == '"') = true → cs.head? ≠ some '"' := by
      intro hquote hhead
      obtain ⟨ds, rfl⟩ := List.head?_eq_some_iff.mp hhead
      rw [beq_iff_eq.mp hquote] at hapart
      exact hapart (List.prefix_append ['"', '"'] ds).isInfix
    obtain ⟨afterQuote', hcopies, hlast⟩ := @copies_doubled cs (c == '"') hrest hsecond
    refine ⟨afterQuote', .inside hc (by simp) (by rwa [hnext]), fun h => .inl ?_⟩
    rcases hlast h with hlast | ⟨rfl, hquote⟩
    · rw [List.getLast?_cons, hlast]
      rfl
    · rw [beq_iff_eq.mp hquote]
      rfl

/-- The first of the two quotes that close a doubled quotation is read as a letter. -/
theorem DoubledBody.copies {body : List Char} (h : DoubledBody body) :
    Copies o (.doubled true) (body ++ ['"']) (.doubled true) := by
  obtain ⟨afterQuote, hcopies, hlast⟩ := @copies_doubled o body true h.apart fun _ => h.first
  have hseen : afterQuote = false := by
    rw [← Bool.not_eq_true]
    exact fun e => (hlast e).elim h.last fun e => h.ne_nil e.1
  rw [hseen] at hcopies
  exact hcopies.append (.inside (by simp [Copied]) (by simp) .nil)

end Copies

/-! ## 3. Words -/

/-- Reading the text leads from one progress to the other. -/
def Leads (o : ScanOptions) (p : Progress) (cs : List Char) (p' : Progress) : Prop :=
  Carries o (fun s => s.Stands p) cs (fun s => s.Stands p')

section Leads

variable {o : ScanOptions} {p : Progress}

theorem leads_char {c : Char} {p' : Progress}
    (hop : p.mode = .bare false → ∀ op ∈ o.operators, op.spelling.head? ≠ some c)
    (hstep : ∀ s : Scan, s.Stands p → (s.step o.brackets c).Stands p') : Leads o p [c] p' :=
  carries_char (fun _ hs => hs.atCursor o.cursor)
    (fun _ hs hbare => hop (hs.mode.symm.trans hbare)) hstep

/-- No operator is looked for at a character that begins none. -/
theorem no_operator {c : Char} (hc : c ∉ [';', '|', '>', '<', '&']) :
    ∀ op ∈ o.operators, op.spelling.head? ≠ some c :=
  fun _ _ hhead => hc (Operator.mem_of_head hhead)

/-- A text of letters goes on with a word as it is written. -/
theorem leads_copies {m m' : LexMode} {cs : List Char} (h : Copies o m cs m') :
    ∀ {text letters : List Char},
      Leads o (p.grow m text letters) cs (p.grow m' (text ++ cs) (letters ++ cs)) := by
  induction h with
  | nil =>
    intro text letters
    rw [List.append_nil, List.append_nil]
    exact Carries.nil
  | @cons m m' c cs hc hop h ih =>
    intro text letters
    have hfirst := @leads_char o (p.grow m text letters) c _ hop fun s hs => hs.copies hc
    have hrest := @ih (text ++ [c]) (letters ++ [c])
    rw [Progress.grow_grow] at hfirst
    rw [List.append_assoc, List.append_assoc] at hrest
    exact hfirst.append hrest

/-- A text of letters begins a word, if none is under way. -/
theorem leads_copies_cons {m' : LexMode} {c : Char} {cs : List Char}
    (h : Copies o p.mode (c :: cs) m') : Leads o p (c :: cs) (p.grow m' (c :: cs) (c :: cs)) := by
  cases h with
  | cons hc hop h =>
    exact (leads_char hop fun s hs => hs.copies hc).append (leads_copies h)

/-- **A piece is read as what it stands for.** -/
theorem leads_piece (hp : p.mode = .bare false) (x : Piece o) :
    Leads o p x.text (p.grow (.bare false) x.text x.value) := by
  cases x with
  | plain c h =>
    have hnext : (LexMode.bare false).next o.brackets c = .bare false := by
      have hmark := h.mark
      have hbracket := h.bracket
      simp only [List.mem_cons, not_or, List.not_mem_nil, not_false_eq_true, and_true]
        at hmark hbracket
      simp only [LexMode.next, hmark, if_false]
      rw [if_neg]
      rintro ⟨on, hopen⟩
      exact hopen.elim (hbracket on).1 (hbracket on).2
    refine leads_copies_cons ?_
    rw [hp]
    exact .cons (.inr h.mark) (fun _ => h.operator) (by rw [hnext]; exact .nil)
  | hidden c =>
    have hback : Leads o p ['\\'] (p.grow (.bare true) ['\\'] []) :=
      leads_char (fun _ => no_operator (by decide)) fun s hs => hs.opens hp (by decide)
    have hhidden : Copies o (.bare true) [c] (.bare false) := .inside (.inl rfl) (by simp) .nil
    exact hback.append (leads_copies hhidden)
  | group opener body on ho h =>
    refine leads_copies_cons ?_
    rw [hp]
    exact copies_group on ho h

theorem leads_pieces : ∀ (xs : List (Piece o)) {text letters : List Char},
    Leads o (p.grow (.bare false) text letters) (xs.flatMap Piece.text)
      (p.grow (.bare false) (text ++ xs.flatMap Piece.text) (letters ++ xs.flatMap Piece.value))
  | [], text, letters => by
    rw [List.flatMap_nil, List.flatMap_nil, List.append_nil, List.append_nil]
    exact Carries.nil
  | x :: xs, text, letters => by
    have hfirst := @leads_piece o (p.grow (.bare false) text letters) rfl x
    have hrest := @leads_pieces xs (text ++ x.text) (letters ++ x.value)
    rw [Progress.grow_grow] at hfirst
    rw [List.append_assoc, List.append_assoc] at hrest
    exact hfirst.append hrest

/-- **A quotation ends the word, and what is between its quotes is read as it is written.** -/
theorem leads_tail (hp : p.mode = .bare false) (t : Tail) :
    Leads o p t.text (p.finish t.text t.value) := by
  have hopen : ∀ {c : Char}, c ∈ ['\\', '\'', '"'] →
      Leads o p [c] (p.grow ((LexMode.bare false).next o.brackets c) [c] []) := by
    intro c hc
    refine leads_char (fun _ => no_operator ?_) fun s hs => hs.opens hp hc
    simp only [List.mem_cons, List.not_mem_nil, or_false] at hc
    rcases hc with rfl | rfl | rfl <;> decide
  cases t with
  | single body h =>
    have hquote : Leads o p ['\''] (p.grow (.single false) ['\''] []) := hopen (by decide)
    have hbody := @leads_copies o p _ _ _ h.copies_single ['\''] []
    have hclose : Leads o (p.grow (.single false) (['\''] ++ body) ([] ++ body)) ['\''] _ :=
      leads_char (fun e => by cases e) fun s hs => hs.closes rfl (.inl ⟨rfl, rfl⟩)
    have hall : Leads o p _ _ := hquote.append (hbody.append hclose)
    simpa [Progress.grow_finish, Tail.text, Tail.value] using hall
  | double body h hne =>
    have hquote : Leads o p ['"'] (p.grow (.double true false) ['"'] []) := hopen (by decide)
    have hbody := @leads_copies o p _ _ _ (h.copies_double true fun _ => hne) ['"'] []
    have hclose : Leads o (p.grow (.double false false) (['"'] ++ body) ([] ++ body)) ['"'] _ :=
      leads_char (fun e => by cases e) fun s hs => hs.closes rfl (.inr ⟨rfl, rfl⟩)
    have hall : Leads o p _ _ := hquote.append (hbody.append hclose)
    simpa [Progress.grow_finish, Tail.text, Tail.value] using hall
  | doubled body h =>
    let q : Progress := { p with before := byteLength p.letters }
    have hquote : Leads o p ['"'] (p.grow (.double true false) ['"'] []) := hopen (by decide)
    have hquotes : Leads o (p.grow (.double true false) ['"'] []) ['"']
        (q.grow (.doubled true) ['"', '"'] []) := by
      refine leads_char (fun e => by cases e) fun s hs => ?_
      have h := @Scan.Stands.doubles o.brackets s _ hs rfl rfl
      simpa [Progress.grow, Progress.wordAt, q] using h
    have hbody := @leads_copies o q _ _ _ h.copies ['"', '"'] []
    have hclose : Leads o (q.grow (.doubled true) (['"', '"'] ++ (body ++ ['"']))
        ([] ++ (body ++ ['"']))) ['"'] (p.finish (Tail.doubled body h).text body) := by
      refine leads_char (fun e => by cases e) fun s hs => ?_
      have h := @Scan.Stands.closes_doubled o.brackets s _ hs rfl rfl (p.letters ++ body)
        (by simp [Progress.grow, q]) (by simp [Progress.grow, q]) (by simp [h.ne_nil])
      simpa [Progress.grow, Progress.finish, Progress.wordAt, Tail.text, q] using h
    have hall : Leads o p _ _ := hquote.append (hquotes.append (hbody.append hclose))
    simpa [Tail.text, Tail.value] using hall

theorem Piece.value_ne_nil (x : Piece o) : x.value ≠ [] := by
  cases x <;> simp [Piece.value]

/-- **A raw word is read as what it stands for.** It is still under way then, unless its quotation
has finished it. -/
theorem leads_word {text : List Char} {words : List Word} (w : RawWord o) :
    ∃ q, Leads o { text := text, words := words } w.text q ∧ q.text = text ++ w.text ∧
      q.Ends (words ++ [⟨String.ofList w.value, byteLength text, .plain⟩]) ∧
      (w.tail.isSome = true → q.letters = []) := by
  obtain ⟨pieces, tail, written⟩ := w
  let p : Progress := { text := text, words := words }
  cases pieces with
  | nil =>
    cases tail with
    | none => simp at written
    | some t =>
      have htext : RawWord.text ⟨[], some t, written⟩ = t.text := by simp [RawWord.text]
      have hvalue : RawWord.value ⟨[], some t, written⟩ = t.value := by simp [RawWord.value]
      rw [htext, hvalue]
      exact ⟨_, leads_tail (p := p) rfl t, rfl, .between, fun _ => rfl⟩
  | cons x xs =>
    have hpieces : Leads o p _ _ := (leads_piece rfl x).append (leads_pieces xs)
    have hne : x.value ++ xs.flatMap Piece.value ≠ [] := by simp [x.value_ne_nil]
    cases tail with
    | none =>
      have htext : RawWord.text ⟨x :: xs, none, written⟩ = x.text ++ xs.flatMap Piece.text := by
        simp [RawWord.text]
      have hvalue : RawWord.value ⟨x :: xs, none, written⟩ = x.value ++ xs.flatMap Piece.value := by
        simp [RawWord.value]
      rw [htext, hvalue]
      exact ⟨_, hpieces, rfl, .within hne rfl, fun e => by cases e⟩
    | some t =>
      have htail := hpieces.append (leads_tail rfl t)
      rw [Progress.grow_finish] at htail
      have htext : RawWord.text ⟨x :: xs, some t, written⟩ =
          x.text ++ xs.flatMap Piece.text ++ t.text := by
        simp [RawWord.text]
      have hvalue : RawWord.value ⟨x :: xs, some t, written⟩ =
          x.value ++ xs.flatMap Piece.value ++ t.value := by
        simp [RawWord.value]
      rw [htext, hvalue]
      exact ⟨_, htail, rfl, .between, fun _ => rfl⟩

/-! ## 4. Lines -/

theorem leads_blank {words : List Word} (h : p.Ends words) {c : Char} (hc : c = ' ' ∨ c = '\t') :
    Leads o p [c] { text := p.text ++ [c], words := words } := by
  refine leads_char (fun _ => no_operator ?_) fun s hs => hs.blank h hc
  rcases hc with rfl | rfl <;> decide

/-- Between words blanks are passed over. -/
theorem leads_gap {words : List Word} : ∀ {gap text : List Char}, IsGap gap →
    Leads o { text := text, words := words } gap { text := text ++ gap, words := words }
  | [], text, _ => by
    rw [List.append_nil]
    exact Carries.nil
  | c :: gap, text, h => by
    obtain ⟨hc, hgap⟩ := List.forall_mem_cons.mp h
    have hrest := @leads_gap words gap (text ++ [c]) hgap
    rw [List.append_assoc] at hrest
    exact (leads_blank .between hc).append hrest

/-- Blanks, at least one of them, finish the word under way. -/
theorem leads_gap_cons {words : List Word} (h : p.Ends words) {gap : List Char} (hgap : IsGap gap)
    (hne : gap ≠ []) : Leads o p gap { text := p.text ++ gap, words := words } := by
  obtain ⟨c, gap, rfl⟩ := List.exists_cons_of_ne_nil hne
  obtain ⟨hc, hgap⟩ := List.forall_mem_cons.mp hgap
  have hrest : Leads o _ _ _ := @leads_gap o words gap (p.text ++ [c]) hgap
  rw [List.append_assoc] at hrest
  exact (leads_blank h hc).append hrest

/-- **Raw words with blanks between them are read as what they stand for**, each at its place. -/
theorem leads_words : ∀ {items : List (RawWord o × List Char)} {text : List Char}
    {words : List Word}, (∀ x ∈ items, IsGap x.2) →
    (∀ x ∈ items.dropLast, x.2 ≠ [] ∨ x.1.tail.isSome = true) →
    ∃ q, Leads o { text := text, words := words } (items.flatMap fun x => x.1.text ++ x.2) q ∧
      q.text = text ++ (items.flatMap fun x => x.1.text ++ x.2) ∧
      q.Ends (words ++ wordsFrom (byteLength text) items)
  | [], text, words, _, _ => by
    refine ⟨_, Carries.nil, (List.append_nil text).symm, ?_⟩
    rw [wordsFrom, List.append_nil]
    exact .between
  | (w, gap) :: rest, text, words, hgaps, hapart => by
    obtain ⟨hgap, hgaps⟩ := List.forall_mem_cons.mp hgaps
    obtain ⟨q, hword, htext, hends, htail⟩ := @leads_word o text words w
    cases rest with
    | nil =>
      -- after the last word there may be no blank, and then it is still under way
      rw [List.flatMap_singleton]
      by_cases hne : gap = []
      · rw [hne, List.append_nil]
        exact ⟨q, hword, htext, hends⟩
      · exact ⟨_, hword.append (leads_gap_cons hends hgap hne), by rw [htext, List.append_assoc],
          .between⟩
    | cons y rest =>
      rw [List.dropLast_cons_cons, List.forall_mem_cons] at hapart
      have hbetween : Leads o { text := text, words := words } (w.text ++ gap)
          { text := q.text ++ gap,
            words := words ++ [⟨String.ofList w.value, byteLength text, .plain⟩] } := by
        obtain hne | hsome := hapart.1
        · exact hword.append (leads_gap_cons hends hgap hne)
        · rw [hends.eq_between (htail hsome)] at hword
          exact hword.append (leads_gap hgap)
      obtain ⟨q', hrest, htext', hends'⟩ := leads_words hgaps hapart.2
      refine ⟨q', hbetween.append hrest, ?_, ?_⟩
      · rw [htext', htext, @List.flatMap_cons _ _ (w, gap)]
        simp only [List.append_assoc]
      · rw [htext, byteLength_append, byteLength_append, List.append_assoc] at hends'
        exact hends'

end Leads

/-- **A line of raw words is read as those words.** Whatever the brackets and wherever a cursor
stands, it is one segment, which is in order and is ended by the end of the line; its words are what
the raw words stand for, all of them plain, each at the byte at which it is written. -/
theorem segments_rawLine (o : ScanOptions) (l : RawLine o) :
    ∃ seg, segments o (String.ofList l.text) = [seg] ∧ seg.typed = String.ofList l.text ∧
      seg.words = l.meaning ∧ seg.status = .ok ∧ seg.error = none ∧ seg.operator = .endOfLine := by
  have hstart : ({} : Scan).Stands { text := [], words := [] } :=
    ⟨Scan.coherent_of_none rfl, rfl, rfl, rfl, rfl, rfl, rfl, fun _ _ h => by cases h⟩
  obtain ⟨q, hwords, htext, hends⟩ := @leads_words o l.words l.leading [] l.gaps l.apart
  have hleading :
      Leads o { text := [], words := [] } l.leading { text := l.leading, words := [] } :=
    leads_gap l.leading_gap
  have hline : Leads o _ _ _ := hleading.append hwords
  obtain ⟨s, hs, hsegs⟩ := hline {} hstart
  obtain ⟨hflush, -, -⟩ := hs.flushText hends
  have hread : s.read.reverse = l.text := by
    rw [hs.read, List.reverse_reverse, htext, RawLine.text]
  refine ⟨s.finish o, ?_, ?_, ?_⟩
  · have h := hsegs []
    rw [List.append_nil, Scan.segmentsFrom] at h
    rw [segments, String.toList_ofList]
    exact h
  · rw [Scan.finish_eq_of_bare (hs.mode.trans hends.mode), ← hread, ← Scan.flushText_read]
    rfl
  · rw [Scan.finish_eq_of_bare (hs.mode.trans hends.mode)]
    exact ⟨hflush, rfl, rfl, rfl⟩

/-! ## 5. A line with all kinds of pieces and quotations -/

namespace RawWord

/-- Brackets group, and a pipe ends a segment. -/
abbrev bracketsAndPipe : ScanOptions := { brackets := true, operators := [.pipe] }

/-- A hidden blank between plain characters, and a double quotation. -/
def hiddenBlank : RawWord bracketsAndPipe where
  pieces := [.plain 'x' ⟨by decide, by decide, by decide⟩, .hidden ' ',
    .plain 'y' ⟨by decide, by decide, by decide⟩]
  tail :=
    have body : QuotedBody '"' ['a', ' ', '|'] :=
      .other (by decide) (.other (by decide) (.other (by decide) .nil))
    some (.double ['a', ' ', '|'] body (by decide))
  written := by decide

/-- A single quotation with nothing in it. -/
def empty : RawWord bracketsAndPipe where
  pieces := []
  tail := some (.single [] .nil)
  written := by decide

/-- A group with a hidden bracket and another group in it. -/
def nestedGroup : RawWord bracketsAndPipe where
  pieces :=
    have inner : InGroup (Scan.closerOf '(') ['d'] := .other (by decide) .nil
    have body : InGroup (Scan.closerOf '(') ['\\', ')', '(', 'd', ')'] :=
      .hidden ')' (.nested (.inr rfl) inner .nil)
    [.group '(' ['\\', ')', '(', 'd', ')'] rfl (.inr rfl) body]
  written := by decide

/-- A double quote that stands alone between doubled quotes. -/
def loneQuote : RawWord bracketsAndPipe where
  pieces := []
  tail := some (.doubled ['f', '"', 'g'] ⟨by decide, by decide, by decide, by decide⟩)
  written := by decide

end RawWord

/-- The words follow on one another where a quotation ends the first. -/
def RawLine.ofAllKinds : RawLine RawWord.bracketsAndPipe where
  leading := [' ']
  words := [(RawWord.hiddenBlank, []), (RawWord.empty, [' ']), (RawWord.nestedGroup, ['\t']),
    (RawWord.loneQuote, [])]
  leading_gap := by simp [IsGap]
  gaps := by simp [IsGap]
  apart := by decide

theorem segments_rawLine_ofAllKinds :
    let line := String.ofList RawLine.ofAllKinds.text
    line = " x\\ y\"a |\"'' (\\)(d))\t\"\"f\"g\"\"" ∧
      ∃ seg, segments RawWord.bracketsAndPipe line = [seg] ∧
        seg.words = [⟨"x ya |", 1, .plain⟩, ⟨"", 10, .plain⟩, ⟨"(\\)(d))", 13, .plain⟩,
          ⟨"f\"g", 21, .plain⟩] ∧ seg.status = .ok := by
  obtain ⟨seg, hsegments, -, hwords, hstatus, -⟩ :=
    segments_rawLine RawWord.bracketsAndPipe RawLine.ofAllKinds
  exact ⟨by decide +kernel, seg, hsegments, hwords.trans (by decide +kernel), hstatus⟩

end LineShell
