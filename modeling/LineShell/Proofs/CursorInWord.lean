import LineShell.Proofs.DoubledQuotation

/-!
# Where the cursor stands in its word

The scan notes how many bytes of the word under way it has read when it comes to the cursor. A word
under way keeps what it has, and its text begins with it, but for what a doubled quotation has added:
the first of the two quotes that close it is taken back, and so are blanks, if nothing else follows up
to the end of the line.

* `Secure`: what the word under way keeps in any case. `step_retains` says so for one character,
  `Bears.through` for a text, and `HeadEnds.begins` for a segment;
* `InsideDoubled.word`: what becomes of the letters of a doubled quotation;
* `cursorInWord_onBoundary`: so the noted place is one of the word, unless the cursor stands after a
  character that is taken back (`Overshoots`), and then it lies past the end of the word.
-/

namespace LineShell

/-! ## 1. Places -/

/-- The byte `k` of the word's text is where a character begins, or where the text ends. -/
def Word.HasBoundary (w : Word) (k : Nat) : Prop :=
  ∃ p, p <+: w.text.toList ∧ byteLength p = k

namespace Scan

variable {o : ScanOptions} {s s' : Scan} {brackets : Bool} {c : Char}
  {inner entry : List Char}

/-! ## 2. What the word under way keeps -/

/-- The word under way begins with `part`, and no quotation that closes takes any of it back. -/
structure Secure (s : Scan) (part : List Char) : Prop where
  begins : part <+: s.letters.reverse
  kept : ∀ second before, s.quotation = some (.doubled second before) → byteLength part ≤ before

/-- What becomes of the word under way: it goes on or is finished, and either keeps what is secure. -/
inductive Retains (s s' : Scan) : Prop
  | goes (hwords : s'.words = s.words) (h : ∀ part, s.Secure part → s'.Secure part)
  | ends {w : Word} (hwords : s'.words = s.words ++ [w])
      (h : ∀ part, s.Secure part → part <+: w.text.toList)

/-- The word goes on with what it has. -/
theorem Retains.same (hwords : s'.words = s.words) (hletters : s'.letters = s.letters)
    (hentered : ∀ second before, s'.quotation = some (.doubled second before) →
      s.quotation = some (.doubled second before) ∨ before = byteLength s.letters) :
    s.Retains s' := by
  refine .goes hwords fun part h => ⟨by rw [hletters]; exact h.begins, fun second before hq => ?_⟩
  obtain hq | rfl := hentered second before hq
  · exact h.kept second before hq
  · obtain ⟨rest, hrest⟩ := h.begins
    rw [← byteLength_reverse s.letters, ← hrest, byteLength_append]
    exact Nat.le_add_right _ _

/-- The word is finished as it is, or with more letters. -/
theorem Retains.flush {letters : List Char} {w : Word} (hletters : s.letters <:+ letters)
    (hwords : s'.words = s.words ++ [w]) (hw : w.text = String.ofList letters.reverse) :
    s.Retains s' := by
  refine .ends hwords fun part h => h.begins.trans ?_
  rw [hw, String.toList_ofList]
  exact List.reverse_prefix.mpr hletters

theorem retains_flushText (s : Scan) : s.Retains s.flushText := by
  unfold flushText
  split
  · exact .same rfl rfl fun _ _ hq => .inl hq
  · exact .flush (List.suffix_refl _) rfl rfl

/-- A quote of its kind closes a quotation. -/
theorem step_closes
    (hmode : s.mode = .single false ∧ c = '\'' ∨ s.mode = .double false false ∧ c = '"') :
    s.step brackets c =
      ({ ({ s with wordClosed := false } : Scan).closeQuotation with atBlank := false } :
        Scan).advance c := by
  obtain ⟨hmode, rfl⟩ | ⟨hmode, rfl⟩ := hmode
  · obtain ⟨hclosers, ⟨odd, hquotation⟩, hescaped⟩ := mode_eq_single hmode
    simp [step, take, stepSingle, hclosers, hquotation, hescaped]
  · obtain ⟨hclosers, ⟨openedAt, odd, hquotation, hfresh⟩, hescaped⟩ := mode_eq_double hmode
    have hpos : s.pos ≠ openedAt + 1 := beq_eq_false_iff_ne.mp hfresh
    simp [step, take, stepDouble, hclosers, hquotation, hescaped, hpos]

/-- What closes a doubled quotation takes back nothing that is secure. -/
theorem step_doubled_retains {afterQuote : Bool} (hmode : s.mode = .doubled afterQuote) :
    s.Retains (s.step brackets '"') := by
  obtain ⟨hclosers, ⟨second, before, hquotation⟩, -⟩ := mode_eq_doubled hmode
  have hbegins : ∀ part, s.Secure part → part <+:
      (if before < byteLength s.letters then s.letters.tail else s.letters).reverse := by
    intro part h
    split
    · rename_i hlonger
      rw [← List.dropLast_reverse]
      refine isPrefix_dropLast h.begins ?_
      rw [byteLength_reverse]
      exact Nat.lt_of_le_of_lt (h.kept second before hquotation) hlonger
    · exact h.begins
  simp only [step, take, stepDoubled, hclosers, hquotation, List.isEmpty_nil, Bool.not_true,
    Bool.false_eq_true, if_false]
  generalize (if before < byteLength s.letters then s.letters.tail else s.letters) = letters
    at hbegins ⊢
  split
  · split
    · rename_i hempty
      rw [List.isEmpty_iff.mp hempty] at hbegins
      exact .goes rfl fun part h => ⟨hbegins part h, fun _ _ hq => by cases hq⟩
    · refine .ends rfl fun part h => ?_
      rw [String.toList_ofList]
      exact hbegins part h
  · refine .goes rfl fun part h => ⟨?_, fun a b hq => h.kept a b (hquotation.trans hq)⟩
    exact h.begins.trans (List.reverse_prefix.mpr (List.suffix_cons _ _))

/-- **A character keeps what is secure in the word under way.** -/
theorem step_retains (brackets : Bool) (s : Scan) (c : Char) : s.Retains (s.step brackets c) := by
  by_cases hc : Copied s.mode c
  · -- a letter
    have hadds := @step_copied brackets s c hc
    refine .goes hadds.words fun part h => ⟨?_, fun second before hq => ?_⟩
    · rw [hadds.letters]
      exact h.begins.trans (List.reverse_prefix.mpr (List.suffix_cons _ _))
    · obtain hsame | hother := hadds.quotation
      · exact h.kept second before (hsame ▸ hq)
      · exact absurd hq (hother second before)
  cases hmode : s.mode with
  | bare hidden =>
    rw [hmode, Copied, not_or, Classical.not_not, Bool.not_eq_true] at hc
    obtain ⟨rfl, hc⟩ := hc
    obtain ⟨hclosers, hquotation, hescaped⟩ := mode_eq_bare hmode
    by_cases hblank : c = ' ' ∨ c = '\t'
    · rw [step_blank hmode hblank]
      unfold flushText
      split
      · exact .same rfl rfl fun _ _ hq => .inl hq
      · exact .flush (List.suffix_refl _) rfl rfl
    · have hopens : c = '\\' ∨ c = '\'' ∨ c = '"' := by
        rw [not_or] at hblank
        simpa [hblank] using hc
      refine .same ?_ ?_ fun second before hq => ?_ <;> rcases hopens with rfl | rfl | rfl <;>
        simp_all [step, take, stepBare, begin, advance]
  | single hidden =>
    rw [hmode, Copied, not_or, Classical.not_not, Bool.not_eq_true] at hc
    obtain ⟨rfl, rfl⟩ := hc
    rw [step_closes (.inl ⟨hmode, rfl⟩)]
    exact .flush (List.suffix_refl _) rfl rfl
  | double fresh hidden =>
    rw [hmode, Copied, not_or, Classical.not_not, Bool.not_eq_true] at hc
    obtain ⟨rfl, rfl⟩ := hc
    cases fresh with
    | true =>
      rw [step_doubles hmode]
      refine .same rfl rfl fun second before hq => ?_
      cases hq
      exact .inr rfl
    | false =>
      rw [step_closes (.inr ⟨hmode, rfl⟩)]
      exact .flush (List.suffix_refl _) rfl rfl
  | doubled afterQuote =>
    rw [hmode, Copied, Classical.not_not] at hc
    rw [hc.2]
    exact step_doubled_retains hmode
  | bracketed closer outer hidden =>
    rw [hmode] at hc
    exact absurd trivial hc

/-- The word of number `i` begins with `part`, and the scan keeps it so. -/
inductive Bears (i : Nat) (part : List Char) (s : Scan) : Prop
  | finished {w : Word} (hget : s.words[i]? = some w) (h : part <+: w.text.toList)
  | underway (hi : s.words.length = i) (h : s.Secure part)

variable {i : Nat} {part : List Char}

theorem Retains.words (h : s.Retains s') : s.words <+: s'.words := by
  cases h with
  | goes hwords => exact hwords ▸ List.prefix_refl _
  | ends hwords => exact hwords ▸ List.prefix_append _ _

theorem Retains.bears (h : s.Retains s') (hbears : s.Bears i part) : s'.Bears i part := by
  cases hbears with
  | finished hget hpart => exact .finished (getElem?_of_isPrefix h.words hget) hpart
  | underway hi hpart =>
    cases h with
    | goes hwords h => exact .underway (hwords ▸ hi) (h part hpart)
    | ends hwords h =>
      refine .finished ?_ (h part hpart)
      rw [hwords, ← hi]
      exact List.getElem?_concat_length

theorem Bears.through (brackets : Bool) (h : s.Bears i part) (cs : List Char) :
    (s.through brackets cs).Bears i part :=
  through_keeps (P := Bears i part) (fun s c h => (step_retains brackets s c).bears h) h cs

theorem words_through (s : Scan) (cs : List Char) : s.words <+: (s.through brackets cs).words :=
  through_keeps (P := fun t => s.words <+: t.words)
    (fun t c h => h.trans (step_retains brackets t c).words) (List.prefix_refl _) cs

/-! ## 3. The end of a segment -/

theorem retains_flushEnd (s : Scan) : s.Retains s.flushEnd := by
  unfold flushEnd
  split
  · exact .flush (List.suffix_refl _) rfl rfl
  · split
    · exact .flush (List.suffix_refl _) rfl rfl
    · have hsuffix : s.letters <:+ if s.escaped then '\\' :: s.letters else s.letters := by
        split
        · exact List.suffix_cons _ _
        · exact List.suffix_refl _
      generalize (if s.escaped then '\\' :: s.letters else s.letters) = letters at hsuffix
      unfold flushText
      split
      · rename_i hempty
        obtain rfl : letters = [] := List.isEmpty_iff.mp hempty
        exact .same rfl (List.suffix_nil.mp hsuffix).symm fun _ _ hq => .inl hq
      · exact .flush hsuffix rfl rfl

/-- The end of the line keeps what is secure. -/
theorem retains_finish (htracked : s.Tracked) : s.Retains s.settleDoubled.flushEnd := by
  by_cases hq : ∃ second before, s.quotation = some (.doubled second before)
  · obtain ⟨second, before, hq⟩ := hq
    obtain ⟨inner, entry, hinside⟩ := htracked second before hq
    have hsecure : ∀ part, s.Secure part → part <+: entry := by
      intro part h
      obtain ⟨second', hquotation, -⟩ := hinside.quotation
      have hbegins := h.begins
      rw [hinside.letters, List.reverse_append, List.reverse_reverse, List.reverse_reverse]
        at hbegins
      exact isPrefix_of_byteLength_le hbegins (List.prefix_append _ _) (h.kept _ _ hquotation)
    by_cases hgap : IsGap inner
    · obtain ⟨w, hwords, htext⟩ := hinside.finish_blank hgap
      exact .ends hwords fun part h => htext ▸ hsecure part h
    · obtain ⟨w, hwords, htext⟩ := hinside.finish_open hgap
      exact .ends hwords fun part h => htext ▸ (hsecure part h).trans (List.prefix_append _ _)
  · have hsettle : s.settleDoubled = s := by
      unfold settleDoubled
      split
      · rename_i hquotation
        exact absurd ⟨_, _, hquotation⟩ hq
      · rfl
    rw [hsettle]
    exact retains_flushEnd s

/-- The words of a segment are those at the end of the line or at an operator. -/
theorem HeadEnds.words {note : Option (Nat × Nat)} {t : Segment} {back : List Segment}
    (h : (s.noting note).HeadEnds o t back) :
    t.words = s.settleDoubled.flushEnd.words ∨ (s.isBare = true ∧ t.words = s.flushText.words) := by
  cases h with
  | line =>
    left
    show (s.noting note).settleDoubled.flushEnd.words = _
    rw [settleDoubled_noting, flushEnd_noting]
    rfl
  | operator hbare =>
    right
    refine ⟨hbare, ?_⟩
    show (s.noting note).flushText.words = _
    rw [flushText_noting]
    rfl

/-- A word that is selected at the end of a scan is the last one, if the cursor is there, or the one
that was noted. -/
theorem emit_selection {next : Nat} {op : Operator} {status : SegmentStatus} {openEnd : Bool}
    {i : Nat} (h : (s.emit o next op status openEnd).selectedWord = some i) :
    ∃ c, o.cursor = some c ∧
      ((s.pos ≤ c ∧ s.lastWord = some (i, (s.emit o next op status openEnd).cursorInWord)) ∨
        (c < s.pos ∧
          s.selection = some (i, (s.emit o next op status openEnd).cursorInWord))) := by
  simp only [emit, Option.map_eq_some_iff] at h ⊢
  obtain ⟨⟨j, k⟩, hselection, rfl⟩ := h
  rw [hselection]
  split at hselection
  · rename_i hcursor
    obtain ⟨c, hc⟩ := Option.isSome_iff_exists.mp hcursor
    obtain ⟨hnoted, -⟩ := Option.filter_eq_some_iff.mp hselection
    rw [hc, Option.any_some] at hnoted
    refine ⟨c, (Option.filter_eq_some_iff.mp hc).1, ?_⟩
    split at hnoted
    · rename_i hpast
      split at hnoted
      · exact .inl ⟨of_decide_eq_true hpast, hnoted⟩
      · cases hnoted
    · rename_i hpast
      exact .inr ⟨Nat.lt_of_not_le fun hle => hpast (decide_eq_true hle), hnoted⟩
  · cases hselection

theorem lastWord_eq_some {i k : Nat} (h : s.lastWord = some (i, k)) :
    i + 1 = s.words.length ∧ ∃ w, s.words[i]? = some w ∧ k = byteLength w.text.toList := by
  obtain ⟨w, hlast, heq⟩ := Option.map_eq_some_iff.mp h
  cases heq
  rw [List.getLast?_eq_getElem?] at hlast
  have hlt := (List.getElem?_eq_some_iff.mp hlast).1
  exact ⟨Nat.sub_add_cancel (Nat.zero_lt_of_lt hlt), w, hlast, rfl⟩

@[simp] theorem flushText_selection (s : Scan) : s.flushText.selection = s.selection := by
  unfold flushText
  split <;> rfl

@[simp] theorem settleDoubled_selection (s : Scan) : s.settleDoubled.selection = s.selection := by
  unfold settleDoubled
  split
  · dsimp only
    split <;> rfl
  · rfl

@[simp] theorem flushEnd_pos (s : Scan) : s.flushEnd.pos = s.pos := by
  unfold flushEnd
  split
  · rfl
  · split
    · rfl
    · exact flushText_pos _

@[simp] theorem flushEnd_selection (s : Scan) : s.flushEnd.selection = s.selection := by
  unfold flushEnd
  split
  · rfl
  · split
    · rfl
    · exact flushText_selection _

/-- Where the selection comes from: the end of the last word, or what was noted. -/
theorem HeadEnds.selection_source {t : Segment} {back : List Segment} (h : s.HeadEnds o t back)
    {i : Nat} (hi : t.selectedWord = some i) :
    ∃ c, o.cursor = some c ∧
      ((s.pos ≤ c ∧ i + 1 = t.words.length ∧
          ∃ w, t.words[i]? = some w ∧ t.cursorInWord = byteLength w.text.toList) ∨
        (c < s.pos ∧ s.selection = some (i, t.cursorInWord))) := by
  cases h with
  | line =>
    obtain ⟨c, hc, ⟨hle, hlast⟩ | ⟨hlt, hnoted⟩⟩ := emit_selection hi
    · rw [flushEnd_pos, settleDoubled_pos] at hle
      exact ⟨c, hc, .inl ⟨hle, lastWord_eq_some hlast⟩⟩
    · rw [flushEnd_pos, settleDoubled_pos] at hlt
      rw [flushEnd_selection, settleDoubled_selection] at hnoted
      exact ⟨c, hc, .inr ⟨hlt, hnoted⟩⟩
  | operator =>
    obtain ⟨c, hc, ⟨hle, hlast⟩ | ⟨hlt, hnoted⟩⟩ := emit_selection hi
    · rw [flushText_pos] at hle
      exact ⟨c, hc, .inl ⟨hle, lastWord_eq_some hlast⟩⟩
    · rw [flushText_pos] at hlt
      rw [flushText_selection] at hnoted
      exact ⟨c, hc, .inr ⟨hlt, hnoted⟩⟩

/-- Where the place of the cursor comes from. -/
theorem HeadEnds.selection {t : Segment} {back : List Segment} (h : s.HeadEnds o t back) {i : Nat}
    (hi : t.selectedWord = some i) :
    ∃ c, o.cursor = some c ∧
      ((s.pos ≤ c ∧ ∃ w, t.words[i]? = some w ∧ t.cursorInWord = byteLength w.text.toList) ∨
        (c < s.pos ∧ s.selection = some (i, t.cursorInWord))) := by
  obtain ⟨c, hc, ⟨hle, -, hlast⟩ | hnoted⟩ := h.selection_source hi
  · exact ⟨c, hc, .inl ⟨hle, hlast⟩⟩
  · exact ⟨c, hc, .inr hnoted⟩

end Scan

/-! ## 4. The place of the cursor -/

/-- What comes after `inner` in a doubled quotation takes its last character back: a quote that
closes the quotation, or only blanks up to the end of the line after only blanks. -/
def TakesBack (inner after : List Char) : Prop :=
  (inner.getLast? = some '"' ∧ after.head? = some '"') ∨ (after ≠ [] ∧ IsGap (inner ++ after))

/-- The cursor stands in a doubled quotation, after a character that is taken back. -/
def Overshoots (o : ScanOptions) (front : List Segment) (t : Segment) : Prop :=
  ∃ p q inner, t.typed.toList = p ++ q ∧
    o.cursor = some (byteLength (lineOf front) + byteLength p) ∧ InDoubled o.brackets p inner ∧
    inner ≠ [] ∧ TakesBack inner q

namespace Scan

variable {o : ScanOptions} {s : Scan} {brackets : Bool} {c : Char} {n i : Nat}
  {inner entry : List Char} {t : Segment} {back : List Segment} {note : Option (Nat × Nat)}

/-- How a segment ends keeps what is secure. -/
theorem HeadEnds.retains (h : (s.noting note).HeadEnds o t back) (htracked : s.Tracked) :
    ∃ s', s.Retains s' ∧ t.words = s'.words := by
  obtain hwords | ⟨-, hwords⟩ := h.words
  · exact ⟨_, retains_finish htracked, hwords⟩
  · exact ⟨_, retains_flushText s, hwords⟩

/-- A word of the segment that the scan bears begins with what it bears. -/
theorem HeadEnds.begins (h : (s.noting note).HeadEnds o t back) (htracked : s.Tracked)
    {part : List Char} (hbears : s.Bears i part) (hi : i < t.words.length) :
    ∃ w, t.words[i]? = some w ∧ part <+: w.text.toList := by
  obtain ⟨s', hretains, hwords⟩ := h.retains htracked
  rw [hwords] at hi ⊢
  cases hretains.bears hbears with
  | finished hget hpart => exact ⟨_, hget, hpart⟩
  | underway hlen hpart => exact absurd hlen (Nat.ne_of_gt hi)

/-- A word that is finished on the way is one of the segment. -/
theorem HeadEnds.word {x rest : List Char} {w : Word}
    (h : ((s.through brackets (x ++ rest)).noting note).HeadEnds o t back)
    (htracked : (s.through brackets (x ++ rest)).Tracked)
    (hfinished : (s.through brackets x).words = s.words ++ [w]) :
    t.words[s.words.length]? = some w := by
  obtain ⟨s', hretains, hwords⟩ := h.retains htracked
  rw [through_append] at hretains
  have hgrown : s.words ++ [w] <+: t.words := by
    rw [← hfinished, hwords]
    exact (words_through _ rest).trans hretains.words
  exact getElem?_of_isPrefix hgrown List.getElem?_concat_length

namespace InsideDoubled

variable {q : List Char}

/-- The word of a doubled quotation that is closed after its first character from here on. It has
what was in the quotation, unless that was blank and the line ends in it. -/
theorem word_later (h : s.InsideDoubled inner entry) (hopen : ¬ (s.read.head? = some '"' ∧ c = '"'))
    (hends : ((s.through brackets (c :: q)).noting note).HeadEnds o t back)
    (htracked : (s.through brackets (c :: q)).Tracked) :
    ∃ w, t.words[s.words.length]? = some w ∧
      ((IsGap (inner ++ c :: q) ∧ w.text.toList = entry) ∨
        (¬ IsGap (inner ++ c :: q) ∧ entry ++ inner <+: w.text.toList)) := by
  obtain ⟨hgoes, hsame⟩ := h.goes brackets hopen
  obtain ⟨hinside, hstays⟩ | ⟨x, rest, rfl, hlast, hinside, hstays⟩ :=
    hgoes.goes_on brackets (by simp) q
  · -- the line ends in the quotation
    rw [List.append_assoc, List.singleton_append] at hinside
    have hline : t.words =
        ((s.step brackets c).through brackets q).settleDoubled.flushEnd.words := by
      refine hends.words.resolve_right fun hbare => ?_
      obtain ⟨second, hquotation, -⟩ := hinside.quotation
      have hnone := (mode_eq_bare (isBare_iff.mp hbare.1)).2.1
      rw [through_cons, hquotation] at hnone
      cases hnone
    rw [hline]
    by_cases hgap : IsGap (inner ++ c :: q)
    · obtain ⟨w, hfinished, htext⟩ := hinside.finish_blank hgap
      rw [hfinished, hstays, hsame]
      exact ⟨w, List.getElem?_concat_length, .inl ⟨hgap, htext⟩⟩
    · obtain ⟨w, hfinished, htext⟩ := hinside.finish_open hgap
      rw [hfinished, hstays, hsame]
      refine ⟨w, List.getElem?_concat_length, .inr ⟨hgap, ?_⟩⟩
      rw [htext, ← List.append_assoc]
      exact List.prefix_append _ _
  · -- the quotation is closed further on
    obtain ⟨w, hfinished, htext⟩ := hinside.closes brackets hlast
    have hread : (s.through brackets (c :: x ++ ['"'])).words = s.words ++ [w] := by
      rw [through_append, through_cons]
      exact hfinished.trans (by rw [hstays, hsame])
    have hsplit : c :: (x ++ '"' :: rest) = c :: x ++ ['"'] ++ rest := by simp
    rw [hsplit] at hends htracked
    refine ⟨w, hends.word htracked hread, .inr ⟨fun hgap => ?_, ?_⟩⟩
    · exact absurd (hgap '"' (by simp)) (by decide)
    · rw [htext, List.append_assoc, List.dropLast_append_of_ne_nil (by simp), ← List.append_assoc]
      exact List.prefix_append _ _

/-- **The word that a doubled quotation is part of.** It has all the letters from before the cursor,
unless the last of them is taken back. -/
theorem word (h : s.InsideDoubled inner entry) (hne : inner ≠ []) (hq : q ≠ [])
    (hends : ((s.through brackets q).noting note).HeadEnds o t back)
    (htracked : (s.through brackets q).Tracked) :
    ∃ w, t.words[s.words.length]? = some w ∧
      (TakesBack inner q → byteLength w.text.toList < byteLength s.letters) ∧
      (¬ TakesBack inner q → s.letters.reverse <+: w.text.toList) := by
  have hletters : s.letters.reverse = entry ++ inner := by
    rw [h.letters, List.reverse_append, List.reverse_reverse, List.reverse_reverse]
  have hsize : byteLength s.letters = byteLength entry + byteLength inner := by
    rw [← byteLength_reverse, hletters, byteLength_append]
  obtain ⟨c, q, rfl⟩ := List.exists_cons_of_ne_nil hq
  by_cases hclose : inner.getLast? = some '"' ∧ c = '"'
  · -- the cursor stands between the two closing quotes
    obtain ⟨hlast, rfl⟩ := hclose
    obtain ⟨w, hfinished, htext⟩ := h.closes brackets hlast
    obtain ⟨front, rfl⟩ := List.getLast?_eq_some_iff.mp hlast
    have hget := hends.word (x := ['"']) htracked hfinished
    refine ⟨w, hget, fun _ => ?_, fun hno => absurd (.inl ⟨hlast, rfl⟩) hno⟩
    have hquote : byteLength ['"'] = 1 := rfl
    rw [htext, hsize, List.dropLast_concat, byteLength_append, byteLength_append]
    omega
  · have hopen : ¬ (s.read.head? = some '"' ∧ c = '"') := by
      rwa [h.head?_eq, or_iff_right hne]
    obtain ⟨w, hget, ⟨hgap, htext⟩ | ⟨hgap, hbegins⟩⟩ := h.word_later hopen hends htracked
    · refine ⟨w, hget, fun _ => ?_, fun hno => absurd (.inr ⟨hq, hgap⟩) hno⟩
      have hpos : 0 < byteLength inner :=
        Nat.lt_of_lt_of_le (List.length_pos_iff.mpr hne) (length_le_byteLength inner)
      rw [htext, hsize]
      omega
    · refine ⟨w, hget, fun hback => ?_, fun _ => hletters ▸ hbegins⟩
      obtain ⟨hlast, hhead⟩ | ⟨-, hblank⟩ := hback
      · exact absurd ⟨hlast, by simpa using hhead⟩ hclose
      · exact absurd hblank hgap

end InsideDoubled

/-- What is noted: the word that has just been closed, or the one after the finished words. -/
theorem markCursor_source {k : Nat} (h : s.markCursor.selection = some (i, k)) :
    s.atBlank = false ∧
      ((s.wordClosed = true ∧ s.wordStart = none ∧ i + 1 = s.words.length ∧
          ∃ w, s.words[i]? = some w ∧ k = byteLength w.text.toList) ∨
        (¬ (s.wordClosed = true ∧ s.wordStart = none) ∧ i = s.words.length ∧
          k = byteLength s.letters)) := by
  simp only [markCursor] at h
  split at h
  · cases h
  · rename_i hblank
    refine ⟨Bool.eq_false_iff.mpr hblank, ?_⟩
    split at h
    · rename_i hclosed
      rw [Bool.and_eq_true, Option.isNone_iff_eq_none] at hclosed
      exact .inl ⟨hclosed.1, hclosed.2, lastWord_eq_some h⟩
    · rename_i hopen
      rw [Bool.and_eq_true, Option.isNone_iff_eq_none] at hopen
      cases h
      exact .inr ⟨hopen, rfl, rfl⟩

/-- A place that is noted in a word under way, or behind a word. -/
theorem markCursor_selection {k : Nat} (h : s.markCursor.selection = some (i, k)) :
    s.atBlank = false ∧
      ((s.wordClosed = true ∧ ∃ w, s.words[i]? = some w ∧ k = byteLength w.text.toList) ∨
        (i = s.words.length ∧ k = byteLength s.letters)) := by
  obtain ⟨hblank, ⟨hclosed, -, -, hlast⟩ | ⟨-, hplace⟩⟩ := markCursor_source h
  · exact ⟨hblank, .inl ⟨hclosed, hlast⟩⟩
  · exact ⟨hblank, .inr hplace⟩

/-- **A word that was under way at the cursor begins with what it had there**, unless the last of it
is taken back. -/
theorem Fresh.begins {p q : List Char} (hs : s.Fresh n) (hq : q ≠ [])
    (hends : ((s.through brackets (p ++ q)).noting note).HeadEnds o t back)
    (hno : ∀ inner, InDoubled brackets p inner → inner ≠ [] → ¬ TakesBack inner q)
    (hi : (s.through brackets p).words.length < t.words.length) :
    ∃ w, t.words[(s.through brackets p).words.length]? = some w ∧
      (s.through brackets p).letters.reverse <+: w.text.toList := by
  have htracked : (s.through brackets (p ++ q)).Tracked := hs.tracked _
  by_cases hin : ∃ inner, InDoubled brackets p inner ∧ inner ≠ []
  · obtain ⟨inner, hin, hne⟩ := hin
    obtain ⟨entry, hinside⟩ := through_inDoubled hin hs
    rw [through_append] at hends htracked
    obtain ⟨w, hget, -, hbegins⟩ := hinside.word hne hq hends htracked
    exact ⟨w, hget, hbegins (hno inner hin hne)⟩
  · -- nothing of the word can be taken back
    have hsecure : (s.through brackets p).Secure (s.through brackets p).letters.reverse := by
      refine ⟨List.prefix_refl _, fun second before hquotation => ?_⟩
      obtain ⟨inner, entry, hinner, hinside⟩ := hs.insideDoubled hquotation
      obtain rfl : inner = [] := Classical.not_not.mp fun hne => hin ⟨inner, hinner, hne⟩
      obtain ⟨second', hquotation', -⟩ := hinside.quotation
      rw [hquotation] at hquotation'
      cases hquotation'
      rw [hinside.letters, byteLength_reverse]
      simp
    have hbears := (Bears.underway rfl hsecure).through brackets q
    rw [← through_append] at hbears
    exact hends.begins htracked hbears hi

/-- A cursor that overshoots stands in a doubled quotation, before something that takes the last
character back. -/
theorem Fresh.inside_of_overshoots {front : List Segment} {p q : List Char}
    (hs : s.Fresh (byteLength (lineOf front))) (htyped : t.typed.toList = p ++ q)
    (hcursor : o.cursor = some (byteLength (lineOf front) + byteLength p))
    (h : Overshoots o front t) :
    ∃ inner entry, (s.through o.brackets p).InsideDoubled inner entry ∧ inner ≠ [] ∧
      TakesBack inner q := by
  obtain ⟨p', q', inner, htyped', hcursor', hin, hne, hback⟩ := h
  rw [hcursor, Option.some.injEq] at hcursor'
  rw [htyped] at htyped'
  obtain rfl : p = p' := append_inj_of_byteLength htyped' (by omega)
  obtain rfl : q = q' := List.append_cancel_left htyped'
  obtain ⟨entry, hinside⟩ := through_inDoubled hin hs
  exact ⟨inner, entry, hinside, hne, hback⟩

end Scan

/-- A cursor at the end of the text of its segment, or behind it, overshoots nothing. -/
theorem not_overshoots_of_le {o : ScanOptions} {front : List Segment} {t : Segment} {c : Nat}
    (hcursor : o.cursor = some c)
    (hle : byteLength (lineOf front) + byteLength t.typed.toList ≤ c) : ¬ Overshoots o front t := by
  rintro ⟨p, q, inner, htyped, hcursor', -, -, hback⟩
  rw [hcursor, Option.some.injEq] at hcursor'
  rw [htyped, byteLength_append] at hle
  obtain rfl : q = [] := eq_nil_of_byteLength_eq_zero (by omega)
  obtain ⟨-, hhead⟩ | ⟨hne, -⟩ := hback
  · cases hhead
  · exact absurd rfl hne

/-- **The cursor stands in its word.** A word that is selected is one of the segment, and the cursor
is noted at a character boundary of its text, unless it overshoots; then it is noted past the end of
the text. -/
theorem cursorInWord_onBoundary {o : ScanOptions} {line : String} {front back : List Segment}
    {t : Segment} {i : Nat} (h : segments o line = front ++ t :: back)
    (hi : t.selectedWord = some i) :
    ∃ w, t.words[i]? = some w ∧ (¬ Overshoots o front t → w.HasBoundary t.cursorInWord) ∧
      (Overshoots o front t → byteLength w.text.toList < t.cursorInWord) := by
  obtain ⟨s, note, hfresh, hnoted, hends⟩ := segments_passage h
  have hmem : t ∈ segments o line := h ▸ List.mem_append_right _ List.mem_cons_self
  have hindex : i < t.words.length := Scan.segmentsFrom_selected t hmem i hi
  have htracked : (s.through o.brackets t.typed.toList).Tracked := hfresh.tracked _
  have hpos : ((s.through o.brackets t.typed.toList).noting note).pos =
      byteLength (lineOf front) + byteLength t.typed.toList := by
    rw [← hfresh.pos, ← Scan.through_pos]
    rfl
  obtain ⟨c, hcursor, ⟨hpast, w, hget, hplace⟩ | ⟨hlt, hselection⟩⟩ := hends.selection hi
  · -- the cursor stands at the end of the last word
    rw [hpos] at hpast
    exact ⟨w, hget, fun _ => ⟨_, List.prefix_refl _, hplace.symm⟩,
      fun hover => absurd hover (not_overshoots_of_le hcursor hpast)⟩
  · -- the cursor stands before a character of the segment
    rw [hpos] at hlt
    obtain rfl : note = some (i, t.cursorInWord) := hselection
    obtain hnone | ⟨p, q, htyped, hcursor', hmark⟩ := hnoted
    · obtain ⟨b, w, rfl⟩ := hfresh
      cases hnone
    rw [hfresh.pos] at hcursor'
    have hq : q ≠ [] := by
      rintro rfl
      rw [hcursor, Option.some.injEq] at hcursor'
      rw [htyped, List.append_nil, hcursor'] at hlt
      exact Nat.lt_irrefl _ hlt
    have hover := hfresh.inside_of_overshoots htyped hcursor'
    rw [htyped] at hends htracked
    obtain ⟨-, ⟨hclosed, w, hget, hplace⟩ | ⟨rfl, hplace⟩⟩ := Scan.markCursor_selection hmark.symm
    · -- behind a word that a quotation has finished
      obtain ⟨s', hretains, hwords⟩ := hends.retains htracked
      rw [Scan.through_append] at hretains
      have hgrown := (Scan.words_through (s.through o.brackets p) q).trans hretains.words
      rw [← hwords] at hgrown
      refine ⟨w, getElem?_of_isPrefix hgrown hget, fun _ => ⟨_, List.prefix_refl _, hplace.symm⟩,
        fun h => ?_⟩
      obtain ⟨inner, entry, hinside, -⟩ := hover h
      rw [hinside.wordClosed] at hclosed
      cases hclosed
    · -- in a word under way
      by_cases h : Overshoots o front t
      · obtain ⟨inner, entry, hinside, hne, hback⟩ := hover h
        rw [Scan.through_append] at hends htracked
        obtain ⟨w, hget, hshort, -⟩ := hinside.word hne hq hends htracked
        exact ⟨w, hget, fun hno => absurd h hno, fun _ => hplace ▸ hshort hback⟩
      · obtain ⟨w, hget, hbegins⟩ := hfresh.begins hq hends
          (fun inner hin hne hback => h ⟨p, q, inner, htyped, hcursor', hin, hne, hback⟩) hindex
        exact ⟨w, hget, fun _ => ⟨_, hbegins, by rw [hplace, byteLength_reverse]⟩,
          fun hyes => absurd hyes h⟩

/-- A cursor inside a word that a quotation ends, in the second segment. -/
theorem cursorInWord_onBoundary_after_pipe :
    let o : ScanOptions := { cursor := some 6, operators := [.pipe] }
    let front : List Segment :=
      [{ typed := "a ", words := [⟨"a", 0, .plain⟩], operator := .pipe }]
    let t : Segment :=
      { typed := " é\"b c\"", words := [⟨"éb c", 4, .plain⟩], cursor := some 6,
        selectedWord := some 0, cursorInWord := 2, operator := .endOfLine }
    segments o "a | é\"b c\"" = front ++ [t] ∧ t.selectedWord = some 0 ∧
      ∃ w, t.words[0]? = some w ∧ (¬ Overshoots o front t → w.HasBoundary t.cursorInWord) ∧
        (Overshoots o front t → byteLength w.text.toList < t.cursorInWord) := by
  intro o front t
  have hsegs : segments o "a | é\"b c\"" = front ++ [t] := by decide +kernel
  exact ⟨hsegs, rfl, cursorInWord_onBoundary hsegs rfl⟩

/-- Between the two quotes that close a doubled quotation the cursor is noted past the end of the
word. -/
theorem cursorInWord_past_word : ¬ ∀ (o : ScanOptions) (line : String), ∀ t ∈ segments o line,
    ∀ i, t.selectedWord = some i →
      ∃ w, t.words[i]? = some w ∧ t.cursorInWord ≤ byteLength w.text.toList := by
  intro hall
  let o : ScanOptions := { cursor := some 4 }
  let t : Segment :=
    { typed := "\"\"a\"\"", words := [⟨"a", 0, .plain⟩], cursor := some 4,
      selectedWord := some 0, cursorInWord := 2, operator := .endOfLine }
  have hsegs : segments o "\"\"a\"\"" = [t] := by decide +kernel
  obtain ⟨w, hget, hle⟩ := hall o "\"\"a\"\"" t (by rw [hsegs]; simp) 0 rfl
  cases hget
  exact absurd hle (by decide +kernel)

/-- So it is among blanks after two quotes with which the line ends. -/
example :
    (segments { cursor := some 3 } "\"\"  ").map (fun t => (t.texts, t.cursorInWord)) =
      [([""], 1)] := by
  decide +kernel

end LineShell
