import LineShell.Proofs.CursorInWord

/-!
# When a word is under way

The scan notes where a word begins, at its first letter or at the backslash, quote or bracket that
opens it, and it forgets the place when the word is finished. So the place is known exactly while
there is something of a word: letters, or something that is open (`Underway`). Otherwise the scan is
between words (`Between`).

* `Moves`: what one character can do to the words. A word begins or goes on, it ends, a blank
  follows a blank, or an empty doubled quotation leaves no word behind. `step_moves` says that there
  is nothing else, and `Fresh.moves` says it of every text;
* `Leaves`: what the end of a segment can do to them, and what it says of the last word.
-/

namespace LineShell
namespace Scan

variable {o : ScanOptions} {s s' : Scan} {brackets : Bool} {c : Char} {n : Nat}

/-! ## 1. Under way or between words -/

/-- No word is under way, and nothing is open. -/
structure Between (s : Scan) : Prop where
  wordStart : s.wordStart = none
  letters : s.letters = []
  mode : s.mode = .bare false

/-- A word is under way: its place is known, and there is something of it. -/
structure Underway (s : Scan) : Prop where
  wordStart : s.wordStart.isSome = true
  active : s.letters ≠ [] ∨ s.mode ≠ .bare false

/-- The place of a word is known exactly while there is something of it. -/
def Begun (s : Scan) : Prop := s.Between ∨ s.Underway

theorem Fresh.between (h : s.Fresh n) : s.Between := by
  obtain ⟨b, w, rfl⟩ := h
  exact ⟨rfl, rfl, rfl⟩

theorem Begun.between_of_none (h : s.Begun) (hnone : s.wordStart = none) : s.Between := by
  rcases h with h | h
  · exact h
  · have hsome := h.wordStart
    rw [hnone] at hsome
    cases hsome

theorem Begun.underway_of_mode (h : s.Begun) (hmode : s.mode ≠ .bare false) : s.Underway := by
  rcases h with h | h
  · exact absurd h.mode hmode
  · exact h

theorem Begun.underway_of_letters (h : s.Begun) (hletters : s.letters ≠ []) : s.Underway := by
  rcases h with h | h
  · exact absurd h.letters hletters
  · exact h

/-- The word under way is finished at its place. -/
theorem Underway.offset (h : s.Underway) : s.wordStart = some (s.wordStart.getD s.start) := by
  obtain ⟨a, ha⟩ := Option.isSome_iff_exists.mp h.wordStart
  rw [ha, Option.getD_some]

/-! ## 2. One character -/

/-- What one character can do to the words. -/
inductive Moves (s : Scan) (c : Char) (s' : Scan) : Prop
  /-- The word goes on, or it begins here: with a letter, or because something is opened. -/
  | goes (hwords : s'.words = s.words) (hstart : s'.wordStart = some (s.wordStart.getD s.pos))
      (hactive : (Copied s.mode c ∧ s'.letters ≠ []) ∨ s'.mode ≠ .bare false)
      (hblank : s'.atBlank = false) (hclosed : s'.wordClosed = false)
  /-- The word is finished, by a blank or by the end of its quotation. -/
  | ends {w : Word} (hc : ¬ Copied s.mode c) (hwords : s'.words = s.words ++ [w])
      (hstart : s.wordStart = some w.offset) (hplain : w.status = .plain) (hbetween : s'.Between)
      (hmark : s'.atBlank = true ∨ s'.wordClosed = true)
  /-- A blank between words. -/
  | blank (hc : c = ' ' ∨ c = '\t') (hwords : s'.words = s.words) (hold : s.Between)
      (hbetween : s'.Between) (hblank : s'.atBlank = true)
  /-- The third of three double quotes that nothing of a word stands before. -/
  | drops (hc : c = '"') (hwords : s'.words = s.words) (hmode : s.mode = .doubled true)
      (hletters : s.letters = []) (hbetween : s'.Between) (hblank : s'.atBlank = false)
      (hclosed : s'.wordClosed = false)

theorem Moves.begun (h : s.Moves c s') : s'.Begun := by
  cases h with
  | goes _ hstart hactive => exact .inr ⟨by rw [hstart]; rfl, hactive.imp_left And.right⟩
  | ends _ _ _ _ hbetween => exact .inl hbetween
  | blank _ _ _ hbetween => exact .inl hbetween
  | drops _ _ _ _ hbetween => exact .inl hbetween

/-- After a letter the scan is not at a blank, and no word has just been closed. -/
theorem step_copied_marks (hc : Copied s.mode c) :
    (s.step brackets c).atBlank = false ∧ (s.step brackets c).wordClosed = false := by
  cases hclosers : s.closers with
  | cons closer outer =>
    simp only [step, take, hclosers, List.isEmpty_cons, Bool.not_false, if_true, stepBracketed]
    split_ifs <;> exact ⟨rfl, rfl⟩
  | nil =>
    simp only [step, take, hclosers, List.isEmpty_nil, Bool.not_true, Bool.false_eq_true, if_false]
    rcases hq : s.quotation with - | ⟨odd | ⟨openedAt, odd⟩ | ⟨second, before⟩⟩ <;>
      rw [mode, hclosers, hq, Copied] at hc
    · simp only [stepBare]
      split_ifs with hesc hblank
      · exact ⟨rfl, rfl⟩
      · simp_all
      all_goals exact ⟨rfl, rfl⟩
    · simp only [stepSingle]
      split_ifs with hesc hback hquote
      · exact ⟨rfl, rfl⟩
      · exact ⟨rfl, rfl⟩
      · exact absurd hquote (hc.resolve_left hesc)
      all_goals exact ⟨rfl, rfl⟩
    · simp only [stepDouble]
      split_ifs with hesc hback hquote hfresh
      · exact ⟨rfl, rfl⟩
      · exact ⟨rfl, rfl⟩
      · exact absurd hquote (hc.resolve_left hesc)
      · exact absurd hquote (hc.resolve_left hesc)
      all_goals exact ⟨rfl, rfl⟩
    · have hopen : ¬ (c = '"' && s.read.head? == some '"') = true := by simpa [and_comm] using hc
      simp only [stepDoubled, if_neg hopen]
      exact ⟨rfl, rfl⟩

/-- Only an empty doubled quotation, without letters before it, leaves nothing. -/
theorem InsideDoubled.letters_eq_nil {inner entry : List Char} {second before : Nat}
    (h : s.InsideDoubled inner entry) (hquotation : s.quotation = some (.doubled second before))
    (hread : s.read.head? = some '"')
    (hnil : (if before < byteLength s.letters then s.letters.tail else s.letters) = []) :
    s.letters = [] := by
  rcases h.head?_eq.mp hread with rfl | hlast
  · obtain ⟨second', hquotation', -⟩ := h.quotation
    rw [hquotation, Option.some.injEq, Quotation.doubled.injEq] at hquotation'
    have hlength : byteLength s.letters = before := by
      rw [h.letters, hquotation'.2]
      simp
    rwa [hlength, if_neg (Nat.lt_irrefl _)] at hnil
  · obtain ⟨front, rfl⟩ := List.getLast?_eq_some_iff.mp hlast
    have hne : front ≠ [] := by
      rintro rfl
      exact h.first rfl
    rw [h.letters] at hnil
    split at hnil <;> simp [hne] at hnil

section Step

variable (hcoherent : s.Coherent)

include hcoherent

/-- A blank outside everything. -/
theorem moves_blank (hbegun : s.Begun) (hmode : s.mode = .bare false) (hc : c = ' ' ∨ c = '\t') :
    s.Moves c (s.step brackets c) := by
  have hbare : (s.step brackets c).mode = .bare false := by
    rw [(mode_step hcoherent).1, hmode]
    rcases hc with rfl | rfl <;> cases brackets <;> rfl
  rw [step_blank hmode hc] at hbare ⊢
  by_cases hletters : s.letters = []
  · have hbetween : s.Between := by
      rcases hbegun with h | h
      · exact h
      · exact absurd (h.active.resolve_left fun hne => hne hletters) (fun hne => hne hmode)
    have hsame : ({ s with wordClosed := false } : Scan).flushText =
        ({ s with wordClosed := false } : Scan) := flushText_of_nil hletters
    rw [hsame] at hbare ⊢
    exact .blank hc rfl hbetween ⟨hbetween.wordStart, hletters, hbare⟩ rfl
  · have hflush : ({ s with wordClosed := false } : Scan).flushText =
        ({ s with wordClosed := false } : Scan).flush .plain := by
      rw [flushText, if_neg]
      rwa [List.isEmpty_iff]
    rw [hflush] at hbare ⊢
    have hno : ¬ Copied s.mode c := by
      rw [hmode]
      rcases hc with rfl | rfl <;> simp [Copied]
    have hoffset := (hbegun.underway_of_letters hletters).offset
    exact .ends hno rfl hoffset rfl ⟨rfl, rfl, hbare⟩ (.inl rfl)

/-- A backslash or a quote outside everything. -/
theorem moves_opens (hmode : s.mode = .bare false) (hc : c = '\\' ∨ c = '\'' ∨ c = '"') :
    s.Moves c (s.step brackets c) := by
  have hopen : (s.step brackets c).mode ≠ .bare false := by
    rw [(mode_step hcoherent).1, hmode]
    rcases hc with rfl | rfl | rfl <;> simp [LexMode.next]
  obtain ⟨hclosers, hquotation, hescaped⟩ := mode_eq_bare hmode
  refine .goes ?_ ?_ (.inr hopen) ?_ ?_ <;> rcases hc with rfl | rfl | rfl <;>
    simp [step, take, stepBare, begin, advance, hclosers, hquotation, hescaped]

/-- A quote that closes a quotation of its kind. -/
theorem moves_closes (hbegun : s.Begun)
    (hmode : s.mode = .single false ∧ c = '\'' ∨ s.mode = .double false false ∧ c = '"') :
    s.Moves c (s.step brackets c) := by
  have hbare : (s.step brackets c).mode = .bare false := by
    rw [(mode_step hcoherent).1]
    obtain ⟨hmode, rfl⟩ | ⟨hmode, rfl⟩ := hmode <;> rw [hmode] <;> rfl
  have hunderway : s.Underway := by
    refine hbegun.underway_of_mode ?_
    obtain ⟨hmode, -⟩ | ⟨hmode, -⟩ := hmode <;> rw [hmode] <;> simp
  have hno : ¬ Copied s.mode c := by
    obtain ⟨hmode, rfl⟩ | ⟨hmode, rfl⟩ := hmode <;> rw [hmode] <;> simp [Copied]
  rw [step_closes hmode] at hbare ⊢
  exact .ends hno rfl hunderway.offset rfl ⟨rfl, rfl, hbare⟩ (.inr rfl)

/-- A double quote that closes a doubled quotation. -/
theorem moves_closes_doubled (htracked : s.Tracked) (hbegun : s.Begun)
    (hmode : s.mode = .doubled true) : s.Moves '"' (s.step brackets '"') := by
  have hbare : (s.step brackets '"').mode = .bare false := by
    rw [(mode_step hcoherent).1, hmode]
    rfl
  have hunderway : s.Underway := hbegun.underway_of_mode (by rw [hmode]; simp)
  have hno : ¬ Copied s.mode '"' := by rw [hmode]; simp [Copied]
  obtain ⟨hclosers, ⟨second, before, hquotation⟩, hread⟩ := mode_eq_doubled hmode
  obtain ⟨inner, entry, hinside⟩ := htracked second before hquotation
  have hnothing := hinside.letters_eq_nil hquotation (beq_iff_eq.mp hread)
  simp only [step, take, stepDoubled, hclosers, hquotation, hread, List.isEmpty_nil, Bool.not_true,
    Bool.false_eq_true, if_false, decide_true, Bool.and_self, if_true] at hbare ⊢
  generalize (if before < byteLength s.letters then s.letters.tail else s.letters) = letters
    at hnothing hbare ⊢
  cases letters with
  | nil => exact .drops rfl rfl hmode (hnothing rfl) ⟨rfl, rfl, hbare⟩ rfl rfl
  | cons d ds => exact .ends hno rfl hunderway.offset rfl ⟨rfl, rfl, hbare⟩ (.inr rfl)

/-- **What one character does to the words.** -/
theorem step_moves (htracked : s.Tracked) (hbegun : s.Begun) : s.Moves c (s.step brackets c) := by
  by_cases hc : Copied s.mode c
  · -- a letter
    have hadds := @step_copied brackets s c hc
    obtain ⟨hblank, hclosed⟩ := @step_copied_marks s brackets c hc
    exact .goes hadds.words hadds.wordStart (.inl ⟨hc, by rw [hadds.letters]; simp⟩) hblank hclosed
  cases hmode : s.mode with
  | bare hidden =>
    rw [hmode, Copied, not_or, Classical.not_not, Bool.not_eq_true] at hc
    obtain ⟨rfl, hc⟩ := hc
    by_cases hblank : c = ' ' ∨ c = '\t'
    · exact moves_blank hcoherent hbegun hmode hblank
    · refine moves_opens hcoherent hmode ?_
      rw [not_or] at hblank
      simpa [hblank] using hc
  | single hidden =>
    rw [hmode, Copied, not_or, Classical.not_not, Bool.not_eq_true] at hc
    obtain ⟨rfl, rfl⟩ := hc
    exact moves_closes hcoherent hbegun (.inl ⟨hmode, rfl⟩)
  | double fresh hidden =>
    rw [hmode, Copied, not_or, Classical.not_not, Bool.not_eq_true] at hc
    obtain ⟨rfl, rfl⟩ := hc
    cases fresh with
    | true =>
      have hnext : (s.step brackets '"').mode ≠ .bare false := by
        rw [(mode_step hcoherent).1, hmode]
        simp [LexMode.next]
      obtain ⟨a, ha⟩ := Option.isSome_iff_exists.mp
        (hbegun.underway_of_mode (by rw [hmode]; simp)).wordStart
      rw [step_doubles hmode] at hnext ⊢
      exact .goes rfl (by rw [ha]; rfl) (.inr hnext) rfl rfl
    | false => exact moves_closes hcoherent hbegun (.inr ⟨hmode, rfl⟩)
  | doubled afterQuote =>
    rw [hmode, Copied, Classical.not_not] at hc
    obtain ⟨rfl, rfl⟩ := hc
    exact moves_closes_doubled hcoherent htracked hbegun hmode
  | bracketed closer outer hidden =>
    rw [hmode] at hc
    exact absurd trivial hc

end Step

/-- **A text leaves the scan between words or in one.** -/
theorem Fresh.begun (hs : s.Fresh n) (text : List Char) : (s.through brackets text).Begun := by
  induction text using List.reverseRecOn with
  | nil => exact .inl hs.between
  | append_singleton text c ih =>
    rw [through_append]
    exact (step_moves (hs.follows.through text).toCoherent (hs.tracked text) ih).begun

/-- What the last character of a text does to the words. -/
theorem Fresh.moves (hs : s.Fresh n) (brackets : Bool) (text : List Char) (c : Char) :
    (s.through brackets text).Moves c (s.through brackets (text ++ [c])) := by
  rw [through_append]
  exact step_moves (hs.follows.through text).toCoherent (hs.tracked text) (hs.begun text)

/-! ## 3. The end of a segment -/

/-- What the end of a segment makes of the words, and how it judges them: nothing is under way and
all is well, or the word under way is finished. That word is marked as being in an open quotation if
and only if something is wrong, and as being in open brackets only if brackets are open. -/
inductive Leaves (s : Scan) (words : List Word) (status : SegmentStatus) : Prop
  | nothing (h : s.Between) (hwords : words = s.words) (hstatus : status = .ok)
  | word {w : Word} (hstart : s.wordStart = some w.offset) (hwords : words = s.words ++ [w])
      (hquote : w.status = .openQuote ↔ status ≠ .ok)
      (hbracket : w.status = .openBracket → s.closers ≠ [])

theorem Begun.settleDoubled (hcoherent : s.Coherent) (hbegun : s.Begun) :
    s.settleDoubled.Begun := by
  rcases hquotation : s.quotation with - | ⟨odd | ⟨openedAt, odd⟩ | ⟨second, before⟩⟩ <;>
    simp only [Scan.settleDoubled, hquotation]
  · exact hbegun
  · exact hbegun
  · exact hbegun
  · split
    · have hclosers := hcoherent.exclusive (by rw [hquotation]; rfl)
      have hescaped := hcoherent.plain second before hquotation
      exact .inl ⟨rfl, rfl, by simp [mode, flush, hclosers, hescaped]⟩
    · exact hbegun

/-- Outside everything. -/
theorem leaves_flushText (hbegun : s.Begun) (hmode : s.mode = .bare false) :
    s.Leaves s.flushText.words .ok := by
  by_cases hletters : s.letters = []
  · rw [flushText_of_nil hletters]
    rcases hbegun with h | h
    · exact .nothing h rfl rfl
    · exact absurd (h.active.resolve_left fun hne => hne hletters) (fun hne => hne hmode)
  · rw [flushText, if_neg (by rwa [List.isEmpty_iff])]
    exact .word (hbegun.underway_of_letters hletters).offset rfl (by simp) (by simp)

/-- At the end of the line, outside quotations. -/
theorem leaves_flushEnd (hbegun : s.Begun) (hquotation : s.quotation = none) :
    s.Leaves s.flushEnd.words .ok := by
  have hnone : ¬ s.quotation.isSome = true := by simp [hquotation]
  cases hclosers : s.closers with
  | cons closer outer =>
    have hmode : s.mode ≠ .bare false := by
      rw [mode, hclosers]
      simp
    rw [flushEnd, if_neg hnone, if_pos (by simp [hclosers])]
    exact .word (hbegun.underway_of_mode hmode).offset rfl (by simp) (by simp [hclosers])
  | nil =>
    have hmode : s.mode = .bare s.escaped := by rw [mode, hclosers, hquotation]
    rw [flushEnd, if_neg hnone, if_neg (by simp [hclosers])]
    by_cases hescaped : s.escaped = true
    · -- the backslash at the end is a letter
      rw [if_pos hescaped]
      have hopen : s.mode ≠ .bare false := by rw [hmode, hescaped]; simp
      exact .word (hbegun.underway_of_mode hopen).offset rfl (by simp) (by simp)
    · rw [if_neg hescaped]
      rw [Bool.not_eq_true] at hescaped
      exact leaves_flushText hbegun (hescaped ▸ hmode)

/-- At the end of the line, inside a quotation. -/
theorem leaves_openQuote (hcoherent : s.Coherent) (hbegun : s.Begun)
    (hquotation : s.quotation.isSome = true) : s.Leaves s.flushEnd.words s.endStatus := by
  have hmode : s.mode ≠ .bare false := by
    rw [mode, hcoherent.exclusive hquotation]
    obtain ⟨q, hq⟩ := Option.isSome_iff_exists.mp hquotation
    rw [hq]
    cases q <;> simp
  have hstatus : s.endStatus ≠ .ok := by
    obtain ⟨q, hq⟩ := Option.isSome_iff_exists.mp hquotation
    rw [endStatus, hq]
    rcases q with ⟨_ | _⟩ | ⟨_, _ | _⟩ | _ <;> simp
  rw [flushEnd, if_pos hquotation]
  exact .word (hbegun.underway_of_mode hmode).offset rfl (by simpa using hstatus) (by simp)

/-- **What the end of the line does to the words.** -/
theorem leaves_end (hcoherent : s.Coherent) (hbegun : s.Begun) :
    s.Leaves s.settleDoubled.flushEnd.words s.settleDoubled.endStatus := by
  cases hquotation : s.quotation with
  | none =>
    have hsettle : s.settleDoubled = s := by rw [settleDoubled, hquotation]
    have hok : s.endStatus = .ok := by rw [endStatus, hquotation]
    rw [hsettle, hok]
    exact leaves_flushEnd hbegun hquotation
  | some q =>
    have hsome : s.quotation.isSome = true := by rw [hquotation]; rfl
    have hopen : s.Leaves s.flushEnd.words s.endStatus := leaves_openQuote hcoherent hbegun hsome
    cases q with
    | single odd =>
      rwa [show s.settleDoubled = s by rw [settleDoubled, hquotation]]
    | double openedAt odd =>
      rwa [show s.settleDoubled = s by rw [settleDoubled, hquotation]]
    | doubled second before =>
      simp only [settleDoubled, hquotation]
      split
      · -- the word is finished before the end is looked at
        have hclosers := hcoherent.exclusive hsome
        have hescaped := hcoherent.plain second before hquotation
        have hmode : s.mode ≠ .bare false := by
          rw [mode, hclosers, hquotation]
          simp
        have hoffset := (hbegun.underway_of_mode hmode).offset
        have hclosers' : (!s.closers.isEmpty) = false := by rw [hclosers]; rfl
        simp only [flushEnd, flush, endStatus, hescaped, hclosers', flushText]
        exact .word hoffset rfl (by simp) (by simp)
      · exact hopen

/-- **What the end of a segment does to the words**: an operator asks for one. -/
theorem HeadEnds.leaves {note : Option (Nat × Nat)} {t : Segment} {back : List Segment}
    (h : (s.noting note).HeadEnds o t back) (hcoherent : s.Coherent) (hbegun : s.Begun) :
    (back = [] ∧ t.operator = .endOfLine ∧ s.Leaves t.words t.status) ∨
      (back ≠ [] ∧ s.Leaves t.words .ok ∧
        t.status = if t.words = [] then .emptyBeforeOperator else .ok) := by
  cases h with
  | line =>
    refine .inl ⟨rfl, rfl, ?_⟩
    have hend : s.Leaves s.settleDoubled.flushEnd.words s.settleDoubled.endStatus :=
      leaves_end hcoherent hbegun
    simp only [finish, emit, settleDoubled_noting, flushEnd_noting]
    exact hend
  | operator hbare =>
    have hclose : s.Leaves s.flushText.words .ok := leaves_flushText hbegun (isBare_iff.mp hbare)
    refine .inr ⟨segmentsFrom_ne_nil _ _ _, ?_, ?_⟩
    · simp only [close, emit, flushText_noting]
      exact hclose
    · simp only [close, emit, List.isEmpty_iff]

end Scan
end LineShell
