import LineShell.Segment.Scan
import Mathlib.Tactic.SplitIfs

/-!
# The lexical mode of a prefix

`LexMode.after` reads a text character by character and says in which mode it leaves the reader:
outside of everything, inside one of the three quotations, or inside brackets, and whether the last
character was a backslash that hides the next one. It knows nothing of words, positions or cursors.

* `Scan.mode` reads the mode off a state of the scan;
* `Scan.Coherent` is what the scan keeps to for that: quotations and brackets exclude each other, a
  double quote was opened before the place where the scan stands, and nothing is hidden in a doubled
  quotation;
* `mode_step`, `coherent_step`: one character of the scan is one character of the mode, so the mode
  of the scan is that of the text it has read (`Scan.Follows`).
-/

namespace LineShell

/-! ## 1. Modes -/

/-- Where a text leaves its reader. The flag `hidden` says that the next character is taken as it
is. -/
inductive LexMode
  /-- Outside quotations and brackets. -/
  | bare (hidden : Bool)
  /-- After a single quote. -/
  | single (hidden : Bool)
  /-- After a double quote, which was the last character if `fresh` is set. -/
  | double (fresh hidden : Bool)
  /-- After two double quotes. The flag says that the last character was a double quote. -/
  | doubled (afterQuote : Bool)
  /-- Inside brackets that are to be closed by the given characters, the innermost first. -/
  | bracketed (closer : Char) (outer : List Char) (hidden : Bool)
  deriving DecidableEq, Repr

namespace LexMode

/-- Inside the brackets that are left to close. -/
def inside : List Char → LexMode
  | [] => .bare false
  | closer :: outer => .bracketed closer outer false

/-- The mode after one more character. -/
def next (brackets : Bool) : LexMode → Char → LexMode
  | .bare true, _ => .bare false
  | .bare false, c =>
    if c = '\\' then .bare true
    else if c = '\'' then .single false
    else if c = '"' then .double true false
    else if brackets ∧ (c = '{' ∨ c = '(') then .bracketed (Scan.closerOf c) [] false
    else .bare false
  | .single true, _ => .single false
  | .single false, c =>
    if c = '\\' then .single true else if c = '\'' then .bare false else .single false
  | .double _ true, _ => .double false false
  | .double fresh false, c =>
    if c = '\\' then .double false true
    else if c = '"' then if fresh then .doubled true else .bare false
    else .double false false
  | .doubled afterQuote, c =>
    if c = '"' then if afterQuote then .bare false else .doubled true else .doubled false
  | .bracketed closer outer true, _ => .bracketed closer outer false
  | .bracketed closer outer false, c =>
    if c = '\\' then .bracketed closer outer true
    else if c = '{' ∨ c = '(' then .bracketed (Scan.closerOf c) (closer :: outer) false
    else if c = closer then inside outer
    else .bracketed closer outer false

/-- The mode in which a text leaves its reader. -/
def after (brackets : Bool) (cs : List Char) : LexMode := cs.foldl (next brackets) (.bare false)

theorem after_concat (brackets : Bool) (cs : List Char) (c : Char) :
    after brackets (cs ++ [c]) = (after brackets cs).next brackets c := by
  rw [after, List.foldl_append]
  rfl

end LexMode

/-! ## 2. What finishing a word leaves alone -/

namespace Scan

@[simp] theorem flushText_quotation (s : Scan) : s.flushText.quotation = s.quotation := by
  unfold flushText
  split <;> rfl

@[simp] theorem flushText_closers (s : Scan) : s.flushText.closers = s.closers := by
  unfold flushText
  split <;> rfl

@[simp] theorem flushText_escaped (s : Scan) : s.flushText.escaped = s.escaped := by
  unfold flushText
  split <;> rfl

@[simp] theorem flushText_pos (s : Scan) : s.flushText.pos = s.pos := by
  unfold flushText
  split <;> rfl

@[simp] theorem flushText_read (s : Scan) : s.flushText.read = s.read := by
  unfold flushText
  split <;> rfl

/-! ## 3. The mode of a state -/

/-- The mode that a state of the scan is in. -/
def mode (s : Scan) : LexMode :=
  match s.closers, s.quotation with
  | closer :: outer, _ => .bracketed closer outer s.escaped
  | [], none => .bare s.escaped
  | [], some (.single _) => .single s.escaped
  | [], some (.double openedAt _) => .double (s.pos == openedAt + 1) s.escaped
  | [], some (.doubled _ _) => .doubled (s.read.head? == some '"')

/-- What the scan keeps to between two characters. -/
structure Coherent (s : Scan) : Prop where
  exclusive : s.quotation.isSome = true → s.closers = []
  opened : ∀ openedAt odd, s.quotation = some (.double openedAt odd) → openedAt < s.pos
  plain : ∀ second before, s.quotation = some (.doubled second before) → s.escaped = false

theorem coherent_of_none {s : Scan} (h : s.quotation = none) : s.Coherent where
  exclusive := by simp [h]
  opened := by simp [h]
  plain := by simp [h]

/-- The bare mode is the one in which an operator is looked for. -/
theorem isBare_iff {s : Scan} : s.isBare = true ↔ s.mode = .bare false := by
  unfold isBare mode
  rcases hc : s.closers with - | ⟨closer, outer⟩ <;>
    rcases hq : s.quotation with - | ⟨_ | _ | _⟩ <;> simp

variable {brackets : Bool} {s : Scan} {c : Char}

theorem step_bare (hc : s.closers = []) (hq : s.quotation = none) :
    (s.step brackets c).mode = s.mode.next brackets c ∧ (s.step brackets c).Coherent := by
  have hmode : s.mode = .bare s.escaped := by rw [mode, hc, hq]
  have hsize : '"'.utf8Size = 1 := rfl
  simp only [step, take, hc, hq, List.isEmpty_nil, Bool.not_true, Bool.false_eq_true, if_false,
    stepBare, hmode]
  split_ifs with hesc hblank hback hsingle hdouble hbracket
  · refine ⟨?_, coherent_of_none rfl⟩
    simp [mode, advance, push, begin, LexMode.next, hesc]
  · refine ⟨?_, coherent_of_none (by simp [advance])⟩
    simp only [Bool.or_eq_true, decide_eq_true_eq] at hblank
    rcases hblank with rfl | rfl <;> simp [mode, advance, LexMode.next, hesc]
  · refine ⟨?_, coherent_of_none rfl⟩
    simp [mode, advance, begin, LexMode.next, hesc, hback]
  · refine ⟨?_, by constructor <;> simp [advance, begin]⟩
    simp [mode, advance, begin, LexMode.next, hesc, hsingle]
  · refine ⟨?_, by constructor <;> simp [advance, begin, hdouble, hsize]⟩
    simp [mode, advance, begin, LexMode.next, hesc, hdouble, hsize]
  · simp only [Bool.and_eq_true, Bool.or_eq_true, decide_eq_true_eq] at hbracket
    refine ⟨?_, coherent_of_none rfl⟩
    simp [mode, advance, push, begin, LexMode.next, hesc, hback, hsingle, hdouble, hbracket]
  · simp only [Bool.and_eq_true, Bool.or_eq_true, decide_eq_true_eq] at hbracket
    refine ⟨?_, coherent_of_none rfl⟩
    simp [mode, advance, push, begin, LexMode.next, hesc, hback, hsingle, hdouble, hbracket]

theorem step_single (hc : s.closers = []) {odd : Bool} (hq : s.quotation = some (.single odd)) :
    (s.step brackets c).mode = s.mode.next brackets c ∧ (s.step brackets c).Coherent := by
  have hmode : s.mode = .single s.escaped := by rw [mode, hc, hq]
  simp only [step, take, hc, hq, List.isEmpty_nil, Bool.not_true, Bool.false_eq_true, if_false,
    stepSingle, hmode]
  split_ifs with hesc hback hclose hdouble
  · refine ⟨?_, by constructor <;> simp [advance, push, begin]⟩
    simp [mode, advance, push, begin, LexMode.next, hesc]
  · refine ⟨?_, by constructor <;> simp [advance, push, begin]⟩
    simp [mode, advance, push, begin, LexMode.next, hesc, hback]
  · refine ⟨?_, coherent_of_none rfl⟩
    simp [mode, advance, flush, closeQuotation, LexMode.next, hesc, hclose]
  · refine ⟨?_, by constructor <;> simp [advance, push, begin]⟩
    simp [mode, advance, push, begin, LexMode.next, hesc, hdouble]
  · refine ⟨?_, by constructor <;> simp [advance, push, begin]⟩
    simp [mode, advance, push, begin, LexMode.next, hesc, hback, hclose]

theorem step_double (h : s.Coherent) (hc : s.closers = []) {openedAt : Nat} {odd : Bool}
    (hq : s.quotation = some (.double openedAt odd)) :
    (s.step brackets c).mode = s.mode.next brackets c ∧ (s.step brackets c).Coherent := by
  have hmode : s.mode = .double (s.pos == openedAt + 1) s.escaped := by rw [mode, hc, hq]
  have hpos : openedAt < s.pos := h.opened _ _ hq
  have hnext (d : Char) : openedAt < s.pos + d.utf8Size := by omega
  have hpast (d : Char) : s.pos + d.utf8Size ≠ openedAt + 1 := by
    have hsize : 0 < d.utf8Size := d.utf8Size_pos
    omega
  simp only [step, take, hc, hq, List.isEmpty_nil, Bool.not_true, Bool.false_eq_true, if_false,
    stepDouble, hmode]
  split_ifs with hesc hback hquote hfresh hsingle
  · refine ⟨?_, by constructor <;> simp [advance, push, begin, hnext]⟩
    simp [mode, advance, push, begin, LexMode.next, hesc, hpast]
  · refine ⟨?_, by constructor <;> simp [advance, push, begin, hnext]⟩
    simp [mode, advance, push, begin, LexMode.next, hesc, hback, hpast]
  · refine ⟨?_, by constructor <;> simp [advance, hesc]⟩
    simp [mode, advance, LexMode.next, hesc, hquote, hfresh]
  · refine ⟨?_, coherent_of_none rfl⟩
    simp [mode, advance, flush, closeQuotation, LexMode.next, hesc, hquote, hfresh]
  · refine ⟨?_, ⟨fun _ => rfl, fun o b e => ?_, fun _ _ e => by cases e⟩⟩
    · simp [mode, advance, push, begin, LexMode.next, hesc, hsingle, hpast]
    · cases e
      exact hnext c
  · refine ⟨?_, by constructor <;> simp [advance, push, begin, hnext]⟩
    simp [mode, advance, push, begin, LexMode.next, hesc, hback, hquote, hpast]

theorem step_doubled (h : s.Coherent) (hc : s.closers = []) {second before : Nat}
    (hq : s.quotation = some (.doubled second before)) :
    (s.step brackets c).mode = s.mode.next brackets c ∧ (s.step brackets c).Coherent := by
  have hmode : s.mode = .doubled (s.read.head? == some '"') := by rw [mode, hc, hq]
  have hesc : s.escaped = false := h.plain _ _ hq
  simp only [step, take, hc, hq, List.isEmpty_nil, Bool.not_true, Bool.false_eq_true, if_false,
    hmode]
  by_cases hclose : (c = '"' && s.read.head? == some '"') = true
  · obtain ⟨hquote, hafter⟩ : c = '"' ∧ s.read.head? = some '"' := by simpa using hclose
    rw [stepDoubled, if_pos hclose]
    generalize (if before < byteLength s.letters then s.letters.tail else s.letters) = letters
    cases letters with
    | nil =>
      refine ⟨?_, coherent_of_none rfl⟩
      simp [mode, advance, LexMode.next, hesc, hquote, hafter]
    | cons d ds =>
      refine ⟨?_, coherent_of_none rfl⟩
      simp [mode, advance, flush, closeQuotation, LexMode.next, hesc, hquote, hafter]
  · rw [stepDoubled, if_neg hclose]
    refine ⟨?_, by constructor <;> simp [advance, push, begin, hesc]⟩
    by_cases hquote : c = '"'
    · have hafter : s.read.head? ≠ some '"' := by simpa [hquote] using hclose
      simp [mode, advance, push, begin, LexMode.next, hquote, hafter]
    · simp [mode, advance, push, begin, LexMode.next, hquote]

theorem step_bracketed (h : s.Coherent) {closer : Char} {outer : List Char}
    (hc : s.closers = closer :: outer) :
    (s.step brackets c).mode = s.mode.next brackets c ∧ (s.step brackets c).Coherent := by
  have hmode : s.mode = .bracketed closer outer s.escaped := by rw [mode, hc]
  have hq : s.quotation = none := by
    cases hq : s.quotation with
    | none => rfl
    | some q => rw [h.exclusive (by rw [hq]; rfl)] at hc; cases hc
  have hstep : s.step brackets c =
      ({ ({ s with wordClosed := false } : Scan).stepBracketed c with atBlank := false } :
        Scan).advance c := by simp [step, take, hc]
  rw [hstep, hmode]
  cases hesc : s.escaped with
  | true =>
    refine ⟨?_, coherent_of_none ?_⟩
    · simp [stepBracketed, mode, advance, push, begin, LexMode.next, hc]
    · simp [stepBracketed, advance, push, begin, hq]
  | false =>
    by_cases hback : c = '\\'
    · refine ⟨?_, coherent_of_none ?_⟩
      · simp [stepBracketed, mode, advance, push, begin, LexMode.next, hc, hback]
      · simp [stepBracketed, advance, push, begin, hq, hback]
    by_cases hopen : c = '{' ∨ c = '('
    · refine ⟨?_, coherent_of_none ?_⟩
      · simp [stepBracketed, mode, advance, push, begin, LexMode.next, hc, hback, hopen]
      · simp [stepBracketed, advance, push, begin, hq, hback, hopen]
    by_cases hclose : closer = c
    · subst hclose
      refine ⟨?_, coherent_of_none ?_⟩
      · cases outer <;> simp [stepBracketed, mode, advance, push, begin, LexMode.next,
          LexMode.inside, hc, hback, hopen, hq]
      · simp [stepBracketed, advance, push, begin, hq, hback, hopen, hc]
    · refine ⟨?_, coherent_of_none ?_⟩
      · simp [stepBracketed, mode, advance, push, begin, LexMode.next, hc, hback, hopen,
          hclose, Ne.symm hclose]
      · simp [stepBracketed, advance, push, begin, hq, hback, hopen, hc, hclose]

/-- **One character of the scan is one character of the mode.** -/
theorem mode_step (h : s.Coherent) :
    (s.step brackets c).mode = s.mode.next brackets c ∧ (s.step brackets c).Coherent := by
  cases hc : s.closers with
  | cons closer outer => exact step_bracketed h hc
  | nil =>
    cases hq : s.quotation with
    | none => exact step_bare hc hq
    | some q =>
      cases q with
      | single odd => exact step_single hc hq
      | double openedAt odd => exact step_double h hc hq
      | doubled second before => exact step_doubled h hc hq

/-! ## 4. The mode of the text that was read -/

theorem stepBare_read : (s.stepBare brackets c).read = s.read := by
  unfold stepBare
  split_ifs <;> simp [push, begin]

theorem stepSingle_read {odd : Bool} : (s.stepSingle odd c).read = s.read := by
  unfold stepSingle
  split_ifs <;> rfl

theorem stepDouble_read {openedAt : Nat} {odd : Bool} :
    (s.stepDouble openedAt odd c).read = s.read := by
  unfold stepDouble
  split_ifs <;> rfl

theorem stepDoubled_read {before : Nat} : (s.stepDoubled before c).read = s.read := by
  unfold stepDoubled
  dsimp only
  split_ifs <;> rfl

theorem stepBracketed_read : (s.stepBracketed c).read = s.read := by
  unfold stepBracketed
  dsimp only
  split_ifs <;> rfl

theorem take_read : (s.take brackets c).read = s.read := by
  rw [take]
  split
  · exact stepBracketed_read
  · split
    · exact stepSingle_read
    · exact stepDouble_read
    · exact stepDoubled_read
    · exact stepBare_read

@[simp] theorem step_read : (s.step brackets c).read = c :: s.read := by
  rw [step, advance, take_read]

/-- The scan is in the mode of the text that it has read. -/
structure Follows (brackets : Bool) (s : Scan) : Prop extends Coherent s where
  mode_eq : s.mode = LexMode.after brackets s.read.reverse

theorem follows_start : ({} : Scan).Follows brackets where
  toCoherent := coherent_of_none rfl
  mode_eq := rfl

theorem follows_after (op : Operator) : (s.after op).Follows brackets where
  toCoherent := coherent_of_none rfl
  mode_eq := rfl

theorem Follows.step (h : s.Follows brackets) (c : Char) :
    (s.step brackets c).Follows brackets where
  toCoherent := (mode_step h.toCoherent).2
  mode_eq := by
    rw [(mode_step h.toCoherent).1, h.mode_eq, step_read, List.reverse_cons, LexMode.after_concat]

/-- Noting the cursor has no part in it. -/
theorem Follows.atCursor (h : s.Follows brackets) (cursor : Option Nat) :
    (s.atCursor cursor).Follows brackets := by
  unfold Scan.atCursor
  split
  · exact ⟨⟨h.exclusive, h.opened, h.plain⟩, h.mode_eq⟩
  · exact h

end Scan
end LineShell
