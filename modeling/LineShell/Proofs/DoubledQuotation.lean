import LineShell.Proofs.Passage
import LineShell.Proofs.WordGrammar
import Mathlib.Data.List.Induction

/-!
# Inside a doubled quotation

Two double quotes open a doubled quotation, and only two double quotes in a row close it again. The
first of these has been written into the word by then. And at the end of the line only blanks after
the opening quotes make them an empty quotation.

* `InDoubled`: a text that ends inside a doubled quotation, with what it has read of it. These are the
  texts that leave their reader in that mode (`exists_inDoubled`);
* `InsideDoubled`: the state that such a text leaves the scan in (`through_inDoubled`);
* `InsideDoubled.goes_on`: a doubled quotation goes on to the end of a text or is closed in it;
* `InsideDoubled.closes`, `InsideDoubled.finish_blank`, `InsideDoubled.finish_open`: the word that
  each end of it leaves.
-/

namespace LineShell

/-! ## 1. Lengths -/

section Lengths

variable {xs ys zs : List Char}

theorem eq_nil_of_byteLength_eq_zero (h : byteLength xs = 0) : xs = [] := by
  cases xs with
  | nil => rfl
  | cons c cs =>
    have hsize := c.utf8Size_pos
    rw [byteLength_cons] at h
    omega

/-- Of two prefixes of a text the one of fewer bytes is a prefix of the other. -/
theorem isPrefix_of_byteLength_le (hx : xs <+: zs) (hy : ys <+: zs)
    (hle : byteLength xs ≤ byteLength ys) : xs <+: ys := by
  obtain h | ⟨rest, rfl⟩ := List.prefix_or_prefix_of_prefix hx hy
  · exact h
  · rw [byteLength_append] at hle
    have hrest : rest = [] := eq_nil_of_byteLength_eq_zero (by omega)
    exact ⟨[], by rw [hrest, List.append_nil, List.append_nil]⟩

/-- Two places of a text are compared by their bytes. -/
theorem byteLength_le_iff (hx : xs <+: zs) (hy : ys <+: zs) :
    byteLength xs ≤ byteLength ys ↔ xs <+: ys := by
  refine ⟨isPrefix_of_byteLength_le hx hy, ?_⟩
  rintro ⟨rest, rfl⟩
  rw [byteLength_append]
  exact Nat.le_add_right _ _

theorem isPrefix_dropLast (h : xs <+: zs) (hlt : byteLength xs < byteLength zs) :
    xs <+: zs.dropLast := by
  obtain ⟨rest, rfl⟩ := h
  have hne : rest ≠ [] := by
    rintro rfl
    rw [List.append_nil] at hlt
    exact Nat.lt_irrefl _ hlt
  rw [List.dropLast_append_of_ne_nil hne]
  exact List.prefix_append _ _

/-- A text is cut in one way after a number of bytes. -/
theorem append_inj_of_byteLength {p q p' q' : List Char} (h : p ++ q = p' ++ q')
    (hsize : byteLength p = byteLength p') : p = p' := by
  have hp : p <+: p ++ q := List.prefix_append _ _
  have hp' : p' <+: p ++ q := h ▸ List.prefix_append _ _
  exact (isPrefix_of_byteLength_le hp hp' (Nat.le_of_eq hsize)).eq_of_length_le
    (isPrefix_of_byteLength_le hp' hp (Nat.le_of_eq hsize.symm)).length_le

/-- A list that goes on keeps what it has. -/
theorem getElem?_of_isPrefix {i : Nat} {w : Word} {ws ws' : List Word} (h : ws <+: ws')
    (hget : ws[i]? = some w) : ws'[i]? = some w := by
  obtain ⟨more, rfl⟩ := h
  rw [List.getElem?_append_left (List.getElem?_eq_some_iff.mp hget).1, hget]

/-- One more word is the last one. -/
theorem getElem?_concat_cases {i : Nat} {w w' : Word} {ws : List Word}
    (hget : (ws ++ [w])[i]? = some w') :
    (i < ws.length ∧ ws[i]? = some w') ∨ (i = ws.length ∧ w = w') := by
  rcases Nat.lt_or_ge i ws.length with hi | hi
  · rw [List.getElem?_append_left hi] at hget
    exact .inl ⟨hi, hget⟩
  · have hlt := (List.getElem?_eq_some_iff.mp hget).1
    rw [List.length_append, List.length_singleton] at hlt
    obtain rfl : i = ws.length := by omega
    rw [List.getElem?_concat_length, Option.some.injEq] at hget
    exact .inr ⟨rfl, hget⟩

theorem length_le_byteLength (xs : List Char) : xs.length ≤ byteLength xs := by
  induction xs with
  | nil => exact Nat.le_refl 0
  | cons c cs ih =>
    have hsize := c.utf8Size_pos
    rw [List.length_cons, byteLength_cons]
    omega

/-- Blanks take one byte each. -/
theorem byteLength_of_isGap {xs : List Char} (h : IsGap xs) : byteLength xs = xs.length := by
  induction xs with
  | nil => rfl
  | cons c cs ih =>
    have hsize : c.utf8Size = 1 := by
      rcases h c List.mem_cons_self with rfl | rfl <;> rfl
    rw [byteLength_cons, hsize, ih fun d hd => h d (List.mem_cons_of_mem _ hd), List.length_cons,
      Nat.add_comm]

end Lengths

/-! ## 2. Texts -/

/-- The text ends inside a doubled quotation, with `inner` after its two opening quotes. -/
inductive InDoubled (brackets : Bool) : (text inner : List Char) → Prop
  | opens {text : List Char} (h : LexMode.after brackets text = .double true false) :
      InDoubled brackets (text ++ ['"']) []
  /-- Two double quotes in a row would close it. -/
  | goes {text inner : List Char} {c : Char} (h : InDoubled brackets text inner)
      (hc : ¬ (text.getLast? = some '"' ∧ c = '"')) : InDoubled brackets (text ++ [c]) (inner ++ [c])

section InDoubled

variable {brackets : Bool} {text inner : List Char}

/-- How a reader gets to be inside a doubled quotation. -/
theorem LexMode.next_eq_doubled {m : LexMode} {c : Char} {afterQuote : Bool}
    (h : m.next brackets c = .doubled afterQuote) :
    (m = .double true false ∨ ∃ b, m = .doubled b ∧ ¬ (b = true ∧ c = '"')) ∧
      (afterQuote = true ↔ c = '"') := by
  revert h
  fun_cases LexMode.next brackets m c <;> intro h
  -- a second quote opens the quotation, and what does not close it goes on in it
  case case13 =>
    cases h
    exact ⟨.inl rfl, by simp⟩
  case case17 b hb =>
    cases h
    exact ⟨.inr ⟨b, rfl, fun hboth => hb hboth.1⟩, by simp⟩
  case case18 b hquote =>
    cases h
    exact ⟨.inr ⟨b, rfl, fun hboth => hquote hboth.2⟩, by simp [hquote]⟩
  case case22 outer _ _ => cases outer <;> cases h
  all_goals cases h

/-- A text that leaves its reader in a doubled quotation ends inside one. -/
theorem exists_inDoubled {afterQuote : Bool}
    (h : LexMode.after brackets text = .doubled afterQuote) :
    (∃ inner, InDoubled brackets text inner) ∧ (afterQuote = true ↔ text.getLast? = some '"') := by
  induction text using List.reverseRecOn generalizing afterQuote with
  | nil => cases h
  | append_singleton text c ih =>
    rw [LexMode.after_concat] at h
    obtain ⟨hmode, hquote⟩ := LexMode.next_eq_doubled h
    rw [List.getLast?_concat, Option.some.injEq]
    refine ⟨?_, hquote⟩
    obtain hmode | ⟨b, hmode, hc⟩ := hmode
    · have hc : c = '"' := by
        rw [hmode, LexMode.next] at h
        split_ifs at h
        assumption
      exact hc ▸ ⟨[], .opens hmode⟩
    · obtain ⟨⟨inner, hinner⟩, hlast⟩ := ih hmode
      rw [hlast] at hc
      exact ⟨inner ++ [c], hinner.goes hc⟩

end InDoubled

/-! ## 3. States -/

namespace Scan

variable {s : Scan} {brackets : Bool} {c : Char} {n : Nat} {inner entry text : List Char}

/-- The scan is inside a doubled quotation, with `inner` after its two opening quotes; the word had
the letters `entry` before it. -/
structure InsideDoubled (s : Scan) (inner entry : List Char) : Prop where
  quotation : ∃ second, s.quotation = some (.doubled second (byteLength entry)) ∧
    s.pos = second + 1 + byteLength inner
  letters : s.letters = inner.reverse ++ entry.reverse
  read : ∃ front, s.read = inner.reverse ++ '"' :: front
  closers : s.closers = []
  escaped : s.escaped = false
  /-- A third quote would have closed it. -/
  first : inner.head? ≠ some '"'
  atBlank : s.atBlank = false
  wordClosed : s.wordClosed = false

theorem Fresh.follows (h : s.Fresh n) : s.Follows brackets := by
  obtain ⟨b, w, rfl⟩ := h
  exact ⟨coherent_of_none rfl, rfl⟩

theorem Follows.through (h : s.Follows brackets) (cs : List Char) :
    (s.through brackets cs).Follows brackets :=
  through_keeps (P := Follows brackets) (fun _ c h => h.step c) h cs

/-- The mode of the state after a text is that of the text. -/
theorem Fresh.mode_through (h : s.Fresh n) (text : List Char) :
    (s.through brackets text).mode = LexMode.after brackets text := by
  rw [(h.follows.through text).mode_eq, through_read, h.read, List.append_nil,
    List.reverse_reverse]

/-- A second double quote right after the first opens a doubled quotation. -/
theorem step_doubles (h : s.mode = .double true false) : s.step brackets '"' =
    ({ s with
        wordClosed := false, quotation := some (.doubled s.pos (byteLength s.letters)),
        atBlank := false } : Scan).advance '"' := by
  obtain ⟨hclosers, ⟨openedAt, odd, hquotation, hfresh⟩, hescaped⟩ := mode_eq_double h
  have hpos : s.pos = openedAt + 1 := beq_iff_eq.mp hfresh
  simp [step, take, stepDouble, hclosers, hquotation, hescaped, hpos]

theorem insideDoubled_opens (h : s.mode = .double true false) :
    (s.step brackets '"').InsideDoubled [] s.letters.reverse := by
  obtain ⟨hclosers, -, hescaped⟩ := mode_eq_double h
  rw [step_doubles h]
  exact
    { quotation := ⟨s.pos, by rw [byteLength_reverse]; rfl, rfl⟩
      letters := (List.reverse_reverse _).symm
      read := ⟨s.read, rfl⟩
      closers := hclosers
      escaped := hescaped
      first := by simp
      atBlank := rfl
      wordClosed := rfl }

namespace InsideDoubled

theorem head?_eq (h : s.InsideDoubled inner entry) :
    s.read.head? = some '"' ↔ (inner = [] ∨ inner.getLast? = some '"') := by
  obtain ⟨front, hread⟩ := h.read
  rw [hread, ← List.head?_reverse]
  cases hrev : inner.reverse with
  | nil => simp [List.reverse_eq_nil_iff.mp hrev]
  | cons c cs =>
    have hne : inner ≠ [] := by
      rintro rfl
      cases hrev
    simp [hne]

theorem mode (h : s.InsideDoubled inner entry) :
    s.mode = .doubled (s.read.head? == some '"') := by
  obtain ⟨second, hquotation, -⟩ := h.quotation
  rw [Scan.mode, h.closers, hquotation]

/-- One more character, which does not close the quotation. -/
theorem goes (brackets : Bool) (h : s.InsideDoubled inner entry)
    (hc : ¬ (s.read.head? = some '"' ∧ c = '"')) :
    (s.step brackets c).InsideDoubled (inner ++ [c]) entry ∧
      (s.step brackets c).words = s.words := by
  obtain ⟨second, hquotation, hpos⟩ := h.quotation
  obtain ⟨front, hread⟩ := h.read
  have hopen : ¬ (c = '"' && s.read.head? == some '"') = true := by simpa [and_comm] using hc
  have hstep : s.step brackets c =
      ({ ({ s with wordClosed := false } : Scan).push c with atBlank := false } : Scan).advance
        c := by
    simp only [step, take, stepDoubled, h.closers, hquotation, List.isEmpty_nil, Bool.not_true,
      Bool.false_eq_true, if_false, if_neg hopen]
  rw [hstep]
  refine ⟨?_, rfl⟩
  exact
    { quotation := ⟨second, hquotation, by
        rw [byteLength_append, ← Nat.add_assoc, ← hpos]
        rfl⟩
      letters := by
        rw [List.reverse_append, List.append_assoc, ← h.letters]
        rfl
      read := ⟨front, by
        rw [List.reverse_append, List.append_assoc, ← hread]
        rfl⟩
      closers := h.closers
      escaped := h.escaped
      first := by
        rw [List.head?_append]
        cases hinner : inner with
        | nil =>
          have hc' : c ≠ '"' := fun hquote => hc ⟨h.head?_eq.mpr (.inl hinner), hquote⟩
          simpa using hc'
        | cons d ds =>
          have hfirst := h.first
          rw [hinner] at hfirst
          exact hfirst
      atBlank := rfl
      wordClosed := rfl }

/-- The second of two double quotes closes the quotation, and the word with it. The first of them is
taken back. -/
theorem closes (brackets : Bool) (h : s.InsideDoubled inner entry)
    (hlast : inner.getLast? = some '"') :
    ∃ w, (s.step brackets '"').words = s.words ++ [w] ∧
      w.text.toList = entry ++ inner.dropLast := by
  obtain ⟨second, hquotation, -⟩ := h.quotation
  obtain ⟨front, rfl⟩ := List.getLast?_eq_some_iff.mp hlast
  have hne : front ≠ [] := by
    rintro rfl
    exact h.first rfl
  have hletters : s.letters = '"' :: (front.reverse ++ entry.reverse) := by
    rw [h.letters, List.reverse_append]
    rfl
  have hread : (s.read.head? == some '"') = true := beq_iff_eq.mpr (h.head?_eq.mpr (.inr hlast))
  have hlonger : byteLength entry < byteLength s.letters := by
    have hsize : '"'.utf8Size = 1 := rfl
    rw [hletters, byteLength_cons, byteLength_append, byteLength_reverse, byteLength_reverse, hsize]
    omega
  refine ⟨⟨String.ofList (entry ++ front), s.wordStart.getD s.start, .plain⟩, ?_, ?_⟩
  · simp only [step, take, stepDoubled, h.closers, hquotation, hread, hlonger]
    simp [hletters, hne, advance, closeQuotation, flush]
  · simp

end InsideDoubled

/-- A text that ends inside a doubled quotation leaves the scan there. -/
theorem through_inDoubled (h : InDoubled brackets text inner) (hs : s.Fresh n) :
    ∃ entry, (s.through brackets text).InsideDoubled inner entry := by
  induction h with
  | @opens text hmode =>
    rw [through_append]
    exact ⟨_, insideDoubled_opens ((hs.mode_through text).trans hmode)⟩
  | @goes text inner c h hc ih =>
    obtain ⟨entry, hinside⟩ := ih
    refine ⟨entry, ?_⟩
    rw [through_append]
    refine (hinside.goes brackets ?_).1
    rwa [through_read, hs.read, List.append_nil, List.head?_reverse]

/-- A state inside a doubled quotation comes from such a text. -/
theorem Fresh.insideDoubled (hs : s.Fresh n) {second before : Nat}
    (hq : (s.through brackets text).quotation = some (.doubled second before)) :
    ∃ inner entry, InDoubled brackets text inner ∧
      (s.through brackets text).InsideDoubled inner entry := by
  have hfollows : (s.through brackets text).Follows brackets := hs.follows.through text
  have hclosers := hfollows.exclusive (by rw [hq]; rfl)
  have hmode : LexMode.after brackets text =
      .doubled ((s.through brackets text).read.head? == some '"') := by
    rw [← hs.mode_through, mode, hclosers, hq]
  obtain ⟨⟨inner, hin⟩, -⟩ := exists_inDoubled hmode
  obtain ⟨entry, hinside⟩ := through_inDoubled hin hs
  exact ⟨inner, entry, hin, hinside⟩

/-- If the scan is inside a doubled quotation, there is something to say about what it has read. -/
def Tracked (s : Scan) : Prop :=
  ∀ second before, s.quotation = some (.doubled second before) →
    ∃ inner entry, s.InsideDoubled inner entry

theorem Fresh.tracked (hs : s.Fresh n) (text : List Char) :
    (s.through brackets text).Tracked := by
  intro second before hq
  obtain ⟨inner, entry, -, hinside⟩ := hs.insideDoubled hq
  exact ⟨inner, entry, hinside⟩

/-- **A doubled quotation goes on to the end of a text or is closed in it.** -/
theorem InsideDoubled.goes_on (brackets : Bool) (h : s.InsideDoubled inner entry)
    (hne : inner ≠ []) (q : List Char) :
    ((s.through brackets q).InsideDoubled (inner ++ q) entry ∧
        (s.through brackets q).words = s.words) ∨
      ∃ x rest, q = x ++ '"' :: rest ∧ (inner ++ x).getLast? = some '"' ∧
        (s.through brackets x).InsideDoubled (inner ++ x) entry ∧
        (s.through brackets x).words = s.words := by
  induction q generalizing s inner with
  | nil => exact .inl ⟨by rwa [List.append_nil], rfl⟩
  | cons c q ih =>
    by_cases hc : s.read.head? = some '"' ∧ c = '"'
    · refine .inr ⟨[], q, by rw [hc.2]; rfl, ?_, ?_, rfl⟩
      · rw [List.append_nil]
        exact (h.head?_eq.mp hc.1).resolve_left hne
      · rwa [List.append_nil]
    · obtain ⟨hgoes, hwords⟩ := h.goes brackets hc
      obtain ⟨hinside, hsame⟩ | ⟨x, rest, rfl, hlast, hinside, hsame⟩ := ih hgoes (by simp)
      · refine .inl ⟨?_, hsame.trans hwords⟩
        rwa [List.append_assoc] at hinside
      · rw [List.append_assoc] at hlast hinside
        exact .inr ⟨c :: x, rest, rfl, hlast, hinside, hsame.trans hwords⟩

/-! ## 4. The end of the line -/

/-- At the end of the line the scan looks whether there are only blanks in the quotation. -/
theorem InsideDoubled.all_blank_iff (h : s.InsideDoubled inner entry) {second before : Nat}
    (hquotation : s.quotation = some (.doubled second before)) :
    ((s.read.take (s.pos - (second + 1))).all fun c => c = ' ' || c = '\t') = true ↔
      IsGap inner := by
  obtain ⟨second', hquotation', hpos⟩ := h.quotation
  obtain ⟨front, hread⟩ := h.read
  rw [hquotation, Option.some.injEq, Quotation.doubled.injEq] at hquotation'
  obtain ⟨rfl, -⟩ := hquotation'
  have htail : inner.reverse <+: s.read.take (s.pos - (second + 1)) := by
    rw [List.prefix_take_iff, hpos, Nat.add_sub_cancel_left, hread, List.length_reverse]
    exact ⟨List.prefix_append _ _, length_le_byteLength inner⟩
  constructor
  · intro hall c hc
    have hmem := htail.subset (List.mem_reverse.mpr hc)
    simpa using List.all_eq_true.mp hall c hmem
  · intro hgap
    have hexact : s.read.take (s.pos - (second + 1)) = inner.reverse := by
      rw [hpos, Nat.add_sub_cancel_left, byteLength_of_isGap hgap, hread, ← List.length_reverse,
        List.take_left]
    rw [hexact]
    simpa [IsGap] using hgap

/-- At the end of the line the letters are cut back to those before the quotation. -/
theorem InsideDoubled.drop_letters (h : s.InsideDoubled inner entry) (hgap : IsGap inner) :
    s.letters.drop (byteLength s.letters - byteLength entry) = entry.reverse := by
  rw [h.letters, byteLength_append, byteLength_reverse, byteLength_reverse, Nat.add_sub_cancel,
    byteLength_of_isGap hgap, ← List.length_reverse, List.drop_left]

/-- At the end of the line a doubled quotation with only blanks in it is an empty one. -/
theorem InsideDoubled.finish_blank (h : s.InsideDoubled inner entry) (hgap : IsGap inner) :
    ∃ w, s.settleDoubled.flushEnd.words = s.words ++ [w] ∧ w.text.toList = entry := by
  obtain ⟨second, hquotation, -⟩ := h.quotation
  have hall := (h.all_blank_iff hquotation).mpr hgap
  refine ⟨⟨String.ofList entry, s.wordStart.getD s.start, .plain⟩, ?_, String.toList_ofList⟩
  simp only [settleDoubled, hquotation, if_pos hall, h.drop_letters hgap]
  simp [flushEnd, flush, flushText, h.closers, h.escaped]

/-- At the end of the line a doubled quotation with more in it is left open. -/
theorem InsideDoubled.finish_open (h : s.InsideDoubled inner entry) (hgap : ¬ IsGap inner) :
    ∃ w, s.settleDoubled.flushEnd.words = s.words ++ [w] ∧ w.text.toList = entry ++ inner := by
  obtain ⟨second, hquotation, -⟩ := h.quotation
  have hall := (h.all_blank_iff hquotation).not.mpr hgap
  have hsettle : s.settleDoubled = s := by
    simp only [settleDoubled, hquotation, if_neg hall]
  refine ⟨⟨String.ofList (entry ++ inner), s.wordStart.getD s.start, .openQuote⟩, ?_,
    String.toList_ofList⟩
  rw [hsettle]
  simp [flushEnd, flush, hquotation, h.letters]

end Scan
end LineShell
