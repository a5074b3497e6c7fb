import LineShell.Proofs.WordPlaces

/-!
# The word that a cursor selects

A cursor that the scan comes to between words selects the word that begins next, unless the scan
knows that it stands after a blank or behind a quotation. It does not know that at the start of the
line, nor where an empty doubled quotation has left no word. So the selected word may begin behind
the cursor.

* `AtBreak`: the places of a text between its words (`Fresh.atBreak_iff`);
* `StraysAt`: the places at which the scan notes a word that begins further on. They are those that
  it leaves for another place between words without a word in between (`Fresh.straysAt_iff`);
* `selectedWord_underCursor`: so the cursor is never past the beginning of the word after the
  selected one, and before the beginning of the selected one if and only if it stands at such a
  place.
-/

namespace LineShell

/-! ## 1. Places between words -/

/-- The text ends between words. -/
inductive AtBreak (brackets : Bool) : List Char → Prop
  | start : AtBreak brackets []
  /-- After a blank, or after the quote that closes a quotation: these are no letters, and after
  them the reader is outside of everything. -/
  | after {x : List Char} {c : Char} (hc : ¬ Copied (LexMode.after brackets x) c)
      (h : LexMode.after brackets (x ++ [c]) = .bare false) : AtBreak brackets (x ++ [c])

/-- The text begins with what belongs to no word: a blank, or three double quotes. -/
inductive BeginsIdle : List Char → Prop
  | blank {c : Char} {q : List Char} (hc : c = ' ' ∨ c = '\t') : BeginsIdle (c :: q)
  | quotes {q : List Char} : BeginsIdle ('"' :: '"' :: '"' :: q)

/-- Between `p` and `q` stands nothing of a word, and nothing tells the scan so. `first` says that
`p` begins at the start of the line. -/
inductive StraysAt (brackets first : Bool) : (p q : List Char) → Prop
  /-- At the start of the line, before something that belongs to no word. -/
  | start {q : List Char} (hfirst : first = true) (hq : BeginsIdle q) : StraysAt brackets first [] q
  /-- Among three double quotes that belong to no word. -/
  | among {x y z q : List Char} (hx : AtBreak brackets x) (hquotes : y ++ z = ['"', '"', '"'])
      (hy : y ≠ []) (hz : z ≠ []) : StraysAt brackets first (x ++ y) (z ++ q)
  /-- After such quotes, before something else that belongs to no word. -/
  | after {x q : List Char} (hx : AtBreak brackets x) (hq : BeginsIdle q) :
      StraysAt brackets first (x ++ ['"', '"', '"']) q

namespace LexMode

variable {brackets : Bool} {m : LexMode} {c : Char} {text : List Char}

/-- A reader is right after a double quote that has opened a quotation. -/
theorem next_eq_fresh (h : m.next brackets c = .double true false) : m = .bare false ∧ c = '"' := by
  revert h
  fun_cases next brackets m c <;> intro h
  case case4 => exact ⟨rfl, rfl⟩
  case case22 outer _ _ => cases outer <;> cases h
  all_goals cases h

theorem after_eq_fresh (h : after brackets text = .double true false) :
    ∃ x, text = x ++ ['"'] ∧ after brackets x = .bare false := by
  induction text using List.reverseRecOn with
  | nil => cases h
  | append_singleton x c =>
    rw [after_concat] at h
    obtain ⟨hmode, rfl⟩ := next_eq_fresh h
    exact ⟨x, rfl, hmode⟩

end LexMode

namespace Scan

variable {o : ScanOptions} {s : Scan} {brackets : Bool} {c : Char} {n i : Nat}
  {p q x y text : List Char}

/-- **The places between words are those where no word is under way.** -/
theorem Fresh.atBreak_iff (hs : s.Fresh n) :
    AtBreak brackets text ↔ (s.through brackets text).wordStart = none := by
  induction text using List.reverseRecOn with
  | nil => exact iff_of_true .start hs.between.wordStart
  | append_singleton x c =>
    have hmode : (s.through brackets x).mode = LexMode.after brackets x := hs.mode_through x
    have hafter : (s.through brackets (x ++ [c])).mode = LexMode.after brackets (x ++ [c]) :=
      hs.mode_through (x ++ [c])
    have hbreak (hc : ¬ Copied (s.through brackets x).mode c)
        (hbetween : (s.through brackets (x ++ [c])).Between) : AtBreak brackets (x ++ [c]) :=
      .after (hmode ▸ hc) (hafter ▸ hbetween.mode)
    cases hs.moves brackets x c with
    | goes _ hstart hactive =>
      refine iff_of_false (fun h => ?_) (by rw [hstart]; simp)
      generalize hxc : x ++ [c] = text at h hafter hactive
      cases h with
      | start => simp at hxc
      | @after x' c' hc hbare =>
        obtain ⟨rfl, hsame⟩ := List.append_inj' hxc rfl
        cases hsame
        rw [hafter, hmode] at hactive
        rcases hactive with ⟨hletter, -⟩ | hopen
        · exact hc hletter
        · exact hopen hbare
    | ends hc _ _ _ hbetween => exact iff_of_true (hbreak hc hbetween) hbetween.wordStart
    | blank hc _ hold hbetween =>
      refine iff_of_true (hbreak ?_ hbetween) hbetween.wordStart
      rw [hold.mode]
      rcases hc with rfl | rfl <;> simp [Copied]
    | drops hc _ hold _ hbetween =>
      refine iff_of_true (hbreak ?_ hbetween) hbetween.wordStart
      rw [hold, hc]
      simp [Copied]

/-! ## 2. Three double quotes -/

/-- Between words, a double quote and a second one begin a word. -/
theorem Between.among (h : s.Between) (brackets : Bool) {z : List Char}
    (hquotes : y ++ z = ['"', '"', '"']) (hy : y ≠ []) (hz : z ≠ []) :
    (s.through brackets y).wordStart ≠ none ∧ (s.through brackets y).words = s.words := by
  obtain ⟨hclosers, hquotation, hescaped⟩ := mode_eq_bare h.mode
  have hsize : '"'.utf8Size = 1 := rfl
  have hsplit : y = ['"'] ∨ y = ['"', '"'] := by
    rcases y with - | ⟨a, - | ⟨b, - | ⟨c, y⟩⟩⟩ <;> simp_all
  rcases hsplit with rfl | rfl <;>
    simp [through, step, take, stepBare, stepDouble, begin, advance, hclosers, hquotation, hescaped,
      hsize]

/-- A third one drops it. -/
theorem Between.after_quotes (h : s.Between) (brackets : Bool) :
    (s.through brackets ['"', '"', '"']).wordStart = none ∧
      (s.through brackets ['"', '"', '"']).words = s.words ∧
      (s.through brackets ['"', '"', '"']).wordClosed = false := by
  obtain ⟨hclosers, hquotation, hescaped⟩ := mode_eq_bare h.mode
  have hsize : '"'.utf8Size = 1 := rfl
  simp [through, step, take, stepBare, stepDouble, stepDoubled, begin, advance, hclosers,
    hquotation, hescaped, h.letters, hsize]

/-- A blank leaves the scan between words. -/
theorem Between.after_blank (h : s.Between) (brackets : Bool) (hc : c = ' ' ∨ c = '\t') :
    (s.step brackets c).wordStart = none ∧ (s.step brackets c).words = s.words := by
  have hnil : ({ s with wordClosed := false } : Scan).letters = [] := h.letters
  rw [step_blank h.mode hc, flushText_of_nil hnil]
  exact ⟨h.wordStart, rfl⟩

/-- So a text that ends among three double quotes after a break is in a word, -/
theorem Fresh.among (hs : s.Fresh n) {z : List Char} (hx : AtBreak brackets x)
    (hquotes : y ++ z = ['"', '"', '"']) (hy : y ≠ []) (hz : z ≠ []) :
    (s.through brackets (x ++ y)).wordStart ≠ none ∧
      (s.through brackets (x ++ y)).words = (s.through brackets x).words := by
  rw [through_append]
  exact ((hs.begun x).between_of_none (hs.atBreak_iff.mp hx)).among brackets hquotes hy hz

/-- and one that ends after them is between words again. -/
theorem Fresh.after_quotes (hs : s.Fresh n) (hx : AtBreak brackets x) :
    (s.through brackets (x ++ ['"', '"', '"'])).wordStart = none ∧
      (s.through brackets (x ++ ['"', '"', '"'])).words = (s.through brackets x).words ∧
      (s.through brackets (x ++ ['"', '"', '"'])).wordClosed = false := by
  rw [through_append]
  exact ((hs.begun x).between_of_none (hs.atBreak_iff.mp hx)).after_quotes brackets

theorem step_quote_letters (h : s.mode = .bare false) :
    (s.step brackets '"').letters = s.letters := by
  obtain ⟨hclosers, hquotation, hescaped⟩ := mode_eq_bare h
  simp [step, take, stepBare, begin, advance, hclosers, hquotation, hescaped]

/-- Where a doubled quotation is open and the word has no letters, it has just been opened between
words. -/
theorem Fresh.exists_break (hs : s.Fresh n)
    (hmode : (s.through brackets text).mode = .doubled true)
    (hletters : (s.through brackets text).letters = []) :
    ∃ x, AtBreak brackets x ∧ text = x ++ ['"', '"'] := by
  rw [hs.mode_through] at hmode
  obtain ⟨⟨inner, hinner⟩, -⟩ := exists_inDoubled hmode
  obtain ⟨entry, hinside⟩ := through_inDoubled hinner hs
  have hnil : inner = [] := by
    have hsame := hinside.letters
    rw [hletters] at hsame
    simpa using (List.append_eq_nil_iff.mp hsame.symm).1
  cases hinner with
  | goes => simp at hnil
  | @opens text hfresh =>
    obtain ⟨x, rfl, hbare⟩ := LexMode.after_eq_fresh hfresh
    have hmode : (s.through brackets x).mode = .bare false := (hs.mode_through x).trans hbare
    have hopened : ((s.through brackets x).step brackets '"').mode = .double true false := by
      have hsame : (s.through brackets (x ++ ['"'])).mode = _ := hs.mode_through (x ++ ['"'])
      rw [through_append] at hsame
      exact hsame.trans hfresh
    refine ⟨x, hs.atBreak_iff.mpr ?_, List.append_assoc ..⟩
    -- the two quotes have added nothing
    have hsame : (s.through brackets x).letters = [] := by
      rw [← hletters, through_append, through_append]
      show _ = (((s.through brackets x).step brackets '"').step brackets '"').letters
      rw [step_doubles hopened]
      exact (step_quote_letters hmode).symm
    rcases hs.begun x with hbetween | hunder
    · exact hbetween.wordStart
    · rcases hunder.active with hne | hne
      · exact absurd hsame hne
      · exact absurd hmode hne

theorem exists_of_concat_eq_append (h : p ++ [c] = x ++ y) (hy : y ≠ []) :
    ∃ y', y = y' ++ [c] ∧ p = x ++ y' := by
  obtain ⟨y, d, rfl⟩ := (List.eq_nil_or_concat y).resolve_left hy
  rw [List.concat_eq_append, ← List.append_assoc] at h
  obtain ⟨rfl, hd⟩ := List.append_inj' h rfl
  cases hd
  exact ⟨y, List.concat_eq_append, rfl⟩

/-- **A word under way that is gone without having been finished has been dropped**, by the third of
three double quotes. -/
theorem Fresh.dropped (hs : s.Fresh n) (hunder : (s.through brackets p).wordStart ≠ none)
    (hnone : (s.through brackets (p ++ q)).wordStart = none)
    (hwords : (s.through brackets (p ++ q)).words.length = (s.through brackets p).words.length) :
    ∃ x y z r, AtBreak brackets x ∧ y ++ z = ['"', '"', '"'] ∧ y ≠ [] ∧ z ≠ [] ∧ p = x ++ y ∧
      q = z ++ r := by
  induction q generalizing p with
  | nil =>
    rw [List.append_nil] at hnone
    exact absurd hnone hunder
  | cons c q ih =>
    rw [← List.singleton_append, ← List.append_assoc] at hnone hwords
    have hgrown : (s.through brackets (p ++ [c])).words.length ≤
        (s.through brackets (p ++ [c] ++ q)).words.length := by
      rw [through_append (p ++ [c])]
      exact (words_through _ q).length_le
    cases hs.moves brackets p c with
    | goes hsame hstart =>
      obtain ⟨x, y, z, r, hx, hquotes, hy, hz, hp, rfl⟩ :=
        ih (by rw [hstart]; simp) hnone (by rw [hwords, hsame])
      obtain ⟨y, rfl, rfl⟩ := exists_of_concat_eq_append hp hy
      refine ⟨x, y, c :: z, r, hx, by simpa using hquotes, ?_, by simp, rfl, rfl⟩
      rintro rfl
      rw [List.append_nil] at hunder
      exact hunder (hs.atBreak_iff.mp hx)
    | ends _ hmore =>
      rw [hmore, List.length_append, List.length_singleton] at hgrown
      omega
    | blank _ _ hold => exact absurd hold.wordStart hunder
    | drops hc _ hmode hletters =>
      obtain ⟨x, hx, rfl⟩ := hs.exists_break hmode hletters
      exact ⟨x, ['"', '"'], ['"'], q, hx, rfl, by simp, by simp, rfl, by rw [hc]; rfl⟩

/-! ## 3. Places that the scan leaves without a word -/

/-- Somewhere in `q` the scan is between words, and it has finished none since `p`. -/
def Idles (brackets : Bool) (s : Scan) (p q : List Char) : Prop :=
  ∃ y, y ≠ [] ∧ y <+: q ∧ (s.through brackets (p ++ y)).wordStart = none ∧
    (s.through brackets (p ++ y)).words.length = (s.through brackets p).words.length

/-- A word begins behind the place if and only if the scan leaves it without a word. -/
theorem Begins.idles_iff
    (h : Begins brackets s (p ++ q) x (s.through brackets p).words.length) :
    Idles brackets s p q ↔ ¬ x <+: p := by
  constructor
  · rintro ⟨y, hy, hprefix, hnone, hwords⟩ hle
    obtain ⟨r, rfl⟩ := hle
    have hlasts := h.lasts (r ++ y) (by simp [hy])
      (by rw [← List.append_assoc]; exact (List.prefix_append_right_inj _).mpr hprefix)
      (by rw [← List.append_assoc, hwords])
    rw [← List.append_assoc, hnone] at hlasts
    cases hlasts
  · intro hle
    have hprefix := h.isPrefix
    obtain ⟨y, rfl⟩ :=
      (List.prefix_or_prefix_of_prefix hprefix (List.prefix_append p q)).resolve_left hle
    refine ⟨y, ?_, (List.prefix_append_right_inj _).mp hprefix, h.between, h.number⟩
    rintro rfl
    rw [List.append_nil] at hle
    exact hle (List.prefix_refl p)

/-- In a word the scan leaves the place like that if the word is dropped. -/
theorem Fresh.idles_iff_of_underway (hs : s.Fresh n)
    (hunder : (s.through brackets p).wordStart ≠ none) :
    Idles brackets s p q ↔ ∃ x y z r, AtBreak brackets x ∧ y ++ z = ['"', '"', '"'] ∧ y ≠ [] ∧
      z ≠ [] ∧ p = x ++ y ∧ q = z ++ r := by
  constructor
  · rintro ⟨y, -, ⟨rest, rfl⟩, hnone, hwords⟩
    obtain ⟨x, y, z, r, hx, hquotes, hy, hz, hp, rfl⟩ := hs.dropped hunder hnone hwords
    exact ⟨x, y, z, r ++ rest, hx, hquotes, hy, hz, hp, List.append_assoc ..⟩
  · rintro ⟨x, y, z, r, hx, hquotes, hy, hz, rfl, rfl⟩
    obtain ⟨hnone, hwords, -⟩ := hs.after_quotes hx
    obtain ⟨-, hsame⟩ := hs.among hx hquotes hy hz
    rw [← hquotes, ← List.append_assoc] at hnone hwords
    exact ⟨z, hz, List.prefix_append _ _, hnone, by rw [hwords, hsame]⟩

/-- Between words the scan leaves the place like that at what belongs to no word. -/
theorem Fresh.idles_iff_of_between (hs : s.Fresh n)
    (hnone : (s.through brackets p).wordStart = none) :
    Idles brackets s p q ↔ BeginsIdle q := by
  have hbetween := (hs.begun p).between_of_none hnone
  constructor
  · rintro ⟨y, hy, ⟨rest, rfl⟩, hend, hwords⟩
    obtain ⟨c, y, rfl⟩ := List.exists_cons_of_ne_nil hy
    cases hs.moves brackets p c with
    | goes hsame hstart =>
      rw [← List.singleton_append, ← List.append_assoc] at hend hwords
      obtain ⟨x, y', z, r, hx, hquotes, hy', hz, hp, rfl⟩ :=
        hs.dropped (by rw [hstart]; simp) hend (by rw [hwords, hsame])
      obtain ⟨y', rfl, rfl⟩ := exists_of_concat_eq_append hp hy'
      rw [List.append_assoc] at hquotes
      by_cases hnil : y' = []
      · -- the word has begun with the first of the quotes
        obtain ⟨rfl, rfl⟩ : c = '"' ∧ z = ['"', '"'] := by simpa [hnil] using hquotes
        exact .quotes
      · exact absurd hnone (hs.among hx hquotes hnil (by simp)).1
    | ends _ _ hstart =>
      rw [hnone] at hstart
      cases hstart
    | blank hc => exact .blank hc
    | drops _ _ hmode =>
      rw [hbetween.mode] at hmode
      cases hmode
  · intro hq
    cases hq with
    | @blank c q hc =>
      obtain ⟨hnone, hsame⟩ := hbetween.after_blank brackets hc
      refine ⟨[c], by simp, ⟨q, rfl⟩, ?_, ?_⟩ <;> rw [through_append]
      · exact hnone
      · exact congrArg List.length hsame
    | @quotes q =>
      obtain ⟨hnone, hwords, -⟩ := hbetween.after_quotes brackets
      refine ⟨['"', '"', '"'], by simp, ⟨q, rfl⟩, ?_, ?_⟩ <;> rw [through_append]
      · exact hnone
      · rw [hwords]

/-- **The places that the scan notes for a word further on.** -/
theorem Fresh.straysAt_iff {first : Bool} (hs : s.Fresh n)
    (hfirst : first = true ∧ s = {} ∨ first = false ∧ s.atBlank = true)
    (hblank : (s.through brackets p).atBlank = false)
    (hopen : ¬ ((s.through brackets p).wordClosed = true ∧
      (s.through brackets p).wordStart = none)) :
    StraysAt brackets first p q ↔ Idles brackets s p q := by
  by_cases hnone : (s.through brackets p).wordStart = none
  · have hclosed : ¬ (s.through brackets p).wordClosed = true := fun h => hopen ⟨h, hnone⟩
    rw [hs.idles_iff_of_between hnone]
    constructor
    · intro h
      cases h with
      | start _ hq => exact hq
      | among hx hquotes hy hz => exact absurd hnone (hs.among hx hquotes hy hz).1
      | after _ hq => exact hq
    · intro hq
      rcases List.eq_nil_or_concat p with rfl | ⟨p, c, rfl⟩
      · rcases hfirst with ⟨hfirst, -⟩ | ⟨-, hold⟩
        · exact .start hfirst hq
        · rw [through_nil, hold] at hblank
          cases hblank
      rw [List.concat_eq_append] at *
      cases hs.moves brackets p c with
      | goes _ hstart =>
        rw [hnone] at hstart
        cases hstart
      | ends _ _ _ _ _ hmark =>
        rcases hmark with hmark | hmark
        · rw [hblank] at hmark
          cases hmark
        · exact absurd hmark hclosed
      | blank _ _ _ _ hmark =>
        rw [hblank] at hmark
        cases hmark
      | drops hc _ hmode hletters =>
        obtain ⟨x, hx, rfl⟩ := hs.exists_break hmode hletters
        rw [hc, List.append_assoc]
        exact .after hx hq
  · rw [hs.idles_iff_of_underway hnone]
    constructor
    · intro h
      cases h with
      | start => exact absurd hs.between.wordStart hnone
      | @among x y z q hx hquotes hy hz => exact ⟨x, y, z, q, hx, hquotes, hy, hz, rfl, rfl⟩
      | after hx => exact absurd (hs.after_quotes hx).1 hnone
    · rintro ⟨x, y, z, r, hx, hquotes, hy, hz, rfl, rfl⟩
      exact .among hx hquotes hy hz

/-- Behind a word that a quotation has closed the scan knows where it is. -/
theorem Fresh.not_straysAt_of_closed {first : Bool} (hs : s.Fresh n)
    (hfirst : first = true ∧ s = {} ∨ first = false ∧ s.atBlank = true)
    (hclosed : (s.through brackets p).wordClosed = true)
    (hnone : (s.through brackets p).wordStart = none) : ¬ StraysAt brackets first p q := by
  intro h
  cases h with
  | start hyes =>
    rcases hfirst with ⟨-, rfl⟩ | ⟨hno, -⟩
    · cases hclosed
    · rw [hno] at hyes
      cases hyes
  | among hx hquotes hy hz => exact absurd hnone (hs.among hx hquotes hy hz).1
  | after hx =>
    rw [(hs.after_quotes hx).2.2] at hclosed
    cases hclosed

/-! ## 4. The selected word -/

theorem length_words_le (s : Scan) (brackets : Bool) (h : x <+: y) :
    (s.through brackets x).words.length ≤ (s.through brackets y).words.length := by
  obtain ⟨r, rfl⟩ := h
  rw [through_append]
  exact (words_through _ r).length_le

/-- The beginning of a word stands before a place of the text or behind it. -/
theorem Begins.prefix_or_prefix (h : Begins brackets s (p ++ q) x i) : x <+: p ∨ p <+: x :=
  List.prefix_or_prefix_of_prefix h.isPrefix (List.prefix_append p q)

/-- A finished word has begun before. -/
theorem Begins.before (h : Begins brackets s (p ++ q) x i)
    (hi : i < (s.through brackets p).words.length) : x <+: p := by
  refine h.prefix_or_prefix.resolve_right fun hp => ?_
  have hle := length_words_le s brackets hp
  rw [h.number] at hle
  omega

/-- A word that is not the next one begins further on, -/
theorem Begins.behind (h : Begins brackets s (p ++ q) x i)
    (hi : (s.through brackets p).words.length < i) : p <+: x := by
  refine h.prefix_or_prefix.resolve_left fun hp => ?_
  have hle := length_words_le s brackets hp
  rw [h.number] at hle
  omega

/-- and so does the next one, if none is under way. -/
theorem Begins.behind_of_between (h : Begins brackets s (p ++ q) x i)
    (hi : (s.through brackets p).words.length = i)
    (hnone : (s.through brackets p).wordStart = none) : p <+: x := by
  rcases h.prefix_or_prefix with ⟨r, rfl⟩ | hp
  · by_cases hr : r = []
    · exact ⟨[], by simp [hr]⟩
    · have hlasts := h.lasts r hr (List.prefix_append _ _) hi
      rw [hnone] at hlasts
      cases hlasts
  · exact hp

end Scan

/-! ## 5. The cursor -/

/-- The cursor stands where the scan notes a word that begins further on. -/
def Strays (o : ScanOptions) (front : List Segment) (t : Segment) : Prop :=
  ∃ p q, t.typed.toList = p ++ q ∧
    o.cursor = some (byteLength (lineOf front) + byteLength p) ∧
    StraysAt o.brackets front.isEmpty p q

theorem StraysAt.ne_nil {brackets first : Bool} {p q : List Char}
    (h : StraysAt brackets first p q) : q ≠ [] := by
  have hidle {q : List Char} (hq : BeginsIdle q) : q ≠ [] := by
    cases hq <;> simp
  cases h with
  | start _ hq => exact hidle hq
  | among _ _ _ hz => simp [hz]
  | after _ hq => exact hidle hq

/-- The place of the cursor in its segment is one. -/
theorem strays_iff {o : ScanOptions} {front : List Segment} {t : Segment} {p q : List Char}
    (htyped : t.typed.toList = p ++ q)
    (hcursor : o.cursor = some (byteLength (lineOf front) + byteLength p)) :
    Strays o front t ↔ StraysAt o.brackets front.isEmpty p q := by
  refine ⟨fun ⟨p', q', htyped', hcursor', h⟩ => ?_, fun h => ⟨p, q, htyped, hcursor, h⟩⟩
  rw [hcursor, Option.some.injEq] at hcursor'
  rw [htyped] at htyped'
  obtain rfl : p = p' := append_inj_of_byteLength htyped' (by omega)
  obtain rfl : q = q' := List.append_cancel_left htyped'
  exact h

/-- **The cursor and the word that it selects.** The selected word is one of the segment, and the
cursor is not past the place where the next word begins. It is before the place where the selected
word itself begins if and only if it strays. -/
theorem selectedWord_underCursor {o : ScanOptions} {line : String} {front back : List Segment}
    {t : Segment} {i : Nat} (h : segments o line = front ++ t :: back)
    (hi : t.selectedWord = some i) :
    ∃ c w, o.cursor = some c ∧ t.words[i]? = some w ∧
      (∀ w', t.words[i + 1]? = some w' → c ≤ w'.offset) ∧ (c < w.offset ↔ Strays o front t) := by
  obtain ⟨s, note, hfresh, hmark, hnoted, hends⟩ := segments_passage_marked h
  have hfirst : front.isEmpty = true ∧ s = {} ∨ front.isEmpty = false ∧ s.atBlank = true := by
    simpa only [List.isEmpty_iff, ← Bool.not_eq_true] using hmark
  have hmem : t ∈ segments o line := h ▸ List.mem_append_right _ List.mem_cons_self
  have hindex : i < t.words.length := Scan.segmentsFrom_selected t hmem i hi
  obtain ⟨x, hx, hoffset⟩ := hfresh.exists_begins hends (List.getElem?_eq_getElem hindex)
  obtain ⟨c, hcursor, ⟨hpast, hlast, -⟩ | ⟨hlt, hselection⟩⟩ := hends.selection_source hi
  · -- the cursor stands at the end of the last word
    have hpos : ((s.through o.brackets t.typed.toList).noting note).pos =
        byteLength (lineOf front) + byteLength t.typed.toList := by
      rw [← hfresh.pos, ← Scan.through_pos]
      rfl
    rw [hpos] at hpast
    refine ⟨c, t.words[i], hcursor, List.getElem?_eq_getElem hindex, fun w' hget' => ?_,
      iff_of_false ?_ ?_⟩
    · have hmore := (List.getElem?_eq_some_iff.mp hget').1
      omega
    · obtain ⟨y, -, htext⟩ := hx.inside
      rw [htext, byteLength_append] at hpast
      omega
    · rintro ⟨p, q, htyped, hcursor', hstrays⟩
      rw [hcursor, Option.some.injEq] at hcursor'
      rw [htyped, byteLength_append] at hpast
      exact hstrays.ne_nil (eq_nil_of_byteLength_eq_zero (by omega))
  · -- the scan has come to the cursor
    obtain rfl : note = some (i, t.cursorInWord) := hselection
    obtain hnone | ⟨p, q, htyped, hcursor', hmark⟩ := hnoted
    · obtain ⟨b, w, rfl⟩ := hfresh
      cases hnone
    rw [hfresh.pos] at hcursor'
    rw [strays_iff htyped hcursor']
    rw [htyped] at hends hx
    refine ⟨_, t.words[i], hcursor', List.getElem?_eq_getElem hindex, fun w' hget' => ?_, ?_⟩
    · obtain ⟨x', hx', hoffset'⟩ := hfresh.exists_begins hends hget'
      have hle := byteLength_le_iff (List.prefix_append p q) hx'.isPrefix
      rw [hoffset', Nat.add_le_add_iff_left, hle]
      obtain ⟨-, ⟨-, hnone, hnumber, -⟩ | ⟨-, hnumber, -⟩⟩ := Scan.markCursor_source hmark.symm
      · exact hx'.behind_of_between hnumber.symm hnone
      · exact hx'.behind (by omega)
    · rw [hoffset, Nat.add_lt_add_iff_left, ← Nat.not_le,
        byteLength_le_iff hx.isPrefix (List.prefix_append p q)]
      obtain ⟨hblank, ⟨hclosed, hnone, hnumber, -⟩ | ⟨hopen, rfl, -⟩⟩ :=
        Scan.markCursor_source hmark.symm
      · refine iff_of_false (fun hno => hno (hx.before (by omega))) ?_
        exact hfresh.not_straysAt_of_closed hfirst hclosed hnone
      · rw [← hx.idles_iff]
        exact (hfresh.straysAt_iff hfirst hblank hopen).symm

/-- A cursor after three double quotes that are no word, in the second segment. -/
theorem selectedWord_underCursor_after_quotes :
    let o : ScanOptions := { cursor := some 7, operators := [.pipe] }
    let front : List Segment :=
      [{ typed := "a ", words := [⟨"a", 0, .plain⟩], operator := .pipe }]
    let t : Segment :=
      { typed := " \"\"\" b c", words := [⟨"b", 8, .plain⟩, ⟨"c", 10, .plain⟩], cursor := some 7,
        selectedWord := some 0, operator := .endOfLine }
    segments o "a | \"\"\" b c" = front ++ [t] ∧ t.selectedWord = some 0 ∧
      ∃ c w, o.cursor = some c ∧ t.words[0]? = some w ∧
        (∀ w', t.words[1]? = some w' → c ≤ w'.offset) ∧ (c < w.offset ↔ Strays o front t) := by
  intro o front t
  have hsegs : segments o "a | \"\"\" b c" = front ++ [t] := by decide +kernel
  exact ⟨hsegs, rfl, selectedWord_underCursor hsegs rfl⟩

/-- At the start of the line, before a blank, the word after the blank is selected. -/
theorem selectedWord_behind_cursor : ¬ ∀ (o : ScanOptions) (line : String), ∀ t ∈ segments o line,
    ∀ i w c, t.selectedWord = some i → t.words[i]? = some w → o.cursor = some c →
      w.offset ≤ c := by
  intro hall
  let o : ScanOptions := { cursor := some 0 }
  let t : Segment :=
    { typed := " foo", words := [⟨"foo", 1, .plain⟩], cursor := some 0, selectedWord := some 0,
      operator := .endOfLine }
  have hsegs : segments o " foo" = [t] := by decide +kernel
  have hle := hall o " foo" t (by rw [hsegs]; simp) 0 ⟨"foo", 1, .plain⟩ 0 rfl rfl rfl
  exact absurd hle (by decide)

/-- After an operator the scan knows that it stands before a blank, and selects nothing. -/
example :
    (segments { cursor := some 1, operators := [.pipe] } "| foo").map (·.selectedWord) =
      [none, none] := by
  decide +kernel

end LineShell
