import LineShell.Proofs.WordStart

/-!
# Where words begin

Each word of a segment begins at the byte that its offset says, and its stretch of the segment goes
from there to where the next word begins, or to the end of the segment. What stands before the
stretch has no part in the word: the scan comes there with nothing under way, and all that it keeps
of the text before is the finished words.

* `Begins`: the place in a text after which a word begins. `Fresh.anchored` finds it for every
  finished word and for the one under way;
* `behind` puts words and text before what a state has. `step_behind` and `end_behind`: one
  character does the same behind them, and so does the end;
* `Between.end_words`: so a text that begins between words adds the words that it has alone;
* `words_stretches`: the offsets ascend, and each word is the only one of its own stretch.
-/

namespace LineShell
namespace Scan

variable {o : ScanOptions} {s : Scan} {brackets : Bool} {c : Char} {n i : Nat}
  {text x y : List Char}

/-! ## 1. Beginnings -/

/-- In the text the word of number `i` begins after `x`. There nothing is under way and `i` words
are finished, and from there on that word is under way until it is finished. -/
structure Begins (brackets : Bool) (s : Scan) (text x : List Char) (i : Nat) : Prop where
  inside : ∃ y, y ≠ [] ∧ text = x ++ y
  between : (s.through brackets x).wordStart = none
  number : (s.through brackets x).words.length = i
  lasts : ∀ y, y ≠ [] → x ++ y <+: text → (s.through brackets (x ++ y)).words.length = i →
    (s.through brackets (x ++ y)).wordStart = some (s.pos + byteLength x)

/-- Every finished word begins where its offset says, and the one under way where the scan has
noted. -/
structure Anchored (brackets : Bool) (s : Scan) (text : List Char) : Prop where
  finished : ∀ i w, (s.through brackets text).words[i]? = some w →
    ∃ x, Begins brackets s text x i ∧ w.offset = s.pos + byteLength x
  underway : ∀ a, (s.through brackets text).wordStart = some a →
    ∃ x, Begins brackets s text x (s.through brackets text).words.length ∧
      a = s.pos + byteLength x

theorem Begins.isPrefix (h : Begins brackets s text x i) : x <+: text := by
  obtain ⟨x', -, hx⟩ := h.inside
  exact ⟨x', hx.symm⟩

/-- A word has begun in a longer text where it has begun before. -/
theorem Begins.concat (h : Begins brackets s text x i)
    (hlast : (s.through brackets (text ++ [c])).words.length = i →
      (s.through brackets (text ++ [c])).wordStart = some (s.pos + byteLength x)) :
    Begins brackets s (text ++ [c]) x i where
  inside := by
    obtain ⟨y, hy, rfl⟩ := h.inside
    exact ⟨y ++ [c], by simp, List.append_assoc ..⟩
  between := h.between
  number := h.number
  lasts := by
    intro y hy hprefix hnumber
    rcases List.prefix_concat_iff.mp hprefix with heq | hprefix
    · rw [heq] at hnumber ⊢
      exact hlast hnumber
    · exact h.lasts y hy hprefix hnumber

/-- A word begins at a character that takes the scan from between words into one. -/
theorem Begins.here (hbetween : (s.through brackets text).wordStart = none)
    (hstart : (s.through brackets (text ++ [c])).wordStart = some (s.pos + byteLength text)) :
    Begins brackets s (text ++ [c]) text (s.through brackets text).words.length where
  inside := ⟨[c], by simp, rfl⟩
  between := hbetween
  number := rfl
  lasts := by
    intro y hy hprefix _
    rcases List.prefix_concat_iff.mp hprefix with heq | hprefix
    · rw [heq, hstart]
    · have heq := (List.prefix_append text y).eq_of_length_le hprefix.length_le
      exact absurd heq (by simpa using hy)

/-- **In every text the words are anchored.** -/
theorem Fresh.anchored (hs : s.Fresh n) (brackets : Bool) (text : List Char) :
    Anchored brackets s text := by
  induction text using List.reverseRecOn with
  | nil =>
    obtain ⟨b, w, rfl⟩ := hs
    exact ⟨fun i w h => by simp at h, fun a h => by simp at h⟩
  | append_singleton text c ih =>
    -- a word that is finished does not change any more
    have hold : (s.through brackets text).words <+: (s.through brackets (text ++ [c])).words := by
      rw [through_append]
      exact words_through _ [c]
    have hfinished : ∀ i w, (s.through brackets text).words[i]? = some w →
        ∃ x, Begins brackets s (text ++ [c]) x i ∧ w.offset = s.pos + byteLength x := by
      intro i w hget
      obtain ⟨x, hx, hoffset⟩ := ih.finished i w hget
      have hlt : i < (s.through brackets text).words.length :=
        (List.getElem?_eq_some_iff.mp hget).1
      refine ⟨x, hx.concat fun hlength => ?_, hoffset⟩
      have hle := hold.length_le
      omega
    cases hs.moves brackets text c with
    | goes hwords hstart =>
      rw [hwords] at hold
      refine ⟨fun i w hget => hfinished i w (hwords ▸ hget), fun a ha => ?_⟩
      rw [hwords]
      cases hunder : (s.through brackets text).wordStart with
      | none =>
        rw [hunder, Option.getD_none, through_pos] at hstart
        rw [hstart, Option.some.injEq] at ha
        exact ⟨text, .here hunder hstart, ha.symm⟩
      | some b =>
        rw [hunder, Option.getD_some] at hstart
        rw [hstart, Option.some.injEq] at ha
        obtain ⟨x, hx, hb⟩ := ih.underway b hunder
        exact ⟨x, hx.concat fun _ => by rw [hstart, hb], ha.symm.trans hb⟩
    | @ends w _ hwords hstart _ hbetween =>
      refine ⟨fun i w' hget => ?_, fun a ha => by rw [hbetween.wordStart] at ha; cases ha⟩
      rw [hwords] at hget
      rcases getElem?_concat_cases hget with ⟨-, hget⟩ | ⟨rfl, rfl⟩
      · exact hfinished i w' hget
      · obtain ⟨x, hx, hoffset⟩ := ih.underway _ hstart
        refine ⟨x, hx.concat fun hlength => ?_, hoffset⟩
        rw [hwords, List.length_append, List.length_singleton] at hlength
        omega
    | blank _ hwords _ hbetween =>
      exact ⟨fun i w hget => hfinished i w (hwords ▸ hget),
        fun a ha => by rw [hbetween.wordStart] at ha; cases ha⟩
    | drops _ hwords _ _ hbetween =>
      exact ⟨fun i w hget => hfinished i w (hwords ▸ hget),
        fun a ha => by rw [hbetween.wordStart] at ha; cases ha⟩

/-! ## 2. The words of a segment -/

section Segment

variable {note : Option (Nat × Nat)} {t : Segment} {back : List Segment}

/-- A segment has the words that are finished on the way. -/
theorem Leaves.isPrefix {words : List Word} {status : SegmentStatus} (h : s.Leaves words status) :
    s.words <+: words := by
  cases h with
  | nothing _ hwords => exact hwords ▸ List.prefix_refl _
  | word _ hwords => exact hwords ▸ List.prefix_append _ _

/-- What the end of a segment makes of its text. -/
theorem Fresh.leaves (hs : s.Fresh n)
    (hends : ((s.through brackets text).noting note).HeadEnds o t back) :
    ∃ status, (s.through brackets text).Leaves t.words status := by
  obtain ⟨-, -, h⟩ | ⟨-, h, -⟩ :=
    hends.leaves (hs.follows.through text).toCoherent (hs.begun text)
  · exact ⟨_, h⟩
  · exact ⟨_, h⟩

theorem Fresh.words_isPrefix (hs : s.Fresh n)
    (hends : ((s.through brackets text).noting note).HeadEnds o t back) :
    (s.through brackets text).words <+: t.words := by
  obtain ⟨status, hleaves⟩ := hs.leaves hends
  exact hleaves.isPrefix

/-- **Every word of a segment begins where its offset says**, after the words before it. -/
theorem Fresh.exists_begins (hs : s.Fresh n)
    (hends : ((s.through brackets text).noting note).HeadEnds o t back) {w : Word}
    (hget : t.words[i]? = some w) :
    ∃ x, Begins brackets s text x i ∧ w.offset = n + byteLength x := by
  obtain ⟨status, hleaves⟩ := hs.leaves hends
  have hanchored := hs.anchored brackets text
  rw [← hs.pos]
  cases hleaves with
  | nothing h hwords => exact hanchored.finished i w (hwords ▸ hget)
  | @word w' hstart hwords =>
    rw [hwords] at hget
    rcases getElem?_concat_cases hget with ⟨-, hget⟩ | ⟨rfl, rfl⟩
    · exact hanchored.finished i w hget
    · exact hanchored.underway _ hstart

/-- Where a word of the segment begins the segment has the words before it. -/
theorem Begins.words_eq (h : Begins brackets s text x i)
    (hgrown : (s.through brackets text).words <+: t.words) :
    (s.through brackets x).words = t.words.take i := by
  obtain ⟨y, -, rfl⟩ := h.inside
  have hprefix : (s.through brackets x).words <+: t.words := by
    rw [through_append] at hgrown
    exact (words_through _ y).trans hgrown
  rw [List.prefix_iff_eq_take.mp hprefix, h.number]

/-- Words begin one after the other. -/
theorem Begins.lt {j : Nat} {x' : List Char} (h : Begins brackets s text x i)
    (h' : Begins brackets s text x' j) (hij : i < j) : ∃ y, y ≠ [] ∧ x' = x ++ y := by
  rcases List.prefix_or_prefix_of_prefix h.isPrefix h'.isPrefix with ⟨z, rfl⟩ | ⟨z, rfl⟩
  · refine ⟨z, ?_, rfl⟩
    rintro rfl
    have hnumber := h'.number
    rw [List.append_nil, h.number] at hnumber
    omega
  · have hle : (s.through brackets x').words <+: (s.through brackets (x' ++ z)).words := by
      rw [through_append]
      exact words_through _ z
    have hlength := hle.length_le
    rw [h.number, h'.number] at hlength
    omega

end Segment

/-! ## 3. Behind other words -/

/-- The state `s`, in a segment from byte `m` on that has had the words `ws` and the text `r` before
it. -/
def behind (m : Nat) (ws : List Word) (r : List Char) (s : Scan) : Scan :=
  { s with start := m, words := ws ++ s.words, read := s.read ++ r }

section Behind

variable {m : Nat} {ws : List Word} {r : List Char}

theorem push_behind : (s.behind m ws r).push c = (s.push c).behind m ws r := rfl

/-- A word under way is finished at its own place. -/
theorem flush_behind (h : s.wordStart.isSome = true) (status : WordStatus) :
    (s.behind m ws r).flush status = (s.flush status).behind m ws r := by
  obtain ⟨a, ha⟩ := Option.isSome_iff_exists.mp h
  simp [flush, behind, ha]

theorem closeQuotation_behind (h : s.wordStart.isSome = true) :
    (s.behind m ws r).closeQuotation = s.closeQuotation.behind m ws r := by
  have hflush := @flush_behind { s with quotation := none } m ws r h .plain
  exact congrArg (fun t : Scan => { t with wordClosed := true }) hflush

theorem flushText_behind (h : s.letters ≠ [] → s.wordStart.isSome = true) :
    (s.behind m ws r).flushText = s.flushText.behind m ws r := by
  have hletters : (s.behind m ws r).letters = s.letters := rfl
  rw [flushText, flushText, hletters]
  by_cases hnil : s.letters = []
  · rw [hnil]
    rfl
  · rw [if_neg (by rwa [List.isEmpty_iff]), if_neg (by rwa [List.isEmpty_iff])]
    exact flush_behind (h hnil) .plain

theorem Begun.wordStart_of_letters (h : s.Begun) (hletters : s.letters ≠ []) :
    s.wordStart.isSome = true := (h.underway_of_letters hletters).wordStart

theorem stepBare_behind (h : s.letters ≠ [] → s.wordStart.isSome = true) :
    (s.behind m ws r).stepBare brackets c = (s.stepBare brackets c).behind m ws r := by
  simp only [stepBare, push_behind, flushText_behind h, apply_ite (behind m ws r)]
  rfl

theorem stepSingle_behind {odd : Bool} (h : s.wordStart.isSome = true) :
    (s.behind m ws r).stepSingle odd c = (s.stepSingle odd c).behind m ws r := by
  simp only [stepSingle, push_behind, closeQuotation_behind h, apply_ite (behind m ws r)]
  rfl

theorem stepDouble_behind {openedAt : Nat} {odd : Bool} (h : s.wordStart.isSome = true) :
    (s.behind m ws r).stepDouble openedAt odd c = (s.stepDouble openedAt odd c).behind m ws r := by
  simp only [stepDouble, push_behind, closeQuotation_behind h, apply_ite (behind m ws r)]
  rfl

theorem stepDoubled_behind {before : Nat} (h : s.wordStart.isSome = true) (hread : s.read ≠ []) :
    (s.behind m ws r).stepDoubled before c = (s.stepDoubled before c).behind m ws r := by
  have hletters : (s.behind m ws r).letters = s.letters := rfl
  have hhead : (s.behind m ws r).read.head? = s.read.head? := by
    obtain ⟨d, ds, hd⟩ := List.exists_cons_of_ne_nil hread
    rw [behind, hd]
    rfl
  unfold stepDoubled
  simp only [hletters, hhead, push_behind]
  generalize (if before < byteLength s.letters then s.letters.tail else s.letters) = letters
  split_ifs
  · rfl
  · exact @closeQuotation_behind { s with letters := letters } m ws r h
  · rfl

theorem stepBracketed_behind :
    (s.behind m ws r).stepBracketed c = (s.stepBracketed c).behind m ws r := by
  simp only [stepBracketed, push_behind, apply_ite (behind m ws r)]
  rfl

/-- What is known of a state before a character: the place of its word, if there is something of it,
and that a doubled quotation has been opened. -/
structure Ready (s : Scan) : Prop where
  letters : s.letters ≠ [] → s.wordStart.isSome = true
  quoted : s.quotation.isSome = true → s.wordStart.isSome = true
  read : ∀ second before, s.quotation = some (.doubled second before) → s.read ≠ []

theorem take_behind (h : s.Ready) :
    (s.behind m ws r).take brackets c = (s.take brackets c).behind m ws r := by
  have hopen : ({ s.behind m ws r with wordClosed := false } : Scan) =
      ({ s with wordClosed := false } : Scan).behind m ws r := rfl
  have hready : ({ s with wordClosed := false } : Scan).Ready := ⟨h.letters, h.quoted, h.read⟩
  rw [take, take, hopen]
  generalize ({ s with wordClosed := false } : Scan) = s at hready ⊢
  have hclosers : (s.behind m ws r).closers = s.closers := rfl
  have hquotation : (s.behind m ws r).quotation = s.quotation := rfl
  simp only [hclosers, hquotation]
  split
  · rw [stepBracketed_behind]
    rfl
  · cases hq : s.quotation with
    | none => exact stepBare_behind hready.letters
    | some q =>
      have hstart : s.wordStart.isSome = true := hready.quoted (by rw [hq]; rfl)
      cases q with
      | single odd =>
        simp only [stepSingle_behind hstart]
        rfl
      | double openedAt odd =>
        simp only [stepDouble_behind hstart]
        rfl
      | doubled second before =>
        simp only [stepDoubled_behind hstart (hready.read second before hq)]
        rfl

theorem Begun.ready (hbegun : s.Begun) (htracked : s.Tracked) : s.Ready where
  letters := hbegun.wordStart_of_letters
  quoted := by
    intro hquotation
    refine (hbegun.underway_of_mode fun hmode => ?_).wordStart
    rw [(mode_eq_bare hmode).2.1] at hquotation
    cases hquotation
  read := by
    intro second before hquotation
    obtain ⟨inner, entry, hinside⟩ := htracked second before hquotation
    obtain ⟨front, hread⟩ := hinside.read
    simp [hread]

/-- **One character does the same behind other words.** -/
theorem step_behind (htracked : s.Tracked) (hbegun : s.Begun) :
    (s.behind m ws r).step brackets c = (s.step brackets c).behind m ws r := by
  rw [step, take_behind (hbegun.ready htracked)]
  rfl

/-! ## 4. The end, behind other words -/

theorem InsideDoubled.behind {inner entry : List Char} (h : s.InsideDoubled inner entry) :
    (s.behind m ws r).InsideDoubled inner entry where
  quotation := h.quotation
  letters := h.letters
  read := by
    obtain ⟨front, hread⟩ := h.read
    exact ⟨front ++ r, by rw [Scan.behind, hread, List.append_assoc, List.cons_append]⟩
  closers := h.closers
  escaped := h.escaped
  first := h.first
  atBlank := h.atBlank
  wordClosed := h.wordClosed

/-- Whether a doubled quotation is empty is seen from what stands in it. -/
theorem settleDoubled_behind (htracked : s.Tracked) (hbegun : s.Begun) :
    (s.behind m ws r).settleDoubled = s.settleDoubled.behind m ws r := by
  have hsame : (s.behind m ws r).quotation = s.quotation := rfl
  rcases hquotation : s.quotation with - | ⟨odd | ⟨openedAt, odd⟩ | ⟨second, before⟩⟩ <;>
    simp only [settleDoubled, hsame, hquotation]
  obtain ⟨inner, entry, hinside⟩ := htracked second before hquotation
  have hstart : s.wordStart.isSome = true :=
    (hbegun.underway_of_mode (by rw [hinside.mode]; simp)).wordStart
  have hbehind : (s.behind m ws r).InsideDoubled inner entry := hinside.behind
  by_cases hgap : IsGap inner
  · rw [if_pos ((hbehind.all_blank_iff hquotation).mpr hgap),
      if_pos ((hinside.all_blank_iff hquotation).mpr hgap)]
    exact congrArg (fun t : Scan => { t with atBlank := decide (second + 1 < s.pos) })
      (@flush_behind { s with
        letters := s.letters.drop (byteLength s.letters - before), quotation := none }
        m ws r hstart .plain)
  · rw [if_neg ((hbehind.all_blank_iff hquotation).not.mpr hgap),
      if_neg ((hinside.all_blank_iff hquotation).not.mpr hgap)]

theorem flushEnd_behind (hbegun : s.Begun) :
    (s.behind m ws r).flushEnd = s.flushEnd.behind m ws r := by
  have hopen (h : s.isBare = false) : s.wordStart.isSome = true := by
    refine (hbegun.underway_of_mode fun hmode => ?_).wordStart
    rw [isBare_iff.mpr hmode] at h
    cases h
  have hquotation : (s.behind m ws r).quotation = s.quotation := rfl
  have hclosers : (s.behind m ws r).closers = s.closers := rfl
  rw [flushEnd, flushEnd, hquotation, hclosers]
  split
  · rename_i hsome
    exact flush_behind (hopen (by simp [isBare, ← Option.not_isSome, hsome])) .openQuote
  split
  · rename_i hsome
    rw [Bool.not_eq_true'] at hsome
    exact flush_behind (hopen (by simp only [isBare, hsome, Bool.and_false])) .openBracket
  · refine @flushText_behind
      { s with letters := if s.escaped then '\\' :: s.letters else s.letters } m ws r ?_
    intro hletters
    cases hescaped : s.escaped with
    | true => exact hopen (by simp [isBare, hescaped])
    | false => exact hbegun.wordStart_of_letters (by simpa [hescaped] using hletters)

/-- **The end of the line does the same behind other words.** -/
theorem end_behind (hcoherent : s.Coherent) (htracked : s.Tracked) (hbegun : s.Begun) :
    (s.behind m ws r).settleDoubled.flushEnd = s.settleDoubled.flushEnd.behind m ws r := by
  rw [settleDoubled_behind htracked hbegun, flushEnd_behind (hbegun.settleDoubled hcoherent)]

end Behind

/-! ## 5. Alone -/

/-- The words of a text that stands alone, up to its end. -/
def aloneWords (brackets : Bool) (text : List Char) : List Word :=
  (({} : Scan).through brackets text).settleDoubled.flushEnd.words

theorem Fresh.through_behind {m : Nat} {ws : List Word} {r : List Char} (hs : s.Fresh n)
    (text : List Char) :
    (s.behind m ws r).through brackets text = (s.through brackets text).behind m ws r := by
  induction text using List.reverseRecOn with
  | nil => rfl
  | append_singleton text c ih =>
    rw [through_append, through_append, ih]
    exact step_behind (hs.tracked text) (hs.begun text)

/-- A text that begins further down the line. -/
theorem Fresh.through_shift (hs : s.Fresh n) (htext : text ≠ []) :
    s.through brackets text = (({} : Scan).through brackets text).shift n := by
  have hshift (s : Scan) (cs : List Char) :
      (s.shift n).through brackets cs = (s.through brackets cs).shift n := by
    induction cs generalizing s with
    | nil => rfl
    | cons c cs ih => rw [through_cons, step_shift, ih, through_cons]
  obtain ⟨c, cs, rfl⟩ := List.exists_cons_of_ne_nil htext
  rw [through_cons, hs.step, hshift, through_cons]

/-- Between words the scan stands as at the start of a segment, behind the words so far. -/
theorem Between.eq_behind (h : s.Between) :
    ∃ f : Scan, f.Fresh s.pos ∧ s = (f.behind s.start s.words s.read).noting s.selection := by
  obtain ⟨hclosers, hquotation, hescaped⟩ := mode_eq_bare h.mode
  refine ⟨_, ⟨s.atBlank, s.wordClosed, rfl⟩, ?_⟩
  cases s
  cases h.wordStart
  cases h.letters
  cases hclosers
  cases hquotation
  cases hescaped
  simp [behind, noting]

/-- **A text that begins between words adds the words that it has alone**, further down the line. -/
theorem Between.end_words (h : s.Between) (htext : text ≠ []) :
    (s.through brackets text).settleDoubled.flushEnd.words =
      s.words ++ (aloneWords brackets text).map (.shift s.pos) := by
  obtain ⟨f, hf, hs⟩ := h.eq_behind
  generalize s.words = ws at hs ⊢
  generalize s.pos = n at hf ⊢
  rw [hs, through_noting, hf.through_behind, settleDoubled_noting, flushEnd_noting,
    end_behind (hf.follows.through text).toCoherent (hf.tracked text) (hf.begun text),
    hf.through_shift htext, settleDoubled_shift, flushEnd_shift]
  rfl

/-- Between words the end of the line adds nothing. -/
theorem Between.end_eq (h : s.Between) : s.settleDoubled.flushEnd = s := by
  rw [settleDoubled_of_bare h.mode, flushEnd_of_bare h.mode, flushText_of_nil h.letters]

/-! ## 6. Stretches -/

section Stretch

variable {note : Option (Nat × Nat)} {t : Segment} {back : List Segment}

/-- At an operator the words end as at the end of the line. -/
theorem HeadEnds.words_eq (h : (s.noting note).HeadEnds o t back) :
    t.words = s.settleDoubled.flushEnd.words := by
  obtain h | ⟨hbare, h⟩ := h.words
  · exact h
  · have hmode := isBare_iff.mp hbare
    rw [h, settleDoubled_of_bare hmode, flushEnd_of_bare hmode]

/-- If a text that begins between words adds one word that begins with it, it has that word alone.
-/
theorem Between.aloneWords_eq (h : s.Between) (htext : text ≠ []) {w : Word}
    (hoffset : w.offset = s.pos)
    (hwords : (s.through brackets text).settleDoubled.flushEnd.words = s.words ++ [w]) :
    aloneWords brackets text = [{ w with offset := 0 }] := by
  rw [h.end_words htext, List.append_cancel_left_eq] at hwords
  obtain ⟨w', hw', rfl⟩ := List.map_eq_singleton_iff.mp hwords
  have hzero : w'.offset = 0 := by
    simp only [Word.shift] at hoffset
    omega
  rw [hw', ← hzero]
  rfl

/-- Up to where the stretch of a word ends the segment has the words up to that one. The stretch
ends where the next word begins, or at the end of the segment. -/
theorem Fresh.exists_end (hs : s.Fresh n)
    (hends : ((s.through brackets text).noting note).HeadEnds o t back)
    (hx : Begins brackets s text x i) :
    ∃ y z, text = x ++ y ++ z ∧ y ≠ [] ∧
      (t.words[i + 1]?).elim (n + byteLength text) (·.offset) = n + byteLength (x ++ y) ∧
      (s.through brackets (x ++ y)).settleDoubled.flushEnd.words = t.words.take (i + 1) := by
  cases hnext : t.words[i + 1]? with
  | none =>
    obtain ⟨y, hy, rfl⟩ := hx.inside
    refine ⟨y, [], by rw [List.append_nil], hy, rfl, ?_⟩
    rw [← hends.words_eq, List.take_of_length_le (List.getElem?_eq_none_iff.mp hnext)]
  | some w' =>
    obtain ⟨x', hx', hoffset'⟩ := hs.exists_begins hends hnext
    obtain ⟨y, hy, rfl⟩ := hx.lt hx' (Nat.lt_succ_self i)
    obtain ⟨z, -, htext⟩ := hx'.inside
    refine ⟨y, z, htext, hy, hoffset', ?_⟩
    -- nothing is under way where the next word begins
    rw [((hs.begun _).between_of_none hx'.between).end_eq, hx'.words_eq (hs.words_isPrefix hends)]

/-- **A word stands in its stretch**, and the stretch has it alone. -/
theorem Fresh.exists_stretch (hs : s.Fresh n)
    (hends : ((s.through brackets text).noting note).HeadEnds o t back) {w : Word}
    (hget : t.words[i]? = some w) :
    ∃ x y z, text = x ++ y ++ z ∧ y ≠ [] ∧ w.offset = n + byteLength x ∧
      (t.words[i + 1]?).elim (n + byteLength text) (·.offset) = n + byteLength (x ++ y) ∧
      aloneWords brackets y = [{ w with offset := 0 }] := by
  obtain ⟨x, hx, hoffset⟩ := hs.exists_begins hends hget
  obtain ⟨y, z, htext, hy, hnext, hwords⟩ := hs.exists_end hends hx
  have hbetween := (hs.begun x).between_of_none hx.between
  have hpos : w.offset = (s.through brackets x).pos := by rw [through_pos, hs.pos, hoffset]
  refine ⟨x, y, z, htext, hy, hoffset, hnext, hbetween.aloneWords_eq hy hpos ?_⟩
  rw [← through_append, hwords, hx.words_eq (hs.words_isPrefix hends), List.take_add_one, hget]
  rfl

theorem Fresh.offsets_lt (hs : s.Fresh n)
    (hends : ((s.through brackets text).noting note).HeadEnds o t back) :
    t.words.Pairwise (·.offset < ·.offset) := by
  rw [List.pairwise_iff_getElem]
  intro i j hi hj hij
  obtain ⟨x, hx, hoffset⟩ := hs.exists_begins hends (List.getElem?_eq_getElem hi)
  obtain ⟨x', hx', hoffset'⟩ := hs.exists_begins hends (List.getElem?_eq_getElem hj)
  obtain ⟨y, hy, rfl⟩ := hx.lt hx' hij
  have hlength := length_le_byteLength y
  have hlength' := List.length_pos_iff.mpr hy
  rw [hoffset, hoffset', byteLength_append]
  omega

end Stretch
end Scan

/-- Alone a text is one segment. -/
theorem exists_segments_alone (brackets : Bool) (text : List Char) :
    ∃ u, segments { brackets := brackets } (String.ofList text) = [u] ∧
      (text ≠ [] → u.words = Scan.aloneWords brackets text) := by
  obtain ⟨u, hsegs, htyped⟩ :=
    (segments_partition { brackets := brackets } (String.ofList text)).whole (by simp)
  refine ⟨u, hsegs, fun htext => ?_⟩
  have hsplit : segments { brackets := brackets } (String.ofList text) = [] ++ u :: [] := hsegs
  obtain ⟨s, note, hfresh, -, hends⟩ := segments_passage hsplit
  rw [htyped, String.toList_ofList] at hends
  have hstart : s.Fresh 0 := hfresh
  have hnothing : s.words = [] := by
    obtain ⟨b, w, rfl⟩ := hfresh
    rfl
  rw [hends.words_eq, hstart.between.end_words htext, hstart.pos, hnothing, List.nil_append,
    Word.map_shift_zero]

/-- `y` is the part of the text from byte `a` to byte `b`, and characters begin there or the text
ends. -/
def IsSlice (text : List Char) (a b : Nat) (y : List Char) : Prop :=
  ∃ p q, text = p ++ y ++ q ∧ byteLength p = a ∧ byteLength (p ++ y) = b

/-- **Words stand where their offsets say.** The offsets ascend and lie in the segment. The part of
the line from the offset of a word to that of the next one, or to the end of the segment, has that
word alone when it stands alone. -/
theorem words_stretches {o : ScanOptions} {line : String} {front back : List Segment} {t : Segment}
    (h : segments o line = front ++ t :: back) :
    let first := byteLength (lineOf front)
    let stop := first + byteLength t.typed.toList
    t.words.Pairwise (·.offset < ·.offset) ∧
      ∀ i w, t.words[i]? = some w → first ≤ w.offset ∧ w.offset < stop ∧
        ∃ y u, IsSlice line.toList w.offset ((t.words[i + 1]?).elim stop (·.offset)) y ∧
          segments { brackets := o.brackets } (String.ofList y) = [u] ∧
          u.words = [{ w with offset := 0 }] := by
  intro first stop
  obtain ⟨s, note, hfresh, -, hends⟩ := segments_passage h
  refine ⟨hfresh.offsets_lt hends, fun i w hget => ?_⟩
  obtain ⟨x, y, z, htext, hy, hoffset, hnext, hwords⟩ := hfresh.exists_stretch hends hget
  obtain ⟨u, hu, huwords⟩ := exists_segments_alone o.brackets y
  have hline : line.toList =
      lineOf front ++ t.typed.toList ++ (t.operator.spelling ++ lineOf back) := by
    rw [← lineOf_segments o line, h, lineOf_append, lineOf, lineOf, lineOf, List.flatMap_cons]
    simp only [List.append_assoc]
  have hlength := length_le_byteLength y
  have hlength' := List.length_pos_iff.mpr hy
  have hstop : stop = first + (byteLength x + byteLength y + byteLength z) := by
    simp only [stop, htext, byteLength_append]
  refine ⟨by omega, by omega, y, u, ⟨lineOf front ++ x, z ++ (t.operator.spelling ++ lineOf back),
    ?_, ?_, ?_⟩, hu, (huwords hy).trans hwords⟩
  · rw [hline, htext]
    simp only [List.append_assoc]
  · rw [byteLength_append, hoffset]
  · rw [hnext, List.append_assoc, byteLength_append]

/-- Three words in the second segment, with an empty doubled quotation between two of them and a
bracket that is left open. The stretch of the second goes over the quotation. -/
theorem words_stretches_after_pipe :
    let o : ScanOptions := { brackets := true, operators := [.pipe] }
    let line := "x | é\"b c\"d \"\"\" \x7by z"
    let front : List Segment :=
      [{ typed := "x ", words := [⟨"x", 0, .plain⟩], operator := .pipe }]
    let t : Segment :=
      { typed := " é\"b c\"d \"\"\" \x7by z",
        words := [⟨"éb c", 4, .plain⟩, ⟨"d", 11, .plain⟩, ⟨"\x7by z", 17, .openBracket⟩],
        operator := .endOfLine }
    segments o line = front ++ [t] ∧ t.words.Pairwise (·.offset < ·.offset) ∧
      ∃ y u, IsSlice line.toList 11 17 y ∧
        segments { brackets := true } (String.ofList y) = [u] ∧ u.words = [⟨"d", 0, .plain⟩] := by
  intro o line front t
  have hsegs : segments o line = front ++ [t] := by decide +kernel
  obtain ⟨hascending, hstretches⟩ := words_stretches hsegs
  exact ⟨hsegs, hascending, (hstretches 1 ⟨"d", 11, .plain⟩ rfl).2.2⟩

end LineShell
