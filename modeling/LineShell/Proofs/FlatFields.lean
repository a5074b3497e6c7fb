import LineShell.Proofs.FlatScan

/-!
# The fields of the flat scan go together

The flat scan is the scan: it finds the same segments, whatever place it is given to fall back to.
So no word is ever finished there, and what the scan keeps to says how the flat fields go together,
wherever in a line it stands.

* `StandsAfter`: the states of the scan after a part of a line. They come from a fresh start, so the
  scan keeps to everything there (`StandsAfter.sound`);
* `StandsAfter.segmentsFrom_flat`: from such a state on the two find the same segments;
* `FlatScan.Passes`: the states that the flat scan passes in a line;
* `FlatScan.WellFormed`: how the fields go together, and `flatScan_wellFormed`: they do in every
  state passed.
-/

namespace LineShell

/-! ## 1. The states of the scan -/

namespace Scan

variable {o : ScanOptions} {s : Scan} {brackets : Bool} {before : List Char}

/-- The scan stands after the text `before` of a line: from a fresh start in it, it has come through
the rest of it. It may hold a note. -/
inductive StandsAfter (brackets : Bool) : List Char → Scan → Prop
  | intro {done text : List Char} {s₀ : Scan} (note : Option (Nat × Nat))
      (h : s₀.Fresh (byteLength done)) :
      StandsAfter brackets (done ++ text) ((s₀.through brackets text).noting note)

theorem Fresh.even {n : Nat} (hs : s.Fresh n) (text : List Char) :
    (s.through brackets text).Even := by
  induction text using List.reverseRecOn with
  | nil =>
    obtain ⟨b, w, rfl⟩ := hs
    exact even_of_none rfl
  | append_singleton text c =>
    rw [through_append]
    exact step_even (hs.follows.through text).toCoherent

theorem Fresh.sound {n : Nat} (hs : s.Fresh n) (text : List Char) :
    (s.through brackets text).Sound where
  coherent := (hs.follows.through text).toCoherent
  begun := hs.begun text
  tracked := hs.tracked text
  even := hs.even text
  placed := through_keeps (fun _ c h => h.step brackets c) hs.placed text

/-- Noting the cursor has no part in it. -/
theorem Sound.noting (h : s.Sound) (note : Option (Nat × Nat)) : (s.noting note).Sound where
  coherent := ⟨h.coherent.exclusive, h.coherent.opened, h.coherent.plain⟩
  begun := h.begun.imp (fun h => ⟨h.wordStart, h.letters, h.mode⟩) fun h => ⟨h.wordStart, h.active⟩
  tracked := by
    intro second before hq
    obtain ⟨inner, entry, h⟩ := h.tracked second before hq
    exact ⟨inner, entry, h.quotation, h.letters, h.read, h.closers, h.escaped, h.first, h.atBlank,
      h.wordClosed⟩
  even := h.even
  placed := h.placed

namespace StandsAfter

theorem start : StandsAfter brackets [] {} :=
  @intro brackets [] [] {} none ⟨false, false, rfl⟩

theorem step (h : StandsAfter brackets before s) (c : Char) :
    StandsAfter brackets (before ++ [c]) (s.step brackets c) := by
  obtain ⟨note, hfresh⟩ := h
  rename_i done text s₀
  have hthrough : s₀.through brackets (text ++ [c]) = (s₀.through brackets text).step brackets c :=
    through_append text [c]
  rw [step_noting, List.append_assoc, ← hthrough]
  exact .intro note hfresh

theorem atCursor (h : StandsAfter brackets before s) (cursor : Option Nat) :
    StandsAfter brackets before (s.atCursor cursor) := by
  obtain ⟨note', hnote⟩ := atCursor_eq_noting cursor s
  rw [hnote]
  obtain ⟨note, hfresh⟩ := h
  exact .intro note' hfresh

/-- An operator makes a fresh start. -/
theorem after (h : StandsAfter brackets before s) (op : Operator) :
    StandsAfter brackets (before ++ op.spelling) (s.after op) := by
  have hpos : s.pos = byteLength before := by
    obtain ⟨note, hfresh⟩ := h
    rw [byteLength_append, ← hfresh.pos]
    exact through_pos _
  have hfresh : (s.after op).Fresh (byteLength (before ++ op.spelling)) := by
    rw [byteLength_append, ← hpos]
    exact Fresh.after s op
  have hstands := @intro brackets _ [] _ none hfresh
  rwa [List.append_nil] at hstands

/-- The last character read of the segment is that of the text. -/
theorem getLast?_eq (h : StandsAfter brackets before s) {c : Char} (hc : s.read.head? = some c) :
    before.getLast? = some c := by
  obtain ⟨note, hfresh⟩ := h
  rename_i done text s₀
  have hread : (s₀.through brackets text).read.head? = some c := hc
  rw [through_read, hfresh.read, List.append_nil, List.head?_reverse] at hread
  rw [List.getLast?_append, hread]
  rfl

theorem sound (h : StandsAfter brackets before s) : s.Sound := by
  obtain ⟨note, hfresh⟩ := h
  exact (hfresh.sound _).noting note

end StandsAfter

/-! ## 2. The same segments -/

variable (fallback : FlatScan → Nat)

/-- **From a state of the scan on, the flat scan finds the same segments.** -/
theorem StandsAfter.segmentsFrom_flat (h : StandsAfter o.brackets before s) (earlier : Nat)
    (cs : List Char) : (s.flat earlier).segmentsFrom fallback o cs = s.segmentsFrom o cs := by
  fun_induction segmentsFrom o s cs generalizing before earlier with
  | case1 s =>
    rw [FlatScan.segmentsFrom, finish_flat fallback earlier h.sound]
  | case2 s c rest s' op hop =>
    rename_i ih
    have h' : StandsAfter o.brackets before s' := h.atCursor o.cursor
    rw [FlatScan.segmentsFrom]
    simp only [atCursor_flat, operatorAt_flat, show s.atCursor o.cursor = s' from rfl, hop,
      close_flat fallback earlier h'.sound.begun,
      after_flat fallback earlier (isBare_of_operatorAt hop), ih (h'.after op)]
  | case3 s c rest s' hop =>
    rename_i ih
    have h' : StandsAfter o.brackets before s' := h.atCursor o.cursor
    rw [FlatScan.segmentsFrom]
    simp only [atCursor_flat, operatorAt_flat, show s.atCursor o.cursor = s' from rfl, hop,
      step_flat fallback earlier h'.sound, ih (h'.step c)]

end Scan

namespace FlatScan

variable {fallback : FlatScan → Nat} {o : ScanOptions} {line : String} {before rest : List Char}
  {f : FlatScan}

/-- The segments that the flat scan finds in a line. -/
def segments (fallback : FlatScan → Nat) (o : ScanOptions) (line : String) : List Segment :=
  ({} : FlatScan).segmentsFrom fallback o line.toList

/-- **The flat scan finds the segments of a line**, wherever it would fall back to. -/
theorem segments_eq (fallback : FlatScan → Nat) (o : ScanOptions) (line : String) :
    segments fallback o line = LineShell.segments o line :=
  Scan.StandsAfter.start.segmentsFrom_flat fallback 0 line.toList

/-! ## 3. The states that are passed -/

/-- The flat scan comes to a state when it has read `before` of the line and `rest` is left. -/
inductive Passes (fallback : FlatScan → Nat) (o : ScanOptions) (line : String) :
    (before rest : List Char) → FlatScan → Prop
  | start : Passes fallback o line [] line.toList {}
  | char {before rest : List Char} {c : Char} {f : FlatScan}
      (h : Passes fallback o line before (c :: rest) f)
      (hno : (f.atCursor o.cursor).operatorAt o.operators (c :: rest) = none) :
      Passes fallback o line (before ++ [c]) rest
        ((f.atCursor o.cursor).step fallback o.brackets c)
  | operator {before rest : List Char} {op : Operator} {f : FlatScan}
      (h : Passes fallback o line before (op.spelling ++ rest) f)
      (hop : (f.atCursor o.cursor).operatorAt o.operators (op.spelling ++ rest) = some op) :
      Passes fallback o line (before ++ op.spelling) rest ((f.atCursor o.cursor).after fallback op)

/-- The states passed are the flat fields of states of the scan. -/
theorem Passes.exists_flat (h : Passes fallback o line before rest f) :
    ∃ s earlier, f = Scan.flat s earlier ∧ Scan.StandsAfter o.brackets before s := by
  induction h with
  | start => exact ⟨{}, 0, rfl, .start⟩
  | @char before rest c f _ _ ih =>
    obtain ⟨s, earlier, rfl, hs⟩ := ih
    have hs' := hs.atCursor o.cursor
    rw [Scan.atCursor_flat, Scan.step_flat fallback earlier hs'.sound]
    exact ⟨_, _, rfl, hs'.step c⟩
  | @operator before rest op f _ hop ih =>
    obtain ⟨s, earlier, rfl, hs⟩ := ih
    have hs' := hs.atCursor o.cursor
    rw [Scan.atCursor_flat, Scan.operatorAt_flat] at hop
    rw [Scan.atCursor_flat, Scan.after_flat fallback earlier (Scan.isBare_of_operatorAt hop)]
    exact ⟨_, _, rfl, hs'.after op⟩

/-- Nothing of the line is lost on the way. -/
theorem Passes.toList_eq (h : Passes fallback o line before rest f) :
    line.toList = before ++ rest := by
  induction h with
  | start => rfl
  | char _ _ ih => rw [ih, List.append_assoc, List.singleton_append]
  | operator _ _ ih => rw [ih, List.append_assoc]

/-- An operator that is recognised is written there. -/
theorem ne_endOfLine_of_operatorAt {op : Operator}
    (h : f.operatorAt o.operators rest = some op) :
    op ≠ .endOfLine ∧ op.spelling <+: rest := by
  rw [operatorAt] at h
  split at h
  · cases h
  · exact Operator.startsAt_iff.mp (Operator.longestAt_isLongest h).startsAt

/-- From a state passed on, the flat scan finds the rest of the segments. -/
theorem Passes.exists_front (h : Passes fallback o line before rest f) :
    ∃ front, segments fallback o line = front ++ f.segmentsFrom fallback o rest := by
  induction h with
  | start => exact ⟨[], rfl⟩
  | @char before rest c f _ hno ih =>
    obtain ⟨front, hfront⟩ := ih
    refine ⟨front, ?_⟩
    rw [hfront, segmentsFrom]
    simp only [hno]
  | @operator before rest op f _ hop ih =>
    obtain ⟨front, hfront⟩ := ih
    refine ⟨front ++ [(f.atCursor o.cursor).close fallback o op], ?_⟩
    rw [hfront, List.append_assoc, List.singleton_append, List.append_cancel_left_eq]
    cases hs : op.spelling with
    | nil => exact absurd hs (Operator.spelling_ne_nil (ne_endOfLine_of_operatorAt hop).1)
    | cons c cs =>
      rw [hs, List.cons_append] at hop
      rw [List.cons_append, segmentsFrom]
      simp [hop, hs]

/-- The flat scan comes to the end of the line. -/
theorem Passes.exists_end (h : Passes fallback o line before rest f) :
    ∃ f', Passes fallback o line line.toList [] f' := by
  induction hk : rest.length using Nat.strongRecOn generalizing before rest f with
  | _ k ih =>
    cases rest with
    | nil =>
      rw [h.toList_eq, List.append_nil]
      exact ⟨f, h⟩
    | cons c rest =>
      cases hop : (f.atCursor o.cursor).operatorAt o.operators (c :: rest) with
      | none => exact ih _ (by rw [← hk, List.length_cons]; omega) (h.char hop) rfl
      | some op =>
        obtain ⟨hwritten, tail, htail⟩ := ne_endOfLine_of_operatorAt hop
        have hlen : tail.length < k := by
          have hpos := List.length_pos_iff.mpr (Operator.spelling_ne_nil hwritten)
          rw [← hk, ← htail, List.length_append]
          omega
        rw [← htail] at h hop
        exact ih _ hlen (h.operator hop) rfl

/-! ## 4. How the fields go together -/

/-- The fields go together, when the text `before` has been read. -/
structure WellFormed (before : List Char) (f : FlatScan) : Prop where
  /-- One of the two quotes is open at most, -/
  single : f.single = true → f.double = false
  /-- and none of them between brackets. -/
  closers : f.closers ≠ [] → f.single = false ∧ f.double = false
  oddSingle : f.oddSingle = true → f.double = true
  oddDouble : f.oddDouble = true → f.single = true
  /-- A doubled quotation is one of double quotes. The bytes noted are those of letters that the
  buffer still begins with. -/
  doubled : ∀ second n, f.doubled = some (second, n) →
    f.double = true ∧ n ≤ byteLength f.buffer ∧ ∃ entry, entry <+: f.buffer ∧ byteLength entry = n
  /-- Once there are more, the buffer ends with the last character of the text. -/
  added : ∀ second n, f.doubled = some (second, n) → n < byteLength f.buffer →
    f.buffer.getLast? = f.prev ∧ f.prev = before.getLast?
  /-- So what is taken back, when a quote after a quote closes the quotation, is the first of the
  two, and the letters from before the quotation are left. -/
  takenBack : ∀ second n, f.doubled = some (second, n) → f.prev = some '"' →
    n < byteLength f.buffer → ∃ kept, f.buffer = kept ++ ['"'] ∧ n ≤ byteLength kept
  /-- The place of a word is known if and only if there is something of it. -/
  wordStart : f.wordStart.isSome = true ↔ f.buffer ≠ [] ∨ f.escaped = true ∨ f.single = true ∨
    f.double = true ∨ f.closers ≠ []

end FlatScan

namespace Scan

variable {s : Scan} {brackets : Bool} {before inner entry : List Char} {second n : Nat}
  (earlier : Nat)

/-- What a doubled quotation has added ends with the last character read. -/
theorem InsideDoubled.exists_last (h : s.InsideDoubled inner entry)
    (hlonger : byteLength entry < byteLength s.letters) :
    ∃ front c, inner = front ++ [c] ∧ s.read.head? = some c := by
  obtain rfl | ⟨front, c, rfl⟩ := List.eq_nil_or_concat inner
  · rw [h.letters, byteLength_append, byteLength_reverse entry] at hlonger
    exact absurd hlonger (by simp)
  · obtain ⟨back, hread⟩ := h.read
    exact ⟨front, c, List.concat_eq_append, by simp [hread]⟩

theorem quotation_of_flat_doubled (hn : (s.flat earlier).doubled = some (second, n)) :
    s.quotation = some (.doubled second n) := by
  rcases hq : s.quotation with - | ⟨_ | _ | _⟩ <;> simp_all [flat]

/-- The bytes noted are those of the letters before the quotation. -/
theorem Tracked.exists_entry (h : s.Tracked)
    (hn : (s.flat earlier).doubled = some (second, n)) :
    ∃ inner entry, s.InsideDoubled inner entry ∧ byteLength entry = n ∧
      (s.flat earlier).buffer = entry ++ inner := by
  have hquotation := quotation_of_flat_doubled earlier hn
  obtain ⟨inner, entry, hinside⟩ := h second n hquotation
  obtain ⟨second', hq, -⟩ := hinside.quotation
  rw [hquotation, Option.some.injEq, Quotation.doubled.injEq] at hq
  refine ⟨inner, entry, hinside, hq.2.symm, ?_⟩
  show s.letters.reverse = _
  rw [hinside.letters, List.reverse_append, List.reverse_reverse, List.reverse_reverse]

/-- Letters that have been added since are kept up to the last one, which was read last. -/
theorem Tracked.exists_kept (h : s.Tracked) (hn : (s.flat earlier).doubled = some (second, n))
    (hlonger : n < byteLength (s.flat earlier).buffer) :
    ∃ kept c, (s.flat earlier).buffer = kept ++ [c] ∧ n ≤ byteLength kept ∧
      s.read.head? = some c := by
  obtain ⟨inner, entry, hinside, rfl, hbuffer⟩ := h.exists_entry earlier hn
  have hletters : byteLength entry < byteLength s.letters := by
    rw [← byteLength_reverse s.letters]
    exact hlonger
  obtain ⟨front, c, rfl, hread⟩ := hinside.exists_last hletters
  refine ⟨entry ++ front, c, by rw [hbuffer, List.append_assoc], ?_, hread⟩
  rw [byteLength_append]
  exact Nat.le_add_right _ _

theorem Begun.flat_wordStart_iff (h : s.Begun) : (s.flat earlier).wordStart.isSome = true ↔
    (s.flat earlier).buffer ≠ [] ∨ (s.flat earlier).isOpen = true := by
  have hopen : (s.flat earlier).isOpen = true ↔ s.mode ≠ .bare false := by
    rw [isOpen_flat, Bool.not_eq_true', ← Bool.not_eq_true, isBare_iff]
  have hbuffer : (s.flat earlier).buffer ≠ [] ↔ s.letters ≠ [] := List.reverse_eq_nil_iff.not
  rw [hopen, hbuffer]
  rcases h with hbetween | hunderway
  · have hnone : (s.flat earlier).wordStart = none := hbetween.wordStart
    simp [hnone, hbetween.letters, hbetween.mode]
  · exact iff_of_true hunderway.wordStart hunderway.active

/-- **The flat fields of a state of the scan go together.** -/
theorem StandsAfter.wellFormed (h : StandsAfter brackets before s) :
    (s.flat earlier).WellFormed before where
  single := by rcases hq : s.quotation with - | ⟨_ | _ | _⟩ <;> simp [flat, hq]
  closers := by
    intro hclosers
    rcases hq : s.quotation with - | q
    · simp [flat, hq]
    · exact absurd (h.sound.coherent.exclusive (by rw [hq]; rfl)) hclosers
  oddSingle := by rcases hq : s.quotation with - | ⟨_ | _ | _⟩ <;> simp [flat, hq]
  oddDouble := by rcases hq : s.quotation with - | ⟨_ | _ | _⟩ <;> simp [flat, hq]
  doubled := by
    intro second n hn
    obtain ⟨inner, entry, -, rfl, hbuffer⟩ := h.sound.tracked.exists_entry earlier hn
    have hentry : entry <+: (s.flat earlier).buffer := hbuffer ▸ List.prefix_append _ _
    refine ⟨by simp [flat, quotation_of_flat_doubled earlier hn], ?_, entry, hentry, rfl⟩
    rw [hbuffer, byteLength_append]
    exact Nat.le_add_right _ _
  added := by
    intro second n hn hlonger
    obtain ⟨kept, c, hbuffer, -, hread⟩ := h.sound.tracked.exists_kept earlier hn hlonger
    rw [hbuffer, List.getLast?_concat, h.getLast?_eq hread]
    exact ⟨hread.symm, hread⟩
  takenBack := by
    intro second n hn hquote hlonger
    obtain ⟨kept, c, hbuffer, hle, hread⟩ := h.sound.tracked.exists_kept earlier hn hlonger
    obtain rfl : '"' = c := Option.some.inj (hquote.symm.trans hread)
    exact ⟨kept, hbuffer, hle⟩
  wordStart := by
    rw [h.sound.begun.flat_wordStart_iff]
    simp [FlatScan.isOpen, or_assoc]

end Scan

/-- **The fields of the flat scan go together in every state that it passes**, on its way from the
start of a line to its end, and it finds the segments of the line whatever place it is given to fall
back to. So no word of any segment is finished there. -/
theorem flatScan_wellFormed (fallback : FlatScan → Nat) (o : ScanOptions) (line : String) :
    FlatScan.segments fallback o line = segments o line ∧
      (∃ f, FlatScan.Passes fallback o line line.toList [] f) ∧
      ∀ {before rest : List Char} {f : FlatScan},
        FlatScan.Passes fallback o line before rest f →
          line.toList = before ++ rest ∧ f.WellFormed before ∧
            ∃ front, segments o line = front ++ f.segmentsFrom fallback o rest := by
  refine ⟨FlatScan.segments_eq fallback o line, FlatScan.Passes.start.exists_end, fun h => ?_⟩
  obtain ⟨s, earlier, rfl, hs⟩ := h.exists_flat
  refine ⟨h.toList_eq, hs.wellFormed earlier, ?_⟩
  rw [← FlatScan.segments_eq fallback]
  exact h.exists_front

/-- Before the quote that closes a doubled quotation, in the second segment of a line. -/
theorem flatScan_wellFormed_before_closing :
    ∃ f, FlatScan.Passes (·.start) { operators := [.semicolon] } "x;\"\"a\"\""
        "x;\"\"a\"".toList ['"'] f ∧
      f.doubled = some (3, 0) ∧ f.prev = some '"' ∧ f.buffer = ['a', '"'] ∧
      f.WellFormed "x;\"\"a\"".toList := by
  have hstart : FlatScan.Passes (·.start) { operators := [.semicolon] } "x;\"\"a\"\"" []
      ['x', ';', '"', '"', 'a', '"', '"'] {} := .start
  have hcut := @FlatScan.Passes.operator _ _ _ _ _ .semicolon _ (hstart.char rfl) rfl
  have hopened := (hcut.char rfl).char rfl
  have hpassed := (hopened.char rfl).char rfl
  exact ⟨_, hpassed, rfl, rfl, rfl, ((flatScan_wellFormed _ _ _).2.2 hpassed).2.1⟩

end LineShell
