import LineShell.Proofs.ChainGrammar
import LineShell.Proofs.WordStart

/-!
# What segments say of themselves

A segment has a status, perhaps an error, and a mark on each of its words. They are set at two
places, at an operator and at the end of the line, from what the scan is inside of there.

* `Leaves.marks`: what the end of a segment says of its words. The ones before the last are plain,
  as the scan finishes no other ones on the way (`Fresh.plain`);
* `Judged`: how status, error and marks belong together. `segments_judged` says that they do so in
  every segment of every line;
* `malformed_of_assemble`: only a segment without words before an operator makes the building of a
  chain complain of an operator itself. A line that is in order has none, so whatever is malformed
  has been found so by the scan.
-/

namespace LineShell

/-! ## 1. Statuses -/

namespace SegmentStatus

/-- The line stops inside a quotation. -/
def IsUnclosed (status : SegmentStatus) : Prop :=
  status = .unclosedQuote ∨ status = .unclosedBothQuotes

theorem isUnclosed_iff {status : SegmentStatus} :
    status.IsUnclosed ↔ status ≠ .ok ∧ status ≠ .emptyBeforeOperator := by
  unfold IsUnclosed
  cases status <;> simp

theorem message?_eq_none_iff {label : String} {op : Operator} {status : SegmentStatus} :
    status.message? label op = none ↔ status = .ok := by
  cases status <;> simp [message?]

end SegmentStatus

/-! ## 2. Open brackets -/

namespace LexMode

variable {brackets hidden : Bool} {m : LexMode} {c closer : Char} {outer text : List Char}

/-- How a reader gets to be inside brackets. -/
theorem next_eq_bracketed (h : m.next brackets c = .bracketed closer outer hidden) :
    brackets = true ∨ ∃ closer' outer' hidden', m = .bracketed closer' outer' hidden' := by
  revert h
  fun_cases next brackets m c <;> intro h
  case case5 hopen => exact .inl hopen.1
  all_goals first
    | exact .inr ⟨_, _, _, rfl⟩
    | cases h

/-- Only where brackets group does a text end inside of them. -/
theorem brackets_of_bracketed (h : after brackets text = .bracketed closer outer hidden) :
    brackets = true := by
  induction text using List.reverseRecOn generalizing closer outer hidden with
  | nil => cases h
  | append_singleton text c ih =>
    rw [after_concat] at h
    rcases next_eq_bracketed h with hon | ⟨closer', outer', hidden', hmode⟩
    · exact hon
    · exact ih hmode

end LexMode

namespace Scan

variable {o : ScanOptions} {s : Scan} {brackets : Bool} {n i : Nat} {text : List Char}
  {t : Segment} {back : List Segment}

theorem Fresh.brackets_of_closers (hs : s.Fresh n)
    (h : (s.through brackets text).closers ≠ []) : brackets = true := by
  obtain ⟨closer, outer, hclosers⟩ := List.exists_cons_of_ne_nil h
  have hmode : LexMode.after brackets text =
      .bracketed closer outer (s.through brackets text).escaped := by
    rw [← hs.mode_through, mode, hclosers]
  exact LexMode.brackets_of_bracketed hmode

/-! ## 3. Marks of words -/

/-- The words that are finished on the way are plain. -/
theorem Fresh.plain (hs : s.Fresh n) (text : List Char) :
    ∀ w ∈ (s.through brackets text).words, w.status = .plain := by
  induction text using List.reverseRecOn with
  | nil =>
    obtain ⟨b, w, rfl⟩ := hs
    simp
  | append_singleton text c ih =>
    cases hs.moves brackets text c with
    | goes hwords => rwa [hwords]
    | @ends w _ hwords _ hplain =>
      rw [hwords]
      intro w' hw'
      rcases List.mem_append.mp hw' with hold | hnew
      · exact ih w' hold
      · rw [List.mem_singleton.mp hnew, hplain]
    | blank _ hwords => rwa [hwords]
    | drops _ hwords => rwa [hwords]

/-- **What the end of a segment says of its words.** -/
theorem Leaves.marks {words : List Word} {status : SegmentStatus} (h : s.Leaves words status)
    (hplain : ∀ w ∈ s.words, w.status = .plain) {w : Word} (hget : words[i]? = some w) :
    (w.status = .openQuote ↔ i + 1 = words.length ∧ status ≠ .ok) ∧
      (w.status = .openBracket → i + 1 = words.length ∧ status = .ok ∧ s.closers ≠ []) := by
  cases h with
  | nothing _ hwords hstatus =>
    rw [hwords] at hget
    have hw := hplain w (List.mem_of_getElem? hget)
    simp [hw, hstatus]
  | @word w' _ hwords hquote hbracket =>
    rw [hwords] at hget ⊢
    rw [List.length_append, List.length_singleton]
    rcases getElem?_concat_cases hget with ⟨hi, hget⟩ | ⟨rfl, rfl⟩
    · have hw := hplain w (List.mem_of_getElem? hget)
      simp [hw, Nat.ne_of_lt hi]
    · refine ⟨by simpa using hquote, fun hopen => ⟨rfl, ?_, hbracket hopen⟩⟩
      by_contra hstatus
      rw [hquote.mpr hstatus] at hopen
      cases hopen

/-! ## 4. The end of a segment -/

theorem HeadEnds.error_eq (h : s.HeadEnds o t back) :
    t.error = t.status.message? o.label t.operator := by
  cases h <;> rfl

/-- No operator is looked for inside brackets. -/
theorem HeadEnds.closers_eq_nil (h : s.HeadEnds o t back) (hback : back ≠ []) :
    s.closers = [] := by
  cases h with
  | line => exact absurd rfl hback
  | operator hbare => exact (mode_eq_bare (isBare_iff.mp hbare)).1

/-- The end of the line asks for no words. -/
theorem HeadEnds.status_ne (h : s.HeadEnds o t []) : t.status ≠ .emptyBeforeOperator := by
  generalize hback : ([] : List Segment) = back at h
  cases h with
  | line =>
    show s.settleDoubled.endStatus ≠ .emptyBeforeOperator
    unfold endStatus
    split <;> simp
  | operator => exact absurd hback.symm (segmentsFrom_ne_nil _ _ _)

end Scan

/-! ## 5. Segments -/

/-- How the status, the error and the words of a segment belong together; `back` are the segments
after it. -/
structure Judged (o : ScanOptions) (t : Segment) (back : List Segment) : Prop where
  /-- The error is the wording of the status. -/
  error_eq : t.error = t.status.message? o.label t.operator
  error_iff : t.error ≠ none ↔ t.status ≠ .ok
  empty_iff : t.status = .emptyBeforeOperator ↔ t.words = [] ∧ t.operator ≠ .endOfLine
  /-- Only the last segment stops inside a quotation. -/
  last : t.status.IsUnclosed → back = []
  openQuote_iff : ∀ i w, t.words[i]? = some w →
    (w.status = .openQuote ↔ back = [] ∧ i + 1 = t.words.length ∧ t.status.IsUnclosed)
  openBracket : ∀ i w, t.words[i]? = some w → w.status = .openBracket →
    o.brackets = true ∧ back = [] ∧ i + 1 = t.words.length ∧ t.status = .ok
  /-- Every word but the last one of the last segment is finished. -/
  plain : ∀ i w, t.words[i]? = some w → ¬ (back = [] ∧ i + 1 = t.words.length) → w.status = .plain

section Segments

variable {o : ScanOptions} {line : String} {front back : List Segment} {t : Segment}

/-- A word that nothing is open in is plain. -/
theorem WordStatus.eq_plain {status : WordStatus} (hquote : status ≠ .openQuote)
    (hbracket : status ≠ .openBracket) : status = .plain := by
  cases status with
  | plain => rfl
  | openQuote => exact absurd rfl hquote
  | openBracket => exact absurd rfl hbracket

/-- At the end of the line. -/
theorem judged_of_line (h : segments o line = front ++ [t]) : Judged o t [] := by
  obtain ⟨s, note, hfresh, -, hends⟩ := segments_passage h
  have hop : t.operator = .endOfLine := ((segments_partition o line).last_iff h).mpr rfl
  have hne : t.status ≠ .emptyBeforeOperator := hends.status_ne
  have hunclosed : t.status.IsUnclosed ↔ t.status ≠ .ok := by
    rw [SegmentStatus.isUnclosed_iff, and_iff_left hne]
  obtain ⟨-, -, hleaves⟩ | ⟨hback, -⟩ :=
    hends.leaves (hfresh.follows.through _).toCoherent (hfresh.begun _)
  · have hmarks (i : Nat) (w : Word) (hget : t.words[i]? = some w) :=
      hleaves.marks (hfresh.plain t.typed.toList) hget
    exact
      { error_eq := hends.error_eq
        error_iff := by rw [hends.error_eq, Ne, SegmentStatus.message?_eq_none_iff]
        empty_iff := iff_of_false hne fun hempty => hempty.2 hop
        last := fun _ => rfl
        openQuote_iff := fun i w hget => by
          rw [(hmarks i w hget).1, hunclosed, and_iff_right rfl]
        openBracket := fun i w hget hopen => by
          obtain ⟨hlast, hok, hclosers⟩ := (hmarks i w hget).2 hopen
          exact ⟨hfresh.brackets_of_closers hclosers, rfl, hlast, hok⟩
        plain := fun i w hget hno => WordStatus.eq_plain
          (fun hquote => hno ⟨rfl, ((hmarks i w hget).1.mp hquote).1⟩)
          (fun hbracket => hno ⟨rfl, ((hmarks i w hget).2 hbracket).1⟩) }
  · exact absurd rfl hback

/-- At an operator nothing is open. -/
theorem judged_of_operator (h : segments o line = front ++ t :: back) (hback : back ≠ []) :
    Judged o t back := by
  obtain ⟨s, note, hfresh, -, hends⟩ := segments_passage h
  have hop : t.operator ≠ .endOfLine := fun hop =>
    hback (((segments_partition o line).last_iff h).mp hop)
  have hclosers : (s.through o.brackets t.typed.toList).closers = [] := hends.closers_eq_nil hback
  obtain ⟨hnil, -⟩ | ⟨-, hleaves, hstatus⟩ :=
    hends.leaves (hfresh.follows.through _).toCoherent (hfresh.begun _)
  · exact absurd hnil hback
  · have hplain (i : Nat) (w : Word) (hget : t.words[i]? = some w) : w.status = .plain := by
      have hmarks := hleaves.marks (hfresh.plain t.typed.toList) hget
      exact WordStatus.eq_plain (fun hquote => (hmarks.1.mp hquote).2 rfl)
        (fun hbracket => (hmarks.2 hbracket).2.2 hclosers)
    have hclosed : ¬ t.status.IsUnclosed := by
      rw [hstatus, SegmentStatus.isUnclosed_iff]
      split <;> simp
    exact
      { error_eq := hends.error_eq
        error_iff := by rw [hends.error_eq, Ne, SegmentStatus.message?_eq_none_iff]
        empty_iff := by
          rw [hstatus, and_iff_left hop]
          split <;> simp_all
        last := fun hno => absurd hno hclosed
        openQuote_iff := fun i w hget => by
          rw [hplain i w hget]
          simp [hback]
        openBracket := fun i w hget hopen => by
          rw [hplain i w hget] at hopen
          cases hopen
        plain := fun i w hget _ => hplain i w hget }

/-- Every segment is judged like that. -/
theorem judged (h : segments o line = front ++ t :: back) : Judged o t back := by
  by_cases hback : back = []
  · subst hback
    exact judged_of_line h
  · exact judged_of_operator h hback

end Segments

/-! ## 6. Malformed lines -/

/-- The line itself is found not to be in order. -/
def ChainError.IsMalformed (e : ChainError) : Prop := ∃ status text, e = .malformed status text

section Build

variable {α : Type} {r : Resolver α} {label : String}

theorem Draft.not_malformed_of_objection {d : Draft α} {op : Operator} {e : ChainError}
    (h : d.objection op = some e) : ¬ e.IsMalformed := by
  rintro ⟨status, text, rfl⟩
  unfold objection at h
  split_ifs at h
  · cases h
  · simp at h
  · cases h

theorem Draft.not_malformed_of_meet {d : Draft α} {op : Operator} {done : List (Node α)}
    {e : ChainError} (h : d.meet op done = .error e) : ¬ e.IsMalformed := by
  unfold meet at h
  split at h
  · split at h
    · rename_i hobjection
      cases h
      exact not_malformed_of_objection hobjection
    · cases h
  · cases h

theorem not_malformed_of_conclude {done : List (Node α)} {e : ChainError}
    (h : conclude done = .error e) : ¬ e.IsMalformed := by
  rintro ⟨status, text, rfl⟩
  unfold conclude at h
  split at h
  · split_ifs at h
    cases h
  · cases h

theorem not_malformed_wrongArgument (op : Operator) (found : Nat) :
    ¬ (wrongArgument op found).IsMalformed := by
  rintro ⟨status, text, h⟩
  unfold wrongArgument at h
  split_ifs at h

/-- **Building a chain finds a line malformed only at an operator without words before it.** -/
theorem malformed_of_assemble {segs : List Segment} {done : List (Node α)} {phase : Phase α}
    {e : ChainError} (h : (assemble r label done phase segs).result = .error e)
    (he : e.IsMalformed) : ∃ s ∈ segs, s.command? = none ∧ s.operator ≠ .endOfLine := by
  fun_induction assemble r label done phase segs with
  | case1 done => exact absurd he (not_malformed_of_conclude h)
  | case2 done draft op =>
    cases h
    exact absurd he (not_malformed_wrongArgument op 0)
  | case3 done s rest hcommand hop ih =>
    obtain ⟨t, ht, hempty⟩ := ih h
    exact ⟨t, List.mem_cons_of_mem _ ht, hempty⟩
  | case4 done s rest hcommand hop => exact ⟨s, List.mem_cons_self, hcommand, hop⟩
  | case5 done s rest name hcommand ih =>
    rw [Assembly.asking] at h
    split at h
    · cases h
      obtain ⟨status, text, hnot⟩ := he
      cases hnot
    · split at h
      · rename_i hmeet
        cases h
        exact absurd he (Draft.not_malformed_of_meet hmeet)
      · obtain ⟨t, ht, hempty⟩ := ih _ _ h
        exact ⟨t, List.mem_cons_of_mem _ ht, hempty⟩
  | case6 done draft op s rest path hpath e' hmeet =>
    cases h
    exact absurd he (Draft.not_malformed_of_meet hmeet)
  | case7 done draft op s rest path hpath done' phase hmeet ih =>
    obtain ⟨t, ht, hempty⟩ := ih h
    exact ⟨t, List.mem_cons_of_mem _ ht, hempty⟩
  | case8 done draft op s rest hpath =>
    cases h
    exact absurd he (not_malformed_wrongArgument op _)

/-- A segment that is in order has words, or the line ends after it. -/
theorem Judged.operator_eq {o : ScanOptions} {t : Segment} {back : List Segment}
    (h : Judged o t back) (hok : t.isOk = true) (hcommand : t.command? = none) :
    t.operator = .endOfLine := by
  by_contra hop
  have hempty := h.empty_iff.mpr ⟨Segment.command?_eq_none_iff.mp hcommand, hop⟩
  rw [Segment.isOk, hempty] at hok
  cases hok

/-- **The segments of a line and what they say of themselves.** Status, error, operator and the
marks of the words belong together in every one. So the building of a chain never comes to an
operator that has no words before it: what it finds malformed is the first segment that says so, in
the words of that segment. -/
theorem segments_judged (o : ScanOptions) (line : String) :
    (∀ front t back, segments o line = front ++ t :: back → Judged o t back) ∧
      (∀ t ∈ segments o line, t.isOk = true → t.command? = none → t.operator = .endOfLine) ∧
      ∀ (α : Type) (r : Resolver α) (label : String) (status : SegmentStatus) (text : String),
        (build r label (segments o line)).result = .error (.malformed status text) ↔
          ∃ t, (segments o line).find? (!·.isOk) = some t ∧ t.status = status ∧
            t.error = some text := by
  have hjudged (t : Segment) (ht : t ∈ segments o line) : ∃ back, Judged o t back := by
    obtain ⟨front, back, hsplit⟩ := List.append_of_mem ht
    exact ⟨back, judged hsplit⟩
  have hnever (t : Segment) (ht : t ∈ segments o line) (hok : t.isOk = true)
      (hcommand : t.command? = none) : t.operator = .endOfLine := by
    obtain ⟨back, h⟩ := hjudged t ht
    exact h.operator_eq hok hcommand
  refine ⟨fun front t back h => judged h, hnever, fun α r label status text => ?_⟩
  unfold build
  cases hfind : (segments o line).find? (!·.isOk) with
  | some bad =>
    obtain ⟨back, h⟩ := hjudged bad (List.mem_of_find?_eq_some hfind)
    have hbad : bad.status ≠ .ok := by simpa [Segment.isOk] using List.find?_some hfind
    obtain ⟨text', htext⟩ := Option.ne_none_iff_exists'.mp (h.error_iff.mpr hbad)
    simp [Assembly.stop, htext]
  | none =>
    refine iff_of_false (fun h => ?_) (by simp)
    obtain ⟨t, ht, hcommand, hop⟩ := malformed_of_assemble h ⟨status, text, rfl⟩
    have hok : t.isOk = true := by simpa using List.find?_eq_none.mp hfind t ht
    exact hop (hnever t ht hok hcommand)

/-- An operator without words before it, and a quotation that the line leaves open. -/
example :
    (segments { brackets := true, operators := [.pipe] } "| a 'b").map
        (fun t => (t.status, t.words.map (·.status))) =
      [(.emptyBeforeOperator, []), (.unclosedQuote, [.plain, .openQuote])] := by
  decide +kernel

end Build
end LineShell
