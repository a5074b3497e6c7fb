import LineShell.Proofs.LexicalMode

/-!
# The segments partition the line

A line may be cut where an enabled operator is written and the text since the last cut leaves its
reader outside quotations and brackets with nothing hidden (`CutPoint`). `Cuts` reads a line from
left to right by that rule alone: it cuts at the first such place, takes the operator of longest
spelling there, and starts over after it.

* `longestAt_isLongest`, `longestAt_eq_none_iff`: what the scan recognises is what the rule asks
  for;
* `segmentsFrom_cuts`: the scan cuts a line as the rule says;
* `segments_partition`: so the segments and their operators are the line, and the cuts are all the
  places where a cut is possible, and no others.
-/

namespace LineShell

/-! ## 1. The longest operator -/

namespace Operator

/-- Of the enabled operators that the text starts with, the operator is one of longest spelling. -/
structure IsLongest (enabled : List Operator) (text : List Char) (op : Operator) : Prop where
  mem : op ∈ enabled
  startsAt : op.startsAt text = true
  le : ∀ op' ∈ enabled, op'.startsAt text = true → op'.spelling.length ≤ op.spelling.length

theorem foldl_longer_some : ∀ (ops : List Operator) (best : Operator),
    ∃ op, ops.foldl longer (some best) = some op ∧ best.spelling.length ≤ op.spelling.length ∧
      ∀ op' ∈ ops, op'.spelling.length ≤ op.spelling.length
  | [], best => ⟨best, rfl, Nat.le_refl _, by simp⟩
  | o :: ops, best => by
    rw [List.foldl_cons, longer]
    split
    · rename_i hlt
      obtain ⟨op, hop, hbest, hall⟩ := foldl_longer_some ops best
      exact ⟨op, hop, hbest, List.forall_mem_cons.mpr ⟨by omega, hall⟩⟩
    · obtain ⟨op, hop, hbest, hall⟩ := foldl_longer_some ops o
      exact ⟨op, hop, by omega, List.forall_mem_cons.mpr ⟨hbest, hall⟩⟩

theorem longestAt_eq_none_iff {enabled : List Operator} {text : List Char} :
    longestAt enabled text = none ↔ ∀ op ∈ enabled, ¬ op.startsAt text = true := by
  rw [← List.filter_eq_nil_iff, longestAt]
  cases enabled.filter (startsAt text) with
  | nil => simp
  | cons o ops =>
    obtain ⟨op, hop, -, -⟩ := foldl_longer_some ops o
    rw [List.foldl_cons, longer, hop]
    simp

/-- **What is recognised is an operator of longest spelling.** -/
theorem longestAt_isLongest {enabled : List Operator} {text : List Char} {op : Operator}
    (h : longestAt enabled text = some op) : IsLongest enabled text op where
  mem := (of_longestAt h).1
  startsAt := (of_longestAt h).2
  le := by
    intro op' hmem hstarts
    have hfilter : op' ∈ enabled.filter (Operator.startsAt text) :=
      List.mem_filter.mpr ⟨hmem, hstarts⟩
    rw [longestAt] at h
    cases hops : enabled.filter (Operator.startsAt text) with
    | nil => rw [hops] at hfilter; cases hfilter
    | cons o ops =>
      obtain ⟨longest, hlongest, ho, hall⟩ := foldl_longer_some ops o
      rw [hops, List.foldl_cons, longer, hlongest, Option.some.injEq] at h
      rw [hops] at hfilter
      subst h
      rcases List.mem_cons.mp hfilter with rfl | hmem
      · exact ho
      · exact hall _ hmem

end Operator

/-! ## 2. The rule -/

/-- A line can be cut before `rest`, where `before` is its text since the last cut. -/
def CutPoint (o : ScanOptions) (before rest : List Char) : Prop :=
  LexMode.after o.brackets before = .bare false ∧ ∃ op ∈ o.operators, op.startsAt rest = true

/-- The line that segments are a cutting of. -/
def lineOf (segs : List Segment) : List Char :=
  segs.flatMap fun s => s.typed.toList ++ s.operator.spelling

theorem lineOf_cons (s : Segment) (segs : List Segment) :
    lineOf (s :: segs) = lineOf [s] ++ lineOf segs := by
  simp [lineOf]

theorem lineOf_append (front back : List Segment) :
    lineOf (front ++ back) = lineOf front ++ lineOf back := List.flatMap_append

/-- A line whose last segment has got as far as `before`, and goes on with `rest`, is cut at the
first place where that is possible, at the longest operator, and so on after it. -/
inductive Cuts (o : ScanOptions) : (before rest : List Char) → List Segment → Prop
  | last {before : List Char} {s : Segment} (htyped : s.typed.toList = before)
      (hop : s.operator = .endOfLine) : Cuts o before [] [s]
  | cut {before rest : List Char} {s : Segment} {segs : List Segment}
      (hmode : LexMode.after o.brackets before = .bare false)
      (hop : s.operator.IsLongest o.operators (s.operator.spelling ++ rest))
      (htyped : s.typed.toList = before) (h : Cuts o [] rest segs) :
      Cuts o before (s.operator.spelling ++ rest) (s :: segs)
  | pass {before rest : List Char} {c : Char} {segs : List Segment}
      (hno : ¬ CutPoint o before (c :: rest)) (h : Cuts o (before ++ [c]) rest segs) :
      Cuts o before (c :: rest) segs

/-! ## 3. The scan follows the rule -/

namespace Scan

variable {o : ScanOptions} {s : Scan}

@[simp] theorem settleDoubled_read : s.settleDoubled.read = s.read := by
  unfold settleDoubled
  split
  · dsimp only
    split <;> rfl
  · rfl

@[simp] theorem flushEnd_read : s.flushEnd.read = s.read := by
  unfold flushEnd
  split
  · rfl
  · split
    · rfl
    · rw [flushText_read]

theorem finish_typed : (s.finish o).typed.toList = s.read.reverse := by
  simp [finish, emit]

theorem close_typed (op : Operator) : (s.close o op).typed.toList = s.read.reverse := by
  simp [close, emit]

@[simp] theorem atCursor_read (cursor : Option Nat) : (s.atCursor cursor).read = s.read := by
  unfold atCursor
  split <;> rfl

/-- An operator is recognised exactly at a place where the line can be cut. -/
theorem operatorAt_eq_none_iff (h : s.Follows o.brackets) {rest : List Char} :
    s.operatorAt o.operators rest = none ↔ ¬ CutPoint o s.read.reverse rest := by
  rw [operatorAt, CutPoint, ← h.mode_eq, ← isBare_iff]
  cases s.isBare with
  | false => simp
  | true => simp [Operator.longestAt_eq_none_iff]

theorem of_operatorAt (h : s.Follows o.brackets) {rest : List Char} {op : Operator}
    (hop : s.operatorAt o.operators rest = some op) :
    LexMode.after o.brackets s.read.reverse = .bare false ∧ op.IsLongest o.operators rest := by
  rw [operatorAt] at hop
  split at hop
  · rename_i hbare
    rw [← h.mode_eq, ← isBare_iff]
    exact ⟨hbare, Operator.longestAt_isLongest hop⟩
  · cases hop

/-- Where no operator is recognised the scan takes one character. -/
theorem segmentsFrom_cons {c : Char} {rest : List Char}
    (h : (s.atCursor o.cursor).operatorAt o.operators (c :: rest) = none) :
    s.segmentsFrom o (c :: rest) =
      ((s.atCursor o.cursor).step o.brackets c).segmentsFrom o rest := by
  rw [segmentsFrom]
  simp only [h]

/-- An operator that is recognised ends the segment, and the scan goes on after it. -/
theorem segmentsFrom_spelling {op : Operator} {rest : List Char} (hop : op ≠ .endOfLine)
    (h : (s.atCursor o.cursor).operatorAt o.operators (op.spelling ++ rest) = some op) :
    s.segmentsFrom o (op.spelling ++ rest) =
      (s.atCursor o.cursor).close o op ::
        ((s.atCursor o.cursor).after op).segmentsFrom o rest := by
  cases hs : op.spelling with
  | nil => exact absurd hs (Operator.spelling_ne_nil hop)
  | cons c cs =>
    rw [hs, List.cons_append] at h
    rw [List.cons_append, segmentsFrom]
    simp [h, hs]

/-- **The scan cuts as the rule says.** -/
theorem segmentsFrom_cuts (n : Nat) : ∀ {s : Scan} {cs : List Char}, cs.length ≤ n →
    s.Follows o.brackets → Cuts o s.read.reverse cs (s.segmentsFrom o cs) := by
  induction n with
  | zero =>
    intro s cs hn _
    rw [List.length_eq_zero_iff.mp (Nat.le_zero.mp hn), segmentsFrom]
    exact .last finish_typed rfl
  | succ n ih =>
    intro s cs hn h
    cases cs with
    | nil =>
      rw [segmentsFrom]
      exact .last finish_typed rfl
    | cons c rest =>
      have h' : (s.atCursor o.cursor).Follows o.brackets := h.atCursor _
      rw [List.length_cons] at hn
      cases hop : (s.atCursor o.cursor).operatorAt o.operators (c :: rest) with
      | none =>
        have hno := (operatorAt_eq_none_iff h').mp hop
        have htail := ih (Nat.le_of_succ_le_succ hn) (h'.step c)
        rw [step_read, List.reverse_cons, atCursor_read] at htail
        rw [atCursor_read] at hno
        rw [segmentsFrom_cons hop]
        exact .pass hno htail
      | some op =>
        obtain ⟨hmode, hlongest⟩ := of_operatorAt h' hop
        obtain ⟨hwritten, tail, htail⟩ := Operator.startsAt_iff.mp hlongest.startsAt
        have hlen : tail.length ≤ n := by
          have hpos := List.length_pos_iff.mpr (Operator.spelling_ne_nil hwritten)
          have hsum := congrArg List.length htail
          rw [List.length_append, List.length_cons] at hsum
          omega
        rw [← htail] at hop hlongest ⊢
        rw [atCursor_read] at hmode
        rw [segmentsFrom_spelling hwritten hop]
        refine .cut (s := (s.atCursor o.cursor).close o op) hmode hlongest ?_
          (ih hlen ((s.atCursor o.cursor).follows_after op))
        rw [close_typed, atCursor_read]

end Scan

/-! ## 4. What the rule means for the segments -/

namespace Cuts

variable {o : ScanOptions} {before rest : List Char} {segs : List Segment}

theorem ne_nil (h : Cuts o before rest segs) : segs ≠ [] := by
  induction h with
  | last => exact List.cons_ne_nil _ _
  | cut => exact List.cons_ne_nil _ _
  | pass _ _ ih => exact ih

/-- Nothing of the line is lost. -/
theorem lineOf_eq (h : Cuts o before rest segs) : lineOf segs = before ++ rest := by
  induction h with
  | last htyped hop => simp [lineOf, htyped, hop, Operator.spelling]
  | cut _ _ htyped _ ih =>
    rw [lineOf, List.flatMap_cons, ← lineOf, ih, htyped, List.append_assoc, List.nil_append]
  | pass _ _ ih => rw [ih, List.append_assoc, List.singleton_append]

/-- The first segment begins with what was read before. -/
theorem before_prefix (h : Cuts o before rest segs) {s : Segment} {back : List Segment}
    (hsegs : segs = s :: back) : before <+: s.typed.toList := by
  induction h with
  | last htyped _ =>
    cases hsegs
    exact ⟨[], by rw [List.append_nil, htyped]⟩
  | cut _ _ htyped _ _ =>
    cases hsegs
    exact ⟨[], by rw [List.append_nil, htyped]⟩
  | pass _ _ ih => exact (List.prefix_append _ _).trans (ih hsegs)

/-- A segment that others follow ends at a place for a cut, at the longest operator there; the last
segment ends with the line. -/
theorem ended (h : Cuts o before rest segs) :
    ∀ {front : List Segment} {s : Segment} {back : List Segment}, segs = front ++ s :: back →
      (back = [] ∧ s.operator = .endOfLine) ∨
        (back ≠ [] ∧ LexMode.after o.brackets s.typed.toList = .bare false ∧
          s.operator.IsLongest o.operators (s.operator.spelling ++ lineOf back)) := by
  induction h with
  | @last before s _ hop =>
    intro front t back hsegs
    obtain ⟨rfl, e⟩ := List.append_eq_singleton_iff.mp hsegs.symm |>.resolve_right (by simp)
    cases e
    exact .inl ⟨rfl, hop⟩
  | @cut before rest s segs hmode hop htyped h ih =>
    intro front t back hsegs
    cases front with
    | nil =>
      cases hsegs
      refine .inr ⟨h.ne_nil, ?_, ?_⟩
      · rw [htyped, hmode]
      · rw [h.lineOf_eq, List.nil_append]
        exact hop
    | cons f front =>
      rw [List.cons_append, List.cons.injEq] at hsegs
      exact ih hsegs.2
  | pass _ _ ih => exact ih

/-- Inside a segment there is no place for a cut. For the first segment this is known from the place
on that has been reached. -/
theorem uncut (h : Cuts o before rest segs) :
    ∀ {front : List Segment} {s : Segment} {back : List Segment} {p q : List Char},
      segs = front ++ s :: back → s.typed.toList = p ++ q → q ≠ [] →
      (front = [] → before.length ≤ p.length) →
      ¬ CutPoint o p (q ++ (s.operator.spelling ++ lineOf back)) := by
  induction h with
  | @last before s htyped _ =>
    intro front t back p q hsegs hpq hq hp
    obtain ⟨rfl, e⟩ := List.append_eq_singleton_iff.mp hsegs.symm |>.resolve_right (by simp)
    cases e
    have hlen := congrArg List.length (htyped.symm.trans hpq)
    have hq' : 0 < q.length := List.length_pos_iff.mpr hq
    have hp' := hp rfl
    rw [List.length_append] at hlen
    omega
  | @cut before rest s segs _ _ htyped h ih =>
    intro front t back p q hsegs hpq hq hp
    cases front with
    | nil =>
      cases hsegs
      have hlen := congrArg List.length (htyped.symm.trans hpq)
      have hq' : 0 < q.length := List.length_pos_iff.mpr hq
      have hp' := hp rfl
      rw [List.length_append] at hlen
      omega
    | cons f front =>
      rw [List.cons_append, List.cons.injEq] at hsegs
      exact ih hsegs.2 hpq hq fun _ => Nat.zero_le _
  | @pass before rest c segs hno h ih =>
    intro front t back p q hsegs hpq hq hp
    by_cases hreached : front = [] ∧ p.length = before.length
    · -- the place is the one that has just been passed
      obtain ⟨rfl, hlen⟩ := hreached
      obtain ⟨tail, htail⟩ := h.before_prefix hsegs
      have hp : p = before := by
        have e : p ++ q = before ++ (c :: tail) := by
          rw [← hpq, ← htail, List.append_assoc, List.singleton_append]
        exact List.append_inj_left e hlen
      have hline := h.lineOf_eq
      rw [hsegs, List.nil_append, lineOf, List.flatMap_cons, ← lineOf, hpq, hp,
        List.append_assoc, List.append_assoc, List.append_assoc, List.singleton_append,
        List.append_cancel_left_eq] at hline
      rw [hp, hline]
      exact hno
    · refine ih hsegs hpq hq fun hfront => ?_
      have hlen : p.length ≠ before.length := fun e => hreached ⟨hfront, e⟩
      have hle := hp hfront
      rw [List.length_append, List.length_singleton]
      omega

end Cuts

/-! ## 5. The partition -/

theorem not_cutPoint_nil {o : ScanOptions} {before : List Char} : ¬ CutPoint o before [] := by
  rintro ⟨-, op, -, hstarts⟩
  obtain ⟨hne, hnil⟩ := Operator.startsAt_iff.mp hstarts
  exact Operator.spelling_ne_nil hne (List.prefix_nil.mp hnil)

/-- The segments are the line, cut at all the places where that is possible and at no others, each
time at the longest operator. -/
structure Partitions (o : ScanOptions) (line : String) (segs : List Segment) : Prop where
  ne_nil : segs ≠ []
  /-- The segments, each with the operator that ended it, give the line back. -/
  lossless : String.join (segs.map fun s => s.typed ++ s.operator.literal) = line
  /-- The last segment is ended by the end of the line, and no other one is. -/
  last_iff : ∀ {front : List Segment} {s : Segment} {back : List Segment},
    segs = front ++ s :: back → (s.operator = .endOfLine ↔ back = [])
  /-- The other segments are ended by enabled operators. -/
  enabled : ∀ {front : List Segment} {s : Segment} {back : List Segment},
    segs = front ++ s :: back → back ≠ [] → s.operator ∈ o.operators
  /-- A segment stops at a place if and only if the line can be cut there. -/
  cut_iff : ∀ {front : List Segment} {s : Segment} {back : List Segment} {p q : List Char},
    segs = front ++ s :: back → s.typed.toList = p ++ q →
      (q = [] ∧ back ≠ [] ↔ CutPoint o p (q ++ (s.operator.spelling ++ lineOf back)))
  /-- Of the operators written at a cut the longest is taken. -/
  longest : ∀ {front : List Segment} {s : Segment} {back : List Segment},
    segs = front ++ s :: back → back ≠ [] →
      s.operator.IsLongest o.operators (s.operator.spelling ++ lineOf back)
  /-- Without operators the line is one segment. -/
  whole : (∀ op ∈ o.operators, op = .endOfLine) → ∃ s, segs = [s] ∧ s.typed = line

theorem toList_join_segments (segs : List Segment) :
    (String.join (segs.map fun s => s.typed ++ s.operator.literal)).toList = lineOf segs := by
  rw [String.toList_join, List.flatMap_map, lineOf]
  congr 1
  funext s
  rw [String.toList_append, Operator.literal, String.toList_ofList]

theorem Cuts.partitions {o : ScanOptions} {line : String} {segs : List Segment}
    (h : Cuts o [] line.toList segs) : Partitions o line segs where
  ne_nil := h.ne_nil
  lossless := by
    rw [← String.toList_inj, toList_join_segments, h.lineOf_eq, List.nil_append]
  last_iff := by
    intro front s back hsegs
    obtain ⟨hback, hop⟩ | ⟨hback, -, hop⟩ := h.ended hsegs
    · exact ⟨fun _ => hback, fun _ => hop⟩
    · exact ⟨fun e => absurd e (Operator.startsAt_iff.mp hop.startsAt).1, fun e => absurd e hback⟩
  enabled := by
    intro front s back hsegs hback
    obtain ⟨e, -⟩ | ⟨-, -, hop⟩ := h.ended hsegs
    · exact absurd e hback
    · exact hop.mem
  cut_iff := by
    intro front s back p q hsegs hpq
    constructor
    · rintro ⟨rfl, hback⟩
      obtain ⟨e, -⟩ | ⟨-, hmode, hop⟩ := h.ended hsegs
      · exact absurd e hback
      · rw [hpq, List.append_nil] at hmode
        exact ⟨hmode, _, hop.mem, hop.startsAt⟩
    · intro hcut
      have hq : q = [] := by
        by_cases hq : q = []
        · exact hq
        · exact absurd hcut (h.uncut hsegs hpq hq fun _ => Nat.zero_le _)
      refine ⟨hq, fun hback => ?_⟩
      obtain ⟨-, hop⟩ | ⟨e, -⟩ := h.ended hsegs
      · rw [hq, hback, hop] at hcut
        exact not_cutPoint_nil hcut
      · exact e hback
  longest := by
    intro front s back hsegs hback
    obtain ⟨e, -⟩ | ⟨-, -, hop⟩ := h.ended hsegs
    · exact absurd e hback
    · exact hop
  whole := by
    intro hnone
    have hline := h.lineOf_eq
    cases segs with
    | nil => exact absurd rfl h.ne_nil
    | cons s back =>
      obtain ⟨rfl, hop⟩ | ⟨-, -, hop⟩ := h.ended (List.nil_append _).symm
      · refine ⟨s, rfl, ?_⟩
        rw [← String.toList_inj]
        simpa [lineOf, hop, Operator.spelling] using hline
      · exact absurd (hnone _ hop.mem) (Operator.startsAt_iff.mp hop.startsAt).1

/-- **The segments of a line partition it.** -/
theorem segments_partition (o : ScanOptions) (line : String) :
    Partitions o line (segments o line) :=
  (Scan.segmentsFrom_cuts _ (Nat.le_refl _) Scan.follows_start).partitions

end LineShell
