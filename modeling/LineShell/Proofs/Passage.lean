import LineShell.Proofs.CursorFree
import LineShell.Proofs.Independence

/-!
# How the scan comes through a segment

Each segment of a line is read from a fresh start to its end, one character after another. On the way
the scan may come to the cursor, and then it holds a note when it ends.

* `through`: the state after a text;
* `Noted`: which note the scan may hold then. It was made where the text before the cursor ends;
* `segments_passage`: so every segment of a line is what the end of the scan makes of the state after
  its text.
-/

namespace LineShell
namespace Scan

variable {o : ScanOptions} {s : Scan} {brackets : Bool}

/-! ## 1. The state after a text -/

/-- The state after the characters of a text. -/
def through (brackets : Bool) (s : Scan) (cs : List Char) : Scan := cs.foldl (step brackets) s

@[simp] theorem through_nil : s.through brackets [] = s := rfl

theorem through_cons (c : Char) (cs : List Char) :
    s.through brackets (c :: cs) = (s.step brackets c).through brackets cs := rfl

theorem through_append (xs ys : List Char) :
    s.through brackets (xs ++ ys) = (s.through brackets xs).through brackets ys :=
  List.foldl_append

/-- A property that every character keeps is kept by a text. -/
theorem through_keeps {P : Scan → Prop} (hstep : ∀ s c, P s → P (s.step brackets c)) (h : P s)
    (cs : List Char) : P (s.through brackets cs) := by
  induction cs generalizing s with
  | nil => exact h
  | cons c cs ih => exact ih (hstep s c h)

theorem through_noting (note : Option (Nat × Nat)) (cs : List Char) :
    (s.noting note).through brackets cs = (s.through brackets cs).noting note := by
  induction cs generalizing s with
  | nil => rfl
  | cons c cs ih => rw [through_cons, step_noting, ih, through_cons]

@[simp] theorem through_read (cs : List Char) :
    (s.through brackets cs).read = cs.reverse ++ s.read := by
  induction cs generalizing s with
  | nil => rfl
  | cons c cs ih =>
    rw [through_cons, ih, step_read, List.reverse_cons, List.append_assoc, List.singleton_append]

theorem through_pos (cs : List Char) :
    (s.through brackets cs).pos = s.pos + byteLength cs := by
  induction cs generalizing s with
  | nil => rfl
  | cons c cs ih => rw [through_cons, ih, step_pos, byteLength_cons, Nat.add_assoc]

theorem through_start (cs : List Char) : (s.through brackets cs).start = s.start :=
  through_keeps (P := fun t => t.start = s.start) (fun _ _ h => step_start.trans h) rfl cs

/-! ## 2. The note -/

/-- What the scan from `s` may have noted after a text: nothing new, or what there was to note where
the part of the text before the cursor ended. -/
def Noted (o : ScanOptions) (s : Scan) (cs : List Char) (note : Option (Nat × Nat)) : Prop :=
  note = s.selection ∨ ∃ p q, cs = p ++ q ∧ o.cursor = some (s.pos + byteLength p) ∧
    note = (s.through o.brackets p).markCursor.selection

theorem noted_atCursor (o : ScanOptions) (s : Scan) :
    ∃ note, s.atCursor o.cursor = s.noting note ∧ ∀ cs, Noted o s cs note := by
  unfold Scan.atCursor
  split
  · rename_i hcursor
    exact ⟨_, rfl, fun cs => .inr ⟨[], cs, rfl, hcursor, rfl⟩⟩
  · exact ⟨s.selection, rfl, fun _ => .inl rfl⟩

/-- A note that is made further on was made after a longer part of the text. -/
theorem Noted.cons {note note' : Option (Nat × Nat)} {c : Char} {cs : List Char}
    (h : Noted o ((s.step o.brackets c).noting note) cs note') (hnote : Noted o s (c :: cs) note) :
    Noted o s (c :: cs) note' := by
  obtain rfl | ⟨p, q, rfl, hcursor, rfl⟩ := h
  · exact hnote
  · refine .inr ⟨c :: p, q, rfl, ?_, ?_⟩
    · have hpos : (s.step o.brackets c).pos = s.pos + c.utf8Size := step_pos
      rw [hcursor, show ((s.step o.brackets c).noting note).pos = _ from hpos, byteLength_cons,
        Nat.add_assoc]
    · rw [through_noting]
      rfl

/-! ## 3. The passage -/

theorem HeadEnds.typed {t : Segment} {back : List Segment} (h : s.HeadEnds o t back) :
    t.typed.toList = s.read.reverse := by
  cases h with
  | line => exact finish_typed
  | operator => exact close_typed _

/-- **The first segment is what the end of the scan makes of the state after its text.** -/
theorem segmentsFrom_passage {cs : List Char} {t : Segment} {back : List Segment}
    (h : s.segmentsFrom o cs = t :: back) :
    ∃ p note, Noted o s p note ∧ HeadEnds o ((s.through o.brackets p).noting note) t back := by
  fun_induction segmentsFrom o s cs with
  | case1 s =>
    cases h
    exact ⟨[], s.selection, .inl rfl, .line⟩
  | case2 s c rest s' op hop ih =>
    cases h
    obtain ⟨note, hnote, hnoted⟩ := noted_atCursor o s
    have hends : HeadEnds o s' (s'.close o op)
        ((s'.after op).segmentsFrom o (rest.drop (op.spelling.length - 1))) :=
      .operator (isBare_of_operatorAt hop)
    exact ⟨[], note, hnoted _, hnote ▸ hends⟩
  | case3 s c rest s' hop ih =>
    obtain ⟨note, hnote, hnoted⟩ := noted_atCursor o s
    obtain ⟨p, note', hnoted', hends⟩ := ih h
    rw [show s' = s.noting note from hnote, step_noting] at hnoted' hends
    rw [through_noting] at hends
    exact ⟨c :: p, note', hnoted'.cons (hnoted _), hends⟩

theorem Fresh.placed {n : Nat} (h : s.Fresh n) : s.Placed := by
  obtain ⟨b, w, rfl⟩ := h
  exact rfl

/-- From the start of a segment every segment comes about like that. The scan knows that it stands
after an operator, unless it is the first segment. -/
theorem Fresh.passage {n : Nat} (h : s.Fresh n) {cs : List Char} {front back : List Segment}
    {t : Segment} (hsegs : s.segmentsFrom o cs = front ++ t :: back) :
    ∃ s₀ note, s₀.Fresh (n + byteLength (lineOf front)) ∧
      (front = [] ∧ s₀ = s ∨ front ≠ [] ∧ s₀.atBlank = true) ∧ Noted o s₀ t.typed.toList note ∧
      HeadEnds o ((s₀.through o.brackets t.typed.toList).noting note) t back := by
  induction front generalizing s n cs with
  | nil =>
    obtain ⟨p, note, hnoted, hends⟩ := segmentsFrom_passage hsegs
    have hread : ((s.through o.brackets p).noting note).read = p.reverse ++ s.read :=
      through_read p
    have htyped : t.typed.toList = p := by
      rw [hends.typed, hread, h.read, List.append_nil, List.reverse_reverse]
    rw [htyped]
    exact ⟨s, note, h, .inl ⟨rfl, rfl⟩, hnoted, hends⟩
  | cons f front ih =>
    rw [List.cons_append] at hsegs
    obtain ⟨p, note, -, hends⟩ := segmentsFrom_passage hsegs
    generalize hrest : front ++ t :: back = segs at hends
    generalize hs : (s.through o.brackets p).noting note = s' at hends
    have hstart : s'.start = n := by
      obtain ⟨b, w, rfl⟩ := h
      rw [← hs]
      exact through_start p
    have hplaced : s'.Placed := by
      rw [← hs]
      exact through_keeps (P := Placed) (fun _ c h => h.step _ c) h.placed p
    cases hends with
    | line => simp at hrest
    | @operator op rest hbare =>
      obtain ⟨s₀, note', hfresh, hmark, hpassage⟩ := ih (Fresh.after s' op) hrest.symm
      have hplace : n + byteLength (lineOf (s'.close o op :: front)) =
          s'.pos + byteLength op.spelling + byteLength (lineOf front) := by
        rw [lineOf_cons, byteLength_append, ← Nat.add_assoc, ← hstart, byteLength_close hplaced]
      have hblank : s₀.atBlank = true := by
        obtain ⟨-, rfl⟩ | ⟨-, hblank⟩ := hmark
        · rfl
        · exact hblank
      rw [hplace]
      exact ⟨s₀, note', hfresh, .inr ⟨List.cons_ne_nil _ _, hblank⟩, hpassage⟩

end Scan

section Segments

variable {o : ScanOptions} {line : String} {front back : List Segment} {t : Segment}

/-- Every segment of a line comes about like that. -/
theorem segments_passage_marked (h : segments o line = front ++ t :: back) :
    ∃ s₀ note, s₀.Fresh (byteLength (lineOf front)) ∧
      (front = [] ∧ s₀ = {} ∨ front ≠ [] ∧ s₀.atBlank = true) ∧
      Scan.Noted o s₀ t.typed.toList note ∧
      Scan.HeadEnds o ((s₀.through o.brackets t.typed.toList).noting note) t back := by
  have hstart : ({} : Scan).Fresh 0 := ⟨false, false, rfl⟩
  have hpassage := hstart.passage h
  rwa [Nat.zero_add] at hpassage

/-- **Every segment of a line is read from a fresh start**, at the byte where it begins, and is what
the end of the scan makes of the state after its text, with a note that was made on the way. -/
theorem segments_passage (h : segments o line = front ++ t :: back) :
    ∃ s₀ note, s₀.Fresh (byteLength (lineOf front)) ∧ Scan.Noted o s₀ t.typed.toList note ∧
      Scan.HeadEnds o ((s₀.through o.brackets t.typed.toList).noting note) t back := by
  obtain ⟨s₀, note, hfresh, -, hpassage⟩ := segments_passage_marked h
  exact ⟨s₀, note, hfresh, hpassage⟩

end Segments
end LineShell
