import LineShell.Proofs.Shift
import LineShell.Proofs.WrittenWord

/-!
# A complete line goes on after an operator

A line is `Complete` if all its segments are in order, the last one has a word and no open bracket,
and no backslash stands at its end. What follows an operator written after such a line starts over,
with one exception: two double quotes at the end of a line are an empty word, while with more than
blanks after them they open a doubled quotation (`EndsDoubled`), which takes in the operator.

* `segmentsFrom_append_blank`: up to a blank a text is scanned as if it ended there;
* `Complete.mode`: at the end of a complete line the scan is bare or in a doubled quotation;
* `segmentsFrom_operator`: from a bare state an operator between blanks ends the segment, and the
  text after it has its own segments, further down the line;
* `segmentsFrom_doubled`: from a doubled quotation it does not;
* `segments_append_operator_iff`: so a complete line is continued at the operator if and only if it
  does not end in a doubled quotation.
-/

namespace LineShell

/-! ## 1. What stands before a blank -/

/-- A text without blanks begins a text that goes on with a blank only if it lies before that. -/
theorem prefix_append_blank_iff {xs cs rest : List Char} (h : ' ' ∉ xs) :
    xs <+: cs ++ ' ' :: rest ↔ xs <+: cs := by
  refine ⟨fun hxs => ?_, fun hxs => hxs.trans (List.prefix_append _ _)⟩
  rcases Nat.lt_or_ge cs.length xs.length with hlen | hlen
  · have hcs : cs ++ [' '] <+: cs ++ ' ' :: rest := ⟨rest, by simp⟩
    have hle : (cs ++ [' ']).length ≤ xs.length := by
      rw [List.length_append, List.length_singleton]
      exact hlen
    have hmem := (List.prefix_of_prefix_length_le hcs hxs hle).subset
    exact absurd (hmem (by simp)) h
  · exact List.prefix_of_prefix_length_le hxs (List.prefix_append _ _) hlen

namespace Operator

theorem startsAt_append_blank (op : Operator) (cs rest : List Char) :
    op.startsAt (cs ++ ' ' :: rest) = op.startsAt cs := by
  rw [Bool.eq_iff_iff, startsAt_iff, startsAt_iff, prefix_append_blank_iff op.blank_not_mem_spelling]

/-- A blank and what follows it have no part in what is recognised before it. -/
theorem longestAt_append_blank (enabled : List Operator) (cs rest : List Char) :
    longestAt enabled (cs ++ ' ' :: rest) = longestAt enabled cs := by
  have hstarts : startsAt (cs ++ ' ' :: rest) = startsAt cs :=
    funext fun op => startsAt_append_blank op cs rest
  rw [longestAt, longestAt, hstarts]

theorem longestAt_nil (enabled : List Operator) : longestAt enabled [] = none := by
  rw [longestAt_eq_none_iff]
  intro op _ hstarts
  obtain ⟨hwritten, hnil⟩ := startsAt_iff.mp hstarts
  exact spelling_ne_nil hwritten (List.prefix_nil.mp hnil)

end Operator

/-! ## 2. The scan up to a blank -/

namespace Scan

variable {o : ScanOptions} {s : Scan}

/-- No operator begins with a blank. -/
theorem segmentsFrom_blank (ho : o.cursor = none) (rest : List Char) :
    s.segmentsFrom o (' ' :: rest) = (s.step o.brackets ' ').segmentsFrom o rest := by
  have hnone : (s.atCursor o.cursor).operatorAt o.operators (' ' :: rest) = none := by
    have hlongest := Operator.longestAt_append_blank o.operators [] rest
    rw [List.nil_append, Operator.longestAt_nil] at hlongest
    rw [operatorAt, hlongest, ite_self]
  rw [segmentsFrom_cons hnone, atCursor_of_no_cursor ho]

/-- Two scans of the same text: one stops where a blank follows in the other. The other one stands
there in the state in which the first one stopped. -/
def SameUpTo (o : ScanOptions) (s : Scan) (cs : List Char) (front : List Segment) (s' : Scan) :
    Prop :=
  s.segmentsFrom o cs = front ++ [s'.finish o] ∧
    ∀ rest, s.segmentsFrom o (cs ++ ' ' :: rest) = front ++ s'.segmentsFrom o (' ' :: rest)

theorem operatorAt_append_blank (cs rest : List Char) :
    s.operatorAt o.operators (cs ++ ' ' :: rest) = s.operatorAt o.operators cs := by
  rw [operatorAt, operatorAt, Operator.longestAt_append_blank]

/-- **Up to a blank a text is scanned as if it ended there.** -/
theorem segmentsFrom_append_blank (ho : o.cursor = none) (cs : List Char)
    (h : s.Follows o.brackets) :
    ∃ front s', SameUpTo o s cs front s' ∧ s'.Follows o.brackets ∧
      s'.pos = s.pos + byteLength cs := by
  fun_induction segmentsFrom o s cs with
  | case1 s => exact ⟨[], s, ⟨by rw [segmentsFrom]; rfl, fun _ => rfl⟩, h, rfl⟩
  | case2 s c rest s' op hop ih =>
    have hs' : s.atCursor o.cursor = s := atCursor_of_no_cursor ho s
    rw [show s' = s from hs'] at hop ih
    obtain ⟨-, hlongest⟩ := of_operatorAt h hop
    obtain ⟨hwritten, tail, htail⟩ := Operator.startsAt_iff.mp hlongest.startsAt
    have hdrop : rest.drop (op.spelling.length - 1) = tail := by
      cases hop : op.spelling with
      | nil => exact absurd hop (Operator.spelling_ne_nil hwritten)
      | cons d ds =>
        rw [hop, List.cons_append, List.cons.injEq] at htail
        rw [← htail.2, List.length_cons, Nat.add_sub_cancel, List.drop_left]
    rw [hdrop] at ih
    obtain ⟨front, t, ⟨hend, hgoesOn⟩, ht, hpos⟩ := ih (s.follows_after op)
    rw [← htail] at hop ⊢
    refine ⟨s.close o op :: front, t, ⟨?_, fun more => ?_⟩, ht, ?_⟩
    · rw [segmentsFrom_spelling hwritten (by rw [hs', hop]), hs', hend, List.cons_append]
    · have hop' : s.operatorAt o.operators (op.spelling ++ (tail ++ ' ' :: more)) = some op := by
        rw [← List.append_assoc, operatorAt_append_blank, hop]
      rw [List.append_assoc, segmentsFrom_spelling hwritten (by rw [hs', hop']), hs', hgoesOn,
        List.cons_append]
    · rw [hpos, byteLength_append]
      exact Nat.add_assoc _ _ _
  | case3 s c rest s' hop ih =>
    have hs' : s.atCursor o.cursor = s := atCursor_of_no_cursor ho s
    rw [show s' = s from hs'] at hop ih
    obtain ⟨front, t, ⟨hend, hgoesOn⟩, ht, hpos⟩ := ih (h.step c)
    refine ⟨front, t, ⟨?_, fun more => ?_⟩, ht, ?_⟩
    · rw [segmentsFrom_cons (by rw [hs', hop]), hs', hend]
    · have hop' : s.operatorAt o.operators (c :: (rest ++ ' ' :: more)) = none := by
        rw [← List.cons_append, operatorAt_append_blank, hop]
      rw [List.cons_append, segmentsFrom_cons (by rw [hs', hop']), hs', hgoesOn]
    · rw [hpos, step_pos, byteLength_cons, Nat.add_assoc]

end Scan

/-! ## 3. Complete lines -/

/-- Nothing is wrong with the line and nothing is left open at its end, as far as its segments
show. -/
structure Complete (o : ScanOptions) (line : String) : Prop where
  ok : ∀ s ∈ segments o line, s.status = .ok
  /-- The last segment has a word. -/
  words : ∀ s ∈ (segments o line).getLast?, s.words ≠ []
  /-- The last segment has no open bracket. -/
  closed : ∀ s ∈ (segments o line).getLast?, ∀ w ∈ s.words, w.status ≠ .openBracket
  /-- No backslash stands at the end. -/
  last : line.toList.getLast? ≠ some '\\'

/-- The line leaves its reader in a doubled quotation. -/
def EndsDoubled (o : ScanOptions) (line : String) : Prop :=
  ∃ s ∈ (segments o line).getLast?, ∃ afterQuote,
    LexMode.after o.brackets s.typed.toList = .doubled afterQuote

namespace LexMode

variable {brackets : Bool}

/-- Outside everything only a backslash hides what follows it. -/
theorem eq_backslash_of_next {m : LexMode} {c : Char} (h : m.next brackets c = .bare true) :
    c = '\\' := by
  by_cases hback : c = '\\'
  · exact hback
  · rcases m with (_ | _) | (_ | _) | ⟨_, _ | _⟩ | _ | ⟨_, _ | _, _ | _⟩ <;>
      simp only [next, if_neg hback] at h <;> grind [inside]

theorem getLast?_of_after {cs : List Char} (h : after brackets cs = .bare true) :
    cs.getLast? = some '\\' := by
  rcases List.eq_nil_or_concat cs with rfl | ⟨ds, c, rfl⟩
  · cases h
  · rw [List.concat_eq_append, after_concat] at h
    rw [List.concat_eq_append, List.getLast?_concat, eq_backslash_of_next h]

end LexMode

namespace Scan

variable {o : ScanOptions} {s : Scan}

/-- A segment in order without an open bracket ends outside everything or in a doubled
quotation. -/
theorem mode_of_finish (h : s.Coherent) (hok : (s.finish o).status = .ok)
    (hclosed : ∀ w ∈ (s.finish o).words, w.status ≠ .openBracket) :
    (∃ hidden, s.mode = .bare hidden) ∨ ∃ afterQuote, s.mode = .doubled afterQuote := by
  cases hc : s.closers with
  | cons closer outer =>
    have hq : s.quotation = none := by
      cases hq : s.quotation with
      | none => rfl
      | some q => rw [h.exclusive (by rw [hq]; rfl)] at hc; cases hc
    have hmem : (⟨String.ofList s.letters.reverse, s.wordStart.getD s.start, .openBracket⟩ : Word) ∈
        (s.finish o).words := by
      simp [finish, settleDoubled, flushEnd, flush, emit, hq, hc]
    exact absurd rfl (hclosed _ hmem)
  | nil =>
    cases hq : s.quotation with
    | none => exact .inl ⟨s.escaped, by rw [mode, hc, hq]⟩
    | some q =>
      cases q with
      | single odd => cases odd <;> simp [finish, settleDoubled, emit, endStatus, hq] at hok
      | double openedAt odd =>
        cases odd <;> simp [finish, settleDoubled, emit, endStatus, hq] at hok
      | doubled second before => exact .inr ⟨_, by rw [mode, hc, hq]⟩

/-- At the end of a bare scan the segment has the words so far and is in order. -/
theorem finish_of_bare (ho : o.cursor = none) (h : s.mode = .bare false) :
    s.finish o =
      { typed := String.ofList s.read.reverse, words := s.flushText.words,
        operator := .endOfLine } := by
  rw [finish_eq_of_bare h, emit_of_no_cursor ho, flushText_read]
  rfl

@[simp] theorem flushText_letters (s : Scan) : s.flushText.letters = [] := by
  unfold flushText
  split
  · rename_i h
    exact List.isEmpty_iff.mp h
  · rfl

theorem flushText_of_nil (h : s.letters = []) : s.flushText = s := by
  rw [flushText, h]
  rfl

/-- A blank outside everything finishes the words that the end of the segment would finish. -/
theorem step_blank_words (h : s.mode = .bare false) :
    (s.step o.brackets ' ').flushText.words = s.flushText.words := by
  have hletters : (s.step o.brackets ' ').letters = [] := by
    rw [step_blank h (.inl rfl)]
    exact flushText_letters _
  rw [flushText_of_nil hletters, step_blank h (.inl rfl)]
  show ({ s with wordClosed := false } : Scan).flushText.words = s.flushText.words
  unfold flushText
  split <;> rfl

/-- An operator after a blank ends the segment that the end of the line would have ended before the
blank. -/
theorem close_step_blank (ho : o.cursor = none) (h : s.mode = .bare false)
    (hne : (s.finish o).words ≠ []) (op : Operator) :
    (s.step o.brackets ' ').close o op =
      { s.finish o with typed := (s.finish o).typed ++ " ", operator := op } := by
  rw [finish_of_bare ho h] at hne ⊢
  have hwords : s.flushText.words.isEmpty = false := by
    rw [Bool.eq_false_iff, Ne, List.isEmpty_iff]
    exact hne
  have htyped : String.ofList (' ' :: s.read).reverse = String.ofList s.read.reverse ++ " " := by
    rw [List.reverse_cons, String.ofList_append]
  simp only [close, emit_of_no_cursor ho, step_blank_words h, flushText_read, step_read, hwords,
    htyped, Bool.false_eq_true, if_false, SegmentStatus.message?]

/-- **From a bare state an operator between blanks ends the segment**, and the text after it has its
own segments, further down the line. -/
theorem segmentsFrom_operator (ho : o.cursor = none) (h : s.mode = .bare false)
    (hne : (s.finish o).words ≠ []) {op : Operator} (hop : op ∈ o.operators)
    (hwritten : op ≠ .endOfLine) (rest : List Char) :
    s.segmentsFrom o (' ' :: (op.spelling ++ ' ' :: rest)) =
      { s.finish o with typed := (s.finish o).typed ++ " ", operator := op } ::
        (({} : Scan).segmentsFrom o (' ' :: rest)).map
          (.shift (s.pos + 1 + byteLength op.spelling)) := by
  have hpos : (s.step o.brackets ' ').pos = s.pos + 1 := step_pos
  have hbare : (s.step o.brackets ' ').isBare = true := by
    rw [step_blank h (.inl rfl)]
    simpa [isBare, advance] using isBare_iff.mpr h
  have hat : (s.step o.brackets ' ').operatorAt o.operators (op.spelling ++ ' ' :: rest) =
      some op := by
    rw [operatorAt, if_pos hbare]
    exact Operator.longestAt_spelling hop hwritten (by simp)
  have hnocursor (t : Scan) : t.atCursor o.cursor = t := atCursor_of_no_cursor ho t
  rw [segmentsFrom_blank ho, segmentsFrom_spelling hwritten (by rw [hnocursor, hat]), hnocursor,
    close_step_blank ho h hne, (Fresh.after _ op).segmentsFrom ho, hpos]

/-- **From a doubled quotation nothing is cut before the next double quote.** -/
theorem segmentsFrom_doubled (ho : o.cursor = none) {cs : List Char} (hcs : '"' ∉ cs)
    (h : s.Follows o.brackets) {afterQuote : Bool} (hmode : s.mode = .doubled afterQuote)
    (rest : List Char) :
    ∃ s' : Scan, s'.Follows o.brackets ∧ s'.read.reverse = s.read.reverse ++ cs ∧
      s.segmentsFrom o (cs ++ rest) = s'.segmentsFrom o rest := by
  induction cs generalizing s afterQuote with
  | nil => exact ⟨s, h, (List.append_nil _).symm, rfl⟩
  | cons c cs ih =>
    obtain ⟨hc, hcs⟩ : c ≠ '"' ∧ '"' ∉ cs := by simpa [eq_comm] using hcs
    have hnone : (s.atCursor o.cursor).operatorAt o.operators (c :: (cs ++ rest)) = none := by
      have hbare : s.isBare = false := by
        rw [← Bool.not_eq_true, isBare_iff, hmode]
        simp
      rw [atCursor_of_no_cursor ho, operatorAt, hbare]
      rfl
    have hnext : (s.step o.brackets c).mode = .doubled false := by
      rw [(mode_step h.toCoherent).1, hmode, LexMode.next, if_neg hc]
    obtain ⟨s', hs', hread, hsegs⟩ := ih hcs (h.step c) hnext
    refine ⟨s', hs', ?_, ?_⟩
    · rw [hread, step_read, List.reverse_cons, List.append_assoc, List.singleton_append]
    · rw [List.cons_append, segmentsFrom_cons hnone, atCursor_of_no_cursor ho, hsegs]

end Scan

/-! ## 4. Going on -/

/-- The segments, the last of which is ended by the operator after one more blank. -/
def endWith (op : Operator) (segs : List Segment) : List Segment :=
  segs.dropLast ++
    (segs.getLast?.map fun s => { s with typed := s.typed ++ " ", operator := op }).toList

section Continuation

variable {o : ScanOptions} {a : String} {op : Operator}

/-- The last segment of a line is what the scan has read when it stops. -/
theorem Scan.SameUpTo.line_eq {cs : List Char} {front : List Segment} {s : Scan}
    (h : SameUpTo o {} cs front s) : cs = lineOf front ++ s.read.reverse := by
  have hcuts := @Scan.segmentsFrom_cuts o cs.length {} cs (Nat.le_refl _) Scan.follows_start
  have hline := hcuts.lineOf_eq
  rw [h.1, lineOf, List.flatMap_append, List.flatMap_singleton, Scan.finish_typed] at hline
  rw [← List.nil_append cs]
  refine hline.symm.trans ?_
  rw [show (s.finish o).operator.spelling = [] from rfl, List.append_nil]
  rfl

/-- Where the scan of a complete line stops, and in which mode. -/
theorem Complete.exists_end (ho : o.cursor = none) (h : Complete o a) :
    ∃ front s, Scan.SameUpTo o {} a.toList front s ∧ s.Follows o.brackets ∧
      s.pos = byteLength a.toList ∧ (s.finish o).words ≠ [] ∧
      (s.mode = .bare false ∨ ∃ afterQuote, s.mode = .doubled afterQuote) := by
  obtain ⟨front, s, hsame, hs, hpos⟩ :=
    Scan.segmentsFrom_append_blank ho a.toList Scan.follows_start
  have hlast : (segments o a).getLast? = some (s.finish o) := by
    rw [segments, hsame.1, List.getLast?_concat]
  have hmem : s.finish o ∈ segments o a := List.mem_of_getLast? hlast
  refine ⟨front, s, hsame, hs, by rw [hpos]; exact Nat.zero_add _, h.words _ hlast, ?_⟩
  rcases Scan.mode_of_finish hs.toCoherent (h.ok _ hmem) (h.closed _ hlast) with
    ⟨hidden, hmode⟩ | hmode
  · cases hidden with
    | false => exact .inl hmode
    | true =>
      -- the last character of the line would be a backslash
      have hread := LexMode.getLast?_of_after (hs.mode_eq.symm.trans hmode)
      refine absurd ?_ h.last
      rw [hsame.line_eq, List.getLast?_append, hread]
      rfl
  · exact .inr hmode

theorem endWith_concat (op : Operator) (front : List Segment) (s : Segment) :
    endWith op (front ++ [s]) =
      front ++ [{ s with typed := s.typed ++ " ", operator := op }] := by
  simp [endWith]

theorem endsDoubled_iff {front : List Segment} {s : Scan}
    (h : Scan.SameUpTo o {} a.toList front s) (hs : s.Follows o.brackets) :
    EndsDoubled o a ↔ ∃ afterQuote, s.mode = .doubled afterQuote := by
  rw [EndsDoubled, segments, h.1, List.getLast?_concat, hs.mode_eq]
  simp [Scan.finish_typed]

/-- **A complete line that an operator follows is cut at that operator**, unless it ends in a
doubled quotation. Cut there, it has its own segments, of which the last one is longer by a blank
and ended by the operator, and the rest of the text has its own segments after them, with the
offsets of their words moved. In a doubled quotation the line is not cut there: the operator is part
of the quotation. -/
theorem segments_append_operator_iff (ho : o.cursor = none) (h : Complete o a)
    (hop : op ∈ o.operators) (hwritten : op ≠ .endOfLine) (b : String) :
    segments o (a ++ " " ++ op.literal ++ " " ++ b) =
        endWith op (segments o a) ++ (segments o (" " ++ b)).map
          (.shift (byteLength (a ++ " " ++ op.literal).toList)) ↔
      ¬ EndsDoubled o a := by
  obtain ⟨front, s, hsame, hs, hpos, hne, hmode⟩ := h.exists_end ho
  have hline : segments o (a ++ " " ++ op.literal ++ " " ++ b) =
      front ++ s.segmentsFrom o (' ' :: (op.spelling ++ ' ' :: b.toList)) := by
    rw [← hsame.2]
    simp [segments, Operator.literal]
  have hlength : byteLength (a ++ " " ++ op.literal).toList =
      s.pos + 1 + byteLength op.spelling := by
    have hblank : byteLength " ".toList = 1 := rfl
    simp only [Operator.literal, String.toList_append, byteLength_append, String.toList_ofList, hpos,
      hblank]
  have hafter : segments o (" " ++ b) = ({} : Scan).segmentsFrom o (' ' :: b.toList) := by
    simp [segments]
  have hbefore : segments o a = front ++ [s.finish o] := hsame.1
  rw [endsDoubled_iff hsame hs, hline, hlength, hafter, hbefore, endWith_concat]
  rcases hmode with hmode | ⟨afterQuote, hmode⟩
  · rw [Scan.segmentsFrom_operator ho hmode hne hop hwritten, hmode]
    simp
  · -- the first segment would be longer than the blank allows
    have hquote : '"' ∉ ' ' :: op.spelling := by cases op <;> decide
    obtain ⟨s', hs', hread, hsegs⟩ :=
      Scan.segmentsFrom_doubled ho hquote hs hmode (' ' :: b.toList)
    have hcuts := Scan.segmentsFrom_cuts _ (Nat.le_refl (' ' :: b.toList).length) hs'
    refine iff_of_false (fun heq => ?_) (fun hno => hno ⟨_, hmode⟩)
    rw [List.append_assoc, List.append_cancel_left_eq, ← List.cons_append, hsegs] at heq
    obtain ⟨more, hmore⟩ := hcuts.before_prefix heq
    have hlen := congrArg List.length hmore
    have hnil : op.spelling = [] ∧ more = [] := by simpa [hread, Scan.finish_typed] using hlen
    exact Operator.spelling_ne_nil hwritten hnil.1

/-- Three double quotes at the end leave nothing open and no word, and of the two operators that
begin alike the shorter one is meant. -/
theorem segments_append_operator_after_three_quotes :
    let o : ScanOptions := { brackets := true, operators := [.appendTo, .writeTo] }
    let a := "echo {;} 'b' \"\"\""
    o.cursor = none ∧ Complete o a ∧ .writeTo ∈ o.operators ∧ Operator.writeTo ≠ .endOfLine ∧
      segments o (a ++ " " ++ Operator.writeTo.literal ++ " " ++ "f") =
        endWith .writeTo (segments o a) ++ (segments o (" " ++ "f")).map
          (.shift (byteLength (a ++ " " ++ Operator.writeTo.literal).toList)) := by
  intro o a
  have ha : segments o a =
      [{ typed := a, words := [⟨"echo", 0, .plain⟩, ⟨"{;}", 5, .plain⟩, ⟨"b", 9, .plain⟩],
         operator := .endOfLine }] := by
    decide +kernel
  have hcomplete : Complete o a :=
    ⟨by simp [ha], by simp [ha], by simp [ha], by decide +kernel⟩
  have hclosed : ¬ EndsDoubled o a := by
    have hmode : LexMode.after o.brackets a.toList = .bare false := by decide +kernel
    simp [EndsDoubled, ha, hmode]
  exact ⟨rfl, hcomplete, by simp [o], by simp, (segments_append_operator_iff rfl hcomplete
    (by simp [o]) (by simp) "f").mpr hclosed⟩

/-- A line that ends in an empty pair of double quotes is complete, and an operator after it does
not end it. -/
theorem not_continued_after_empty_quotes :
    let o : ScanOptions := { operators := [.pipe] }
    let a := "echo \"\""
    Complete o a ∧
      segments o (a ++ " " ++ Operator.pipe.literal ++ " " ++ "cat") ≠
        endWith .pipe (segments o a) ++ (segments o (" " ++ "cat")).map
          (.shift (byteLength (a ++ " " ++ Operator.pipe.literal).toList)) := by
  intro o a
  have ha : segments o a =
      [{ typed := a, words := [⟨"echo", 0, .plain⟩, ⟨"", 5, .plain⟩], operator := .endOfLine }] := by
    decide +kernel
  have hcomplete : Complete o a :=
    ⟨by simp [ha], by simp [ha], by simp [ha], by decide +kernel⟩
  exact ⟨hcomplete, by decide +kernel⟩

end Continuation
end LineShell
