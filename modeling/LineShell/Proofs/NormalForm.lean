import LineShell.Proofs.WrittenWord

/-!
# The written form of words is a normal form

A line that `joinWith` writes holds nothing but its words, however the line is read: with brackets or
without, with any operators and with any cursor.

* `segments_joinWith`: it is one segment with those words, ended by the end of the line;
* `tokenize_joinWith`: read as a whole it gives the words back;
* `normalizedWith_of_holds`: writing the words of that segment anew gives the same line, so the
  written form of a segment is its own written form;
* `joinWith_reads_back` puts these together.
-/

namespace LineShell

/-- The words of the segment, written anew with the given quoter. -/
def Segment.normalizedWith (quoter : Quoter) (s : Segment) : String := joinWith quoter s.texts

example (s : Segment) : s.normalized = s.normalizedWith chunked := rfl

variable {quoter : Quoter}

/-- A written line is one segment with the written words. -/
theorem segments_joinWith (hq : quoter.Verbatim) (o : ScanOptions) (words : List String) :
    ∃ seg, segments o (joinWith quoter words) = [seg] ∧ seg.Holds words .endOfLine := by
  obtain ⟨v, hreads, hends⟩ := @reads_joinWith o quoter hq [] words
  rw [List.nil_append] at hends
  obtain ⟨s, hs, hline⟩ := hreads {} Scan.shows_start
  refine ⟨s.finish o, ?_, hs.finish hends⟩
  rw [segments, ← List.append_nil (joinWith quoter words).toList, hline, Scan.segmentsFrom]

/-- Written words are the tokens of their line. -/
theorem tokenize_joinWith (hq : quoter.Verbatim) (words : List String) :
    tokenize (joinWith quoter words) = words := by
  obtain ⟨seg, hsegs, hseg⟩ := segments_joinWith hq {} words
  rw [tokenize, hsegs, List.flatMap_singleton, hseg.texts]

/-- Writing the words of a written line anew gives the same line. -/
theorem normalizedWith_of_holds {words : List String} {seg : Segment} {op : Operator}
    (h : seg.Holds words op) : seg.normalizedWith quoter = joinWith quoter words := by
  rw [Segment.normalizedWith, h.texts]

/-- **What is written is read back, whatever the mode.** The line of any words is one segment, in
order and ended by the end of the line, whose words are plain and are the given ones; its tokens are
the words; and the normal form of any segment is read as the words of that segment, and is its own
normal form. -/
theorem joinWith_reads_back (hq : quoter.Verbatim) (o : ScanOptions) (words : List String) :
    (∃ seg, segments o (joinWith quoter words) = [seg] ∧ seg.Holds words .endOfLine) ∧
      tokenize (joinWith quoter words) = words ∧
      ∀ s : Segment, ∃ t, segments o (s.normalizedWith quoter) = [t] ∧
        t.Holds s.texts .endOfLine ∧ t.normalizedWith quoter = s.normalizedWith quoter := by
  refine ⟨segments_joinWith hq o words, tokenize_joinWith hq words, fun s => ?_⟩
  obtain ⟨t, hsegs, ht⟩ := segments_joinWith hq o s.texts
  exact ⟨t, hsegs, ht, normalizedWith_of_holds ht⟩

/-- The quoter of the program, on a segment with two words that the scan does not read as they
stand: blanks around a double quote, and a backslash at the end. The form is read with brackets and
all operators. -/
theorem joinWith_reads_back_of_program :
    let s : Segment :=
      { typed := "", words := [⟨" \" ", 0, .plain⟩, ⟨"a|\\", 4, .openQuote⟩], operator := .pipe }
    let o : ScanOptions := { brackets := true, operators := Operator.written }
    chunked.Verbatim ∧ tokenize (join s.texts) = [" \" ", "a|\\"] ∧
      ∃ t, segments o s.normalized = [t] ∧ t.texts = [" \" ", "a|\\"] ∧
        t.normalized = s.normalized := by
  intro s o
  obtain ⟨-, htokens, hnormal⟩ := joinWith_reads_back chunked_verbatim o s.texts
  obtain ⟨t, hsegs, ht, hself⟩ := hnormal s
  exact ⟨chunked_verbatim, htokens, t, hsegs, ht.texts, hself⟩

end LineShell
