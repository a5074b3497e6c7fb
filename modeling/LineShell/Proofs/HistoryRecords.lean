import LineShell.History
import LineShell.Run
import LineShell.Text.Number
import Mathlib.Logic.Basic

/-!
# What a record of the history reads as

A record is three fields with tabs between them: the line, the exit code and a detail. The first two
hold no tab and no record holds a newline, so a record is one line, and its first two tabs are the
ones that were put there. The detail is not cleaned of tabs: it may show more of them, behind those.

* `readInteger_codeText`: the code is written in decimal, that is, it reads as the number;
* `getElem?_recordedLine`, `recordedDetail_eq`: the line with blanks for its newlines and tabs, cut
  to 200 characters, and the lines of the detail in one;
* `tab_mem_detail_iff`: the tabs of a detail are those of the texts from outside that it shows;
* `record_fields`: so what a record splits into at its tabs.
-/

namespace LineShell

/-! ## 1. Codes -/

theorem le_ofDigitChars (cs : List Char) (n : Nat) : n ≤ Nat.ofDigitChars 10 cs n := by
  induction cs generalizing n with
  | nil => exact Nat.le_refl n
  | cons c cs ih =>
    rw [Nat.ofDigitChars_cons]
    have hrest := ih (10 * n + (c.toNat - '0'.toNat))
    omega

/-- Digits are read as the number they write, if it is in the range. -/
theorem readDigits_ok {most : Nat} {overflow : NumberError} {cs : List Char} {n : Nat}
    (hdigits : ∀ c ∈ cs, c.isDigit = true) (hmost : Nat.ofDigitChars 10 cs n ≤ most) :
    readDigits most overflow n cs = .ok (Nat.ofDigitChars 10 cs n) := by
  induction cs generalizing n with
  | nil => rfl
  | cons c cs ih =>
    have hdigit : digit? c = some (c.toNat - 48) := if_pos (hdigits c List.mem_cons_self)
    have hvalue : 10 * n + (c.toNat - '0'.toNat) = n * 10 + (c.toNat - 48) := by
      rw [Nat.mul_comm]
      rfl
    rw [Nat.ofDigitChars_cons, hvalue] at hmost ⊢
    have hfits : ¬ most < n * 10 + (c.toNat - 48) :=
      Nat.not_lt.mpr (Nat.le_trans (le_ofDigitChars cs _) hmost)
    simp only [readDigits, hdigit, if_neg hfits]
    exact ih (fun d hd => hdigits d (List.mem_cons_of_mem _ hd)) hmost

theorem isDigit_of_mem_toDigits {n : Nat} {c : Char} (h : c ∈ Nat.toDigits 10 n) :
    c.isDigit = true := Nat.isDigit_of_mem_toDigits (by decide) (by decide) h

theorem readDigits_toDigits {most n : Nat} {overflow : NumberError} (h : n ≤ most) :
    readDigits most overflow 0 (Nat.toDigits 10 n) = .ok n := by
  have hvalue : Nat.ofDigitChars 10 (Nat.toDigits 10 n) 0 = n := Nat.ofDigitChars_ten_toDigits
  rw [readDigits_ok (fun _ => isDigit_of_mem_toDigits) (hvalue.symm ▸ h), hvalue]

/-- A number begins with a digit. -/
theorem exists_toDigits (n : Nat) :
    ∃ c cs, Nat.toDigits 10 n = c :: cs ∧ c ≠ '+' ∧ c ≠ '-' := by
  cases hdigits : Nat.toDigits 10 n with
  | nil => exact absurd hdigits Nat.toDigits_ne_nil
  | cons c cs =>
    have hdigit : c.isDigit = true := isDigit_of_mem_toDigits (hdigits ▸ List.mem_cons_self)
    refine ⟨c, cs, rfl, ?_, ?_⟩ <;> rintro rfl <;> exact absurd hdigit (by decide)

/-- **A number of the range is read as itself.** -/
theorem readInteger_toString {least most : Nat} {n : Int} (hleast : -(least : Int) ≤ n)
    (hmost : n ≤ most) : readInteger least most (toString n).toList = .ok n := by
  cases n with
  | ofNat m =>
    have hread : readDigits most .tooLarge 0 (Nat.toDigits 10 m) = .ok m :=
      readDigits_toDigits (by simpa using hmost)
    have htext : (toString (Int.ofNat m)).toList = Nat.toDigits 10 m := Nat.toList_repr
    obtain ⟨c, cs, hdigits, hplus, hminus⟩ := exists_toDigits m
    rw [htext]
    rw [hdigits] at hread ⊢
    simp [readInteger, readNatural, hplus, hminus, hread, Except.map]
  | negSucc m =>
    have hread : readDigits least .tooSmall 0 (Nat.toDigits 10 (m + 1)) = .ok (m + 1) :=
      readDigits_toDigits (by omega)
    have htext : (toString (Int.negSucc m)).toList = '-' :: Nat.toDigits 10 (m + 1) := by
      show ("-" ++ (m + 1).repr).toList = _
      rw [String.toList_append, Nat.toList_repr]
      rfl
    obtain ⟨c, cs, hdigits, -⟩ := exists_toDigits (m + 1)
    rw [htext]
    rw [hdigits] at hread ⊢
    simp only [readInteger, hread, Except.map]
    rfl

/-- **A code is written in decimal.** -/
theorem readInteger_codeText (code : ExitCode) :
    readInteger (Nat.pow 2 31) (Nat.pow 2 31 - 1) (codeText code).toList = .ok code.toInt := by
  have hleast := Int32.le_toInt code
  have hmost := Int32.toInt_lt code
  exact readInteger_toString (by simpa using hleast) (by simp; omega)

theorem codeText_inj {code code' : ExitCode} (h : codeText code = codeText code') :
    code = code' := by
  have hread := readInteger_codeText code
  rw [h, readInteger_codeText code'] at hread
  exact Int32.toInt_inj.mp (Except.ok.inj hread).symm

theorem mem_codeText {code : ExitCode} {c : Char} (h : c ∈ (codeText code).toList) :
    c = '-' ∨ c.isDigit = true := by
  rw [codeText] at h
  cases hcode : code.toInt with
  | ofNat m =>
    rw [hcode, show (toString (Int.ofNat m)).toList = Nat.toDigits 10 m from Nat.toList_repr] at h
    exact .inr (isDigit_of_mem_toDigits h)
  | negSucc m =>
    rw [hcode, show toString (Int.negSucc m) = "-" ++ (m + 1).repr from rfl, String.toList_append,
      Nat.toList_repr, List.mem_append] at h
    obtain h | h := h
    · exact .inl (List.mem_singleton.mp h)
    · exact .inr (isDigit_of_mem_toDigits h)

theorem not_mem_codeText {code : ExitCode} {c : Char} (hsign : c ≠ '-')
    (hdigit : c.isDigit = false) : c ∉ (codeText code).toList := by
  intro h
  obtain h | h := mem_codeText h
  · exact hsign h
  · rw [hdigit] at h
    cases h

/-! ## 2. Lines and details -/

/-- **The line as a record shows it**: its first 200 characters, with blanks for newlines and
tabs. -/
theorem getElem?_recordedLine (cs : List Char) (i : Nat) :
    (recordedLine cs)[i]? =
      if i < 200 then cs[i]?.map fun c => if c = '\n' ∨ c = '\t' then ' ' else c else none := by
  rw [recordedLine, maxRecordedLine, List.getElem?_take, List.getElem?_map]

theorem not_mem_recordedLine {line : List Char} {c : Char} (h : c = '\n' ∨ c = '\t') :
    c ∉ recordedLine line := by
  intro hmem
  obtain ⟨d, -, hd⟩ := List.mem_map.mp (List.mem_of_mem_take hmem)
  split at hd
  · subst hd
    revert h
    decide
  · rename_i hother
    exact hother (hd ▸ h)

theorem intercalate_modifyHead {sep : List Char} {c : Char} {parts : List (List Char)}
    (h : parts ≠ []) :
    sep.intercalate (parts.modifyHead (c :: ·)) = c :: sep.intercalate parts := by
  obtain ⟨part, parts, rfl⟩ := List.exists_cons_of_ne_nil h
  cases parts with
  | nil => simp
  | cons part' parts =>
    rw [List.modifyHead_cons, List.intercalate_cons_cons, List.intercalate_cons_cons]
    rfl

/-- **The detail as a record shows it**: its lines with semicolons between. -/
theorem recordedDetail_eq (detail : List Char) :
    recordedDetail detail = [';', ' '].intercalate (detail.splitOn '\n') := by
  induction detail with
  | nil => rfl
  | cons c detail ih =>
    have hne : detail.splitOn '\n' ≠ [] := List.splitOn_ne_nil _ _
    rw [recordedDetail, List.flatMap_cons, ← recordedDetail, ih, List.splitOn_cons_eq_if_modifyHead]
    by_cases hc : c = '\n'
    · obtain ⟨part, parts, hparts⟩ := List.exists_cons_of_ne_nil hne
      rw [if_pos hc, if_pos (beq_iff_eq.mpr hc), hparts, List.intercalate_cons_cons]
      rfl
    · rw [if_neg hc, if_neg (by simpa using hc), intercalate_modifyHead hne, List.singleton_append]

theorem newline_not_mem_recordedDetail (detail : List Char) : '\n' ∉ recordedDetail detail := by
  intro h
  obtain ⟨c, -, hc⟩ := List.mem_flatMap.mp h
  split at hc
  · exact absurd hc (by decide)
  · rename_i hother
    exact hother (List.mem_singleton.mp hc).symm

theorem count_tab_recordedDetail (detail : List Char) :
    (recordedDetail detail).count '\t' = detail.count '\t' := by
  induction detail with
  | nil => rfl
  | cons c detail ih =>
    rw [recordedDetail, List.flatMap_cons, ← recordedDetail, List.count_append, ih, List.count_cons]
    by_cases hc : c = '\n'
    · subst hc
      simp
    · rw [if_neg hc, List.count_singleton, Nat.add_comm]

theorem splitOn_eq_singleton_iff {c : Char} {cs : List Char} : cs.splitOn c = [cs] ↔ c ∉ cs := by
  refine ⟨fun h hmem => ?_, List.splitOn_eq_singleton⟩
  obtain ⟨front, back, rfl, hfront⟩ := List.eq_append_cons_of_mem hmem
  rw [List.splitOn_append_cons_self_of_not_mem hfront, List.cons.injEq] at h
  exact List.splitOn_ne_nil _ _ h.2

/-! ## 3. What came of a line -/

/-- The code that stands for what came of a line. -/
def codeOf : Except ChainError Report → ExitCode
  | .ok r => r.exitCode
  | .error _ => rejectedCode

/-- What is told about it. -/
def detailOf (label : String) : Except ChainError Report → String
  | .ok r => r.summary
  | .error e => e.message label

/-- The texts from outside that the detail shows: the names of the commands that were run, or what
an error names. -/
def textsOf (label : String) : Except ChainError Report → List String
  | .ok r => r.nodes.map (·.command)
  | .error (.malformed _ text) => [text]
  | .error (.notFound name _) => [label, name]
  | .error _ => [label]

variable {label : String} {result : Except ChainError Report}

theorem recordOf_eq (line : String) :
    recordOf label line result = historyRecord line (codeOf result) (detailOf label result) := by
  cases result <;> rfl

theorem toList_historyRecord (line : String) (code : ExitCode) (detail : String) :
    (historyRecord line code detail).toList =
      recordedLine line.toList ++ '\t' :: ((codeText code).toList ++
        '\t' :: recordedDetail detail.toList) := by
  simp [historyRecord]

theorem mem_intercalate_iff {c : Char} {sep : String} (h : c ∉ sep.toList) (texts : List String) :
    c ∈ (sep.intercalate texts).toList ↔ ∃ text ∈ texts, c ∈ text.toList := by
  rw [String.toList_intercalate]
  induction texts with
  | nil => simp
  | cons text texts ih =>
    cases texts with
    | nil => simp
    | cons text' texts =>
      rw [List.map_cons] at ih
      rw [List.map_cons, List.map_cons, List.intercalate_cons_cons, List.mem_append,
        List.mem_append, ih, or_iff_left h]
      simp

theorem tab_not_mem_display (outcome : Outcome) : '\t' ∉ outcome.display.toList := by
  cases outcome with
  | ran code =>
    have hcode : '\t' ∉ (codeText code).toList := not_mem_codeText (by decide) (by decide)
    simp [Outcome.display, hcode]
  | skipped => decide
  | notRun => decide

/-- **The tabs of a detail are those of the texts from outside.** -/
theorem tab_mem_detail_iff :
    '\t' ∈ (detailOf label result).toList ↔ ∃ text ∈ textsOf label result, '\t' ∈ text.toList := by
  rcases result with e | r
  · have hdisplay (op : Operator) : '\t' ∉ op.display.toList := by cases op <;> decide
    have hnumber (n : Nat) : '\t' ∉ Nat.toDigits 10 n := fun h =>
      absurd (isDigit_of_mem_toDigits h) (by decide)
    cases e <;> simp [detailOf, textsOf, ChainError.message, hdisplay, hnumber]
  · have hnode (n : NodeReport) :
        '\t' ∈ (n.command ++ "=" ++ n.outcome.display).toList ↔ '\t' ∈ n.command.toList := by
      simp [tab_not_mem_display]
    rw [detailOf, Report.summary, mem_intercalate_iff (by decide), textsOf]
    simp only [List.mem_map, exists_exists_and_eq_and, hnode]

/-! ## 4. Records -/

/-- **A record splits into the line, the code, and the detail** as it is split at its own tabs. -/
theorem splitOn_recordOf (label line : String) (result : Except ChainError Report) :
    (recordOf label line result).toList.splitOn '\t' =
      recordedLine line.toList :: (codeText (codeOf result)).toList ::
        (recordedDetail (detailOf label result).toList).splitOn '\t' := by
  rw [recordOf_eq, toList_historyRecord,
    List.splitOn_append_cons_self_of_not_mem (not_mem_recordedLine (.inr rfl)),
    List.splitOn_append_cons_self_of_not_mem (not_mem_codeText (by decide) (by decide))]

theorem newline_not_mem_recordOf (label line : String) (result : Except ChainError Report) :
    '\n' ∉ (recordOf label line result).toList := by
  have hline : '\n' ∉ recordedLine line.toList := not_mem_recordedLine (.inl rfl)
  have hcode : '\n' ∉ (codeText (codeOf result)).toList := not_mem_codeText (by decide) (by decide)
  rw [recordOf_eq, toList_historyRecord]
  simp [hline, hcode, newline_not_mem_recordedDetail]

/-- Two of the tabs are there anyway. -/
theorem count_tab_recordOf (label line : String) (result : Except ChainError Report) :
    (recordOf label line result).toList.count '\t' =
      2 + (detailOf label result).toList.count '\t' := by
  have hline : '\t' ∉ recordedLine line.toList := not_mem_recordedLine (.inr rfl)
  have hcode : '\t' ∉ (codeText (codeOf result)).toList := not_mem_codeText (by decide) (by decide)
  rw [recordOf_eq, toList_historyRecord, List.count_append, List.count_cons_self, List.count_append,
    List.count_cons_self, List.count_eq_zero.mpr hline, List.count_eq_zero.mpr hcode,
    count_tab_recordedDetail]
  omega

/-- **What a record splits into at its tabs.** A record holds no newline. At its tabs it splits into
the line with blanks for newlines and tabs, cut to 200 characters, the code in decimal, and the
lines of the detail in one, which is itself split at its tabs. So it has two tabs, and these three
fields, if and only if there is no tab in the texts from outside that the detail shows: the names of
the commands, or the label and the name that is not known. In any case records are the same only if
they show the same line, code and detail. -/
theorem record_fields (label line : String) (result : Except ChainError Report) :
    let record := (recordOf label line result).toList
    let shown := recordedLine line.toList
    let code := (codeText (codeOf result)).toList
    let detail := recordedDetail (detailOf label result).toList
    (∀ i : Nat, shown[i]? =
        if i < 200 then line.toList[i]?.map fun c => if c = '\n' ∨ c = '\t' then ' ' else c
        else none) ∧
      readInteger (Nat.pow 2 31) (Nat.pow 2 31 - 1) code = .ok (codeOf result).toInt ∧
      detail = [';', ' '].intercalate ((detailOf label result).toList.splitOn '\n') ∧
      '\n' ∉ record ∧
      record.splitOn '\t' = shown :: code :: detail.splitOn '\t' ∧
      (record.count '\t' = 2 ↔ ∀ text ∈ textsOf label result, '\t' ∉ text.toList) ∧
      (record.splitOn '\t' = [shown, code, detail] ↔
        ∀ text ∈ textsOf label result, '\t' ∉ text.toList) ∧
      ∀ (label' line' : String) (result' : Except ChainError Report),
        recordOf label line result = recordOf label' line' result' →
          shown = recordedLine line'.toList ∧ codeOf result = codeOf result' ∧
            detail = recordedDetail (detailOf label' result').toList := by
  intro record shown code detail
  have hsplit : record.splitOn '\t' = shown :: code :: detail.splitOn '\t' :=
    splitOn_recordOf label line result
  have htexts : '\t' ∉ (detailOf label result).toList ↔
      ∀ text ∈ textsOf label result, '\t' ∉ text.toList := by
    rw [tab_mem_detail_iff]
    simp
  have hcount : record.count '\t' = 2 ↔ '\t' ∉ (detailOf label result).toList := by
    rw [show record.count '\t' = _ from count_tab_recordOf label line result, ← List.count_eq_zero]
    omega
  have hthree : record.splitOn '\t' = [shown, code, detail] ↔
      '\t' ∉ (detailOf label result).toList := by
    rw [hsplit, List.cons.injEq, List.cons.injEq, and_iff_right rfl, and_iff_right rfl,
      splitOn_eq_singleton_iff, ← List.count_eq_zero, count_tab_recordedDetail, List.count_eq_zero]
  refine ⟨getElem?_recordedLine _, readInteger_codeText _, recordedDetail_eq _,
    newline_not_mem_recordOf label line result, hsplit, hcount.trans htexts,
    hthree.trans htexts, ?_⟩
  intro label' line' result' hsame
  have hfields : record.splitOn '\t' = _ := hsame ▸ splitOn_recordOf label' line' result'
  rw [hsplit, List.cons.injEq, List.cons.injEq] at hfields
  obtain ⟨hline, hcode, hdetail⟩ := hfields
  refine ⟨hline, codeText_inj (String.toList_injective hcode), ?_⟩
  calc detail = ['\t'].intercalate (detail.splitOn '\t') := (List.intercalate_splitOn '\t').symm
    _ = recordedDetail (detailOf label' result').toList := by
      rw [hdetail, List.intercalate_splitOn]

/-- The name of a command that is not known, with a tab in quotes. -/
theorem record_with_three_tabs :
    let sh := Shell.ofConfig {}
    let line := "'a\tb'"
    let record := "'a b'\t2\tlinechain: command not found: a\tb"
    (sh.run line {}).map (fun p => recordOf sh.label line p.1) = some record ∧
      record.toList.count '\t' = 3 ∧
      record.toList.splitOn '\t' ≠ [recordedLine line.toList, (codeText 2).toList,
        recordedDetail "linechain: command not found: a\tb".toList] := by
  decide +kernel

end LineShell
