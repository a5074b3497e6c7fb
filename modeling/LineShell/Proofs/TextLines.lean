import LineShell.Proofs.InputLines

/-!
# The lines of a text

In UTF-8 a byte below 128 stands for a character on its own and is never part of another one. So where
the bytes of a text are cut at newlines, the text is cut at newlines, and every line of it is a text
again (`LinesOf`).

* `Bytes.utf8EncodeChar_of_mem`: a byte below 128 is a character on its own;
* `Bytes.encode_eq_append_newline`: so a newline among the bytes is one among the characters, and
  `Bytes.CutsIntoLines.isText`: the lines of a text are texts;
* `Bytes.linesUntilBad_utf8`: a text is read as its lines, to the end;
* `Bytes.LinesOf.unique`: and it has no others;
* `Bytes.pieces_ended`: lines that are written with newlines are cut there again.
-/

namespace LineShell
namespace Bytes

/-! ## 1. Characters and their bytes -/

/-- The bytes of characters in UTF-8. -/
def encode (cs : List Char) : Bytes := cs.flatMap String.utf8EncodeChar

@[simp] theorem encode_nil : encode [] = [] := rfl

@[simp] theorem encode_cons (c : Char) (cs : List Char) :
    encode (c :: cs) = String.utf8EncodeChar c ++ encode cs := rfl

@[simp] theorem encode_append (xs ys : List Char) : encode (xs ++ ys) = encode xs ++ encode ys :=
  List.flatMap_append

theorem encode_eq (cs : List Char) : (cs.utf8Encode).data.toList = encode cs := by
  simp [List.utf8Encode, encode]

theorem utf8_eq_encode (s : String) : utf8 s = encode s.toList := by
  rw [← encode_eq, String.utf8Encode_toList, utf8]

theorem ofUtf8?_utf8 (s : String) : ofUtf8? (utf8 s) = some s := by
  have hbytes : (⟨(utf8 s).toArray⟩ : ByteArray) = s.toByteArray := rfl
  rw [ofUtf8?, hbytes, String.fromUTF8?, dif_pos s.isValidUTF8]
  rfl

/-- **A byte below 128 is a character on its own.** -/
theorem utf8EncodeChar_of_mem {c : Char} {b : UInt8} (h : b ∈ String.utf8EncodeChar c)
    (hb : b.toNat < 128) : String.utf8EncodeChar c = [b] ∧ c.toNat = b.toNat := by
  have hval : c.val.toNat = c.toNat := rfl
  rw [String.utf8EncodeChar] at h ⊢
  split_ifs at h ⊢
  · obtain rfl : b = UInt8.ofNat c.val.toNat := List.mem_singleton.mp h
    refine ⟨rfl, ?_⟩
    rw [UInt8.toNat_ofNat']
    omega
  -- every byte of a longer form has its highest bit set
  all_goals
    simp only [List.mem_cons, List.not_mem_nil, or_false, ← UInt8.toNat_inj,
      UInt8.toNat_ofNat'] at h
    omega

theorem eq_newline_of_mem {c : Char} (h : 10 ∈ String.utf8EncodeChar c) : c = '\n' :=
  Char.toNat_inj.mp (utf8EncodeChar_of_mem h (by decide)).2

theorem eq_return_of_mem {c : Char} (h : 13 ∈ String.utf8EncodeChar c) : c = '\r' :=
  Char.toNat_inj.mp (utf8EncodeChar_of_mem h (by decide)).2

/-! ## 2. Texts among the bytes -/

/-- **A newline among the bytes is one among the characters.** -/
theorem encode_eq_append_newline {cs : List Char} {line rest : Bytes} (hline : 10 ∉ line)
    (h : encode cs = line ++ 10 :: rest) :
    ∃ as bs, cs = as ++ '\n' :: bs ∧ encode as = line ∧ encode bs = rest := by
  induction cs generalizing line with
  | nil => simp at h
  | cons c cs ih =>
    rw [encode_cons] at h
    obtain ⟨more, rfl, hrest⟩ | ⟨more, hchar, hrest⟩ := List.append_eq_append_iff.mp h
    · -- the character stands before the newline
      obtain ⟨as, bs, rfl, rfl, rfl⟩ := ih (fun hmem => hline (List.mem_append_right _ hmem)) hrest
      exact ⟨c :: as, bs, rfl, rfl, rfl⟩
    · cases more with
      | nil =>
        rw [List.append_nil] at hchar
        rw [List.nil_append] at hrest
        obtain ⟨as, bs, rfl, has, rfl⟩ := ih List.not_mem_nil hrest.symm
        refine ⟨c :: as, bs, rfl, ?_, rfl⟩
        rw [encode_cons, has, hchar, List.append_nil]
      | cons b more =>
        -- the newline is a byte of the character, so it is the character
        rw [List.cons_append] at hrest
        obtain ⟨rfl, rfl⟩ := List.cons.inj hrest
        have hmem : 10 ∈ String.utf8EncodeChar c := hchar ▸ by simp
        obtain rfl := eq_newline_of_mem hmem
        obtain ⟨rfl, rfl⟩ : line = [] ∧ more = [] := by
          have hlength := congrArg List.length hchar
          rw [show String.utf8EncodeChar '\n' = [10] from rfl] at hlength
          simp only [List.length_append, List.length_cons, List.length_nil] at hlength
          exact ⟨List.length_eq_zero_iff.mp (by omega), List.length_eq_zero_iff.mp (by omega)⟩
        exact ⟨[], cs, rfl, rfl, rfl⟩

/-- The bytes are those of a text. -/
def IsText (bs : Bytes) : Prop := ∃ cs, encode cs = bs

theorem isText_utf8 (s : String) : IsText (utf8 s) := ⟨s.toList, (utf8_eq_encode s).symm⟩

theorem IsText.exists_utf8 {bs : Bytes} (h : IsText bs) : ∃ s, utf8 s = bs := by
  obtain ⟨cs, rfl⟩ := h
  exact ⟨String.ofList cs, by rw [utf8_eq_encode, String.toList_ofList]⟩

/-- Without a carriage return at its end a text is a text. -/
theorem IsText.dropReturn {bs : Bytes} (h : IsText bs) : IsText (dropReturn bs) := by
  obtain ⟨cs, rfl⟩ := h
  unfold Bytes.dropReturn
  split
  · rename_i hlast
    obtain rfl | ⟨cs, c, rfl⟩ := cs.eq_nil_or_concat
    · cases hlast
    · rw [List.concat_eq_append] at hlast ⊢
      have hmem : 13 ∈ String.utf8EncodeChar c := by
        rw [encode_append, encode_cons, encode_nil, List.append_nil, List.getLast?_append,
          List.getLast?_eq_some_getLast String.utf8EncodeChar_ne_nil, Option.some_or,
          Option.some_inj] at hlast
        exact hlast ▸ List.getLast_mem _
      obtain rfl := eq_return_of_mem hmem
      refine ⟨cs, ?_⟩
      rw [encode_append, show encode ['\r'] = [13] from rfl, List.dropLast_concat]
  · exact ⟨cs, rfl⟩

/-- **The lines of a text are texts.** -/
theorem CutsIntoLines.isText {bs : Bytes} {lines : List Bytes} (h : CutsIntoLines bs lines)
    (hbs : IsText bs) : ∀ line ∈ lines, IsText line := by
  induction h with
  | nil => exact fun _ h => absurd h List.not_mem_nil
  | last => simpa using hbs
  | @ended line rest lines hno _ ih =>
    obtain ⟨cs, hcs⟩ := hbs
    obtain ⟨as, bs, -, has, hbs⟩ := encode_eq_append_newline hno hcs
    exact List.forall_mem_cons.mpr ⟨IsText.dropReturn ⟨as, has⟩, ih ⟨bs, hbs⟩⟩

/-! ## 3. Lines of texts -/

/-- The lines of a text, as texts. -/
def LinesOf (text : String) (lines : List String) : Prop :=
  CutsIntoLines (utf8 text) (lines.map utf8)

theorem utf8_injective {s t : String} (h : utf8 s = utf8 t) : s = t := by
  rw [← Option.some_inj, ← ofUtf8?_utf8 s, ← ofUtf8?_utf8 t, h]

/-- A text has one list of lines. -/
theorem LinesOf.unique {text : String} {lines lines' : List String} (h : LinesOf text lines)
    (h' : LinesOf text lines') : lines = lines' :=
  (List.map_inj_right fun _ _ => utf8_injective).mp (CutsIntoLines.unique h h')

/-- Pieces that are texts are read to the end. -/
theorem linesUntilBad_of_isText {pieces : List Bytes}
    (h : ∀ line ∈ pieces.map stripLineEnd, IsText line) :
    ∃ lines, linesUntilBad pieces = (lines, false) ∧ pieces.map stripLineEnd = lines.map utf8 := by
  induction pieces with
  | nil => exact ⟨[], rfl, rfl⟩
  | cons piece pieces ih =>
    obtain ⟨hpiece, hpieces⟩ := List.forall_mem_cons.mp h
    obtain ⟨line, hline⟩ := hpiece.exists_utf8
    obtain ⟨lines, hread, hlines⟩ := ih hpieces
    refine ⟨line :: lines, ?_, ?_⟩
    · rw [linesUntilBad, ← hline, ofUtf8?_utf8, hread]
    · rw [List.map_cons, List.map_cons, hline, hlines]

/-- **A text is read as its lines**, to its end. -/
theorem linesUntilBad_utf8 (text : String) :
    ∃ lines, LinesOf text lines ∧ linesUntilBad (pieces (utf8 text)) = (lines, false) ∧
      (pieces (utf8 text)).map stripLineEnd = lines.map utf8 := by
  have hcut := cutsIntoLines_pieces (utf8 text)
  obtain ⟨lines, hread, hlines⟩ := linesUntilBad_of_isText (hcut.isText (isText_utf8 text))
  exact ⟨lines, by rwa [hlines] at hcut, hread, hlines⟩

/-- There is no newline in a line. -/
theorem CutsIntoLines.not_mem_newline {bs : Bytes} {lines : List Bytes}
    (h : CutsIntoLines bs lines) : ∀ line ∈ lines, 10 ∉ line := by
  induction h with
  | nil => exact fun _ h => absurd h List.not_mem_nil
  | last _ hno => simpa using hno
  | @ended line rest lines hno _ ih =>
    refine List.forall_mem_cons.mpr ⟨fun hmem => hno ?_, ih⟩
    unfold Bytes.dropReturn at hmem
    split at hmem
    · exact List.dropLast_subset _ hmem
    · exact hmem

theorem LinesOf.not_mem_newline {text : String} {lines : List String} (h : LinesOf text lines) :
    ∀ line ∈ lines, 10 ∉ utf8 line :=
  fun _ hline => CutsIntoLines.not_mem_newline h _ (List.mem_map_of_mem hline)

/-- Bytes that are written as lines are cut into these lines again. -/
theorem pieces_ended {line : Bytes} (h : 10 ∉ line) (rest : Bytes) :
    pieces (line ++ 10 :: rest) = (line ++ [10]) :: pieces rest := by
  cases hbs : line ++ 10 :: rest with
  | nil => simp at hbs
  | cons b bs =>
    rw [pieces, ← hbs]
    obtain ⟨hno, -⟩ | ⟨line', rest', heq, hno, hsplit⟩ := splitLine_cases (line ++ 10 :: rest)
    · exact absurd (by simp) hno
    · obtain ⟨rfl, rfl⟩ := append_newline_inj h hno heq
      rw [hsplit]

end Bytes
end LineShell
