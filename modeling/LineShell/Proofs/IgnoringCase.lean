import LineShell.Proofs.SelectedLines

/-!
# Searching without regard to case

Every character has its small letters whatever stands around it, except the capital sigma: its small
letter at the end of a word is another one. So a part of a text has the small letters that it has on
its own, unless one of its sigmas stands where a word could go on past the edge of the part
(`EdgeSigma`).

* `lowerAfter_append`: the small letters of a text are those of its parts, each between the others;
* `lowerBetween_eq_lowercase`: a part without a sigma at an edge keeps its small letters anywhere;
* `lowerBetween_first_sigma`, `lowerBetween_last_sigma`: one at an edge has another small letter where
  a letter stands next to it, and `not_infix_lowercase_cons`, `not_infix_lowercase_concat`: there the
  part is not found;
* `ignoreCase_keeps_iff`: hence for which texts a search without regard to case finds every line that
  a plain search finds.
-/

namespace LineShell

/-! ## 1. Characters that case rules overlook -/

/-- Case rules overlook all of the characters. -/
def Overlooked (cs : List Char) : Prop := ∀ c ∈ cs, isCaseIgnorable c = true

theorem reachesCased_cons (c : Char) (cs : List Char) :
    reachesCased (c :: cs) = if isCaseIgnorable c then reachesCased cs else isCased c := by
  rw [reachesCased, List.dropWhile_cons]
  split_ifs <;> rfl

theorem reachesCased_append_of_overlooked {xs : List Char} (h : Overlooked xs) (ys : List Char) :
    reachesCased (xs ++ ys) = reachesCased ys := by
  rw [reachesCased, List.dropWhile_append_of_pos h, ← reachesCased]

theorem reachesCased_append_of_not {xs : List Char} (h : ¬ Overlooked xs) (ys : List Char) :
    reachesCased (xs ++ ys) = reachesCased xs := by
  induction xs with
  | nil => exact absurd (fun _ h => absurd h List.not_mem_nil) h
  | cons c xs ih =>
    rw [List.cons_append, reachesCased_cons, reachesCased_cons]
    split_ifs with hc
    · exact ih fun hxs => h (List.forall_mem_cons.mpr ⟨hc, hxs⟩)
    · rfl

theorem reachesCased_of_overlooked {cs : List Char} (h : Overlooked cs) : reachesCased cs = false := by
  have hnil := reachesCased_append_of_overlooked h []
  rwa [List.append_nil] at hnil

theorem not_overlooked_sigma {cs : List Char} (h : 'Σ' ∈ cs) : ¬ Overlooked cs := fun hcs =>
  absurd (hcs _ h) (by decide +kernel)

/-! ## 2. The small letters of a part -/

/-- The small letters of characters that stand after `before`, the nearest first, and in front of
`after`. -/
def lowerBetween : List Char → List Char → List Char → List Char
  | _, [], _ => []
  | before, c :: cs, after =>
    (if c = 'Σ' then [lowerSigma before (cs ++ after)] else lowerChar c) ++
      lowerBetween (c :: before) cs after

/-- **The small letters of a text are those of its parts.** -/
theorem lowerAfter_append (before xs ys : List Char) :
    lowerAfter before (xs ++ ys) =
      lowerBetween before xs ys ++ lowerAfter (xs.reverse ++ before) ys := by
  induction xs generalizing before with
  | nil => rfl
  | cons c xs ih =>
    rw [List.cons_append, lowerAfter, lowerBetween, ih, List.append_assoc, List.reverse_cons,
      List.append_assoc]
    rfl

theorem lowerAfter_eq_lowerBetween (before cs : List Char) :
    lowerAfter before cs = lowerBetween before cs [] := by
  have h := lowerAfter_append before cs []
  rwa [List.append_nil, lowerAfter, List.append_nil] at h

theorem lowerBetween_append (before xs ys after : List Char) :
    lowerBetween before (xs ++ ys) after =
      lowerBetween before xs (ys ++ after) ++ lowerBetween (xs.reverse ++ before) ys after := by
  induction xs generalizing before with
  | nil => rfl
  | cons c xs ih =>
    rw [List.cons_append, lowerBetween, lowerBetween, ih, List.append_assoc, List.reverse_cons,
      List.append_assoc, List.append_assoc]
    rfl

/-- Only the sigmas depend on what stands around. -/
theorem lowerBetween_congr {cs before after before' after' : List Char}
    (h : ∀ u v, cs = u ++ 'Σ' :: v →
      lowerSigma (u.reverse ++ before) (v ++ after) =
        lowerSigma (u.reverse ++ before') (v ++ after')) :
    lowerBetween before cs after = lowerBetween before' cs after' := by
  induction cs generalizing before before' with
  | nil => rfl
  | cons c cs ih =>
    have hrest : lowerBetween (c :: before) cs after = lowerBetween (c :: before') cs after' := by
      refine ih fun u v hcs => ?_
      have hsigma := h (c :: u) v (by rw [hcs]; rfl)
      rwa [List.reverse_cons, List.append_assoc, List.append_assoc] at hsigma
    rw [lowerBetween, lowerBetween, hrest]
    split_ifs with hc
    · have hsigma := h [] cs (by rw [hc]; rfl)
      rw [List.reverse_nil, List.nil_append, List.nil_append] at hsigma
      rw [hsigma]
    · rfl

/-! ## 3. Sigmas at an edge -/

/-- A capital sigma stands where its small letter depends on what is around the text: a word that goes
on before the text could end with it, or it ends a word of the text that could go on after it. -/
def EdgeSigma (cs : List Char) : Prop :=
  ∃ u v, cs = u ++ 'Σ' :: v ∧
    (Overlooked u ∧ reachesCased v = false ∨ reachesCased u.reverse = true ∧ Overlooked v)

theorem overlooked_reverse {cs : List Char} : Overlooked cs.reverse ↔ Overlooked cs := by
  simp [Overlooked]

/-- **A text without a sigma at an edge keeps its small letters**, whatever stands around it. -/
theorem lowerBetween_eq_lowercase {cs : List Char} (h : ¬ EdgeSigma cs) (before after : List Char) :
    lowerBetween before cs after = lowercase cs := by
  rw [lowercase, lowerAfter_eq_lowerBetween]
  refine lowerBetween_congr fun u v hcs => ?_
  have hfirst : ¬ (Overlooked u ∧ reachesCased v = false) := fun hu => h ⟨u, v, hcs, .inl hu⟩
  have hlast : ¬ (reachesCased u.reverse = true ∧ Overlooked v) := fun hv => h ⟨u, v, hcs, .inr hv⟩
  rw [List.append_nil, List.append_nil, lowerSigma, lowerSigma]
  cases hv : reachesCased v with
  | true =>
    -- a letter follows in the text, so the sigma ends no word
    have hnot : ¬ Overlooked v := fun ho => by simp [reachesCased_of_overlooked ho] at hv
    simp [reachesCased_append_of_not hnot, hv]
  | false =>
    have hu : ¬ Overlooked u.reverse := fun ho => hfirst ⟨overlooked_reverse.mp ho, hv⟩
    rw [reachesCased_append_of_not hu]
    cases hreach : reachesCased u.reverse with
    | false => rfl
    | true =>
      have hnot : ¬ Overlooked v := fun ho => hlast ⟨hreach, ho⟩
      rw [reachesCased_append_of_not hnot, hv]

/-- In a text that holds it, a part without a sigma at an edge is found. -/
theorem infix_lowercase {part cs : List Char} (h : ¬ EdgeSigma part) (hpart : part <:+: cs) :
    lowercase part <:+: lowercase cs := by
  obtain ⟨front, back, rfl⟩ := hpart
  refine ⟨lowerBetween [] front (part ++ back), lowerAfter ((front ++ part).reverse ++ []) back, ?_⟩
  show _ = lowerAfter [] (front ++ part ++ back)
  rw [lowerAfter_append, lowerBetween_append, lowerBetween_eq_lowercase h]

/-! ## 4. Parts that are lost -/

/-- Characters between which no sigma stands have the same small letters everywhere. -/
theorem lowerBetween_of_overlooked {cs : List Char} (h : Overlooked cs)
    (before after before' after' : List Char) :
    lowerBetween before cs after = lowerBetween before' cs after' := by
  refine lowerBetween_congr fun u v hcs => absurd h (not_overlooked_sigma ?_)
  rw [hcs]
  simp

/-- Past a sigma nothing counts that stands before it. -/
theorem reachesCased_past_sigma (xs ys ys' : List Char) :
    reachesCased (xs ++ 'Σ' :: ys) = reachesCased (xs ++ 'Σ' :: ys') := by
  have hnot : ¬ Overlooked (xs ++ ['Σ']) := not_overlooked_sigma (by simp)
  rw [List.append_cons, List.append_cons xs 'Σ' ys', reachesCased_append_of_not hnot,
    reachesCased_append_of_not hnot]

/-- The first sigma, with only overlooked characters before it, is the only one for which a text in
front counts. -/
theorem lowerBetween_first_sigma {u v : List Char} (h : Overlooked u) (before : List Char) :
    lowerBetween before (u ++ 'Σ' :: v) [] =
      lowerBetween [] u [] ++ lowerSigma (u.reverse ++ before) v :: lowerBetween ['Σ'] v [] := by
  have hrest : lowerBetween ('Σ' :: (u.reverse ++ before)) v [] = lowerBetween ['Σ'] v [] := by
    refine lowerBetween_congr fun u' v' _ => ?_
    rw [lowerSigma, lowerSigma, reachesCased_past_sigma u'.reverse (u.reverse ++ before) []]
  rw [lowerBetween_append, lowerBetween_of_overlooked h before _ [] [], lowerBetween, if_pos rfl,
    hrest, List.append_nil]
  rfl

/-- The last sigma, with only overlooked characters after it, is the only one for which a text behind
counts. -/
theorem lowerBetween_last_sigma {u v : List Char} (h : Overlooked v) (after : List Char) :
    lowerBetween [] (u ++ 'Σ' :: v) after =
      lowerBetween [] u ['Σ'] ++ lowerSigma u.reverse (v ++ after) :: lowerBetween [] v [] := by
  have hfirst : lowerBetween [] u ('Σ' :: v ++ after) = lowerBetween [] u ['Σ'] := by
    refine lowerBetween_congr fun u' v' _ => ?_
    rw [lowerSigma, lowerSigma, List.cons_append, reachesCased_past_sigma v' (v ++ after) []]
  rw [lowerBetween_append, hfirst, lowerBetween, if_pos rfl,
    lowerBetween_of_overlooked h ('Σ' :: (u.reverse ++ [])) after [] [], List.append_nil]
  rfl

/-- What holds a character more often is no part. -/
theorem not_infix_of_count_lt {part cs : List Char} {c : Char} (h : cs.count c < part.count c) :
    ¬ part <:+: cs :=
  fun hwithin => Nat.not_le_of_lt h (hwithin.sublist.count_le c)

theorem lowerChar_a : lowerChar 'a' = ['a'] := by decide +kernel

theorem reachesCased_a : reachesCased ['a'] = true := by decide +kernel

/-- **A sigma that could end a word going on before the text ends one after a letter.** -/
theorem not_infix_lowercase_cons {u v : List Char} (hu : Overlooked u)
    (hv : reachesCased v = false) :
    ¬ lowercase (u ++ 'Σ' :: v) <:+: lowercase ('a' :: (u ++ 'Σ' :: v)) := by
  have halone : lowerSigma (u.reverse ++ []) v = 'σ' := by
    rw [List.append_nil, lowerSigma, reachesCased_of_overlooked (overlooked_reverse.mpr hu)]
    rfl
  have hafter : lowerSigma (u.reverse ++ ['a']) v = 'ς' := by
    rw [lowerSigma, reachesCased_append_of_overlooked (overlooked_reverse.mpr hu), reachesCased_a, hv]
    rfl
  rw [lowercase, lowercase, lowerAfter, if_neg (by decide), lowerChar_a, List.singleton_append,
    lowerAfter_eq_lowerBetween, lowerAfter_eq_lowerBetween, lowerBetween_first_sigma hu,
    lowerBetween_first_sigma hu, halone, hafter]
  exact not_infix_of_count_lt (c := 'σ') (by simp)

/-- **A sigma that ends a word of the text does not end it where a letter follows.** -/
theorem not_infix_lowercase_concat {u v : List Char} (hu : reachesCased u.reverse = true)
    (hv : Overlooked v) :
    ¬ lowercase (u ++ 'Σ' :: v) <:+: lowercase (u ++ 'Σ' :: v ++ ['a']) := by
  have halone : lowerSigma u.reverse (v ++ []) = 'ς' := by
    rw [List.append_nil, lowerSigma, hu, reachesCased_of_overlooked hv]
    rfl
  have hbefore : lowerSigma u.reverse (v ++ ['a']) = 'σ' := by
    rw [lowerSigma, reachesCased_append_of_overlooked hv, reachesCased_a, hu]
    rfl
  have hline : lowercase (u ++ 'Σ' :: v ++ ['a']) =
      lowerBetween [] (u ++ 'Σ' :: v) ['a'] ++ ['a'] := by
    rw [lowercase, lowerAfter_append, lowerAfter, if_neg (by decide), lowerChar_a, lowerAfter,
      List.append_nil]
  rw [hline, lowercase, lowerAfter_eq_lowerBetween, lowerBetween_last_sigma hv,
    lowerBetween_last_sigma hv, halone, hbefore]
  exact not_infix_of_count_lt (c := 'ς') (by simp)

/-! ## 5. Searches -/

theorem selects_iff (pattern : List Char) (line : String) :
    (⟨pattern, false, false⟩ : LineFilter).selects line = true ↔ pattern <:+: line.toList := by
  rw [← occursIn_iff]
  simp [LineFilter.selects, LineFilter.hits]

theorem selects_ignoreCase_iff (pattern : List Char) (line : String) :
    (⟨pattern, false, true⟩ : LineFilter).selects line = true ↔
      lowercase pattern <:+: lowercase line.toList := by
  rw [← occursIn_iff]
  simp [LineFilter.selects, LineFilter.hits]

/-- **Without regard to case a search finds every line that a plain search finds, if and only if no
sigma stands at an edge of its text.** A text with a newline in it is in no line at all. -/
theorem ignoreCase_keeps_iff (pattern : List Char) :
    (∀ line : String, '\n' ∉ line.toList →
        (⟨pattern, false, false⟩ : LineFilter).selects line = true →
        (⟨pattern, false, true⟩ : LineFilter).selects line = true) ↔
      '\n' ∈ pattern ∨ ¬ EdgeSigma pattern := by
  simp only [selects_iff, selects_ignoreCase_iff]
  constructor
  · intro hkeeps
    by_contra! h
    obtain ⟨hline, u, v, rfl, ⟨hu, hv⟩ | ⟨hu, hv⟩⟩ := h
    · have hkept := hkeeps (String.ofList ('a' :: (u ++ 'Σ' :: v)))
      rw [String.toList_ofList] at hkept
      refine not_infix_lowercase_cons hu hv (hkept ?_ (List.suffix_cons _ _).isInfix)
      simpa using hline
    · have hkept := hkeeps (String.ofList (u ++ 'Σ' :: v ++ ['a']))
      rw [String.toList_ofList] at hkept
      refine not_infix_lowercase_concat hu hv (hkept ?_ (List.prefix_append _ _).isInfix)
      simpa using hline
  · rintro (h | h) line hline hpattern
    · exact absurd (hpattern.subset h) hline
    · exact infix_lowercase h hpattern

/-- At the end of the text the sigma is final, and in the line it is not. -/
theorem ignoreCase_loses_match :
    (⟨['Α', 'Σ'], false, false⟩ : LineFilter).selects "ΑΣΑ" = true ∧
      (⟨['Α', 'Σ'], false, true⟩ : LineFilter).selects "ΑΣΑ" = false := by
  decide +kernel

end LineShell
