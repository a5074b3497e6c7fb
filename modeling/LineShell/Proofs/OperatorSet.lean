import LineShell.Completion
import LineShell.Proofs.WrittenWord
import LineShell.Run

/-!
# The enabled operators are a set

Operators are enabled in a list, and the scan asks that list for the longest operator at a place. No
two operators are spelled alike, so there is at most one longest, and neither the order of the list
nor repetitions in it tell. The end of the line is written nowhere, so having it in the list changes
nothing either.

* `IsLongest.unique`: two lists with the same written operators have the same longest one;
* `segmentsFrom_congr`: so the scan cuts alike from every state on, whatever follows;
* `mem_activeOperators`: a configuration enables the operators whose literals it lists;
* `segments_of_sameOperators`: so only the set of operators matters to the segments of a line, to
  what is completed in it, and to how a configured shell cuts it.
-/

namespace LineShell

/-- Two lists enable the same operators. The end of the line, which has no spelling, does not
count. -/
def SameOperators (ops ops' : List Operator) : Prop :=
  ∀ op, op ≠ .endOfLine → (op ∈ ops ↔ op ∈ ops')

theorem SameOperators.symm {ops ops' : List Operator} (h : SameOperators ops ops') :
    SameOperators ops' ops := fun op hop => (h op hop).symm

/-! ## 1. The longest operator -/

namespace Operator

variable {ops ops' : List Operator} {text : List Char}

theorem IsLongest.congr {op : Operator} (h : SameOperators ops ops')
    (hop : op.IsLongest ops text) : op.IsLongest ops' text where
  mem := (h op (startsAt_iff.mp hop.startsAt).1).mp hop.mem
  startsAt := hop.startsAt
  le := fun op' hmem hstarts =>
    hop.le op' ((h op' (startsAt_iff.mp hstarts).1).mpr hmem) hstarts

/-- **There is at most one longest operator**: both are starts of the same text, equally long. -/
theorem IsLongest.unique {op op' : Operator} (h : op.IsLongest ops text)
    (h' : op'.IsLongest ops text) : op = op' := by
  have hle := h.le op' h'.mem h'.startsAt
  have hstart : op'.spelling <+: op.spelling :=
    List.prefix_of_prefix_length_le (startsAt_iff.mp h'.startsAt).2 (startsAt_iff.mp h.startsAt).2
      hle
  have hlength : op'.spelling.length = op.spelling.length :=
    Nat.le_antisymm hle (h'.le op h.mem h.startsAt)
  exact (spelling_injective (hstart.eq_of_length hlength)).symm

theorem longestAt_eq_none_of_same (h : SameOperators ops ops')
    (hnone : longestAt ops text = none) : longestAt ops' text = none := by
  rw [longestAt_eq_none_iff] at hnone ⊢
  intro op hmem hstarts
  exact hnone op ((h op (startsAt_iff.mp hstarts).1).mpr hmem) hstarts

theorem longestAt_congr (h : SameOperators ops ops') (text : List Char) :
    longestAt ops text = longestAt ops' text := by
  cases hop : longestAt ops text with
  | none => exact (longestAt_eq_none_of_same h hop).symm
  | some op =>
    cases hop' : longestAt ops' text with
    | none => rw [longestAt_eq_none_of_same h.symm hop'] at hop; cases hop
    | some op' =>
      have hlongest := (longestAt_isLongest hop).congr h
      rw [hlongest.unique (longestAt_isLongest hop')]

end Operator

/-! ## 2. The scan -/

namespace Scan

variable {ops ops' : List Operator}

theorem operatorAt_congr (h : SameOperators ops ops') (s : Scan) (rest : List Char) :
    s.operatorAt ops rest = s.operatorAt ops' rest := by
  rw [operatorAt, operatorAt, Operator.longestAt_congr h]

/-- **From every state on the scan cuts alike.** The end of a segment does not ask what is enabled. -/
theorem segmentsFrom_congr (h : SameOperators ops ops') (o : ScanOptions) (s : Scan)
    (cs : List Char) :
    s.segmentsFrom { o with operators := ops } cs =
      s.segmentsFrom { o with operators := ops' } cs := by
  fun_induction segmentsFrom { o with operators := ops } s cs with
  | case1 s =>
    rw [segmentsFrom]
    rfl
  | case2 s c rest s' op hop ih =>
    rw [operatorAt_congr h] at hop
    rw [ih, segmentsFrom]
    simp only [show s.atCursor o.cursor = s' from rfl, hop]
    rfl
  | case3 s c rest s' hop ih =>
    rw [operatorAt_congr h] at hop
    rw [ih, segmentsFrom]
    simp only [show s.atCursor o.cursor = s' from rfl, hop]

end Scan

/-! ## 3. Configurations -/

theorem mem_operatorsOf {op : Operator} : ∀ {literals : List String} {known : List Operator},
    op ∈ operatorsOf known literals ↔
      op ∈ known ∨ ∃ s ∈ literals, Operator.ofLiteral? s = some op
  | [], known => by simp [operatorsOf]
  | s :: rest, known => by
    rw [operatorsOf]
    cases hs : Operator.ofLiteral? s with
    | none => simp [mem_operatorsOf, hs]
    | some op' =>
      have hknown : op ∈ (if known.contains op' then known else known ++ [op']) ↔
          op ∈ known ∨ op' = op := by
        split_ifs with hmem
        · rw [List.contains_iff_mem] at hmem
          exact ⟨.inl, fun h => h.elim id fun e => e ▸ hmem⟩
        · rw [List.mem_append, List.mem_singleton, eq_comm (a := op)]
      rw [mem_operatorsOf, hknown, or_assoc]
      simp [hs]

/-- A configuration enables the operators whose literals it lists. -/
theorem mem_activeOperators {c : Config} {op : Operator} :
    op ∈ c.activeOperators ↔ ∃ s ∈ c.operators, Operator.ofLiteral? s = some op := by
  rw [Config.activeOperators, mem_operatorsOf, or_iff_right List.not_mem_nil]

theorem sameOperators_active {c : Config} {literals literals' : List String}
    (h : ∀ s, s ∈ literals ↔ s ∈ literals') :
    SameOperators ({ c with operators := literals } : Config).activeOperators
      ({ c with operators := literals' } : Config).activeOperators := by
  intro op _
  simp only [mem_activeOperators, h]

/-! ## 4. Lines -/

theorem segments_congr {ops ops' : List Operator} (h : SameOperators ops ops') (o : ScanOptions)
    (line : String) :
    segments { o with operators := ops } line = segments { o with operators := ops' } line :=
  Scan.segmentsFrom_congr h o {} line.toList

/-- **Only the set of enabled operators matters.** With two lists that enable the same operators, a
line has the same segments, and the same is completed in it at every cursor. So two configurations
that list the same literals, in whatever order and however often, make shells that cut every line
alike. -/
theorem segments_of_sameOperators :
    (∀ ops ops' : List Operator, SameOperators ops ops' → ∀ (o : ScanOptions) (line : String),
        segments { o with operators := ops } line = segments { o with operators := ops' } line ∧
          ∀ cursor, completionTarget line cursor { o with operators := ops } =
            completionTarget line cursor { o with operators := ops' }) ∧
      ∀ (c : Config) (literals literals' : List String), (∀ s, s ∈ literals ↔ s ∈ literals') →
        let sh := Shell.ofConfig { c with operators := literals }
        let sh' := Shell.ofConfig { c with operators := literals' }
        ∀ line, sh.parse line = sh'.parse line ∧
          ∀ cursor, completionTarget line cursor sh.options =
            completionTarget line cursor sh'.options := by
  have hcompleted {ops ops' : List Operator} (h : SameOperators ops ops') (o : ScanOptions)
      (line : String) (cursor : Nat) :
      completionTarget line cursor { o with operators := ops } =
        completionTarget line cursor { o with operators := ops' } := by
    unfold completionTarget
    rw [segments_congr h { o with cursor := some cursor }]
  refine ⟨fun ops ops' h o line => ⟨segments_congr h o line, hcompleted h o line⟩, ?_⟩
  intro c literals literals' hliterals sh sh' line
  have h := sameOperators_active (c := c) hliterals
  exact ⟨segments_congr h sh.options line, hcompleted h sh.options line⟩

/-- Where one enabled operator is the start of another, with both of them repeated and the end of
the line among them. -/
theorem segments_of_sameOperators_repeated :
    let ops : List Operator := [.orElse, .pipe]
    let ops' : List Operator := [.pipe, .endOfLine, .orElse, .pipe]
    let o : ScanOptions := { brackets := true }
    let sh := Shell.ofConfig { operators := ["||", "&", "|"] }
    let sh' := Shell.ofConfig { operators := ["|", "||", "|", "&"] }
    SameOperators ops ops' ∧
      (segments { o with operators := ops } "a|||b" =
          segments { o with operators := ops' } "a|||b" ∧
        completionTarget "a|||b" 4 { o with operators := ops } =
          completionTarget "a|||b" 4 { o with operators := ops' }) ∧
      (∀ s, s ∈ ["||", "&", "|"] ↔ s ∈ ["|", "||", "|", "&"]) ∧
      sh.parse "a|||b" = sh'.parse "a|||b" := by
  intro ops ops' o sh sh'
  have hops : SameOperators ops ops' := by
    intro op hop
    cases op <;> simp_all [ops, ops']
  have hliterals : ∀ s, s ∈ ["||", "&", "|"] ↔ s ∈ ["|", "||", "|", "&"] := by
    intro s
    grind
  have h := segments_of_sameOperators.1 ops ops' hops o "a|||b"
  exact ⟨hops, ⟨h.1, h.2 4⟩, hliterals, (segments_of_sameOperators.2 {} _ _ hliterals "a|||b").1⟩

/-- The longer operator is taken although the shorter one comes later in the list. -/
example :
    (segments { operators := [.orElse, .pipe] } "a|||b").map (·.operator) =
      [.orElse, .pipe, .endOfLine] := by
  decide +kernel

end LineShell
