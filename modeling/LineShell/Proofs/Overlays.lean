import LineShell.Config.Overlay
import LineShell.Proofs.Aliases
import LineShell.Proofs.OperatorSet

/-!
# What an overlay makes of a configuration

An overlay has one section for each part of a configuration. A section that replaces puts its own
list in place of the one below it. Any other takes items out of the list first and adds items to
what is left; each of these is added once, and only if it is not there.

* `foldl_append_missing`: adding what is missing, item after item, adds the new items in the order
  in which they first appear;
* `ListOverlay.Merges`, `AliasesOverlay.Merges`, `Overrides`: what a section says about a list,
  about the aliases, and about one setting; `ListOverlay.merges_apply` and
  `AliasesOverlay.merges_apply` say that it is done;
* `activeOperators_eq`: a configuration enables the operators that it lists, in the order of their
  first appearance;
* `overlay_merges`: hence what a configuration is under an overlay.
-/

namespace LineShell

/-! ## 1. Adding what is missing -/

section Missing

variable {α : Type} [BEq α] [LawfulBEq α]

/-- A list without its repetitions has none. -/
theorem nodup_eraseDups : ∀ items : List α, items.eraseDups.Nodup
  | [] => List.nodup_nil
  | x :: items => by
    have hshorter : (items.filter fun y => !y == x).length < items.length + 1 :=
      Nat.lt_succ_of_le (List.length_filter_le _ _)
    rw [List.eraseDups_cons]
    refine List.nodup_cons.mpr ⟨fun hmem => ?_, nodup_eraseDups _⟩
    simpa using (List.mem_filter.mp (List.mem_eraseDups.mp hmem)).2
termination_by items => items.length

/-- **What is missing is added in the order in which it first appears.** -/
theorem foldl_append_missing (items base : List α) :
    items.foldl (fun held item => if held.contains item then held else held ++ [item]) base =
      base ++ (items.filter fun item => !base.contains item).eraseDups := by
  induction items generalizing base with
  | nil => simp
  | cons x items ih =>
    rw [List.foldl_cons, ih, List.filter_cons]
    by_cases hx : base.contains x = true
    · rw [if_pos hx, if_neg (by simpa using hx)]
    · -- from here on `x` is there, so its later appearances do not count
      have hlater : (items.filter fun item => !(base ++ [x]).contains item) =
          (items.filter fun item => !base.contains item).filter fun item => !item == x := by
        rw [List.filter_filter]
        refine List.filter_congr fun item _ => ?_
        by_cases hitem : item = x <;> simp [hitem]
      rw [if_neg hx, if_pos (by simpa using hx), List.eraseDups_cons, hlater, List.append_assoc,
        List.singleton_append]

end Missing

theorem addMissing_eq (base added : List String) :
    addMissing base added = base ++ (added.filter fun item => !base.contains item).eraseDups := by
  rw [← foldl_append_missing]
  induction added generalizing base with
  | nil => rfl
  | cons item added ih => exact ih _

theorem operatorsOf_eq (known : List Operator) (literals : List String) :
    operatorsOf known literals =
      known ++ ((literals.filterMap Operator.ofLiteral?).filter fun op =>
        !known.contains op).eraseDups := by
  rw [← foldl_append_missing]
  induction literals generalizing known with
  | nil => rfl
  | cons s literals ih =>
    rw [operatorsOf, List.filterMap_cons]
    cases Operator.ofLiteral? s with
    | none => exact ih known
    | some op => exact ih _

/-! ## 2. Lists -/

namespace ListOverlay

/-- The items of a list that are not to be removed. -/
def kept (o : ListOverlay) (base : List String) : List String :=
  base.filter fun item => item ∉ o.removed

/-- What a section says a list is to become. -/
structure Merges (o : ListOverlay) (base merged : List String) : Prop where
  replaced : o.replace = true → merged = o.added
  /-- First what is kept, in its order, and then what is added to that, in the order in which it
  first appears. -/
  extended : o.replace = false →
    merged = o.kept base ++ (o.added.filter fun item => item ∉ o.kept base).eraseDups
  /-- Adding wins over removing, and nothing else is lost. -/
  mem_iff : o.replace = false →
    ∀ item, item ∈ merged ↔ (item ∈ base ∧ item ∉ o.removed) ∨ item ∈ o.added
  nodup : o.replace = false → base.Nodup → merged.Nodup

variable (o : ListOverlay) (base : List String)

theorem mem_kept {item : String} : item ∈ o.kept base ↔ item ∈ base ∧ item ∉ o.removed := by
  rw [kept, List.mem_filter, decide_eq_true_iff]

theorem apply_eq (h : o.replace = false) : o.apply base =
    o.kept base ++ (o.added.filter fun item => item ∉ o.kept base).eraseDups := by
  have hkept : (base.filter fun item => !o.removed.contains item) = o.kept base := by
    simp [kept]
  rw [ListOverlay.apply, h, if_neg Bool.false_ne_true, hkept, addMissing_eq]
  simp

theorem mem_apply (h : o.replace = false) {item : String} :
    item ∈ o.apply base ↔ (item ∈ base ∧ item ∉ o.removed) ∨ item ∈ o.added := by
  rw [o.apply_eq base h, List.mem_append, List.mem_eraseDups, List.mem_filter, decide_eq_true_iff,
    ← o.mem_kept base]
  by_cases hitem : item ∈ o.kept base <;> simp [hitem]

theorem nodup_apply (h : o.replace = false) (hbase : base.Nodup) : (o.apply base).Nodup := by
  rw [o.apply_eq base h]
  refine List.nodup_append.mpr ⟨hbase.filter _, nodup_eraseDups _, ?_⟩
  rintro item hkept _ hnew rfl
  rw [List.mem_eraseDups, List.mem_filter, decide_eq_true_iff] at hnew
  exact hnew.2 hkept

/-- **A section does to a list what it says.** -/
theorem merges_apply : o.Merges base (o.apply base) where
  replaced := fun h => by rw [ListOverlay.apply, if_pos h]
  extended := o.apply_eq base
  mem_iff := fun h _ => o.mem_apply base h
  nodup := o.nodup_apply base

end ListOverlay

/-! ## 3. Aliases -/

namespace AliasesOverlay

/-- What a section says the aliases are to become. -/
structure Merges (o : AliasesOverlay) (base merged : Dictionary String) : Prop where
  replaced : o.replace = true → merged = o.added
  /-- A name has the alias that is added, or else the one below it, if that is not removed. -/
  extended : o.replace = false → ∀ name,
    merged.get? name =
      (o.added.get? name).or (if name ∈ o.removed then none else base.get? name)

/-- **A section does to the aliases what it says.** -/
theorem merges_apply (o : AliasesOverlay) (base : Dictionary String) :
    o.Merges base (o.apply base) where
  replaced := fun hreplace => by rw [AliasesOverlay.apply, if_pos hreplace]
  extended := fun hreplace name => by
    rw [AliasesOverlay.apply, hreplace, if_neg Bool.false_ne_true,
      Dictionary.get?_insertAll, Dictionary.get?_filter_names (fun name => !o.removed.contains name)]
    by_cases hname : name ∈ o.removed <;> simp [hname]

end AliasesOverlay

/-! ## 4. Operators -/

theorem Operator.ofLiteral?_eq_some_iff {s : String} {op : Operator} :
    Operator.ofLiteral? s = some op ↔ op ≠ .endOfLine ∧ op.literal = s := by
  constructor
  · intro h
    refine ⟨?_, by simpa using List.find?_some h⟩
    rintro rfl
    exact absurd (List.mem_of_find?_eq_some h) (by decide)
  · rintro ⟨hop, rfl⟩
    cases op with
    | endOfLine => exact absurd rfl hop
    | _ => decide

/-- **A configuration enables the operators it lists**, in the order of their first appearance. -/
theorem activeOperators_eq (c : Config) :
    c.activeOperators = (c.operators.filterMap Operator.ofLiteral?).eraseDups := by
  rw [Config.activeOperators, operatorsOf_eq, List.nil_append, List.filter_eq_self.mpr]
  exact fun op _ => rfl

theorem mem_activeOperators_iff {c : Config} {op : Operator} :
    op ∈ c.activeOperators ↔ op ≠ .endOfLine ∧ op.literal ∈ c.operators := by
  rw [mem_activeOperators]
  constructor
  · rintro ⟨s, hs, hop⟩
    obtain ⟨hwritten, rfl⟩ := Operator.ofLiteral?_eq_some_iff.mp hop
    exact ⟨hwritten, hs⟩
  · rintro ⟨hwritten, hmem⟩
    exact ⟨_, hmem, Operator.ofLiteral?_eq_some_iff.mpr ⟨hwritten, rfl⟩⟩

/-! ## 5. Overlays -/

/-- A setting takes the value that is given and else keeps its own. -/
structure Overrides {α : Type} (given : Option α) (own result : α) : Prop where
  takes : ∀ a, given = some a → result = a
  keeps : given = none → result = own

theorem overrides_getD {α : Type} (given : Option α) (own : α) :
    Overrides given own (given.getD own) where
  takes := fun a h => by rw [h, Option.getD_some]
  keeps := fun h => by rw [h, Option.getD_none]

/-- **What a configuration is under an overlay.** A setting takes the overlay's value if there is
one and else keeps its own. The lists are merged as their sections say, so without repetitions if
they had none and nothing is replaced. The aliases are merged by name, of which an overlay has each once
at most. No section tells about another part of the configuration. The operators
of a configuration are those whose literals it lists, in that order and each once. -/
theorem overlay_merges :
    (∀ (o : Overlay) (c : Config),
      let merged := o.apply c
      (Overrides o.settings.brackets c.settings.brackets merged.settings.brackets ∧
        Overrides o.settings.label c.settings.label merged.settings.label ∧
        Overrides o.settings.logLevel c.settings.logLevel merged.settings.logLevel ∧
        Overrides o.settings.historyFile c.settings.historyFile merged.settings.historyFile) ∧
      o.operators.Merges c.operators merged.operators ∧
      o.commands.Merges c.commands merged.commands ∧
      (o.aliases.added.names.Nodup ∧ o.aliases.Merges c.aliases merged.aliases) ∧
      ∀ (o' : Overlay) (c' : Config),
        let merged' := o'.apply c'
        (o.settings = o'.settings → c.settings = c'.settings →
            merged.settings = merged'.settings) ∧
          (o.operators = o'.operators → c.operators = c'.operators →
            merged.operators = merged'.operators) ∧
          (o.commands = o'.commands → c.commands = c'.commands →
            merged.commands = merged'.commands) ∧
          (o.aliases = o'.aliases → c.aliases = c'.aliases → merged.aliases = merged'.aliases)) ∧
      ∀ c : Config,
        c.activeOperators.Nodup ∧
          c.activeOperators = (c.operators.filterMap Operator.ofLiteral?).eraseDups ∧
          ∀ op, op ∈ c.activeOperators ↔ op ≠ .endOfLine ∧ op.literal ∈ c.operators := by
  refine ⟨fun o c => ?_, fun c => ?_⟩
  · intro merged
    refine ⟨⟨overrides_getD _ _, overrides_getD _ _, overrides_getD _ _, overrides_getD _ _⟩,
      o.operators.merges_apply c.operators, o.commands.merges_apply c.commands,
      ⟨o.aliases.added.nodup_names, o.aliases.merges_apply c.aliases⟩, fun o' c' => ?_⟩
    intro merged'
    refine ⟨fun ho hc => ?_, fun ho hc => ?_, fun ho hc => ?_, fun ho hc => ?_⟩
    · exact congrArg₂ SettingsOverlay.apply ho hc
    · exact congrArg₂ ListOverlay.apply ho hc
    · exact congrArg₂ ListOverlay.apply ho hc
    · exact congrArg₂ AliasesOverlay.apply ho hc
  · refine ⟨?_, activeOperators_eq c, fun op => mem_activeOperators_iff⟩
    rw [activeOperators_eq]
    exact nodup_eraseDups _

/-- What is removed and added stands at the end, an item that is no operator is kept in the list, a
list is replaced by one with a repetition, and an alias that is removed is given anew. -/
theorem overlay_merges_removed_and_added :
    let o : Overlay :=
      { settings := { label := some "sh" }
        operators := { added := ["&", "|", ";", "&"], removed := [">>", "|", "nope"] }
        commands := { replace := true, added := ["wc", "wc"], removed := ["wc"] }
        aliases :=
          { added := .ofPairs [("print", "cat"), ("say", "echo")], removed := ["print", "say"] } }
    let c : Config := { operators := [">>", "|", "<", ";"] }
    let merged := o.apply c
    c.operators.Nodup ∧
      merged.settings.brackets = true ∧ merged.settings.label = "sh" ∧
      merged.operators = ["<", ";", "&", "|"] ∧ merged.operators.Nodup ∧
      merged.commands = ["wc", "wc"] ∧
      merged.aliases.get? "print" = some "cat" ∧ merged.aliases.get? "say" = some "echo" ∧
      merged.activeOperators = [.readFrom, .semicolon, .pipe] := by
  intro o c merged
  have hbase : c.operators.Nodup := by decide
  obtain ⟨⟨hbrackets, hlabel, -⟩, hoperators, hcommands, ⟨-, hmerges⟩, -⟩ :=
    overlay_merges.1 o c
  have hlist : merged.operators = ["<", ";", "&", "|"] :=
    (hoperators.extended rfl).trans (by decide +kernel)
  refine ⟨hbase, hbrackets.keeps rfl, hlabel.takes "sh" rfl, hlist,
    hoperators.nodup rfl hbase, hcommands.replaced rfl,
    (hmerges.extended rfl "print").trans (by decide +kernel),
    (hmerges.extended rfl "say").trans (by decide +kernel), ?_⟩
  rw [(overlay_merges.2 merged).2.1, hlist]
  decide +kernel

end LineShell
