import LineShell.Proofs.EditDistance
import LineShell.Registry

/-!
# What is suggested for an unknown name

The names of a registry are all different. The suggestions are those of them whose distance to the
unknown one is small, sorted.

* `nearer_trans`, `nearer_total`: the order of suggestions is one to sort by;
* `Registry.suggest_nearest`: so the suggestions are the registered names that two edits or fewer
  turn the given one into, without repeats, the nearest first and equally near ones by name.
-/

namespace LineShell

/-! ## 1. The names of a registry -/

namespace Registry

theorem isSome_resolve_iff {r : Registry} {name : String} :
    (r.resolve name).isSome = true ↔ name ∈ r.names := Dictionary.isSome_get?_iff

/-! ## 2. The order of suggestions -/

theorem nearer_iff {p q : Nat × String} :
    nearer p q = true ↔ p.1 < q.1 ∨ p.1 = q.1 ∧ p.2 ≤ q.2 := by
  simp [nearer]

theorem nearer_trans (p q s : Nat × String) (h : nearer p q = true) (h' : nearer q s = true) :
    nearer p s = true := by
  rw [nearer_iff] at h h' ⊢
  obtain hlt | ⟨heq, hle⟩ := h
  · exact .inl (by omega)
  · obtain hlt | ⟨heq', hle'⟩ := h'
    · exact .inl (by omega)
    · exact .inr ⟨heq.trans heq', String.le_trans hle hle'⟩

theorem nearer_total (p q : Nat × String) : (nearer p q || nearer q p) = true := by
  rw [Bool.or_eq_true, nearer_iff, nearer_iff]
  obtain hlt | heq | hlt := Nat.lt_trichotomy p.1 q.1
  · exact .inl (.inl hlt)
  · obtain hle | hle := String.le_total p.2 q.2
    · exact .inl (.inr ⟨heq, hle⟩)
    · exact .inr (.inr ⟨heq.symm, hle⟩)
  · exact .inr (.inl hlt)

/-! ## 3. Suggestions -/

section Suggest

variable {r : Registry} {name : String}

/-- The suggestions are the names that are close enough, in another order. -/
theorem suggest_perm (r : Registry) (name : String) :
    (r.suggest name).Perm
      (r.names.filter fun n => editDistance name.toList n.toList ≤ closeDistance) := by
  refine ((List.mergeSort_perm _ _).map _).trans (List.Perm.of_eq ?_)
  rw [List.filter_map, List.map_map]
  exact List.map_id _

theorem mem_suggest {n : String} : n ∈ r.suggest name ↔
    (r.resolve n).isSome = true ∧ editDistance name.toList n.toList ≤ closeDistance := by
  rw [(suggest_perm r name).mem_iff, List.mem_filter, isSome_resolve_iff, decide_eq_true_iff]

theorem nodup_suggest (r : Registry) (name : String) : (r.suggest name).Nodup := by
  rw [(suggest_perm r name).nodup_iff]
  exact r.commands.nodup_names.filter _

/-- The suggestions are sorted by their distances and names. -/
theorem suggest_sorted (r : Registry) (name : String) :
    (r.suggest name).Pairwise fun n n' =>
      nearer (editDistance name.toList n.toList, n) (editDistance name.toList n'.toList, n') := by
  have hsorted := List.pairwise_mergeSort nearer_trans nearer_total
    ((r.names.map fun n => (editDistance name.toList n.toList, n)).filter (·.1 ≤ closeDistance))
  refine List.pairwise_map.mpr (hsorted.imp_of_mem fun hp hq hnearer => ?_)
  -- each of the sorted pairs has the distance of its name
  have hpair {p : Nat × String} (hp : p ∈ ((r.names.map fun n =>
      (editDistance name.toList n.toList, n)).filter (·.1 ≤ closeDistance)).mergeSort nearer) :
      (editDistance name.toList p.2.toList, p.2) = p := by
    rw [List.mem_mergeSort, List.mem_filter, List.mem_map] at hp
    obtain ⟨⟨n, -, rfl⟩, -⟩ := hp
    rfl
  rw [hpair hp, hpair hq]
  exact hnearer

end Suggest

/-- **Exactly the near names are suggested, the nearest first.** The edit distance of two texts is
the least number of single-character edits that turn the one into the other. The suggestions for a
name are, without repeats, the registered names at a distance of at most two from it, by their
distances and equally near ones by name. -/
theorem suggest_nearest :
    (∀ a b : List Char, IsLeast {n | Edits n a b} (editDistance a b)) ∧
      ∀ (r : Registry) (name : String),
        let distance (n : String) : Nat := editDistance name.toList n.toList
        (r.suggest name).Nodup ∧
          (∀ n, n ∈ r.suggest name ↔ (r.resolve n).isSome = true ∧ distance n ≤ 2) ∧
          (r.suggest name).Pairwise fun n n' =>
            distance n < distance n' ∨ distance n = distance n' ∧ n < n' := by
  refine ⟨editDistance_isLeast, ?_⟩
  intro r name distance
  have hnodup : (r.suggest name).Nodup := r.nodup_suggest name
  refine ⟨hnodup, fun n => mem_suggest, ?_⟩
  refine ((suggest_sorted r name).and hnodup).imp fun ⟨hnearer, hne⟩ => ?_
  obtain hlt | ⟨heq, hle⟩ := nearer_iff.mp hnearer
  · exact .inl hlt
  · exact .inr ⟨heq, String.not_le.mp fun hge => hne (String.le_antisymm hle hge)⟩

/-- In a registry with an alias, a name that is near to the alias and not to every command. -/
theorem suggest_nearest_of_alias :
    let r := ofConfig { commands := ["wc", "echo", "cat"], aliases := .ofPairs [("cap", "cat")] }
    (r.suggest "ca").Nodup ∧ "cap" ∈ r.suggest "ca" ∧ "wc" ∈ r.suggest "ca" ∧
      "echo" ∉ r.suggest "ca" := by
  intro r
  obtain ⟨hnodup, hmem, -⟩ := suggest_nearest.2 r "ca"
  refine ⟨hnodup, (hmem "cap").mpr ?_, (hmem "wc").mpr ?_, fun h => ?_⟩
  · exact ⟨by decide +kernel, by decide +kernel⟩
  · exact ⟨by decide +kernel, by decide +kernel⟩
  · exact absurd ((hmem "echo").mp h).2 (by decide +kernel)

end Registry
end LineShell
