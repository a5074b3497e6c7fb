/-!
# Dictionaries: values under names

A `Dictionary` holds at most one value under each name, and its entries are in the order of their
names. `get?` reads it. `insert` sets one name, `filter` keeps some of the entries, and `filterMap`
makes other values of them; each comes with what `get?` reads afterwards.
-/

namespace LineShell

variable {α β : Type}

/-- Values under names, in ascending order of the names. -/
structure Dictionary (α : Type) where
  entries : List (String × α)
  ascending : (entries.map (·.1)).Pairwise (· < ·)
  deriving DecidableEq, Repr

namespace Dictionary

/-! ## 1. Reading -/

def get? (name : String) (d : Dictionary α) : Option α := d.entries.lookup name

def names (d : Dictionary α) : List String := d.entries.map (·.1)

theorem nodup_of_ascending {names : List String} (h : names.Pairwise (· < ·)) : names.Nodup := by
  refine h.imp fun {n n'} hlt heq => ?_
  subst heq
  exact String.lt_irrefl n hlt

/-- The names are all different. -/
theorem nodup_names (d : Dictionary α) : d.names.Nodup := nodup_of_ascending d.ascending

theorem isSome_lookup_iff {name : String} {entries : List (String × α)} :
    (entries.lookup name).isSome = true ↔ name ∈ entries.map (·.1) := by
  induction entries with
  | nil => simp
  | cons p entries ih =>
    rw [List.lookup_cons, List.map_cons, List.mem_cons, ← ih]
    by_cases hp : name = p.1
    · simp [hp]
    · simp [hp, beq_false_of_ne hp]

theorem isSome_get?_iff {name : String} {d : Dictionary α} :
    (d.get? name).isSome = true ↔ name ∈ d.names :=
  isSome_lookup_iff

theorem lookup_eq_none {name : String} {entries : List (String × α)}
    (h : name ∉ entries.map (·.1)) : entries.lookup name = none := by
  rw [← Option.not_isSome_iff_eq_none, isSome_lookup_iff]
  exact h

/-! ## 2. Setting a name -/

def empty : Dictionary α := ⟨[], .nil⟩

/-- The entries with a value set under a name. -/
def setEntry (name : String) (a : α) : List (String × α) → List (String × α)
  | [] => [(name, a)]
  | (n, b) :: rest =>
    if name < n then (name, a) :: (n, b) :: rest
    else if n = name then (name, a) :: rest
    else (n, b) :: setEntry name a rest

theorem lookup_setEntry (name other : String) (a : α) (entries : List (String × α)) :
    (setEntry name a entries).lookup other =
      if other = name then some a else entries.lookup other := by
  induction entries with
  | nil => grind [setEntry]
  | cons p entries ih => grind [setEntry]

theorem mem_names_setEntry {name other : String} {a : α} {entries : List (String × α)} :
    other ∈ (setEntry name a entries).map (·.1) ↔ other = name ∨ other ∈ entries.map (·.1) := by
  rw [← isSome_lookup_iff, lookup_setEntry, ← isSome_lookup_iff]
  split
  · rename_i h
    exact iff_of_true rfl (.inl h)
  · rename_i h
    exact (or_iff_right h).symm

/-- **Setting a name keeps the names in ascending order.** -/
theorem ascending_setEntry {name : String} {a : α} {entries : List (String × α)}
    (h : (entries.map (·.1)).Pairwise (· < ·)) :
    ((setEntry name a entries).map (·.1)).Pairwise (· < ·) := by
  induction entries with
  | nil => exact List.pairwise_singleton _ _
  | cons p entries ih =>
    obtain ⟨hp, hentries⟩ := List.pairwise_cons.mp h
    rw [setEntry]
    split
    · rename_i hlt
      refine List.pairwise_cons.mpr ⟨fun other hmem => ?_, h⟩
      obtain rfl | hmem := List.mem_cons.mp hmem
      · exact hlt
      · exact String.lt_trans hlt (hp other hmem)
    · split
      · rename_i hname
        exact List.pairwise_cons.mpr ⟨hname ▸ hp, hentries⟩
      · rename_i hlt hname
        refine List.pairwise_cons.mpr ⟨fun other hmem => ?_, ih hentries⟩
        obtain rfl | hmem := mem_names_setEntry.mp hmem
        · refine String.not_le.mp fun hle => hname ?_
          exact String.le_antisymm (String.not_lt.mp hlt) hle
        · exact hp other hmem

/-- The dictionary with a value set under a name. -/
def insert (name : String) (a : α) (d : Dictionary α) : Dictionary α :=
  ⟨setEntry name a d.entries, ascending_setEntry d.ascending⟩

/-- The dictionary with all the pairs set, in order. -/
def insertAll (pairs : List (String × α)) (d : Dictionary α) : Dictionary α :=
  pairs.foldl (fun d p => d.insert p.1 p.2) d

/-- The dictionary of the pairs; of several values for one name the last one counts. -/
def ofPairs (pairs : List (String × α)) : Dictionary α := insertAll pairs empty

/-- Setting a name changes what is under that name and nothing else. -/
theorem get?_insert (name other : String) (a : α) (d : Dictionary α) :
    (d.insert name a).get? other = if other = name then some a else d.get? other :=
  lookup_setEntry name other a d.entries

theorem get?_insertAll_of_nodup {pairs : List (String × α)} (h : (pairs.map (·.1)).Nodup)
    (d : Dictionary α) (name : String) :
    (insertAll pairs d).get? name = (pairs.lookup name).or (d.get? name) := by
  induction pairs generalizing d with
  | nil => rfl
  | cons p pairs ih =>
    obtain ⟨hp, hpairs⟩ := List.nodup_cons.mp h
    rw [show insertAll (p :: pairs) d = insertAll pairs (d.insert p.1 p.2) from rfl, ih hpairs,
      get?_insert, List.lookup_cons]
    by_cases hname : name = p.1
    · -- no later pair sets the name again
      rw [if_pos hname, lookup_eq_none (hname ▸ hp), hname, beq_self_eq_true, Option.none_or,
        Option.some_or]
    · rw [if_neg hname, beq_false_of_ne hname]

/-- What one dictionary puts into another is found first. -/
theorem get?_insertAll (added d : Dictionary α) (name : String) :
    (insertAll added.entries d).get? name = (added.get? name).or (d.get? name) :=
  get?_insertAll_of_nodup added.nodup_names d name

/-! ## 3. Leaving entries out -/

/-- The entries that are to be kept. -/
def filter (keeps : String × α → Bool) (d : Dictionary α) : Dictionary α :=
  ⟨d.entries.filter keeps, d.ascending.sublist (List.filter_sublist.map _)⟩

theorem lookup_filter_names (keeps : String → Bool) (entries : List (String × α)) (name : String) :
    (entries.filter fun p => keeps p.1).lookup name =
      if keeps name then entries.lookup name else none := by
  induction entries with
  | nil => simp
  | cons p entries ih => grind

theorem get?_filter_names (keeps : String → Bool) (d : Dictionary α) (name : String) :
    (d.filter fun p => keeps p.1).get? name = if keeps name then d.get? name else none :=
  lookup_filter_names keeps d.entries name

theorem names_filterMap_sublist (f : α → Option β) (entries : List (String × α)) :
    ((entries.filterMap fun p => (f p.2).map (p.1, ·)).map (·.1)).Sublist
      (entries.map (·.1)) := by
  induction entries with
  | nil => exact .slnil
  | cons p entries ih =>
    rw [List.filterMap_cons]
    cases f p.2 with
    | none => exact ih.cons p.1
    | some b => exact ih.cons_cons p.1

theorem lookup_filterMap (f : α → Option β) {entries : List (String × α)}
    (h : (entries.map (·.1)).Nodup) (name : String) :
    (entries.filterMap fun p => (f p.2).map (p.1, ·)).lookup name =
      (entries.lookup name).bind f := by
  induction entries with
  | nil => rfl
  | cons p entries ih =>
    obtain ⟨hp, hentries⟩ := List.nodup_cons.mp h
    have hrest := ih hentries
    rw [List.filterMap_cons, List.lookup_cons]
    by_cases hname : name = p.1
    · subst hname
      rw [beq_self_eq_true, Option.bind_some]
      cases f p.2 with
      | none => rw [Option.map_none, hrest, lookup_eq_none hp, Option.bind_none]
      | some b => rw [Option.map_some, List.lookup_cons_self]
    · rw [beq_false_of_ne hname, ← hrest]
      cases f p.2 with
      | none => rfl
      | some b => rw [Option.map_some, List.lookup_cons, beq_false_of_ne hname]

/-- A dictionary of what `f` makes of the values, where it makes anything of them. -/
def filterMap (f : α → Option β) (d : Dictionary α) : Dictionary β :=
  ⟨d.entries.filterMap fun p => (f p.2).map (p.1, ·),
    d.ascending.sublist (names_filterMap_sublist f d.entries)⟩

theorem get?_filterMap (f : α → Option β) (d : Dictionary α) (name : String) :
    (d.filterMap f).get? name = (d.get? name).bind f :=
  lookup_filterMap f d.nodup_names name

end Dictionary
end LineShell
