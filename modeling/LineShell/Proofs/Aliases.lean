import LineShell.Proofs.Suggestions
import Mathlib.Data.List.Induction

/-!
# What the names of a configuration stand for

A configuration offers built-in commands under their own names and gives further names to some of
them, in order. A name stands for the command that its alias names, if that command is offered, and
else for the command of its own name (`Config.meaning?`). The registry of the configuration holds one
handle for each command that is offered, and every name that stands for a command has its handle.

* `Registry.resolve_enable`: a command offered under its own name has one handle, however often and
  wherever it is listed;
* `Registry.resolve_linkAll`: an alias takes the handle that its target had before there were any
  aliases, so aliases are no targets and their order does not count;
* `Registry.ofConfig_one_step`: hence what the names of a registry stand for, and what is said about
  the rest.
-/

namespace LineShell

/-! ## 1. What names stand for -/

namespace Config

/-- The built-in command of this name, if the configuration lists it. -/
def offered? (c : Config) (name : String) : Option Builtin :=
  if name ∈ c.commands then Builtin.ofName? name else none

/-- The command that a name stands for: that of its alias, or else the one of its own name. -/
def meaning? (c : Config) (name : String) : Option Builtin :=
  ((c.aliases.get? name).bind c.offered?).or (c.offered? name)

end Config

@[simp] theorem Builtin.ofName?_name (b : Builtin) : Builtin.ofName? b.name = some b := by
  cases b <;> decide

theorem Builtin.name_of_ofName? {b : Builtin} {name : String}
    (h : Builtin.ofName? name = some b) : b.name = name := by
  simpa using List.find?_some h

/-! ## 2. Commands under their own names -/

namespace Registry

theorem resolve_register (r : Registry) (name other : String) (b : Builtin) :
    (r.register name b).resolve other = if other = name then some ⟨r.issued, b⟩ else r.resolve other :=
  Dictionary.get?_insert name other _ r.commands

theorem enable_concat (names : List String) (name : String) :
    enable (names ++ [name]) =
      (Builtin.ofName? name).elim (enable names) ((enable names).register name) := by
  simp [enable]

/-- A name resolves to the command it is the name of, if it is enabled. -/
theorem builtin_resolve_enable (names : List String) (name : String) :
    ((enable names).resolve name).map (·.builtin) =
      if name ∈ names then Builtin.ofName? name else none := by
  -- the last entry of a name decides, so the list is taken apart from its end
  induction names using List.reverseRecOn with
  | nil => rfl
  | append_singleton names last ih =>
    rw [enable_concat]
    cases hlast : Builtin.ofName? last with
    | none =>
      rw [Option.elim_none, ih]
      by_cases hname : name = last
      · simp [hname, hlast]
      · simp [hname]
    | some b =>
      rw [Option.elim_some, resolve_register]
      by_cases hname : name = last
      · simp [hname, hlast]
      · simpa [hname] using ih

/-- The handle of a command that is enabled. -/
def handleOf (names : List String) (b : Builtin) : Handle :=
  ((enable names).resolve b.name).getD ⟨0, b⟩

@[simp] theorem builtin_handleOf (names : List String) (b : Builtin) :
    (handleOf names b).builtin = b := by
  have h := builtin_resolve_enable names b.name
  rw [handleOf]
  cases hresolve : (enable names).resolve b.name with
  | none => rfl
  | some handle =>
    rw [hresolve, Builtin.ofName?_name, Option.map_some] at h
    split at h
    · exact Option.some.inj h
    · cases h

/-- **A command offered under its own name has one handle**, however often it is listed. -/
theorem resolve_enable (c : Config) (name : String) :
    (enable c.commands).resolve name = (c.offered? name).map (handleOf c.commands) := by
  have h := builtin_resolve_enable c.commands name
  rw [← Config.offered?] at h
  rw [← h]
  cases hresolve : (enable c.commands).resolve name with
  | none => rfl
  | some handle =>
    have hname : handle.builtin.name = name := by
      rw [hresolve, Option.map_some, Config.offered?] at h
      split at h
      · exact Builtin.name_of_ofName? h.symm
      · cases h
    rw [Option.map_some, Option.map_some, handleOf, hname, hresolve, Option.getD_some]

end Registry

/-! ## 3. Aliases -/

namespace Registry

/-- Links are put among the commands, one after another. -/
theorem commands_links (links : List (String × Handle)) (r : Registry) :
    (links.foldl (fun r p => r.link p.1 p.2) r).commands =
      Dictionary.insertAll links r.commands := by
  induction links generalizing r with
  | nil => rfl
  | cons p links ih => exact ih (r.link p.1 p.2)

/-- **An alias takes the handle that its target had before there were aliases.** -/
theorem resolve_linkAll (r : Registry) (aliases : Dictionary String) (name : String) :
    (r.linkAll aliases).resolve name = ((aliases.get? name).bind r.resolve).or (r.resolve name) := by
  rw [resolve, linkAll, commands_links, Dictionary.get?_insertAll, Dictionary.get?_filterMap]
  rfl

/-! ## 4. The registry of a configuration -/

/-- A name resolves to the handle of the command it stands for. -/
theorem resolve_ofConfig (c : Config) (name : String) :
    (ofConfig c).resolve name = (c.meaning? name).map (handleOf c.commands) := by
  have hbind : (c.aliases.get? name).bind (enable c.commands).resolve =
      ((c.aliases.get? name).bind c.offered?).map (handleOf c.commands) := by
    cases c.aliases.get? name with
    | none => rfl
    | some target => exact resolve_enable c target
  rw [ofConfig, resolve_linkAll, hbind, resolve_enable, Config.meaning?, Option.map_or]

theorem isNone_resolve_enable (c : Config) (name : String) :
    ((enable c.commands).resolve name).isNone = (c.offered? name).isNone := by
  rw [resolve_enable, Option.isNone_map]

/-- **An alias whose target is not offered might as well not be there.** -/
theorem ofConfig_without_ignored (c : Config) :
    ofConfig { c with aliases := c.aliases.filter fun p => (c.offered? p.2).isSome } =
      ofConfig c := by
  let offered : Dictionary String := c.aliases.filter fun p => (c.offered? p.2).isSome
  have hlinks : (offered.filterMap (enable c.commands).resolve).entries =
      (c.aliases.filterMap (enable c.commands).resolve).entries := by
    simp only [offered, Dictionary.filterMap, Dictionary.filter, List.filterMap_filter]
    congr 1
    funext p
    rw [resolve_enable]
    cases c.offered? p.2 with
    | none => rfl
    | some b => rfl
  show (enable c.commands).linkAll offered = (enable c.commands).linkAll c.aliases
  rw [linkAll, linkAll, hlinks]

/-- **Aliases resolve in one step, to built-in commands.** There is one handle for each command, and a
name resolves to that of the command it stands for: the one its alias names, if it is offered under
its own name, or else the one of the name itself. An alias of anything else is ignored. The names of
the registry, which ascend, are those that stand for a command. What is said of a configuration is
one thing for each name listed that is no command, and then one for each alias that is ignored, in
the order of their names. -/
theorem ofConfig_one_step (c : Config) :
    let r := ofConfig c
    let ignored : Dictionary String := c.aliases.filter fun p => (c.offered? p.2).isNone
    (∃ handle : Builtin → Handle, (∀ b, (handle b).builtin = b) ∧
        ∀ name, r.resolve name = (c.meaning? name).map handle) ∧
      ofConfig { c with aliases := c.aliases.filter fun p => (c.offered? p.2).isSome } = r ∧
      r.names.Pairwise (· < ·) ∧
      (∀ name, name ∈ r.names ↔ (c.meaning? name).isSome = true) ∧
      warnings c =
        (c.commands.filter fun name => (Builtin.ofName? name).isNone).map .unknownCommand ++
          ignored.entries.map (fun p => .unknownTarget p.1 p.2) ∧
      ignored.names.Pairwise (· < ·) := by
  intro r ignored
  have hresolve := resolve_ofConfig c
  refine ⟨⟨handleOf c.commands, builtin_handleOf _, hresolve⟩, ofConfig_without_ignored c,
    r.commands.ascending, fun name => ?_, ?_, ignored.ascending⟩
  · rw [← isSome_resolve_iff, hresolve, Option.isSome_map]
  · simp only [warnings, isNone_resolve_enable, ignored]

/-- Two commands swap their names, a name is an alias of an alias, and a command is listed twice. -/
theorem ofConfig_one_step_of_swapped :
    let c : Config :=
      { commands := ["wc", "echo", "nope", "cat", "echo"]
        aliases := .ofPairs
          [("cat", "echo"), ("echo", "cat"), ("p", "cat"), ("q", "p"), ("wc", "grep")] }
    ((ofConfig c).resolve "cat").map (·.builtin) = some .echo ∧
      ((ofConfig c).resolve "echo").map (·.builtin) = some .cat ∧
      ((ofConfig c).resolve "p") = (ofConfig c).resolve "echo" ∧
      ((ofConfig c).resolve "wc").map (·.builtin) = some .wc ∧
      "q" ∉ (ofConfig c).names ∧
      warnings c = [.unknownCommand "nope", .unknownTarget "q" "p", .unknownTarget "wc" "grep"] := by
  intro c
  obtain ⟨⟨handle, hbuiltin, hresolve⟩, -, -, hnames, hwarnings, -⟩ := ofConfig_one_step c
  have hmeaning (name : String) :
      ((ofConfig c).resolve name).map (·.builtin) = c.meaning? name := by
    rw [hresolve, Option.map_map]
    cases c.meaning? name with
    | none => rfl
    | some b => exact congrArg some (hbuiltin b)
  have hsame : c.meaning? "p" = c.meaning? "echo" := by decide +kernel
  refine ⟨(hmeaning "cat").trans ?_, (hmeaning "echo").trans ?_, ?_,
    (hmeaning "wc").trans ?_, (hnames "q").not.mpr ?_, hwarnings.trans ?_⟩
  · decide +kernel
  · decide +kernel
  · exact (hresolve "p").trans (hsame ▸ (hresolve "echo").symm)
  · decide +kernel
  · decide +kernel
  · decide +kernel

end Registry
end LineShell
