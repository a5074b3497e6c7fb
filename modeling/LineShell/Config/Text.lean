import LineShell.Config.Overlay
import LineShell.Toml.Printer
import LineShell.Toml.Reader

/-!
# Configurations as text

An overlay is written as a table with a table for each section. What is missing changes nothing, and
keys without a meaning are passed over, but one value of the wrong kind makes the whole text no
overlay. A section may also be an array of its fields, in their order. A date counts as a table of
its one field: as a section it changes nothing, and as the entries of the aliases it is one alias.

The text of a configuration has a table for each part, always in the same order, and aliases in the
order of their names (`Config.dump`).
-/

namespace LineShell

open Toml (Value)

/-! ## 1. Values -/

def boolean? : Value → Option Bool
  | .boolean b => some b
  | _ => none

def string? : Value → Option String
  | .string s => some s
  | _ => none

def strings? : Value → Option (List String)
  | .array items => items.mapM string?
  | _ => none

def dictionary? (v : Value) : Option (Dictionary String) := do
  let strings ← (← v.fields?).mapM fun p => (string? p.2).map (p.1, ·)
  return .ofPairs strings

/-! ## 2. Sections -/

/-- The fields of a section that have names, in their order: those of an array by position, all
others by name. -/
def sectionFields? (names : List String) : Value → Option (List (Option Value))
  | .array items => some ((List.range names.length).map fun i => items[i]?)
  | v => v.fields?.map fun fields => names.map fun name => Toml.field? name fields

/-- What a field holds, or the default if it is missing. -/
def fieldOr {α : Type} (default : α) (decode : Value → Option α) : Option Value → Option α
  | none => some default
  | some v => decode v

/-- What a field holds, if it is there. -/
def optional? {α : Type} (decode : Value → Option α) : Option Value → Option (Option α)
  | none => some none
  | some v => (decode v).map some

/-- Every field of a section given as an array is there. -/
def isComplete (fields : List (Option Value)) : Value → Bool
  | .array _ => fields.all Option.isSome
  | _ => true

/-- The settings of an overlay. As an array they have to be complete. -/
def SettingsOverlay.ofValue? (v : Value) : Option SettingsOverlay :=
  match sectionFields? ["parse_brackets", "error_prefix", "log_level", "history_file"] v with
  | some [brackets, label, logLevel, historyFile] =>
    if isComplete [brackets, label, logLevel, historyFile] v then do
      return {
        brackets := ← optional? boolean? brackets
        label := ← optional? string? label
        logLevel := ← optional? string? logLevel
        historyFile := ← optional? string? historyFile }
    else none
  | _ => none

def ListOverlay.ofValue? (v : Value) : Option ListOverlay :=
  match sectionFields? ["replace", "enabled", "remove_enabled"] v with
  | some [replace, added, removed] => do
    return {
      replace := ← fieldOr false boolean? replace
      added := ← fieldOr [] strings? added
      removed := ← fieldOr [] strings? removed }
  | _ => none

def AliasesOverlay.ofValue? (v : Value) : Option AliasesOverlay :=
  match sectionFields? ["replace", "entries", "remove"] v with
  | some [replace, added, removed] => do
    return {
      replace := ← fieldOr false boolean? replace
      added := ← fieldOr .empty dictionary? added
      removed := ← fieldOr [] strings? removed }
  | _ => none

/-! ## 3. Overlays -/

/-- The overlay that the fields of a table make. -/
def Overlay.ofFields? (fields : List (String × Value)) : Option Overlay := do
  return {
    settings := ← fieldOr {} SettingsOverlay.ofValue? (Toml.field? "settings" fields)
    operators := ← fieldOr {} ListOverlay.ofValue? (Toml.field? "operators" fields)
    commands := ← fieldOr {} ListOverlay.ofValue? (Toml.field? "commands" fields)
    aliases := ← fieldOr {} AliasesOverlay.ofValue? (Toml.field? "aliases" fields) }

def Overlay.ofText? (text : String) : Option Overlay := (Toml.read? text).bind Overlay.ofFields?

/-! ## 4. Configurations -/

def booleanText (b : Bool) : String := if b then "true" else "false"

def Settings.dump (s : Settings) : String :=
  Toml.tableText "settings" [
    Toml.fieldLine "parse_brackets" (booleanText s.brackets),
    Toml.fieldLine "error_prefix" (Toml.stringText s.label),
    Toml.fieldLine "log_level" (Toml.stringText s.logLevel),
    Toml.fieldLine "history_file" (Toml.stringText s.historyFile)]

def dumpList (header : String) (items : List String) : String :=
  Toml.tableText header [Toml.fieldLine "enabled" (Toml.arrayText items)]

def dumpAliases (aliases : Dictionary String) : String :=
  Toml.tableText "aliases.entries"
    (aliases.entries.map fun (name, target) => Toml.fieldLine name (Toml.stringText target))

/-- **The text of a configuration.** -/
def Config.dump (c : Config) : String :=
  "\n".intercalate [c.settings.dump, dumpList "operators" c.operators,
    dumpList "commands" c.commands, dumpAliases c.aliases]

end LineShell
