import LineShell.Config

/-!
# Overlays: what a user changes about a configuration

An `Overlay` has a section for each part of a configuration, and each section changes its part only.

* A setting is replaced if the overlay gives one.
* A list either replaces the one below it, or takes items out of it first and then adds those that
  are missing (`ListOverlay.apply`).
* Aliases go the same way, by name (`AliasesOverlay.apply`).
-/

namespace LineShell

/-! ## 1. Sections -/

/-- Settings to replace. -/
structure SettingsOverlay where
  brackets : Option Bool := none
  label : Option String := none
  logLevel : Option String := none
  historyFile : Option String := none
  deriving DecidableEq, Repr

/-- Changes to a list. -/
structure ListOverlay where
  /-- The items added make up the whole list. -/
  replace : Bool := false
  added : List String := []
  removed : List String := []
  deriving DecidableEq, Repr

/-- Changes to the aliases. -/
structure AliasesOverlay where
  /-- The aliases added are all there are. -/
  replace : Bool := false
  added : Dictionary String := .empty
  removed : List String := []
  deriving DecidableEq, Repr

/-- Changes to a configuration. -/
structure Overlay where
  settings : SettingsOverlay := {}
  operators : ListOverlay := {}
  commands : ListOverlay := {}
  aliases : AliasesOverlay := {}
  deriving DecidableEq, Repr

/-! ## 2. Applying them -/

/-- The settings with those of the overlay in place. -/
def SettingsOverlay.apply (o : SettingsOverlay) (s : Settings) : Settings :=
  { brackets := o.brackets.getD s.brackets
    label := o.label.getD s.label
    logLevel := o.logLevel.getD s.logLevel
    historyFile := o.historyFile.getD s.historyFile }

/-- The list with the items at its end that it does not hold yet, each once. -/
def addMissing : List String → List String → List String
  | base, [] => base
  | base, item :: rest => addMissing (if base.contains item then base else base ++ [item]) rest

/-- The list after the changes. An item that is both removed and added stands at the end. -/
def ListOverlay.apply (o : ListOverlay) (base : List String) : List String :=
  if o.replace then o.added else addMissing (base.filter fun item => !o.removed.contains item) o.added

def AliasesOverlay.apply (o : AliasesOverlay) (base : Dictionary String) : Dictionary String :=
  if o.replace then o.added
  else Dictionary.insertAll o.added.entries (base.filter fun p => !o.removed.contains p.1)

def Overlay.apply (o : Overlay) (c : Config) : Config :=
  { settings := o.settings.apply c.settings
    operators := o.operators.apply c.operators
    commands := o.commands.apply c.commands
    aliases := o.aliases.apply c.aliases }

end LineShell
