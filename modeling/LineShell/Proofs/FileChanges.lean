import LineShell.Proofs.Account

/-!
# What a run does to the files

A file is emptied when the sink of a command is opened, before the command runs, and grows by what
the command writes. Taken together that is one update of one file (`FileUpdate`): the bytes become
its contents, or are added to them.

* `openForWriting_makes`, `Makes.append`: opening a target and writing to it make one update;
* `Filed.invoke`: a command makes its update once it is started, and changes nothing otherwise;
* `run_files`: so the files after a run are those before it, with one update for each command that
  was started and has a file as its sink, in order. What a command writes that goes on for ever is
  left out, but its file has been opened.
-/

namespace LineShell

/-! ## 1. Updates -/

/-- The bytes of the file that stands at a place; none without a file. -/
def Entry.bytes : Option Entry → Bytes
  | some (.file data) => data
  | _ => []

/-- What a command does to the file that its output goes to. -/
structure FileUpdate where
  place : Place
  /-- The bytes are added to what the file holds; otherwise they become its contents. -/
  append : Bool
  bytes : Bytes
  deriving DecidableEq, Repr

namespace FileUpdate

/-- What stands at each place after an update. -/
def apply (files : Place → Option Entry) (u : FileUpdate) : Place → Option Entry := fun place =>
  if place = u.place then
    some (.file (if u.append then Entry.bytes (files place) ++ u.bytes else u.bytes))
  else files place

/-- What stands at each place after updates one after another. -/
def applyAll (files : Place → Option Entry) (us : List FileUpdate) : Place → Option Entry :=
  us.foldl apply files

variable {files : Place → Option Entry}

theorem applyAll_append (us us' : List FileUpdate) :
    applyAll files (us ++ us') = applyAll (applyAll files us) us' := List.foldl_append

/-- **A place that is the target of no update is left as it was.** -/
theorem applyAll_of_not_target {us : List FileUpdate} {place : Place}
    (h : ∀ u ∈ us, u.place ≠ place) : applyAll files us place = files place := by
  induction us generalizing files with
  | nil => rfl
  | cons u us ih =>
    obtain ⟨hu, hus⟩ := List.forall_mem_cons.mp h
    rw [applyAll, List.foldl_cons, ← applyAll, ih hus, apply, if_neg hu.symm]

/-- The tree `t'` is `t` after the update, whose target is not a directory. -/
structure Makes (u : FileUpdate) (t t' : FileTree) : Prop where
  cwd : t'.cwd = t.cwd
  target : t.find? u.place ≠ some .directory
  find : t'.find? = apply t.find? u

namespace Makes

variable {u : FileUpdate} {t t' : FileTree}

/-- No update makes a directory or takes one away. -/
theorem directory_iff (h : u.Makes t t') (place : Place) :
    t'.find? place = some .directory ↔ t.find? place = some .directory := by
  rw [h.find, apply]
  split
  · rename_i hplace
    rw [hplace]
    simp [h.target]
  · exact Iff.rfl

/-- Adding to a file after an update of it makes one update. -/
theorem append {place : Place} {added : Bool} {bytes : Bytes} (h : Makes ⟨place, added, bytes⟩ t t')
    (more : Bytes) : Makes ⟨place, added, bytes ++ more⟩ t (t'.append place more) := by
  obtain ⟨data, hdata, hfile⟩ : ∃ data, t'.find? place = some (.file data) ∧
      data = if added then Entry.bytes (t.find? place) ++ bytes else bytes := by
    rw [h.find, apply, if_pos rfl]
    exact ⟨_, rfl, rfl⟩
  have hroot : place ≠ [] := by
    rintro rfl
    exact h.target FileTree.find?_root
  rw [FileTree.append, hdata]
  refine ⟨h.cwd, h.target, funext fun other => ?_⟩
  rw [FileTree.find?_put hroot, apply, h.find, apply]
  by_cases hother : other = place
  · rw [if_pos hother, if_pos hother, hfile, hother]
    cases added <;> simp
  · rw [if_neg hother, if_neg hother, if_neg hother]

end Makes

/-- Putting a file where no directory stands is an update. -/
theorem makes_put {t : FileTree} {u : FileUpdate} (h : t.find? u.place ≠ some .directory)
    {data : Bytes} (hdata : data = if u.append then Entry.bytes (t.find? u.place) ++ u.bytes
      else u.bytes) : u.Makes t (t.put u.place (.file data)) := by
  have hroot : u.place ≠ [] := by
    intro hroot
    rw [hroot] at h
    exact h FileTree.find?_root
  refine ⟨rfl, h, funext fun other => ?_⟩
  rw [FileTree.find?_put hroot, apply]
  split
  · rename_i hother
    rw [hdata, hother]
  · rfl

/-- Adding nothing to a file that is there is an update that leaves the tree as it is. -/
theorem makes_nothing {t : FileTree} {place : Place} {data : Bytes}
    (h : t.find? place = some (.file data)) : Makes ⟨place, true, []⟩ t t := by
  refine ⟨rfl, by simp [h], funext fun other => ?_⟩
  rw [apply]
  split
  · rename_i hother
    rw [hother, h]
    simp [Entry.bytes]
  · rfl

end FileUpdate

namespace FileTree

/-- The tree `t'` is `t` after updates one after another. They make no directory and take none
away. -/
structure Updated (us : List FileUpdate) (t t' : FileTree) : Prop where
  cwd : t'.cwd = t.cwd
  directory_iff : ∀ place, t'.find? place = some .directory ↔ t.find? place = some .directory
  find : t'.find? = FileUpdate.applyAll t.find? us

namespace Updated

variable {us us' : List FileUpdate} {t t' t'' : FileTree}

theorem refl (t : FileTree) : Updated [] t t := ⟨rfl, fun _ => Iff.rfl, rfl⟩

theorem trans (h : Updated us t t') (h' : Updated us' t' t'') : Updated (us ++ us') t t'' where
  cwd := h'.cwd.trans h.cwd
  directory_iff place := (h'.directory_iff place).trans (h.directory_iff place)
  find := by rw [h'.find, h.find, FileUpdate.applyAll_append]

theorem of_makes {u : FileUpdate} (h : u.Makes t t') : Updated [u] t t' :=
  ⟨h.cwd, h.directory_iff, h.find⟩

/-- A path leads where it led before the updates. -/
theorem locate (h : Updated us t t') {path : List Char} {place : Place}
    (hl : t'.locate path = .ok (place, t'.find? place)) (hne : t'.find? place ≠ some .directory) :
    t.locate path = .ok (place, t.find? place) :=
  locate_of_keeps_of_ne ⟨h.cwd.symm, fun place => (h.directory_iff place).mp⟩ hl hne

/-- **A place that is the target of no update is left as it was.** -/
theorem find?_of_not_target (h : Updated us t t') {place : Place}
    (hplace : ∀ u ∈ us, u.place ≠ place) : t'.find? place = t.find? place := by
  rw [h.find, FileUpdate.applyAll_of_not_target hplace]

end Updated

/-- **Opening a path for writing is an update with no bytes**, of the file that the path leads to. -/
theorem openForWriting_makes {t opened : FileTree} {path : String} {append : Bool} {place : Place}
    (h : t.openForWriting path append = .ok (opened, place)) :
    t.locate path.toList = .ok (place, t.find? place) ∧
      FileUpdate.Makes ⟨place, append, []⟩ t opened := by
  rw [openForWriting] at h
  split at h
  · cases h
  split at h
  · cases h
  split at h
  · cases h
  · cases h
  · rename_i place data hl
    have hne : some (Entry.file data) ≠ some .directory := by simp
    have hfind := find?_of_locate hl hne
    rw [← hfind] at hl
    cases append with
    | true =>
      cases h
      exact ⟨hl, FileUpdate.makes_nothing hfind⟩
    | false =>
      cases h
      exact ⟨hl, FileUpdate.makes_put (by rwa [hfind]) rfl⟩
  · rename_i place hl
    have hfind := find?_of_locate hl (by simp)
    rw [← hfind] at hl
    cases h
    refine ⟨hl, FileUpdate.makes_put (by simp [hfind]) ?_⟩
    cases append <;> simp [hfind, Entry.bytes]

end FileTree

/-! ## 2. The update of a command -/

/-- The output of the command is added to its file. -/
def Node.appends {α : Type} (n : Node α) : Bool :=
  match n.output with
  | .file _ append => append
  | .none => false

/-- The update that a command makes, if its output goes to a file. -/
def Invocation.update? (nodes : List (Node Handle)) (e : Invocation) : Option FileUpdate :=
  match e.sink with
  | .file place => some ⟨place, nodes[e.index]?.any Node.appends, e.written⟩
  | _ => none

/-- The update that is made before a command goes on for ever: its file is opened. -/
def Hang.update? (nodes : List (Node Handle)) (h : Hang) : Option FileUpdate :=
  match h.sink with
  | .file place => some ⟨place, nodes[h.index]?.any Node.appends, []⟩
  | _ => none

/-- The updates that commands make, in the order in which the commands were started. -/
def updates (nodes : List (Node Handle)) (started : List Invocation) : List FileUpdate :=
  started.filterMap (Invocation.update? nodes)

/-- How a command was started, with the files as `files` has them: its input could be opened, and if
its output goes to a file, then to the one that its path led to before the run, which gets what the
command wrote, and the command ran with that file open. -/
structure StartedIn (w : World) (files : FileTree) (n : Node Handle) (e : Invocation) : Prop where
  input : ∀ path, n.input = .file path → ∃ source, files.openForReading path = .ok source
  routed : ∀ path append, n.output = .file path append → ∃ place opened,
    e.sink = .file place ∧ w.files.locate path.toList = .ok (place, w.files.find? place) ∧
      w.files.find? place ≠ some .directory ∧ FileUpdate.Makes ⟨place, append, []⟩ files opened ∧
      n.handle.builtin.run ⟨opened, some place⟩ (.ofSegment n.segment) e.stdin =
        some ⟨e.written, e.ending⟩
  unrouted : n.output = .none → ∀ place, e.sink ≠ .file place

section Commands

variable {nodes : List (Node Handle)} {files opened : FileTree} {n : Node Handle} {e : Invocation}
  {hang : Hang}

/-- **Opening the sink of a command and writing to it make the update of the command**, if it has
one. -/
theorem Opens.updated (h : Opens files n opened e.sink) (hn : nodes[e.index]? = some n) :
    FileTree.Updated (e.update? nodes).toList files (e.filesAfter opened) := by
  rw [Invocation.update?, Invocation.filesAfter, hn]
  generalize e.sink = sink at h
  cases h with
  | @file path append _ place ho h =>
    have hmakes := (FileTree.openForWriting_makes h).2.append e.written
    rw [List.nil_append] at hmakes
    simp only [Option.any_some, Node.appends, ho]
    exact .of_makes hmakes
  | pipe | stdout => exact .refl files

theorem Opens.updated_hang (h : Opens files n opened hang.sink) (hn : nodes[hang.index]? = some n) :
    FileTree.Updated (hang.update? nodes).toList files opened := by
  rw [Hang.update?, hn]
  generalize hang.sink = sink at h
  cases h with
  | file ho h =>
    simp only [Option.any_some, Node.appends, ho]
    exact .of_makes (FileTree.openForWriting_makes h).2
  | pipe | stdout => exact .refl files

end Commands

/-! ## 3. Runs -/

/-- The state of a run, as far as its files go: they are those before the run with the updates of
the commands that were started. -/
structure Filed (nodes : List (Node Handle)) (w : World) (r : Running) : Prop where
  hang : r.hang = none
  updated : FileTree.Updated (updates nodes r.invocations) w.files r.world.files
  started : ∀ past e more, r.invocations = past ++ e :: more → ∃ n files,
    nodes[e.index]? = some n ∧ FileTree.Updated (updates nodes past) w.files files ∧
      StartedIn w files n e

/-- The same for the state of a run in which a command goes on for ever. Its file has been opened. -/
def FiledHang (nodes : List (Node Handle)) (w : World) (r : Running) : Prop :=
  ∃ before h, Filed nodes w before ∧ r.invocations = before.invocations ∧ r.hang = some h ∧
    FileTree.Updated (h.update? nodes).toList before.world.files r.world.files

namespace Filed

variable {nodes : List (Node Handle)} {w : World} {r r' : Running} {n : Node Handle}

theorem start : Filed nodes w { world := w } where
  hang := rfl
  updated := .refl w.files
  started past e more h := by simp at h

theorem of_same (h : Filed nodes w r) (hfiles : r'.world.files = r.world.files)
    (hinvocations : r'.invocations = r.invocations) (hhang : r'.hang = r.hang) :
    Filed nodes w r' where
  hang := hhang.trans h.hang
  updated := by
    rw [hfiles, hinvocations]
    exact h.updated
  started := by
    rw [hinvocations]
    exact h.started

theorem startedIn (h : Filed nodes w r) {e : Invocation} {opened : FileTree} {w' : World}
    (input : ∀ path, n.input = .file path →
      ∃ source, r.world.files.openForReading path = .ok source)
    (opens : Opens r.world.files n opened e.sink) (ran : e.Ran n opened w') :
    StartedIn w r.world.files n e := by
  refine ⟨input, fun path append ho => ?_, fun ho place hsink => ?_⟩
  · obtain ⟨emission, hrun, hdeliver⟩ := ran
    generalize hsink : e.sink = sink at opens hrun hdeliver
    cases opens with
    | pipe ho' | stdout ho' => cases ho.symm.trans ho'
    | @file _ _ _ place ho' hopen =>
      cases ho.symm.trans ho'
      obtain ⟨hl, hmakes⟩ := FileTree.openForWriting_makes hopen
      refine ⟨place, opened, rfl, h.updated.locate hl hmakes.target,
        mt (h.updated.directory_iff place).mpr hmakes.target, hmakes, ?_⟩
      rw [Running.deliver, if_neg (by simp)] at hdeliver
      rwa [hdeliver] at hrun
  · rw [hsink] at opens
    cases opens with
    | file ho' => cases ho.symm.trans ho'

/-- **A command that is started makes its update**, if its output goes to a file. -/
theorem after (h : Filed nodes w r) {e : Invocation} {opened : FileTree}
    (hn : nodes[e.index]? = some n) (hstarted : StartedIn w r.world.files n e)
    (opens : Opens r.world.files n opened e.sink) (hinvocations : r'.invocations = r.invocations)
    (hhang : r'.hang = r.hang) : Filed nodes w (r'.after opened e) where
  hang := by rw [Running.hang_after, hhang, h.hang]
  updated := by
    have hupdates : updates nodes (r.invocations ++ [e]) =
        updates nodes r.invocations ++ (e.update? nodes).toList := by
      rw [updates, List.filterMap_append]
      cases hu : e.update? nodes <;> simp [hu, updates]
    rw [Running.files_after, Running.invocations_after, hinvocations, hupdates]
    exact h.updated.trans (opens.updated hn)
  started := by
    rw [Running.invocations_after, hinvocations]
    intro past e' more hsplit
    rcases List.eq_nil_or_concat more with rfl | ⟨more, last, rfl⟩
    · obtain ⟨rfl, hone⟩ := List.append_inj' hsplit rfl
      cases hone
      exact ⟨n, r.world.files, hn, h.updated, hstarted⟩
    · rw [List.concat_eq_append, ← List.cons_append, ← List.append_assoc] at hsplit
      exact h.started past e' more (List.append_inj' hsplit rfl).1

/-- **Running one command keeps the account of the files**, whether it ends with a code or stops the
line; or it goes on for ever. -/
theorem invoke (h : Filed nodes w r) {k : Nat} (hn : nodes[k]? = some n) (sh : Shell) :
    let out := sh.invoke k n r
    Filed nodes w out.2 ∨ (out.1 = none ∧ FiledHang nodes w out.2) := by
  intro out
  obtain ⟨f, -, hinvoke⟩ | ⟨source, r', hin, hrest⟩ := sh.invoke_cases k n r
  · have same := Running.sameData_stopAt sh n.name r f
    rw [show out = _ from hinvoke]
    exact .inl (h.of_same same.files same.invocations same.hang)
  obtain ⟨hworld, hinvocations, hhang, -⟩ := Running.openInput_ok hin
  obtain ⟨f, -, hinvoke⟩ | ⟨opened, hang, hout, rfl, -, -, hinvoke⟩ |
    ⟨opened, e, hout, rfl, -, ran, hinvoke⟩ := hrest
  · have same := Running.sameData_stopAt sh n.name r' f
    rw [show out = _ from hinvoke]
    exact .inl (h.of_same (same.files.trans (by rw [hworld]))
      (same.invocations.trans hinvocations) (same.hang.trans hhang))
  · rw [hworld] at hout
    rw [show out = _ from hinvoke]
    exact .inr ⟨rfl, r, hang, h, hinvocations, rfl, (opens_of_openSink hout).updated_hang hn⟩
  · have same := Running.sameData_settle sh n.name e.sink e.ending (r'.after opened e)
    rw [hworld] at hout
    have opens := opens_of_openSink hout
    have input : ∀ path, n.input = .file path →
        ∃ source, r.world.files.openForReading path = .ok source := by
      intro path hi
      rw [hi, Running.openInput] at hin
      cases hopen : r.world.files.openForReading path with
      | error cause =>
        rw [hopen] at hin
        cases hin
      | ok source => exact ⟨source, rfl⟩
    rw [show out = _ from hinvoke]
    refine .inl (of_same ?_ same.files same.invocations same.hang)
    exact h.after hn (h.startedIn input opens ran) opens hinvocations hhang

end Filed

/-- The target of an update is the sink of its command. -/
theorem sink_of_mem_updates {nodes : List (Node Handle)} {started : List Invocation} {u : FileUpdate}
    (h : u ∈ updates nodes started) : ∃ e ∈ started, e.sink = .file u.place := by
  obtain ⟨e, he, hu⟩ := List.mem_filterMap.mp h
  refine ⟨e, he, ?_⟩
  rw [Invocation.update?] at hu
  split at hu
  · rename_i place hsink
    cases hu
    exact hsink
  · cases hu

/-- **The files after a run are those before it with the updates of the commands that were started**,
in the order of the chain, one for each whose output goes to a file. That file is the one its path
led to before the run; what the command wrote becomes its contents or is added to them. Any other
place is left as it was. A command is started only if its input can be opened, a skipped one never
is, and none is started after the one at which the line stops, nor that one if a file of it cannot
be opened. A line that makes no chain changes nothing.

In a line with a command that goes on for ever the files are those with the updates of the commands
that have ended, and its own file has been opened. What it writes there is left out. -/
theorem Shell.run_files (sh : Shell) (line : String) (w : World) :
    match sh.chain line with
    | .error e => sh.run line w = some (.error e, w)
    | .ok nodes =>
      let r := (sh.drive nodes w).state
      let started := r.invocations
      match r.hang with
      | some h =>
        sh.run line w = none ∧
          FileTree.Updated (updates nodes started ++ (h.update? nodes).toList) w.files r.world.files ∧
          started.Pairwise (·.index < ·.index) ∧ (∀ e ∈ started, e.index < h.index) ∧
          (∀ past e more, started = past ++ e :: more → ∃ n files, nodes[e.index]? = some n ∧
            FileTree.Updated (updates nodes past) w.files files ∧ StartedIn w files n e)
      | none =>
        ∃ report after, sh.run line w = some (.ok report, after) ∧
          FileTree.Updated (updates nodes started) w.files after.files ∧
          (∀ place, (∀ e ∈ started, e.sink ≠ .file place) →
            after.files.find? place = w.files.find? place) ∧
          started.Pairwise (·.index < ·.index) ∧
          (∀ past e more, started = past ++ e :: more → ∃ n files, nodes[e.index]? = some n ∧
            FileTree.Updated (updates nodes past) w.files files ∧ StartedIn w files n e) ∧
          (∀ i code, report.outcomes[i]? = some (.ran code) → ∃ e ∈ started, e.index = i) ∧
          (∀ e ∈ started, report.outcomes[e.index]? ≠ some .skipped) ∧
          (report.fault ≠ none → ∃ k n f, nodes[k]? = some n ∧
            StopsAt w started after.files k n f ∧ ∀ e ∈ started, e.index ≤ k) := by
  cases hchain : sh.chain line with
  | error e =>
    simp only [run, hchain]
  | ok nodes =>
    obtain ⟨-, cs, -, hcs, hlast⟩ := build_ok_iff_splits.mp hchain
    obtain ⟨_, _, r, hwired, hstarted, -, -, -, hends⟩ :=
      sh.wired_drive hcs.fresh (.of_realizes hcs hlast) w
    have hascending := hwired.wiring.ascending
    rw [← hstarted] at hascending
    obtain ⟨report, codes, k, outcome, hrun, hfault, -, hget, -, hk, acc⟩ :=
      sh.run_account hchain w
    obtain hfiled | ⟨before, hang, hfiled, hinvocations, hhang, hupdated⟩ :=
      @run_keeps_or _ _ sh.invoke nodes _ _ _ hcs.fresh (Filed.start (w := w)) fun _ _ _ hn h =>
        h.invoke hn sh
    · have hnone : (sh.drive nodes w).state.hang = none := hfiled.hang
      rw [Running.result_of_no_hang hnone] at hrun
      simp only [hnone]
      refine ⟨report, _, hrun, hfiled.updated, fun place hplace => ?_, hascending,
        hfiled.started, fun i code hran => ?_, fun e he => ?_, fun hne => ?_⟩
      · refine hfiled.updated.find?_of_not_target fun u hu huplace => ?_
        obtain ⟨e, he, hsink⟩ := sink_of_mem_updates hu
        exact hplace e he (huplace ▸ hsink)
      · obtain ⟨e, he, hindex, -⟩ := acc.started_of_ran hget hran
        exact ⟨e, he, hindex⟩
      · obtain ⟨-, hout⟩ | ⟨-, hout⟩ := acc.outcome_of_started hk hget he <;> rw [hout] <;> simp
      · rw [hfault] at hne
        obtain ⟨-, hnofault, -⟩ | ⟨hn, -, -, hstops, -⟩ | ⟨-, -, -, hnofault, -⟩ := acc.finishes
        · exact absurd hnofault hne
        · refine ⟨k, _, _, hn, hstops, fun e he => ?_⟩
          obtain ⟨hlt, -⟩ | ⟨heq, -⟩ := acc.ended e he
          · exact Nat.le_of_lt hlt
          · exact Nat.le_of_eq heq
        · exact absurd hnofault hne
    · have hsome : (sh.drive nodes w).state.hang = some hang := hhang
      have hsame : (sh.drive nodes w).state.invocations = before.invocations := hinvocations
      have hlater : ∀ e ∈ (sh.drive nodes w).state.invocations, e.index < hang.index := by
        obtain ⟨hnone, -⟩ | ⟨hang', hsome', -, hangs⟩ := hends
        · rw [hsome] at hnone
          cases hnone
        · obtain ⟨later, -⟩ := hangs
          rw [hsome, Option.some.injEq] at hsome'
          rw [hstarted, hsome']
          exact later
      rw [Running.result_of_hang hsome] at hrun
      simp only [hsome]
      refine ⟨hrun, ?_, hascending, hlater, ?_⟩ <;> rw [hsame]
      · exact hfiled.updated.trans hupdated
      · exact hfiled.started

/-- An input that cannot be opened leaves the target of its command as it was, and what the commands
before it wrote stays written. -/
example :
    let w : World := { files := ({} : FileTree).put ["kept"] (.file (Bytes.utf8 "old")) }
    ((Shell.ofConfig {}).run "echo a > f ; echo b >> f && cat < missing > kept" w).map (fun r =>
        (r.2.files.find? ["f"], r.2.files.find? ["kept"])) =
      some (some (.file (Bytes.utf8 "a\nb\n")), w.files.find? ["kept"]) := by
  decide +kernel

end LineShell
