import LineShell.Proofs.Account
import LineShell.Proofs.Course
import Mathlib.Data.List.Forall2

/-!
# Two runs side by side

The same commands run in two states that differ in what cannot matter to them: the one run has come
further in its chain, and its streams have taken something before. `Beside` says so of the states,
`Course.Abreast` of the courses.

* `Node.Alike`: commands that differ at most in how and where they were written;
* `Beside.invoke`: a command gives the same code on both sides and leaves them side by side;
* `Course.Abreast.through`: so does a chain, and what becomes of its commands is the same.

Only the pipes that can still be read have to agree. Pipes that are left over belong to earlier
positions, which no command asks for.
-/

namespace LineShell

/-! ## 1. Commands that are alike -/

/-- Two nodes that stand for the same command with the same routing. Their segments may have been
written differently and elsewhere. -/
structure Node.Alike {α : Type} (n n' : Node α) : Prop where
  handle : n'.handle = n.handle
  texts : n'.segment.texts = n.segment.texts
  input : n'.input = n.input
  output : n'.output = n.output
  operator : n'.operator = n.operator

namespace Node.Alike

variable {α : Type} {n n' : Node α}

theorem name (h : n.Alike n') : n'.name = n.name := by
  rw [Node.name, Node.name, Segment.command?, Segment.command?, h.texts]

theorem feedsPipe (h : n.Alike n') : n'.feedsPipe = n.feedsPipe := by
  rw [Node.feedsPipe, Node.feedsPipe, h.operator]

theorem call (h : n.Alike n') :
    (Call.ofSegment n'.segment).words = (Call.ofSegment n.segment).words := h.texts

theorem ofNode (h : n.Alike n') : NodeReport.ofNode n' = NodeReport.ofNode n := by
  funext o
  rw [NodeReport.ofNode, NodeReport.ofNode, h.name, h.input, h.output, h.operator,
    Segment.normalized, Segment.normalized, h.texts]

instance [DecidableEq α] (n n' : Node α) : Decidable (n.Alike n') :=
  decidable_of_iff (n'.handle = n.handle ∧ n'.segment.texts = n.segment.texts ∧
      n'.input = n.input ∧ n'.output = n.output ∧ n'.operator = n.operator)
    ⟨fun ⟨hh, ht, hi, ho, hop⟩ => ⟨hh, ht, hi, ho, hop⟩,
      fun h => ⟨h.handle, h.texts, h.input, h.output, h.operator⟩⟩

theorem map_eq {β : Type} {f : Node α → β} (hf : ∀ {n n' : Node α}, n.Alike n' → f n' = f n)
    {ns ns' : List (Node α)} (h : List.Forall₂ Node.Alike ns ns') : ns'.map f = ns.map f := by
  induction h with
  | nil => rfl
  | cons hn _ ih => rw [List.map_cons, List.map_cons, hf hn, ih]

/-- Reports do not tell chains apart that are alike. -/
theorem zipWith_ofNode {ns ns' : List (Node α)} (h : List.Forall₂ Node.Alike ns ns')
    (os : List Outcome) :
    List.zipWith NodeReport.ofNode ns' os = List.zipWith NodeReport.ofNode ns os :=
  zipWith_ofNode_congr (map_eq Node.Alike.ofNode h) os

end Node.Alike

/-- A command reads the words of its call and not how they were written. -/
theorem Builtin.run_congr (b : Builtin) (v : View) {call call' : Call}
    (h : call'.words = call.words) (stdin : FileTree.Source) :
    b.run v call' stdin = b.run v call stdin := by
  have hargs : call'.args = call.args := by rw [Call.args, Call.args, h]
  have hflag : call'.hasFlag = call.hasFlag := by
    funext flag
    rw [Call.hasFlag, Call.hasFlag, hargs]
  have hany : call'.hasAnyFlag = call.hasAnyFlag := by
    funext flags
    rw [Call.hasAnyFlag, Call.hasAnyFlag, hargs]
  have hoperands : call'.operands = call.operands := by
    rw [Call.operands, Call.operands, hargs]
  cases b with
  | cat => rw [run, run, hoperands]
  | echo | status => rw [run, run, hargs]
  | fail | succeed => rfl
  | grep => rw [run, run, searchLines, searchLines, hoperands, hflag]
  | wc => rw [run, run, countInput, countInput, hflag, hany]

/-- Once its fault is told, a command that faulted ends like one with the code -1. -/
theorem Shell.settle_told (sh : Shell) (name : String) (sink : Sink) (f : CommandFault)
    {r : Running} {w : World} (h : Running.reportFault sh.label name r.world f = .ok w) :
    sh.settle name sink (.error f) r = sh.settle name sink (.ok (-1)) { r with world := w } := by
  simp only [settle, h]

/-- A fault that cannot be told stops the line. -/
theorem Shell.settle_untold (sh : Shell) (name : String) (sink : Sink) (f : CommandFault)
    {r : Running} {e : IoError}
    (h : Running.reportFault sh.label name r.world f = .error e) :
    sh.settle name sink (.error f) r = (none, sh.stopAt name
      { r with world := r.world.warn ("'" ++ name ++ "' failed: " ++ f.message) } (.stream e)) := by
  simp only [settle, h]

/-! ## 2. States side by side -/

/-- The second run is `d` positions further, and its streams had taken `shown` and `said` before.
From position `b` on the pipes of both hold the same. -/
structure Beside (d b : Nat) (shown : Bytes) (said : List Notice) (r r' : Running) : Prop where
  files : r'.world.files = r.world.files
  mode : r'.world.stdout.mode = r.world.stdout.mode
  written : r'.world.stdout.written = shown ++ r.world.stdout.written
  stderr : r'.world.stderrMode = r.world.stderrMode
  notices : r'.world.notices = said ++ r.world.notices
  pipes : ∀ j, b ≤ j → (r'.pipes.lookup (j + d)).getD [] = (r.pipes.lookup j).getD []
  fault : r'.fault = r.fault
  hang : r'.hang.isSome = r.hang.isSome

namespace Beside

variable {d b : Nat} {shown : Bytes} {said : List Notice} {r r' : Running}

theorem speaks (h : Beside d b shown said r r') (more : List Notice) :
    Beside d b shown said
      { r with world := { r.world with notices := r.world.notices ++ more } }
      { r' with world := { r'.world with notices := r'.world.notices ++ more } } where
  files := h.files
  mode := h.mode
  written := h.written
  stderr := h.stderr
  notices := by rw [h.notices, List.append_assoc]
  pipes := h.pipes
  fault := h.fault
  hang := h.hang

theorem faults (h : Beside d b shown said r r') (text : String) :
    Beside d b shown said { r with fault := some text } { r' with fault := some text } :=
  ⟨h.files, h.mode, h.written, h.stderr, h.notices, h.pipes, rfl, h.hang⟩

theorem opens (h : Beside d b shown said r r') (files : FileTree) :
    Beside d b shown said { r with world := { r.world with files := files } }
      { r' with world := { r'.world with files := files } } :=
  ⟨rfl, h.mode, h.written, h.stderr, h.notices, h.pipes, h.fault, h.hang⟩

/-- The record of the commands that were started plays no part. -/
theorem records (h : Beside d b shown said r r') (es es' : List Invocation) :
    Beside d b shown said { r with invocations := es } { r' with invocations := es' } :=
  ⟨h.files, h.mode, h.written, h.stderr, h.notices, h.pipes, h.fault, h.hang⟩

/-- On both sides a command goes on for ever. -/
theorem hangs (h : Beside d b shown said r r') (hang hang' : Hang) :
    Beside d b shown said { r with hang := some hang } { r' with hang := some hang' } :=
  ⟨h.files, h.mode, h.written, h.stderr, h.notices, h.pipes, h.fault, rfl⟩

/-- Where nothing was taken before, both worlds are the same. -/
theorem world_eq (h : Beside d b [] [] r r') : r'.world = r.world := by
  show World.mk r'.world.files ⟨r'.world.stdout.mode, r'.world.stdout.written⟩
    r'.world.stderrMode r'.world.notices = r.world
  rw [h.files, h.mode, h.written, h.stderr, h.notices]
  rfl

/-! ## 3. One command on both sides -/

theorem lookup_drainPipe_self (r : Running) (j : Nat) : (r.drainPipe j).lookup j = none := by
  rw [Running.drainPipe]
  induction r.pipes with
  | nil => rfl
  | cons p ps ih =>
    by_cases hp : p.1 = j
    · rw [List.filter_cons_of_neg (by simp [hp]), ih]
    · have hj : (j == p.1) = false := beq_false_of_ne fun e => hp e.symm
      rw [List.filter_cons_of_pos (by simp [hp]), List.lookup_cons, hj, ih]

/-- A pipe that is taken out on both sides. -/
theorem drains (h : Beside d b shown said r r') (i : Nat) :
    Beside d b shown said { r with pipes := r.drainPipe i }
      { r' with pipes := r'.drainPipe (i + d) } := by
  refine ⟨h.files, h.mode, h.written, h.stderr, h.notices, fun j hj => ?_, h.fault, h.hang⟩
  by_cases hji : j = i
  · rw [hji, lookup_drainPipe_self, lookup_drainPipe_self]
  · rw [Running.lookup_drainPipe _ hji, Running.lookup_drainPipe _ (by omega)]
    exact h.pipes j hj

/-- Both sides open the same input, if the pipe that is read is one of those that agree. -/
theorem openInput (h : Beside d b shown said r r') {i : Nat} {input : Input}
    (hpipe : input = .piped → b < i) :
    (∃ f, r.openInput i input = .error f ∧ r'.openInput (i + d) input = .error f) ∨
      ∃ source q q', r.openInput i input = .ok (source, q) ∧
        r'.openInput (i + d) input = .ok (source, q') ∧ Beside d b shown said q q' := by
  cases input with
  | none => exact .inr ⟨_, r, r', rfl, rfl, h⟩
  | piped =>
    obtain ⟨j, rfl⟩ : ∃ j, i = j + 1 := ⟨i - 1, by have := hpipe rfl; omega⟩
    have hj : b ≤ j := Nat.le_of_lt_succ (hpipe rfl)
    have hnext : j + 1 + d = (j + d) + 1 := by omega
    refine .inr ⟨_, _, _, rfl, ?_, h.drains j⟩
    rw [hnext, Running.openInput, Running.takePipe, h.pipes j hj]
    rfl
  | file path =>
    rw [Running.openInput, Running.openInput, h.files]
    cases r.world.files.openForReading path with
    | error e => exact .inl ⟨_, rfl, rfl⟩
    | ok source => exact .inr ⟨source, r, r', rfl, rfl, h⟩

theorem collect (h : Beside d b shown said r r') (i : Nat) (sink : Sink) (output : Bytes) :
    Beside d b shown said (r.collect i sink output) (r'.collect (i + d) sink output) := by
  cases sink with
  | stdout =>
    refine ⟨h.files, h.mode, ?_, h.stderr, h.notices, h.pipes, h.fault, h.hang⟩
    simp only [Running.collect, Stream.add, h.written, List.append_assoc]
  | file place =>
    refine ⟨?_, h.mode, h.written, h.stderr, h.notices, h.pipes, h.fault, h.hang⟩
    simp only [Running.collect, h.files]
  | pipe =>
    refine ⟨h.files, h.mode, h.written, h.stderr, h.notices, fun j hj => ?_, h.fault, h.hang⟩
    have hdrained := (h.drains i).pipes j hj
    simp only [Running.collect, List.lookup_cons]
    by_cases hji : j = i
    · simp [hji]
    · have hji' : (j == i) = false := beq_false_of_ne hji
      have hjid : (j + d == i + d) = false := beq_false_of_ne (by omega)
      rw [hji', hjid]
      exact hdrained

theorem stopAt (h : Beside d b shown said r r') (sh : Shell) (name : String) (f : RoutingFault) :
    Beside d b shown said (sh.stopAt name r f) (sh.stopAt name r' f) := by
  let text := sh.faultText name f
  have hwarned := h.speaks [.warning text]
  by_cases hclosed : r.world.stderrMode = .closed
  · have hclosed' : r'.world.stderrMode = .closed := h.stderr.trans hclosed
    have hsay := @Running.say_of_closed (r.world.warn text) hclosed text
    have hsay' := @Running.say_of_closed (r'.world.warn text) hclosed' text
    have hboth := (hwarned.speaks
      [.warning ("cannot report fault on stderr: " ++ IoError.brokenPipe.message)]).faults text
    simp only [Shell.stopAt]
    simp only [text, Shell.faultText] at hsay hsay' hboth
    rw [hsay, hsay']
    exact hboth
  · have hopen' : ¬ r'.world.stderrMode = .closed := fun e => hclosed (h.stderr.symm.trans e)
    have hsay := @Running.say_of_open (r.world.warn text) hclosed text
    have hsay' := @Running.say_of_open (r'.world.warn text) hopen' text
    have hboth := (hwarned.speaks [.text (text ++ "\n")]).faults text
    simp only [Shell.stopAt]
    simp only [text, Shell.faultText] at hsay hsay' hboth
    rw [hsay, hsay']
    exact hboth

theorem flush_congr (h : Beside d b shown said r r') (sink : Sink) :
    Running.flush r'.world sink = Running.flush r.world sink := by
  cases sink <;> simp only [Running.flush, h.mode]

/-- Flushing the sink ends a command on both sides, or stops both lines. -/
theorem settle_ok (h : Beside d b shown said r r') (sh : Shell) (name : String) (sink : Sink)
    (code : ExitCode) :
    (sh.settle name sink (.ok code) r').1 = (sh.settle name sink (.ok code) r).1 ∧
      Beside d b shown said (sh.settle name sink (.ok code) r).2
        (sh.settle name sink (.ok code) r').2 := by
  simp only [Shell.settle, h.flush_congr sink]
  cases Running.flush r.world sink with
  | ok u => exact ⟨rfl, h⟩
  | error e => exact ⟨rfl, h.stopAt sh name _⟩

/-- Both sides end a command in the same way. -/
theorem settle (h : Beside d b shown said r r') (sh : Shell) (name : String) (sink : Sink)
    (ending : Except CommandFault ExitCode) :
    (sh.settle name sink ending r').1 = (sh.settle name sink ending r).1 ∧
      Beside d b shown said (sh.settle name sink ending r).2
        (sh.settle name sink ending r').2 := by
  cases ending with
  | ok code => exact h.settle_ok sh name sink code
  | error f =>
    let warning := "'" ++ name ++ "' failed: " ++ f.message
    let line := sh.label ++ ": " ++ name ++ ": " ++ f.message
    have hwarned := h.speaks [.warning warning]
    by_cases hclosed : r.world.stderrMode = .closed
    · have hclosed' : r'.world.stderrMode = .closed := h.stderr.trans hclosed
      rw [sh.settle_untold name sink f (@Running.say_of_closed (r.world.warn warning) hclosed
          line), sh.settle_untold name sink f (@Running.say_of_closed (r'.world.warn warning)
          hclosed' line)]
      exact ⟨rfl, hwarned.stopAt sh name _⟩
    · have hopen' : ¬ r'.world.stderrMode = .closed := fun e => hclosed (h.stderr.symm.trans e)
      have htold := hwarned.speaks [.text (line ++ "\n")]
      rw [sh.settle_told name sink f (@Running.say_of_open (r.world.warn warning) hclosed line),
        sh.settle_told name sink f (@Running.say_of_open (r'.world.warn warning) hopen' line)]
      exact htold.settle_ok sh name sink (-1)

/-- **A command gives the same code on both sides and leaves them side by side.** -/
theorem invoke (h : Beside d b shown said r r') {n n' : Node Handle} (alike : n.Alike n') {i : Nat}
    (hpipe : n.input = .piped → b < i) (sh : Shell) :
    (sh.invoke (i + d) n' r').1 = (sh.invoke i n r).1 ∧
      Beside d b shown said (sh.invoke i n r).2 (sh.invoke (i + d) n' r').2 := by
  rw [Shell.invoke, Shell.invoke, alike.input, alike.name, alike.output, alike.feedsPipe,
    alike.handle]
  obtain ⟨f, hin, hin'⟩ | ⟨source, q, q', hin, hin', hq⟩ := h.openInput hpipe
  · rw [hin, hin']
    exact ⟨rfl, h.stopAt sh n.name f⟩
  simp only [hin, hin', hq.files]
  cases hout : Running.openSink q.world.files n.feedsPipe n.output with
  | error f => exact ⟨rfl, hq.stopAt sh n.name f⟩
  | ok opening =>
    obtain ⟨files, sink⟩ := opening
    simp only
    rw [Builtin.run_congr _ ⟨files, sink.place?⟩ alike.call]
    have hopened := hq.opens files
    cases n.handle.builtin.run ⟨files, sink.place?⟩ (.ofSegment n.segment)
        (Running.reread ⟨files, sink.place?⟩ source n.input) with
    | none => exact ⟨rfl, hopened.hangs _ _⟩
    | some e =>
      simp only [@Running.deliver_congr { q.world with files := files }
        { q'.world with files := files } hq.mode]
      exact ((hopened.records _ _).collect i sink _).settle sh n.name sink _

end Beside

/-! ## 4. Courses side by side -/

/-- Two courses that have come through the same commands since their outcomes were `before` and
`before'`. The gates may differ as long as no command was looked at and both are open. -/
structure Course.Abreast (d b : Nat) (shown : Bytes) (said : List Notice)
    (before before' : List Outcome) (c c' : Course Running) : Prop where
  ahead : before'.length = before.length + d
  state : Beside d b shown said c.state c'.state
  stopped : c'.stopped = c.stopped
  outcomes : ∃ os, c.outcomes = before ++ os ∧ c'.outcomes = before' ++ os ∧
    (c.stopped = false → (c'.gate = c.gate ∧ c'.last = c.last) ∨
      (os = [] ∧ gateOpen c.gate c.last = true ∧ gateOpen c'.gate c'.last = true))

namespace Course.Abreast

variable {d b : Nat} {shown : Bytes} {said : List Notice} {before before' : List Outcome}
  {c c' : Course Running}

theorem length_outcomes (h : Abreast d b shown said before before' c c') :
    c'.outcomes.length = c.outcomes.length + d := by
  obtain ⟨os, ho, ho', -⟩ := h.outcomes
  rw [ho, ho', List.length_append, List.length_append, h.ahead]
  omega

theorem gate (h : Abreast d b shown said before before' c c') (hgo : c.stopped = false) :
    gateOpen c'.gate c'.last = gateOpen c.gate c.last := by
  obtain ⟨os, -, -, hgates⟩ := h.outcomes
  obtain ⟨hgate, hlast⟩ | ⟨-, hopen, hopen'⟩ := hgates hgo
  · rw [hgate, hlast]
  · rw [hopen, hopen']

/-- Once a command was looked at, both carry the same code. -/
theorem last (h : Abreast d b shown said before before' c c') (hgo : c.stopped = false)
    (hlen : before.length < c.outcomes.length) : c'.last = c.last := by
  obtain ⟨os, ho, -, hgates⟩ := h.outcomes
  obtain ⟨-, hlast⟩ | ⟨rfl, -⟩ := hgates hgo
  · exact hlast
  · rw [ho, List.append_nil] at hlen
    exact absurd hlen (Nat.lt_irrefl _)

/-- **The same becomes of a command on both sides.** -/
theorem step (h : Abreast d b shown said before before' c c') {n n' : Node Handle}
    (alike : n.Alike n') (hpipe : n.input = .piped → b < c.outcomes.length) (sh : Shell) :
    Abreast d b shown said before before' (c.step sh.invoke n) (c'.step sh.invoke n') := by
  obtain ⟨os, ho, ho', hgates⟩ := h.outcomes
  have more : ∀ o, c.outcomes ++ [o] = before ++ (os ++ [o]) ∧
      c'.outcomes ++ [o] = before' ++ (os ++ [o]) := by
    intro o
    rw [ho, ho', List.append_assoc, List.append_assoc]
    exact ⟨rfl, rfl⟩
  obtain ⟨hcode, hbeside⟩ := h.state.invoke alike hpipe sh
  rw [← h.length_outcomes] at hcode hbeside
  obtain ⟨hs, hstep⟩ | ⟨hgo, hclosed, hstep⟩ |
    ⟨hgo, hopen, ⟨code, s, ha, hstep⟩ | ⟨s, ha, hstep⟩⟩ := step_cases sh.invoke c n
  · rw [hstep, step_of_stopped (h.stopped.trans hs)]
    refine ⟨h.ahead, h.state, h.stopped, os ++ [.notRun], (more _).1, (more _).2, fun hgo => ?_⟩
    rw [hs] at hgo
    cases hgo
  · rw [hstep, step_of_closed (h.stopped.trans hgo) ((h.gate hgo).trans hclosed)]
    refine ⟨h.ahead, h.state, h.stopped, os ++ [.skipped], (more _).1, (more _).2, fun _ => .inl ?_⟩
    obtain ⟨-, hlast⟩ | ⟨-, hopen, -⟩ := hgates hgo
    · exact ⟨alike.operator, hlast⟩
    · rw [hclosed] at hopen
      cases hopen
  · rw [ha] at hcode hbeside
    have ha' : sh.invoke c'.outcomes.length n' c'.state =
        (some code, (sh.invoke c'.outcomes.length n' c'.state).2) := Prod.ext hcode rfl
    rw [hstep, step_of_ran (h.stopped.trans hgo) ((h.gate hgo).trans hopen) ha']
    exact ⟨h.ahead, hbeside, h.stopped, os ++ [.ran code], (more _).1, (more _).2,
      fun _ => .inl ⟨alike.operator, rfl⟩⟩
  · rw [ha] at hcode hbeside
    have ha' : sh.invoke c'.outcomes.length n' c'.state =
        (none, (sh.invoke c'.outcomes.length n' c'.state).2) := Prod.ext hcode rfl
    rw [hstep, step_of_stop (h.stopped.trans hgo) ((h.gate hgo).trans hopen) ha']
    refine ⟨h.ahead, hbeside, rfl, os ++ [.notRun], (more _).1, (more _).2, fun hgo => ?_⟩
    cases hgo

/-- **The same becomes of a chain on both sides**, if its first command does not ask for a pipe that
may differ. -/
theorem through {ns ns' : List (Node Handle)} (alike : List.Forall₂ Node.Alike ns ns')
    (sh : Shell) : ∀ {c c' : Course Running}, Abreast d b shown said before before' c c' →
      b ≤ c.outcomes.length →
      (∀ n ∈ ns.head?, n.input = .piped → b < c.outcomes.length) →
      Abreast d b shown said before before' (c.through sh.invoke ns) (c'.through sh.invoke ns') := by
  induction alike with
  | nil => exact fun h _ _ => h
  | @cons n n' ns ns' hn _ ih =>
    intro c c' h hb hhead
    have hlen := @length_outcomes_step _ _ sh.invoke c n
    refine ih (h.step hn (hhead n rfl) sh) (by omega) fun m _ _ => by omega

end Course.Abreast
end LineShell
