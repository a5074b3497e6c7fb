import LineShell.Proofs.Wiring

/-!
# What a report says

A report has one outcome for each command of the chain. What it may say is told here without the
schedule: from left to right a command is due (`Due`) if it is the first one, or if the operator
before it opens its gate on the code of the nearest command before it that is reported to have run
(`NearestRan`).

A line stops at a command whose file cannot be opened, and that command is never started. It also
stops at a command that was started and whose ending cannot be completed (`Invocation.Halts`): its
fault cannot be told, or what it wrote cannot be flushed. A line with a command that goes on for ever
has no report.

* `Shell.invoke_ends`: running one command comes to one of these, or gives the code of the command;
* `Accounted.of_reaches`: so at every moment of a run the codes are those of the commands started;
* `Shell.run_report`: the outcomes up to the fault are those of the evaluation from left to right,
  and from the fault on nothing is reported to have run or to be skipped;
* `Shell.run_started`: a command that was started is reported with its code, unless the line stopped
  at it.
-/

namespace LineShell

/-! ## 1. How a command that was started ends -/

namespace Invocation

/-- The code that a command counts as: its own, or -1 if it faulted. -/
def code (e : Invocation) : ExitCode :=
  match e.ending with
  | .ok code => code
  | .error _ => -1

def Faulted (e : Invocation) : Prop := ∃ f, e.ending = .error f

/-- The line stops at the command although it was started: it faulted and the message stream does
not take the report, or its output went to a stream that cannot be flushed. -/
def Halts (e : Invocation) (w : World) : Prop :=
  (e.Faulted ∧ w.stderrMode = .closed) ∨ (e.sink = .stdout ∧ w.stdout.mode = .failingFlush)

theorem halts_congr {e : Invocation} {w w' : World} (ho : w'.stdout.mode = w.stdout.mode)
    (he : w'.stderrMode = w.stderrMode) : e.Halts w' ↔ e.Halts w := by
  rw [Halts, Halts, ho, he]

theorem code_of_faulted {e : Invocation} (h : e.Faulted) : e.code = -1 := by
  obtain ⟨f, hf⟩ := h
  rw [code, hf]

end Invocation

/-- The text of the fault that stops a line at a command. -/
def Shell.faultText (sh : Shell) (name : String) (f : RoutingFault) : String :=
  sh.label ++ ": " ++ name ++ ": " ++ f.message

/-- A file that the command names cannot be opened. -/
inductive CannotOpen {α : Type} (files : FileTree) (n : Node α) : RoutingFault → Prop
  | source {path : String} {cause : IoError} (hi : n.input = .file path)
      (h : files.openForReading path = .error cause) : CannotOpen files n (.cannotOpen path cause)
  | sink {path : String} {append : Bool} {cause : IoError} (ho : n.output = .file path append)
      (h : files.openForWriting path append = .error cause) :
      CannotOpen files n (.cannotOpen path cause)

/-- Why a line stops at the command at position `k`; `started` are the commands that were started,
and `files` the files that it leaves. -/
inductive StopsAt (w : World) (started : List Invocation) (files : FileTree) (k : Nat)
    (n : Node Handle) : RoutingFault → Prop
  /-- A file cannot be opened, and the command is not started. -/
  | unopened {f : RoutingFault} (h : CannotOpen files n f) (hs : ∀ e ∈ started, e.index ≠ k) :
      StopsAt w started files k n f
  /-- The command was started, and a stream fails at its end. -/
  | halted {e : Invocation} (he : e ∈ started) (hk : e.index = k) (h : e.Halts w) :
      StopsAt w started files k n (.stream .brokenPipe)

namespace Running

theorem say_of_open {w : World} (h : w.stderrMode ≠ .closed) (line : String) :
    w.say line = .ok (w.tell line) := by
  simp [World.say, h]

theorem say_of_closed {w : World} (h : w.stderrMode = .closed) (line : String) :
    w.say line = .error .brokenPipe := by
  simp [World.say, h]

/-- Flushing fails on the output stream alone. -/
theorem flush_cases (w : World) (sink : Sink) :
    (¬ (sink = .stdout ∧ w.stdout.mode = .failingFlush) ∧ flush w sink = .ok ()) ∨
      ((sink = .stdout ∧ w.stdout.mode = .failingFlush) ∧ flush w sink = .error .brokenPipe) := by
  cases sink with
  | file place | pipe => exact .inl ⟨by simp, rfl⟩
  | stdout =>
    by_cases h : w.stdout.mode = .failingFlush
    · exact .inr ⟨⟨rfl, h⟩, by simp [flush, h]⟩
    · exact .inl ⟨fun e => h e.2, by simp [flush, h]⟩

variable (r : Running) (opened : FileTree) (e : Invocation)

theorem stderrMode_after : (r.after opened e).world.stderrMode = r.world.stderrMode := by
  obtain ⟨index, stdin, sink, written, ending⟩ := e
  cases sink <;> rfl

theorem fault_after : (r.after opened e).fault = r.fault := by
  obtain ⟨index, stdin, sink, written, ending⟩ := e
  cases sink <;> rfl

theorem fault_openInput {r r' : Running} {i : Nat} {input : Input} {source : FileTree.Source}
    (h : r.openInput i input = .ok (source, r')) : r'.fault = r.fault := by
  cases input with
  | none =>
    cases h
    rfl
  | piped =>
    cases h
    cases i <;> rfl
  | file path =>
    rw [openInput] at h
    cases hopen : r.world.files.openForReading path <;> rw [hopen] at h <;> cases h
    rfl

/-- An input that cannot be opened is a file. -/
theorem cannotOpen_of_openInput {r : Running} {i : Nat} {n : Node Handle} {f : RoutingFault}
    (h : r.openInput i n.input = .error f) : CannotOpen r.world.files n f := by
  cases hi : n.input with
  | none | piped =>
    rw [hi] at h
    cases h
  | file path =>
    rw [hi, openInput] at h
    cases hopen : r.world.files.openForReading path <;> rw [hopen] at h <;> cases h
    exact .source hi hopen

/-- A sink that cannot be opened is a file. -/
theorem cannotOpen_of_openSink {files : FileTree} {n : Node Handle} {f : RoutingFault}
    (h : openSink files n.feedsPipe n.output = .error f) : CannotOpen files n f := by
  cases ho : n.output with
  | none =>
    rw [ho] at h
    cases h
  | file path append =>
    rw [ho, openSink] at h
    cases hopen : files.openForWriting path append <;> rw [hopen] at h <;> cases h
    exact .sink ho hopen

end Running

namespace Shell

theorem stderrMode_stopAt (sh : Shell) (name : String) (r : Running) (f : RoutingFault) :
    (sh.stopAt name r f).world.stderrMode = r.world.stderrMode := by
  simp only [stopAt]
  split
  · rename_i h
    rw [Running.say_ok h]
    rfl
  · rfl

/-- **Ending a command gives its code, unless the line stops at it.** -/
theorem settle_ends (sh : Shell) (name : String) (e : Invocation) (r : Running) :
    let out := sh.settle name e.sink e.ending r
    out.2.world.stderrMode = r.world.stderrMode ∧
      ((¬ e.Halts r.world ∧ out.1 = some e.code ∧ out.2.fault = r.fault) ∨
        (e.Halts r.world ∧ out.1 = none ∧
          out.2.fault = some (sh.faultText name (.stream .brokenPipe)))) := by
  intro out
  cases hending : e.ending with
  | ok code =>
    have hcode : e.code = code := by rw [Invocation.code, hending]
    have hsound : ¬ e.Faulted := by
      rintro ⟨f, hf⟩
      rw [hending] at hf
      cases hf
    obtain ⟨hok, hflush⟩ | ⟨hbad, hflush⟩ := Running.flush_cases r.world e.sink
    · have hout : out = (some code, r) := by
        simp only [out, settle, hending, hflush]
      rw [hout, hcode]
      exact ⟨rfl, .inl ⟨fun h => h.elim (fun h => hsound h.1) hok, rfl, rfl⟩⟩
    · have hout : out = (none, sh.stopAt name r (.stream .brokenPipe)) := by
        simp only [out, settle, hending, hflush]
      rw [hout]
      exact ⟨sh.stderrMode_stopAt name r _, .inr ⟨.inr hbad, rfl, rfl⟩⟩
  | error f =>
    have hcode : e.code = -1 := e.code_of_faulted ⟨f, hending⟩
    let w := r.world.warn ("'" ++ name ++ "' failed: " ++ f.message)
    let line := sh.label ++ ": " ++ name ++ ": " ++ f.message
    by_cases hclosed : w.stderrMode = .closed
    · have hreport : Running.reportFault sh.label name r.world f = .error .brokenPipe :=
        Running.say_of_closed hclosed line
      have hout : out = (none, sh.stopAt name { r with world := w } (.stream .brokenPipe)) := by
        simp only [out, settle, hending, hreport]
        rfl
      rw [hout]
      exact ⟨sh.stderrMode_stopAt name _ _, .inr ⟨.inl ⟨⟨f, hending⟩, hclosed⟩, rfl, rfl⟩⟩
    · -- the fault is told, and the command counts as one that ended with -1
      have hreport : Running.reportFault sh.label name r.world f = .ok (w.tell line) :=
        Running.say_of_open hclosed line
      obtain ⟨hok, hflush⟩ | ⟨hbad, hflush⟩ := Running.flush_cases (w.tell line) e.sink
      · have hout : out = (some (-1), { r with world := w.tell line }) := by
          simp only [out, settle, hending, hreport, hflush]
        rw [hout, hcode]
        exact ⟨rfl, .inl ⟨fun h => h.elim (fun h => hclosed h.2) hok, rfl, rfl⟩⟩
      · have hout : out = (none, sh.stopAt name { r with world := w.tell line }
            (.stream .brokenPipe)) := by
          simp only [out, settle, hending, hreport, hflush]
        rw [hout]
        exact ⟨sh.stderrMode_stopAt name _ _, .inr ⟨.inr hbad, rfl, rfl⟩⟩

/-- **What running a command comes to.** One of its files cannot be opened and it is not started; or
it is started, and then it goes on for ever, gives its code, or the line stops at it. -/
theorem invoke_ends (sh : Shell) (k : Nat) (n : Node Handle) (r : Running) :
    let out := sh.invoke k n r
    out.2.world.stdout.mode = r.world.stdout.mode ∧
      out.2.world.stderrMode = r.world.stderrMode ∧
      ((∃ f, CannotOpen out.2.world.files n f ∧ out.1 = none ∧
          out.2.invocations = r.invocations ∧ out.2.fault = some (sh.faultText n.name f) ∧
          out.2.hang = r.hang) ∨
        (∃ h, h.index = k ∧ out.1 = none ∧ out.2.invocations = r.invocations ∧
          out.2.fault = r.fault ∧ out.2.hang = some h) ∨
        ∃ e, e.index = k ∧ out.2.invocations = r.invocations ++ [e] ∧ out.2.hang = r.hang ∧
          ((¬ e.Halts r.world ∧ out.1 = some e.code ∧ out.2.fault = r.fault) ∨
            (e.Halts r.world ∧ out.1 = none ∧
              out.2.fault = some (sh.faultText n.name (.stream .brokenPipe))))) := by
  intro out
  -- a file that cannot be opened leaves everything but the messages as it was
  have unopened : ∀ {r' f}, r'.world = r.world → r'.invocations = r.invocations →
      r'.hang = r.hang → CannotOpen r'.world.files n f → out = (none, sh.stopAt n.name r' f) →
      out.2.world.stdout.mode = r.world.stdout.mode ∧
        out.2.world.stderrMode = r.world.stderrMode ∧
        CannotOpen out.2.world.files n f ∧ out.1 = none ∧ out.2.invocations = r.invocations ∧
        out.2.fault = some (sh.faultText n.name f) ∧ out.2.hang = r.hang := by
    intro r' f hworld hinvocations hhang hcannot hout
    have same := Running.sameData_stopAt sh n.name r' f
    rw [hout]
    refine ⟨?_, ?_, ?_, rfl, ?_, rfl, ?_⟩
    · rw [same.stdout, hworld]
    · rw [stderrMode_stopAt, hworld]
    · rw [same.files]
      exact hcannot
    · rw [same.invocations, hinvocations]
    · rw [same.hang, hhang]
  obtain ⟨f, hin, hout⟩ | ⟨source, r', hin, hrest⟩ := sh.invoke_cases k n r
  · obtain ⟨ho, he, hends⟩ := unopened rfl rfl rfl (Running.cannotOpen_of_openInput hin) hout
    exact ⟨ho, he, .inl ⟨f, hends⟩⟩
  obtain ⟨hworld, hinvocations, hhang, -⟩ := Running.openInput_ok hin
  obtain ⟨f, hsink, hout⟩ | ⟨opened, h, -, hk, -, -, hout⟩ | ⟨opened, e, -, hk, -, -, hout⟩ := hrest
  · obtain ⟨ho, he, hends⟩ :=
      unopened hworld hinvocations hhang (Running.cannotOpen_of_openSink hsink) hout
    exact ⟨ho, he, .inl ⟨f, hends⟩⟩
  · have hout : out = (none, r'.hanging opened h) := hout
    rw [hout]
    refine ⟨by rw [Running.hanging, hworld], by rw [Running.hanging, hworld],
      .inr (.inl ⟨h, hk, rfl, hinvocations, ?_, rfl⟩)⟩
    show r'.fault = r.fault
    exact Running.fault_openInput hin
  · have same := Running.sameData_settle sh n.name e.sink e.ending (r'.after opened e)
    obtain ⟨hstderr, hends⟩ := sh.settle_ends n.name e (r'.after opened e)
    have hmode : (r'.after opened e).world.stdout.mode = r.world.stdout.mode := by
      rw [Running.stdout_after, hworld]
      rfl
    have hmode' : (r'.after opened e).world.stderrMode = r.world.stderrMode := by
      rw [Running.stderrMode_after, hworld]
    rw [Invocation.halts_congr hmode hmode', Running.fault_after, Running.fault_openInput hin]
      at hends
    have hout : out = sh.settle n.name e.sink e.ending (r'.after opened e) := hout
    rw [hout]
    refine ⟨?_, hstderr.trans hmode', .inr (.inr ⟨e, hk, ?_, ?_, hends⟩)⟩
    · rw [same.stdout, hmode]
    · rw [same.invocations, Running.invocations_after, hinvocations]
    · rw [same.hang, Running.hang_after, hhang]

end Shell

/-! ## 2. The account of a run -/

/-- The state of a run at the moment before position `k`, as far as the report goes: the commands that
ran are the ones that were started, with their codes, no fault is set and none of them goes on. -/
structure Accounted (nodes : List (Node Handle)) (w : World) (codes : Nat → ExitCode) (k : Nat)
    (r : Running) : Prop where
  stdout : r.world.stdout.mode = w.stdout.mode
  stderr : r.world.stderrMode = w.stderrMode
  fault : r.fault = none
  hang : r.hang = none
  before : ∀ e ∈ r.invocations, e.index < k
  runs : ∀ e ∈ r.invocations, runsAt nodes codes e.index = true
  ended : ∀ e ∈ r.invocations, ¬ e.Halts w ∧ codes e.index = e.code
  started : ∀ i, i < k → runsAt nodes codes i = true → ∃ e ∈ r.invocations, e.index = i

/-- Every state that a run reaches is accounted for. -/
theorem Accounted.of_reaches {sh : Shell} {nodes : List (Node Handle)} {w : World}
    {codes : Nat → ExitCode} {k : Nat} {r : Running}
    (h : Reaches sh.invoke nodes codes { world := w } k r) : Accounted nodes w codes k r := by
  have started := h.started
  induction h with
  | start => exact ⟨rfl, rfl, rfl, rfl, by simp, by simp, by simp, started⟩
  | @skip k r h _ _ ih =>
    have acc := ih h.started
    exact ⟨acc.stdout, acc.stderr, acc.fault, acc.hang, fun e he => Nat.lt_succ_of_lt (acc.before e he),
      acc.runs, acc.ended, started⟩
  | @run k r r' n h hr _ ha ih =>
    have acc := ih h.started
    obtain ⟨ho, he, hcases⟩ := sh.invoke_ends k n r
    rw [ha] at ho he hcases
    obtain ⟨f, -, hnone, -⟩ | ⟨h, -, hnone, -⟩ | ⟨e, rfl, hstarted, hhang, hends⟩ := hcases
    · cases hnone
    · cases hnone
    obtain ⟨hgoes, hcode, hfault⟩ | ⟨-, hnone, -⟩ := hends
    · rw [Option.some.injEq] at hcode
      rw [Invocation.halts_congr acc.stdout acc.stderr] at hgoes
      have last : ∀ {P : Invocation → Prop}, (∀ e' ∈ r.invocations, P e') → P e →
          ∀ e' ∈ r'.invocations, P e' := by
        intro P hall hlast e' he'
        rw [hstarted] at he'
        obtain he' | he' := List.mem_append.mp he'
        · exact hall e' he'
        · rwa [List.mem_singleton.mp he']
      exact ⟨ho.trans acc.stdout, he.trans acc.stderr, hfault.trans acc.fault,
        hhang.trans acc.hang, last (fun e' he' => Nat.lt_succ_of_lt (acc.before e' he')) (Nat.lt_succ_self _),
        last acc.runs hr, last acc.ended ⟨hgoes, hcode⟩, started⟩
    · cases hnone

/-- How a run ends at position `k`: with the chain, with a fault, or not at all. -/
inductive Finishes (sh : Shell) (nodes : List (Node Handle)) (w : World) (codes : Nat → ExitCode)
    (k : Nat) (r : Running) : Prop
  | whole (hk : k = nodes.length) (hfault : r.fault = none) (hhang : r.hang = none)
  | stopped {n : Node Handle} {f : RoutingFault} (hn : nodes[k]? = some n)
      (hr : runsAt nodes codes k = true) (hfault : r.fault = some (sh.faultText n.name f))
      (hstops : StopsAt w r.invocations r.world.files k n f) (hhang : r.hang = none)
  | never {h : Hang} (hk : h.index = k) (before : ∀ e ∈ r.invocations, e.index < k) (hr : runsAt nodes codes k = true)
      (hfault : r.fault = none) (hhang : r.hang = some h)

/-- The whole run of a chain, as far as the report goes. Up to position `k` the commands have been
evaluated from left to right, and there the run ends. -/
structure Account (sh : Shell) (nodes : List (Node Handle)) (w : World) (codes : Nat → ExitCode)
    (k : Nat) (outcome : Nat → Outcome) (r : Running) : Prop where
  outcomes : ∀ i, outcome i =
    if i < k then if runsAt nodes codes i then .ran (codes i) else .skipped else .notRun
  /-- The commands before position `k` that ran have been started. -/
  started : ∀ i, i < k → runsAt nodes codes i = true → ∃ e ∈ r.invocations, e.index = i
  /-- The commands that were started are those that ran, and perhaps the one that stopped the
  line. -/
  ended : ∀ e ∈ r.invocations,
    (e.index < k ∧ runsAt nodes codes e.index = true ∧ ¬ e.Halts w ∧ codes e.index = e.code) ∨
      (e.index = k ∧ k < nodes.length ∧ e.Halts w)
  finishes : Finishes sh nodes w codes k r

/-- **Every run of a chain is accounted for.** -/
theorem Shell.account_drive (sh : Shell) {nodes : List (Node Handle)}
    (fresh : ∀ n ∈ nodes, n.result = none) (w : World) :
    let d := sh.drive nodes w
    d.nodes.length = nodes.length ∧ ∃ codes k, k ≤ nodes.length ∧
      Account sh nodes w codes k (d.schedule.outcome d.nodes) d.state := by
  intro d
  obtain ⟨codes, k, r, hreach, hends⟩ := @run_reaches _ _ sh.invoke nodes { world := w } fresh
  have acc := Accounted.of_reaches hreach
  have goes : ∀ e ∈ r.invocations, e.index < k ∧ runsAt nodes codes e.index = true ∧
      ¬ e.Halts w ∧ codes e.index = e.code :=
    fun e he => ⟨acc.before e he, acc.runs e he, acc.ended e he⟩
  have hout := fun s => outcome_moment codes fresh hreach.le_length (s : Running)
  obtain ⟨hk, hd⟩ | ⟨n, r', hr, hn, ha, hd⟩ := hends
  · have hd : d = moment nodes codes k r := hd
    rw [hd]
    exact ⟨length_nodesBefore k, codes, k, hreach.le_length, hout r, acc.started,
      fun e he => .inl (goes e he), .whole hk acc.fault acc.hang⟩
  · have hd : d = moment nodes codes k r' := hd
    rw [hd]
    refine ⟨length_nodesBefore k, codes, k, hreach.le_length, ?_⟩
    have hout := hout r'
    simp only [moment] at hout ⊢
    obtain ⟨-, -, hcases⟩ := sh.invoke_ends k n r
    rw [ha] at hcases
    -- a command that is not put on record leaves the record of the commands before it
    have unrecorded : r'.invocations = r.invocations → Finishes sh nodes w codes k r' →
        Account sh nodes w codes k (d.schedule.outcome d.nodes) r' := by
      intro hsame hfinishes
      rw [hd]
      refine ⟨hout, ?_, ?_, hfinishes⟩ <;> rw [hsame]
      · exact acc.started
      · exact fun e he => .inl (goes e he)
    rw [hd] at unrecorded
    obtain ⟨f, hcannot, -, hsame, hfault, hhang⟩ | ⟨h, hk, -, hsame, hfault, hhang⟩ |
      ⟨e, rfl, hstarted, hhang, hends⟩ := hcases
    · refine unrecorded hsame (.stopped hn hr hfault (.unopened hcannot ?_) (hhang.trans acc.hang))
      rw [hsame]
      exact fun e he => Nat.ne_of_lt (acc.before e he)
    · refine unrecorded hsame (.never hk ?_ hr (hfault.trans acc.fault) hhang)
      rw [hsame]
      exact acc.before
    · obtain ⟨-, hsome, -⟩ | ⟨hhalts, -, hfault⟩ := hends
      · cases hsome
      simp only at hstarted
      rw [Invocation.halts_congr acc.stdout acc.stderr] at hhalts
      have hlast : e ∈ r'.invocations := by
        rw [hstarted]
        exact List.mem_append_right _ List.mem_cons_self
      refine ⟨hout, fun i hi hri => ?_, fun e' he' => ?_,
        .stopped hn hr hfault (.halted hlast rfl hhalts) (hhang.trans acc.hang)⟩
      · obtain ⟨e', he', hindex⟩ := acc.started i hi hri
        refine ⟨e', ?_, hindex⟩
        rw [hstarted]
        exact List.mem_append_left _ he'
      · rw [hstarted] at he'
        obtain he' | he' := List.mem_append.mp he'
        · exact .inl (goes e' he')
        · rw [List.mem_singleton.mp he']
          exact .inr ⟨rfl, (List.getElem?_eq_some_iff.mp hn).1, hhalts⟩

/-! ## 3. Outcomes from left to right -/

section Outcomes

/-- The code of the nearest command before position `i` that is reported to have run. -/
def NearestRan (os : List Outcome) (i : Nat) (code : ExitCode) : Prop :=
  ∃ j, j < i ∧ os[j]? = some (.ran code) ∧ ∀ m, j < m → m < i → ∀ c, os[m]? ≠ some (.ran c)

/-- The command at position `i` is due after what is reported of those before it: it is the first
one, or the operator before it opens its gate on the nearest code. -/
def Due (nodes : List (Node Handle)) (os : List Outcome) : Nat → Prop
  | 0 => True
  | i + 1 => ∃ code, NearestRan os (i + 1) code ∧ (operatorAfter nodes i).opens code = true

/-- Up to position `k` the commands that are due have run and the others are skipped. -/
def EvaluatedTo (nodes : List (Node Handle)) (os : List Outcome) (k : Nat) : Prop :=
  ∀ i, i < k → (Due nodes os i ∧ ∃ code, os[i]? = some (.ran code)) ∨
    (¬ Due nodes os i ∧ os[i]? = some .skipped)

variable {nodes : List (Node Handle)} {codes : Nat → ExitCode} {os : List Outcome} {k : Nat}

/-- The nearest code is the one that the evaluation carries. -/
theorem nearestRan_iff (hos : ∀ i, i < k → os[i]? =
      some (if runsAt nodes codes i then .ran (codes i) else .skipped))
    {i : Nat} (hi : i < k) {code : ExitCode} :
    NearestRan os (i + 1) code ↔ code = lastCode (operatorAfter nodes) codes i := by
  obtain ⟨j, hj, hrun, hcode, hbetween⟩ :=
    @exists_nearest (operatorAfter nodes) codes i
  have hnear : os[j]? = some (.ran (codes j)) := by
    rw [hos j (by omega), runsAt, hrun]
    rfl
  have hskip : ∀ m, j < m → m < i + 1 → ∀ c, os[m]? ≠ some (.ran c) := by
    intro m h1 h2 c hc
    rw [hos m (by omega), runsAt, hbetween m h1 (by omega)] at hc
    cases hc
  constructor
  · rintro ⟨j', hj', hran, hnone⟩
    rcases Nat.lt_trichotomy j' j with hlt | rfl | hlt
    · exact absurd hnear (hnone j hlt (by omega) _)
    · rw [hnear] at hran
      cases hran
      exact hcode.symm
    · exact absurd hran (hskip j' hlt hj' _)
  · rintro rfl
    exact ⟨j, by omega, by rw [hcode, hnear], hskip⟩

/-- The commands that are due are those that run. -/
theorem due_iff (hos : ∀ i, i < k → os[i]? =
      some (if runsAt nodes codes i then .ran (codes i) else .skipped))
    {i : Nat} (hi : i ≤ k) : Due nodes os i ↔ runsAt nodes codes i = true := by
  cases i with
  | zero => exact ⟨fun _ => rfl, fun _ => trivial⟩
  | succ i =>
    rw [Due, runsAt, runs]
    constructor
    · rintro ⟨code, hnear, hopens⟩
      rwa [(nearestRan_iff hos hi).mp hnear] at hopens
    · exact fun h => ⟨_, (nearestRan_iff hos hi).mpr rfl, h⟩

theorem evaluatedTo_of_runsAt (hos : ∀ i, i < k → os[i]? =
      some (if runsAt nodes codes i then .ran (codes i) else .skipped)) :
    EvaluatedTo nodes os k := by
  intro i hi
  have hdue := due_iff hos (Nat.le_of_lt hi)
  cases hr : runsAt nodes codes i with
  | true => exact .inl ⟨hdue.mpr hr, codes i, by rw [hos i hi, hr]; rfl⟩
  | false =>
    refine .inr ⟨fun h => ?_, by rw [hos i hi, hr]; rfl⟩
    rw [hdue, hr] at h
    cases h

/-- The last code in a list of outcomes is the nearest one before its end. -/
theorem findSome?_code_of_nearestRan {code : ExitCode} (h : NearestRan os os.length code) :
    os.reverse.findSome? Outcome.code? = some code := by
  obtain ⟨j, hj, hran, hnone⟩ := h
  have hsplit : os = os.take j ++ .ran code :: os.drop (j + 1) := by
    rw [List.getElem?_eq_getElem hj, Option.some.injEq] at hran
    rw [← hran, ← List.drop_eq_getElem_cons hj, List.take_append_drop]
  have hrest : (os.drop (j + 1)).reverse.findSome? Outcome.code? = none := by
    rw [List.findSome?_eq_none_iff]
    intro o ho
    obtain ⟨m, hm⟩ := List.mem_iff_getElem?.mp (List.mem_reverse.mp ho)
    rw [List.getElem?_drop] at hm
    obtain ⟨hlt, -⟩ := List.getElem?_eq_some_iff.mp hm
    have hne := hnone (j + 1 + m) (by omega) hlt
    rw [hm] at hne
    cases o with
    | ran c => exact absurd rfl (hne c)
    | skipped | notRun => rfl
  rw [hsplit, List.reverse_append, List.reverse_cons, List.append_assoc, List.findSome?_append,
    hrest]
  rfl

end Outcomes

/-! ## 4. Reports -/

theorem Report.getElem?_outcomes {α : Type} (nodes : List (Node α)) (s : Schedule)
    (fault : Option String) (i : Nat) :
    (Report.ofChain nodes s fault).outcomes[i]? =
      if i < nodes.length then some (s.outcome nodes i) else none := by
  simp only [outcomes, ofChain, List.map_map, List.getElem?_map, List.getElem?_zipIdx]
  by_cases hi : i < nodes.length
  · simp [hi, NodeReport.ofNode]
  · simp [hi]

theorem Schedule.getElem?_outcomes {α : Type} (nodes : List (Node α)) (s : Schedule) (i : Nat) :
    (s.outcomes nodes)[i]? = if i < nodes.length then some (s.outcome nodes i) else none := by
  rw [outcomes, List.getElem?_map]
  by_cases hi : i < nodes.length
  · rw [List.getElem?_range hi, if_pos hi, Option.map_some]
  · rw [List.getElem?_eq_none (by simpa using hi), if_neg hi, Option.map_none]

theorem Report.length_outcomes {α : Type} (nodes : List (Node α)) (s : Schedule)
    (fault : Option String) : (Report.ofChain nodes s fault).outcomes.length = nodes.length := by
  simp [outcomes, ofChain]

/-- The code of a line without a fault is the nearest one before its end. -/
theorem Report.exitCode_of_nearestRan {report : Report} {code : ExitCode}
    (hfault : report.fault = none)
    (h : NearestRan report.outcomes report.outcomes.length code) : report.exitCode = code := by
  rw [exitCode, hfault, findSome?_code_of_nearestRan h]
  rfl

theorem Report.exitCode_of_fault {report : Report} {text : String}
    (hfault : report.fault = some text) : report.exitCode = -1 := by
  rw [exitCode, hfault]
  rfl

namespace Account

variable {sh : Shell} {nodes : List (Node Handle)} {w : World} {codes : Nat → ExitCode} {k : Nat}
  {outcome : Nat → Outcome} {r : Running} {os : List Outcome}

theorem before (acc : Account sh nodes w codes k outcome r) (hk : k ≤ nodes.length)
    (hos : ∀ i, os[i]? = if i < nodes.length then some (outcome i) else none) :
    ∀ i, i < k → os[i]? = some (if runsAt nodes codes i then .ran (codes i) else .skipped) := by
  intro i hi
  rw [hos, if_pos (by omega), acc.outcomes, if_pos hi]

theorem from_stop (acc : Account sh nodes w codes k outcome r)
    (hos : ∀ i, os[i]? = if i < nodes.length then some (outcome i) else none) :
    ∀ i, k ≤ i → i < nodes.length → os[i]? = some .notRun := by
  intro i hki hi
  rw [hos, if_pos hi, acc.outcomes, if_neg (by omega)]

/-- **A command that was started is reported with its code**, unless the line stopped at it. -/
theorem outcome_of_started (acc : Account sh nodes w codes k outcome r) (hk : k ≤ nodes.length)
    (hos : ∀ i, os[i]? = if i < nodes.length then some (outcome i) else none)
    {e : Invocation} (he : e ∈ r.invocations) :
    (¬ e.Halts w ∧ os[e.index]? = some (.ran e.code)) ∨
      (e.Halts w ∧ os[e.index]? = some .notRun) := by
  obtain ⟨hi, hr, hgoes, hcode⟩ | ⟨rfl, hlt, hhalts⟩ := acc.ended e he
  · refine .inl ⟨hgoes, ?_⟩
    rw [acc.before hk hos e.index hi, hr, hcode]
    rfl
  · exact .inr ⟨hhalts, acc.from_stop hos e.index (Nat.le_refl _) hlt⟩

/-- A command that faulted is reported with -1, unless its output cannot be flushed. -/
theorem outcome_of_faulted (acc : Account sh nodes w codes k outcome r) (hk : k ≤ nodes.length)
    (hos : ∀ i, os[i]? = if i < nodes.length then some (outcome i) else none) :
    ∀ e ∈ r.invocations, e.Faulted → w.stderrMode ≠ .closed →
      os[e.index]? = some (.ran (-1)) ∨ (e.sink = .stdout ∧ w.stdout.mode = .failingFlush) := by
  intro e he hfaulted htold
  obtain ⟨-, hran⟩ | ⟨hhalts, -⟩ := acc.outcome_of_started hk hos he
  · rw [e.code_of_faulted hfaulted] at hran
    exact .inl hran
  · obtain ⟨-, hclosed⟩ | hflush := hhalts
    · exact absurd hclosed htold
    · exact .inr hflush

/-- A command that is reported to have run was started and ended with that code. -/
theorem started_of_ran (acc : Account sh nodes w codes k outcome r)
    (hos : ∀ i, os[i]? = if i < nodes.length then some (outcome i) else none)
    {i : Nat} {code : ExitCode} (hran : os[i]? = some (.ran code)) :
    ∃ e ∈ r.invocations, e.index = i ∧ e.code = code ∧ ¬ e.Halts w := by
  rw [hos] at hran
  split at hran
  · rw [acc.outcomes, Option.some.injEq] at hran
    split at hran
    · rename_i hi
      split at hran
      · rename_i hr
        obtain ⟨e, he, rfl⟩ := acc.started i hi hr
        obtain ⟨-, -, hgoes, hcode⟩ | ⟨rfl, -⟩ := acc.ended e he
        · cases hran
          exact ⟨e, he, rfl, hcode.symm, hgoes⟩
        · exact absurd hi (Nat.lt_irrefl _)
      · cases hran
    · cases hran
  · cases hran

end Account

/-- What a line that makes a chain comes to, and the account of its run. -/
theorem Shell.run_account (sh : Shell) {line : String} {nodes : List (Node Handle)}
    (hchain : sh.chain line = .ok nodes) (w : World) :
    let d := sh.drive nodes w
    ∃ report codes k outcome,
      sh.run line w = d.state.result report ∧
      report.fault = d.state.fault ∧ report.outcomes.length = nodes.length ∧
      (∀ i, report.outcomes[i]? = if i < nodes.length then some (outcome i) else none) ∧
      (∀ i, (d.schedule.outcomes d.nodes)[i]? =
        if i < nodes.length then some (outcome i) else none) ∧
      k ≤ nodes.length ∧ Account sh nodes w codes k outcome d.state := by
  obtain ⟨-, cs, -, hcs, -⟩ := build_ok_iff_splits.mp hchain
  obtain ⟨hlen, codes, k, hk, acc⟩ := sh.account_drive hcs.fresh w
  intro d
  refine ⟨.ofChain d.nodes d.schedule d.state.fault, codes, k, _, ?_, rfl, ?_, fun i => ?_,
    fun i => ?_, hk, acc⟩
  · simp only [run, hchain, d]
  · rw [Report.length_outcomes, hlen]
  · rw [Report.getElem?_outcomes, hlen]
  · rw [Schedule.getElem?_outcomes, hlen]

/-- **The report on a run is that of the evaluation from left to right, up to the fault.** Without a
fault every command that is due has run and every other one is skipped, and the code of the line is
that of the last one that ran. A fault stops the line at a command that is due, for one of the
reasons of `StopsAt`: nothing is reported of that command or any after it, none after it is started,
and the code is -1. A command that faults counts as one that ended with -1, and the line goes on if
the message stream takes the report and the output stream can be flushed.

There is no report if a command goes on for ever. That command is due after the others, which have
been evaluated from left to right. -/
theorem Shell.run_report (sh : Shell) (line : String) (w : World) :
    match sh.chain line with
    | .error e => sh.run line w = some (.error e, w)
    | .ok nodes =>
      let d := sh.drive nodes w
      let started := d.state.invocations
      match d.state.hang with
      | some h =>
        let outcomes := d.schedule.outcomes d.nodes
        sh.run line w = none ∧ EvaluatedTo nodes outcomes h.index ∧ Due nodes outcomes h.index ∧
          ∀ e ∈ started, e.index < h.index ∧ outcomes[e.index]? = some (.ran e.code) ∧ ¬ e.Halts w
      | none =>
        ∃ report after, sh.run line w = some (.ok report, after) ∧
          report.outcomes.length = nodes.length ∧
          (∀ i code, report.outcomes[i]? = some (.ran code) →
            ∃ e ∈ started, e.index = i ∧ e.code = code ∧ ¬ e.Halts w) ∧
          (∀ e ∈ started, e.Faulted → w.stderrMode ≠ .closed →
            report.outcomes[e.index]? = some (.ran (-1)) ∨
              (e.sink = .stdout ∧ w.stdout.mode = .failingFlush)) ∧
          match report.fault with
          | none =>
            EvaluatedTo nodes report.outcomes nodes.length ∧
              ((nodes = [] ∧ report.exitCode = 0) ∨
                NearestRan report.outcomes nodes.length report.exitCode)
          | some text =>
            ∃ k n f, nodes[k]? = some n ∧ text = sh.faultText n.name f ∧
              StopsAt w started after.files k n f ∧
              EvaluatedTo nodes report.outcomes k ∧ Due nodes report.outcomes k ∧
              (∀ i, k ≤ i → i < nodes.length → report.outcomes[i]? = some .notRun) ∧
              (∀ e ∈ started, e.index ≤ k) ∧ report.exitCode = -1 := by
  cases hchain : sh.chain line with
  | error e =>
    simp only [run, hchain]
  | ok nodes =>
    obtain ⟨report, codes, k, outcome, hrun, hfault, hlength, hget, hget', hk, acc⟩ :=
      sh.run_account hchain w
    have hos := acc.before hk hget
    obtain ⟨rfl, hnone, hhang⟩ | ⟨hn, hr, hsome, hstops, hhang⟩ | ⟨rfl, before, hr, -, hhang⟩ :=
      acc.finishes
    all_goals simp only [Running.result, hhang] at hrun; simp only [hhang]
    · rw [hnone] at hfault
      refine ⟨report, _, hrun, hlength, fun i code => acc.started_of_ran hget,
        acc.outcome_of_faulted hk hget, ?_⟩
      rw [hfault]
      refine ⟨evaluatedTo_of_runsAt hos, ?_⟩
      cases hnodes : nodes.length with
      | zero =>
        have hnil : report.outcomes = [] := List.length_eq_zero_iff.mp (hlength.trans hnodes)
        refine .inl ⟨List.length_eq_zero_iff.mp hnodes, ?_⟩
        rw [Report.exitCode, hfault, hnil]
        rfl
      | succ i =>
        have hnear := (nearestRan_iff hos (show i < nodes.length by omega)).mpr rfl
        rw [← hnodes, ← hlength] at hnear ⊢
        rw [Report.exitCode_of_nearestRan hfault hnear]
        exact .inr hnear
    · rw [hsome] at hfault
      refine ⟨report, _, hrun, hlength, fun i code => acc.started_of_ran hget,
        acc.outcome_of_faulted hk hget, ?_⟩
      rw [hfault]
      refine ⟨k, _, _, hn, rfl, hstops, evaluatedTo_of_runsAt hos,
        (due_iff hos (Nat.le_refl k)).mpr hr, acc.from_stop hget, fun e he => ?_,
        Report.exitCode_of_fault hfault⟩
      obtain ⟨hi, -⟩ | ⟨rfl, -⟩ := acc.ended e he
      · exact Nat.le_of_lt hi
      · exact Nat.le_refl _
    · have hos := acc.before hk hget'
      refine ⟨hrun, evaluatedTo_of_runsAt hos, (due_iff hos (Nat.le_refl _)).mpr hr,
        fun e he => ?_⟩
      obtain ⟨hi, hran, hgoes, hcode⟩ | ⟨hi, -⟩ := acc.ended e he
      · rw [hos e.index hi, hran, hcode]
        exact ⟨hi, rfl, hgoes⟩
      · exact absurd hi (Nat.ne_of_lt (before e he))

/-- **What a report says of the commands that were started.** Such a command is reported with its
code, -1 if it faulted, unless the line stopped at it: then it is reported as not run although it
was started. A command that is reported to have run was started and ended with that code, so a
skipped one never was. -/
theorem Shell.run_started (sh : Shell) (line : String) (w : World) :
    match sh.chain line with
    | .error e => sh.run line w = some (.error e, w)
    | .ok nodes =>
      let r := (sh.drive nodes w).state
      match r.hang with
      | some _ => sh.run line w = none
      | none =>
        ∃ report after, sh.run line w = some (.ok report, after) ∧
          (∀ e ∈ r.invocations,
            (¬ e.Halts w ∧ report.outcomes[e.index]? = some (.ran e.code)) ∨
              (e.Halts w ∧ report.outcomes[e.index]? = some .notRun)) ∧
          ∀ i code, report.outcomes[i]? = some (.ran code) →
            ∃ e ∈ r.invocations, e.index = i ∧ e.code = code := by
  cases hchain : sh.chain line with
  | error e =>
    simp only [run, hchain]
  | ok nodes =>
    obtain ⟨report, codes, k, outcome, hrun, -, -, hget, -, hk, acc⟩ := sh.run_account hchain w
    cases hhang : (sh.drive nodes w).state.hang with
    | some h =>
      simp only [hhang, hrun, Running.result_of_hang hhang]
    | none =>
      rw [Running.result_of_no_hang hhang] at hrun
      simp only [hhang]
      refine ⟨report, _, hrun, fun e he => acc.outcome_of_started hk hget he,
        fun i code hran => ?_⟩
      obtain ⟨e, he, hindex, hcode, -⟩ := acc.started_of_ran hget hran
      exact ⟨e, he, hindex, hcode⟩

/-- On an output stream that cannot be flushed `echo hi` is started and ends with 0, and the report says
that it has not run. -/
theorem Shell.echo_started_reported_not_run :
    let sh : Shell := .ofConfig {}
    let w : World := { stdout := { mode := .failingFlush } }
    ∃ nodes report after, sh.chain "echo hi" = .ok nodes ∧
      sh.run "echo hi" w = some (.ok report, after) ∧
      ∃ e ∈ (sh.drive nodes w).state.invocations,
        e.code = 0 ∧ report.outcomes[e.index]? = some .notRun := by
  intro sh w
  have hstarted : (sh.chain "echo hi").toOption.map (fun nodes =>
      (sh.drive nodes w).state.invocations.map fun e => (e.index, e.code)) = some [(0, 0)] := by
    decide +kernel
  have hrun : (sh.run "echo hi" w).bind (fun r => r.1.toOption.map Report.outcomes) =
      some [.notRun] := by
    decide +kernel
  cases hchain : sh.chain "echo hi" with
  | error e =>
    rw [hchain] at hstarted
    cases hstarted
  | ok nodes =>
    obtain ⟨⟨result, after⟩, hresult, hreport⟩ := Option.bind_eq_some_iff.mp hrun
    obtain ⟨report, hok, houtcomes⟩ := Option.map_eq_some_iff.mp hreport
    rw [hchain] at hstarted
    have hrecord : (sh.drive nodes w).state.invocations.map (fun e => (e.index, e.code)) =
        [(0, 0)] := Option.some.inj hstarted
    obtain ⟨e, hone, hpair⟩ := List.map_eq_singleton_iff.mp hrecord
    obtain ⟨hindex, hcode⟩ := Prod.mk.inj hpair
    refine ⟨nodes, report, after, rfl, ?_, e, ?_, hcode, ?_⟩
    · rw [hresult]
      cases result with
      | error e => cases hok
      | ok r =>
        cases hok
        rfl
    · rw [hone]
      exact List.mem_singleton_self e
    · rw [hindex, houtcomes]
      rfl

end LineShell
