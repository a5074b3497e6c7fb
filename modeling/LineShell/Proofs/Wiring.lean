import LineShell.Proofs.ChainGrammar
import LineShell.Proofs.Evaluation
import LineShell.Proofs.Invocation

/-!
# Where the bytes of a run come from and where they go

`Wiring` says what the commands of a line read and where their output goes, command by command and
without a word about buffers: a sink is opened as the node says (`Opens`), the input is then what
stands in the file of the source, or what the command just before handed on (`Feeds`), and what the
command writes goes to its sink and changes nothing else. A command that goes on for ever is the last
one that is started (`Hangs`), and its sink is a file.

A run keeps the bytes under way in a map of pipes. What carries it along is that at the moment
before position `k` the pipes from position `k - 1` on hold exactly what was written to them
(`Wired.pipes`): older entries may be left over, and no command will ask for them.

* `PipesMeet.of_realizes`: in a chain a command reads a pipe only from the command just before it,
  and a command that feeds a pipe is followed by another;
* `Wired.invoke`: running one command keeps the wiring;
* `run_wired`: so every run of every line is wired.
-/

namespace LineShell

/-! ## 1. Pipes in a chain -/

section Chains

variable {α : Type}

/-- Every pipe of the chain has both its ends: a command that reads one comes right after the one
that feeds it, and a command that feeds one comes right before a command that reads it or that reads
a file in its place. -/
structure PipesMeet (nodes : List (Node α)) : Prop where
  writer : ∀ i n, nodes[i]? = some n → n.input = .piped →
    ∃ j m, i = j + 1 ∧ nodes[j]? = some m ∧ m.operator = .pipe
  reader : ∀ i n, nodes[i]? = some n → n.operator = .pipe →
    ∃ m, nodes[i + 1]? = some m ∧ (m.input = .piped ∨ ∃ path, m.input = .file path)

theorem Clause.input_of_piped (c : Clause) :
    c.input true = .piped ∨ ∃ path, c.input true = .file path := by
  rw [Clause.input]
  split
  · exact .inr ⟨_, rfl⟩
  · exact .inl rfl

theorem Clause.input_ne_piped (c : Clause) : c.input false ≠ .piped := by
  rw [Clause.input]
  split <;> simp

namespace Realizes

variable {r : Resolver α} {piped : Bool} {cs : List Clause} {ns : List (Node α)}

/-- No command of a chain that has just been built has a code. -/
theorem fresh (h : Realizes r piped cs ns) : ∀ n ∈ ns, n.result = none := by
  induction h with
  | nil => simp
  | cons hr h ih =>
    rintro n (_ | ⟨_, hn⟩)
    · rfl
    · exact ih n hn

theorem head_piped (h : Realizes r true cs ns) {n : Node α} (hn : ns[0]? = some n) :
    n.input = .piped ∨ ∃ path, n.input = .file path := by
  cases h with
  | nil => cases hn
  | @cons _ c _ _ _ hr h =>
    cases hn
    exact c.input_of_piped

theorem head_not_piped (h : Realizes r false cs ns) {n : Node α} (hn : ns[0]? = some n) :
    n.input ≠ .piped := by
  cases h with
  | nil => cases hn
  | @cons _ c _ _ _ hr h =>
    cases hn
    exact c.input_ne_piped

/-- A command that reads a pipe is the first one, or it comes after a command that feeds one. -/
theorem writer (h : Realizes r piped cs ns) : ∀ i n, ns[i]? = some n → n.input = .piped →
    (i = 0 ∧ piped = true) ∨ ∃ j m, i = j + 1 ∧ ns[j]? = some m ∧ m.operator = .pipe := by
  induction h with
  | nil => simp
  | @cons piped c handle cs ns hr h ih =>
    rintro (_ | i) n hn hin
    · refine .inl ⟨rfl, ?_⟩
      cases piped with
      | true => rfl
      | false => exact absurd hin (head_not_piped (.cons hr h) hn)
    · rw [List.getElem?_cons_succ] at hn
      obtain ⟨rfl, hop⟩ | ⟨j, m, rfl, hm, hop⟩ := ih i n hn hin
      · exact .inr ⟨0, _, rfl, rfl, beq_iff_eq.mp hop⟩
      · exact .inr ⟨j + 1, m, rfl, by rwa [List.getElem?_cons_succ], hop⟩

/-- A command that feeds a pipe is the last one, or it comes before a command that reads it or a
file in its place. -/
theorem reader (h : Realizes r piped cs ns) : ∀ i n, ns[i]? = some n → n.operator = .pipe →
    ns.getLast? = some n ∨
      ∃ m, ns[i + 1]? = some m ∧ (m.input = .piped ∨ ∃ path, m.input = .file path) := by
  induction h with
  | nil => simp
  | @cons piped c handle cs ns hr h ih =>
    rintro (_ | i) n hn hop
    · cases hn
      have hpipe : c.operator = .pipe := hop
      rw [hpipe] at h
      cases hns : ns[0]? with
      | none =>
        rw [List.getElem?_eq_none_iff, Nat.le_zero, List.length_eq_zero_iff] at hns
        rw [hns]
        exact .inl rfl
      | some m => exact .inr ⟨m, hns, head_piped h hns⟩
    · rw [List.getElem?_cons_succ] at hn
      obtain hlast | ⟨m, hm, hin⟩ := ih i n hn hop
      · refine .inl ?_
        rw [List.getLast?_cons, hlast]
        rfl
      · exact .inr ⟨m, by rwa [List.getElem?_cons_succ], hin⟩

end Realizes

/-- **In a chain that is built every pipe has both its ends.** -/
theorem PipesMeet.of_realizes {r : Resolver α} {cs : List Clause} {nodes : List (Node α)}
    (h : Realizes r false cs nodes) (hlast : ∀ c ∈ cs.getLast?, ¬ continues c.operator) :
    PipesMeet nodes where
  writer i n hn hin := by
    obtain ⟨-, hpiped⟩ | hwriter := h.writer i n hn hin
    · cases hpiped
    · exact hwriter
  reader i n hn hop := by
    obtain hend | hreader := h.reader i n hn hop
    · -- the last command would ask for another one
      have hop' := h.operator_getLast?
      rw [hend, Option.map_some, hop] at hop'
      obtain ⟨c, hc, hcop⟩ := Option.map_eq_some_iff.mp hop'.symm
      exact absurd (.inl hcop) (hlast c hc)
    · exact hreader

end Chains

/-! ## 2. Wiring -/

/-- How a command opens its sink: the files afterwards, and the sink. -/
inductive Opens {α : Type} (files : FileTree) (n : Node α) : FileTree → Sink → Prop
  | file {path : String} {append : Bool} {opened : FileTree} {place : Place}
      (ho : n.output = .file path append)
      (h : files.openForWriting path append = .ok (opened, place)) :
      Opens files n opened (.file place)
  | pipe (ho : n.output = .none) (hop : n.operator = .pipe) : Opens files n files .pipe
  | stdout (ho : n.output = .none) (hop : n.operator ≠ .pipe) : Opens files n files .stdout

/-- What the command at position `i` reads, once its sink has been opened; `v` are the files at that
time with the place of the sink, and `started` the commands that were started before it. -/
inductive Feeds {α : Type} (v : View) (started : List Invocation) (n : Node α) (i : Nat) :
    FileTree.Source → Prop
  /-- The file of its source, which the command itself may add to. -/
  | file {path : String} {source : FileTree.Source} (hi : n.input = .file path)
      (h : v.openForReading path = .ok source) : Feeds v started n i source
  /-- What the command just before it wrote to the pipe. -/
  | pipe {e : Invocation} (hi : n.input = .piped) (he : e ∈ started) (next : e.index + 1 = i)
      (hs : e.sink = .pipe) : Feeds v started n i (.bytes e.written)
  /-- Nothing: the command just before it wrote to a file. -/
  | elsewhere {e : Invocation} {place : Place} (hi : n.input = .piped) (he : e ∈ started)
      (next : e.index + 1 = i) (hs : e.sink = .file place) : Feeds v started n i (.bytes [])
  /-- Nothing: the command just before it was not started. -/
  | skipped (hi : n.input = .piped) (h : ∀ e ∈ started, e.index + 1 ≠ i) :
      Feeds v started n i (.bytes [])
  | nothing (hi : n.input = .none) : Feeds v started n i (.bytes [])

/-- The commands that were started, in order, and the files after them. Each command of the chain is
started at most once; it reads and writes what it does on what it is fed, and its output changes the
file it goes to and nothing else. -/
inductive Wiring (nodes : List (Node Handle)) (w : World) : List Invocation → FileTree → Prop
  | start : Wiring nodes w [] w.files
  | invoke {started : List Invocation} {files opened : FileTree} {n : Node Handle} {e : Invocation}
      (h : Wiring nodes w started files) (later : ∀ e' ∈ started, e'.index < e.index)
      (hn : nodes[e.index]? = some n) (opens : Opens files n opened e.sink)
      (feeds : Feeds ⟨opened, e.sink.place?⟩ started n e.index e.stdin) (ran : e.Ran n opened w) :
      Wiring nodes w (started ++ [e]) (e.filesAfter opened)

/-- The command `h` is started after those of `started`, with the files `files` before its sink is open
and `opened` after that, and goes on for ever. -/
inductive Hangs (nodes : List (Node Handle)) (started : List Invocation) (files : FileTree)
    (h : Hang) (opened : FileTree) : Prop
  | intro {n : Node Handle} (later : ∀ e ∈ started, e.index < h.index)
      (hn : nodes[h.index]? = some n) (opens : Opens files n opened h.sink)
      (feeds : Feeds ⟨opened, h.sink.place?⟩ started n h.index h.stdin)
      (goesOn : h.GoesOn n opened)

theorem Opens.grows {α : Type} {files opened : FileTree} {n : Node α} {sink : Sink}
    (h : Opens files n opened sink) : files.Grows opened := by
  cases h with
  | file ho h => exact (FileTree.grows_of_openForWriting h).1
  | pipe | stdout => exact .refl files

namespace Wiring

variable {nodes : List (Node Handle)} {w : World} {started : List Invocation} {files : FileTree}

/-- Every command that was started is one of the chain, and its sink is the one its node says. -/
theorem opens (h : Wiring nodes w started files) : ∀ e ∈ started,
    ∃ n before opened, nodes[e.index]? = some n ∧ Opens before n opened e.sink := by
  induction h with
  | start => simp
  | invoke h later hn opens feeds ran ih =>
    intro e he
    obtain he | he := List.mem_append.mp he
    · exact ih e he
    · rw [List.mem_singleton.mp he]
      exact ⟨_, _, _, hn, opens⟩

/-- The commands are started in the order of the chain, each at most once. -/
theorem ascending (h : Wiring nodes w started files) : started.Pairwise (·.index < ·.index) := by
  induction h with
  | start => exact .nil
  | invoke h later hn opens feeds ran ih =>
    refine List.pairwise_append.mpr ⟨ih, List.pairwise_singleton _ _, fun e' he' e he => ?_⟩
    rw [List.mem_singleton.mp he]
    exact later e' he'

end Wiring

/-! ## 3. One command -/

theorem opens_of_openSink {α : Type} {files opened : FileTree} {n : Node α} {sink : Sink}
    (h : Running.openSink files n.feedsPipe n.output = .ok (opened, sink)) :
    Opens files n opened sink := by
  cases ho : n.output with
  | none =>
    rw [ho] at h
    cases h
    by_cases hop : n.operator = .pipe
    · rw [Node.feedsPipe, hop]
      exact .pipe ho hop
    · rw [Node.feedsPipe, beq_false_of_ne hop]
      exact .stdout ho hop
  | file path append =>
    rw [ho, Running.openSink] at h
    cases hw : files.openForWriting path append with
    | error e =>
      rw [hw] at h
      cases h
    | ok opening =>
      rw [hw] at h
      cases h
      exact .file ho hw

theorem Stream.add_nil (s : Stream) : s.add [] = s := by rw [add, List.append_nil]

theorem Stream.add_add (s : Stream) (xs ys : Bytes) : (s.add xs).add ys = s.add (xs ++ ys) := by
  simp only [add, List.append_assoc]

/-- The state of a run at the moment before position `k`. -/
structure Wired (nodes : List (Node Handle)) (w : World) (codes : Nat → ExitCode) (k : Nat)
    (r : Running) : Prop where
  wiring : Wiring nodes w r.invocations r.world.files
  before : ∀ e ∈ r.invocations, e.index < k
  runs : ∀ e ∈ r.invocations, runsAt nodes codes e.index = true
  stdout : r.world.stdout = w.stdout.add (r.invocations.flatMap Invocation.shown)
  hang : r.hang = none
  /-- The pipes that may still be read hold exactly what was written to them. -/
  pipes : ∀ j data, k ≤ j + 1 → (r.pipes.lookup j = some data ↔
    ∃ e ∈ r.invocations, e.index = j ∧ e.sink = .pipe ∧ e.written = data)

namespace Wired

variable {nodes : List (Node Handle)} {w : World} {codes : Nat → ExitCode} {k : Nat}
  {r : Running}

theorem start : Wired nodes w codes 0 { world := w } where
  wiring := .start
  before := by simp
  runs := by simp
  stdout := (Stream.add_nil _).symm
  hang := rfl
  pipes := by simp

theorem mono (h : Wired nodes w codes k r) {k' : Nat} (hk : k ≤ k') :
    Wired nodes w codes k' r where
  wiring := h.wiring
  before e he := Nat.lt_of_lt_of_le (h.before e he) hk
  runs := h.runs
  stdout := h.stdout
  hang := h.hang
  pipes j data hj := h.pipes j data (Nat.le_trans hk hj)

theorem of_sameData {r' : Running} (h : Wired nodes w codes k r) (same : r.SameData r') :
    Wired nodes w codes k r' := by
  obtain ⟨files, stdout, pipes, invocations, hang⟩ := same
  exact ⟨by rw [invocations, files]; exact h.wiring, by rw [invocations]; exact h.before,
    by rw [invocations]; exact h.runs, by rw [invocations, stdout]; exact h.stdout,
    hang.trans h.hang, by rw [invocations, pipes]; exact h.pipes⟩

/-- **What a command finds in its pipe is what the command just before it wrote there.** -/
theorem feeds_piped (h : Wired nodes w codes k r) (meet : PipesMeet nodes) {n : Node Handle}
    (hn : nodes[k]? = some n) (hi : n.input = .piped) (v : View) :
    Feeds v r.invocations n k (.bytes (r.takePipe k).1) := by
  obtain ⟨j, m, rfl, hm, hop⟩ := meet.writer k n hn hi
  rw [Running.takePipe]
  cases hj : r.pipes.lookup j with
  | some data =>
    obtain ⟨e, he, rfl, hs, rfl⟩ := (h.pipes j data (Nat.le_refl _)).mp hj
    exact .pipe hi he rfl hs
  | none =>
    have hnone : ∀ e ∈ r.invocations, e.index = j → e.sink ≠ .pipe := by
      intro e he hindex hs
      have hsome := (h.pipes j e.written (Nat.le_refl _)).mpr ⟨e, he, hindex, hs, rfl⟩
      rw [hj] at hsome
      cases hsome
    by_cases hstarted : ∃ e ∈ r.invocations, e.index = j
    · obtain ⟨e, he, hindex⟩ := hstarted
      obtain ⟨m', before, opened', hm', hopens⟩ := h.wiring.opens e he
      rw [hindex, hm, Option.some.injEq] at hm'
      generalize hsink : e.sink = sink at hopens
      cases hopens with
      | @file _ _ _ place => exact .elsewhere hi he (by rw [hindex]) hsink
      | pipe => exact absurd hsink (hnone e he hindex)
      | stdout _ hne => exact absurd (hm' ▸ hop) hne
    · exact .skipped hi fun e he hindex => hstarted ⟨e, he, by omega⟩

/-- **What a command finds in its input is what it is fed.** -/
theorem feeds (h : Wired nodes w codes k r) (meet : PipesMeet nodes) {n : Node Handle}
    (hn : nodes[k]? = some n) {source : FileTree.Source} {r' : Running}
    (hin : r.openInput k n.input = .ok (source, r')) {v : View}
    (grows : r.world.files.Grows v.files) :
    Feeds v r.invocations n k (Running.reread v source n.input) := by
  cases hi : n.input with
  | none =>
    rw [hi] at hin
    cases hin
    exact .nothing hi
  | piped =>
    rw [hi] at hin
    cases hin
    exact h.feeds_piped meet hn hi v
  | file path =>
    rw [hi, Running.openInput] at hin
    cases hopen : r.world.files.openForReading path with
    | error e =>
      rw [hopen] at hin
      cases hin
    | ok first =>
      obtain ⟨again, hagain⟩ := FileTree.openForReading_of_grows grows hopen
      rw [Running.reread, View.openForReading_eq hagain]
      exact .file hi (View.openForReading_eq hagain)

/-- Nothing is in the pipes of the commands that are still to come. -/
theorem lookup_of_le (h : Wired nodes w codes k r) {j : Nat} (hj : k ≤ j) :
    r.pipes.lookup j = none := by
  cases hlookup : r.pipes.lookup j with
  | none => rfl
  | some data =>
    obtain ⟨e, he, hindex, -⟩ := (h.pipes j data (by omega)).mp hlookup
    have hlt := h.before e he
    omega

/-- **A command that is started is wired** if its sink is open and its input is what it is fed: its
output reaches the sink alone. -/
theorem after (h : Wired nodes w codes k r) {n : Node Handle} {e : Invocation} {opened : FileTree}
    (hk : e.index = k) (hn : nodes[k]? = some n) (hr : runsAt nodes codes k = true)
    (opens : Opens r.world.files n opened e.sink)
    (feeds : Feeds ⟨opened, e.sink.place?⟩ r.invocations n k e.stdin) (ran : e.Ran n opened w)
    {r' : Running} (hworld : r'.world = r.world) (hinvocations : r'.invocations = r.invocations)
    (hhang : r'.hang = r.hang) (hpipes : ∀ j, k ≤ j → r'.pipes.lookup j = r.pipes.lookup j) :
    Wired nodes w codes (k + 1) (r'.after opened e) := by
  subst hk
  have last : ∀ {P : Invocation → Prop}, (∀ e' ∈ r.invocations, P e') → P e →
      ∀ e' ∈ r.invocations ++ [e], P e' := by
    intro P hall he e' he'
    obtain he' | he' := List.mem_append.mp he'
    · exact hall e' he'
    · rwa [List.mem_singleton.mp he']
  refine ⟨?_, ?_, ?_, ?_, ?_, ?_⟩
  · rw [Running.invocations_after, Running.files_after, hinvocations]
    exact .invoke h.wiring h.before hn opens feeds ran
  · rw [Running.invocations_after, hinvocations]
    exact last (fun e' he' => Nat.lt_succ_of_lt (h.before e' he')) (Nat.lt_succ_self _)
  · rw [Running.invocations_after, hinvocations]
    exact last h.runs hr
  · rw [Running.stdout_after, Running.invocations_after, hworld, hinvocations, h.stdout,
      Stream.add_add, List.flatMap_append, List.flatMap_singleton]
  · rw [Running.hang_after, hhang, h.hang]
  · intro j data hj
    have hle : e.index ≤ j := by omega
    rw [Running.lookup_after, Running.invocations_after, hinvocations, hpipes j hle,
      h.lookup_of_le hle]
    constructor
    · intro hlookup
      split at hlookup
      · rename_i hpipe
        exact ⟨e, List.mem_append_right _ List.mem_cons_self, hpipe.2, hpipe.1, by
          simpa using hlookup⟩
      · cases hlookup
    · rintro ⟨e', he', hindex, hs, rfl⟩
      obtain he' | he' := List.mem_append.mp he'
      · have hlt := h.before e' he'
        omega
      · rw [List.mem_singleton.mp he'] at hindex hs ⊢
        rw [if_pos ⟨hs, hindex⟩]

/-- **Running one command keeps the wiring**, whether it ends with a code or stops the line; or it
goes on for ever. -/
theorem invoke (h : Wired nodes w codes k r) (meet : PipesMeet nodes) {n : Node Handle}
    (hn : nodes[k]? = some n) (hr : runsAt nodes codes k = true) (sh : Shell) :
    let out := sh.invoke k n r
    Wired nodes w codes (k + 1) out.2 ∨
      (out.1 = none ∧ out.2.invocations = r.invocations ∧ out.2.world.stdout = r.world.stdout ∧
        ∃ hang, out.2.hang = some hang ∧ hang.index = k ∧
          Hangs nodes r.invocations r.world.files hang out.2.world.files) := by
  intro out
  have hnext := h.mono (Nat.le_succ k)
  obtain ⟨f, hin, hinvoke⟩ | ⟨source, r', hin, hrest⟩ := sh.invoke_cases k n r
  · rw [show out = _ from hinvoke]
    exact .inl (hnext.of_sameData (Running.sameData_stopAt sh n.name r f))
  obtain ⟨hworld, hinvocations, hhang, hpipes⟩ := Running.openInput_ok hin
  obtain ⟨f, hout, hinvoke⟩ | ⟨opened, hang, hout, hk, hstdin, goesOn, hinvoke⟩ |
    ⟨opened, e, hout, hk, hstdin, ran, hinvoke⟩ := hrest
  · rw [show out = _ from hinvoke]
    refine .inl (of_sameData ?_ (Running.sameData_stopAt sh n.name r' f))
    exact ⟨by rw [hinvocations, hworld]; exact h.wiring, by rw [hinvocations]; exact hnext.before,
      by rw [hinvocations]; exact h.runs, by rw [hinvocations, hworld]; exact h.stdout,
      hhang.trans h.hang, by
        intro j data hj
        rw [hpipes j (by omega), hinvocations]
        exact hnext.pipes j data hj⟩
  · rw [show out = _ from hinvoke]
    rw [hworld] at hout
    have opens := opens_of_openSink hout
    refine .inr ⟨rfl, hinvocations, by rw [Running.hanging, hworld], hang, rfl, hk, ?_⟩
    subst hk
    refine .intro h.before hn opens ?_ goesOn
    rw [hstdin]
    exact h.feeds meet hn hin opens.grows
  · rw [show out = _ from hinvoke]
    refine .inl (of_sameData ?_ (Running.sameData_settle sh n.name e.sink e.ending _))
    rw [hworld] at hout ran
    have opens := opens_of_openSink hout
    refine h.after hk hn hr opens ?_ (ran.congr ?_) hworld hinvocations hhang hpipes
    · rw [hstdin]
      exact h.feeds meet hn hin opens.grows
    · rw [h.stdout]
      rfl

end Wired

/-! ## 4. A whole line -/

/-- Every state that a run reaches is wired. -/
theorem Wired.of_reaches {nodes : List (Node Handle)} (meet : PipesMeet nodes) {sh : Shell}
    {w : World} {codes : Nat → ExitCode} {k : Nat} {r : Running}
    (h : Reaches sh.invoke nodes codes { world := w } k r) : Wired nodes w codes k r := by
  induction h with
  | start => exact .start
  | skip _ _ _ ih => exact ih.mono (Nat.le_succ _)
  | run _ hr hn ha ih =>
    obtain hnext | ⟨hnone, -⟩ := ih.invoke meet hn hr sh
    · rwa [ha] at hnext
    · rw [ha] at hnone
      cases hnone

/-- Every command that ran has been started. -/
theorem Reaches.started {sh : Shell} {nodes : List (Node Handle)} {w : World}
    {codes : Nat → ExitCode} {k : Nat} {r : Running}
    (h : Reaches sh.invoke nodes codes { world := w } k r) :
    ∀ i, i < k → runsAt nodes codes i = true → ∃ e ∈ r.invocations, e.index = i := by
  induction h with
  | start =>
    intro i hi
    omega
  | @skip k r _ _ hr ih =>
    intro i hi hrun
    refine ih i (Nat.lt_of_le_of_ne (Nat.le_of_lt_succ hi) ?_) hrun
    rintro rfl
    rw [hr] at hrun
    cases hrun
  | @run k r r' n _ _ _ ha ih =>
    intro i hi hrun
    obtain ⟨hnone, -⟩ | ⟨e, rfl, hstarted⟩ := sh.invocations_invoke k n r
    · rw [ha] at hnone
      cases hnone
    rw [ha] at hstarted
    rw [hstarted]
    rcases Nat.lt_succ_iff_lt_or_eq.mp hi with hi | rfl
    · obtain ⟨e', he', hindex⟩ := ih i hi hrun
      exact ⟨e', List.mem_append_left _ he', hindex⟩
    · exact ⟨e, List.mem_append_right _ List.mem_cons_self, rfl⟩

/-- **A run ends with a state that is wired, or with a command that goes on for ever.** The commands
that ran have been started, and none that was started is skipped. -/
theorem Shell.wired_drive (sh : Shell) {nodes : List (Node Handle)}
    (fresh : ∀ n ∈ nodes, n.result = none) (meet : PipesMeet nodes) (w : World) :
    let d := sh.drive nodes w
    ∃ codes k r, Wired nodes w codes k r ∧ d.state.invocations = r.invocations ∧
      d.state.world.stdout = r.world.stdout ∧
      (∀ e ∈ r.invocations, d.schedule.outcome d.nodes e.index ≠ .skipped) ∧
      (∀ i code, d.schedule.outcome d.nodes i = .ran code → ∃ e ∈ r.invocations, e.index = i) ∧
      ((d.state.hang = none ∧ d.state.world.files = r.world.files) ∨
        ∃ h, d.state.hang = some h ∧ d.schedule.outcome d.nodes h.index = .notRun ∧
          Hangs nodes r.invocations r.world.files h d.state.world.files) := by
  intro d
  obtain ⟨codes, k, s, hreach, hends⟩ := @run_reaches _ _ sh.invoke nodes { world := w } fresh
  have hwired := Wired.of_reaches meet hreach
  -- what the outcomes say where `r` has all commands that were started, and perhaps one more
  have outcomes : ∀ {s' r : Running} {k' : Nat}, d = moment nodes codes k s' →
      Wired nodes w codes k' r → (∀ e ∈ s.invocations, e ∈ r.invocations) →
      (∀ e ∈ r.invocations, d.schedule.outcome d.nodes e.index ≠ .skipped) ∧
        ∀ i code, d.schedule.outcome d.nodes i = .ran code → ∃ e ∈ r.invocations, e.index = i := by
    intro s' r k' hd hr hkept
    have outcome := outcome_moment codes fresh hreach.le_length s'
    rw [hd]
    refine ⟨fun e he => ?_, fun i code hran => ?_⟩
    · rw [outcome, hr.runs e he]
      split <;> simp
    · rw [outcome] at hran
      split at hran
      · rename_i hi
        split at hran
        · rename_i hruns
          obtain ⟨e, he, hindex⟩ := hreach.started i hi hruns
          exact ⟨e, hkept e he, hindex⟩
        · cases hran
      · cases hran
  obtain ⟨-, hd⟩ | ⟨n, s', hr, hn, ha, hd⟩ := hends
  · obtain ⟨hskipped, hran⟩ := outcomes hd hwired fun e he => he
    have hstate : d.state = s := congrArg Drive.state hd
    refine ⟨codes, k, s, hwired, ?_, ?_, hskipped, hran, .inl ⟨?_, ?_⟩⟩ <;> rw [hstate]
    exact hwired.hang
  · have hstate : d.state = s' := congrArg Drive.state hd
    have hstop := hwired.invoke meet hn hr sh
    have hrecord := sh.invocations_invoke k n s
    rw [ha] at hstop hrecord
    obtain hstop | ⟨-, hinvocations, hstdout, hang, hhang, rfl, hangs⟩ := hstop
    · have hkept : ∀ e ∈ s.invocations, e ∈ s'.invocations := by
        intro e he
        obtain ⟨-, h⟩ | ⟨e', -, h⟩ := hrecord <;> rw [h]
        · exact he
        · exact List.mem_append_left _ he
      obtain ⟨hskipped, hran⟩ := outcomes hd hstop hkept
      refine ⟨codes, k + 1, s', hstop, ?_, ?_, hskipped, hran, .inl ⟨?_, ?_⟩⟩ <;> rw [hstate]
      exact hstop.hang
    · obtain ⟨hskipped, hran⟩ := outcomes hd hwired fun e he => he
      refine ⟨codes, hang.index, s, hwired, ?_, ?_, hskipped, hran, .inr ⟨hang, ?_, ?_, ?_⟩⟩
      · rw [hstate, hinvocations]
      · rw [hstate, hstdout]
      · rw [hstate, hhang]
      · rw [show d = _ from hd, outcome_moment codes fresh hreach.le_length s',
          if_neg (Nat.lt_irrefl _)]
      · rw [hstate]
        exact hangs

end LineShell
