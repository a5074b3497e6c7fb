import LineShell.Chain.Build

/-!
# The grammar of a chain

A `Clause` is one command as it stands among the segments: the segment with its words, then one
segment of exactly one word for each redirection, at most one source before at most one sink, and at
the end an operator that is no redirection. `Splits` says that a list of segments is a sequence of
clauses, with empty segments at the end of a line wherever a command may begin, and `Realizes` what
chain the clauses stand for.

The building of a chain is exactly that grammar:

* `assemble_clause`: a clause whose name resolves becomes its node;
* `assemble_command_ok`: a chain that is built begins with an empty segment or with a clause;
* `build_ok_iff`: so a chain is built if and only if the segments split, and it is theirs.
-/

namespace LineShell

variable {α : Type}

/-! ## 1. Clauses -/

/-- The operator of a sink, by whether the output is appended. -/
def Operator.ofSink (append : Bool) : Operator := if append then .appendTo else .writeTo

/-- The single word of a segment that names a file. -/
def Segment.file (s : Segment) : String := s.texts.headD ""

/-- One command with its redirections, as segments. -/
structure Clause where
  /-- The segment with the command word and its arguments. -/
  head : Segment
  /-- The segment with the file of the source. -/
  source : Option Segment := none
  /-- The segment with the file of the sink, and whether the output is appended to it. -/
  sink : Option (Segment × Bool) := none
  /-- The operator that ends the command. -/
  operator : Operator
  named : head.words ≠ []
  source_word : ∀ s ∈ source, s.words.length = 1
  sink_word : ∀ s ∈ sink, s.1.words.length = 1
  /-- The segments are ended by the redirections that follow them, and the last one by the operator
  of the command. -/
  ended : (head :: (source.toList ++ (sink.map Prod.fst).toList)).map Segment.operator =
    (source.map fun _ => Operator.readFrom).toList ++
      ((sink.map fun s => Operator.ofSink s.2).toList ++ [operator])
  ends : operator.endsCommand = true

namespace Clause

/-- The segments of the clause. -/
def segments (c : Clause) : List Segment :=
  c.head :: (c.source.toList ++ (c.sink.map Prod.fst).toList)

/-- The name of the command. -/
def name (c : Clause) : String := c.head.texts.headD ""

/-- Where the command reads; `piped` says that the command before it feeds a pipe. -/
def input (c : Clause) (piped : Bool) : Input :=
  match c.source with
  | some s => .file s.file
  | none => if piped then .piped else .none

/-- Where the command writes. -/
def output (c : Clause) : Output :=
  match c.sink with
  | some (s, append) => .file s.file append
  | none => .none

/-- The node of the clause. -/
def node (c : Clause) (handle : α) (piped : Bool) : Node α :=
  { handle := handle, segment := c.head, input := c.input piped, output := c.output,
    operator := c.operator, result := none }

end Clause

/-- The segments are a sequence of clauses. Where a command may begin there may be segments with
nothing in them that the end of a line has ended. -/
inductive Splits : List Segment → List Clause → Prop
  | nil : Splits [] []
  | blank {s : Segment} {rest : List Segment} {cs : List Clause} (hw : s.words = [])
      (hop : s.operator = .endOfLine) (h : Splits rest cs) : Splits (s :: rest) cs
  | clause {c : Clause} {rest : List Segment} {cs : List Clause} (h : Splits rest cs) :
      Splits (c.segments ++ rest) (c :: cs)

/-- The nodes are those of the clauses, each with the handle of its name. The first clause comes
after a pipe if `piped` says so. -/
inductive Realizes (r : Resolver α) : (piped : Bool) → List Clause → List (Node α) → Prop
  | nil {piped : Bool} : Realizes r piped [] []
  | cons {piped : Bool} {c : Clause} {handle : α} {cs : List Clause} {ns : List (Node α)}
      (hr : r.resolve c.name = some handle) (h : Realizes r (c.operator == .pipe) cs ns) :
      Realizes r piped (c :: cs) (c.node handle piped :: ns)

/-! ## 2. Words and operators -/

theorem Segment.command?_eq_none_iff {s : Segment} : s.command? = none ↔ s.words = [] := by
  rw [Segment.command?, Segment.texts, List.head?_eq_none_iff, List.map_eq_nil_iff]

theorem Segment.command?_of_words {s : Segment} (h : s.words ≠ []) :
    s.command? = some (s.texts.headD "") := by
  cases hw : s.words with
  | nil => exact absurd hw h
  | cons w ws => simp [Segment.command?, Segment.texts, hw]

theorem Segment.texts_of_length {s : Segment} (h : s.words.length = 1) : s.texts = [s.file] := by
  obtain ⟨w, hw⟩ := List.length_eq_one_iff.mp h
  simp [Segment.file, Segment.texts, hw]

theorem Segment.length_of_texts {s : Segment} {path : String} (h : s.texts = [path]) :
    s.words.length = 1 ∧ s.file = path := by
  refine ⟨?_, by rw [Segment.file, h]; rfl⟩
  have hlen := congrArg List.length h
  rwa [Segment.texts, List.length_map] at hlen

/-- A redirection is the source or one of the two sinks. -/
theorem Operator.redirection_cases {op : Operator} (h : op.isRedirection = true) :
    op = .readFrom ∨ ∃ append, op = .ofSink append := by
  cases op with
  | readFrom => exact .inl rfl
  | writeTo => exact .inr ⟨false, rfl⟩
  | appendTo => exact .inr ⟨true, rfl⟩
  | _ => cases h

@[simp] theorem Operator.isRedirection_ofSink (append : Bool) :
    (Operator.ofSink append).isRedirection = true := by
  cases append <;> rfl

@[simp] theorem Operator.isSource_ofSink (append : Bool) :
    (Operator.ofSink append).isSource = false := by
  cases append <;> rfl

@[simp] theorem Operator.ofSink_beq_appendTo (append : Bool) :
    (Operator.ofSink append == .appendTo) = append := by
  cases append <;> rfl

theorem Operator.ofSink_ne_endOfLine (append : Bool) : Operator.ofSink append ≠ .endOfLine := by
  cases append <;> decide

theorem Operator.isRedirection_of_endsCommand {op : Operator} (h : op.endsCommand = true) :
    op.isRedirection = false := by
  rwa [Operator.endsCommand, Bool.not_eq_true'] at h

/-! ## 3. A command under way -/

namespace Draft

@[simp] theorem attach_readFrom (d : Draft α) (path : String) :
    d.attach .readFrom path = { d with source := some path } := rfl

@[simp] theorem attach_ofSink (d : Draft α) (append : Bool) (path : String) :
    d.attach (Operator.ofSink append) path = { d with sink := some (path, append) } := by
  simp [attach]

/-- An operator that ends a command finishes the draft. -/
theorem meet_of_ends (d : Draft α) {op : Operator} (h : op.endsCommand = true)
    (done : List (Node α)) :
    d.meet op done = .ok (done ++ [d.finish op (done.getLast?.any Node.feedsPipe)], .command) := by
  rw [meet, Operator.isRedirection_of_endsCommand h]
  rfl

/-- A redirection to which there is no objection waits for its file. -/
theorem meet_of_redirection (d : Draft α) {op : Operator} (h : op.isRedirection = true)
    (hobj : d.objection op = none) (done : List (Node α)) :
    d.meet op done = .ok (done, .file d op) := by
  rw [meet, if_pos h, hobj]

/-- What an operator can do to a draft, errors apart. -/
theorem meet_ok {d : Draft α} {op : Operator} {done done' : List (Node α)} {phase : Phase α}
    (h : d.meet op done = .ok (done', phase)) :
    (op.endsCommand = true ∧ done' = done ++ [d.finish op (done.getLast?.any Node.feedsPipe)] ∧
        phase = .command) ∨
      (op.isRedirection = true ∧ d.objection op = none ∧ done' = done ∧ phase = .file d op) := by
  cases hred : op.isRedirection with
  | false =>
    have hends : op.endsCommand = true := by rw [Operator.endsCommand, hred]; rfl
    rw [d.meet_of_ends hends] at h
    cases h
    exact .inl ⟨hends, rfl, rfl⟩
  | true =>
    cases hobj : d.objection op with
    | none =>
      rw [d.meet_of_redirection hred hobj] at h
      cases h
      exact .inr ⟨rfl, rfl, rfl, rfl⟩
    | some e =>
      rw [meet, if_pos hred, hobj] at h
      cases h

/-- A draft with a sink takes no redirection. -/
theorem objection_of_sink {d : Draft α} {op : Operator} (h : d.sink.isSome = true) :
    d.objection op ≠ none := by
  obtain ⟨s, hs⟩ := Option.isSome_iff_exists.mp h
  rw [objection, sinkOperator, hs]
  split
  · split <;> exact Option.some_ne_none _
  · exact Option.some_ne_none _

/-- A draft with a source takes no other source. -/
theorem objection_of_source {d : Draft α} (h : d.source.isSome = true) :
    d.objection .readFrom ≠ none := by
  have hsource : Operator.readFrom.isSource = true := rfl
  rw [objection, if_pos hsource, if_pos h]
  exact Option.some_ne_none _

theorem objection_ofSink {d : Draft α} (h : d.sink = none) (append : Bool) :
    d.objection (Operator.ofSink append) = none := by
  simp [objection, h]

theorem objection_readFrom {d : Draft α} (h : d.source = none) (h' : d.sink = none) :
    d.objection .readFrom = none := by
  simp [objection, sinkOperator, h, h', Operator.isSource]

end Draft

/-! ## 4. What the grammar accepts is built -/

section Assemble

variable {r : Resolver α} {label : String}

theorem assemble_blank {s : Segment} (hw : s.words = []) (hop : s.operator = .endOfLine)
    (done : List (Node α)) (rest : List Segment) :
    assemble r label done .command (s :: rest) = assemble r label done .command rest := by
  rw [assemble, Segment.command?_eq_none_iff.mpr hw]
  exact if_pos hop

/-- A segment with words opens a draft for its name, which meets the operator of the segment. -/
theorem assemble_head {s : Segment} {handle : α} (hw : s.words ≠ [])
    (hr : r.resolve (s.texts.headD "") = some handle) {done done' : List (Node α)}
    {phase : Phase α} {rest : List Segment}
    (hmeet : ({ handle := handle, segment := s } : Draft α).meet s.operator done =
      .ok (done', phase)) :
    assemble r label done .command (s :: rest) =
      .asking (s.texts.headD "") (assemble r label done' phase rest) := by
  rw [assemble, Segment.command?_of_words hw]
  simp only [hr, hmeet]

/-- A segment of one word gives the draft its file, and the draft meets the operator of the
segment. -/
theorem assemble_file {s : Segment} (hw : s.words.length = 1) {d : Draft α} {op : Operator}
    {done done' : List (Node α)} {phase : Phase α} {rest : List Segment}
    (hmeet : (d.attach op s.file).meet s.operator done = .ok (done', phase)) :
    assemble r label done (.file d op) (s :: rest) = assemble r label done' phase rest := by
  rw [assemble, Segment.texts_of_length hw]
  simp only [hmeet]

/-- **A clause whose name resolves becomes its node**, and its name is the only one asked for. -/
theorem assemble_clause (c : Clause) {handle : α} (hr : r.resolve c.name = some handle)
    (done : List (Node α)) (rest : List Segment) :
    assemble r label done .command (c.segments ++ rest) =
      .asking c.name (assemble r label
        (done ++ [c.node handle (done.getLast?.any Node.feedsPipe)]) .command rest) := by
  obtain ⟨head, source, sink, op, named, hsource, hsink, ended, ends⟩ := c
  let d : Draft α := { handle := handle, segment := head }
  let piped := done.getLast?.any Node.feedsPipe
  rcases source with - | s <;> rcases sink with - | ⟨t, append⟩
  · have hop : head.operator = op := by simpa using ended
    have h : d.meet head.operator done = .ok (done ++ [d.finish op piped], .command) := by
      rw [hop, Draft.meet_of_ends _ ends]
    exact assemble_head named hr h
  · obtain ⟨hhead, hop⟩ : head.operator = .ofSink append ∧ t.operator = op := by simpa using ended
    let d' : Draft α := { d with sink := some (t.file, append) }
    have h1 : d.meet head.operator done = .ok (done, .file d (.ofSink append)) := by
      rw [hhead]
      exact d.meet_of_redirection (by simp) (Draft.objection_ofSink rfl append) done
    have h2 : (d.attach (.ofSink append) t.file).meet t.operator done =
        .ok (done ++ [d'.finish op piped], .command) := by
      rw [Draft.attach_ofSink, hop, Draft.meet_of_ends _ ends]
    exact (assemble_head named hr h1).trans (congrArg _ (assemble_file (hsink _ rfl) h2))
  · obtain ⟨hhead, hop⟩ : head.operator = .readFrom ∧ s.operator = op := by simpa using ended
    let d' : Draft α := { d with source := some s.file }
    have h1 : d.meet head.operator done = .ok (done, .file d .readFrom) := by
      rw [hhead]
      exact d.meet_of_redirection rfl (Draft.objection_readFrom rfl rfl) done
    have h2 : (d.attach .readFrom s.file).meet s.operator done =
        .ok (done ++ [d'.finish op piped], .command) := by
      rw [Draft.attach_readFrom, hop, Draft.meet_of_ends _ ends]
    exact (assemble_head named hr h1).trans (congrArg _ (assemble_file (hsource _ rfl) h2))
  · obtain ⟨hhead, hmid, hop⟩ : head.operator = .readFrom ∧ s.operator = .ofSink append ∧
        t.operator = op := by simpa using ended
    let d' : Draft α := { d with source := some s.file }
    let d'' : Draft α := { d' with sink := some (t.file, append) }
    have h1 : d.meet head.operator done = .ok (done, .file d .readFrom) := by
      rw [hhead]
      exact d.meet_of_redirection rfl (Draft.objection_readFrom rfl rfl) done
    have h2 : (d.attach .readFrom s.file).meet s.operator done =
        .ok (done, .file d' (.ofSink append)) := by
      rw [Draft.attach_readFrom, hmid]
      exact d'.meet_of_redirection (by simp) (Draft.objection_ofSink rfl append) done
    have h3 : (d'.attach (.ofSink append) t.file).meet t.operator done =
        .ok (done ++ [d''.finish op piped], .command) := by
      rw [Draft.attach_ofSink, hop, Draft.meet_of_ends _ ends]
    exact (assemble_head named hr h1).trans (congrArg _
      ((assemble_file (hsource _ rfl) h2).trans (assemble_file (hsink _ rfl) h3)))

/-- The segments of clauses are read as the nodes of the clauses. -/
theorem assemble_of_splits {segs : List Segment} {cs : List Clause} (h : Splits segs cs) :
    ∀ {done ns : List (Node α)}, Realizes r (done.getLast?.any Node.feedsPipe) cs ns →
      (assemble r label done .command segs).result = conclude (done ++ ns) := by
  induction h with
  | nil =>
    intro done ns hns
    cases hns
    rw [List.append_nil]
    rfl
  | blank hw hop _ ih =>
    intro done ns hns
    rw [assemble_blank hw hop]
    exact ih hns
  | @clause c rest cs _ ih =>
    intro done ns hns
    cases hns with
    | @cons _ _ handle _ ns hr hns =>
      have ih' := @ih (done ++ [c.node handle (done.getLast?.any Node.feedsPipe)]) ns
      rw [List.getLast?_concat] at ih'
      rw [assemble_clause c hr, Assembly.asking, ih' hns, List.append_assoc]
      rfl

/-! ## 5. What is built is in the grammar -/

/-- A draft that waits for a file gets one, if a chain is built. -/
theorem assemble_file_ok {done nodes : List (Node α)} {d : Draft α} {op : Operator}
    {segs : List Segment} (h : (assemble r label done (.file d op) segs).result = .ok nodes) :
    ∃ s rest done' phase, segs = s :: rest ∧ s.words.length = 1 ∧
      (d.attach op s.file).meet s.operator done = .ok (done', phase) ∧
      (assemble r label done' phase rest).result = .ok nodes := by
  cases segs with
  | nil =>
    rw [assemble] at h
    cases h
  | cons s rest =>
    rw [assemble] at h
    split at h
    · rename_i path htexts
      obtain ⟨hlen, hfile⟩ := Segment.length_of_texts htexts
      split at h
      · cases h
      · rename_i done' phase hmeet
        rw [← hfile] at hmeet
        exact ⟨s, rest, done', phase, rfl, hlen, hmeet, h⟩
    · cases h

/-- Where a command may begin, a chain that is built ends, goes on after an empty segment, or has a
draft for a name that resolves. -/
theorem assemble_head_ok {done nodes : List (Node α)} {segs : List Segment}
    (h : (assemble r label done .command segs).result = .ok nodes) :
    (segs = [] ∧ conclude done = .ok nodes) ∨
      ∃ s rest, segs = s :: rest ∧
        ((s.words = [] ∧ s.operator = .endOfLine ∧
            (assemble r label done .command rest).result = .ok nodes) ∨
          (s.words ≠ [] ∧ ∃ handle done' phase, r.resolve (s.texts.headD "") = some handle ∧
            ({ handle := handle, segment := s } : Draft α).meet s.operator done =
              .ok (done', phase) ∧
            (assemble r label done' phase rest).result = .ok nodes)) := by
  cases segs with
  | nil =>
    rw [assemble] at h
    exact .inl ⟨rfl, h⟩
  | cons s rest =>
    refine .inr ⟨s, rest, rfl, ?_⟩
    by_cases hw : s.words = []
    · rw [assemble, Segment.command?_eq_none_iff.mpr hw] at h
      simp only at h
      split at h
      · rename_i hop
        exact .inl ⟨hw, hop, h⟩
      · cases h
    · rw [assemble, Segment.command?_of_words hw] at h
      simp only [Assembly.asking] at h
      split at h
      · cases h
      · rename_i handle hr
        split at h
        · cases h
        · rename_i done' phase hmeet
          exact .inr ⟨hw, handle, done', phase, hr, hmeet, h⟩

/-- **A chain that is built begins with an empty segment or with a clause.** -/
theorem assemble_command_ok {done nodes : List (Node α)} {segs : List Segment}
    (h : (assemble r label done .command segs).result = .ok nodes) :
    (segs = [] ∧ conclude done = .ok nodes) ∨
      (∃ s rest, segs = s :: rest ∧ s.words = [] ∧ s.operator = .endOfLine ∧
        (assemble r label done .command rest).result = .ok nodes) ∨
      (∃ (c : Clause) (handle : α) (rest : List Segment), segs = c.segments ++ rest ∧
        r.resolve c.name = some handle ∧
        (assemble r label (done ++ [c.node handle (done.getLast?.any Node.feedsPipe)]) .command
          rest).result = .ok nodes) := by
  obtain hend | ⟨s, rest, rfl, ⟨hw, hop, hrest⟩ | ⟨hw, handle, done', phase, hr, hmeet, hrest⟩⟩ :=
    assemble_head_ok h
  · exact .inl hend
  · exact .inr (.inl ⟨s, rest, rfl, hw, hop, hrest⟩)
  -- the draft meets at most two redirections, a source and then a sink
  refine .inr (.inr ?_)
  obtain ⟨hends, rfl, rfl⟩ | ⟨hred, -, rfl, rfl⟩ := Draft.meet_ok hmeet
  · let c : Clause := ⟨s, none, none, s.operator, hw, by simp, by simp, by simp, hends⟩
    exact ⟨c, handle, rest, rfl, hr, hrest⟩
  obtain ⟨t, rest, done', phase, rfl, ht, hmeet, hrest⟩ := assemble_file_ok hrest
  obtain hop | ⟨append, hop⟩ := Operator.redirection_cases hred
  · rw [hop, Draft.attach_readFrom] at hmeet
    obtain ⟨hends, rfl, rfl⟩ | ⟨hred, hobj, rfl, rfl⟩ := Draft.meet_ok hmeet
    · let c : Clause :=
        ⟨s, some t, none, t.operator, hw, by simpa using ht, by simp, by simp [hop], hends⟩
      exact ⟨c, handle, rest, rfl, hr, hrest⟩
    obtain ⟨u, rest, done', phase, rfl, hu, hmeet, hrest⟩ := assemble_file_ok hrest
    obtain hop' | ⟨append, hop'⟩ := Operator.redirection_cases hred
    · rw [hop'] at hobj
      exact absurd hobj (Draft.objection_of_source rfl)
    rw [hop', Draft.attach_ofSink] at hmeet
    obtain ⟨hends, rfl, rfl⟩ | ⟨-, hobj, -, -⟩ := Draft.meet_ok hmeet
    · let c : Clause := ⟨s, some t, some (u, append), u.operator, hw, by simpa using ht,
        by simpa using hu, by simp [hop, hop'], hends⟩
      exact ⟨c, handle, rest, rfl, hr, hrest⟩
    · exact absurd hobj (Draft.objection_of_sink rfl)
  · rw [hop, Draft.attach_ofSink] at hmeet
    obtain ⟨hends, rfl, rfl⟩ | ⟨-, hobj, -, -⟩ := Draft.meet_ok hmeet
    · let c : Clause :=
        ⟨s, none, some (t, append), t.operator, hw, by simp, by simpa using ht, by simp [hop],
          hends⟩
      exact ⟨c, handle, rest, rfl, hr, hrest⟩
    · exact absurd hobj (Draft.objection_of_sink rfl)

/-- The segments of a chain that is built are clauses, and the chain is what they stand for. The
induction is on the number of segments, since a clause takes up to three of them. -/
theorem splits_of_assemble : ∀ (n : Nat) {segs : List Segment} {done nodes : List (Node α)},
    segs.length ≤ n → (assemble r label done .command segs).result = .ok nodes →
      ∃ cs ns, Splits segs cs ∧ Realizes r (done.getLast?.any Node.feedsPipe) cs ns ∧
        conclude (done ++ ns) = .ok nodes := by
  intro n
  induction n with
  | zero =>
    intro segs done nodes hn h
    rw [List.length_eq_zero_iff.mp (Nat.le_zero.mp hn)] at h ⊢
    exact ⟨[], [], .nil, .nil, by rw [List.append_nil]; exact h⟩
  | succ n ih =>
    intro segs done nodes hn h
    obtain ⟨rfl, hend⟩ | ⟨s, rest, rfl, hw, hop, hrest⟩ | ⟨c, handle, rest, rfl, hr, hrest⟩ :=
      assemble_command_ok h
    · exact ⟨[], [], .nil, .nil, by rw [List.append_nil, hend]⟩
    · rw [List.length_cons] at hn
      obtain ⟨cs, ns, hcs, hns, hend⟩ := ih (by omega) hrest
      exact ⟨cs, ns, .blank hw hop hcs, hns, hend⟩
    · rw [Clause.segments, List.cons_append, List.length_cons, List.length_append] at hn
      obtain ⟨cs, ns, hcs, hns, hend⟩ := ih (by omega) hrest
      rw [List.getLast?_concat] at hns
      refine ⟨c :: cs, _, .clause hcs, .cons hr hns, ?_⟩
      rw [← hend, List.append_assoc]
      rfl

end Assemble

/-! ## 6. The grammar -/

/-- The operators after which a line has to go on. -/
def continues (op : Operator) : Prop := op = .pipe ∨ op = .andThen ∨ op = .orElse

theorem needsCommand_iff {op : Operator} : needsCommand op = true ↔ continues op := by
  cases op <;> simp [needsCommand, continues]

theorem conclude_ok_iff {done nodes : List (Node α)} :
    conclude done = .ok nodes ↔ nodes = done ∧ ∀ n ∈ done.getLast?, ¬ continues n.operator := by
  cases h : done.getLast? with
  | none =>
    simp only [conclude, h, Except.ok.injEq]
    exact ⟨fun e => ⟨e.symm, by simp⟩, fun e => e.1.symm⟩
  | some last =>
    simp only [conclude, h, Option.mem_some_iff, forall_eq', ← needsCommand_iff]
    cases needsCommand last.operator with
    | false => simpa using eq_comm
    | true => simp

/-- The last node ends where the last clause does. -/
theorem Realizes.operator_getLast? {r : Resolver α} {piped : Bool} {cs : List Clause}
    {ns : List (Node α)} (h : Realizes r piped cs ns) :
    ns.getLast?.map Node.operator = cs.getLast?.map Clause.operator := by
  induction h with
  | nil => rfl
  | @cons piped c handle cs ns hr h ih =>
    rw [List.getLast?_cons, List.getLast?_cons]
    cases hcs : cs.getLast? <;> cases hns : ns.getLast? <;> simp_all [Clause.node]

/-- Clauses stand for a chain if and only if all their names resolve. -/
theorem exists_realizes_iff {r : Resolver α} : ∀ {cs : List Clause} {piped : Bool},
    (∃ ns, Realizes r piped cs ns) ↔ ∀ c ∈ cs, (r.resolve c.name).isSome = true
  | [], _ => ⟨fun _ => by simp, fun _ => ⟨[], .nil⟩⟩
  | c :: cs, piped => by
    rw [List.forall_mem_cons, ← @exists_realizes_iff r cs (c.operator == .pipe)]
    constructor
    · rintro ⟨_, _ | ⟨hr, h⟩⟩
      exact ⟨by rw [hr]; rfl, _, h⟩
    · rintro ⟨hr, ns, h⟩
      obtain ⟨handle, hr⟩ := Option.isSome_iff_exists.mp hr
      exact ⟨_, .cons hr h⟩

/-- A chain is built from segments in order by what they split into. -/
theorem build_ok_iff_splits {r : Resolver α} {label : String} {segs : List Segment}
    {nodes : List (Node α)} :
    (build r label segs).result = .ok nodes ↔
      (∀ s ∈ segs, s.status = .ok) ∧ ∃ cs, Splits segs cs ∧ Realizes r false cs nodes ∧
        ∀ c ∈ cs.getLast?, ¬ continues c.operator := by
  have hstatus : (segs.find? (!·.isOk) = none) ↔ ∀ s ∈ segs, s.status = .ok := by
    simp [Segment.isOk]
  have hlast : ∀ {cs : List Clause}, Realizes r false cs nodes →
      ((∀ n ∈ nodes.getLast?, ¬ continues n.operator) ↔
        ∀ c ∈ cs.getLast?, ¬ continues c.operator) := by
    intro cs h
    have e := h.operator_getLast?
    cases hc : cs.getLast? <;> cases hn : nodes.getLast? <;> simp_all
  rw [← hstatus]
  cases hfind : segs.find? (!·.isOk) with
  | some bad => simp [build, hfind, Assembly.stop]
  | none =>
    simp only [build, hfind, true_and]
    constructor
    · intro h
      obtain ⟨cs, ns, hcs, hns, hend⟩ := splits_of_assemble _ (Nat.le_refl _) h
      obtain ⟨rfl, hend⟩ := conclude_ok_iff.mp hend
      exact ⟨cs, hcs, hns, (hlast hns).mp hend⟩
    · rintro ⟨cs, hcs, hns, hend⟩
      rw [@assemble_of_splits _ r label _ _ hcs [] _ hns]
      exact conclude_ok_iff.mpr ⟨rfl, (hlast hns).mpr hend⟩

/-- **A chain is built exactly from the lines of the grammar.** The segments are all in order, they
split into clauses, all names resolve, and the last clause does not ask for another one; and then
the chain is the nodes of the clauses. -/
theorem build_ok_iff (r : Resolver α) (label : String) (segs : List Segment) :
    ((∃ nodes, (build r label segs).result = .ok nodes) ↔
        (∀ s ∈ segs, s.status = .ok) ∧ ∃ cs, Splits segs cs ∧
          (∀ c ∈ cs, (r.resolve c.name).isSome = true) ∧
          ∀ c ∈ cs.getLast?, ¬ continues c.operator) ∧
      ∀ nodes, (build r label segs).result = .ok nodes ↔
        (∀ s ∈ segs, s.status = .ok) ∧ ∃ cs, Splits segs cs ∧ Realizes r false cs nodes ∧
          ∀ c ∈ cs.getLast?, ¬ continues c.operator := by
  refine ⟨?_, fun nodes => build_ok_iff_splits⟩
  simp only [build_ok_iff_splits, ← @exists_realizes_iff _ r _ false]
  constructor
  · rintro ⟨nodes, hok, cs, hcs, hns, hend⟩
    exact ⟨hok, cs, hcs, ⟨nodes, hns⟩, hend⟩
  · rintro ⟨hok, cs, hcs, ⟨nodes, hns⟩, hend⟩
    exact ⟨nodes, hok, cs, hcs, hns, hend⟩

/-! ## 7. How far the building comes -/

theorem completeFrom_of_assemble (r : Resolver α) (label : String) (done : List (Node α)) (phase : Phase α)
    (segments : List Segment) {nodes : List (Node α)}
    (h : (assemble r label done phase segments).result = .ok nodes) :
    completeFrom r done phase segments = nodes := by
  fun_induction assemble r label done phase segments with
  | case1 done =>
    obtain ⟨rfl, -⟩ := conclude_ok_iff.mp h
    rw [completeFrom]
  | case2 => cases h
  | case3 done s rest hname hend ih =>
    simp only [completeFrom, hname, if_pos hend]
    exact ih h
  | case4 => cases h
  | case5 done s rest name hname ih =>
    rw [Assembly.asking] at h
    simp only [completeFrom, hname]
    cases hresolve : r.resolve name with
    | none =>
      rw [hresolve] at h
      cases h
    | some handle =>
      rw [hresolve] at h
      cases hmeet : ({ handle := handle, segment := s } : Draft α).meet s.operator done with
      | error e =>
        simp only [hmeet] at h
        cases h
      | ok met =>
        simp only [hmeet] at h
        simp only [hmeet]
        exact ih met.1 met.2 h
  | case6 => cases h
  | case7 done draft op s rest path htexts done' phase hmeet ih =>
    simp only [completeFrom, htexts, hmeet]
    exact ih h
  | case8 => cases h

/-- The commands of a chain that was built are complete. -/
theorem completeNodes_of_build {r : Resolver α} {label : String} {segments : List Segment}
    {nodes : List (Node α)} (h : (build r label segments).result = .ok nodes) :
    completeNodes r segments = nodes := by
  rw [build] at h
  split at h
  · cases h
  · rename_i hgood
    have hok : segments.all Segment.isOk = true :=
      List.all_eq_true.mpr fun s hs => by simpa using List.find?_eq_none.mp hgood s hs
    rw [completeNodes, if_pos hok]
    exact completeFrom_of_assemble r label [] .command segments h

end LineShell
