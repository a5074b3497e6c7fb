import LineShell.Proofs.ChainGrammar

/-!
# The first fault of a line

Segments are read one after another into a chain. Each of them is taken or refused on the spot, by
what was read before it, and nothing that comes later is looked at. What the end of the line adds is
that a file or a command may still be missing.

* `Takes` and `Refuses` are what can become of one segment, with the names that are asked for, and
  one of the two is what becomes of it (`takes_or_refuses`);
* `TakesAll` is the taking of one segment after another. Either all of them are taken, or the
  reading stops at one that is refused (`takesAll_or_refuses`);
* `Offends` says where a line goes wrong without a look at how it is read: at the first segment
  after which nothing makes a chain any more. That is the segment that is refused
  (`offends_of_refuses`);
* `build_append_error`: so the error of a line is that of its first fault. Unless something is only
  missing at the end, what is added to the line changes the error by nothing but a segment that is
  out of order itself.
-/

namespace LineShell

variable {α : Type}

/-! ## 1. One segment -/

/-- How far the building has come: the commands that are done, and what comes next. -/
abbrev Stage (α : Type) := List (Node α) × Phase α

/-- The stage before the first segment. -/
def Stage.start : Stage α := ([], .command)

/-- The assembly, with several names asked for before. -/
def Assembly.askingAll (names : List String) (a : Assembly α) : Assembly α :=
  { a with asked := names ++ a.asked }

/-- The rest of the segments, from a stage on. -/
def Stage.assemble (r : Resolver α) (label : String) (st : Stage α) (segs : List Segment) :
    Assembly α := LineShell.assemble r label st.1 st.2 segs

/-- The names of the commands that are done or under way. -/
def Stage.commands : Stage α → List String
  | (done, .command) => done.map Node.name
  | (done, .file d _) => done.map Node.name ++ [d.segment.command?.getD ""]

/-- A segment is taken: the names asked for, and the stage after it. -/
inductive Takes (r : Resolver α) : Stage α → Segment → List String → Stage α → Prop
  | blank {done : List (Node α)} {s : Segment} (hw : s.words = []) (hop : s.operator = .endOfLine) :
      Takes r (done, .command) s [] (done, .command)
  | head {done : List (Node α)} {s : Segment} {handle : α} {st : Stage α} (hw : s.words ≠ [])
      (hr : r.resolve (s.texts.headD "") = some handle)
      (hmeet : ({ handle := handle, segment := s } : Draft α).meet s.operator done = .ok st) :
      Takes r (done, .command) s [s.texts.headD ""] st
  | file {done : List (Node α)} {d : Draft α} {op : Operator} {s : Segment} {st : Stage α}
      (hw : s.words.length = 1) (hmeet : (d.attach op s.file).meet s.operator done = .ok st) :
      Takes r (done, .file d op) s [] st

/-- A segment is refused: the names asked for, and the error. -/
inductive Refuses (r : Resolver α) (label : String) :
    Stage α → Segment → List String → ChainError → Prop
  | nameless {done : List (Node α)} {s : Segment} (hw : s.words = [])
      (hop : s.operator ≠ .endOfLine) :
      Refuses r label (done, .command) s [] (emptyCommand label s.operator)
  | unknown {done : List (Node α)} {s : Segment} (hw : s.words ≠ [])
      (hr : r.resolve (s.texts.headD "") = none) :
      Refuses r label (done, .command) s [s.texts.headD ""]
        (.notFound (s.texts.headD "") (r.suggest (s.texts.headD "")))
  | argument {done : List (Node α)} {d : Draft α} {op : Operator} {s : Segment}
      (hw : s.words.length ≠ 1) :
      Refuses r label (done, .file d op) s [] (wrongArgument op s.words.length)
  | redirection {done : List (Node α)} {d : Draft α} {op : Operator} {s : Segment} {e : ChainError}
      (hw : s.words.length = 1) (hmeet : (d.attach op s.file).meet s.operator done = .error e) :
      Refuses r label (done, .file d op) s [] e

/-- A command without redirections accepts every operator. -/
theorem Draft.meet_new (handle : α) (s : Segment) (op : Operator) (done : List (Node α)) :
    ∃ st, ({ handle := handle, segment := s } : Draft α).meet op done = .ok st := by
  cases hred : op.isRedirection with
  | false =>
    have hends : op.endsCommand = true := by rw [Operator.endsCommand, hred]; rfl
    exact ⟨_, Draft.meet_of_ends _ hends done⟩
  | true =>
    obtain rfl | ⟨append, rfl⟩ := Operator.redirection_cases hred
    · exact ⟨_, Draft.meet_of_redirection _ hred (Draft.objection_readFrom rfl rfl) done⟩
    · exact ⟨_, Draft.meet_of_redirection _ hred (Draft.objection_ofSink rfl append) done⟩

section Stage

variable {r : Resolver α} {label : String} {st st' : Stage α} {s : Segment} {names : List String}
  {e : ChainError}

theorem Takes.assemble (h : Takes r st s names st') (rest : List Segment) :
    st.assemble r label (s :: rest) = .askingAll names (st'.assemble r label rest) := by
  cases h with
  | blank hw hop => exact assemble_blank hw hop _ rest
  | head hw hr hmeet => exact assemble_head hw hr hmeet
  | file hw hmeet => exact assemble_file hw hmeet

theorem Refuses.assemble (h : Refuses r label st s names e) (rest : List Segment) :
    st.assemble r label (s :: rest) = { asked := names, result := .error e } := by
  cases h with
  | nameless hw hop =>
    rw [Stage.assemble, LineShell.assemble, Segment.command?_eq_none_iff.mpr hw]
    exact if_neg hop
  | unknown hw hr =>
    rw [Stage.assemble, LineShell.assemble, Segment.command?_of_words hw]
    simp only [hr]
    rfl
  | argument hw =>
    rw [Stage.assemble, LineShell.assemble]
    split
    · rename_i path htexts
      exact absurd (Segment.length_of_texts htexts).1 hw
    · rw [Segment.texts, List.length_map]
      rfl
  | redirection hw hmeet =>
    rw [Stage.assemble, LineShell.assemble, Segment.texts_of_length hw]
    simp only [hmeet]
    rfl

/-- **Every segment is taken or refused**, whatever comes after it. -/
theorem takes_or_refuses (r : Resolver α) (label : String) (st : Stage α) (s : Segment) :
    (∃ names st', Takes r st s names st') ∨ ∃ names e, Refuses r label st s names e := by
  obtain ⟨done, - | ⟨d, op⟩⟩ := st
  · by_cases hw : s.words = []
    · by_cases hop : s.operator = .endOfLine
      · exact .inl ⟨_, _, .blank hw hop⟩
      · exact .inr ⟨_, _, .nameless hw hop⟩
    · cases hr : r.resolve (s.texts.headD "") with
      | none => exact .inr ⟨_, _, .unknown hw hr⟩
      | some handle =>
        obtain ⟨st', hmeet⟩ := Draft.meet_new handle s s.operator done
        exact .inl ⟨_, _, .head hw hr hmeet⟩
  · by_cases hw : s.words.length = 1
    · cases hmeet : (d.attach op s.file).meet s.operator done with
      | ok st' => exact .inl ⟨_, _, .file hw hmeet⟩
      | error e => exact .inr ⟨_, _, .redirection hw hmeet⟩
    · exact .inr ⟨_, _, .argument hw⟩

/-! ## 2. Segment after segment -/

/-- The segments are taken one after another: the names asked for, and the stage after them. -/
inductive TakesAll (r : Resolver α) : Stage α → List Segment → List String → Stage α → Prop
  | nil {st : Stage α} : TakesAll r st [] [] st
  | cons {st st' st'' : Stage α} {s : Segment} {segs : List Segment} {names more : List String}
      (h : Takes r st s names st') (hsegs : TakesAll r st' segs more st'') :
      TakesAll r st (s :: segs) (names ++ more) st''

theorem TakesAll.assemble {front : List Segment} (h : TakesAll r st front names st')
    (rest : List Segment) :
    st.assemble r label (front ++ rest) = .askingAll names (st'.assemble r label rest) := by
  induction h with
  | nil => rfl
  | cons h _ ih =>
    rw [List.cons_append, h.assemble, ih]
    simp [Assembly.askingAll]

/-- **All segments are read, or the reading stops at one of them.** -/
theorem takesAll_or_refuses (r : Resolver α) (label : String) :
    ∀ (segs : List Segment) (st : Stage α), (∃ names st', TakesAll r st segs names st') ∨
      ∃ front s back names st' more e, segs = front ++ s :: back ∧ TakesAll r st front names st' ∧
        Refuses r label st' s more e
  | [], st => .inl ⟨[], st, .nil⟩
  | s :: segs, st => by
    obtain ⟨names, st', htakes⟩ | ⟨names, e, hrefuses⟩ := takes_or_refuses r label st s
    · obtain ⟨more, st'', htaken⟩ | ⟨front, t, back, more, st'', asked, e, rfl, htaken, hrefuses⟩ :=
        takesAll_or_refuses r label segs st'
      · exact .inl ⟨_, _, .cons htakes htaken⟩
      · exact .inr ⟨s :: front, t, back, _, st'', asked, e, rfl, .cons htakes htaken, hrefuses⟩
    · exact .inr ⟨[], s, segs, [], st, names, e, rfl, .nil, hrefuses⟩

/-! ## 3. A line -/

/-- Segments that are in order are read from the start. -/
theorem build_of_ok {segs : List Segment} (hok : ∀ s ∈ segs, s.status = .ok) :
    build r label segs = Stage.start.assemble r label segs := by
  have hfind : segs.find? (!·.isOk) = none := by simpa [Segment.isOk] using hok
  rw [build, hfind]
  rfl

/-- The first segment that is out of order stops the building before anything is asked for. -/
theorem build_of_not_ok {front back : List Segment} {bad : Segment}
    (hfront : ∀ s ∈ front, s.status = .ok) (hbad : bad.status ≠ .ok) :
    build r label (front ++ bad :: back) =
      .stop (.error (.malformed bad.status (bad.error.getD ""))) := by
  have hfind : (front ++ bad :: back).find? (!·.isOk) = some bad := by
    rw [List.find?_append, List.find?_eq_none.mpr (by simpa [Segment.isOk] using hfront)]
    simp [Segment.isOk, hbad]
  rw [build, hfind]

theorem exists_first_bad {segs : List Segment} (h : ∃ s ∈ segs, s.status ≠ .ok) :
    ∃ front bad back, segs = front ++ bad :: back ∧ (∀ s ∈ front, s.status = .ok) ∧
      bad.status ≠ .ok := by
  cases hfind : segs.find? (!·.isOk) with
  | none =>
    obtain ⟨s, hs, hbad⟩ := h
    rw [List.find?_eq_none] at hfind
    exact absurd (hfind s hs) (by simp [Segment.isOk, hbad])
  | some bad =>
    obtain ⟨hbad, front, back, rfl, hfront⟩ := List.find?_eq_some_iff_append.mp hfind
    exact ⟨front, bad, back, rfl, by simpa [Segment.isOk] using hfront,
      by simpa [Segment.isOk] using hbad⟩

/-- If all segments are taken, the end of the line has the last word, and asks for nothing. -/
theorem build_of_takesAll {segs : List Segment} (hok : ∀ s ∈ segs, s.status = .ok)
    (h : TakesAll r .start segs names st) :
    build r label segs = { asked := names, result := (st.assemble r label []).result } := by
  have hend : (st.assemble r label []).asked = [] := by
    obtain ⟨done, - | ⟨d, op⟩⟩ := st
    all_goals
      rw [Stage.assemble, LineShell.assemble]
      rfl
  rw [build_of_ok hok, ← List.append_nil segs, h.assemble, Assembly.askingAll, hend,
    List.append_nil]

/-- What comes after a segment that is refused changes nothing. -/
theorem build_of_refuses {front back : List Segment} {more : List String}
    (hok : ∀ t ∈ front ++ s :: back, t.status = .ok) (hfront : TakesAll r .start front names st)
    (hrefuses : Refuses r label st s more e) :
    build r label (front ++ s :: back) = { asked := names ++ more, result := .error e } := by
  rw [build_of_ok hok, hfront.assemble, hrefuses.assemble]
  rfl

/-! ## 4. Where a line goes wrong -/

/-- The segments can be gone on with so that they make a chain. -/
def Completable (r : Resolver α) (label : String) (segs : List Segment) : Prop :=
  ∃ more nodes, (build r label (segs ++ more)).result = .ok nodes

/-- The segment with number `k` is the first after which nothing makes a chain any more. If `k` is
the number of the segments, they only stop too early. -/
structure Offends (r : Resolver α) (label : String) (segs : List Segment) (k : Nat) : Prop where
  le_length : k ≤ segs.length
  before : Completable r label (segs.take k)
  after : k < segs.length → ¬ Completable r label (segs.take (k + 1))

theorem Draft.meet_commands {d : Draft α} {op : Operator} {done : List (Node α)}
    (h : d.meet op done = .ok st) :
    st.commands = done.map Node.name ++ [d.segment.command?.getD ""] := by
  obtain ⟨done', phase⟩ := st
  obtain ⟨-, rfl, rfl⟩ | ⟨-, -, rfl, rfl⟩ := Draft.meet_ok h
  · rw [Stage.commands, List.map_append]
    rfl
  · rfl

@[simp] theorem Draft.attach_segment (d : Draft α) (op : Operator) (path : String) :
    (d.attach op path).segment = d.segment := by
  unfold attach
  split <;> rfl

/-- The commands that a segment brings are those whose names it asks for. -/
theorem Takes.commands_eq (h : Takes r st s names st') : st'.commands = st.commands ++ names := by
  cases h with
  | blank hw hop => rw [List.append_nil]
  | head hw hr hmeet =>
    rw [Draft.meet_commands hmeet, Segment.command?_of_words hw]
    rfl
  | file hw hmeet =>
    rw [Draft.meet_commands hmeet, Draft.attach_segment, List.append_nil]
    rfl

theorem TakesAll.commands_eq {segs : List Segment} (h : TakesAll r st segs names st') :
    st'.commands = st.commands ++ names := by
  induction h with
  | nil => rw [List.append_nil]
  | cons h _ ih => rw [ih, h.commands_eq, List.append_assoc]

/-- Whatever is asked for on the way resolves. -/
theorem TakesAll.resolves {segs : List Segment} (h : TakesAll r st segs names st') :
    ∀ name ∈ names, (r.resolve name).isSome = true := by
  induction h with
  | nil => exact fun _ h => by cases h
  | cons h _ ih =>
    intro name hname
    obtain hname | hname := List.mem_append.mp hname
    · cases h with
      | head hw hr hmeet => rw [List.mem_singleton.mp hname, hr]; rfl
      | blank hw hop => cases hname
      | file hw hmeet => cases hname
    · exact ih name hname

/-- A segment of one word at the end of a line. -/
def Segment.closing (word : String) : Segment :=
  { typed := word, words := [⟨word, 0, .plain⟩], operator := .endOfLine }

theorem meet_endOfLine (done : List (Node α)) (d : Draft α) :
    d.meet .endOfLine done =
      .ok (done ++ [d.finish .endOfLine (done.getLast?.any Node.feedsPipe)], .command) :=
  Draft.meet_of_ends d rfl done

/-- A command that the end of the line ends makes the chain complete. -/
theorem Takes.completes {done : List (Node α)} {d : Draft α} {piped : Bool} (label : String)
    (h : Takes r st s names (done ++ [d.finish .endOfLine piped], .command)) :
    (st.assemble r label [s]).result = .ok (done ++ [d.finish .endOfLine piped]) := by
  rw [h.assemble, Assembly.askingAll, Stage.assemble, LineShell.assemble, Assembly.stop, conclude,
    List.getLast?_concat]
  rfl

/-- **From every stage a line can be completed**: by a file if one is missing, else by a command
that the line has already, if there is one. -/
theorem Stage.exists_completion (label : String) (st : Stage α)
    (h : ∀ name ∈ st.commands, (r.resolve name).isSome = true) :
    ∃ more nodes, (∀ s ∈ more, s.status = .ok) ∧ (st.assemble r label more).result = .ok nodes := by
  obtain ⟨done, - | ⟨d, op⟩⟩ := st
  · cases hlast : done.getLast? with
    | none =>
      refine ⟨[], done, by simp, ?_⟩
      simp [Stage.assemble, LineShell.assemble, Assembly.stop, conclude, hlast]
    | some last =>
      have hmem : last.name ∈ Stage.commands (done, .command) :=
        List.mem_map_of_mem (List.mem_of_getLast? hlast)
      obtain ⟨handle, hr⟩ := Option.isSome_iff_exists.mp (h _ hmem)
      have htakes : Takes r (done, .command) (.closing last.name) _ _ :=
        .head (List.cons_ne_nil _ _) hr (meet_endOfLine done _)
      exact ⟨_, _, by simp [Segment.closing], htakes.completes label⟩
  · have htakes : Takes r (done, .file d op) (.closing "") _ _ :=
      .file rfl (meet_endOfLine done _)
    exact ⟨_, _, by simp [Segment.closing], htakes.completes label⟩

theorem TakesAll.completable {segs : List Segment} (label : String)
    (hok : ∀ s ∈ segs, s.status = .ok) (h : TakesAll r .start segs names st) : Completable r label segs := by
  have hcommands : ∀ name ∈ st.commands, (r.resolve name).isSome = true := by
    rw [h.commands_eq]
    exact h.resolves
  obtain ⟨more, nodes, hmore, hnodes⟩ := Stage.exists_completion label st hcommands
  refine ⟨more, nodes, ?_⟩
  rw [build_of_ok (List.forall_mem_append.mpr ⟨hok, hmore⟩), h.assemble]
  exact hnodes

theorem Refuses.not_completable {front : List Segment} {more : List String}
    (hfront : TakesAll r .start front names st) (h : Refuses r label st s more e) :
    ¬ Completable r label (front ++ [s]) := by
  rintro ⟨rest, nodes, hnodes⟩
  rw [List.append_assoc, List.singleton_append] at hnodes
  have hok := (build_ok_iff_splits.mp hnodes).1
  rw [build_of_refuses hok hfront h] at hnodes
  cases hnodes

/-- **A line goes wrong at the segment that is refused.** -/
theorem offends_of_refuses {front back : List Segment} {more : List String}
    (hok : ∀ t ∈ front ++ s :: back, t.status = .ok) (hfront : TakesAll r .start front names st)
    (h : Refuses r label st s more e) : Offends r label (front ++ s :: back) front.length where
  le_length := by simp
  before := by
    rw [List.take_left]
    exact hfront.completable label fun t ht => hok t (List.mem_append_left _ ht)
  after := by
    intro _
    rw [List.take_length_add_append]
    exact h.not_completable hfront

theorem offends_of_takesAll {segs : List Segment} (label : String)
    (hok : ∀ s ∈ segs, s.status = .ok) (h : TakesAll r .start segs names st) :
    Offends r label segs segs.length where
  le_length := Nat.le_refl _
  before := by
    rw [List.take_length]
    exact h.completable label hok
  after := fun hlt => absurd hlt (Nat.lt_irrefl _)

/-! ## 5. Errors -/

/-- The errors that nothing mends. A file or a command that is missing at the end of the line may
still come. -/
def ChainError.isFinal : ChainError → Bool
  | .missingArgument _ | .missingCommand _ => false
  | _ => true

/-- What the end of the line finds wrong is not final. -/
theorem not_isFinal_of_end (h : (st.assemble r label []).result = .error e) :
    e.isFinal = false := by
  obtain ⟨done, - | ⟨d, op⟩⟩ := st
  · rw [Stage.assemble, LineShell.assemble, Assembly.stop, conclude] at h
    split at h
    · split at h
      · cases h
        rfl
      · cases h
    · cases h
  · rw [Stage.assemble, LineShell.assemble] at h
    cases h
    rfl

/-- **Where an error comes from**, if all segments are in order: the end of the line, when all of
them have been taken, or the segment that was refused. -/
theorem of_build_error {segs : List Segment} (hok : ∀ s ∈ segs, s.status = .ok)
    (h : (build r label segs).result = .error e) :
    (∃ names st, TakesAll r .start segs names st ∧ (build r label segs).asked = names ∧
        e.isFinal = false) ∨
      ∃ front s back names st more, segs = front ++ s :: back ∧ TakesAll r .start front names st ∧
        Refuses r label st s more e := by
  obtain ⟨names, st, htaken⟩ | ⟨front, s, back, names, st, more, e', rfl, htaken, hrefuses⟩ :=
    takesAll_or_refuses r label segs .start
  · rw [build_of_takesAll hok htaken] at h ⊢
    exact .inl ⟨names, st, htaken, rfl, not_isFinal_of_end h⟩
  · rw [build_of_refuses hok htaken hrefuses] at h
    cases h
    exact .inr ⟨front, s, back, names, st, more, rfl, htaken, hrefuses⟩

/-- A line with a segment that is out of order is not built further than to that. -/
theorem build_append_of_bad {xs : List Segment} (h : ∃ s ∈ xs, s.status ≠ .ok) (ys : List Segment) :
    build r label (xs ++ ys) = build r label xs := by
  obtain ⟨front, bad, back, rfl, hfront, hbad⟩ := exists_first_bad h
  rw [List.append_assoc, List.cons_append, build_of_not_ok hfront hbad, build_of_not_ok hfront hbad]

/-- An error that is final stands at a segment, which is refused before the rest is looked at. -/
theorem build_append_of_isFinal {xs ys : List Segment} (hxs : ∀ s ∈ xs, s.status = .ok)
    (hys : ∀ s ∈ ys, s.status = .ok) (h : (build r label xs).result = .error e)
    (hfinal : e.isFinal = true) : (build r label (xs ++ ys)).result = .error e := by
  obtain ⟨-, -, -, -, hend⟩ | ⟨front, s, back, names, st, more, rfl, htaken, hrefuses⟩ :=
    of_build_error hxs h
  · rw [hend] at hfinal
    cases hfinal
  · have hok := List.forall_mem_append.mpr ⟨hxs, hys⟩
    rw [List.append_assoc, List.cons_append] at hok ⊢
    rw [build_of_refuses hok htaken hrefuses]

/-- The error of a line is that of its segments up to the one that offends. -/
theorem exists_offends {xs : List Segment} (hxs : ∀ s ∈ xs, s.status = .ok)
    (h : (build r label xs).result = .error e) :
    ∃ k, Offends r label xs k ∧ (build r label (xs.take (k + 1))).result = .error e := by
  obtain ⟨names, st, htaken, -, -⟩ | ⟨front, s, back, names, st, more, rfl, htaken, hrefuses⟩ :=
    of_build_error hxs h
  · refine ⟨xs.length, offends_of_takesAll label hxs htaken, ?_⟩
    rwa [List.take_of_length_le (Nat.le_succ _)]
  · refine ⟨front.length, offends_of_refuses hxs htaken hrefuses, ?_⟩
    have hok : ∀ t ∈ front ++ [s], t.status = .ok := by
      rw [List.append_cons] at hxs
      exact fun t ht => hxs t (List.mem_append_left _ ht)
    rw [List.take_length_add_append, List.take_succ_cons, List.take_zero,
      build_of_refuses hok htaken hrefuses]

end Stage

/-- **The error of a line is that of its first fault, and what follows does not change it.** If the
segments `xs` make no chain, for another reason than that something is missing at their end, then
they make none for the same reason with any segments in order after them; and if one of `xs` is
itself out of order, with any segments. If only the segments `ys` after them are out of order, then
the first of those is what is wrong, whatever `xs` are. The error of `xs` is that of the segments up
to the first one after which nothing makes a chain. -/
theorem build_append_error (r : Resolver α) (label : String) (xs ys : List Segment) :
    (∀ e, (build r label xs).result = .error e → e.isFinal = true →
        (∃ s ∈ xs, s.status ≠ .ok) ∨ (∀ s ∈ ys, s.status = .ok) →
        (build r label (xs ++ ys)).result = .error e) ∧
      (∀ front bad back, (∀ s ∈ xs, s.status = .ok) → ys = front ++ bad :: back →
        (∀ s ∈ front, s.status = .ok) → bad.status ≠ .ok →
        (build r label (xs ++ ys)).result =
          .error (.malformed bad.status (bad.error.getD ""))) ∧
      ∀ e, (∀ s ∈ xs, s.status = .ok) → (build r label xs).result = .error e →
        ∃ k, Offends r label xs k ∧ (build r label (xs.take (k + 1))).result = .error e := by
  refine ⟨fun e he hfinal hys => ?_, fun front bad back hxs hys hfront hbad => ?_,
    fun e hxs he => exists_offends hxs he⟩
  · by_cases hxs : ∃ s ∈ xs, s.status ≠ .ok
    · rw [build_append_of_bad hxs]
      exact he
    · have hok : ∀ s ∈ xs, s.status = .ok := fun s hs =>
        Decidable.byContradiction fun hbad => hxs ⟨s, hs, hbad⟩
      exact build_append_of_isFinal hok (hys.resolve_left hxs) he hfinal
  · rw [hys, ← List.append_assoc,
      build_of_not_ok (List.forall_mem_append.mpr ⟨hxs, hfront⟩) hbad]
    rfl

/-- A second source and an unknown name after it, then a quotation that is not closed. -/
theorem build_append_error_of_second_source :
    let r : Resolver Unit := { resolve := fun name => if name = "cat" then some () else none }
    let part (words : List String) (op : Operator) : Segment :=
      { typed := "", words := words.map (⟨·, 0, .plain⟩), operator := op }
    let xs := [part ["cat"] .readFrom, part ["a"] .readFrom, part ["b"] .pipe]
    let ys := [part ["nosuch"] .semicolon]
    let bad : Segment :=
      { part ["echo", "x"] .endOfLine with
        status := .unclosedQuote, error := some "sh: unclosed quote" }
    (build r "sh" xs).result = .error (.duplicateRedirection .readFrom) ∧
      (build r "sh" (xs ++ ys)).result = .error (.duplicateRedirection .readFrom) ∧
      (build r "sh" (xs ++ (ys ++ [bad]))).result =
        .error (.malformed .unclosedQuote "sh: unclosed quote") ∧
      ∃ k, Offends r "sh" xs k ∧
        (build r "sh" (xs.take (k + 1))).result = .error (.duplicateRedirection .readFrom) := by
  intro r part xs ys bad
  have hxs : (build r "sh" xs).result = .error (.duplicateRedirection .readFrom) := rfl
  have hok : ∀ s ∈ xs, s.status = .ok := by decide
  have hys : ∀ s ∈ ys, s.status = .ok := by decide
  refine ⟨hxs, (build_append_error r "sh" xs ys).1 _ hxs rfl (.inr hys),
    (build_append_error r "sh" xs (ys ++ [bad])).2.1 ys bad [] hok rfl hys (by decide),
    (build_append_error r "sh" xs ys).2.2 _ hok hxs⟩

end LineShell
