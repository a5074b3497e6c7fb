import LineShell.Proofs.FirstFault
import Mathlib.Tactic.SplitIfs

/-!
# Which names are looked up

A command name is looked up when the segment that begins the command is read, and nothing else ever
is. So which names a line asks for can be read off its segments: they are the first words of those
segments that do not follow a redirection (`commandWords`).

* `TakesAll.words`, `Refuses.words`: the segments that have been read, and the one at which the
  reading stops, ask for their command words;
* `build_asked`: so a chain asks once for each of its commands, in order, and a line that makes no
  chain asks for the commands that begin up to the segment where it goes wrong. The name that is not
  known is the last one asked for, and it is the only one.
-/

namespace LineShell

variable {α : Type}

/-- The first words of the commands that begin among the segments, in order. Each segment is looked
at together with whether a redirection stands before it: then it holds the file of that, and begins
no command. `file` says this of the first segment. -/
def commandWords (file : Bool) (segs : List Segment) : List String :=
  (segs.zip (file :: segs.map (·.operator.takesFile))).filterMap fun p =>
    if p.2 then none else p.1.command?

@[simp] theorem commandWords_nil (file : Bool) : commandWords file [] = [] := rfl

theorem commandWords_cons (file : Bool) (s : Segment) (rest : List Segment) :
    commandWords file (s :: rest) =
      (if file then [] else s.command?.toList) ++ commandWords s.operator.takesFile rest := by
  cases file with
  | true => rfl
  | false => cases h : s.command? <;> simp [commandWords, h]

/-- The next segment has to be the file of a redirection. -/
def Phase.wantsFile : Phase α → Bool
  | .command => false
  | .file _ _ => true

variable {r : Resolver α} {label : String} {st st' : Stage α} {s : Segment} {names : List String}
  {e : ChainError}

/-! ## 1. Names of segments -/

theorem Draft.meet_wantsFile {d : Draft α} {op : Operator} {done : List (Node α)}
    (h : d.meet op done = .ok st) : st.2.wantsFile = op.takesFile := by
  obtain ⟨done', phase⟩ := st
  obtain ⟨hends, rfl, rfl⟩ | ⟨hred, -, rfl, rfl⟩ := Draft.meet_ok h
  · exact (Operator.isRedirection_of_endsCommand hends).symm
  · exact hred.symm

/-- A segment that is taken asks for its command word. -/
theorem Takes.words (h : Takes r st s names st') (rest : List Segment) :
    commandWords st.2.wantsFile (s :: rest) = names ++ commandWords st'.2.wantsFile rest := by
  rw [commandWords_cons]
  cases h with
  | blank hw hop =>
    rw [Segment.command?_eq_none_iff.mpr hw, hop]
    rfl
  | head hw hr hmeet =>
    rw [Segment.command?_of_words hw, Draft.meet_wantsFile hmeet]
    rfl
  | file hw hmeet =>
    rw [Draft.meet_wantsFile hmeet]
    rfl

/-- **The segments that have been read have asked for their command words**, and those after them go
on with whether a file is still missing. -/
theorem TakesAll.words {segs : List Segment} (h : TakesAll r st segs names st')
    (rest : List Segment) :
    commandWords st.2.wantsFile (segs ++ rest) = names ++ commandWords st'.2.wantsFile rest := by
  induction h with
  | nil => rfl
  | cons h _ ih => rw [List.cons_append, h.words, ih, List.append_assoc]

theorem Refuses.words (h : Refuses r label st s names e) :
    commandWords st.2.wantsFile [s] = names := by
  rw [commandWords_cons, commandWords_nil, List.append_nil]
  cases h with
  | nameless hw hop =>
    rw [Segment.command?_eq_none_iff.mpr hw]
    rfl
  | unknown hw hr =>
    rw [Segment.command?_of_words hw]
    rfl
  | argument hw => rfl
  | redirection hw hmeet => rfl

/-! ## 2. Names that are not known -/

theorem isNotFound_wrongArgument (op : Operator) (found : Nat) :
    (wrongArgument op found).isNotFound = false := by
  unfold wrongArgument
  split_ifs <;> rfl

theorem Draft.isNotFound_of_meet {d : Draft α} {op : Operator} {done : List (Node α)}
    (h : d.meet op done = .error e) : e.isNotFound = false := by
  unfold meet at h
  split_ifs at h
  split at h
  · rename_i e' hobjection
    cases h
    unfold objection at hobjection
    split_ifs at hobjection
    · cases hobjection
      rfl
    · obtain ⟨sink, -, rfl⟩ := Option.map_eq_some_iff.mp hobjection
      rfl
    · cases hobjection
      rfl
  · cases h

/-- A segment that is refused for its name has asked for that, and it resolves to nothing. -/
theorem Refuses.of_isNotFound (h : Refuses r label st s names e) (he : e.isNotFound = true) :
    ∃ name, e = .notFound name (r.suggest name) ∧ r.resolve name = none ∧
      s.command? = some name ∧ names = [name] := by
  cases h with
  | nameless hw hop => cases he
  | unknown hw hr => exact ⟨_, rfl, hr, Segment.command?_of_words hw, rfl⟩
  | argument hw => rw [isNotFound_wrongArgument] at he; cases he
  | redirection hw hmeet => rw [Draft.isNotFound_of_meet hmeet] at he; cases he

/-- A segment that is refused for anything else has asked for nothing. -/
theorem Refuses.names_eq_nil (h : Refuses r label st s names e) (he : e.isNotFound = false) :
    names = [] := by
  cases h with
  | unknown hw hr => cases he
  | nameless hw hop => rfl
  | argument hw => rfl
  | redirection hw hmeet => rfl

/-! ## 3. Names of a chain -/

/-- A line whose segments are all taken has asked for its command words. -/
theorem TakesAll.names_eq {segs : List Segment} (h : TakesAll r .start segs names st) :
    names = commandWords false segs := by
  have hwords := h.words []
  rw [List.append_nil, commandWords_nil, List.append_nil] at hwords
  exact hwords.symm

/-- A line that is refused at a segment has asked for the command words up to there. -/
theorem TakesAll.names_append {front : List Segment} {more : List String}
    (h : TakesAll r .start front names st) (hrefuses : Refuses r label st s more e)
    (back : List Segment) :
    names ++ more = commandWords false ((front ++ s :: back).take (front.length + 1)) := by
  rw [List.take_length_add_append, List.take_succ_cons, List.take_zero, ← hrefuses.words]
  exact (h.words [s]).symm

/-- A chain asks for the names of its commands. -/
theorem asked_of_ok {segs : List Segment} {nodes : List (Node α)}
    (h : (build r label segs).result = .ok nodes) :
    (build r label segs).asked = nodes.map Node.name ∧
      (build r label segs).asked = commandWords false segs := by
  have hok := (build_ok_iff_splits.mp h).1
  obtain ⟨names, ⟨done, phase⟩, htaken⟩ |
      ⟨front, s, back, names, st, more, e, rfl, htaken, hrefuses⟩ :=
    takesAll_or_refuses r label segs .start
  · rw [build_of_takesAll hok htaken] at h ⊢
    cases phase with
    | command =>
      obtain ⟨rfl, -⟩ := conclude_ok_iff.mp h
      exact ⟨htaken.commands_eq.symm, htaken.names_eq⟩
    | file d op => cases h
  · rw [build_of_refuses hok htaken hrefuses] at h
    cases h

/-- **Which names are looked up.** A line with a segment that is out of order asks for none. A chain
asks for the names of its commands, one after another; those are the first words of the segments
that begin commands, and never the file of a redirection. A line whose segments are in order and
that makes no chain asks for the commands that begin up to the segment where it goes wrong. If a
name is not found, then it is the one of that segment, asked for last, and all the others resolve;
if something else is wrong, all resolve. -/
theorem build_asked (r : Resolver α) (label : String) (segs : List Segment) :
    let a := build r label segs
    ((∃ s ∈ segs, s.status ≠ .ok) → a.asked = []) ∧
      (∀ nodes, a.result = .ok nodes →
        a.asked = nodes.map Node.name ∧ a.asked = commandWords false segs) ∧
      ∀ e, (∀ s ∈ segs, s.status = .ok) → a.result = .error e →
        ∃ k, Offends r label segs k ∧ a.asked = commandWords false (segs.take (k + 1)) ∧
          match e with
          | .notFound name _ => r.resolve name = none ∧
            (∃ s, segs[k]? = some s ∧ s.command? = some name) ∧
            ∃ known, a.asked = known ++ [name] ∧ ∀ n ∈ known, (r.resolve n).isSome = true
          | _ => ∀ n ∈ a.asked, (r.resolve n).isSome = true := by
  intro a
  refine ⟨fun hbad => ?_, fun nodes h => asked_of_ok h, fun e hok h => ?_⟩
  · obtain ⟨front, bad, back, rfl, hfront, hbad⟩ := exists_first_bad hbad
    simp only [a, build_of_not_ok hfront hbad]
    rfl
  · obtain ⟨names, st, htaken, hasked, hend⟩ |
        ⟨front, s, back, names, st, more, rfl, htaken, hrefuses⟩ := of_build_error hok h
    · refine ⟨segs.length, offends_of_takesAll label hok htaken, ?_, ?_⟩
      · rw [List.take_of_length_le (Nat.le_succ _)]
        exact hasked.trans htaken.names_eq
      · have hresolves : ∀ n ∈ a.asked, (r.resolve n).isSome = true := hasked ▸ htaken.resolves
        cases e with
        | notFound => cases hend
        | _ => exact hresolves
    · have hbuild : a = { asked := names ++ more, result := .error e } :=
        build_of_refuses hok htaken hrefuses
      refine ⟨front.length, offends_of_refuses hok htaken hrefuses, ?_, ?_⟩
      · rw [hbuild]
        exact htaken.names_append hrefuses back
      · cases he : e.isNotFound with
        | true =>
          obtain ⟨name, rfl, hname, hword, rfl⟩ := hrefuses.of_isNotFound he
          exact ⟨hname, ⟨s, by simp, hword⟩, names, by rw [hbuild], htaken.resolves⟩
        | false =>
          obtain rfl := hrefuses.names_eq_nil he
          have hresolves : ∀ n ∈ a.asked, (r.resolve n).isSome = true := by
            rw [hbuild, List.append_nil]
            exact htaken.resolves
          cases e with
          | notFound => cases he
          | _ => exact hresolves

/-- Files with the names of commands, and a name that is not known before others that are. -/
theorem build_asked_before_unknown :
    let r : Resolver Unit :=
      { resolve := fun name => if name = "cat" ∨ name = "wc" then some () else none }
    let part (words : List String) (op : Operator) : Segment :=
      { typed := "", words := words.map (⟨·, 0, .plain⟩), operator := op }
    let known := [part ["cat", "x"] .writeTo, part ["wc"] .pipe, part ["wc"] .endOfLine]
    let unknown := [part ["cat"] .readFrom, part ["wc"] .andThen, part ["nosuch"] .writeTo,
      part ["cat"] .semicolon, part ["wc"] .endOfLine]
    let bad : Segment := { part ["cat"] .endOfLine with status := .unclosedQuote }
    (build r "sh" (known ++ [bad])).asked = [] ∧
      (∃ nodes, (build r "sh" known).result = .ok nodes ∧
        (build r "sh" known).asked = nodes.map Node.name) ∧
      (build r "sh" unknown).result = .error (.notFound "nosuch" []) ∧
      ∃ k before, Offends r "sh" unknown k ∧
        (build r "sh" unknown).asked = commandWords false (unknown.take (k + 1)) ∧
        (build r "sh" unknown).asked = before ++ ["nosuch"] := by
  intro r part known unknown bad
  have hunknown : (build r "sh" unknown).result = .error (.notFound "nosuch" []) := rfl
  obtain ⟨k, hk, hasked, -, -, before, hbefore, -⟩ :=
    (build_asked r "sh" unknown).2.2 _ (by decide) hunknown
  exact ⟨(build_asked r "sh" (known ++ [bad])).1 ⟨bad, by simp, by decide⟩,
    ⟨_, rfl, ((build_asked r "sh" known).2.1 _ rfl).1⟩, hunknown, k, before, hk, hasked, hbefore⟩

end LineShell
