import LineShell.Schedule
import Mathlib.Data.List.Perm.Subperm

/-!
# Pulling and recording in any order

The schedule starts over on every call, from the codes as they are at that moment, and a caller may
record any code on any command at any time. So a code on which a gate was closed may change later.
What holds all the same rests on two facts about one search of the chain (`seek`): what it skips is
added to the skipped commands for good, and it ends either at a command without a code that is not
skipped (`of_seek_some`), or with every command of the chain decided (`decided_of_seek_none`).

* `Scheduled.after` is the state after any course of calls, a `ScheduleCall` each;
* `skipped_after`, `hasCode_after`, `Exhausted.after`: skipped commands, codes and the end of the
  chain are for good;
* `answer_next`, `next_next`: asking twice changes nothing;
* `Diligent` callers record what they are given, and are never given a command twice;
* `pulls_in_any_order`: all of this together, from a fresh schedule on.
-/

namespace LineShell

variable {α : Type}

/-! ## 1. One search -/

theorem Positions.mem_insert {i m : Nat} : ∀ {js : Positions}, m ∈ js.insert i ↔ m = i ∨ m ∈ js
  | [] => List.mem_cons
  | j :: js => by
    have ih := @mem_insert i m js
    rw [Positions.insert]
    split
    · exact List.mem_cons
    · split
      · rename_i hij
        rw [hij, List.mem_cons, or_self_left]
      · rw [List.mem_cons, ih, List.mem_cons]
        exact or_left_comm

theorem Positions.mem_insertAll {m : Nat} (is : List Nat) : ∀ {js : Positions},
    m ∈ js.insertAll is ↔ m ∈ js ∨ m ∈ is := by
  induction is with
  | nil => simp [insertAll]
  | cons i is ih =>
    intro js
    have step : js.insertAll (i :: is) = Positions.insertAll (js.insert i) is := rfl
    rw [step, ih, mem_insert, List.mem_cons, or_comm (a := m = i), or_assoc]

section Search

variable {skipped : Positions} {i : Nat} {gate : Operator} {last : Option ExitCode}
  {nodes : List (Node α)}

/-- What a search skips are positions of the commands that it looks at. -/
theorem mem_of_seek {m : Nat} (h : m ∈ (seek skipped i gate last nodes).2) :
    i ≤ m ∧ m < i + nodes.length := by
  fun_induction seek skipped i gate last nodes with
  | case1 => cases h
  | case2 i gate last n nodes code hcode ih =>
    have hm := ih h
    rw [List.length_cons]
    omega
  | case3 i gate last n nodes hcode hskipped ih =>
    have hm := ih h
    rw [List.length_cons]
    omega
  | case4 => cases h
  | case5 i gate last n nodes hcode hskipped hclosed found closed hseek ih =>
    rw [List.length_cons]
    rcases List.mem_cons.mp h with rfl | h
    · omega
    · have hm := ih (by rw [hseek]; exact h)
      omega

/-- **A command that is found has no code and is not skipped.** -/
theorem of_seek_some {j : Nat} (h : (seek skipped i gate last nodes).1 = some j) :
    ∃ k n, j = i + k ∧ nodes[k]? = some n ∧ n.result = none ∧ j ∉ skipped ∧
      j ∉ (seek skipped i gate last nodes).2 := by
  fun_induction seek skipped i gate last nodes with
  | case1 => cases h
  | case2 i gate last n nodes code hcode ih =>
    obtain ⟨k, m, rfl, hrest⟩ := ih h
    exact ⟨k + 1, m, by omega, hrest⟩
  | case3 i gate last n nodes hcode hskipped ih =>
    obtain ⟨k, m, rfl, hrest⟩ := ih h
    exact ⟨k + 1, m, by omega, hrest⟩
  | case4 i gate last n nodes hcode hskipped hopen =>
    cases h
    refine ⟨0, n, rfl, rfl, hcode, ?_, List.not_mem_nil⟩
    rwa [List.contains_iff_mem] at hskipped
  | case5 i gate last n nodes hcode hskipped hclosed found closed hseek ih =>
    rw [hseek] at ih
    obtain ⟨k, m, rfl, hget, hresult, hnew, hout⟩ := ih h
    refine ⟨k + 1, m, by omega, hget, hresult, hnew, fun hin => ?_⟩
    rcases List.mem_cons.mp hin with hi | hin
    · omega
    · exact hout hin

/-- **A search that finds nothing leaves no command undecided**: each has a code, was skipped
before, or is skipped now. -/
theorem decided_of_seek_none (h : (seek skipped i gate last nodes).1 = none) {k : Nat} {n : Node α}
    (hn : nodes[k]? = some n) (hcode : n.result = none) :
    i + k ∈ skipped ∨ i + k ∈ (seek skipped i gate last nodes).2 := by
  fun_induction seek skipped i gate last nodes generalizing k with
  | case1 => cases hn
  | case2 i gate last m nodes code hm ih =>
    cases k with
    | zero =>
      cases hn
      rw [hcode] at hm
      cases hm
    | succ k =>
      have hrest := ih h hn
      rwa [Nat.add_right_comm] at hrest
  | case3 i gate last m nodes hm hskipped ih =>
    cases k with
    | zero => exact .inl (List.contains_iff_mem.mp hskipped)
    | succ k =>
      have hrest := ih h hn
      rwa [Nat.add_right_comm] at hrest
  | case4 => cases h
  | case5 i gate last m nodes hm hskipped hclosed found closed hseek ih =>
    cases k with
    | zero => exact .inr List.mem_cons_self
    | succ k =>
      rw [hseek] at ih
      have hrest := ih h hn
      rw [Nat.add_right_comm] at hrest
      exact hrest.imp_right (List.mem_cons_of_mem i)

/-- **Once the commands that a search skipped are skipped, it goes the same way** and skips
nothing. -/
theorem seek_again {skipped' : Positions} (h : ∀ m, i ≤ m →
      (m ∈ skipped' ↔ m ∈ skipped ∨ m ∈ (seek skipped i gate last nodes).2)) :
    seek skipped' i gate last nodes = ((seek skipped i gate last nodes).1, []) := by
  fun_induction seek skipped i gate last nodes with
  | case1 => rfl
  | case2 i gate last n nodes code hcode ih =>
    simp only [seek, hcode]
    exact ih fun m hm => h m (by omega)
  | case3 i gate last n nodes hcode hskipped ih =>
    have hself : i ∈ skipped' :=
      (h i (Nat.le_refl i)).mpr (.inl (List.contains_iff_mem.mp hskipped))
    simp only [seek, hcode, List.contains_iff_mem.mpr hself, if_true]
    exact ih fun m hm => h m (by omega)
  | case4 i gate last n nodes hcode hskipped hopen =>
    have hself : i ∉ skipped' := by
      rw [h i (Nat.le_refl i), ← List.contains_iff_mem]
      exact fun e => e.elim hskipped List.not_mem_nil
    simp only [seek, hcode, List.contains_iff_mem, hself, if_false, hopen, if_true]
  | case5 i gate last n nodes hcode hskipped hclosed found closed hseek ih =>
    have hself : i ∈ skipped' := (h i (Nat.le_refl i)).mpr (.inr List.mem_cons_self)
    simp only [seek, hcode, List.contains_iff_mem.mpr hself, if_true]
    rw [hseek] at ih
    refine ih fun m hm => ?_
    have hne : m ≠ i := by omega
    rw [h m (by omega), List.mem_cons, or_iff_right hne]

/-- Where every command is decided a search finds nothing. -/
theorem seek_of_decided (h : ∀ k n, nodes[k]? = some n → n.result = none → i + k ∈ skipped) :
    (seek skipped i gate last nodes).1 = none := by
  cases hfound : (seek skipped i gate last nodes).1 with
  | none => rfl
  | some j =>
    obtain ⟨k, n, rfl, hn, hcode, hnew, -⟩ := of_seek_some hfound
    exact absurd (h k n hn hcode) hnew

end Search

/-! ## 2. Courses of calls -/

/-- What a caller does with a chain under way. -/
inductive ScheduleCall
  /-- Asks for the next command. -/
  | next
  /-- Records a code, whatever command it is recorded on. -/
  | record (i : Nat) (code : ExitCode)
  deriving DecidableEq, Repr

/-- A chain and its schedule between two calls. -/
structure Scheduled (α : Type) where
  nodes : List (Node α)
  schedule : Schedule := {}

namespace Scheduled

/-- What a caller is told who asks for the next command now. -/
def answer (s : Scheduled α) : Option Nat := (s.schedule.next s.nodes).1

def call (s : Scheduled α) : ScheduleCall → Scheduled α
  | .next => { s with schedule := (s.schedule.next s.nodes).2 }
  | .record i code => { s with nodes := recordAt s.nodes i code }

/-- The state after a course of calls. -/
def after (s : Scheduled α) (calls : List ScheduleCall) : Scheduled α := calls.foldl call s

/-- The commands that a caller is given in a course of calls, in order. -/
def given : Scheduled α → List ScheduleCall → List Nat
  | _, [] => []
  | s, .next :: calls => s.answer.toList ++ given (s.call .next) calls
  | s, .record i code :: calls => given (s.call (.record i code)) calls

/-- The command at position `i` has a code. -/
def HasCode (s : Scheduled α) (i : Nat) : Prop := ∃ code, s.nodes[i]?.bind Node.result = some code

/-- Every command of the chain has a code or is skipped. -/
def Exhausted (s : Scheduled α) : Prop :=
  ∀ i, i < s.nodes.length → s.HasCode i ∨ i ∈ s.schedule.skipped

variable {s : Scheduled α} {i : Nat}

theorem after_append (calls more : List ScheduleCall) :
    s.after (calls ++ more) = (s.after calls).after more := List.foldl_append

theorem after_concat (calls : List ScheduleCall) (c : ScheduleCall) :
    s.after (calls ++ [c]) = (s.after calls).call c := after_append calls [c]

theorem after_cons (c : ScheduleCall) (calls : List ScheduleCall) :
    s.after (c :: calls) = (s.call c).after calls := rfl

/-! ## 3. What a call leaves alone -/

@[simp] theorem nodes_call_next : (s.call .next).nodes = s.nodes := rfl

theorem mem_skipped_call_next : i ∈ (s.call .next).schedule.skipped ↔
    i ∈ s.schedule.skipped ∨ i ∈ (seek s.schedule.skipped 0 .endOfLine none s.nodes).2 :=
  Positions.mem_insertAll _

theorem answer_eq : s.answer = (seek s.schedule.skipped 0 .endOfLine none s.nodes).1 := rfl

theorem length_call (c : ScheduleCall) : (s.call c).nodes.length = s.nodes.length := by
  cases c with
  | next => rfl
  | record j code => exact List.length_modify ..

theorem length_after (calls : List ScheduleCall) :
    (s.after calls).nodes.length = s.nodes.length := by
  induction calls generalizing s with
  | nil => rfl
  | cons c calls ih => rw [after_cons, ih, length_call]

/-- **What is skipped stays skipped.** -/
theorem skipped_call (c : ScheduleCall) : s.schedule.skipped ⊆ (s.call c).schedule.skipped := by
  cases c with
  | next => exact fun _ hi => mem_skipped_call_next.mpr (.inl hi)
  | record j code => exact fun _ hi => hi

theorem skipped_after (calls : List ScheduleCall) :
    s.schedule.skipped ⊆ (s.after calls).schedule.skipped := by
  induction calls generalizing s with
  | nil => exact fun _ hi => hi
  | cons c calls ih => exact fun _ hi => ih (skipped_call c hi)

/-- Only commands of the chain are skipped. -/
theorem skipped_lt_call (h : ∀ i ∈ s.schedule.skipped, i < s.nodes.length) (c : ScheduleCall) :
    ∀ i ∈ (s.call c).schedule.skipped, i < (s.call c).nodes.length := by
  intro i hi
  rw [length_call]
  cases c with
  | next =>
    rcases mem_skipped_call_next.mp hi with hi | hi
    · exact h i hi
    · have hlt := (mem_of_seek hi).2
      omega
  | record j code => exact h i hi

theorem skipped_lt_after (h : ∀ i ∈ s.schedule.skipped, i < s.nodes.length)
    (calls : List ScheduleCall) :
    ∀ i ∈ (s.after calls).schedule.skipped, i < (s.after calls).nodes.length := by
  induction calls generalizing s with
  | nil => exact h
  | cons c calls ih => exact ih (skipped_lt_call h c)

/-- Recording a code on a command gives it one, and takes none from the others. -/
theorem hasCode_record {j : Nat} {code : ExitCode} (hj : j < s.nodes.length) :
    (s.call (.record j code)).HasCode j := by
  refine ⟨code, ?_⟩
  show ((recordAt s.nodes j code)[j]?).bind Node.result = some code
  rw [recordAt, List.getElem?_modify_eq, List.getElem?_eq_getElem hj]
  rfl

theorem hasCode_call (h : s.HasCode i) (c : ScheduleCall) : (s.call c).HasCode i := by
  cases c with
  | next => exact h
  | record j code =>
    by_cases hij : j = i
    · subst hij
      refine hasCode_record ?_
      obtain ⟨old, hold⟩ := h
      obtain ⟨n, hn, -⟩ := Option.bind_eq_some_iff.mp hold
      exact (List.getElem?_eq_some_iff.mp hn).1
    · obtain ⟨old, hold⟩ := h
      refine ⟨old, ?_⟩
      show ((recordAt s.nodes j code)[i]?).bind Node.result = some old
      rw [recordAt, List.getElem?_modify_ne _ _ hij, hold]

/-- **A command that has a code keeps one.** -/
theorem hasCode_after (h : s.HasCode i) (calls : List ScheduleCall) :
    (s.after calls).HasCode i := by
  induction calls generalizing s with
  | nil => exact h
  | cons c calls ih => exact ih (hasCode_call h c)

theorem not_hasCode_iff {n : Node α} (hn : s.nodes[i]? = some n) :
    ¬ s.HasCode i ↔ n.result = none := by
  rw [HasCode, hn, Option.bind_some, ← Option.isSome_iff_exists, Option.not_isSome_iff_eq_none]

/-! ## 4. Asking -/

/-- **A command that is given is one of the chain, has no code and is not skipped**, neither before
the call nor after it. -/
theorem of_answer (h : s.answer = some i) :
    i < s.nodes.length ∧ ¬ s.HasCode i ∧ i ∉ (s.call .next).schedule.skipped := by
  obtain ⟨k, n, hi, hn, hcode, hnew, hout⟩ := of_seek_some h
  rw [Nat.zero_add] at hi
  subst hi
  refine ⟨(List.getElem?_eq_some_iff.mp hn).1, (not_hasCode_iff hn).mpr hcode, ?_⟩
  rw [mem_skipped_call_next]
  exact fun e => e.elim hnew hout

/-- The search after a call goes the same way and skips nothing. -/
theorem seek_call_next :
    seek (s.call .next).schedule.skipped 0 .endOfLine none s.nodes = (s.answer, []) :=
  seek_again fun _ _ => mem_skipped_call_next

/-- **Asking twice gives the same answer.** -/
theorem answer_next : (s.call .next).answer = s.answer := by
  rw [answer_eq, nodes_call_next, seek_call_next]

/-- The second time nothing is skipped. -/
theorem next_next : (s.call .next).call .next = s.call .next := by
  show (⟨s.nodes, ⟨(s.call .next).schedule.skipped.insertAll
    (seek (s.call .next).schedule.skipped 0 .endOfLine none s.nodes).2⟩⟩ : Scheduled α) = _
  rw [seek_call_next]
  rfl

/-- Without an answer the chain is exhausted. -/
theorem exhausted_of_answer (h : s.answer = none) : (s.call .next).Exhausted := by
  intro i hi
  rw [length_call] at hi
  have hn : s.nodes[i]? = some s.nodes[i] := List.getElem?_eq_getElem hi
  by_cases hcode : s.HasCode i
  · exact .inl hcode
  · refine .inr (mem_skipped_call_next.mpr ?_)
    have hdecided := decided_of_seek_none h hn ((not_hasCode_iff hn).mp hcode)
    rwa [Nat.zero_add] at hdecided

theorem Exhausted.answer (h : s.Exhausted) : s.answer = none := by
  refine seek_of_decided fun k n hn hcode => ?_
  rw [Nat.zero_add]
  exact (h k (List.getElem?_eq_some_iff.mp hn).1).resolve_left ((not_hasCode_iff hn).mpr hcode)

/-- **An exhausted chain stays exhausted**, whatever is recorded. -/
theorem Exhausted.after (h : s.Exhausted) (calls : List ScheduleCall) :
    (s.after calls).Exhausted := by
  intro i hi
  rw [length_after] at hi
  exact (h i hi).imp (hasCode_after · calls) (skipped_after calls ·)

/-- **Once there is no next command there never is one again.** -/
theorem answer_after_none (h : s.answer = none) (calls : List ScheduleCall) :
    (s.after (.next :: calls)).answer = none :=
  ((exhausted_of_answer h).after calls).answer

/-! ## 5. Callers that record what they are given -/

/-- A caller that records every command that it is given before it asks for the next one. -/
def Diligent (s : Scheduled α) (calls : List ScheduleCall) : Prop :=
  ∀ (past between more : List ScheduleCall) (i : Nat),
    calls = past ++ .next :: (between ++ .next :: more) → (s.after past).answer = some i →
      ∃ code, .record i code ∈ between

theorem Diligent.tail {c : ScheduleCall} {calls : List ScheduleCall}
    (h : s.Diligent (c :: calls)) : (s.call c).Diligent calls := by
  intro past between more i hcalls
  refine h (c :: past) between more i ?_
  rw [hcalls, List.cons_append]

/-- A command that has been recorded is not given. -/
theorem hasCode_of_recorded {code : ExitCode} {calls : List ScheduleCall}
    (hi : i < s.nodes.length) (h : .record i code ∈ calls) : (s.after calls).HasCode i := by
  obtain ⟨past, more, rfl⟩ := List.append_of_mem h
  rw [after_append, after_cons]
  refine hasCode_after (hasCode_record ?_) more
  rwa [length_after]

/-- Whatever is given was an answer. -/
theorem mem_given {calls : List ScheduleCall} (h : i ∈ s.given calls) :
    ∃ past more, calls = past ++ .next :: more ∧ (s.after past).answer = some i := by
  induction calls generalizing s with
  | nil => cases h
  | cons c calls ih =>
    have later : ∀ {c}, i ∈ (s.call c).given calls → ∃ past more,
        c :: calls = past ++ .next :: more ∧ (s.after past).answer = some i := by
      intro c h
      obtain ⟨past, more, rfl, hanswer⟩ := ih h
      exact ⟨c :: past, more, rfl, hanswer⟩
    cases c with
    | next =>
      rcases List.mem_append.mp h with h | h
      · exact ⟨[], calls, rfl, Option.mem_toList.mp h⟩
      · exact later h
    | record j code => exact later h

theorem given_lt {calls : List ScheduleCall} (h : i ∈ s.given calls) : i < s.nodes.length := by
  obtain ⟨past, more, -, hanswer⟩ := mem_given h
  have hlt := (of_answer hanswer).1
  rwa [length_after] at hlt

/-- **A diligent caller is never given a command twice.** -/
theorem Diligent.nodup_given {calls : List ScheduleCall} (h : s.Diligent calls) :
    (s.given calls).Nodup := by
  induction calls generalizing s with
  | nil => exact List.nodup_nil
  | cons c calls ih =>
    have hrest := ih h.tail
    cases c with
    | record j code => exact hrest
    | next =>
      cases hanswer : s.answer with
      | none =>
        rw [given, hanswer]
        exact hrest
      | some i =>
        rw [given, hanswer]
        refine List.nodup_cons.mpr ⟨fun hagain => ?_, hrest⟩
        obtain ⟨past, more, hcalls, hlater⟩ := mem_given hagain
        obtain ⟨code, hrecord⟩ := h [] past more i (by rw [hcalls]; rfl) hanswer
        exact (of_answer hlater).2.1
          (hasCode_of_recorded (by rw [length_call]; exact (of_answer hanswer).1) hrecord)

/-- So it is given no more commands than the chain has. -/
theorem Diligent.length_given_le {calls : List ScheduleCall} (h : s.Diligent calls) :
    (s.given calls).length ≤ s.nodes.length := by
  have hsub : s.given calls ⊆ List.range s.nodes.length :=
    fun _ hi => List.mem_range.mpr (given_lt hi)
  have hle := (h.nodup_given.subperm hsub).length_le
  rwa [List.length_range] at hle

/-- As long as there is a next command, every call before was answered with one. -/
theorem length_given_of_answer {calls : List ScheduleCall} (h : (s.after calls).answer ≠ none) :
    (s.given calls).length = calls.count .next := by
  induction calls generalizing s with
  | nil => rfl
  | cons c calls ih =>
    have hrest := ih (s := s.call c) h
    cases c with
    | record j code => rw [given, hrest, List.count_cons_of_ne (by simp)]
    | next =>
      cases hanswer : s.answer with
      | none => exact absurd (answer_after_none hanswer calls) h
      | some i => rw [given, hanswer, Option.toList_some, List.singleton_append, List.length_cons,
          hrest, List.count_cons_self]

theorem given_concat (calls : List ScheduleCall) :
    s.given (calls ++ [.next]) = s.given calls ++ (s.after calls).answer.toList := by
  induction calls generalizing s with
  | nil => exact List.append_nil _
  | cons c calls ih =>
    cases c with
    | next => rw [List.cons_append, given, given, ih, List.append_assoc, after_cons]
    | record j code => rw [List.cons_append, given, given, ih, after_cons]

/-- **A diligent caller that has been given as many commands as the chain has is given no other.** -/
theorem Diligent.answer_of_length_le {calls : List ScheduleCall}
    (h : s.Diligent (calls ++ [.next])) (hlen : s.nodes.length ≤ calls.count .next) :
    (s.after calls).answer = none := by
  cases hanswer : (s.after calls).answer with
  | none => rfl
  | some i =>
    have hle := h.length_given_le
    have hcount : (s.given calls).length = calls.count .next :=
      length_given_of_answer (by rw [hanswer]; simp)
    rw [given_concat, hanswer, List.length_append, hcount, Option.toList_some,
      List.length_singleton] at hle
    omega

/-! ## 6. All courses -/

/-- What every course of calls keeps to, from a state on. -/
structure Steady (start : Scheduled α) : Prop where
  /-- The skipped commands only become more. -/
  grows : ∀ calls more, (start.after calls).schedule.skipped ⊆
    (start.after (calls ++ more)).schedule.skipped
  /-- They are commands of the chain. -/
  within : ∀ calls, ∀ i ∈ (start.after calls).schedule.skipped, i < start.nodes.length
  /-- A command that is given is one of the chain, has no code, and has never been skipped. -/
  fresh : ∀ calls i, (start.after calls).answer = some i →
    i < start.nodes.length ∧ (start.after calls).nodes[i]?.bind Node.result = none ∧
      ∀ past more, calls = past ++ more → i ∉ (start.after past).schedule.skipped
  /-- Asking again gives the same answer and skips nothing. -/
  again : ∀ calls, (start.after (calls ++ [.next])).answer = (start.after calls).answer ∧
    (start.after (calls ++ [.next, .next])).schedule = (start.after (calls ++ [.next])).schedule
  /-- After an answer without a command there is never one with a command. -/
  ended : ∀ calls more, (start.after calls).answer = none →
    (start.after (calls ++ .next :: more)).answer = none
  /-- A caller that records what it is given is given each command at most once. -/
  once : ∀ calls, start.Diligent calls →
    (start.given calls).Nodup ∧ (start.given calls).length ≤ start.nodes.length
  /-- After as many calls as the chain has commands such a caller is told that there is no other. -/
  ends : ∀ calls, start.Diligent (calls ++ [.next]) →
    start.nodes.length ≤ calls.count .next → (start.after calls).answer = none

/-- **Pulling and recording are safe in any order.** From a fresh schedule on, a caller may ask for
commands and record codes on any of them, in any order and again and again. -/
theorem pulls_in_any_order (nodes : List (Node α)) :
    Steady { nodes := nodes } where
  grows calls more := by
    rw [after_append]
    exact skipped_after more
  within calls i hi := by
    have hlt := skipped_lt_after (s := { nodes := nodes }) (fun _ h => absurd h List.not_mem_nil)
      calls i hi
    rwa [length_after] at hlt
  fresh calls i hanswer := by
    obtain ⟨hlt, hcode, hnew⟩ := of_answer hanswer
    rw [length_after] at hlt
    refine ⟨hlt, ?_, ?_⟩
    · rwa [HasCode, ← Option.isSome_iff_exists, Option.not_isSome_iff_eq_none] at hcode
    · rintro past more rfl hskipped
      rw [after_append] at hnew
      exact hnew (skipped_call .next (skipped_after more hskipped))
  again calls := by
    refine ⟨by rw [after_concat, answer_next], ?_⟩
    rw [after_append, after_concat, after_cons, after_cons]
    exact congrArg schedule next_next
  ended calls more hnone := by
    rw [after_append]
    exact answer_after_none hnone more
  once _ h := ⟨h.nodup_given, h.length_given_le⟩
  ends _ h hlen := h.answer_of_length_le hlen

/-- A command skipped after a failure stays skipped when the failure is taken back. -/
example :
    let node (op : Operator) : Node Unit :=
      { handle := (), segment := { typed := "", words := [], operator := op }, operator := op }
    let start : Scheduled Unit := { nodes := [node .andThen, node .endOfLine] }
    let s := start.after [.next, .record 0 1, .next, .record 0 0]
    s.schedule.skipped = [1] ∧ s.answer = none := by
  decide

end Scheduled
end LineShell
