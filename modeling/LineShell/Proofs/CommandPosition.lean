import LineShell.Proofs.ChainGrammar
import LineShell.Proofs.CursorFree

/-!
# What stands at a command position

A chain takes every word of its line in one of three roles (`WordRole`): it is the name of a command,
an argument, or the file of a redirection. Completion knows the number of a word in its segment and
nothing of the segments before it.

* `PartOf`: which part of which command a segment is;
* `Splits.exists_part`: in a line that makes a chain every segment with words is such a part, and
  `PartOf.before` tells the first part of a command from the others by the operator before it;
* `isCommandPosition_iff`: so a word that completion says is at a command position is a command name
  or the file of a redirection, which is the first word of its segment too.
-/

namespace LineShell

variable {α : Type}

/-! ## 1. Roles -/

/-- Segment number `j` is part number `n` of command number `k`: before it there are the segments of
`k` commands, and `n` segments of its own. The first part holds the name and the arguments, and the
others hold files of redirections. -/
def PartOf (segs : List Segment) (j k n : Nat) : Prop :=
  ∃ (front : List Segment) (c : Clause) (back : List Segment) (cs cs' : List Clause),
    segs = front ++ (c.segments ++ back) ∧ Splits front cs ∧ Splits back cs' ∧
      k = cs.length ∧ j = front.length + n ∧ n < c.segments.length

/-- What a word is to the chain of its line. -/
inductive WordRole
  /-- The name of a command. -/
  | command
  | argument
  /-- The file of a redirection. -/
  | file
  deriving DecidableEq, Repr

/-- The chain takes word number `i` of segment number `j` in that role. -/
def TakesAs (segs : List Segment) (nodes : List (Node α)) (j i : Nat) : WordRole → Prop
  | .command => i = 0 ∧
      ∃ k n, PartOf segs j k 0 ∧ nodes[k]? = some n ∧ segs[j]? = some n.segment
  | .argument => i ≠ 0 ∧
      ∃ k n, PartOf segs j k 0 ∧ nodes[k]? = some n ∧ segs[j]? = some n.segment
  | .file => i = 0 ∧
      ∃ k m n s, PartOf segs j k (m + 1) ∧ nodes[k]? = some n ∧ segs[j]? = some s ∧
        (n.input = .file s.file ∨ ∃ append, n.output = .file s.file append)

/-! ## 2. The parts of a command -/

namespace Clause

/-- A part of a command that another part follows is ended by a redirection. -/
theorem redirects (c : Clause) {n : Nat} (h : n + 1 < c.segments.length) :
    ∃ s, c.segments[n]? = some s ∧ s.operator.isRedirection = true := by
  obtain ⟨head, source, sink, op, named, hsource, hsink, ended, ends⟩ := c
  rcases source with - | s <;> rcases sink with - | ⟨t, append⟩
  · simp [segments] at h
  · obtain ⟨hhead, -⟩ : head.operator = .ofSink append ∧ t.operator = op := by simpa using ended
    obtain rfl : n = 0 := by simp [segments] at h; omega
    exact ⟨head, rfl, by rw [hhead, Operator.isRedirection_ofSink]⟩
  · obtain ⟨hhead, -⟩ : head.operator = .readFrom ∧ s.operator = op := by simpa using ended
    obtain rfl : n = 0 := by simp [segments] at h; omega
    exact ⟨head, rfl, by rw [hhead]; rfl⟩
  · obtain ⟨hhead, hmid, -⟩ : head.operator = .readFrom ∧ s.operator = .ofSink append ∧
        t.operator = op := by simpa using ended
    have hn : n = 0 ∨ n = 1 := by simp [segments] at h; omega
    rcases hn with rfl | rfl
    · exact ⟨head, rfl, by rw [hhead]; rfl⟩
    · exact ⟨s, rfl, by rw [hmid, Operator.isRedirection_ofSink]⟩

/-- The last part of a command is ended by the operator of the command. -/
theorem operator_getLast? (c : Clause) :
    c.segments.getLast?.map Segment.operator = some c.operator := by
  have hended : c.segments.map Segment.operator = _ := c.ended
  rw [← List.getLast?_map, hended, ← List.append_assoc, List.getLast?_concat]

/-- A part after the first one is a single word, the file that the command reads or writes. -/
theorem file_of_part (c : Clause) {n : Nat} {s : Segment} (h : c.segments[n + 1]? = some s)
    (handle : α) (piped : Bool) :
    s.words.length = 1 ∧ ((c.node handle piped).input = .file s.file ∨
      ∃ append, (c.node handle piped).output = .file s.file append) := by
  have hmem : s ∈ c.source.toList ++ (c.sink.map Prod.fst).toList :=
    List.mem_of_getElem? (by simpa [segments] using h)
  rcases List.mem_append.mp hmem with hmem | hmem
  · have hsource : c.source = some s := by simpa using hmem
    exact ⟨c.source_word s hsource, .inl (by simp [node, input, hsource])⟩
  · obtain ⟨append, hsink⟩ : ∃ append, c.sink = some (s, append) := by simpa using hmem
    exact ⟨c.sink_word _ hsink, .inr ⟨append, by simp [node, output, hsink]⟩⟩

end Clause

/-- The segments of whole commands end with an operator that ends a command. -/
theorem Splits.ends {segs : List Segment} {cs : List Clause} (h : Splits segs cs) :
    ∀ s ∈ segs.getLast?, s.operator.endsCommand = true := by
  induction h with
  | nil => simp
  | @blank s rest _ _ hop _ ih =>
    intro t ht
    rw [List.getLast?_cons, Option.mem_some_iff] at ht
    cases hrest : rest.getLast? with
    | none =>
      rw [hrest, Option.getD_none] at ht
      rw [← ht, hop]
      rfl
    | some u =>
      rw [hrest, Option.getD_some] at ht
      rw [← ht]
      exact ih u hrest
  | @clause c rest _ _ ih =>
    intro t ht
    rw [List.getLast?_append, Option.mem_def, Option.or_eq_some_iff] at ht
    obtain hrest | ⟨-, hlast⟩ := ht
    · exact ih t hrest
    · have hop := c.operator_getLast?
      rw [hlast, Option.map_some, Option.some.injEq] at hop
      rw [hop]
      exact c.ends

/-- **The operator before a segment tells the first part of a command from the others.** -/
theorem PartOf.before {segs : List Segment} {j k n : Nat} (h : PartOf segs j k n) :
    (n = 0 ∧ ∀ i s, i + 1 = j → segs[i]? = some s → s.operator.isRedirection = false) ∨
      (n ≠ 0 ∧ ∃ i s, i + 1 = j ∧ segs[i]? = some s ∧ s.operator.isRedirection = true) := by
  obtain ⟨front, c, back, cs, cs', rfl, hfront, -, -, rfl, hn⟩ := h
  cases n with
  | zero =>
    refine .inl ⟨rfl, fun i s hi hs => ?_⟩
    have hi' : i + 1 = front.length := hi
    have hlast : front.getLast? = some s := by
      rw [List.getElem?_append_left (by omega)] at hs
      rw [List.getLast?_eq_getElem?, ← hi', Nat.add_sub_cancel, hs]
    have hends := hfront.ends s hlast
    rwa [Operator.endsCommand, Bool.not_eq_true'] at hends
  | succ n =>
    obtain ⟨s, hs, hred⟩ := c.redirects hn
    refine .inr ⟨Nat.succ_ne_zero n, front.length + n, s, rfl, ?_, hred⟩
    rw [List.getElem?_append_right (Nat.le_add_right _ _), Nat.add_sub_cancel_left,
      List.getElem?_append_left (Nat.lt_of_succ_lt hn), hs]

/-- A segment is not both the first part of a command and another one. -/
theorem PartOf.exclusive {segs : List Segment} {j k k' n : Nat} (h : PartOf segs j k 0)
    (h' : PartOf segs j k' (n + 1)) : False := by
  obtain ⟨-, hends⟩ | ⟨hne, -⟩ := h.before
  · obtain ⟨hne, -⟩ | ⟨-, i, s, hi, hs, hred⟩ := h'.before
    · cases hne
    · rw [hends i s hi hs] at hred
      cases hred
  · exact hne rfl

/-! ## 3. Every word has a role -/

/-- **A segment with words is a part of a command**, in segments that split into commands. -/
theorem Splits.exists_part {segs : List Segment} {cs : List Clause} (h : Splits segs cs) :
    ∀ {j : Nat} {s : Segment}, segs[j]? = some s → s.words ≠ [] →
      ∃ cs₁ c cs₂ n, cs = cs₁ ++ c :: cs₂ ∧ PartOf segs j cs₁.length n ∧
        c.segments[n]? = some s := by
  induction h with
  | nil =>
    intro j s hs
    cases hs
  | @blank b rest cs hw hop h ih =>
    intro j s hs hne
    cases j with
    | zero =>
      cases hs
      exact absurd hw hne
    | succ j =>
      obtain ⟨cs₁, c, cs₂, n, rfl, hpart, hn⟩ := ih hs hne
      obtain ⟨front, c', back, ds, ds', rfl, hfront, hback, hk, rfl, hlt⟩ := hpart
      exact ⟨cs₁, c, cs₂, n, rfl, ⟨b :: front, c', back, ds, ds', rfl, .blank hw hop hfront, hback,
        hk, by rw [List.length_cons]; omega, hlt⟩, hn⟩
  | @clause c rest cs h ih =>
    intro j s hs hne
    rcases Nat.lt_or_ge j c.segments.length with hlt | hge
    · rw [List.getElem?_append_left hlt] at hs
      exact ⟨[], c, cs, j, rfl, ⟨[], c, rest, [], cs, rfl, .nil, h, rfl, (Nat.zero_add j).symm, hlt⟩,
        hs⟩
    · rw [List.getElem?_append_right hge] at hs
      obtain ⟨cs₁, d, cs₂, n, rfl, hpart, hn⟩ := ih hs hne
      obtain ⟨front, d', back, ds, ds', rfl, hfront, hback, hk, hj, hlt⟩ := hpart
      refine ⟨c :: cs₁, d, cs₂, n, rfl, ⟨c.segments ++ front, d', back, c :: ds, ds',
        (List.append_assoc _ _ _).symm, .clause hfront, hback, ?_, ?_, hlt⟩, hn⟩
      · rw [List.length_cons, List.length_cons, hk]
      · rw [List.length_append]
        omega

/-- Each command becomes the node of its number. -/
theorem Realizes.getElem? {r : Resolver α} {piped : Bool} {cs₁ : List Clause} {c : Clause}
    {cs₂ : List Clause} {nodes : List (Node α)} (h : Realizes r piped (cs₁ ++ c :: cs₂) nodes) :
    ∃ handle piped', nodes[cs₁.length]? = some (c.node handle piped') := by
  induction cs₁ generalizing piped nodes with
  | nil =>
    cases h with
    | cons hr h => exact ⟨_, piped, rfl⟩
  | cons d cs₁ ih =>
    cases h with
    | cons hr h => exact ih h

/-- **Every word of a chain has exactly one role**, and it is an argument exactly if it is not the
first word of its segment. -/
theorem exists_role {r : Resolver α} {label : String} {segs : List Segment} {nodes : List (Node α)}
    (hbuild : (build r label segs).result = .ok nodes) {j i : Nat} {s : Segment}
    (hs : segs[j]? = some s) (hi : i < s.words.length) :
    ∃ role, TakesAs segs nodes j i role ∧ (∀ role', TakesAs segs nodes j i role' → role' = role) ∧
      (i = 0 ↔ role ≠ .argument) := by
  obtain ⟨-, cs, hcs, hnodes, -⟩ := build_ok_iff_splits.mp hbuild
  obtain ⟨cs₁, c, cs₂, n, rfl, hpart, hc⟩ :=
    hcs.exists_part hs (List.ne_nil_of_length_pos (Nat.zero_lt_of_lt hi))
  obtain ⟨handle, piped, hnode⟩ := hnodes.getElem?
  cases n with
  | zero =>
    have hhead : segs[j]? = some (c.node handle piped).segment := by
      rw [hs, ← hc]
      rfl
    have hfile : ¬ TakesAs segs nodes j i .file := by
      rintro ⟨-, k, m, -, -, hpart', -⟩
      exact hpart.exclusive hpart'
    by_cases hzero : i = 0
    · refine ⟨.command, ⟨hzero, _, _, hpart, hnode, hhead⟩, fun role' h => ?_, by simp [hzero]⟩
      cases role' with
      | command => rfl
      | argument => exact absurd hzero h.1
      | file => exact absurd h hfile
    · refine ⟨.argument, ⟨hzero, _, _, hpart, hnode, hhead⟩, fun role' h => ?_, by simp [hzero]⟩
      cases role' with
      | command => exact absurd h.1 hzero
      | argument => rfl
      | file => exact absurd h hfile
  | succ n =>
    obtain ⟨hone, hfile⟩ := c.file_of_part hc handle piped
    have hzero : i = 0 := by omega
    refine ⟨.file, ⟨hzero, _, n, _, s, hpart, hnode, hs, hfile⟩, fun role' h => ?_, by simp [hzero]⟩
    cases role' with
    | command =>
      obtain ⟨-, k, m, hpart', -⟩ := h
      exact (hpart'.exclusive hpart).elim
    | argument => exact absurd hzero h.1
    | file => rfl

/-! ## 4. Completion -/

/-- What completion says of the word that it has found, of the word's number in its segment, and of
the segment. -/
theorem of_completionTarget {line : String} {cursor : Nat} {o : ScanOptions} {t : CompletionTarget}
    (h : completionTarget line cursor o = some t) {i : Nat} (hi : t.wordIndex = some i) :
    ∃ s w, (segments { o with cursor := none } line)[t.segmentIndex]? = some s ∧
      s.words[i]? = some w ∧ t.word = w.text ∧ t.isCommandPosition = (i == 0) := by
  have hget := (completionTarget_eq o line cursor)
  rw [h] at hget
  have hmem := List.mem_of_getElem? hget.1
  obtain ⟨⟨s, j⟩, -, rfl⟩ := Option.map_eq_some_iff.mp h
  have hlt : i < s.words.length := Scan.segmentsFrom_selected s hmem i hi
  refine ⟨s.unmarked, s.words[i], getElem?_of_completionTarget h, List.getElem?_eq_getElem hlt, ?_,
    ?_⟩
  · have hselected : s.selected? = some s.words[i] := by
      rw [Segment.selected?, show s.selectedWord = some i from hi]
      exact List.getElem?_eq_getElem hlt
    show (s.selected?.map (·.text)).getD "" = _
    rw [hselected]
    rfl
  · rw [CompletionTarget.isCommandPosition, hi]

/-- **At a command position stands the name of a command or the file of a redirection.** In a line
that makes a chain completion selects a word of the line that the chain takes in exactly one role,
and says of it that it is at a command position unless it is an argument. -/
theorem isCommandPosition_iff {r : Resolver α} {label : String} {o : ScanOptions} {line : String}
    {cursor i : Nat} {nodes : List (Node α)} {t : CompletionTarget}
    (hbuild : (build r label (segments { o with cursor := none } line)).result = .ok nodes)
    (ht : completionTarget line cursor o = some t) (hi : t.wordIndex = some i) :
    let segs := segments { o with cursor := none } line
    let takesAs := TakesAs segs nodes t.segmentIndex i
    (∃ s w, segs[t.segmentIndex]? = some s ∧ s.words[i]? = some w ∧ w.text = t.word) ∧
      (∃ role, takesAs role ∧ ∀ role', takesAs role' → role' = role) ∧
      (t.isCommandPosition = true ↔ takesAs .command ∨ takesAs .file) := by
  intro segs takesAs
  obtain ⟨s, w, hs, hw, hword, hposition⟩ := of_completionTarget ht hi
  obtain ⟨hlt, -⟩ := List.getElem?_eq_some_iff.mp hw
  obtain ⟨role, hrole, honly, hfirst⟩ := exists_role hbuild hs hlt
  refine ⟨⟨s, w, hs, hw, hword.symm⟩, ⟨role, hrole, honly⟩, ?_⟩
  rw [hposition, beq_iff_eq, hfirst]
  constructor
  · intro hne
    cases role with
    | command => exact .inl hrole
    | argument => exact absurd rfl hne
    | file => exact .inr hrole
  · rintro (h | h) rfl
    · cases honly _ h
    · cases honly _ h

section Examples

/-- A resolver that knows every name. -/
def Resolver.knowsAll : Resolver Unit where
  resolve := fun _ => some ()

/-- The first word after a pipe, in a line with a redirection before it. -/
theorem isCommandPosition_after_pipe :
    let o : ScanOptions := { operators := Operator.written }
    let line := "cat < f | grep x"
    ∃ nodes t, (build .knowsAll "linechain" (segments o line)).result = .ok nodes ∧
      completionTarget line 12 o = some t ∧ t.wordIndex = some 0 ∧ t.word = "grep" ∧
      (t.isCommandPosition = true ↔ TakesAs (segments o line) nodes t.segmentIndex 0 .command ∨
        TakesAs (segments o line) nodes t.segmentIndex 0 .file) := by
  intro o line
  let t := (completionTarget line 12 o).getD
    (.ofSegment { typed := "", words := [], operator := .pipe } 0)
  obtain ⟨ht, hi, hword⟩ : completionTarget line 12 o = some t ∧ t.wordIndex = some 0 ∧
      t.word = "grep" := by decide +kernel
  have hok : (build .knowsAll "linechain" (segments o line)).result.isOk = true := by decide +kernel
  cases hbuild : (build .knowsAll "linechain" (segments o line)).result with
  | error e =>
    rw [hbuild] at hok
    cases hok
  | ok nodes =>
    exact ⟨nodes, t, rfl, ht, hi, hword, (isCommandPosition_iff hbuild ht hi).2.2⟩

/-- The file of a redirection is said to be at a command position, and no command has that name. -/
theorem file_at_command_position :
    let o : ScanOptions := { operators := Operator.written }
    let line := "echo a > f"
    ∃ nodes t, (build .knowsAll "linechain" (segments o line)).result = .ok nodes ∧
      completionTarget line 10 o = some t ∧ t.wordIndex = some 0 ∧ t.isCommandPosition = true ∧
      ¬ TakesAs (segments o line) nodes t.segmentIndex 0 .command := by
  intro o line
  let t := (completionTarget line 10 o).getD
    (.ofSegment { typed := "", words := [], operator := .pipe } 0)
  obtain ⟨ht, hi, hposition, hj⟩ : completionTarget line 10 o = some t ∧ t.wordIndex = some 0 ∧
      t.isCommandPosition = true ∧ t.segmentIndex = 1 := by decide +kernel
  have hsegs : segments o line =
      [{ typed := "echo a ", words := [⟨"echo", 0, .plain⟩, ⟨"a", 5, .plain⟩],
         operator := .writeTo },
       { typed := " f", words := [⟨"f", 9, .plain⟩], operator := .endOfLine }] := by decide +kernel
  have hok : (build .knowsAll "linechain" (segments o line)).result.isOk = true := by decide +kernel
  cases hbuild : (build .knowsAll "linechain" (segments o line)).result with
  | error e =>
    rw [hbuild] at hok
    cases hok
  | ok nodes =>
    refine ⟨nodes, t, rfl, ht, hi, hposition, ?_⟩
    rintro ⟨-, k, n, hpart, -⟩
    rw [hj] at hpart
    obtain ⟨-, hends⟩ | ⟨hne, -⟩ := hpart.before
    · have hop := hends 0 _ rfl (by rw [hsegs]; rfl)
      cases hop
    · exact hne rfl

end Examples

end LineShell
