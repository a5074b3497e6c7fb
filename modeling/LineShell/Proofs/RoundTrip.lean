import LineShell.Proofs.ChainGrammar
import LineShell.Proofs.WrittenWord
import Mathlib.Data.List.Forall2

/-!
# A printed chain is read back

A `Phrase` is a command before it is written: any words, files and operator. `printChain` writes a
list of phrases as one line, with single blanks between all parts.

* `StartsOver.words`, `Closes.file`: the words of a segment up to the operator that ends it, and a
  redirection with its file;
* `StartsOver.phrase`: a printed phrase is scanned as a clause with the same words, files and
  operator (`Clause.Renders`);
* `StartsOver.printed`: and a printed line splits into the clauses of its phrases;
* `build_printChain`: so the chain built from the line has the phrases as its nodes.
-/

namespace LineShell

/-! ## 1. Phrases -/

/-- A command with its words, files and operator. -/
structure Phrase where
  name : String
  args : List String := []
  /-- The file for the input. -/
  source : Option String := none
  /-- The file for the output, and whether it is appended to. -/
  sink : Option (String × Bool) := none
  operator : Operator

namespace Phrase

/-- The texts of a redirection and its file. -/
def redirection (quoter : Quoter) (op : Operator) (path : String) : List String :=
  [op.literal, quoteWith quoter path]

/-- The texts of the redirections. -/
def redirections (quoter : Quoter) (p : Phrase) : List String :=
  (p.source.map (redirection quoter .readFrom)).getD [] ++
    (p.sink.map fun s => redirection quoter (.ofSink s.2) s.1).getD []

/-- The texts of the phrase. The end of the line is not written. -/
def parts (quoter : Quoter) (p : Phrase) : List String :=
  joinWith quoter (p.name :: p.args) ::
    (p.redirections quoter ++ if p.operator = .endOfLine then [] else [p.operator.literal])

/-- Where the command of the phrase writes. -/
def output (p : Phrase) : Output :=
  match p.sink with
  | some (path, append) => .file path append
  | none => .none

/-- Where the command of the phrase reads; `piped` says that the phrase before it ends with a
pipe. -/
def input (p : Phrase) (piped : Bool) : Input :=
  match p.source with
  | some path => .file path
  | none => if piped then .piped else .none

end Phrase

/-- The line of the phrases. -/
def printChain (quoter : Quoter) (ps : List Phrase) : String :=
  " ".intercalate (ps.flatMap (Phrase.parts quoter))

/-- The operators that can stand between two commands. -/
def Operator.sequencing : List Operator := [.semicolon, .pipe, .andThen, .orElse]

/-- Every phrase but the last is ended by an operator that can stand between two commands, and the
last by the end of the line or a semicolon. -/
structure WellSequenced (ps : List Phrase) : Prop where
  inner : ∀ p ∈ ps.dropLast, p.operator ∈ Operator.sequencing
  last : ∀ p ∈ ps.getLast?, p.operator = .endOfLine ∨ p.operator = .semicolon

/-- The phrase at a position comes after a pipe; `piped` says so of the first one. -/
def pipedAt (piped : Bool) (ps : List Phrase) : Nat → Bool
  | 0 => piped
  | i + 1 => ps[i]?.any (·.operator == .pipe)

/-! ## 2. The text of a line -/

/-- The texts, each with a blank before it. -/
def spaced (texts : List String) : List Char := texts.flatMap fun t => ' ' :: t.toList

theorem spaced_append (texts texts' : List String) :
    spaced (texts ++ texts') = spaced texts ++ spaced texts' :=
  List.flatMap_append

theorem toList_intercalate_blank (text : String) : ∀ texts : List String,
    (" ".intercalate (text :: texts)).toList = text.toList ++ spaced texts
  | [] => by simp [spaced]
  | text' :: texts => by
    have ih := toList_intercalate_blank text' texts
    rw [String.toList_intercalate] at ih ⊢
    rw [List.map_cons, List.map_cons, List.intercalate_cons_cons, ← List.map_cons, ih]
    simp [spaced]

variable {quoter : Quoter}

theorem printChain_cons (p : Phrase) (ps : List Phrase) :
    (printChain quoter (p :: ps)).toList =
      (joinWith quoter (p.name :: p.args)).toList ++ (spaced (p.redirections quoter) ++
        (spaced (if p.operator = .endOfLine then [] else [p.operator.literal]) ++
          spaced (ps.flatMap (Phrase.parts quoter)))) := by
  rw [printChain, List.flatMap_cons, Phrase.parts, List.cons_append, toList_intercalate_blank,
    spaced_append, spaced_append, List.append_assoc]

theorem spaced_parts (p : Phrase) (ps : List Phrase) :
    spaced ((p :: ps).flatMap (Phrase.parts quoter)) =
      ' ' :: (printChain quoter (p :: ps)).toList := by
  rw [printChain, List.flatMap_cons, Phrase.parts, List.cons_append, toList_intercalate_blank]
  rfl

/-! ## 3. Segments -/

section Scan

variable {o : ScanOptions} {op : Operator} {cs : List Char} {segs : List Segment}
  {next : List Segment → Prop}

theorem StartsOver.blank (h : StartsOver o (' ' :: cs) segs) : StartsOver o cs segs := by
  obtain ⟨s, hs, rfl⟩ := h
  obtain ⟨s', hs', hcs⟩ := reads_blank Reading.ends_between s hs
  exact ⟨s', hs', hcs cs⟩

/-- Words are read as the words of the segment that is ended after them. -/
theorem StartsOver.words (hq : quoter.Verbatim) {words : List String} (hne : words ≠ [])
    (h : StartsOver o ((joinWith quoter words).toList ++ cs) segs) (hend : Closes o op cs next) :
    ∃ seg segs', segs = seg :: segs' ∧ seg.Holds words op ∧ next segs' := by
  obtain ⟨s, hs, rfl⟩ := h
  obtain ⟨v, hwords, hends⟩ := @reads_joinWith o quoter hq [] words
  obtain ⟨s', hs', hcs⟩ := hwords s hs
  rw [List.nil_append] at hends
  rw [hcs]
  exact hend s' v words hs' hends hne

theorem joinWith_singleton (word : String) : joinWith quoter [word] = quoteWith quoter word := by
  simp [joinWith]

/-- A redirection ends the segment before it, and the segment after it holds the file. -/
theorem Closes.file (hq : quoter.Verbatim) (hall : ∀ op ∈ Operator.written, op ∈ o.operators)
    (red : Operator) (hred : red ≠ .endOfLine) (path : String) (hend : Closes o op cs next) :
    Closes o red (spaced (Phrase.redirection quoter red path) ++ cs)
      fun segs => ∃ seg segs', segs = seg :: segs' ∧ seg.Holds [path] op ∧ next segs' := by
  have htext : spaced (Phrase.redirection quoter red path) ++ cs =
      ' ' :: (red.spelling ++ ' ' :: ((joinWith quoter [path]).toList ++ cs)) := by
    rw [joinWith_singleton]
    simp [spaced, Phrase.redirection, Operator.literal]
  rw [htext]
  intro s v texts hs hends hne
  have hblank : ∀ c ∈ (' ' :: ((joinWith quoter [path]).toList ++ cs)).head?, c = ' ' := by simp
  obtain ⟨seg, segs, hsegs, hseg, hnext⟩ :=
    closes_operator hall hred hblank s v texts hs hends hne
  exact ⟨seg, segs, hsegs, hseg, hnext.blank.words hq (List.cons_ne_nil _ _) hend⟩

/-! ## 4. Clauses -/

/-- The clause has the words, files and operator of the phrase. -/
structure Clause.Renders (c : Clause) (p : Phrase) : Prop where
  texts : c.head.texts = p.name :: p.args
  source : c.source.map Segment.file = p.source
  sink : c.sink.map (fun s => (s.1.file, s.2)) = p.sink
  operator : c.operator = p.operator

theorem Segment.Holds.words_ne_nil {s : Segment} {text : String} {texts : List String}
    (h : s.Holds (text :: texts) op) : s.words ≠ [] := by
  intro hnil
  have htexts := h.texts
  rw [Segment.texts, hnil] at htexts
  cases htexts

theorem Segment.Holds.file {s : Segment} {path : String} (h : s.Holds [path] op) :
    s.words.length = 1 ∧ s.file = path :=
  Segment.length_of_texts h.texts

/-- **A printed phrase is scanned as a clause that renders it.** -/
theorem StartsOver.phrase (hq : quoter.Verbatim) (hall : ∀ op ∈ Operator.written, op ∈ o.operators)
    {p : Phrase} (hends : p.operator.endsCommand = true)
    (h : StartsOver o
      ((joinWith quoter (p.name :: p.args)).toList ++ (spaced (p.redirections quoter) ++ cs)) segs)
    (hend : Closes o p.operator cs next) :
    ∃ (c : Clause) (segs' : List Segment), segs = c.segments ++ segs' ∧ c.Renders p ∧
      (∀ seg ∈ c.segments, seg.status = .ok) ∧ next segs' := by
  obtain ⟨name, args, source, sink, op⟩ := p
  have hne : name :: args ≠ [] := List.cons_ne_nil _ _
  rcases source with - | path <;> rcases sink with - | ⟨path', append⟩
  · obtain ⟨head, segs', rfl, hhead, hnext⟩ := h.words hq hne hend
    let c : Clause := ⟨head, none, none, op, hhead.words_ne_nil, by simp, by simp,
      by simpa using hhead.operator, hends⟩
    refine ⟨c, segs', rfl, ⟨hhead.texts, rfl, rfl, rfl⟩, ?_, hnext⟩
    simpa [c, Clause.segments] using hhead.status
  · have hsink := hend.file hq hall _ (Operator.ofSink_ne_endOfLine append) path'
    obtain ⟨head, _, rfl, hhead, t, segs', rfl, ht, hnext⟩ := h.words hq hne hsink
    let c : Clause := ⟨head, none, some (t, append), op, hhead.words_ne_nil, by simp,
      by simpa using ht.file.1, by simp [hhead.operator, ht.operator], hends⟩
    refine ⟨c, segs', rfl, ⟨hhead.texts, rfl, by simp [c, ht.file.2], rfl⟩, ?_, hnext⟩
    simp [c, Clause.segments, hhead.status, ht.status]
  · have hsource := hend.file hq hall .readFrom (by decide) path
    obtain ⟨head, _, rfl, hhead, s, segs', rfl, hs, hnext⟩ := h.words hq hne hsource
    let c : Clause := ⟨head, some s, none, op, hhead.words_ne_nil, by simpa using hs.file.1,
      by simp, by simp [hhead.operator, hs.operator], hends⟩
    refine ⟨c, segs', rfl, ⟨hhead.texts, by simp [c, hs.file.2], rfl, rfl⟩, ?_, hnext⟩
    simp [c, Clause.segments, hhead.status, hs.status]
  · have hsink := hend.file hq hall _ (Operator.ofSink_ne_endOfLine append) path'
    have hsource := hsink.file hq hall .readFrom (by decide) path
    rw [← List.append_assoc, ← spaced_append] at hsource
    obtain ⟨head, _, rfl, hhead, s, _, rfl, hs, t, segs', rfl, ht, hnext⟩ := h.words hq hne hsource
    let c : Clause := ⟨head, some s, some (t, append), op, hhead.words_ne_nil,
      by simpa using hs.file.1, by simpa using ht.file.1,
      by simp [hhead.operator, hs.operator, ht.operator], hends⟩
    refine ⟨c, segs', rfl, ⟨hhead.texts, by simp [c, hs.file.2], by simp [c, ht.file.2], rfl⟩, ?_,
      hnext⟩
    simp [c, Clause.segments, hhead.status, hs.status, ht.status]

/-! ## 5. Lines -/

theorem WellSequenced.tail {p : Phrase} {ps : List Phrase} (h : WellSequenced (p :: ps)) :
    WellSequenced ps := by
  cases ps with
  | nil => exact ⟨by simp, by simp⟩
  | cons p' ps =>
    refine ⟨fun q hq => h.inner q ?_, fun q hq => h.last q ?_⟩
    · rw [List.dropLast_cons_cons]
      exact List.mem_cons_of_mem _ hq
    · rwa [List.getLast?_cons_cons]

/-- Only the last phrase is ended by the end of the line. -/
theorem WellSequenced.head {p : Phrase} {ps : List Phrase} (h : WellSequenced (p :: ps)) :
    p.operator.endsCommand = true ∧ (p.operator = .endOfLine → ps = []) := by
  cases ps with
  | nil =>
    refine ⟨?_, fun _ => rfl⟩
    rcases h.last p rfl with hop | hop <;> rw [hop] <;> rfl
  | cons p' ps =>
    have hop : p.operator ∈ Operator.sequencing := h.inner p (by simp)
    revert hop
    cases p.operator <;> simp [Operator.sequencing, Operator.endsCommand, Operator.isRedirection]

theorem WellSequenced.not_continues {ps : List Phrase} (h : WellSequenced ps) :
    ∀ p ∈ ps.getLast?, ¬ continues p.operator := by
  intro p hp
  rcases h.last p hp with hop | hop <;> rw [hop] <;> simp [continues]

/-- Nothing but blanks is one empty segment. -/
theorem StartsOver.blanks {n : Nat} (h : StartsOver o (List.replicate n ' ') segs) :
    ∃ seg, segs = [seg] ∧ seg.Holds [] .endOfLine := by
  obtain ⟨s, hs, rfl⟩ := h
  exact hs.segmentsFrom_blanks Reading.ends_between n

/-- **A printed line is scanned as segments that split into the clauses of its phrases.** There may
be blanks after it. -/
theorem StartsOver.printed (hq : quoter.Verbatim) (hall : ∀ op ∈ Operator.written, op ∈ o.operators)
    (n : Nat) : ∀ {ps : List Phrase} {segs : List Segment}, WellSequenced ps →
      StartsOver o ((printChain quoter ps).toList ++ List.replicate n ' ') segs →
      ∃ cs : List Clause, Splits segs cs ∧ List.Forall₂ Clause.Renders cs ps ∧
        ∀ seg ∈ segs, seg.status = .ok
  | [], segs, _, h => by
    obtain ⟨seg, rfl, hseg⟩ := StartsOver.blanks h
    have hwords : seg.words = [] := List.map_eq_nil_iff.mp hseg.texts
    exact ⟨[], .blank hwords hseg.operator .nil, .nil, by simpa using hseg.status⟩
  | p :: ps, segs, hps, h => by
    obtain ⟨hends, hlast⟩ := hps.head
    simp only [printChain_cons, List.append_assoc] at h
    -- the end of the line can only end the last phrase, and is not written
    by_cases hop : p.operator = .endOfLine
    · rw [if_pos hop, hlast hop] at h
      have hend := closes_end (o := o) n
      rw [← hop] at hend
      obtain ⟨c, segs', rfl, hc, hok, rfl⟩ := h.phrase hq hall hends hend
      exact ⟨[c], .clause .nil, by simpa [hlast hop] using hc, by simpa using hok⟩
    · rw [if_neg hop] at h
      have htail : ∀ c ∈ (spaced (ps.flatMap (Phrase.parts quoter)) ++
          List.replicate n ' ').head?, c = ' ' := by
        cases ps with
        | nil => cases n <;> simp [spaced, List.replicate_succ]
        | cons p' ps =>
          rw [spaced_parts]
          simp
      have hend := closes_operator hall hop htail
      have htext : spaced [p.operator.literal] = ' ' :: p.operator.spelling := by
        simp [spaced, Operator.literal]
      rw [htext, List.cons_append] at h
      obtain ⟨c, segs', rfl, hc, hok, hnext⟩ := h.phrase hq hall hends hend
      have hrest : StartsOver o ((printChain quoter ps).toList ++ List.replicate n ' ') segs' := by
        cases ps with
        | nil => exact hnext
        | cons p' ps =>
          rw [spaced_parts] at hnext
          exact hnext.blank
      obtain ⟨cs, hcs, hrenders, hoks⟩ := StartsOver.printed hq hall n hps.tail hrest
      refine ⟨c :: cs, .clause hcs, .cons hc hrenders, ?_⟩
      intro seg hseg
      rcases List.mem_append.mp hseg with hseg | hseg
      · exact hok seg hseg
      · exact hoks seg hseg

end Scan

/-! ## 6. Nodes -/

section Build

variable {α : Type} {r : Resolver α}

/-- The node is the command of the phrase, which comes after a pipe if `piped` says so. -/
structure Node.Renders (node : Node α) (r : Resolver α) (p : Phrase) (piped : Bool) : Prop where
  name : node.name = p.name
  args : node.args = p.args
  input : node.input = p.input piped
  output : node.output = p.output
  operator : node.operator = p.operator
  handle : r.resolve p.name = some node.handle
  result : node.result = none

namespace Clause

variable {c : Clause} {p : Phrase}

theorem Renders.name (h : c.Renders p) : c.name = p.name := by
  rw [Clause.name, h.texts]
  rfl

theorem Renders.node (h : c.Renders p) {handle : α} (hr : r.resolve c.name = some handle)
    (piped : Bool) : (c.node handle piped).Renders r p piped where
  name := by
    rw [Node.name, Segment.command?, Clause.node, h.texts]
    rfl
  args := by
    rw [Node.args, Segment.args, Clause.node, h.texts]
    rfl
  input := by
    rw [Phrase.input, ← h.source, Clause.node, Clause.input]
    cases c.source <;> rfl
  output := by
    rw [Phrase.output, ← h.sink, Clause.node, Clause.output]
    cases c.sink <;> rfl
  operator := h.operator
  handle := by rw [← h.name, hr]; rfl
  result := rfl

end Clause

theorem map_eq_of_renders {cs : List Clause} {ps : List Phrase}
    (h : List.Forall₂ Clause.Renders cs ps) :
    cs.map Clause.name = ps.map Phrase.name ∧
      cs.map Clause.operator = ps.map Phrase.operator := by
  induction h with
  | nil => exact ⟨rfl, rfl⟩
  | cons hc _ ih =>
    simp only [List.map_cons]
    rw [hc.name, hc.operator, ih.1, ih.2]
    exact ⟨rfl, rfl⟩

theorem pipedAt_cons (piped : Bool) (p : Phrase) (ps : List Phrase) : ∀ i : Nat,
    pipedAt piped (p :: ps) (i + 1) = pipedAt (p.operator == .pipe) ps i
  | 0 => rfl
  | _ + 1 => rfl

/-- The chain of the clauses of phrases has the commands of the phrases, in order. -/
theorem Realizes.renders {cs : List Clause} {ps : List Phrase}
    (h : List.Forall₂ Clause.Renders cs ps) :
    ∀ {piped : Bool} {nodes : List (Node α)}, Realizes r piped cs nodes →
      nodes.length = ps.length ∧ ∀ (i : Nat) (p : Phrase) (node : Node α), ps[i]? = some p →
        nodes[i]? = some node → node.Renders r p (pipedAt piped ps i) := by
  induction h with
  | nil =>
    rintro piped _ ⟨⟩
    exact ⟨rfl, fun i p node hp _ => by cases hp⟩
  | @cons c p cs ps hc _ ih =>
    rintro piped _ (_ | ⟨hr, hns⟩)
    obtain ⟨hlen, hrenders⟩ := ih hns
    refine ⟨by rw [List.length_cons, List.length_cons, hlen], fun i q node hp hnode => ?_⟩
    cases i with
    | zero =>
      cases hp
      cases hnode
      exact hc.node hr piped
    | succ i =>
      rw [pipedAt_cons, ← hc.operator]
      exact hrenders i q node hp hnode

/-- **A printed chain is read back as it is.** The words and files may be any strings, the line may
have blanks after it, and brackets may group or not: the line is built into one node for each
phrase, in order, and the node has the name, arguments, files and operator of the phrase. It reads
from the pipe exactly if the phrase has no input file and the phrase before it ends with a pipe. -/
theorem build_printChain {quoter : Quoter} (hq : quoter.Verbatim) {ps : List Phrase}
    (hps : WellSequenced ps) {o : ScanOptions} (hall : ∀ op ∈ Operator.written, op ∈ o.operators)
    (hr : ∀ p ∈ ps, (r.resolve p.name).isSome = true) (label : String) (n : Nat) :
    ∃ nodes : List (Node α),
      (build r label
        (segments o (printChain quoter ps ++ String.ofList (List.replicate n ' ')))).result =
          .ok nodes ∧
      nodes.length = ps.length ∧ ∀ (i : Nat) (p : Phrase) (node : Node α), ps[i]? = some p →
        nodes[i]? = some node → node.Renders r p (pipedAt false ps i) := by
  have hstart : StartsOver o ((printChain quoter ps).toList ++ List.replicate n ' ')
      (segments o (printChain quoter ps ++ String.ofList (List.replicate n ' '))) :=
    ⟨{}, Scan.shows_start, by rw [segments, String.toList_append, String.toList_ofList]⟩
  obtain ⟨cs, hsplits, hrenders, hok⟩ := StartsOver.printed hq hall n hps hstart
  have hnames : ∀ c ∈ cs, (r.resolve c.name).isSome = true := by
    intro c hc
    have hmem := List.mem_map_of_mem (f := Clause.name) hc
    rw [(map_eq_of_renders hrenders).1] at hmem
    obtain ⟨p, hp, hname⟩ := List.mem_map.mp hmem
    rw [← hname]
    exact hr p hp
  have hlast : ∀ c ∈ cs.getLast?, ¬ continues c.operator := by
    intro c hc
    have hop := congrArg List.getLast? (map_eq_of_renders hrenders).2
    rw [List.getLast?_map, List.getLast?_map, hc] at hop
    obtain ⟨p, hp, hop⟩ := Option.map_eq_some_iff.mp hop.symm
    rw [← hop]
    exact hps.not_continues p hp
  obtain ⟨nodes, hnodes⟩ := exists_realizes_iff.mpr hnames
  exact ⟨nodes, build_ok_iff_splits.mpr ⟨hok, cs, hsplits, hnodes, hlast⟩, hnodes.renders hrenders⟩

/-- Awkward words: blanks of two kinds, quotes, operators, a backslash at the end, and empty ones as
well as an empty file name. -/
theorem build_printChain_of_awkward_words :
    let quoter : Quoter := fun word =>
      if word = "it's".toList then some "\"it's\"".toList else chunked word
    let ps : List Phrase :=
      [{ name := "a b", args := ["", "it's", "\"\x7b", "c\\"], source := some "",
          operator := .pipe },
        { name := ";", args := ["\u3000||"], sink := some ("> d", true), operator := .andThen },
        { name := "e", operator := .endOfLine }]
    let o : ScanOptions := { operators := Operator.written, brackets := true }
    let r : Resolver Unit := { resolve := fun _ => some () }
    quoter.Verbatim ∧ WellSequenced ps ∧ ∃ nodes : List (Node Unit),
      (build r "sh"
        (segments o (printChain quoter ps ++ String.ofList (List.replicate 1 ' ')))).result =
          .ok nodes ∧
      nodes.map Node.args = [["", "it's", "\"\x7b", "c\\"], ["\u3000||"], []] ∧
      nodes.map Node.input = [.file "", .piped, .none] := by
  intro quoter ps o r
  have hq : quoter.Verbatim := by
    intro word chunk h hchunk
    by_cases hword : word = "it's".toList
    · rw [show quoter word = some "\"it's\"".toList from if_pos hword] at h
      cases h
      have hno : isChunk "\"it's\"".toList = false := by decide
      rw [hno] at hchunk
      cases hchunk
    · rw [show quoter word = chunked word from if_neg hword] at h
      exact chunked_verbatim word chunk h hchunk
  have hps : WellSequenced ps := by
    refine ⟨?_, ?_⟩ <;> simp [ps, Operator.sequencing]
  obtain ⟨nodes, hok, hlen, hrenders⟩ :=
    @build_printChain Unit r quoter hq ps hps o (fun _ h => h) (fun _ _ => rfl) "sh" 1
  refine ⟨hq, hps, nodes, hok, ?_⟩
  obtain ⟨a, b, c, rfl⟩ := List.length_eq_three.mp hlen
  have ha := hrenders 0 _ a rfl rfl
  have hb := hrenders 1 _ b rfl rfl
  have hc := hrenders 2 _ c rfl rfl
  constructor
  · simp only [List.map_cons, List.map_nil, ha.args, hb.args, hc.args]
  · simp only [List.map_cons, List.map_nil, ha.input, hb.input, hc.input]
    rfl

end Build
end LineShell
