import LineShell.Program
import LineShell.Proofs.InputLines
import LineShell.Proofs.LineLog

/-!
# Scripts

A script is run line after line, in one process. What a line does depends on the files that it finds,
and on nothing else that the lines before it have left; what it shows and says comes after what was
shown and said before.

* `World.behind`: a world after another one. `Shell.run_behind`: a line that is run after others does
  what it does in their files by itself;
* `Turn`: a line with the files that it finds and what its run by itself comes to. What is left, shown
  and said after it can be read off the run, the record of the line and the report on it.
  `Session.Plays`: turns in a row, each in the files that the one before it left;
* `Session.runLines_turns`: so lines that are run in a row are such turns, up to one that never ends;
* `execute_script`: and so is a script, up to the first line that is not UTF-8.
-/

namespace LineShell

/-! ## 1. A world after another one -/

namespace World

/-- What is shown and said in `w` comes after what was shown and said in `before`. -/
def behind (w before : World) : World :=
  { files := w.files
    stdout := { w.stdout with written := before.stdout.written ++ w.stdout.written }
    stderrMode := w.stderrMode
    notices := before.notices ++ w.notices }

variable {w : World}

theorem renewed_behind (w : World) : w.renewed.behind w = w := by
  simp [behind, renewed]

/-- Both streams take everything. -/
structure IsOpen (w : World) : Prop where
  stdout : w.stdout.mode = .working
  stderr : w.stderrMode = .working

theorem IsOpen.renewed_eq (h : w.IsOpen) : w.renewed = { files := w.files } := by
  simp [renewed, h.stdout, h.stderr]

end World

theorem shownNotices_append (level : LogLevel) (style : LogStyle) (xs ys : List Notice) :
    shownNotices level style (xs ++ ys) =
      shownNotices level style xs ++ shownNotices level style ys := by
  rw [shownNotices, List.map_append, String.join_append]
  rfl

/-! ## 2. A line after others -/

theorem Node.Alike.refl {α : Type} (n : Node α) : n.Alike n := ⟨rfl, rfl, rfl, rfl, rfl⟩

namespace Shell

variable (sh : Shell) (line : String) (w : World)

/-- **A line that is run after others does what it does in their files by itself**, and shows and says
it after what they have shown and said. -/
theorem run_behind :
    sh.run line w = (sh.run line w.renewed).map fun p => (p.1, p.2.behind w) := by
  cases hchain : sh.chain line with
  | error e =>
    have hrejected (w : World) : sh.run line w = some (.error e, w) := by rw [run, hchain]
    rw [hrejected, hrejected, Option.map_some, w.renewed_behind]
  | ok nodes =>
    obtain ⟨cs, hcs, -⟩ := sh.realizes_chain hchain
    have start : Course.Abreast 0 0 w.stdout.written w.notices [] []
        { state := { world := w.renewed } } { state := { world := w } } :=
      ⟨rfl, ⟨rfl, rfl, (List.append_nil _).symm, rfl, (List.append_nil _).symm, fun _ _ => rfl, rfl,
        rfl⟩, rfl, [], rfl, rfl, fun _ => .inl ⟨rfl, rfl⟩⟩
    have habreast : Course.Abreast 0 0 w.stdout.written w.notices [] []
        (sh.course nodes w.renewed) (sh.course nodes w) :=
      start.through (List.forall₂_same.mpr fun n _ => .refl n) sh (Nat.le_refl _)
        fun n hn hin => absurd hin (sh.head_chain hchain n hn)
    obtain ⟨os, ho, ho', -⟩ := habreast.outcomes
    have hstate := habreast.state
    have hreport : (sh.course nodes w).report nodes = (sh.course nodes w.renewed).report nodes := by
      rw [Course.report, Course.report, hstate.fault, ho, ho']
    have hworld : (sh.course nodes w).state.world =
        (sh.course nodes w.renewed).state.world.behind w := by
      show World.mk (sh.course nodes w).state.world.files
        ⟨(sh.course nodes w).state.world.stdout.mode, (sh.course nodes w).state.world.stdout.written⟩
        (sh.course nodes w).state.world.stderrMode (sh.course nodes w).state.world.notices = _
      rw [hstate.files, hstate.mode, hstate.written, hstate.stderr, hstate.notices]
      rfl
    rw [sh.run_course hchain hcs.fresh, sh.run_course hchain hcs.fresh]
    obtain ⟨hnone, hnone'⟩ | ⟨-, hsome, hsome'⟩ := Course.results hstate.hang nodes nodes
    · rw [hnone, hnone', Option.map_none]
    · rw [hsome, hsome', hreport, hworld, Option.map_some]

/-- Running a line leaves the ways of the streams alone. -/
theorem run_modes {result : Except ChainError Report} {after : World}
    (h : sh.run line w = some (result, after)) :
    after.stdout.mode = w.stdout.mode ∧ after.stderrMode = w.stderrMode := by
  cases hchain : sh.chain line with
  | error e =>
    rw [run, hchain] at h
    cases h
    exact ⟨rfl, rfl⟩
  | ok nodes =>
    obtain ⟨cs, hcs, -⟩ := sh.realizes_chain hchain
    have hmodes : (sh.drive nodes w).state.world.stdout.mode = w.stdout.mode ∧
        (sh.drive nodes w).state.world.stderrMode = w.stderrMode := by
      refine @run_keeps _ _ sh.invoke nodes { world := w } (fun r =>
        r.world.stdout.mode = w.stdout.mode ∧ r.world.stderrMode = w.stderrMode) hcs.fresh
        ⟨rfl, rfl⟩ fun k n r _ h => ?_
      obtain ⟨ho, he, -⟩ := sh.invoke_ends k n r
      exact ⟨ho.trans h.1, he.trans h.2⟩
    rw [run, hchain] at h
    obtain ⟨-, hresult⟩ := Running.of_result h
    cases hresult
    exact hmodes

end Shell

/-! ## 3. Turns -/

/-- A line with the files that it finds, and what its run comes to. -/
structure Turn where
  line : String
  files : FileTree
  result : Except ChainError Report
  /-- The world after the run. -/
  ran : World

namespace Turn

variable (s : Session) (t : Turn)

/-- The line comes to that when it is run by itself. -/
def IsRun : Prop := s.shell.run t.line { files := t.files } = some (t.result, t.ran)

/-- The files that the turn leaves: those of the run, with a record of the line in the history. -/
def left : FileTree := (s.remember (recordOf s.shell.label t.line t.result) t.ran).files

/-- The report on the line, or why it was rejected, in a world where nothing was shown before. -/
def verdict : World := s.showResult {} t.result

/-- The log of the line. -/
def log : List Notice := s.shell.log s.style.plain t.line t.files

def shown : Bytes := t.ran.stdout.written ++ (t.verdict s).stdout.written

def said : String := shownNotices s.level s.style (t.log s ++ (t.verdict s).notices)

/-- The exit status that the line asks for. -/
def status : Nat :=
  match t.result with
  | .error _ => 2
  | .ok r =>
    if r.fault = none ∧ 0 ≤ r.exitCode.toInt ∧ r.exitCode.toInt ≤ 255 then r.exitCode.toInt.toNat
    else 255

/-- The second world is left by the turn in the first one. -/
structure Leads (w w' : World) : Prop where
  files : w'.files = t.left s
  written : w'.stdout.written = w.stdout.written ++ t.shown s
  notices : w'.notices = w.notices ++ (t.log s ++ (t.verdict s).notices)
  isOpen : w'.IsOpen

end Turn

namespace Session

variable (s : Session)

/-- Turns in a row, from some files to others: each line finds the files that the one before it
left. -/
inductive Plays : FileTree → List Turn → FileTree → Prop
  | nil {files : FileTree} : Plays files [] files
  | cons {t : Turn} {ts : List Turn} {last : FileTree} (ran : t.IsRun s)
      (h : Plays (t.left s) ts last) : Plays t.files (t :: ts) last

/-- One of the lines never ends; those before it are turns in a row. -/
def Stalls (files : FileTree) (lines : List String) : Prop :=
  ∃ turns line rest last, turns.map Turn.line ++ line :: rest = lines ∧ s.Plays files turns last ∧
    s.shell.run line { files := last } = none

/-- Without its details, the log of each line is what its run says. -/
theorem Plays.filter_log {files last : FileTree} {turns : List Turn}
    (h : s.Plays files turns last) :
    ∀ t ∈ turns, (t.log s).filter (fun x => !x.isDetail) = t.ran.notices := by
  induction h with
  | nil => exact fun t ht => absurd ht List.not_mem_nil
  | cons ran _ ih => exact List.forall_mem_cons.mpr ⟨s.shell.filter_log _ ran, ih⟩

/-- A fault counts as a code that no status can show. -/
theorem lineStatus_result (t : Turn) : lineStatus t.result = t.status := by
  rw [Turn.status]
  cases t.result with
  | error e => rfl
  | ok r =>
    cases hfault : r.fault with
    | none => simp [lineStatus, exitStatus, hfault]
    | some text =>
      have hcode : exitStatus (-1) = 255 := by decide
      simp [lineStatus, Report.exitCode_of_fault hfault, hcode]

/-- The result of a line is shown after what was shown before, and nothing else changes. -/
theorem showResult_adds (w : World) (result : Except ChainError Report) :
    (s.showResult w result).files = w.files ∧
      (s.showResult w result).stdout.mode = w.stdout.mode ∧
      (s.showResult w result).stderrMode = w.stderrMode ∧
      (s.showResult w result).stdout.written =
        w.stdout.written ++ (s.showResult {} result).stdout.written ∧
      (s.showResult w result).notices = w.notices ++ (s.showResult {} result).notices := by
  cases result with
  | ok r =>
    simp only [showResult, showReport]
    split <;> simp [World.print, Stream.add]
  | error e =>
    simp only [showResult, showRejection]
    split <;> simp [World.tell]

/-- The record of a line goes to the history, whatever was shown and said. -/
theorem remember_adds (record : String) (w : World) :
    ∃ files, s.remember record w = { w with files := files } ∧
      ∀ w' : World, w'.files = w.files → (s.remember record w').files = files := by
  cases hplace : s.history with
  | none => exact ⟨w.files, by simp [remember, hplace], fun w' h => by simp [remember, hplace, h]⟩
  | some place =>
    exact ⟨_, by simp only [remember, hplace]; rfl, fun w' h => by simp [remember, hplace, h]⟩

/-- **A line that is run after others is a turn in the files that they left**, if it ever ends. -/
theorem runLine_turn (line : String) {w : World} (hopen : w.IsOpen) :
    (({ s with world := w } : Session).runLine line = none ∧
        s.shell.run line { files := w.files } = none) ∨
      ∃ t : Turn, t.line = line ∧ t.files = w.files ∧ t.IsRun s ∧ ∃ w', t.Leads s w w' ∧
        ({ s with world := w } : Session).runLine line =
          some (t.status, { s with world := w' }) := by
  have hbehind := s.shell.run_behind line w
  rw [hopen.renewed_eq] at hbehind
  cases hrun : s.shell.run line { files := w.files } with
  | none =>
    rw [hrun, Option.map_none] at hbehind
    exact .inl ⟨by simp only [runLine, hbehind, Option.map_none], rfl⟩
  | some p =>
    obtain ⟨result, ran⟩ := p
    rw [hrun, Option.map_some] at hbehind
    let t : Turn := ⟨line, w.files, result, ran⟩
    let told : World := { ran.behind w with notices := w.notices ++ t.log s }
    obtain ⟨files, hremember, hleft⟩ := s.remember_adds (recordOf s.shell.label line result) told
    obtain ⟨hfiles, hmode, hstderr, hwritten, hnotices⟩ :=
      s.showResult_adds { told with files := files } result
    obtain ⟨hmode', hstderr'⟩ := s.shell.run_modes line { files := w.files } hrun
    refine .inr ⟨t, rfl, rfl, hrun, s.showResult { told with files := files } result,
      ⟨?_, ?_, ?_, ⟨hmode.trans hmode', hstderr.trans hstderr'⟩⟩, ?_⟩
    · exact hfiles.trans (hleft ran rfl).symm
    · rw [hwritten, Turn.shown, ← List.append_assoc]
      rfl
    · rw [hnotices, ← List.append_assoc]
      rfl
    · simp only [runLine, hbehind, Option.map_some]
      rw [lineStatus_result t, ← hremember]
      rfl

/-! ## 4. Lines in a row -/

/-- **Lines that are run in a row are turns in a row**, if each of them ends. The status is that of the
last one, and what they show and say stands one after the other. -/
theorem runLines_turns (lines : List String) (status : Nat) {w : World} (hopen : w.IsOpen) :
    (({ s with world := w } : Session).runLines status lines = none ∧ s.Stalls w.files lines) ∨
      ∃ turns : List Turn, turns.map Turn.line = lines ∧
        ∃ after : World, ({ s with world := w } : Session).runLines status lines =
            some ((turns.getLast?.map Turn.status).getD status, { s with world := after }) ∧
          s.Plays w.files turns after.files ∧
          after.stdout.written = w.stdout.written ++ turns.flatMap (Turn.shown s) ∧
          after.messages s.level s.style =
            w.messages s.level s.style ++ String.join (turns.map (Turn.said s)) := by
  induction lines generalizing status w with
  | nil =>
    refine .inr ⟨[], rfl, w, rfl, .nil, (List.append_nil _).symm, ?_⟩
    simp [String.join]
  | cons line lines ih =>
    obtain ⟨hnone, hrun⟩ | ⟨t, rfl, hfiles, ran, w', hleads, hline⟩ := s.runLine_turn line hopen
    · refine .inl ⟨?_, [], line, lines, w.files, rfl, .nil, hrun⟩
      rw [runLines, hnone, Option.bind_none]
    have hrest : ({ s with world := w } : Session).runLines status (t.line :: lines) =
        ({ s with world := w' } : Session).runLines t.status lines := by
      rw [runLines, hline, Option.bind_some]
    have hfiles' : t.left s = w'.files := hleads.files.symm
    rw [hrest, ← hfiles]
    obtain ⟨hnone, turns, line, rest, last, rfl, hplays, hrun⟩ |
      ⟨turns, rfl, after, hrun, hplays, hshown, hsaid⟩ := ih t.status hleads.isOpen
    · exact .inl ⟨hnone, t :: turns, line, rest, last, rfl, .cons ran (hfiles' ▸ hplays), hrun⟩
    · refine .inr ⟨t :: turns, rfl, after, ?_, .cons ran (hfiles' ▸ hplays), ?_, ?_⟩
      · rw [hrun, List.getLast?_cons]
        cases turns.getLast? <;> rfl
      · rw [hshown, hleads.written, List.flatMap_cons, List.append_assoc]
      · rw [hsaid, World.messages, hleads.notices, shownNotices_append, List.map_cons,
          String.join_cons, String.append_assoc]
        rfl

/-! ## 5. The start -/

end Session

/-- Nothing has been shown, and both streams take everything. -/
structure World.Unshown (w : World) : Prop extends w.IsOpen where
  written : w.stdout.written = []

namespace Session

variable {w : World}

theorem unshown_tell (h : w.Unshown) (line : String) : (w.tell line).Unshown :=
  ⟨⟨h.stdout, h.stderr⟩, h.written⟩

theorem unshown_note (h : w.Unshown) (notices : List Notice) : (w.note notices).Unshown :=
  ⟨⟨h.stdout, h.stderr⟩, h.written⟩

theorem unshown_chooseLevel (h : w.Unshown) (verbose : Bool) (name : String) :
    (chooseLevel verbose name w).2.Unshown := by
  unfold chooseLevel
  split
  · exact h
  · split
    · exact h
    · exact unshown_tell h _

theorem unshown_chooseHistory (h : w.Unshown) (path : Option String) :
    (chooseHistory path w).2.Unshown := by
  unfold chooseHistory
  cases path with
  | none => exact h
  | some path =>
    dsimp only
    split <;> exact ⟨⟨h.stdout, h.stderr⟩, h.written⟩

/-- A session starts with nothing shown, whatever it has said about its configuration. -/
theorem unshown_start (s : Surroundings) (a : Arguments) : (start s a).world.Unshown := by
  unfold start
  generalize Config.load s.files s.home a.config = loaded
  obtain ⟨config, problem⟩ := loaded
  have hfiles : ({ files := s.files } : World).Unshown := ⟨⟨rfl, rfl⟩, rfl⟩
  have hproblem : (problem.elim { files := s.files } fun p =>
      ({ files := s.files } : World).tell (p.message s.explain)).Unshown := by
    cases problem with
    | none => exact hfiles
    | some problem => exact unshown_tell hfiles _
  have hlevel := unshown_chooseLevel hproblem a.verbose config.settings.logLevel
  have hhistory := unshown_chooseHistory hlevel (config.settings.historyPath? s.home)
  exact unshown_note hhistory _

end Session

/-! ## 6. A script -/

/-- Only a line that was built, met no fault and ended with the code 0 asks for the status 0. -/
theorem Turn.status_eq_zero {t : Turn} (h : t.status = 0) :
    ∃ r, t.result = .ok r ∧ r.fault = none ∧ r.exitCode = 0 := by
  rw [status] at h
  cases hresult : t.result with
  | error e =>
    rw [hresult] at h
    cases h
  | ok r =>
    simp only [hresult] at h
    split at h
    · rename_i hcode
      obtain ⟨hfault, hlow, -⟩ := hcode
      have hint : r.exitCode.toInt = 0 := by omega
      exact ⟨r, rfl, hfault, Int32.toInt_inj.mp hint⟩
    · cases h

/-- Where a script ends: at a line that never does, at one that is not UTF-8, which is told, or at the
end of the input. -/
theorem Session.script_turns (s : Session) (h : s.world.Unshown) (input : Bytes) :
    ∃ lines texts, Bytes.CutsIntoLines input lines ∧ Bytes.ReadsAs lines texts ∧
      match s.script input with
      | none => s.Stalls s.world.files (texts.filter isRunnable)
      | some (status, after) =>
        let f := after.finish status
        ∃ turns, turns.map Turn.line = texts.filter isRunnable ∧
          s.Plays s.world.files turns f.files ∧ f.stdout = turns.flatMap (Turn.shown s) ∧
          (((∃ line ∈ lines, Bytes.ofUtf8? line = none) ∧ f.status = 1 ∧
              f.stderr =
                s.world.messages s.level s.style ++ String.join (turns.map (Turn.said s)) ++
                  "linechain: failed to read stdin: stream did not contain valid UTF-8\n") ∨
            ((∀ line ∈ lines, Bytes.ofUtf8? line ≠ none) ∧
              f.status = (turns.getLast?.map Turn.status).getD 0 ∧
              f.stderr =
                s.world.messages s.level s.style ++ String.join (turns.map (Turn.said s)))) := by
  obtain ⟨hreads, hbad⟩ := Bytes.readsAs_linesUntilBad (Bytes.pieces input)
  refine ⟨_, _, Bytes.cutsIntoLines_pieces input, hreads, ?_⟩
  rw [script]
  generalize Bytes.linesUntilBad (Bytes.pieces input) = read at hbad ⊢
  obtain ⟨texts, bad⟩ := read
  dsimp only at hbad ⊢
  obtain ⟨hnone, hstalls⟩ | ⟨turns, hlines, after, hrun, hplays, hshown, hsaid⟩ :=
    s.runLines_turns (texts.filter isRunnable) 0 h.toIsOpen
  · rw [hnone]
    exact hstalls
  rw [h.written, List.nil_append] at hshown
  rw [hrun]
  cases bad with
  | true =>
    refine ⟨turns, hlines, hplays, hshown, .inl ⟨hbad.mp rfl, rfl, ?_⟩⟩
    rw [← hsaid]
    exact shownNotices_append s.level s.style after.notices [.text _]
  | false =>
    refine ⟨turns, hlines, hplays, hshown, .inr ⟨fun line hmem hnone => ?_, rfl, hsaid⟩⟩
    exact absurd (hbad.mpr ⟨line, hmem, hnone⟩) Bool.false_ne_true

/-- **A script runs every line once and reports the last.** The input is cut into lines, and those up
to the first one that is not UTF-8 are run in order, blank ones left out. Each of them is a turn in the
files that the lines before it left, whatever became of these: what it leaves, shows and says comes
from its own run there, from its record, and from the report on it or the reason why it was rejected.
The status is 1 if there is a line that is not UTF-8, and otherwise that of the last turn, or 0 if there
is none. So it is 0 only if the last line that was run met no fault and its last command that ran ended
with the code 0. Where the call never ends, one of the lines does not, in the files that those before it
left. -/
theorem execute_script {s : Surroundings} {args : List String} {a : Arguments}
    (hargs : parseArguments args = .ok a) (hmode : a.mode = .run) (hline : a.line = none) :
    let start := Session.start s a
    ∃ lines texts, Bytes.CutsIntoLines s.stdin lines ∧ Bytes.ReadsAs lines texts ∧
      match execute s args with
      | none => start.Stalls start.world.files (texts.filter Session.isRunnable)
      | some f =>
        ∃ turns, turns.map Turn.line = texts.filter Session.isRunnable ∧
          start.Plays start.world.files turns f.files ∧
          f.stdout = turns.flatMap (Turn.shown start) ∧
          (∀ t ∈ turns, (t.log start).filter (fun x => !x.isDetail) = t.ran.notices) ∧
          (((∃ line ∈ lines, Bytes.ofUtf8? line = none) ∧ f.status = 1 ∧
              f.stderr = start.world.messages start.level start.style ++
                String.join (turns.map (Turn.said start)) ++
                  "linechain: failed to read stdin: stream did not contain valid UTF-8\n") ∨
            ((∀ line ∈ lines, Bytes.ofUtf8? line ≠ none) ∧
              f.status = (turns.getLast?.map Turn.status).getD 0 ∧
              f.stderr = start.world.messages start.level start.style ++
                String.join (turns.map (Turn.said start)))) ∧
          (f.status = 0 → (∀ line ∈ lines, Bytes.ofUtf8? line ≠ none) ∧
            ∀ t ∈ turns.getLast?, ∃ r, t.result = .ok r ∧ r.fault = none ∧
              ∀ code, NearestRan r.outcomes r.outcomes.length code → code = 0) := by
  have hstart : (Session.start s a).world.Unshown := Session.unshown_start s a
  have hperform : execute s args =
      ((Session.start s a).script s.stdin).map fun p => p.2.finish p.1 := by
    simp only [execute, hargs, hmode, Session.perform, hline]
    rfl
  rw [hperform]
  generalize Session.start s a = start at hstart
  intro start'
  obtain ⟨lines, texts, hcuts, hreads, hends⟩ := start.script_turns hstart s.stdin
  refine ⟨lines, texts, hcuts, hreads, ?_⟩
  cases hscript : start.script s.stdin with
  | none =>
    rw [hscript] at hends
    exact hends
  | some p =>
    rw [hscript] at hends
    obtain ⟨turns, hlines, hplays, hshown, hends⟩ := hends
    refine ⟨turns, hlines, hplays, hshown, Session.Plays.filter_log start hplays, hends,
      fun hzero => ?_⟩
    obtain ⟨-, hone, -⟩ | ⟨hgood, hlast, -⟩ := hends
    · exact absurd (hone.symm.trans hzero) Nat.one_ne_zero
    · refine ⟨hgood, fun t ht => ?_⟩
      have hstatus : t.status = 0 := by
        rw [Option.mem_def.mp ht] at hlast
        exact hlast.symm.trans hzero
      obtain ⟨r, hresult, hfault, hcode⟩ := Turn.status_eq_zero hstatus
      refine ⟨r, hresult, hfault, fun code hnear => ?_⟩
      rw [← Report.exitCode_of_nearestRan hfault hnear, hcode]

/-- A line that is rejected, a blank one, and one that ends with a carriage return. -/
theorem execute_script_after_rejection :
    let s : Surroundings :=
      { home := "/", stamp := "2000-01-01T00:00:00Z", explain := fun _ => "refused"
        style := { plain := fun _ => true, detail := fun source message => source ++ ": " ++ message }
        files := .emptyAt ["work"], stdin := Bytes.utf8 "nope\n \necho a > f\r\n" }
    let start := Session.start s {}
    parseArguments [] = .ok {} ∧ ∃ f, execute s [] = some f ∧ ∃ turns,
      turns.map Turn.line = ["nope", "echo a > f"] ∧ start.Plays start.world.files turns f.files ∧
        f.stdout = turns.flatMap (Turn.shown start) ∧ f.status = 0 ∧
        ∀ t ∈ turns.getLast?, ∃ r, t.result = .ok r ∧ r.fault = none := by
  intro s
  have hstatus : (execute s []).map Finish.status = some 0 := by decide +kernel
  have heval : (((Bytes.pieces s.stdin).map Bytes.stripLineEnd).map Bytes.ofUtf8?).takeWhile
      Option.isSome = ["nope", " ", "echo a > f"].map some := by decide +kernel
  have hscript := @execute_script s [] {} rfl rfl rfl
  obtain ⟨f, hf, hzero⟩ := Option.map_eq_some_iff.mp hstatus
  rw [hf] at hscript
  refine ⟨rfl, f, hf, ?_⟩
  generalize Session.start s {} = start at hscript ⊢
  obtain ⟨lines, texts, hcuts, hreads, turns, hturns, hplays, hshown, -, -, hends⟩ := hscript
  have hlines := hcuts.unique (Bytes.cutsIntoLines_pieces s.stdin)
  rw [Bytes.ReadsAs, hlines, heval] at hreads
  have htexts : ["nope", " ", "echo a > f"] = texts :=
    List.map_injective_iff.mpr (fun _ _ h => Option.some.inj h) hreads
  refine ⟨turns, ?_, hplays, hshown, hzero, fun t ht => ?_⟩
  · rw [hturns, ← htexts]
    decide +kernel
  · obtain ⟨r, hresult, hfault, -⟩ := (hends hzero).2 t ht
    exact ⟨r, hresult, hfault⟩

end LineShell
