import Mathlib.Data.List.Flatten
import TreeWalk.Command.Execute
import TreeWalk.Proofs.FileLaws
import TreeWalk.Proofs.Meaning
import TreeWalk.Yaml.Decode

/-!
# Front ends

A program text can be tried out (`tryOut`), run as a command (`Report.ofRun`), or checked as a
command (`Check.diagnose`).  The three treat what is wrong with it in different ways: the first
keeps the messages, the second prints each diagnostic as its collector echoes it, the third keeps
what a silent collector has and prints it when all is read.  They agree nevertheless: on whether a
text can be read, on what is wrong with it and in which order, and the two that run it on what
becomes of it.

## Main definitions

* `SourceFile.textIn` — what a source file holds in a state of the files.
* `Command.executeIn` — carries out a command in a state of the files.

## Main results

* `Collector.reportAll_eq` — what is echoed and what is kept are the same diagnostics.
* `Cursor.file_of_mem_diagnostics` — diagnostics are about the file that is read.
* `tryOut_cases`, `Report.ofRun_of_diagnostics`, `Report.ofRun_of_readable`, `Check.diagnose_eq` —
  what each of the front ends makes of a text.
* `Command.front_ends_agree` — **the front ends agree.**
-/

namespace TreeWalk

open FileSystem

/-! ### Diagnostics are about the file that is read -/

theorem Position.file_advanceOver (pos : Position) (text : Bytes) :
    (pos.advanceOver text).file = pos.file := by
  induction text generalizing pos with
  | nil => rfl
  | cons b text ih =>
    rw [advanceOver_cons, ih, advance]
    split <;> rfl

namespace Cursor

/-- All of `Cursor.tokens`, and `Cursor.finish`, are in the file of the cursor. -/
theorem file_scan (cursor : Cursor) :
    (∀ token ∈ cursor.tokens, token.pos.file = cursor.pos.file) ∧
      cursor.finish.pos.file = cursor.pos.file := by
  induction cursor using scan.induct with
  | case1 cursor hnext =>
    obtain ⟨htokens, hfinish⟩ := scan_of_none hnext
    rw [htokens, hfinish]
    exact ⟨List.forall_mem_nil _, Position.file_advanceOver ..⟩
  | case2 cursor token after hnext _ _ _ _ ih =>
    obtain ⟨htokens, hfinish⟩ := scan_of_some hnext
    obtain ⟨b, rest, -, -, htoken, hafter⟩ := next?_eq_some_iff.mp hnext
    have hskip : cursor.skipBlanks.pos.file = cursor.pos.file := Position.file_advanceOver ..
    have hbehind : after.pos.file = cursor.pos.file := by
      rw [hafter, ← hskip]
      exact Position.file_advanceOver ..
    rw [htokens, hfinish]
    refine ⟨List.forall_mem_cons.2 ⟨?_, fun token htoken => ?_⟩, ih.2.trans hbehind⟩
    · rw [htoken]
      exact hskip
    · exact (ih.1 token htoken).trans hbehind

/-- Every diagnostic of `Cursor.parse` is about the file of the cursor. -/
theorem file_of_mem_diagnostics {cursor : Cursor} {diagnostic : Diagnostic}
    (h : diagnostic ∈ cursor.parse.diagnostics) : diagnostic.pos.file = cursor.pos.file := by
  -- the parser hands on positions of tokens, so what all of these have it keeps
  let P : Position → Position → Prop := fun pos _ => pos.file = cursor.pos.file
  have hfinish : cursor.finish.endToken.Alike P cursor.finish.endToken := by
    refine ⟨rfl, rfl, ?_⟩
    rw [endToken_finish]
    exact cursor.file_scan.2
  have htokens : List.Forall₂ (Token.Alike P) cursor.tokens cursor.tokens :=
    List.forall₂_same.2 fun token htoken => ⟨rfl, rfl, cursor.file_scan.1 token htoken⟩
  have hdiagnostics := (parse_alike hfinish htokens).2
  exact (List.forall₂_same.1 hdiagnostics diagnostic h).pos

end Cursor

/-! ### Diagnostics echoed and kept -/

namespace Collector

/-- `Collector.reportAll` keeps all diagnostics, and echoes the same ones in the same order. -/
theorem reportAll_eq (collector : Collector) (diagnostics : List Diagnostic) :
    collector.reportAll diagnostics =
      ⟨collector.echoes, collector.diagnostics ++ diagnostics, collector.echoed ++
        if collector.echoes then diagnostics.map (asLine ·.text) else []⟩ := by
  induction diagnostics generalizing collector with
  | nil => simp [reportAll]
  | cons diagnostic more ih =>
    rw [reportAll, List.foldl_cons]
    refine (ih (collector.report diagnostic)).trans ?_
    cases hechoes : collector.echoes <;> simp [report, hechoes, asLine]

theorem diagnostics_reportAll_empty (echoes : Bool) (diagnostics : List Diagnostic) :
    ((empty echoes).reportAll diagnostics).diagnostics = diagnostics :=
  congrArg Collector.diagnostics (reportAll_eq _ _)

theorem echoed_reportAll_empty (diagnostics : List Diagnostic) :
    ((empty true).reportAll diagnostics).echoed = diagnostics.map (asLine ·.text) :=
  congrArg Collector.echoed (reportAll_eq _ _)

theorem hasErrors_reportAll_empty (echoes : Bool) (diagnostics : List Diagnostic) :
    ((empty echoes).reportAll diagnostics).hasErrors ↔ diagnostics ≠ [] := by
  rw [hasErrors, diagnostics_reportAll_empty]
  cases diagnostics <;> simp

end Collector

/-! ### What each front end makes of a text -/

theorem Cursor.parseMessages_eq (cursor : Cursor) :
    cursor.parseMessages =
      (cursor.parse.program, cursor.parse.diagnostics.map (·.message), cursor.finish) := by
  simp only [parseMessages, parseInto, Collector.messages, Collector.diagnostics_reportAll_empty]

/-- What `tryOut` makes of a text with a name: there are diagnostics, and their messages are what is
left; or the program is given up, which is for its limit; or it comes to a value. -/
theorem tryOut_cases {name : Bytes} (hname : name ≠ []) (text : Bytes) (limit : Int) :
    let parsed := (Cursor.start name text).parse
    let ending := (Session.start limit.toNat).run parsed.program
    let messages := parsed.diagnostics.map (·.message)
    (parsed.diagnostics ≠ [] ∧ tryOut text name limit =
      (some ⟨messages, .nothing, none, Bytes.join (utf8 "\n") messages⟩, some .unreadable)) ∨
    (parsed.diagnostics = [] ∧ ∃ abort session, ending = (.error abort, session) ∧
      abort = (if limit.toNat = 0 then .unfinished else .tooDeep limit.toNat) ∧
      tryOut text name limit = (none, some (.aborted abort))) ∨
    (parsed.diagnostics = [] ∧ ∃ value session, ending = (.ok value, session) ∧
      tryOut text name limit = (some ⟨[], value, some session, value.inspect⟩, none)) := by
  intro parsed ending messages
  have hread : (Cursor.ofTrial name text).parseMessages =
      (parsed.program, messages, (Cursor.start name text).finish) := by
    rw [Cursor.ofTrial, Cursor.startOr, if_neg hname]
    exact Cursor.parseMessages_eq _
  by_cases hnone : parsed.diagnostics = []
  · have hmessages : ¬ messages ≠ [] := not_not_intro (List.map_eq_nil_iff.2 hnone)
    right
    rcases hending : (Session.start limit.toNat).run parsed.program with ⟨abort | value, session⟩
    · have habort : (Machine.fresh.run limit.toNat parsed.program 0).1 = .error abort :=
        congrArg Prod.fst hending
      refine .inl ⟨hnone, abort, session, hending, Machine.run_parsed_error habort, ?_⟩
      simp only [tryOut, hread, if_neg hmessages, hending]
    · refine .inr ⟨hnone, value, session, hending, ?_⟩
      simp only [tryOut, hread, if_neg hmessages, hending]
  · have hmessages : messages ≠ [] := mt List.map_eq_nil_iff.1 hnone
    refine .inl ⟨hnone, ?_⟩
    simp only [tryOut, hread, if_pos hmessages]

theorem Check.diagnose_eq (name text : Bytes) :
    diagnose name text = (Cursor.start name text).parse.diagnostics :=
  Collector.diagnostics_reportAll_empty false _

/-! ### Reports -/

theorem asLine_ne_nil (text : Bytes) : asLine text ≠ [] :=
  List.append_ne_nil_of_right_ne_nil text (by decide)

namespace Report

variable {name text : Bytes} {limit : Nat} {showEnv : Bool}

/-- `Report.ofRun` prints what the echoing collector wrote, if there is anything to complain of. -/
theorem ofRun_of_diagnostics (h : (Cursor.start name text).parse.diagnostics ≠ []) :
    ofRun name text limit showEnv =
      ⟨.failure, diagnosticLines (Cursor.start name text).parse.diagnostics⟩ := by
  have hechoed : ((Collector.empty true).reportAll
        (Cursor.start name text).parse.diagnostics).echoed.map Piece.error =
      diagnosticLines (Cursor.start name text).parse.diagnostics := by
    rw [Collector.echoed_reportAll_empty, List.map_map]
    rfl
  rw [ofRun, Cursor.parseInto]
  simp only [if_pos ((Collector.hasErrors_reportAll_empty true _).2 h), hechoed]

/-- `Report.ofRun` runs a text without diagnostics. -/
theorem ofRun_of_readable (h : (Cursor.start name text).parse.diagnostics = []) :
    ofRun name text limit showEnv =
      ofEnding showEnv ((Session.start limit).run (Cursor.start name text).parse.program) := by
  rw [ofRun, Cursor.parseInto, h]
  rfl

theorem render_diagnosticLines (code : ExitCode) (diagnostics : List Diagnostic) :
    Report.render false ⟨code, diagnosticLines diagnostics⟩ =
      diagnostics.flatMap (asLine ·.text) := by
  rw [Report.render, diagnosticLines, List.flatMap_map]
  rfl

/-- A value is printed on a line of its own, and an error is a failure; nothing is not printed. -/
theorem ofValue_eq (value : Value) :
    (ofValue value).code = (if value.isError then .failure else .success) ∧
      (value = .nothing → (ofValue value).render false = []) ∧
      (value ≠ .nothing → (ofValue value).render false = asLine value.inspect) := by
  cases value with
  | nothing => exact ⟨rfl, fun _ => rfl, fun h => absurd rfl h⟩
  | _ =>
    refine ⟨rfl, fun h => ?_, fun _ => List.append_nil _⟩
    cases h

theorem ofEnding_ok (value : Value) (session : Session) :
    ofEnding false (.ok value, session) = ofValue value := by
  simp only [ofEnding, Bool.false_eq_true, if_false, List.append_nil]

/-- A value is never a reason to fail without a word. -/
theorem ofValue_ne_silent_failure (value : Value) :
    ¬ ((ofValue value).code = .failure ∧ (ofValue value).render false = []) := by
  rintro ⟨hfailure, hempty⟩
  obtain ⟨-, -, hline⟩ := ofValue_eq value
  have hvalue : value ≠ .nothing := by
    rintro rfl
    cases hfailure
  exact asLine_ne_nil _ ((hline hvalue).symm.trans hempty)

theorem ofValue_code_ne_fatal (value : Value) : (ofValue value).code ≠ .fatal := by
  rw [(ofValue_eq value).1]
  split <;> simp

theorem plainLine_notMem_diagnosticLines (text : Bytes) (diagnostics : List Diagnostic) :
    .plainLine text ∉ diagnosticLines diagnostics := by
  simp [diagnosticLines, Piece.plainLine, Piece.errorLine]

theorem ofChecks_singleton (file : SourceFile) (diagnostics : List Diagnostic) :
    ofChecks [(file, diagnostics)] =
      if diagnostics = [] then ⟨.success, [.plainLine (file.path ++ utf8 ": ok")]⟩
      else ⟨.failure, diagnosticLines diagnostics⟩ := by
  by_cases h : diagnostics = [] <;> simp [ofChecks, checkedFile, h]

/-- `Report.ofChecks` says of one file that it is well if and only if there are no diagnostics;
otherwise it prints these. -/
theorem ofChecks_eq (file : SourceFile) (diagnostics : List Diagnostic) :
    (diagnostics ≠ [] → (ofChecks [(file, diagnostics)]).code = .failure ∧
      (ofChecks [(file, diagnostics)]).render false = diagnostics.flatMap (asLine ·.text)) ∧
    (diagnostics = [] → ofChecks [(file, diagnostics)] =
      ⟨.success, [.plainLine (file.path ++ utf8 ": ok")]⟩) ∧
    (.plainLine (file.path ++ utf8 ": ok") ∈ (ofChecks [(file, diagnostics)]).pieces ↔
      diagnostics = []) := by
  rw [ofChecks_singleton]
  by_cases h : diagnostics = []
  · rw [if_pos h]
    exact ⟨absurd h, fun _ => rfl, iff_of_true (List.mem_singleton_self _) h⟩
  · rw [if_neg h]
    refine ⟨fun _ => ⟨rfl, render_diagnosticLines _ _⟩, fun hnone => absurd hnone h, ?_⟩
    exact iff_of_false (plainLine_notMem_diagnosticLines _ _) h

end Report

/-! ### Commands in a state of the files -/

section

variable {σ : Type} [FileSystem (StateM σ)]

/-- What `file` holds in a `state` of the files, or why it cannot be read. -/
def SourceFile.textIn (file : SourceFile) (state : σ) : Except SourceError Bytes :=
  (readIn state file.path).mapError (.unreadable file.path)

theorem SourceFile.textIn_of_read {state : σ} {file : SourceFile} {text : Bytes}
    (h : readIn state file.path = .ok text) : file.textIn state = .ok text := by
  rw [textIn, h]
  rfl

/-- Carries out `command` in a `state` of the files. -/
def Command.executeIn (yaml : Yaml.Library) (state : σ) (settings : Settings) (command : Command) :
    Except ExecuteError Report × σ :=
  (execute yaml settings command : StateM σ (Except ExecuteError Report)) state

variable [LawfulFileSystem σ]

/-- `SourceFile.read` gives `SourceFile.textIn`, and changes nothing. -/
theorem SourceFile.read_apply (state : σ) (file : SourceFile) :
    (file.read : StateM σ (Except SourceError Bytes)) state = (file.textIn state, state) := by
  simp only [read, bind, StateT.bind, FileSystem.read_apply, textIn]
  cases readIn state file.path <;> rfl

namespace Command

variable {state : σ} {file : SourceFile} {text : Bytes}

/-- The command `run` reads the file and runs what it holds. -/
theorem executeIn_run (yaml : Yaml.Library) (hread : readIn state file.path = .ok text)
    (settings : Settings) (showEnv : Bool) :
    executeIn yaml state settings (.run file showEnv) =
      (.ok (.ofRun file.name text settings.limit (showEnv || settings.showEnv)), state) := by
  simp only [executeIn, execute, bind, StateT.bind, SourceFile.read_apply,
    SourceFile.textIn_of_read hread]
  rfl

/-- The command `check` reads the one file and reports what the parser has to say about it. -/
theorem executeIn_check (yaml : Yaml.Library) (hread : readIn state file.path = .ok text)
    (settings : Settings) :
    executeIn yaml state settings (.check [file]) =
      (.ok (.ofChecks [(file, Check.diagnose file.name text)]), state) := by
  have hslot : (checkSlots [file] [0] (.start [file]) : StateM σ Check) state =
      ((Check.start [file]).finish 0 file (.ok text), state) := by
    simp only [checkSlots, List.getElem?_cons_zero, bind, StateT.bind, SourceFile.read_apply,
      SourceFile.textIn_of_read hread]
    rfl
  simp only [executeIn, execute, checkFiles, checkIn, List.length_singleton, List.range_one, bind,
    StateT.bind, hslot]
  rfl

/-- **The front ends agree.**  Let a file with a name hold a text, and let no bindings be asked for.
Running the file prints a line for each diagnostic, which is a place in the file and a message, and
fails, exactly when `tryOut` finds the text unreadable; that is so exactly when there are
diagnostics, and `tryOut` keeps the same messages in the same order.  Running the file ends fatally
exactly when `tryOut` gives up, which is for the limit, and prints the reason.  Otherwise it prints
the output of `tryOut`, if there is a value, and fails if that is an error.  Checking the file
prints the same lines as running it does if there are diagnostics, and that all is well exactly when
there are none. -/
theorem front_ends_agree (yaml : Yaml.Library) (settings : Settings)
    (hread : readIn state file.path = .ok text) (hname : file.name ≠ [])
    (henv : settings.showEnv = false) :
    let diagnostics := (Cursor.start file.name text).parse.diagnostics
    let lines := diagnostics.flatMap fun diagnostic =>
      asLine (diagnostic.pos.text ++ utf8 ": " ++ diagnostic.message)
    let (trial?, error?) := tryOut text file.name settings.maxCallDepth
    ∃ ran checked : Report,
      executeIn yaml state settings (.run file false) = (.ok ran, state) ∧
      executeIn yaml state settings (.check [file]) = (.ok checked, state) ∧
      (∀ diagnostic ∈ diagnostics, diagnostic.pos.file = file.name) ∧
      -- a text that cannot be read
      (error? = some .unreadable ↔ diagnostics ≠ []) ∧
      (ran.code = .failure ∧ ran.render false = lines ↔ error? = some .unreadable) ∧
      (error? = some .unreadable →
        ∃ trial, trial? = some trial ∧ trial.messages = diagnostics.map (·.message)) ∧
      -- a text that is given up
      (ran.code = .fatal ↔ ∃ abort, error? = some (.aborted abort)) ∧
      (∀ abort, error? = some (.aborted abort) →
        ran.render false = asLine (utf8 "fatal: " ++ abort.message) ∧
        abort = if settings.limit = 0 then .unfinished else .tooDeep settings.limit) ∧
      -- a text that comes to a value
      (error? = none → ∃ trial, trial? = some trial ∧ trial.messages = [] ∧
        ran.code = (if trial.value.isError then .failure else .success) ∧
        (trial.value = .nothing → ran.render false = []) ∧
        (trial.value ≠ .nothing → ran.render false = asLine trial.output)) ∧
      -- checking
      (diagnostics ≠ [] → checked.code = .failure ∧ checked.render false = ran.render false) ∧
      (diagnostics = [] → checked = ⟨.success, [.plainLine (file.path ++ utf8 ": ok")]⟩) ∧
      (.plainLine (file.path ++ utf8 ": ok") ∈ checked.pieces ↔ diagnostics = []) := by
  intro diagnostics lines
  have hfile : ∀ diagnostic ∈ diagnostics, diagnostic.pos.file = file.name :=
    fun diagnostic h => Cursor.file_of_mem_diagnostics h
  -- the file has a name, so every line starts with the place
  have hlines : diagnostics.flatMap (asLine ·.text) = lines := by
    refine List.flatMap_congr fun diagnostic h => ?_
    rw [Diagnostic.text, if_neg (hfile diagnostic h ▸ hname)]
  have hrun := executeIn_run yaml hread settings false
  have hcheck := executeIn_check yaml hread settings
  rw [henv, Bool.or_false] at hrun
  rw [Check.diagnose_eq] at hcheck
  obtain ⟨hcomplains, hokay, hsays⟩ := Report.ofChecks_eq file diagnostics
  rw [hlines] at hcomplains
  rcases tryOut_cases hname text settings.maxCallDepth with
    ⟨hwrong, htry⟩ | ⟨hnone, abort, session, hending, habort, htry⟩ |
      ⟨hnone, value, session, hending, htry⟩
  · -- something is wrong with the text
    rw [htry]
    rw [Report.ofRun_of_diagnostics hwrong] at hrun
    have hprinted := (Report.render_diagnosticLines .failure diagnostics).trans hlines
    refine ⟨_, _, hrun, hcheck, hfile, iff_of_true rfl hwrong, iff_of_true ⟨rfl, hprinted⟩ rfl,
      fun _ => ⟨_, rfl, rfl⟩, ?_, ?_, ?_, fun h => ?_, hokay, hsays⟩
    · simp
    · simp
    · simp
    · exact ⟨(hcomplains h).1, (hcomplains h).2.trans hprinted.symm⟩
  · -- the text is given up
    rw [htry]
    rw [Report.ofRun_of_readable hnone, Settings.limit, hending] at hrun
    refine ⟨_, _, hrun, hcheck, hfile, ?_, ?_, ?_, iff_of_true rfl ⟨abort, rfl⟩, ?_, ?_,
      fun h => absurd hnone h, hokay, hsays⟩
    · exact iff_of_false (by simp) (not_not_intro hnone)
    · exact iff_of_false (by simp [Report.ofEnding]) (by simp)
    · simp
    · intro other hother
      obtain rfl := TrialError.aborted.inj (Option.some.inj hother)
      exact ⟨List.append_nil _, habort⟩
    · simp
  · -- the text comes to a value
    rw [htry]
    rw [Report.ofRun_of_readable hnone, Settings.limit, hending, Report.ofEnding_ok] at hrun
    have hempty : lines = [] := by rw [← hlines, show diagnostics = [] from hnone]; rfl
    refine ⟨_, _, hrun, hcheck, hfile, ?_, ?_, ?_, ?_, ?_, fun _ => ⟨_, rfl, rfl, ?_⟩,
      fun h => absurd hnone h, hokay, hsays⟩
    · exact iff_of_false (by simp) (not_not_intro hnone)
    · rw [hempty]
      exact iff_of_false (Report.ofValue_ne_silent_failure value) (by simp)
    · simp
    · exact iff_of_false (Report.ofValue_code_ne_fatal value) (by simp)
    · simp
    · exact Report.ofValue_eq value

/-- A file in which a binding has no name: running and checking it print the same complaint. -/
theorem front_ends_agree_nameless_binding :
    let tree : FileTree := { entries := [([utf8 "a.mk"], .file (utf8 "let"))] }
    let file : SourceFile := .ofPath (utf8 "/a.mk")
    readIn tree file.path = .ok (utf8 "let") ∧ file.name ≠ [] ∧ Settings.default.showEnv = false ∧
      (tryOut (utf8 "let") file.name Settings.default.maxCallDepth).2 = some .unreadable ∧
      ∃ ran checked : Report,
        executeIn Yaml.library tree .default (.run file false) = (.ok ran, tree) ∧
        executeIn Yaml.library tree .default (.check [file]) = (.ok checked, tree) ∧
        ran.code = .failure ∧ checked.code = .failure ∧
        checked.render false = ran.render false := by
  intro tree file
  have hread : readIn tree file.path = .ok (utf8 "let") := by decide +kernel
  have hname : file.name ≠ [] := by decide +kernel
  have hwrong : (Cursor.start file.name (utf8 "let")).parse.diagnostics ≠ [] := by decide +kernel
  obtain ⟨ran, checked, hrun, hcheck, -, hunreadable, hfails, -, -, -, -, hchecked, -⟩ :=
    front_ends_agree Yaml.library .default hread hname rfl
  have herror := hunreadable.2 hwrong
  obtain ⟨hcode, hlines⟩ := hchecked hwrong
  exact ⟨hread, hname, rfl, herror, ran, checked, hrun, hcheck, (hfails.2 herror).1, hcode, hlines⟩

end Command

end

end TreeWalk
