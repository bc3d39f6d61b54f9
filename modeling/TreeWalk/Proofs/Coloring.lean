import TreeWalk.Proofs.CheckOrder
import TreeWalk.Proofs.YamlRecords

/-!
# Coloured output

What a command prints is a list of notices: complaints, results, bindings and so on.  Each has a
text, which is printed with a line feed behind it and may hold line feeds itself, so that it takes
one line or more.  Where output is coloured, the lines of the notices that tell of an error are
framed, each on its own, and nothing else is changed.

Which notices there are is said once, by what happened to the program or to the files; it does not
depend on the colour.

## Main definitions

* `Notice`, `Notice.lines` — what a command has to tell, and the lines of it.
* `TextTells`, `Command.Tells` — what is to be told of a text, and of a command.
* `Command.Ends` — the reports with which a command can end.

## Main results

* `red_asLine` — red writing frames every line of a text.
* `Command.Ends.tells` — **every report tells what it should.**
* `Command.color_frames_errors` — **colour frames the lines of errors and changes nothing else.**
-/

namespace TreeWalk

open FileSystem

/-! ### Lines -/

/-- The lines of a text that stands in front of a line feed: there is one more of them than there
are line feeds in the text. -/
def Bytes.lines (text : Bytes) : List Bytes := text.splitOn (ascii '\n')

namespace Bytes

theorem lines_cons (b : UInt8) (rest : Bytes) :
    lines (b :: rest) =
      if b = ascii '\n' then [] :: lines rest else (lines rest).modifyHead (b :: ·) := by
  simp [lines, List.splitOn_eq_splitOnP, List.splitOnP_cons_eq_if_modifyHead]

theorem lines_ne_nil (text : Bytes) : text.lines ≠ [] := List.splitOn_ne_nil _ _

/-- No line feed is left in any of the `lines`. -/
theorem notMem_of_mem_lines {text line : Bytes} (h : line ∈ text.lines) : ascii '\n' ∉ line := by
  induction text generalizing line with
  | nil =>
    obtain rfl : line = [] := by simpa [lines] using h
    exact List.not_mem_nil
  | cons b rest ih =>
    obtain ⟨first, more, hrest⟩ := List.exists_cons_of_ne_nil (lines_ne_nil rest)
    rw [hrest] at ih
    rw [lines_cons, hrest] at h
    by_cases hb : b = ascii '\n'
    · rw [if_pos hb] at h
      rcases List.mem_cons.1 h with rfl | hline
      · exact List.not_mem_nil
      · exact ih hline
    · rw [if_neg hb, List.modifyHead_cons] at h
      rcases List.mem_cons.1 h with rfl | hline
      · exact List.not_mem_cons_of_ne_of_not_mem (Ne.symm hb) (ih List.mem_cons_self)
      · exact ih (List.mem_cons_of_mem _ hline)

/-- Cutting `asLine text` after every line feed gives the `lines` of `text`, each with its line
feed. -/
theorem linesAfter_asLine (text : Bytes) : (asLine text).linesAfter = text.lines.map asLine := by
  induction text with
  | nil => rfl
  | cons b rest ih =>
    have hcons : asLine (b :: rest) = b :: asLine rest := rfl
    rw [hcons, linesAfter, lines_cons, ih]
    by_cases hb : b = ascii '\n'
    · rw [if_pos hb, if_pos hb, hb]
      rfl
    · obtain ⟨first, more, hrest⟩ := List.exists_cons_of_ne_nil (lines_ne_nil rest)
      rw [if_neg hb, if_neg hb, hrest]
      rfl

end Bytes

/-- `asLine text` is the `lines` of `text`, each with a line feed behind it. -/
theorem flatMap_asLine_lines (text : Bytes) : text.lines.flatMap asLine = asLine text := by
  rw [List.flatMap_def, ← Bytes.linesAfter_asLine, Bytes.flatten_linesAfter]

theorem chomp_asLine (line : Bytes) : chomp (asLine line) = line := by
  have hfeed : asLine line = line ++ [ascii '\n'] := rfl
  rw [chomp, hfeed, List.getLast?_concat, if_pos rfl, List.dropLast_concat]

theorem asLine_chomp {text : Bytes} (h : text.getLast? = some (ascii '\n')) :
    asLine (chomp text) = text := by
  rw [chomp, if_pos h]
  exact List.dropLast_append_getLast? _ h

/-- A text of one or more lines ends with a line feed. -/
theorem getLast?_flatMap_asLine {α : Type} (f : α → Bytes) {lines : List α} (h : lines ≠ []) :
    (lines.flatMap fun line => asLine (f line)).getLast? = some (ascii '\n') := by
  obtain ⟨front, last, rfl⟩ := (List.eq_nil_or_concat' lines).resolve_left h
  have hfeed : asLine (f last) = f last ++ [ascii '\n'] := rfl
  rw [List.flatMap_append, List.flatMap_singleton, hfeed, ← List.append_assoc, List.getLast?_concat]

/-- **Red writing frames every line of a text**: `red` puts `redOn` in front of each of the `lines`,
and `redOff` in front of its line feed. -/
theorem red_asLine (text : Bytes) :
    red (asLine text) = text.lines.flatMap fun line => asLine (redOn ++ line ++ redOff) := by
  rw [red, Bytes.linesAfter_asLine, List.flatMap_map]
  refine List.flatMap_congr fun line _ => ?_
  rw [redLine, chomp_asLine, asLine]

/-! ### Notices -/

/-- A line of output, without its line feed. -/
structure OutputLine where
  /-- Whether it belongs to something that tells of an error. -/
  isError : Bool
  /-- What it says. -/
  text : Bytes
  deriving DecidableEq

/-- A line as it is printed: with `color`, a line that belongs to an error is framed. -/
def OutputLine.print (color : Bool) (line : OutputLine) : Bytes :=
  asLine (if color && line.isError then redOn ++ line.text ++ redOff else line.text)

/-- Something that a command has to tell. -/
inductive Notice
  /-- A complaint about a program text. -/
  | diagnostic (complaint : Diagnostic)
  /-- The value of a program is an error. -/
  | runtimeError (fault : Fault)
  /-- A program was given up. -/
  | fatal (abort : Abort)
  /-- A file cannot be read. -/
  | readError (path : Path) (fault : FileError)
  /-- The value of a program. -/
  | result (value : Value)
  /-- A file has been checked, and nothing is wrong with it. -/
  | allWell (path : Path)
  /-- A name and what is bound to it. -/
  | binding (name : Bytes) (value : Value)
  /-- How the program is used. -/
  | usage
  /-- Where the settings come from. -/
  | settingsFile (path : Path)
  /-- The document of the settings. -/
  | settings (document : Bytes)

namespace Notice

/-- The notices that tell of an error. -/
def isError : Notice → Bool
  | diagnostic _ | runtimeError _ | fatal _ | readError _ _ => true
  | result _ | allWell _ | binding _ _ | usage | settingsFile _ | settings _ => false

/-- The text of a notice, without the line feed at its end. -/
def text : Notice → Bytes
  | diagnostic complaint => complaint.text
  | runtimeError fault => utf8 "ERROR: " ++ fault.message
  | fatal abort => utf8 "fatal: " ++ abort.message
  | readError path fault => utf8 "could not read " ++ path ++ utf8 ": " ++ fault.message
  | result value => value.inspect
  | allWell path => path ++ utf8 ": ok"
  | binding name value => name ++ utf8 " = " ++ value.inspect
  | usage => chomp TreeWalk.usage
  | settingsFile path => utf8 "# " ++ path
  | settings document => chomp document

/-- The lines of a notice: those of its `text`, all of an error or none. -/
def lines (notice : Notice) : List OutputLine := notice.text.lines.map (⟨notice.isError, ·⟩)

/-- A notice as a `Piece` of output. -/
def piece (notice : Notice) : Piece :=
  if notice.isError then .errorLine notice.text else .plainLine notice.text

/-- **A notice is printed line by line**: its `piece` renders as its `lines` do. -/
theorem render_piece (color : Bool) (notice : Notice) :
    notice.piece.render color = notice.lines.flatMap (OutputLine.print color) := by
  rw [piece, lines, List.flatMap_map]
  cases notice.isError with
  | false =>
    simp only [OutputLine.print, Bool.and_false]
    exact (flatMap_asLine_lines notice.text).symm
  | true =>
    cases color with
    | false => exact (flatMap_asLine_lines notice.text).symm
    | true => exact red_asLine notice.text

theorem notMem_of_mem_flatMap_lines {notices : List Notice} {line : OutputLine}
    (h : line ∈ notices.flatMap lines) : ascii '\n' ∉ line.text := by
  obtain ⟨notice, -, hline⟩ := List.mem_flatMap.1 h
  obtain ⟨text, htext, rfl⟩ := List.mem_map.1 hline
  exact Bytes.notMem_of_mem_lines htext

theorem usage_piece : usage.piece = .plain TreeWalk.usage := by
  have hlast : TreeWalk.usage.getLast? = some (ascii '\n') :=
    getLast?_flatMap_asLine utf8 (List.cons_ne_nil _ _)
  exact congrArg Piece.plain (asLine_chomp hlast)

/-- The `document` of settings ends with a line feed, since a library that is `Lawful` writes plain
values line by line and the last key has one. -/
theorem settings_piece {yaml : Yaml.Library} (hyaml : yaml.Lawful) {current : Settings}
    {document : Bytes} (h : current.text yaml = .ok document) :
    (settings document).piece = .plain document := by
  have hwrite : yaml.write current.entries = .ok document := by
    rw [Settings.text] at h
    split at h
    · next hwritten => rw [hwritten, Except.ok.inj h]
    · cases h
  obtain ⟨front, rfl⟩ := hyaml.write_last [_, _] (utf8 "show_env") (.boolean current.showEnv) _
    (by decide) rfl hwrite
  have hlast : (front ++ Yaml.Line.entryText
      ⟨[], utf8 "show_env", .boolean current.showEnv⟩).getLast? = some (ascii '\n') := by
    rw [Yaml.Line.entryText, ← List.append_assoc]
    exact List.getLast?_concat
  exact congrArg Piece.plain (asLine_chomp hlast)

end Notice

/-- **A report is printed line by line**, if its pieces are those of `notices`. -/
theorem Report.render_of_pieces {report : Report} {notices : List Notice}
    (h : report.pieces = notices.map Notice.piece) (color : Bool) :
    report.render color = (notices.flatMap Notice.lines).flatMap (OutputLine.print color) := by
  rw [render, h, List.flatMap_map, List.flatMap_assoc]
  exact List.flatMap_congr fun notice _ => notice.render_piece color

/-! ### What is to be told -/

/-- The bindings that are listed behind the value of a program, if `showEnv` asks for them. -/
def Session.listed (session : Session) (showEnv : Bool) : List Notice :=
  if showEnv then session.bindings.map fun (name, value) => .binding name value else []

/-- What is to be told of a program text, and the code to end with. -/
inductive TextTells (name text : Bytes) (limit : Nat) (showEnv : Bool) :
    ExitCode → List Notice → Prop
  /-- Something is wrong with the text. -/
  | wrong (hwrong : (Cursor.start name text).parse.diagnostics ≠ []) :
      TextTells name text limit showEnv .failure
        ((Cursor.start name text).parse.diagnostics.map .diagnostic)
  /-- The program is given up. -/
  | givenUp {abort : Abort} {session : Session}
      (hclean : (Cursor.start name text).parse.diagnostics = [])
      (hrun : (Session.start limit).run (Cursor.start name text).parse.program =
        (.error abort, session)) :
      TextTells name text limit showEnv .fatal [.fatal abort]
  /-- The program has no value. -/
  | silent {session : Session} (hclean : (Cursor.start name text).parse.diagnostics = [])
      (hrun : (Session.start limit).run (Cursor.start name text).parse.program =
        (.ok .nothing, session)) :
      TextTells name text limit showEnv .success (session.listed showEnv)
  /-- The value of the program is an error. -/
  | failed {fault : Fault} {session : Session}
      (hclean : (Cursor.start name text).parse.diagnostics = [])
      (hrun : (Session.start limit).run (Cursor.start name text).parse.program =
        (.ok (.error fault), session)) :
      TextTells name text limit showEnv .failure (.runtimeError fault :: session.listed showEnv)
  /-- The program has a value that is no error. -/
  | valued {value : Value} {session : Session}
      (hclean : (Cursor.start name text).parse.diagnostics = [])
      (hrun : (Session.start limit).run (Cursor.start name text).parse.program =
        (.ok value, session))
      (hsome : value ≠ .nothing) (hvalue : value.isError = false) :
      TextTells name text limit showEnv .success (.result value :: session.listed showEnv)

section

variable {σ : Type} [FileSystem (StateM σ)]

/-- What is to be told of a file that has been checked. -/
def SourceFile.checkedIn (state : σ) (file : SourceFile) : List Notice :=
  if file.diagnosticsIn state = [] then [.allWell file.path]
  else (file.diagnosticsIn state).map .diagnostic

namespace Command

/-- What is to be told when a command has been carried out, and the code to end with.  Of the files
that cannot be read, one is blamed. -/
inductive Tells (yaml : Yaml.Library) (state : σ) (settings : Settings) :
    Command → Option SourceError → ExitCode → List Notice → Prop
  /-- How the program is used. -/
  | help : Tells yaml state settings .help none .success [.usage]
  /-- Where the settings come from, if that is known, and the settings. -/
  | env {document : Bytes} (hdocument : settings.text yaml = .ok document) :
      Tells yaml state settings .env none .success
        ((if settings.path = [] then [] else [.settingsFile settings.path])
          ++ [.settings document])
  /-- What is to be told of the text in the file. -/
  | run {file : SourceFile} {showEnv : Bool} {text : Bytes} {code : ExitCode}
      {notices : List Notice} (hread : readIn state file.path = .ok text)
      (htext : TextTells file.name text settings.limit (showEnv || settings.showEnv) code notices) :
      Tells yaml state settings (.run file showEnv) none code notices
  /-- What is to be told of the text. -/
  | eval {text : Bytes} {code : ExitCode} {notices : List Notice}
      (htext : TextTells (utf8 "<eval>") text settings.limit false code notices) :
      Tells yaml state settings (.eval text) none code notices
  /-- What is to be told of the files, one after the other. -/
  | check {files : List SourceFile}
      (hread : ∀ file ∈ files, ∃ text, readIn state file.path = .ok text) :
      Tells yaml state settings (.check files) none
        (if ∀ file ∈ files, file.diagnosticsIn state = [] then .success else .failure)
        (files.flatMap (·.checkedIn state))
  /-- Some file cannot be read. -/
  | unread {files : List SourceFile} {file : SourceFile} {fault : FileError}
      (hfile : file ∈ files) (hread : readIn state file.path = .error fault) :
      Tells yaml state settings (.check files) (some (.unreadable file.path fault)) .fatal
        [.readError file.path fault]
  /-- No command was given. -/
  | nothing : Tells yaml state settings .nothing none .failure []

/-- The reports with which a command can end.  Files are checked by workers, which get on in any
order; of the files that cannot be read, the report blames the one that was found first. -/
inductive Ends (yaml : Yaml.Library) (state : σ) (settings : Settings) :
    Command → Option SourceError → Report → Prop
  /-- All workers are done. -/
  | check {files : List SourceFile} {pool : Pool} (hpool : Pool.Reached state files pool)
      (hdone : pool.Done) :
      Ends yaml state settings (.check files) pool.check.failed (pool.check.report files)
  /-- Any other command has one report at most. -/
  | other {command : Command} {report : Report} (hcommand : ∀ files, command ≠ .check files)
      (hreport : executeIn yaml state settings command = (.ok report, state)) :
      Ends yaml state settings command none report

end Command

/-! ### Reports tell what they should -/

theorem Report.bindingLines_eq (session : Session) (showEnv : Bool) :
    (if showEnv then bindingLines session.bindings else []) =
      (session.listed showEnv).map Notice.piece := by
  cases showEnv with
  | false => rfl
  | true =>
    rw [Session.listed, if_pos rfl, if_pos rfl, bindingLines, List.map_map]
    rfl

theorem Report.diagnosticLines_eq (diagnostics : List Diagnostic) :
    diagnosticLines diagnostics = (diagnostics.map Notice.diagnostic).map Notice.piece := by
  rw [diagnosticLines, List.map_map]
  rfl

theorem Report.checkedFile_eq (state : σ) (file : SourceFile) :
    checkedFile file (file.diagnosticsIn state) = (file.checkedIn state).map Notice.piece := by
  rw [checkedFile, SourceFile.checkedIn, diagnosticLines_eq]
  split <;> rfl

/-- `Report.ofRun` tells of a text what it should, with the pieces of some `notices`. -/
theorem Report.ofRun_tells (name text : Bytes) (limit : Nat) (showEnv : Bool) :
    ∃ notices, TextTells name text limit showEnv (ofRun name text limit showEnv).code notices ∧
      (ofRun name text limit showEnv).pieces = notices.map Notice.piece := by
  by_cases hclean : (Cursor.start name text).parse.diagnostics = []
  · rw [ofRun_of_readable hclean]
    cases hrun : (Session.start limit).run (Cursor.start name text).parse.program with
    | mk ending session =>
      cases ending with
      | error abort => exact ⟨_, .givenUp hclean hrun, rfl⟩
      | ok value =>
        have hlisted := bindingLines_eq session showEnv
        cases value with
        | nothing => exact ⟨_, .silent hclean hrun, hlisted⟩
        | error fault => exact ⟨_, .failed hclean hrun, congrArg (_ :: ·) hlisted⟩
        | _ =>
          refine ⟨_, .valued hclean hrun (fun h => ?_) rfl, congrArg (_ :: ·) hlisted⟩
          cases h
  · rw [ofRun_of_diagnostics hclean]
    exact ⟨_, .wrong hclean, diagnosticLines_eq _⟩

namespace Pool

variable {state : σ} {files : List SourceFile} {pool other : Pool}

/-- When the pool is `Done` and nothing has `failed`, all files can be read. -/
theorem Sound.read_of_failed_eq_none (h : pool.Sound state files) (hdone : pool.Done)
    (hfailed : pool.check.failed = none) {file : SourceFile} (hfile : file ∈ files) :
    ∃ text, readIn state file.path = .ok text := by
  obtain ⟨slot, hslot⟩ := List.mem_iff_getElem?.1 hfile
  have hfits := h.fits_done hdone hslot
  cases hread : readIn state file.path with
  | ok text => exact ⟨text, rfl⟩
  | error fault =>
    have hsource : file.textIn state = .error (.unreadable file.path fault) := by
      rw [SourceFile.textIn, hread]
      rfl
    rw [Fits, hsource] at hfits
    exact absurd hfailed hfits

/-- When the pool is `Done` and nothing has `failed`, the report has what is wrong with each
file. -/
theorem Sound.report_of_failed_eq_none (h : pool.Sound state files) (hdone : pool.Done)
    (hfailed : pool.check.failed = none) :
    pool.check.report files =
      .ofChecks (files.map fun file => (file, file.diagnosticsIn state)) := by
  refine h.report_of_readable hdone fun file hfile => ?_
  obtain ⟨text, hread⟩ := h.read_of_failed_eq_none hdone hfailed hfile
  exact ⟨text, SourceFile.textIn_of_read hread⟩

/-- Workers of two pools that blame the same file, or none, end with the same report. -/
theorem Sound.report_eq (h : pool.Sound state files) (hdone : pool.Done)
    (hother : other.Sound state files) (hdone' : other.Done)
    (hfailed : other.check.failed = pool.check.failed) :
    other.check.report files = pool.check.report files := by
  cases hblamed : pool.check.failed with
  | some error => rw [Check.report, Check.report, hfailed, hblamed]
  | none =>
    rw [h.report_of_failed_eq_none hdone hblamed,
      hother.report_of_failed_eq_none hdone' (hfailed.trans hblamed)]

/-- Once the pool is `Done`, `Check.report` tells what `Command.Tells` asks for. -/
theorem Sound.report_tells (h : pool.Sound state files) (hdone : pool.Done)
    (yaml : Yaml.Library) (settings : Settings) :
    ∃ notices, Command.Tells yaml state settings (.check files) pool.check.failed
        (pool.check.report files).code notices ∧
      (pool.check.report files).pieces = notices.map Notice.piece := by
  cases hblamed : pool.check.failed with
  | some error =>
    obtain ⟨file, hfile, hsource⟩ := h.failed error hblamed
    obtain ⟨fault, hread, rfl⟩ := SourceFile.exists_of_textIn_error hsource
    rw [Check.report, hblamed]
    exact ⟨_, .unread hfile hread, rfl⟩
  | none =>
    have hcode : (Report.ofChecks (files.map fun file => (file, file.diagnosticsIn state))).code =
        if ∀ file ∈ files, file.diagnosticsIn state = [] then .success else .failure := by
      simp [Report.ofChecks]
    rw [h.report_of_failed_eq_none hdone hblamed, hcode]
    refine ⟨_, .check fun file => h.read_of_failed_eq_none hdone hblamed, ?_⟩
    rw [Report.ofChecks, List.flatMap_map, List.map_flatMap]
    exact List.flatMap_congr fun file _ => Report.checkedFile_eq state file

end Pool

namespace Command

variable {yaml : Yaml.Library} {state : σ} {settings : Settings} {command : Command}
  {blamed : Option SourceError} {report other : Report}

/-- A command that blames the same file, or none, ends with the same report: `Ends` is functional in
`blamed`. -/
theorem Ends.unique (h : Ends yaml state settings command blamed report)
    (hother : Ends yaml state settings command blamed other) : other = report := by
  cases h with
  | check hpool hdone =>
    generalize hblamed : Check.failed _ = blamed at hother
    cases hother with
    | check hpool' hdone' => exact hpool.sound.report_eq hdone hpool'.sound hdone' hblamed.symm
    | other hcommand _ => exact absurd rfl (hcommand _)
  | other hcommand hreport =>
    generalize hblamed : none = blamed at hother
    cases hother with
    | check _ _ => exact absurd rfl (hcommand _)
    | other _ hreport' => exact Except.ok.inj (Prod.ext_iff.1 (hreport'.symm.trans hreport)).1

theorem executeIn_env (state : σ) {document : Bytes}
    (h : settings.text yaml = .ok document) :
    executeIn yaml state settings .env = (.ok (showSettings settings document), state) := by
  simp only [executeIn, execute, h]
  rfl

theorem executeIn_env_error (state : σ) {message : Bytes}
    (h : settings.text yaml = .error message) :
    executeIn yaml state settings .env = (.error (.unwritten message), state) := by
  simp only [executeIn, execute, h]
  rfl

variable [LawfulFileSystem σ]

/-- `run` fails for a file that `readIn` cannot read, with this reason. -/
theorem executeIn_run_error (yaml : Yaml.Library) {file : SourceFile} {fault : FileError}
    (hread : readIn state file.path = .error fault) (settings : Settings) (showEnv : Bool) :
    executeIn yaml state settings (.run file showEnv) =
      (.error (.unread (.unreadable file.path fault)), state) := by
  simp only [executeIn, execute, bind, StateT.bind, SourceFile.read_apply, SourceFile.textIn, hread]
  rfl

/-- **Every report tells what it should**: what `Ends` allows, `Tells` describes by some
`notices`. -/
theorem Ends.tells (hyaml : yaml.Lawful) (h : Ends yaml state settings command blamed report) :
    ∃ notices, Tells yaml state settings command blamed report.code notices ∧
      report.pieces = notices.map Notice.piece := by
  cases h with
  | check hpool hdone => exact hpool.sound.report_tells hdone yaml settings
  | other hcommand hreport =>
    -- carrying out the command is a computation, and `hreport` says what it comes to
    cases command with
    | help =>
      cases hreport
      exact ⟨_, .help, congrArg ([·]) Notice.usage_piece.symm⟩
    | env =>
      cases hdocument : settings.text yaml with
      | error message =>
        rw [executeIn_env_error state hdocument] at hreport
        cases hreport
      | ok document =>
        rw [executeIn_env state hdocument] at hreport
        cases hreport
        refine ⟨_, .env hdocument, ?_⟩
        rw [showSettings, List.map_append, List.map_singleton,
          Notice.settings_piece hyaml hdocument]
        split <;> rfl
    | run file showEnv =>
      cases hread : readIn state file.path with
      | error fault =>
        rw [executeIn_run_error yaml hread] at hreport
        cases hreport
      | ok text =>
        rw [executeIn_run yaml hread] at hreport
        cases hreport
        obtain ⟨notices, htext, hpieces⟩ := Report.ofRun_tells file.name text settings.limit
          (showEnv || settings.showEnv)
        exact ⟨notices, .run hread htext, hpieces⟩
    | eval text =>
      cases hreport
      obtain ⟨notices, htext, hpieces⟩ := Report.ofRun_tells (utf8 "<eval>") text settings.limit
        false
      exact ⟨notices, .eval htext, hpieces⟩
    | check files => exact absurd rfl (hcommand files)
    | nothing =>
      cases hreport
      exact ⟨_, .nothing, rfl⟩

/-- Every command `Ends` with a report, unless it should run a file that cannot be read, or show
settings for which there is no document. -/
theorem exists_ends (yaml : Yaml.Library) (state : σ) (settings : Settings) (command : Command) :
    (∃ blamed report, Ends yaml state settings command blamed report ∧
      executeIn yaml state settings command = (.ok report, state)) ∨
    (∃ file showEnv fault, command = .run file showEnv ∧ readIn state file.path = .error fault ∧
      executeIn yaml state settings command =
        (.error (.unread (.unreadable file.path fault)), state)) ∨
    ∃ message, command = .env ∧ settings.text yaml = .error message ∧
      executeIn yaml state settings command = (.error (.unwritten message), state) := by
  cases command with
  | check files =>
    -- the command does the files in their order, which is one of those in which workers get on
    obtain ⟨pool, hpool, hdone, hreport⟩ :=
      checkIn_reached state (List.Perm.refl (List.range files.length))
    refine .inl ⟨_, _, .check hpool hdone, ?_⟩
    simp only [executeIn, execute, checkFiles, bind, StateT.bind, hreport]
    rfl
  | run file showEnv =>
    cases hread : readIn state file.path with
    | error fault =>
      exact .inr (.inl ⟨file, showEnv, fault, rfl, hread, executeIn_run_error yaml hread ..⟩)
    | ok text =>
      have hreport := executeIn_run yaml hread settings showEnv
      exact .inl ⟨_, _, .other (by simp) hreport, hreport⟩
  | env =>
    cases hdocument : settings.text yaml with
    | error message => exact .inr (.inr ⟨message, rfl, rfl, executeIn_env_error state hdocument⟩)
    | ok document =>
      have hreport := executeIn_env state hdocument
      exact .inl ⟨_, _, .other (by simp) hreport, hreport⟩
  | _ => exact .inl ⟨_, _, .other (by simp) rfl, rfl⟩

/-- **Colour frames the lines of errors and changes nothing else.**  Let a command be carried out
twice, and let the same file be blamed if some files to be checked cannot be read.  Both times it
ends with the same code, and both times it tells the same, which is what should be told.  Without
colour the lines of this are printed as they are; with colour each line that belongs to a complaint,
a run-time error, a fatal error or a file that cannot be read is framed, and every other line is
printed as it is.  A command does end with a report, unless it should run a file that cannot be
read, or show settings that the library cannot write. -/
theorem color_frames_errors {yaml : Yaml.Library} (hyaml : yaml.Lawful) (state : σ)
    (settings : Settings) (command : Command) :
    (∀ blamed plain colored, Ends yaml state settings command blamed plain →
      Ends yaml state settings command blamed colored →
      colored.code = plain.code ∧ ∃ notices,
        Tells yaml state settings command blamed plain.code notices ∧
        let lines := notices.flatMap Notice.lines
        plain.render false = lines.flatMap (fun line => asLine line.text) ∧
        colored.render true = lines.flatMap (fun line =>
          asLine (if line.isError then redOn ++ line.text ++ redOff else line.text)) ∧
        ∀ line ∈ lines, ascii '\n' ∉ line.text) ∧
    ((∃ blamed report, Ends yaml state settings command blamed report ∧
      executeIn yaml state settings command = (.ok report, state)) ∨
    (∃ file showEnv fault, command = .run file showEnv ∧ readIn state file.path = .error fault ∧
      executeIn yaml state settings command =
        (.error (.unread (.unreadable file.path fault)), state)) ∨
    ∃ message, command = .env ∧ settings.text yaml = .error message ∧
      executeIn yaml state settings command = (.error (.unwritten message), state)) := by
  refine ⟨fun blamed plain colored hplain hcolored => ?_, exists_ends yaml state settings command⟩
  obtain rfl := hplain.unique hcolored
  obtain ⟨notices, htells, hpieces⟩ := hplain.tells hyaml
  exact ⟨rfl, notices, htells, Report.render_of_pieces hpieces false,
    Report.render_of_pieces hpieces true, fun _ => Notice.notMem_of_mem_flatMap_lines⟩

/-- The complaint about a file with a line feed in its name takes two lines, and both are framed;
the line for the other file is not. -/
theorem color_frames_errors_broken_name :
    let tree : FileTree :=
      { entries := [([utf8 "a.mk"], .file []), ([utf8 "b\n.mk"], .file (utf8 "let"))] }
    let a : SourceFile := ⟨utf8 "a.mk", utf8 ".", utf8 "a.mk"⟩
    let b : SourceFile := ⟨utf8 "b\n.mk", utf8 ".", utf8 "b\n.mk"⟩
    let complaint := utf8 ".mk:1:4: expected next token to be IDENT, got EOF instead"
    ∃ report, Ends Yaml.library tree .default (.check [b, a]) none report ∧
      executeIn Yaml.library tree .default (.check [b, a]) = (.ok report, tree) ∧
      report.code = .failure ∧
      report.render false = asLine (utf8 "b") ++ asLine complaint ++ asLine (utf8 "a.mk: ok") ∧
      report.render true = asLine (redOn ++ utf8 "b" ++ redOff) ++
        asLine (redOn ++ complaint ++ redOff) ++ asLine (utf8 "a.mk: ok") := by
  intro tree a b complaint
  have ha : readIn tree a.path = .ok [] := by decide +kernel
  have hb : readIn tree b.path = .ok (utf8 "let") := by decide +kernel
  have hb' : b.diagnosticsIn tree ≠ [] := by decide +kernel
  obtain ⟨hruns, hends⟩ := color_frames_errors Yaml.library_lawful tree .default (.check [b, a])
  obtain ⟨blamed, report, hreport, hexecute⟩ := hends.resolve_right (by simp)
  obtain ⟨-, notices, htells, hplain, hcolored, -⟩ := hruns blamed report report hreport hreport
  generalize hcode : report.code = code at htells
  cases htells with
  | check hread =>
    have hlines : ([b, a].flatMap (·.checkedIn tree)).flatMap Notice.lines =
        [⟨true, utf8 "b"⟩, ⟨true, complaint⟩, ⟨false, utf8 "a.mk: ok"⟩] := by
      decide +kernel
    rw [hlines] at hplain hcolored
    refine ⟨report, hreport, hexecute, ?_, hplain, hcolored⟩
    rw [hcode, if_neg fun hall => hb' (hall b List.mem_cons_self)]
  | unread hfile hread =>
    rcases List.mem_cons.1 hfile with rfl | hfile
    · cases hb.symm.trans hread
    · obtain rfl := List.mem_singleton.1 hfile
      cases ha.symm.trans hread

end Command

end

end TreeWalk
