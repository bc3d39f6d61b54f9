import TreeWalk.Command.Arguments
import TreeWalk.Command.Report
import TreeWalk.Settings.Document

/-!
# Carrying out a command

Commands end with a report.  Running a program reports its diagnostics, the reason for which it was
given up, or its value and, if asked for, its bindings.  Checking files looks at each of them on
its own, in any order, and reports them in the order in which they were given.

## Main definitions

* `usage` — how the program is used.
* `Report.ofRun` — the report on a program that is read and run.
* `Check`, `Check.finish` — files that are being checked, and one of them done.
* `Command.execute` — carries out a command.
-/

namespace TreeWalk

/-- What the command `help` prints. -/
def usage : Bytes :=
  [ "Monkey - a small interpreted language with first-class functions and closures.",
    "",
    "Usage:",
    "  monkey <command> [arguments]",
    "",
    "Available Commands:",
    "  run <file> [-env]       Runs a monkey program and prints its result",
    "      -env                Also print the top-level bindings",
    "",
    "  eval <source>           Evaluates a source string and prints its result",
    "",
    "  check <file>...         Reports parse diagnostics for every file",
    "",
    "  env                     Show the resolved configuration",
    "",
    "  help                    Show this help message",
    "",
    "Examples:",
    "  monkey run examples/fib.mk",
    "  monkey eval \"let add = fn(a, b) \x7b a + b \x7d; add(1, 2)\"",
    "  monkey check a.mk b.mk" ].flatMap fun line =>
    asLine (utf8 line)

namespace Report

/-- A line for each of `diagnostics`, all of them lines of errors. -/
def diagnosticLines (diagnostics : List Diagnostic) : List Piece :=
  diagnostics.map fun diagnostic => .errorLine diagnostic.text

/-- The report on a value: one line with what `Value.inspect` shows, a line of an error if
`Value.isError` holds, and no line for `Value.nothing`. -/
def ofValue (value : Value) : Report :=
  match value with
  | .nothing => ⟨.success, []⟩
  | value =>
    if value.isError then ⟨.failure, [.errorLine value.inspect]⟩
    else ⟨.success, [.plainLine value.inspect]⟩

/-- A line for each of `bindings`: the name, and what `Value.inspect` shows. -/
def bindingLines (bindings : Bindings) : List Piece :=
  bindings.map fun (name, value) => .plainLine (name ++ utf8 " = " ++ value.inspect)

/-- The report on a program that was run: the reason for which it was given up, or its value and, if
asked for, its bindings. -/
def ofEnding (showEnv : Bool) : Ending × Session → Report
  | (.error abort, _) => ⟨.fatal, [.errorLine (utf8 "fatal: " ++ abort.message)]⟩
  | (.ok value, session) =>
    let report := ofValue value
    { report with
      pieces := report.pieces ++ if showEnv then bindingLines session.bindings else [] }

/-- Reads a program `text`, echoing its diagnostics, and runs it with the given `limit` if there are
none. -/
def ofRun (name text : Bytes) (limit : Nat) (showEnv : Bool) : Report :=
  let (program, collector, _) := (Cursor.start name text).parseInto (.empty true)
  let echoed := collector.echoed.map .error
  if collector.hasErrors then ⟨.failure, echoed⟩
  else
    let report := ofEnding showEnv ((Session.start limit).run program)
    { report with pieces := echoed ++ report.pieces }

/-- The lines for a `file` that was checked: its `diagnostics`, or that there are none. -/
def checkedFile (file : SourceFile) (diagnostics : List Diagnostic) : List Piece :=
  if diagnostics = [] then [.plainLine (file.path ++ utf8 ": ok")]
  else diagnosticLines diagnostics

/-- The report on files that were all checked. -/
def ofChecks (checks : List (SourceFile × List Diagnostic)) : Report :=
  ⟨if checks.all (·.2 = []) then .success else .failure,
    checks.flatMap fun (file, diagnostics) => checkedFile file diagnostics⟩

end Report

/-- Files that are being checked: what is known of each of them, and the first that turned out to
be unreadable. -/
structure Check where
  /-- The diagnostics of each file, empty as long as they are not known. -/
  slots : List (List Diagnostic)
  /-- Why the first unreadable file cannot be read. -/
  failed : Option SourceError

namespace Check

/-- The check of `files` of which none is done. -/
def start (files : List SourceFile) : Check := ⟨files.map fun _ => [], none⟩

/-- The diagnostics of a program `text`, as `Cursor.parseInto` reports them. -/
def diagnose (name text : Bytes) : List Diagnostic :=
  let (_, collector, _) := (Cursor.start name text).parseInto (.empty false)
  collector.diagnostics

/-- The `file` in the given `slot` is done: it could not be read, or it was read and `diagnose`
looked at it. -/
def finish (check : Check) (slot : Nat) (file : SourceFile) :
    Except SourceError Bytes → Check
  | .error error => { check with failed := check.failed.or (some error) }
  | .ok text => { check with slots := check.slots.set slot (diagnose file.name text) }

/-- The report when all `files` are done: the first failure, or else `ofChecks`. -/
def report (check : Check) (files : List SourceFile) : Report :=
  match check.failed with
  | some error => ⟨.fatal, [.errorLine error.message]⟩
  | none => .ofChecks (files.zip check.slots)

end Check

namespace Command

/-- Why a command could not be carried out. -/
inductive ExecuteError
  /-- The program to run cannot be read. -/
  | unread (error : SourceError)
  /-- There is no document for the settings. -/
  | unwritten (message : Bytes)
  deriving DecidableEq, Repr

/-- The wording of an `ExecuteError`. -/
def ExecuteError.message : ExecuteError → Bytes
  | unread error => error.message
  | unwritten message => message

variable {m : Type → Type} [Monad m] [FileSystem m]

/-- Checks the `files` whose slots are given, in that order; each step reads one file and adds to
the `Check` so far. -/
def checkSlots (files : List SourceFile) : List Nat → Check → m Check
  | [], done => return done
  | slot :: more, done => do
    match files[slot]? with
    | none => checkSlots files more done
    | some file =>
      let text ← file.read
      checkSlots files more (done.finish slot file text)

/-- Checks `files`; they are done in the given `order` of their slots. -/
def checkIn (order : List Nat) (files : List SourceFile) : m Report := do
  return (← checkSlots files order (.start files)).report files

/-- Checks `files` one after the other. -/
def checkFiles (files : List SourceFile) : m Report :=
  checkIn (List.range files.length) files

/-- The `settings` as the command `env` shows them: the file they come from, and their
`document`. -/
def showSettings (settings : Settings) (document : Bytes) : Report :=
  ⟨.success,
    (if settings.path = [] then [] else [.plainLine (utf8 "# " ++ settings.path)])
      ++ [.plain document]⟩

/-- Carries out a command; `settings` give the limit on open calls, and `yaml` writes them out for
the command `env`. -/
def execute (yaml : Yaml.Library) (settings : Settings) :
    Command → m (Except ExecuteError Report)
  | help => return .ok ⟨.success, [.plain usage]⟩
  | env =>
    match settings.text yaml with
    | .error message => return .error (.unwritten message)
    | .ok document => return .ok (showSettings settings document)
  | run file showEnv => do
    match ← file.read with
    | .error error => return .error (.unread error)
    | .ok text =>
      return .ok (.ofRun file.name text settings.limit (showEnv || settings.showEnv))
  | eval text => return .ok (.ofRun (utf8 "<eval>") text settings.limit false)
  | check files => do return .ok (← checkFiles files)
  | nothing => return .ok ⟨.failure, []⟩

end Command

end TreeWalk
