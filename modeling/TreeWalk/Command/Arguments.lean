import TreeWalk.Source
import TreeWalk.Text.Quote

/-!
# Arguments

What the arguments of a command line ask for.  Files are looked up right away, so a command that
could be read names files that exist.

## Main definitions

* `Command` — what can be asked for.
* `UsageError`, `UsageError.message` — why arguments cannot be understood.
* `Command.ofArguments` — reads arguments.
-/

namespace TreeWalk

/-- What can be asked for. -/
inductive Command
  /-- How the program is used. -/
  | help
  /-- The settings. -/
  | env
  /-- To run the program in a file, and perhaps to list its bindings. -/
  | run (file : SourceFile) (showEnv : Bool)
  /-- To run a program text. -/
  | eval (text : Bytes)
  /-- To tell what is wrong with the programs in files. -/
  | check (files : List SourceFile)
  /-- Nothing that can be done. -/
  | nothing
  deriving DecidableEq, Repr

/-- Why arguments cannot be understood. -/
inductive UsageError
  /-- There is no such command. -/
  | unknownCommand (word : Bytes)
  /-- The command `run` got no file. -/
  | noFile
  /-- The command `run` got two files. -/
  | twoFiles (first second : Bytes)
  /-- The command `eval` did not get one argument. -/
  | notOneText
  /-- The command `check` got no file. -/
  | noFiles
  /-- A file cannot be found. -/
  | missing (path : Path) (error : FileError)
  /-- A path names no source file. -/
  | invalid (path : Path) (error : LocateError)
  deriving DecidableEq, Repr

/-- The wording of a `UsageError`. -/
def UsageError.message : UsageError → Bytes
  | unknownCommand word =>
    utf8 "unknown command " ++ quoteBytes word ++ utf8 ", see 'monkey help'"
  | noFile => utf8 "run expects a file"
  | twoFiles first second =>
    utf8 "run expects a single file, got " ++ first ++ utf8 " and " ++ second
  | notOneText => utf8 "eval expects exactly one source argument"
  | noFiles => utf8 "check expects at least one file"
  | missing path error => utf8 "no such file: " ++ path ++ utf8 ": " ++ error.message
  | invalid path error => utf8 "invalid source file " ++ path ++ utf8 ": " ++ error.message

namespace Command

/-- The argument that asks `run` for the bindings to be listed. -/
def showEnvFlag : Bytes := utf8 "-env"

/-- Reads the arguments of `run`: the `path` so far, empty as long as there is none, and in
`showEnv` whether the bindings are to be listed. -/
def runArguments : Path → Bool → List Bytes → Except UsageError (Path × Bool)
  | path, showEnv, [] => if path = [] then .error .noFile else .ok (path, showEnv)
  | path, showEnv, argument :: more =>
    if argument = showEnvFlag then runArguments path true more
    else if path ≠ [] then .error (.twoFiles path argument)
    else runArguments argument showEnv more

variable {m : Type → Type} [Monad m] [FileSystem m]

/-- Looks up the file that an argument names: first whether anything is at `path`, and then with
`SourceFile.locate` whether that can be a source file. -/
def fileArgument (path : Path) : m (Except UsageError SourceFile) := do
  match ← FileSystem.stat path with
  | .error error => return .error (.missing path error)
  | .ok _ =>
    match ← SourceFile.locate path with
    | .error error => return .error (.invalid path error)
    | .ok file => return .ok file

/-- Looks up the files that arguments name with `fileArgument`, up to the first that cannot be
used. -/
def fileArguments : List Path → m (Except UsageError (List SourceFile))
  | [] => return .ok []
  | path :: more => do
    match ← fileArgument path with
    | .error error => return .error error
    | .ok file =>
      match ← fileArguments more with
      | .error error => return .error error
      | .ok files => return .ok (file :: files)

/-- Reads the arguments of a command line, the first of which names the `Command`. -/
def ofArguments (arguments : List Bytes) : m (Except UsageError Command) := do
  match arguments with
  | [] => return .ok .help
  | word :: more =>
    if word = utf8 "help" then return .ok .help
    else if word = utf8 "env" then return .ok .env
    else if word = utf8 "run" then
      match runArguments [] false more with
      | .error error => return .error error
      | .ok (path, showEnv) =>
        match ← fileArgument path with
        | .error error => return .error error
        | .ok file => return .ok (.run file showEnv)
    else if word = utf8 "eval" then
      match more with
      | [text] => return .ok (.eval text)
      | _ => return .error .notOneText
    else if word = utf8 "check" then
      if more = [] then return .error .noFiles
      else match ← fileArguments more with
        | .error error => return .error error
        | .ok files => return .ok (.check files)
    else return .error (.unknownCommand word)

end Command

end TreeWalk
