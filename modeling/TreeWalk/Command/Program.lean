import TreeWalk.Command.Execute
import TreeWalk.Settings.Store

/-!
# The program

The whole program, from its arguments to its output: the arguments are read, then the user's
settings, and then the command is carried out.  What goes wrong before the last step goes to the
error output.

## Main definitions

* `Failure` — why no command was carried out.
* `Invocation` — how the program was started.
* `Invocation.run` — what it prints, and the code with which it ends.
-/

namespace TreeWalk

/-- Why no command was carried out. -/
inductive Failure
  /-- The arguments cannot be understood. -/
  | usage (error : UsageError)
  /-- There are no settings. -/
  | settings (error : Settings.StoreError)
  /-- The command could not be carried out. -/
  | command (error : Command.ExecuteError)
  deriving DecidableEq, Repr

/-- The wording of a `Failure`, which is that of the error in it. -/
def Failure.message : Failure → Bytes
  | usage error => error.message
  | settings error => error.message
  | command error => error.message

/-- How the program was started. -/
structure Invocation where
  /-- Its arguments. -/
  arguments : List Bytes
  /-- The variables that tell where settings are kept. -/
  environment : Environment
  /-- Whether it is in development mode. -/
  development : Bool
  /-- Whether its output goes to a terminal. -/
  terminal : Bool

/-- What the program leaves behind. -/
structure Result where
  /-- The code with which it ends. -/
  code : ExitCode
  /-- Its output. -/
  output : Bytes
  /-- Its error output. -/
  errors : Bytes
  deriving DecidableEq, Repr

namespace Invocation

variable {m : Type → Type} [Monad m] [FileSystem m]

/-- Reads the arguments with `Command.ofArguments` and the settings with `Settings.setup`, and
carries out the command. -/
def report (yaml : Yaml.Library) (invocation : Invocation) :
    m (Except Failure (Settings × Report)) := do
  match ← Command.ofArguments invocation.arguments with
  | .error error => return .error (.usage error)
  | .ok command =>
    match ← Settings.setup yaml invocation.development invocation.environment with
    | .error error => return .error (.settings error)
    | .ok settings =>
      match ← command.execute yaml settings with
      | .error error => return .error (.command error)
      | .ok report => return .ok (settings, report)

/-- The line that development mode prints first. -/
def greeting (invocation : Invocation) : Bytes :=
  if invocation.development then utf8 "[DEV MODE] initialized\n" else []

/-- A message as the error output shows it: it ends with one line feed. -/
def logged (message : Bytes) : Bytes :=
  if message.getLast? = some (ascii '\n') then message else asLine message

/-- Runs the program: what `report` gives is printed, and a failure is `logged` to the error
output. -/
def run (yaml : Yaml.Library) (invocation : Invocation) : m Result := do
  match ← invocation.report yaml with
  | .error failure => return ⟨.failure, invocation.greeting, logged failure.message⟩
  | .ok (settings, report) =>
    return ⟨report.code,
      invocation.greeting ++ report.render (settings.useColor invocation.terminal), []⟩

end Invocation

end TreeWalk
