import TreeWalk.Command.Program
import TreeWalk.Text.Utf8
import TreeWalk.Yaml.Decode

/-!
# The command line

Runs the program on the files of the machine.  Nothing is decided here: the operations on files are
handed to the machine, and what the program leaves behind is printed.
-/

namespace TreeWalk

namespace Host

/-- Is `code` the `expected` one?  Some operations of the machine report codes negated. -/
def isCode (expected code : UInt32) : Bool :=
  code = expected || 0 - code = expected

/-- The `FileFault` that an error of the machine stands for. -/
def faultOf : IO.Error → FileFault
  | .noFileOrDirectory .. => .absent
  | .alreadyExists .. => .present
  | .inappropriateType _ code _ => if isCode 21 code then .isDirectory else .notDirectory
  | .invalidArgument _ code _ => if isCode 36 code then .tooLong else .malformed
  | .resourceExhausted _ code _ =>
    if isCode 28 code then .full else .other (utf8 "resource exhausted")
  | error => .other (utf8 (toString error))

/-- Does `operation` with a path that can be handed to the machine.  What it throws becomes a
`FileError` through `faultOf`. -/
def onPath {α : Type} (action : FileAction) (path : Path) (operation : String → IO α) :
    IO (Except FileError α) := do
  match Utf8.decode? path with
  | none => return .error ⟨action, path, .malformed⟩
  | some text =>
    if text.contains (Char.ofNat 0) then return .error ⟨action, path, .malformed⟩
    else
      try return .ok (← operation (String.ofList text))
      catch error =>
        let fault := faultOf error
        -- A directory can be opened, so it is the reading that fails.
        let action := if action = .access && fault = .isDirectory then .read else action
        return .error ⟨action, path, fault⟩

/-- What a path names on the machine. -/
def kindOf (text : String) : IO FileKind := do
  match (← (System.mkFilePath [text]).metadata).type with
  | .dir => return .directory
  | _ => return .file

/-- A file of the machine that is open to be written, and its path. -/
structure Handle where
  /-- The file. -/
  stream : IO.FS.Handle
  /-- The path with which it was opened. -/
  path : Path

/-- Opens a file to be written.  A directory cannot even be opened so. -/
def openNew (path : Path) : IO (Except FileError Handle) := do
  match ← onPath .access path fun text => IO.FS.Handle.mk text .write with
  | .error error => return .error { error with action := .access }
  | .ok stream => return .ok ⟨stream, path⟩

/-- Writes to an open file. -/
def write (handle : Handle) (content : Bytes) : IO (Except FileError Unit) := do
  try
    handle.stream.write content.toByteArray
    handle.stream.flush
    return .ok ()
  catch error => return .error ⟨.write, handle.path, faultOf error⟩

instance : FileSystem IO where
  Handle := Handle
  stat path := onPath .stat path kindOf
  read path := onPath .access path fun text => do
    return (← IO.FS.readBinFile text).toList
  openNew := openNew
  write := write
  makeDir path := onPath .mkdir path fun text => IO.FS.createDir text

/-- The value of a variable, empty if it is not set. -/
def variableOf (name : String) : IO Bytes := do
  return utf8 ((← IO.getEnv name).getD "")

end Host

/-- Runs the program with the given arguments: `Invocation.run` on the files of the machine. -/
def runMain (arguments : List String) : IO UInt32 := do
  let environment : Environment :=
    { configHome := ← Host.variableOf "XDG_CONFIG_HOME"
      home := ← Host.variableOf "HOME"
      system := ← Host.variableOf "OS"
      appData := ← Host.variableOf "APPDATA" }
  let output ← IO.getStdout
  let errors ← IO.getStderr
  let result ← Invocation.run Yaml.library
    { arguments := arguments.map utf8
      environment := environment
      development := false
      terminal := ← output.isTty }
  output.write result.output.toByteArray
  output.flush
  errors.write result.errors.toByteArray
  errors.flush
  return result.code.toNat.toUInt32

end TreeWalk

/-- The command line. -/
def main (arguments : List String) : IO UInt32 := TreeWalk.runMain arguments
