import TreeWalk.Files.System
import TreeWalk.Trial

/-!
# Source files

A program in a file.  Diagnostics name the file by the last part of its path.

## Main definitions

* `SourceFile`, `SourceFile.locate` — a file that a program is read from.
* `SourceFile.tryOut` — tries out the program in a file.
-/

namespace TreeWalk

/-- A file that a program is read from. -/
structure SourceFile where
  /-- The last part of its path. -/
  name : Bytes
  /-- The last part of the path of its directory. -/
  dir : Bytes
  /-- Its path as it was given. -/
  path : Path
  deriving DecidableEq, Repr

/-- Why a path names no source file. -/
inductive LocateError
  /-- It names nothing that can be found. -/
  | unfound (error : FileError)
  /-- It names a directory. -/
  | directory (path : Path)
  deriving DecidableEq, Repr

/-- The wording of a `LocateError`. -/
def LocateError.message : LocateError → Bytes
  | unfound error => error.message
  | directory path => path ++ utf8 " is a directory"

/-- Why a file cannot be run. -/
inductive SourceError
  /-- It cannot be read. -/
  | unreadable (path : Path) (error : FileError)
  /-- It is no source file. -/
  | unlocated (path : Path) (error : LocateError)
  deriving DecidableEq, Repr

/-- The wording of a `SourceError`. -/
def SourceError.message : SourceError → Bytes
  | unreadable path error => utf8 "could not read " ++ path ++ utf8 ": " ++ error.message
  | unlocated path error => utf8 "invalid source path " ++ path ++ utf8 ": " ++ error.message

namespace SourceFile

/-- The source file with the given `path`, named after the last part of it. -/
def ofPath (path : Path) : SourceFile := ⟨path.base, path.dir.base, path⟩

variable {m : Type → Type} [Monad m] [FileSystem m]

/-- The source file that `path` names, which must be no directory. -/
def locate (path : Path) : m (Except LocateError SourceFile) := do
  match ← FileSystem.stat path with
  | .error error => return .error (.unfound error)
  | .ok .directory => return .error (.directory path)
  | .ok .file => return .ok (ofPath path)

/-- The program text in the source file `file`. -/
def read (file : SourceFile) : m (Except SourceError Bytes) := do
  match ← FileSystem.read file.path with
  | .error error => return .error (.unreadable file.path error)
  | .ok text => return .ok text

/-- Tries out the program in the file that `path` names with `TreeWalk.tryOut`. -/
def tryOut (path : Path) (limit : Int) :
    m (Except SourceError (Option Trial × Option TrialError)) := do
  match ← read (ofPath path) with
  | .error error => return .error error
  | .ok text =>
    match ← locate path with
    | .error error => return .error (.unlocated path error)
    | .ok file => return .ok (TreeWalk.tryOut text file.name limit)

end SourceFile

end TreeWalk
