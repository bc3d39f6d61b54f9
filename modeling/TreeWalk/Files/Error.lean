import TreeWalk.Files.Path

/-!
# File errors

What can go wrong with a file, while doing what, and on which path.

## Main definitions

* `FileFault` — why a path cannot be used.
* `FileError`, `FileError.message` — the fault of an action on a path.
-/

namespace TreeWalk

/-- Why a path cannot be used. -/
inductive FileFault
  /-- Nothing is there. -/
  | absent
  /-- A part in front of the last one is no directory. -/
  | notDirectory
  /-- A directory is there. -/
  | isDirectory
  /-- Something is there already. -/
  | present
  /-- A part of the path, or the path, is too long. -/
  | tooLong
  /-- The path holds a null byte. -/
  | malformed
  /-- There is no room for what is written. -/
  | full
  /-- Another reason. -/
  | other (reason : Bytes)
  deriving DecidableEq, Repr

/-- The wording of a `FileFault`. -/
def FileFault.message : FileFault → Bytes
  | absent => utf8 "no such file or directory"
  | notDirectory => utf8 "not a directory"
  | isDirectory => utf8 "is a directory"
  | present => utf8 "file exists"
  | tooLong => utf8 "file name too long"
  | malformed => utf8 "invalid argument"
  | full => utf8 "no space left on device"
  | other reason => reason

/-- What is done with a path. -/
inductive FileAction
  /-- Asking what is there. -/
  | stat
  /-- Opening it to read or to write. -/
  | access
  /-- Reading what was opened. -/
  | read
  /-- Writing to what was opened. -/
  | write
  /-- Making a directory. -/
  | mkdir
  deriving DecidableEq, Repr

/-- The wording of a `FileAction`. -/
def FileAction.label : FileAction → Bytes
  | stat => utf8 "stat"
  | access => utf8 "open"
  | read => utf8 "read"
  | write => utf8 "write"
  | mkdir => utf8 "mkdir"

/-- The fault of an action on a path. -/
structure FileError where
  /-- What was done. -/
  action : FileAction
  /-- The path as it was given. -/
  path : Path
  /-- What went wrong. -/
  fault : FileFault
  deriving DecidableEq, Repr

/-- The wording of an error: `FileAction.label`, the path, and `FileFault.message`. -/
def FileError.message (error : FileError) : Bytes :=
  error.action.label ++ utf8 " " ++ error.path ++ utf8 ": " ++ error.fault.message

end TreeWalk
