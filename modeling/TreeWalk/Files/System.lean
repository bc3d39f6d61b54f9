import TreeWalk.Files.Error

/-!
# File systems

What the program asks of a file system.  The operations are those of a class, so that the program
can run both on the files of the machine and on a `FileTree`, about which one can reason.

Giving a file new contents takes two operations, and each of them can fail: `openNew` makes the file
or drops what it held, and `write` adds to what is open.

## Main definitions

* `FileSystem` — the operations.
* `FileSystem.writeFile` — gives a file new contents.
* `FileSystem.makeDirs` — makes a directory and those it is in.
-/

namespace TreeWalk

/-- What a path names. -/
inductive FileKind
  /-- A file. -/
  | file
  /-- A directory. -/
  | directory
  deriving DecidableEq, Repr

/-- The operations on files that a program can use. -/
class FileSystem (m : Type → Type) where
  /-- Files that are open to be written. -/
  Handle : Type
  /-- What a path names. -/
  stat : Path → m (Except FileError FileKind)
  /-- What a file holds. -/
  read : Path → m (Except FileError Bytes)
  /-- Opens a file to be written.  It is empty then: it is made if there is none, and otherwise what
  it held is dropped. -/
  openNew : Path → m (Except FileError Handle)
  /-- Writes to an open file, behind what it holds.  When that fails, a part may be written. -/
  write : Handle → Bytes → m (Except FileError Unit)
  /-- Makes a directory in one that exists. -/
  makeDir : Path → m (Except FileError Unit)

namespace FileSystem

variable {m : Type → Type} [Monad m] [FileSystem m]

/-- Makes a file with the given `content`, or gives a file new contents: `openNew`, and then one
`write`. -/
def writeFile (path : Path) (content : Bytes) : m (Except FileError Unit) := do
  match ← openNew path with
  | .error error => return .error error
  | .ok handle => write handle content

/-- Makes sure that `path` names a directory, given that the one it is in exists. -/
def ensureDir (path : Path) : m (Except FileError Unit) := do
  match ← stat path with
  | .ok .directory => return .ok ()
  | .ok .file => return .error ⟨.mkdir, path, .notDirectory⟩
  | .error _ =>
    match ← makeDir path with
    | .ok () => return .ok ()
    | .error error =>
      match ← stat path with
      | .ok .directory => return .ok ()
      | _ => return .error error

/-- Makes sure with `ensureDir` that each of the paths names a directory, up to the first that
cannot. -/
def ensureDirs : List Path → m (Except FileError Unit)
  | [] => return .ok ()
  | path :: more => do
    match ← ensureDir path with
    | .ok () => ensureDirs more
    | .error error => return .error error

/-- Makes the directory `path` and those it is in, as far as they do not exist. -/
def makeDirs (path : Path) : m (Except FileError Unit) := do
  match ← stat path with
  | .ok .directory => return .ok ()
  | .ok .file => return .error ⟨.mkdir, path, .notDirectory⟩
  | .error _ => ensureDirs path.parents

end FileSystem

end TreeWalk
