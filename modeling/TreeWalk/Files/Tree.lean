import TreeWalk.Files.System

/-!
# File trees

A file tree is all that lies below the root, together with the directory in which a program works.
Paths are walked part by part, a rooted path from the root and any other from that directory: every
part in front of the last has to name a directory, and a slash at the end asks for a directory.

A tree may have room for a limited number of bytes.  Opening a file to write it makes room for what
it held; what is written then goes into the file as far as there is room.

## Main definitions

* `FileTree` — files and directories by their place.
* `FileTree.locate` — what a path leads to.
* `FileTree.stat`, `FileTree.read`, `FileTree.openNew`, `FileTree.write`, `FileTree.makeDir` — the
  operations.
* `FileTree.files` — all files below the directory in which a program works.
-/

namespace TreeWalk

/-- A place in a file tree: the names that lead to it from the root, the last one first. -/
abbrev Place := List Bytes

/-- What can be in a place. -/
inductive Entry
  /-- A file with its contents. -/
  | file (content : Bytes)
  /-- A directory. -/
  | directory
  deriving DecidableEq, Repr

namespace Entry

/-- Whether an entry is a file or a directory. -/
def kind : Entry → FileKind
  | file _ => .file
  | directory => .directory

/-- The number of bytes that an entry holds. -/
def size : Entry → Nat
  | file content => content.length
  | directory => 0

end Entry

/-- All that lies below the root. -/
structure FileTree where
  /-- The files and directories by their place. -/
  entries : List (Place × Entry)
  /-- The directory in which a program works. -/
  workDir : Place := []
  /-- How many bytes all files together may hold, unless that is not limited. -/
  capacity : Option Nat := none
  deriving DecidableEq, Repr

/-- What a path leads to. -/
inductive Found
  /-- Something in a place. -/
  | entry (place : Place) (entry : Entry)
  /-- A place in a directory, where nothing is; `slashed` tells whether a slash asks for a
  directory there. -/
  | vacant (place : Place) (slashed : Bool)
  /-- Nothing. -/
  | nowhere (fault : FileFault)
  deriving DecidableEq, Repr

namespace FileTree

/-- A file of a tree that is open to be written. -/
structure Handle where
  /-- Where the file is. -/
  place : Place
  /-- The path with which it was opened. -/
  path : Path
  deriving DecidableEq, Repr

/-- What is in a place of `tree`.  The root is always there. -/
def get? (tree : FileTree) : Place → Option Entry
  | [] => some .directory
  | place => tree.entries.lookup place

/-- Puts `entry` into `place`, whatever was there. -/
def put (tree : FileTree) (place : Place) (entry : Entry) : FileTree :=
  { tree with entries := (place, entry) :: tree.entries.filter (·.1 ≠ place) }

/-- Clears `place`. -/
def clear (tree : FileTree) (place : Place) : FileTree :=
  { tree with entries := tree.entries.filter (·.1 ≠ place) }

/-- The most bytes a name may have; `walk` refuses longer ones. -/
def nameLimit : Nat := 255

/-- The most bytes a path may have; `locate` refuses longer ones. -/
def pathLimit : Nat := 4095

/-- Walks the parts of a path from a place.  Above the root there is only the root.  In a place
where nothing is, only empty parts may follow, for which `Found.vacant` has `slashed` hold. -/
def walk (tree : FileTree) : Place → List Bytes → Found
  | place, [] =>
    match tree.get? place with
    | some entry => .entry place entry
    | none => .vacant place false
  | place, part :: more =>
    match tree.get? place with
    | none => if (part :: more).all (· = []) then .vacant place true else .nowhere .absent
    | some (.file _) => .nowhere .notDirectory
    | some .directory =>
      if part = [] || part = Path.here then walk tree place more
      else if part = Path.above then walk tree place.tail more
      else if nameLimit < part.length then .nowhere .tooLong
      else walk tree (part :: place) more

/-- What `path` leads to: it is walked from the root if it is rooted, else from `workDir`. -/
def locate (tree : FileTree) (path : Path) : Found :=
  if path.contains 0 then .nowhere .malformed
  else if path = [] then .nowhere .absent
  else if pathLimit < path.length then .nowhere .tooLong
  else tree.walk (if path.isRooted then [] else tree.workDir) path.parts

/-- What `path` names. -/
def stat (tree : FileTree) (path : Path) : Except FileError FileKind :=
  match tree.locate path with
  | .entry _ entry => .ok entry.kind
  | .vacant _ _ => .error ⟨.stat, path, .absent⟩
  | .nowhere fault => .error ⟨.stat, path, fault⟩

/-- What the file at `path` holds.  A directory can be opened and not read, so its error has
`FileAction.read`. -/
def read (tree : FileTree) (path : Path) : Except FileError Bytes :=
  match tree.locate path with
  | .entry _ (.file content) => .ok content
  | .entry _ .directory => .error ⟨.read, path, .isDirectory⟩
  | .vacant _ _ => .error ⟨.access, path, .absent⟩
  | .nowhere fault => .error ⟨.access, path, fault⟩

/-- Opens the file at `path` to be written, with nothing in it. -/
def openNew (tree : FileTree) (path : Path) : Except FileError Handle × FileTree :=
  match tree.locate path with
  | .entry place (.file _) | .vacant place false => (.ok ⟨place, path⟩, tree.put place (.file []))
  | .entry _ .directory | .vacant _ true => (.error ⟨.access, path, .isDirectory⟩, tree)
  | .nowhere fault => (.error ⟨.access, path, fault⟩, tree)

/-- The number of bytes that all files together hold. -/
def used (tree : FileTree) : Nat :=
  tree.entries.foldl (fun total (_, entry) => total + entry.size) 0

/-- As much of `content` as `capacity` leaves room for. -/
def fitting (tree : FileTree) (content : Bytes) : Bytes :=
  match tree.capacity with
  | none => content
  | some bytes => content.take (bytes - tree.used)

/-- Writes `content` to an open file, behind what it holds, as much as is `fitting`.  What is
written to a file that has been removed is lost. -/
def write (tree : FileTree) (handle : Handle) (content : Bytes) :
    Except FileError Unit × FileTree :=
  match tree.get? handle.place with
  | some (.file old) =>
    let taken := tree.fitting content
    (if taken = content then .ok () else .error ⟨.write, handle.path, .full⟩,
      tree.put handle.place (.file (old ++ taken)))
  | _ => (.ok (), tree)

/-- Makes the directory `path` in one that exists. -/
def makeDir (tree : FileTree) (path : Path) : Except FileError Unit × FileTree :=
  match tree.locate path with
  | .vacant place _ => (.ok (), tree.put place .directory)
  | .entry _ _ => (.error ⟨.mkdir, path, .present⟩, tree)
  | .nowhere fault => (.error ⟨.mkdir, path, fault⟩, tree)

/-- Removes the file at `path`, or a directory in which nothing is. -/
def remove (tree : FileTree) (path : Path) : FileTree :=
  match tree.locate path with
  | .entry [] _ => tree
  | .entry place (.file _) => tree.clear place
  | .entry place .directory =>
    if tree.entries.any (fun e => e.1 ≠ place && place.isSuffixOf e.1) then tree
    else tree.clear place
  | _ => tree

/-- All files below `workDir`, with the paths that lead to them from there. -/
def files (tree : FileTree) : List (Path × Bytes) :=
  tree.entries.filterMap fun
    | (place, .file content) =>
      if tree.workDir.isSuffixOf place then
        some (Path.ofParts (place.take (place.length - tree.workDir.length)).reverse, content)
      else none
    | (_, .directory) => none

instance : FileSystem (StateM FileTree) where
  Handle := Handle
  stat path := fun tree => (tree.stat path, tree)
  read path := fun tree => (tree.read path, tree)
  openNew path := fun tree => tree.openNew path
  write handle content := fun tree => tree.write handle content
  makeDir path := fun tree => tree.makeDir path

end FileTree

end TreeWalk
