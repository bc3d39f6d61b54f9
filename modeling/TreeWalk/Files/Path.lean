import TreeWalk.Text.Bytes

/-!
# Paths

A path is a text whose parts are separated by slashes.  Empty parts and single dots mean nothing,
and a pair of dots means the directory above.

## Main definitions

* `Path.parts` — the parts between the slashes.
* `Path.clean` — the shortest path that means the same, read as a text.
* `Path.join` — a path put together from parts.
* `Path.base`, `Path.dir` — the last part of a path, and the path in front of it.
* `Path.parents` — the directories a path runs through.
-/

namespace TreeWalk

/-- A path. -/
abbrev Path := Bytes

namespace Path

/-- The byte that separates the parts of a path. -/
def slash : UInt8 := ascii '/'

/-- The directory itself, as a part of a path. -/
def here : Bytes := [ascii '.']

/-- The directory above, as a part of a path. -/
def above : Bytes := [ascii '.', ascii '.']

/-- The parts between the slashes of a path; there is always one more than there are slashes, so
that `ofParts` undoes it. -/
def parts : Path → List Bytes
  | [] => [[]]
  | b :: rest =>
    if b = slash then [] :: parts rest
    else match parts rest with
      | [] => [[b]]
      | part :: more => (b :: part) :: more

/-- The parts in order, with slashes between them. -/
def ofParts (parts : List Bytes) : Path := Bytes.join [slash] parts

/-- Whether a path starts at the root. -/
def isRooted (path : Path) : Bool := path.head? = some slash

/-- Adds `part` to parts that are `clean` already, the last one first.  Above the root there is only
the root. -/
def push (rooted : Bool) (clean : List Bytes) (part : Bytes) : List Bytes :=
  if part = [] || part = here then clean
  else if part = above then
    match clean with
    | [] => if rooted then [] else [above]
    | last :: before => if last = above then above :: clean else before
  else part :: clean

/-- The shortest path that means the same, read as a text: the parts are added one by one with
`push`. -/
def clean (path : Path) : Path :=
  let parts := (path.parts.foldl (push path.isRooted) []).reverse
  if path.isRooted then slash :: ofParts parts
  else if parts = [] then here
  else ofParts parts

/-- A path put together from `parts`, of which the empty ones are left out, and cleaned with
`clean`. -/
def join (parts : List Path) : Path :=
  let parts := parts.filter (· ≠ [])
  if parts = [] then [] else clean (ofParts parts)

/-- A path without the slashes at its end. -/
def trimSlashes (path : Path) : Path := (path.reverse.dropWhile (· = slash)).reverse

/-- The last part of a path. -/
def base (path : Path) : Bytes :=
  if path = [] then here
  else
    let trimmed := path.trimSlashes
    if trimmed = [] then [slash] else (trimmed.parts.getLast?).getD []

/-- A path up to and with its last slash. -/
def upToSlash (path : Path) : Path := (path.reverse.dropWhile (· ≠ slash)).reverse

/-- The path of the directory that `path` names something in. -/
def dir (path : Path) : Path := clean path.upToSlash

/-- The path in front of the last part of `path`, unless there is none. -/
def parent? (path : Path) : Option Path :=
  let front := path.trimSlashes.upToSlash
  if 1 < front.length then some front.dropLast else none

/-- The directories that have to exist for `path` to exist, the outermost first and the path itself
last; at most `steps` of them are taken with `parent?`. -/
def chain : Nat → Path → List Path
  | 0, path => [path]
  | steps + 1, path =>
    match path.parent? with
    | some front => chain steps front ++ [path]
    | none => [path]

/-- The directories that have to exist for `path` to exist, the outermost first and the path itself
last; a path has no more of them than bytes. -/
def parents (path : Path) : List Path := chain path.length path

example : base (utf8 "sub/deep/") = utf8 "deep" := by decide
example : dir (utf8 "sub/deep/../b.mk") = utf8 "sub" := by decide
example : join [utf8 "", utf8 "a/./b", utf8 "../c"] = utf8 "a/c" := by decide
example : parents (utf8 "a/b/c") = [utf8 "a", utf8 "a/b", utf8 "a/b/c"] := by decide

end Path

end TreeWalk
