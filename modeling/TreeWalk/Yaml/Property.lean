import TreeWalk.Yaml.Cursor
import TreeWalk.Text.Utf8

/-!
# Names, tags and directives

A node can be given a name and a tag, and a line in front of a document can say which version it is
written in, or what the handle of a tag stands for.  A tag is a handle and a suffix, or a whole tag
in angles; behind a percent sign two digits stand for a byte.

## Main definitions

* `Yaml.name?` — a name behind its sign.
* `Yaml.tag?` — a tag.
* `Yaml.Directive`, `Yaml.directive?` — a line in front of a document.
-/

namespace TreeWalk.Yaml

/-- Reads a name behind its sign: characters with `isNameChar`, at least one. -/
def name? (fuel : Nat) (cursor : Cursor) : Option (String × Cursor) := do
  let (name, after) ← (← cursor.skip.need 1).takeWhile isNameChar fuel
  let ends := endsWord after.ready.head?
    || "?:,]\x7d%@`".toList.any (fun c => after.sees c)
  if name.isEmpty || !ends then none else some (String.ofList name, after)

/-! ### Tags -/

/-- Whether a character can stand in a tag. -/
def isTagChar (c : Char) : Bool := isNameChar c || ";/?:@&=+$,.!~*'()[]%".toList.contains c

/-- The byte that a `%` and two digits stand for. -/
def escapedByte? : List Char → Option UInt8
  | '%' :: a :: b :: _ => do return ((← hexValue? a) * 16 + (← hexValue? b)).toUInt8
  | _ => none

/-- The number of bytes that a character has whose first byte is `b`. -/
def widthOf? (b : UInt8) : Option Nat :=
  if b &&& 0x80 = 0 then some 1
  else if b &&& 0xE0 = 0xC0 then some 2
  else if b &&& 0xF0 = 0xE0 then some 3
  else if b &&& 0xF8 = 0xF0 then some 4
  else none

/-- Reads `count` more escaped bytes of a character. -/
def escapedTail? : Nat → Cursor → Option (Bytes × Cursor)
  | 0, cursor => some ([], cursor)
  | count + 1, cursor => do
    let cursor ← cursor.need 3
    let b ← escapedByte? cursor.ready
    if b &&& 0xC0 ≠ 0x80 then none
    else
      let (more, after) ← escapedTail? count (cursor.skipMany 3)
      return (b :: more, after)

/-- Reads the escaped bytes of one character, as many as `widthOf?` tells. -/
def escapedChar? (cursor : Cursor) : Option (Bytes × Cursor) := do
  let cursor ← cursor.need 3
  let b ← escapedByte? cursor.ready
  let (more, after) ← escapedTail? ((← widthOf? b) - 1) (cursor.skipMany 3)
  return (b :: more, after)

/-- Reads the characters of a tag, those with `isTagChar`; escaped ones become their bytes. -/
def tagChars? : Nat → Cursor → Option (Bytes × Cursor)
  | 0, _ => none
  | fuel + 1, cursor =>
    match cursor.ready with
    | [] => some ([], cursor)
    | c :: _ =>
      if !isTagChar c then some ([], cursor)
      else do
        let (bytes, cursor) ← if c = '%' then escapedChar? cursor
          else some ([ascii c], cursor.skip)
        let (more, after) ← tagChars? fuel (← cursor.need 1)
        return (bytes ++ more, after)

/-- Reads a handle: a `!`, and perhaps a name and another one. -/
def handle? (fuel : Nat) (cursor : Cursor) : Option (Bytes × Cursor) := do
  let cursor ← cursor.need 1
  if !cursor.sees '!' then none
  else
    let (name, after) ← (← cursor.skip.need 1).takeWhile isNameChar fuel
    let start := ascii '!' :: name.map ascii
    if after.sees '!' then return (start ++ [ascii '!'], after.skip)
    else return (start, after)

/-- A tag as it is written: a handle, which is empty if the suffix is the whole tag. -/
structure WrittenTag where
  /-- The handle. -/
  handle : Bytes
  /-- The suffix. -/
  suffix : Bytes
  deriving DecidableEq, Repr

/-- Reads a tag in angles, behind the opening `<`. -/
def wholeTag? (fuel : Nat) (cursor : Cursor) : Option (WrittenTag × Cursor) := do
  let (suffix, after) ← tagChars? fuel (← cursor.need 1)
  if suffix.isEmpty || !after.sees '>' then none else some (⟨[], suffix⟩, after.skip)

/-- Reads a tag with a handle.  What looks like a handle without the second mark is a part of the
suffix, and a mark alone is a whole tag. -/
def handledTag? (fuel : Nat) (cursor : Cursor) : Option (WrittenTag × Cursor) := do
  let (handle, cursor) ← handle? fuel cursor
  let (suffix, after) ← tagChars? fuel (← cursor.need 1)
  let mark := utf8 "!"
  if 1 < handle.length && handle.getLast? = some (ascii '!') then
    if suffix.isEmpty then none else some (⟨handle, suffix⟩, after)
  else
    let suffix := handle.drop 1 ++ suffix
    return (if suffix.isEmpty then ⟨[], mark⟩ else ⟨mark, suffix⟩, after)

/-- Reads a tag with `wholeTag?` or `handledTag?`; a blank must follow it. -/
def tag? (fuel : Nat) (cursor : Cursor) : Option (WrittenTag × Cursor) := do
  let cursor ← cursor.need 2
  let (tag, after) ← if cursor.peek 1 = some '<' then wholeTag? fuel (cursor.skipMany 2)
    else handledTag? fuel cursor
  let after ← after.need 1
  if endsWord after.ready.head? then some (tag, after) else none

/-! ### Directives -/

/-- What a line in front of a document says. -/
inductive Directive
  /-- The version the document is written in. -/
  | version (major minor : Nat)
  /-- What a handle stands for. -/
  | handle (name start : Bytes)
  deriving DecidableEq, Repr

/-- Reads a number of one or two digits. -/
def versionNumber? (fuel : Nat) (cursor : Cursor) : Option (Nat × Cursor) := do
  let (digits, after) ← (← cursor.need 1).takeWhile Char.isDigit fuel
  if digits.isEmpty || 2 < digits.length then none
  else some (digits.foldl (fun n c => n * 10 + (c.toNat - 48)) 0, after)

/-- Reads the version behind the name of the directive: two numbers with a `.` between them. -/
def versionDirective? (fuel : Nat) (cursor : Cursor) : Option (Directive × Cursor) := do
  let cursor ← cursor.dropWhile isBlank fuel
  let (major, cursor) ← versionNumber? fuel cursor
  if !cursor.sees '.' then none
  else
    let (minor, after) ← versionNumber? fuel cursor.skip
    return (.version major minor, after)

/-- Reads the handle and what it stands for behind the name of the directive. -/
def handleDirective? (fuel : Nat) (cursor : Cursor) : Option (Directive × Cursor) := do
  let cursor ← cursor.dropWhile isBlank fuel
  let (handle, cursor) ← handle? fuel cursor
  let complete := handle.length = 1 || handle.getLast? = some (ascii '!')
  let cursor ← cursor.need 1
  if !complete || !cursor.ready.head?.any isBlank then none
  else
    let cursor ← cursor.dropWhile isBlank fuel
    let (start, after) ← tagChars? fuel cursor
    let after ← after.need 1
    if start.isEmpty || !endsWord after.ready.head? then none
    else some (.handle handle start, after)

/-- Reads a directive and the rest of its line, which may hold a comment. -/
def directive? (fuel : Nat) (cursor : Cursor) : Option (Directive × Cursor) := do
  let (name, cursor) ← (← cursor.skip.need 1).takeWhile isNameChar fuel
  if !endsWord cursor.ready.head? then none
  else
    let name := String.ofList name
    let (directive, cursor) ← if name = "YAML" then versionDirective? fuel cursor
      else if name = "TAG" then handleDirective? fuel cursor
      else none
    let cursor ← (← cursor.need 1).dropWhile isBlank fuel
    let cursor ← if cursor.sees '#' then cursor.skipLine fuel else some cursor
    if cursor.seesBreak then return (directive, (← cursor.need 2).skipBreak)
    else if cursor.ready.isEmpty then return (directive, cursor)
    else none

end TreeWalk.Yaml
