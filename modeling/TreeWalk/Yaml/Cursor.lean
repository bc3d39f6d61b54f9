import TreeWalk.Yaml.Pieces

/-!
# Places in a YAML text

Indentation carries meaning in YAML, so reading keeps track of the line and the column of the next
character.  Looking ahead is asking for characters, and asking fails when they cannot be read.

## Main definitions

* `Yaml.Cursor` — a place in a text.
* `Yaml.Cursor.need` — asks for characters.
* `Yaml.Cursor.skip`, `Yaml.Cursor.skipBreak` — the place behind a character, and behind a line
  break.
* `Yaml.Cursor.dropWhile`, `Yaml.Cursor.takeWhile` — a run of characters.
* `Yaml.Cursor.atMarker` — whether a document marker stands here.
-/

namespace TreeWalk.Yaml

/-! ### Characters -/

/-- Whether a character is a space or a tab. -/
def isBlank (c : Char) : Bool := c = ' ' || c = '\t'

/-- Whether a character breaks a line and is kept as it is. -/
def isSeparator (c : Char) : Bool := c.toNat = 0x2028 || c.toNat = 0x2029

/-- Whether a character breaks a line, be it with `isSeparator` or not. -/
def isBreak (c : Char) : Bool := c = '\n' || c = '\r' || c.toNat = 0x85 || isSeparator c

/-- Whether a character breaks a line and takes more than one byte. -/
def isWideBreak (c : Char) : Bool := c.toNat = 0x85 || isSeparator c

/-- What the line break `c` reads as: itself if `isSeparator` holds, else a line feed. -/
def breakText (c : Char) : Char := if isSeparator c then c else '\n'

/-- Whether the text ends here or a line does. -/
def endsLine : Option Char → Bool
  | none => true
  | some c => isBreak c

/-- Whether the text ends here, or a line or a word does. -/
def endsWord : Option Char → Bool
  | none => true
  | some c => isBlank c || isBreak c

/-- Whether a character can stand in a name. -/
def isNameChar (c : Char) : Bool := c.isAlphanum || c = '_' || c = '-'

/-- The value of a hexadecimal digit. -/
def hexValue? (c : Char) : Option Nat :=
  if c.isDigit then some (c.toNat - 48)
  else if 'a' ≤ c && c ≤ 'f' then some (c.toNat - 87)
  else if 'A' ≤ c && c ≤ 'F' then some (c.toNat - 55)
  else none

/-- The character that marks the order of bytes. -/
def byteOrderMark : Char := Char.ofNat 0xFEFF

/-! ### Places -/

/-- A place in a YAML text. -/
structure Cursor where
  /-- The characters that were asked for and not passed yet. -/
  ready : List Char
  /-- The pieces that follow them. -/
  later : List (List Char)
  /-- Whether the text ends behind those. -/
  whole : Bool
  /-- Whether a byte order mark stood in front when characters were last read. -/
  marked : Bool
  /-- The number of characters passed. -/
  index : Nat
  /-- The line of the next character, the first line being line one. -/
  line : Nat
  /-- Its column, the first column being column zero. -/
  column : Nat
  /-- The number of line breaks passed since the last character that is no blank. -/
  breaks : Nat
  deriving DecidableEq, Repr

/-- Whether a list has at least `n` elements. -/
def hasAtLeast (n : Nat) (chars : List Char) : Bool :=
  match n with
  | 0 => true
  | n + 1 => !(chars.drop n).isEmpty

namespace Cursor

/-- The start of a text. -/
def start (text : Pieces) : Cursor := ⟨[], text.pieces, text.whole, false, 0, 1, 0, 0⟩

/-- Adds pieces to `ready` until there are `n` characters or no more pieces. -/
def gather (n : Nat) (ready : List Char) : List (List Char) → List Char × List (List Char)
  | [] => (ready, [])
  | piece :: later =>
    let ready := ready ++ piece
    if hasAtLeast n ready then (ready, later) else gather n ready later

/-- Asks for `n` characters.  At the end of the text there may be fewer; there is no result when
what follows cannot be read. -/
def need (n : Nat) (cursor : Cursor) : Option Cursor :=
  if hasAtLeast n cursor.ready then some cursor
  else
    let (ready, later) := gather n cursor.ready cursor.later
    if hasAtLeast n ready || cursor.whole then
      some { cursor with
        ready := ready
        later := later
        marked := ready.head? = some byteOrderMark }
    else none

/-- The character `n` places ahead, if `need` asked for it. -/
def peek (n : Nat) (cursor : Cursor) : Option Char := cursor.ready[n]?

/-- Whether the character `c` comes next. -/
def sees (c : Char) (cursor : Cursor) : Bool := cursor.ready.head? = some c

/-- Whether a character with `isBreak` comes next. -/
def seesBreak (cursor : Cursor) : Bool := cursor.ready.head?.any isBreak

/-- The place behind the next character. -/
def skip (cursor : Cursor) : Cursor :=
  match cursor.ready with
  | [] => cursor
  | c :: rest =>
    { cursor with
      ready := rest
      index := cursor.index + 1
      column := cursor.column + 1
      breaks := if isBlank c then cursor.breaks else 0 }

/-- The place behind the next `n` characters. -/
def skipMany : Nat → Cursor → Cursor
  | 0, cursor => cursor
  | n + 1, cursor => skipMany n cursor.skip

/-- The place at the start of the next line, given what follows a break of `n` characters. -/
def toLine (n : Nat) (rest : List Char) (cursor : Cursor) : Cursor :=
  { cursor with
    ready := rest
    index := cursor.index + n
    line := cursor.line + 1
    column := 0
    breaks := cursor.breaks + 1 }

/-- The place behind the next line break; a carriage return and a line feed are one. -/
def skipBreak (cursor : Cursor) : Cursor :=
  match cursor.ready with
  | '\r' :: '\n' :: rest => cursor.toLine 2 rest
  | c :: rest => if isBreak c then cursor.toLine 1 rest else cursor
  | [] => cursor

/-- The place behind a run of characters that satisfy `p`. -/
def dropWhile (p : Char → Bool) : Nat → Cursor → Option Cursor
  | 0, _ => none
  | fuel + 1, cursor =>
    match cursor.ready with
    | [] => some cursor
    | c :: _ =>
      if p c then do dropWhile p fuel (← cursor.skip.need 1)
      else some cursor

/-- A run of characters that satisfy `p`, and the place behind it. -/
def takeWhile (p : Char → Bool) : Nat → Cursor → Option (List Char × Cursor)
  | 0, _ => none
  | fuel + 1, cursor =>
    match cursor.ready with
    | [] => some ([], cursor)
    | c :: _ =>
      if p c then do
        let (more, after) ← takeWhile p fuel (← cursor.skip.need 1)
        return (c :: more, after)
      else some ([], cursor)

/-- The place at the end of the line, in front of the character with `isBreak`. -/
def skipLine (fuel : Nat) (cursor : Cursor) : Option Cursor :=
  cursor.dropWhile (fun c => !isBreak c) fuel

/-- Whether the indicator `c` comes next, with a blank or nothing behind it. -/
def atIndicator (c : Char) (cursor : Cursor) : Bool :=
  cursor.sees c && endsWord (cursor.peek 1)

/-- Whether a marker of three times `c` stands at the start of a line. -/
def atMarkerOf (c : Char) (cursor : Cursor) : Bool :=
  cursor.column = 0 && match cursor.ready with
    | a :: b :: d :: rest => a = c && b = c && d = c && endsWord rest.head?
    | _ => false

/-- Whether a document starts or ends here, which three dashes or three points say at the start of a
line. -/
def atMarker (cursor : Cursor) : Bool := cursor.atMarkerOf '-' || cursor.atMarkerOf '.'

/-! ### Comments -/

/-- Whether a comment follows on the line, behind at most `count` characters, the first `n` of
which are blanks. -/
def seesComment : Nat → Nat → Cursor → Option (Bool × Cursor)
  | 0, _, cursor => some (false, cursor)
  | count + 1, n, cursor => do
    let cursor ← cursor.need (n + 1)
    match cursor.peek n with
    | none => return (false, cursor)
    | some c => if isBlank c then seesComment count (n + 1) cursor else return (c = '#', cursor)

/-- The number of characters that `seesComment` and `seesNextComment` look at to find a comment. -/
def commentReach : Nat := 512

/-- The place behind the comment on this line, if there is one and something else stands in front
of it. -/
def lineComment (fuel : Nat) (cursor : Cursor) : Option Cursor :=
  if 0 < cursor.breaks then some cursor
  else do
    let (found, cursor) ← seesComment commentReach 0 cursor
    if found then cursor.skipLine fuel else return cursor

/-- Whether another comment follows, `n` characters ahead or more; the first `n` of them are line
breaks and blanks.  A line break of more than one byte ends the search. -/
def seesNextComment : Nat → Nat → Cursor → Option (Bool × Cursor)
  | 0, _, cursor => some (false, cursor)
  | count + 1, n, cursor => do
    let cursor ← cursor.need (n + 1)
    match cursor.peek n with
    | none => return (false, cursor)
    | some c =>
      if (cursor.peek (n - 1)).any isWideBreak then return (false, cursor)
      else if isBlank c || isBreak c then seesNextComment count (n + 1) cursor
      else return (c = '#', cursor)

/-- The place of the next comment, in front of which there are only line breaks and blanks, as
`seesNextComment` found. -/
def toComment : Nat → Cursor → Option Cursor
  | 0, _ => none
  | fuel + 1, cursor =>
    if cursor.sees '#' then some cursor
    else if cursor.seesBreak then do
      let cursor ← cursor.need 2
      toComment fuel (← cursor.skipBreak.need 1)
    else do toComment fuel (← cursor.skip.need 1)

/-- The place at the end of the last of several comments, the first of which stands here. -/
def skipComments : Nat → Cursor → Option Cursor
  | 0, _ => none
  | fuel + 1, cursor => do
    let cursor ← cursor.skipLine fuel
    let (found, cursor) ← seesNextComment (commentReach - 1) 1 cursor
    if found then skipComments fuel (← toComment fuel cursor) else return cursor

end Cursor

end TreeWalk.Yaml
