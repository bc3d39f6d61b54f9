import TreeWalk.Yaml.Cursor

/-!
# YAML scalars

Scalars are written plainly, in single or double quotes, or as an indented block.  A line break
inside a plain or quoted scalar reads as a space, and further line breaks behind it are kept.

Every function here asks for characters before it looks at them, and takes an amount of fuel that
the number of characters of the text is enough for.

## Main definitions

* `Yaml.Gap` — the blanks and line breaks between two words of a scalar.
* `Yaml.plain?`, `Yaml.quoted?`, `Yaml.blockScalar?` — reading scalars.
-/

namespace TreeWalk.Yaml

/-! ### Gaps -/

/-- The blanks and line breaks between two words of a scalar. -/
structure Gap where
  /-- The blanks up to the first line break. -/
  blanks : List Char
  /-- What the line breaks read as. -/
  breaks : List Char
  deriving DecidableEq, Repr

/-- What a gap reads as: its blanks if it has no line breaks, one line break as a space, and more
of them without the first, unless that is a separator. -/
def Gap.folded (gap : Gap) : List Char :=
  match gap.breaks with
  | [] => gap.blanks
  | ['\n'] => [' ']
  | '\n' :: more => more
  | breaks => breaks

/-- Whether a `Gap` starts here. -/
def Cursor.startsGap (cursor : Cursor) : Bool :=
  cursor.ready.head?.any fun c => isBlank c || isBreak c

/-- Reads a gap.  Behind a line break, which may have been passed before if `crossed` holds, blanks
do not count, and a tab in the first `indent` columns is an error. -/
def gap? (indent : Nat) : Nat → Bool → Cursor → Option (Gap × Cursor)
  | 0, _, _ => none
  | fuel + 1, crossed, cursor =>
    match cursor.ready with
    | [] => some (⟨[], []⟩, cursor)
    | c :: _ =>
      if isBlank c then
        if crossed && c = '\t' && cursor.column < indent then none
        else do
          let (gap, after) ← gap? indent fuel crossed (← cursor.skip.need 1)
          return (if crossed then gap else { gap with blanks := c :: gap.blanks }, after)
      else if isBreak c then do
        let cursor ← cursor.need 2
        let (gap, after) ← gap? indent fuel true (← cursor.skipBreak.need 1)
        return ({ gap with breaks := breakText c :: gap.breaks }, after)
      else some (⟨[], []⟩, cursor)

/-! ### Plain scalars -/

/-- Whether a character ends a plain scalar inside brackets. -/
def isFlowEnd (c : Char) : Bool :=
  c = ',' || c = '?' || c = '[' || c = ']' || c = '\x7b' || c = '\x7d'

/-- Whether a word of a plain scalar ends here: at a blank, at a colon before one, and inside
brackets at the signs of the brackets. -/
def endsPlainWord (flow : Bool) : List Char → Bool
  | [] => true
  | c :: rest =>
    isBlank c || isBreak c || (c = ':' && endsWord rest.head?) || (flow && isFlowEnd c)

/-- Reads a word of a plain scalar, up to where `endsPlainWord` holds. -/
def plainWord? (flow : Bool) : Nat → Cursor → Option (List Char × Cursor)
  | 0, _ => none
  | fuel + 1, cursor =>
    match cursor.ready with
    | [] => some ([], cursor)
    | c :: rest =>
      if endsPlainWord flow (c :: rest) then some ([], cursor)
      else do
        let (more, after) ← plainWord? flow fuel (← cursor.skip.need 2)
        return (c :: more, after)

/-- A plain scalar that was read. -/
structure Plain where
  /-- Its text. -/
  text : List Char
  /-- Whether a line break was passed behind it. -/
  crossed : Bool
  /-- The place behind it and behind the blanks that follow it. -/
  after : Cursor
  deriving DecidableEq, Repr

/-- Reads a plain scalar on, behind a gap that reads as `gap` if another word follows.  A document
marker, a comment, and outside brackets a line that is indented less than `indent` end it. -/
def plainWords? (flow : Bool) (indent : Nat) : Nat → List Char → Bool → Cursor → Option Plain
  | 0, _, _, _ => none
  | fuel + 1, gap, crossed, cursor => do
    let cursor ← cursor.need 4
    if cursor.atMarker || cursor.sees '#' then return ⟨[], crossed, cursor⟩
    else
      let (word, cursor) ← plainWord? flow fuel cursor
      let text := if word.isEmpty then [] else gap ++ word
      if !cursor.startsGap then return ⟨text, crossed && word.isEmpty, cursor⟩
      else
        let (gap, cursor) ← gap? indent fuel false (← cursor.need 1)
        let crossed := !gap.breaks.isEmpty
        if !flow && cursor.column < indent then return ⟨text, crossed, cursor⟩
        else
          let more ← plainWords? flow indent fuel gap.folded crossed cursor
          return { more with text := text ++ more.text }

/-- Reads a plain scalar in a block with the given `indent`, word by word with `plainWords?`. -/
def plain? (fuel : Nat) (flow : Bool) (indent : Int) (cursor : Cursor) : Option Plain :=
  plainWords? flow (indent + 1).toNat fuel [] false cursor

/-- Whether a plain scalar can start here; `flow` tells whether brackets are open. -/
def startsPlain (flow : Bool) : List Char → Bool
  | [] => false
  | c :: rest =>
    if isBlank c || isBreak c then false
    else if c = '-' then !rest.head?.any isBlank
    else if c = '?' || c = ':' then !flow && !endsWord rest.head?
    else !(",[]\x7b\x7d#&*!|>'\"%@`".toList.contains c)

/-! ### Quoted scalars -/

/-- The number that the first `width` characters spell in hexadecimal, added to `n` times the
power of sixteen that makes room for it. -/
def hexNumber? : Nat → Nat → List Char → Option Nat
  | 0, n, _ => some n
  | _ + 1, _, [] => none
  | width + 1, n, c :: rest => do hexNumber? width (n * 16 + (← hexValue? c)) rest

/-- The character with the code point `code`. -/
def charOf? (code : Nat) : Option Char :=
  if h : code.isValidChar then some (Char.ofNatAux code h) else none

/-- What an escape in double quotes means. -/
inductive Escape
  /-- A character. -/
  | char (c : Char)
  /-- The character whose code has this many hexadecimal digits. -/
  | code (width : Nat)
  deriving DecidableEq, Repr

/-- What the letter `c` behind a backslash means. -/
def escape? (c : Char) : Option Escape :=
  match c with
  | '0' => some (.char (Char.ofNat 0))
  | 'a' => some (.char (Char.ofNat 7))
  | 'b' => some (.char (Char.ofNat 8))
  | 't' => some (.char '\t')
  | '\t' => some (.char '\t')
  | 'n' => some (.char '\n')
  | 'v' => some (.char (Char.ofNat 11))
  | 'f' => some (.char (Char.ofNat 12))
  | 'r' => some (.char '\r')
  | 'e' => some (.char (Char.ofNat 27))
  | ' ' => some (.char ' ')
  | '"' => some (.char '"')
  | '\'' => some (.char '\'')
  | '\\' => some (.char '\\')
  | 'N' => some (.char (Char.ofNat 0x85))
  | '_' => some (.char (Char.ofNat 0xA0))
  | 'L' => some (.char (Char.ofNat 0x2028))
  | 'P' => some (.char (Char.ofNat 0x2029))
  | 'x' => some (.code 2)
  | 'u' => some (.code 4)
  | 'U' => some (.code 8)
  | _ => none

/-- Reads the escape that `c` starts behind a backslash. -/
def escaped? (c : Char) (cursor : Cursor) : Option (Char × Cursor) := do
  match ← escape? c with
  | .char c => return (c, cursor.skipMany 2)
  | .code width =>
    let digits ← (cursor.skipMany 2).need width
    return (← charOf? (← hexNumber? width 0 digits.ready), digits.skipMany width)

/-- Reads a word in single quotes; two quotes in a row stand for one. -/
def singleWord? : Nat → Cursor → Option (List Char × Cursor)
  | 0, _ => none
  | fuel + 1, cursor =>
    match cursor.ready with
    | [] => some ([], cursor)
    | c :: rest =>
      if isBlank c || isBreak c then some ([], cursor)
      else if c = '\'' && rest.head? ≠ some '\'' then some ([], cursor)
      else do
        let (more, after) ←
          singleWord? fuel (← (cursor.skipMany (if c = '\'' then 2 else 1)).need 2)
        return (c :: more, after)

/-- Reads a word in double quotes.  The result also tells whether it ended at a line break behind a
backslash, which is passed then. -/
def doubleWord? : Nat → Cursor → Option (List Char × Bool × Cursor)
  | 0, _ => none
  | fuel + 1, cursor =>
    match cursor.ready with
    | [] => some ([], false, cursor)
    | c :: rest =>
      if isBlank c || isBreak c || c = '"' then some ([], false, cursor)
      else if c = '\\' then do
        let letter ← rest.head?
        if isBreak letter then
          let cursor ← cursor.need 3
          return ([], true, cursor.skip.skipBreak)
        else
          let (d, cursor) ← escaped? letter cursor
          let (more, joined, after) ← doubleWord? fuel (← cursor.need 2)
          return (d :: more, joined, after)
      else do
        let (more, joined, after) ← doubleWord? fuel (← cursor.skip.need 2)
        return (c :: more, joined, after)

/-- Reads a word in quotes with `singleWord?` or `doubleWord?`. -/
def quotedWord? (single : Bool) (fuel : Nat) (cursor : Cursor) :
    Option (List Char × Bool × Cursor) :=
  if single then (singleWord? fuel cursor).map fun (word, after) => (word, false, after)
  else doubleWord? fuel cursor

/-- The sign of a kind of quotes: a single one if `single` holds. -/
def quoteSign (single : Bool) : Char := if single then '\'' else '"'

/-- Reads on in quotes up to the closing `quoteSign`.  Behind a line break that a backslash hides,
all line breaks are kept. -/
def quotedWords? (single : Bool) : Nat → Cursor → Option (List Char × Cursor)
  | 0, _ => none
  | fuel + 1, cursor => do
    let cursor ← cursor.need 4
    if cursor.atMarker || cursor.ready.isEmpty then none
    else
      let (word, joined, cursor) ← quotedWord? single fuel cursor
      let cursor ← cursor.need 1
      if cursor.sees (quoteSign single) then return (word, cursor.skip)
      else
        let (gap, cursor) ← gap? 0 fuel joined cursor
        let (more, after) ← quotedWords? single fuel cursor
        return (word ++ (if joined then gap.breaks else gap.folded) ++ more, after)

/-- Reads a scalar in quotes, whose opening `quoteSign` is at the cursor. -/
def quoted? (fuel : Nat) (single : Bool) (cursor : Cursor) : Option (List Char × Cursor) :=
  quotedWords? single fuel cursor.skip

/-! ### Block scalars -/

/-- What to do with the line breaks at the end of a block scalar. -/
inductive Chomping
  /-- Keep one. -/
  | clip
  /-- Keep none. -/
  | strip
  /-- Keep all. -/
  | keep
  deriving DecidableEq, Repr

/-- Reads the sign for the line breaks at the end, which is `Chomping.clip` if it is left out. -/
def chomping? (cursor : Cursor) : Option (Chomping × Cursor) :=
  if cursor.sees '+' then (cursor.skip.need 1).map fun after => (.keep, after)
  else if cursor.sees '-' then (cursor.skip.need 1).map fun after => (.strip, after)
  else some (.clip, cursor)

/-- Reads the digit for the indentation, which is not `0`; the result is zero if it is left out. -/
def indentation? (cursor : Cursor) : Option (Nat × Cursor) :=
  match cursor.ready with
  | c :: _ =>
    if c.isDigit then
      if c = '0' then none
      else (cursor.skip.need 1).map fun after => (c.toNat - 48, after)
    else some (0, cursor)
  | [] => some (0, cursor)

/-- Reads the signs behind the bar or the angle of a block scalar, in either order. -/
def blockHeader? (cursor : Cursor) : Option (Chomping × Nat × Cursor) := do
  let (chomping, cursor) ← chomping? cursor
  let (given, cursor) ← indentation? cursor
  if chomping = .clip && given ≠ 0 then
    let (chomping, cursor) ← chomping? cursor
    return (chomping, given, cursor)
  else return (chomping, given, cursor)

/-- The empty lines in front, up to `indent` columns of spaces behind them, and the widest line
among them.  With `indent` zero all spaces are passed. -/
structure Margin where
  /-- What the line breaks read as. -/
  breaks : List Char
  /-- The most columns that were reached. -/
  widest : Nat
  /-- The place behind. -/
  after : Cursor
  deriving DecidableEq, Repr

/-- The place behind the spaces in front, up to the column `indent` if that is not zero. -/
def skipIndent (indent : Nat) : Nat → Cursor → Option Cursor
  | 0, _ => none
  | fuel + 1, cursor =>
    if (indent = 0 || cursor.column < indent) && cursor.sees ' ' then do
      skipIndent indent fuel (← cursor.skip.need 1)
    else some cursor

/-- Reads the margin of a block scalar.  A tab in it is an error. -/
def margin? (indent : Nat) : Nat → Cursor → Option Margin
  | 0, _ => none
  | fuel + 1, cursor => do
    let cursor ← skipIndent indent fuel (← cursor.need 1)
    if (indent = 0 || cursor.column < indent) && cursor.sees '\t' then none
    else
      match cursor.ready.head? with
      | none => return ⟨[], cursor.column, cursor⟩
      | some c =>
        if isBreak c then
          let more ← margin? indent fuel (← cursor.need 2).skipBreak
          return ⟨breakText c :: more.breaks, max cursor.column more.widest, more.after⟩
        else return ⟨[], cursor.column, cursor⟩

/-- What was read of a block scalar. -/
structure Block where
  /-- The lines. -/
  text : List Char
  /-- What the line break behind the last line reads as. -/
  last : List Char
  /-- What the line breaks of the empty lines behind it read as. -/
  empty : List Char
  /-- The place behind. -/
  after : Cursor
  deriving DecidableEq, Repr

/-- What stands between two lines of a block scalar: the line break `last` behind the first, and
the empty lines.  If `fold` holds the line break reads as a space or as nothing. -/
def betweenLines (fold : Bool) (last empty : List Char) : List Char :=
  if fold && last.head? = some '\n' then
    (if empty.isEmpty then [' '] else []) ++ empty
  else last ++ empty

/-- Reads the lines of a block scalar that are indented to `indent`, behind a line that ends in
`last` and empty lines that read as `empty`.  If `foldable` holds, that line and the next can be
joined. -/
def blockLines? (literal : Bool) (indent : Nat) :
    Nat → Bool → List Char → List Char → Cursor → Option Block
  | 0, _, _, _, _ => none
  | fuel + 1, foldable, last, empty, cursor =>
    match cursor.ready with
    | [] => some ⟨[], last, empty, cursor⟩
    | c :: _ =>
      if cursor.column ≠ indent then some ⟨[], last, empty, cursor⟩
      else do
        let blank := isBlank c
        let between := betweenLines (!literal && foldable && !blank) last empty
        let (line, cursor) ← cursor.takeWhile (fun c => !isBreak c) fuel
        let cursor ← cursor.need 2
        let last := (cursor.ready.head?.map breakText).toList
        let margin ← margin? indent fuel cursor.skipBreak
        let more ← blockLines? literal indent fuel (!blank) last margin.breaks margin.after
        return { more with text := between ++ line ++ more.text }

/-- Reads a block scalar whose sign stands at the cursor, inside a block with the indentation
`parent`. -/
def blockScalar? (fuel : Nat) (literal : Bool) (parent : Int) (cursor : Cursor) :
    Option (List Char × Cursor) := do
  let (chomping, given, cursor) ← blockHeader? (← cursor.skip.need 1)
  let cursor ← cursor.dropWhile isBlank fuel
  let cursor ← if cursor.sees '#' then cursor.skipLine fuel else some cursor
  if !endsLine cursor.ready.head? then none
  else
    let cursor ← if cursor.seesBreak then (cursor.need 2).map Cursor.skipBreak else some cursor
    let given := if given = 0 then 0 else if 0 ≤ parent then parent.toNat + given else given
    let margin ← margin? given fuel cursor
    let indent := if given = 0 then max (max margin.widest (parent + 1).toNat) 1 else given
    let block ←
      blockLines? literal indent fuel true [] margin.breaks (← margin.after.need 1)
    let ending := match chomping with
      | .strip => []
      | .clip => block.last
      | .keep => block.last ++ block.empty
    return (block.text ++ ending, block.after)

end TreeWalk.Yaml
