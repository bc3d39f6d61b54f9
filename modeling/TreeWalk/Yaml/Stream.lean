import TreeWalk.Yaml.Scalar
import TreeWalk.Yaml.Token

/-!
# The tokens of a YAML text

Tokens are read as they are asked for, and always a few more than are needed.  What follows a
document is therefore looked at, but only a little way.

A scalar or a bracket may turn out to start a key when a colon follows, so its place is remembered
as long as that is possible: on the same line and at most 1024 characters further.  Its token is
held back as long, except that of an empty pair of brackets.  Where a key is the only thing that can
stand, it must turn out to be one.

## Main definitions

* `Yaml.PossibleKey`, `Yaml.Level` — a place where a key may have started.
* `Yaml.Stream` — the tokens that were read and the place behind them.
* `Yaml.Stream.fetch` — reads another token.
* `Yaml.Stream.fill` — reads as many tokens as are due.
-/

namespace TreeWalk.Yaml

/-- A place where a key may have started. -/
structure PossibleKey where
  /-- The number of the token that starts there, the first one being number zero. -/
  number : Nat
  /-- Whether nothing but a key can start there. -/
  required : Bool
  /-- The number of characters in front of it. -/
  index : Nat
  /-- Its line. -/
  line : Nat
  /-- Its column. -/
  column : Nat
  /-- Whether its token is held back until it is known whether it is a key. -/
  awaited : Bool
  deriving DecidableEq, Repr

/-- The keys inside an open bracket. -/
structure Level where
  /-- The place where a key may have started. -/
  key : Option PossibleKey
  /-- The number of the last token that may have started a key, and that of the bracket if there was
  none. -/
  last : Nat
  deriving DecidableEq, Repr

/-- Whether it is too late for a colon behind `key` when the text has been read up to `cursor`. -/
def PossibleKey.isStale (key : PossibleKey) (cursor : Cursor) : Bool :=
  key.line < cursor.line || key.index + 1024 < cursor.index

/-- The tokens that were read and the place behind them. -/
structure Stream where
  /-- The place behind the last token. -/
  cursor : Cursor
  /-- The tokens that were read and not taken yet. -/
  tokens : List Token
  /-- The number of tokens taken. -/
  taken : Nat
  /-- Whether a key can start here. -/
  keyAllowed : Bool
  /-- The number of brackets and braces that are open. -/
  flow : Nat
  /-- The column of the innermost block, minus one if there is none. -/
  indent : Int
  /-- The columns of the blocks around it, from the inside out. -/
  outer : List Int
  /-- The keys outside all brackets or inside the innermost one. -/
  level : Level
  /-- The keys around that bracket, from the inside out. -/
  around : List Level
  deriving DecidableEq, Repr

namespace Stream

/-- The start of a text. -/
def start (text : Pieces) : Stream := ⟨.start text, [], 0, true, 0, -1, [], ⟨none, 0⟩, []⟩

/-- How deep blocks and brackets can be nested; `openBlock` and `fetchOpen` give up there. -/
def deepest : Nat := 10000

/-- Moves on to the place `cursor`. -/
def moved (stream : Stream) (cursor : Cursor) : Stream := { stream with cursor := cursor }

/-- Adds a token with the given `sign` and `line`. -/
def push (stream : Stream) (sign : Sign) (line : Nat) : Stream :=
  { stream with tokens := stream.tokens ++ [⟨sign, line⟩] }

/-- Adds a token in front of the one with the given `number`, or behind all if that one was
taken. -/
def insert (stream : Stream) (number : Nat) (sign : Sign) (line : Nat) : Stream :=
  if number < stream.taken then stream.push sign line
  else
    let place := number - stream.taken
    { stream with
      tokens := stream.tokens.take place ++ ⟨sign, line⟩ :: stream.tokens.drop place }

/-- The number of the next token to be read, as `PossibleKey` counts them. -/
def next (stream : Stream) : Nat := stream.taken + stream.tokens.length

/-! ### Keys -/

/-- Forgets the place where a key may have started. -/
def forgetKey (stream : Stream) : Stream :=
  { stream with level := { stream.level with key := none } }

/-- Gives up the place where a key may have started.  There is no result if `PossibleKey.required`
holds for it. -/
def dropKey (stream : Stream) : Option Stream :=
  if stream.level.key.any PossibleKey.required then none else some stream.forgetKey

/-- Remembers that a key may start here, unless no key is allowed. -/
def saveKey (stream : Stream) : Option Stream :=
  if stream.keyAllowed then do
    let cursor := stream.cursor
    let required := stream.flow = 0 && stream.indent = cursor.column
    let stream ← stream.dropKey
    let key := ⟨stream.next, required, cursor.index, cursor.line, cursor.column, true⟩
    return { stream with level := ⟨some key, stream.next⟩ }
  else some stream

/-! ### Indentation -/

/-- Starts a block in the given `column`, unless one is there already or brackets are open.  Its
`sign` goes in front of the token with the given `number`. -/
def openBlock (stream : Stream) (column number : Nat) (sign : Sign) (line : Nat) :
    Option Stream :=
  if 0 < stream.flow || (column : Int) ≤ stream.indent then some stream
  else if deepest ≤ stream.outer.length then none
  else
    some { stream.insert number sign line with
      indent := column
      outer := stream.indent :: stream.outer }

/-- Ends the blocks that are further right than `column`, the innermost of them at `indent`. -/
def endBlocks (column : Int) (line : Nat) :
    Int → List Int → List Token × Int × List Int
  | indent, [] => ([], indent, [])
  | indent, around :: outer =>
    if column < indent then
      let (ends, indent, outer) := endBlocks column line around outer
      (⟨.blockEnd, line⟩ :: ends, indent, outer)
    else ([], indent, around :: outer)

/-- Ends the blocks that are further right than `column` with `endBlocks`, unless brackets are
open. -/
def closeBlocks (stream : Stream) (column : Int) (line : Nat) : Stream :=
  if 0 < stream.flow then stream
  else
    let (ends, indent, outer) := endBlocks column line stream.indent stream.outer
    { stream with tokens := stream.tokens ++ ends, indent := indent, outer := outer }

/-! ### Tokens -/

/-- Skips blanks, comments and line breaks.  Outside brackets a tab is no blank where a key can
start. -/
def toToken : Nat → Stream → Option Stream
  | 0, _ => none
  | fuel + 1, stream => do
    let cursor ← stream.cursor.need 1
    let cursor := if cursor.column = 0 && cursor.marked then cursor.skip else cursor
    let tabs := 0 < stream.flow || !stream.keyAllowed
    let cursor ← (← cursor.need 1).dropWhile (fun c => c = ' ' || (tabs && c = '\t')) fuel
    let cursor ← if cursor.sees '#' then cursor.skipComments fuel else some cursor
    if cursor.seesBreak then
      toToken fuel { stream with
        cursor := (← cursor.need 2).skipBreak
        keyAllowed := stream.keyAllowed || stream.flow = 0 }
    else return stream.moved cursor

/-- Reads the end of the text, which also ends its last line. -/
def fetchFinish (stream : Stream) : Option Stream := do
  let cursor := stream.cursor
  let cursor := if cursor.column = 0 then cursor
    else { cursor with line := cursor.line + 1, column := 0 }
  let stream ← ((stream.moved cursor).closeBlocks (-1) cursor.line).dropKey
  return { stream.push .finish cursor.line with keyAllowed := false }

/-- Reads a directive. -/
def fetchDirective (fuel : Nat) (stream : Stream) : Option Stream := do
  let line := stream.cursor.line
  let stream ← (stream.closeBlocks (-1) line).dropKey
  let (directive, after) ← directive? fuel stream.cursor
  return { (stream.moved after).push (.directive directive) line with keyAllowed := false }

/-- Reads a document marker, which ends all blocks; `sign` tells which one. -/
def fetchMarker (sign : Sign) (stream : Stream) : Option Stream := do
  let line := stream.cursor.line
  let stream ← (stream.closeBlocks (-1) line).dropKey
  return { (stream.moved (stream.cursor.skipMany 3)).push sign line with keyAllowed := false }

/-- Passes a `sign` of one character and adds its token. -/
def pass (stream : Stream) (sign : Sign) (keyAllowed : Bool) : Stream :=
  { (stream.moved stream.cursor.skip).push sign stream.cursor.line with
    keyAllowed := keyAllowed }

/-- Reads an opening bracket or brace, with which a key may start and which opens a `Level`. -/
def fetchOpen (sign : Sign) (stream : Stream) : Option Stream := do
  let stream ← stream.saveKey
  if deepest ≤ stream.flow then none
  else
    return { stream.pass sign true with
      flow := stream.flow + 1
      level := ⟨none, stream.next⟩
      around := stream.level :: stream.around }

/-- Reads a closing bracket or brace, which need not fit an open one.  Brackets in which no key
could start are not held back any longer. -/
def fetchClose (sign : Sign) (stream : Stream) : Option Stream := do
  let stream ← stream.dropKey
  let last := stream.level.last
  let stream := stream.pass sign false
  match stream.around with
  | [] => return stream
  | level :: around =>
    return { stream with
      flow := stream.flow - 1
      level := { level with
        key := level.key.map fun key =>
          { key with awaited := key.awaited && key.number ≠ last } }
      around := around }

/-- Reads a comma. -/
def fetchComma (stream : Stream) : Option Stream := do
  return (← stream.dropKey).pass .comma true

/-- Reads the dash of an item, which starts a sequence in its column if there is none. -/
def fetchItem (stream : Stream) : Option Stream := do
  let cursor := stream.cursor
  if stream.flow = 0 && !stream.keyAllowed then none
  else
    let stream ← stream.openBlock cursor.column stream.next .sequenceBlock cursor.line
    return (← stream.dropKey).pass .item true

/-- Reads the question mark of a key, which starts a mapping in its column if there is none. -/
def fetchKey (stream : Stream) : Option Stream := do
  let cursor := stream.cursor
  if stream.flow = 0 && !stream.keyAllowed then none
  else
    let stream ← stream.openBlock cursor.column stream.next .mappingBlock cursor.line
    return (← stream.dropKey).pass .key (stream.flow = 0)

/-- The innermost place where a key may have started.  There is no result if it is too late for a
key that had to be one. -/
def currentKey? (stream : Stream) : Option (Option PossibleKey) :=
  match stream.level.key with
  | none => some none
  | some key =>
    if key.isStale stream.cursor then if key.required then none else some none
    else some (some key)

/-- Reads the colon of a value.  If `currentKey?` gives a place where a key may have started, it
did. -/
def fetchValue (stream : Stream) : Option Stream := do
  let cursor := stream.cursor
  match ← stream.currentKey? with
  | some key =>
    let stream := stream.insert key.number .key key.line
    let stream ← stream.openBlock key.column key.number .mappingBlock key.line
    return (stream.pass .value false).forgetKey
  | none =>
    if stream.flow = 0 && !stream.keyAllowed then none
    else
      let stream ← stream.forgetKey.openBlock cursor.column stream.next .mappingBlock cursor.line
      return stream.pass .value (stream.flow = 0)

/-- Reads the name of a node, with which a key may start; `sign` tells whether it is given or
referred to. -/
def fetchName (fuel : Nat) (sign : String → Sign) (stream : Stream) : Option Stream := do
  let stream ← stream.saveKey
  let (name, after) ← name? fuel stream.cursor
  return { (stream.moved after).push (sign name) stream.cursor.line with keyAllowed := false }

/-- Reads a tag, with which a key may start. -/
def fetchTag (fuel : Nat) (stream : Stream) : Option Stream := do
  let stream ← stream.saveKey
  let (tag, after) ← tag? fuel stream.cursor
  return { (stream.moved after).push (.tag tag) stream.cursor.line with keyAllowed := false }

/-- Reads a block scalar with `blockScalar?`, which is no key. -/
def fetchBlock (fuel : Nat) (literal : Bool) (stream : Stream) : Option Stream := do
  let stream ← stream.dropKey
  let (text, after) ← blockScalar? fuel literal stream.indent stream.cursor
  return { (stream.moved after).push (.scalar .quoted (String.ofList text)) stream.cursor.line with
    keyAllowed := true }

/-- Reads a scalar in quotes with `quoted?`, which may be a key. -/
def fetchQuoted (fuel : Nat) (single : Bool) (stream : Stream) : Option Stream := do
  let stream ← stream.saveKey
  let (text, after) ← quoted? fuel single stream.cursor
  return { (stream.moved after).push (.scalar .quoted (String.ofList text)) stream.cursor.line with
    keyAllowed := false }

/-- Reads a plain scalar with `plain?`, which may be a key. -/
def fetchPlain (fuel : Nat) (stream : Stream) : Option Stream := do
  let stream ← stream.saveKey
  let scalar ← plain? fuel (0 < stream.flow) stream.indent stream.cursor
  return { (stream.moved scalar.after).push (.scalar .plain (String.ofList scalar.text))
      stream.cursor.line with
    keyAllowed := scalar.crossed }

/-- Reads the token that starts with the character `c`. -/
def fetchSign (fuel : Nat) (c : Char) (stream : Stream) : Option Stream :=
  let cursor := stream.cursor
  let flow := 0 < stream.flow
  if c = '[' then stream.fetchOpen .openSequence
  else if c = '\x7b' then stream.fetchOpen .openMapping
  else if c = ']' then stream.fetchClose .closeSequence
  else if c = '\x7d' then stream.fetchClose .closeMapping
  else if c = ',' then stream.fetchComma
  else if cursor.atIndicator '-' then stream.fetchItem
  else if c = '?' && (flow || cursor.atIndicator '?') then stream.fetchKey
  else if c = ':' && (flow || cursor.atIndicator ':') then stream.fetchValue
  else if c = '*' then stream.fetchName fuel .reference
  else if c = '&' then stream.fetchName fuel .anchor
  else if c = '!' then stream.fetchTag fuel
  else if c = '|' && !flow then stream.fetchBlock fuel true
  else if c = '>' && !flow then stream.fetchBlock fuel false
  else if c = '\'' then stream.fetchQuoted fuel true
  else if c = '"' then stream.fetchQuoted fuel false
  else if startsPlain flow cursor.ready then stream.fetchPlain fuel
  else none

/-- Reads another token with `fetchSign`, and the comment behind it on its line.  A comment behind a
dash belongs to what follows. -/
def fetch (fuel : Nat) (stream : Stream) : Option Stream := do
  let cursor ← stream.cursor.need 1
  let line := cursor.line
  let stream ← (stream.moved cursor).toToken fuel
  let stream := stream.closeBlocks stream.cursor.column line
  let cursor ← stream.cursor.need 4
  let stream := stream.moved cursor
  match cursor.ready.head? with
  | none => stream.fetchFinish
  | some c =>
    if cursor.column = 0 && c = '%' then stream.fetchDirective fuel
    else if cursor.atMarkerOf '-' then stream.fetchMarker .documentStart
    else if cursor.atMarkerOf '.' then stream.fetchMarker .documentEnd
    else
      let stream ← stream.fetchSign fuel c
      if cursor.atIndicator '-' then return stream
      else return stream.moved (← stream.cursor.lineComment fuel)

/-! ### Looking ahead -/

/-- The place at which a key may have started with the first token that was not taken, if that token
is held back. -/
def headKey? (stream : Stream) : Option PossibleKey :=
  (stream.level :: stream.around).findSome? fun level =>
    level.key.filter fun key => key.awaited && key.number = stream.taken

/-- Reads tokens with `fetch` until there are three, and until it is known whether the first is a
key. -/
def fill (fuel : Nat) : Nat → Stream → Option Stream
  | 0, _ => none
  | count + 1, stream =>
    if hasThree stream.tokens then
      match stream.headKey? with
      | none => some stream
      | some key =>
        if key.isStale stream.cursor then if key.required then none else some stream
        else do fill fuel count (← stream.fetch fuel)
    else do fill fuel count (← stream.fetch fuel)
where
  /-- Whether there are three tokens. -/
  hasThree : List Token → Bool
    | _ :: _ :: _ :: _ => true
    | _ => false

end Stream

end TreeWalk.Yaml
