import TreeWalk.Token.Basic

/-!
# Scanning

A cursor holds the bytes of a program text that are still to be read and the position of the
first of them.  Reading skips blanks and takes the longest token that starts there.  A NUL byte
ends the input just as its end does, except right behind a backslash in a quoted text: there it is
taken with the backslash, and what follows it is read on.

What one token takes from the text is a `Reading`: the bytes taken (`raw`) and the bytes left
(`rest`) always make up the bytes before (`read_raw_append_rest`), and at least one byte is
taken, which is why scanning ends.

## Main definitions

* `Reading.read` — the token at the start of a text.
* `Cursor.next?` — the next token of a cursor, `none` at the end of the input.
* `Cursor.next` — the same, with an end token at the end of the input.
* `Cursor.tokens`, `Cursor.finish` — all tokens before the end, and the cursor there.
* `Cursor.tokenize` — all tokens with the end token, and the cursor there.
-/

namespace TreeWalk

/-- Whether a byte separates tokens: space, tab, carriage return or line feed. -/
def isBlank (b : UInt8) : Bool :=
  b = ascii ' ' || b = ascii '\t' || b = ascii '\r' || b = ascii '\n'

/-- Whether a byte can start a name. -/
def isLetter (b : UInt8) : Bool :=
  (ascii 'a' ≤ b && b ≤ ascii 'z') || (ascii 'A' ≤ b && b ≤ ascii 'Z') || b = ascii '_'

/-- Whether a byte is a decimal digit. -/
def isDigit (b : UInt8) : Bool :=
  ascii '0' ≤ b && b ≤ ascii '9'

/-- Whether a byte can continue a name: `isLetter` or `isDigit`. -/
def isNameByte (b : UInt8) : Bool :=
  isLetter b || isDigit b

/-- The byte that the letter `b` after a backslash stands for. -/
def escape? (b : UInt8) : Option UInt8 :=
  if b = ascii 'n' then some (ascii '\n')
  else if b = ascii 't' then some (ascii '\t')
  else if b = ascii '\\' then some (ascii '\\')
  else if b = ascii '"' then some (ascii '"')
  else none

/-- How the content of a quoted text ends. -/
inductive QuoteEnd
  /-- With the closing quote. -/
  | closed
  /-- With the end of the input. -/
  | unclosed
  /-- With a backslash that starts no escape; `byte` stands after it, or NUL at the end. -/
  | badEscape (byte : UInt8)
  deriving DecidableEq, Repr

/-- The content of a quoted text after its opening quote. -/
structure Quoted where
  /-- The content with its escapes resolved. -/
  content : Bytes
  /-- How it ends. -/
  ending : QuoteEnd
  /-- The bytes taken. -/
  raw : Bytes
  /-- The bytes left. -/
  rest : Bytes
  deriving DecidableEq, Repr

/-- The quoted text with the byte `content` and the bytes `raw` taken in front. -/
def Quoted.push (quoted : Quoted) (content : UInt8) (raw : Bytes) : Quoted :=
  { quoted with content := content :: quoted.content, raw := raw ++ quoted.raw }

/-- Reads the content of a quoted text after its opening quote, up to one of the ways in which a
`QuoteEnd` ends it. -/
def Quoted.read : Bytes → Quoted
  | [] => ⟨[], .unclosed, [], []⟩
  | b :: rest =>
    if b = 0 then ⟨[], .unclosed, [], b :: rest⟩
    else if b = ascii '"' then ⟨[], .closed, [b], rest⟩
    else if b = ascii '\\' then
      match rest with
      | [] => ⟨[], .badEscape 0, [b], []⟩
      | e :: rest =>
        match escape? e with
        | some content => (Quoted.read rest).push content [b, e]
        | none => ⟨[], .badEscape e, [b, e], rest⟩
    else (Quoted.read rest).push b [b]

/-- What one token takes from a text. -/
structure Reading where
  /-- The kind of the token. -/
  kind : Kind
  /-- The text of the token. -/
  lexeme : Bytes
  /-- The bytes taken. -/
  raw : Bytes
  /-- The bytes left. -/
  rest : Bytes
  deriving DecidableEq, Repr

namespace Reading

/-- A token of the given `kind` whose text is the bytes it takes. -/
def plain (kind : Kind) (raw rest : Bytes) : Reading := ⟨kind, raw, raw, rest⟩

/-- The quoted text whose opening quote was `quote`.  A text that does not end, or that holds a
bad escape, is illegal; the text of a bad escape is the backslash and the character whose code is
the byte after it. -/
def ofQuoted (quote : UInt8) (quoted : Quoted) : Reading :=
  match quoted.ending with
  | .closed => ⟨.string, quoted.content, quote :: quoted.raw, quoted.rest⟩
  | .unclosed => ⟨.illegal, quote :: quoted.content, quote :: quoted.raw, quoted.rest⟩
  | .badEscape byte =>
    ⟨.illegal, ascii '\\' :: String.utf8EncodeChar (Char.ofNat byte.toNat),
      quote :: quoted.raw, quoted.rest⟩

/-- A sign that grows by a following `=`: of the kind `long` with it, of the kind `short`
without. -/
def beforeEqual (short long : Kind) (b : UInt8) (rest : Bytes) : Reading :=
  match rest with
  | e :: rest' => if e = ascii '=' then plain long [b, e] rest' else plain short [b] rest
  | [] => plain short [b] rest

/-- The token of a text that starts with `b`, which is neither a blank nor NUL. -/
def read (b : UInt8) (rest : Bytes) : Reading :=
  match Kind.sign? b with
  | some kind => plain kind [b] rest
  | none =>
    if b = ascii '"' then ofQuoted b (Quoted.read rest)
    else if b = ascii '!' then beforeEqual .bang .bangEqual b rest
    else if b = ascii '=' then beforeEqual .equal .equalEqual b rest
    else if isLetter b then
      let word := b :: rest.takeWhile isNameByte
      plain ((Kind.keyword? word).getD .ident) word (rest.dropWhile isNameByte)
    else if isDigit b then
      plain .int (b :: rest.takeWhile isDigit) (rest.dropWhile isDigit)
    else plain .illegal [b] rest

end Reading

theorem Quoted.raw_append_rest (text : Bytes) :
    (Quoted.read text).raw ++ (Quoted.read text).rest = text := by
  fun_induction Quoted.read text <;> simp_all [Quoted.push]

namespace Reading

theorem ofQuoted_raw_append_rest (quote : UInt8) (quoted : Quoted) :
    (ofQuoted quote quoted).raw ++ (ofQuoted quote quoted).rest
      = quote :: (quoted.raw ++ quoted.rest) := by
  rw [ofQuoted]
  split <;> rfl

theorem beforeEqual_raw_append_rest (short long : Kind) (b : UInt8) (rest : Bytes) :
    (beforeEqual short long b rest).raw ++ (beforeEqual short long b rest).rest = b :: rest := by
  unfold beforeEqual
  repeat' split
  all_goals rfl

/-- The bytes that `read` takes and the bytes it leaves make up the text. -/
theorem read_raw_append_rest (b : UInt8) (rest : Bytes) :
    (read b rest).raw ++ (read b rest).rest = b :: rest := by
  rw [read]
  split
  · rfl
  · split
    · rw [ofQuoted_raw_append_rest, Quoted.raw_append_rest]
    · repeat' split
      all_goals simp [plain, beforeEqual_raw_append_rest, List.takeWhile_append_dropWhile]

/-- A token that `read` finds takes its first byte. -/
theorem read_raw_ne_nil (b : UInt8) (rest : Bytes) : (read b rest).raw ≠ [] := by
  simp only [read, ofQuoted, beforeEqual, plain]
  repeat' split
  all_goals simp

/-- A token that `read` finds leaves fewer bytes than there were, which is why `Cursor.scan`
ends. -/
theorem length_read_rest_lt (b : UInt8) (rest : Bytes) :
    (read b rest).rest.length < (b :: rest).length := by
  have split := congrArg List.length (read_raw_append_rest b rest)
  have taken := List.length_pos_iff.2 (read_raw_ne_nil b rest)
  simp only [List.length_append] at split
  omega

end Reading

/-- A place in a program text: the bytes still to be read and the position of the first. -/
structure Cursor where
  /-- The bytes still to be read. -/
  rest : Bytes
  /-- The position of the first of them. -/
  pos : Position
  deriving DecidableEq, Repr

namespace Cursor

/-- The start of a program `text` in the given `file`. -/
def start (file : Bytes) (text : Bytes) : Cursor := ⟨text, .start file⟩

/-- The start of a program `text` whose file has the given `name`, or is called `missing` if that is
empty. -/
def startOr (missing name text : Bytes) : Cursor := start (if name = [] then missing else name) text

/-- The cursor after the bytes with `isBlank` it stands on. -/
def skipBlanks (cursor : Cursor) : Cursor :=
  ⟨cursor.rest.dropWhile isBlank, cursor.pos.advanceOver (cursor.rest.takeWhile isBlank)⟩

/-- The token at the cursor and the cursor behind it, or `none` at the end of the input. -/
def next? (cursor : Cursor) : Option (Token × Cursor) :=
  let here := cursor.skipBlanks
  match here.rest with
  | [] => none
  | b :: rest =>
    if b = 0 then none
    else
      let reading := Reading.read b rest
      some (⟨reading.kind, reading.lexeme, here.pos⟩,
        ⟨reading.rest, here.pos.advanceOver reading.raw⟩)

/-- The end token of a cursor that stands at the end of the input, blanks apart. -/
def endToken (cursor : Cursor) : Token :=
  ⟨.eof, [], cursor.skipBlanks.pos⟩

/-- The next token and the cursor behind it.  At the end of the input this is `endToken`, and it is
that again however often it is asked for. -/
def next (cursor : Cursor) : Token × Cursor :=
  cursor.next?.getD (cursor.endToken, cursor.skipBlanks)

theorem length_next?_lt {cursor after : Cursor} {token : Token}
    (h : cursor.next? = some (token, after)) : after.rest.length < cursor.rest.length := by
  have skipped : cursor.skipBlanks.rest.length ≤ cursor.rest.length :=
    (List.dropWhile_suffix isBlank).length_le
  rw [next?] at h
  split at h
  · simp at h
  · rename_i b rest here
    split at h
    · simp at h
    · simp only [Option.some.injEq, Prod.mk.injEq] at h
      obtain ⟨-, rfl⟩ := h
      have taken := Reading.length_read_rest_lt b rest
      rw [here] at skipped
      simp only at *
      omega

/-- The tokens from a cursor to the end of the input, one after the other with `next?` and without
the end token, and the cursor at the end. -/
def scan (cursor : Cursor) : List Token × Cursor :=
  match h : cursor.next? with
  | none => ([], cursor.skipBlanks)
  | some (token, after) =>
    have := length_next?_lt h
    let (tokens, finish) := after.scan
    (token :: tokens, finish)
termination_by cursor.rest.length

/-- The tokens from a cursor to the end of the input, without the end token. -/
def tokens (cursor : Cursor) : List Token := cursor.scan.1

/-- The cursor at the end of the input. -/
def finish (cursor : Cursor) : Cursor := cursor.scan.2

/-- The tokens from a cursor to the end of the input, the end token last. -/
def allTokens (cursor : Cursor) : List Token :=
  cursor.tokens ++ [cursor.finish.endToken]

/-- The tokens from a cursor to the end of the input, the end token last, and the cursor there. -/
def tokenize (cursor : Cursor) : List Token × Cursor := (cursor.allTokens, cursor.finish)

end Cursor

end TreeWalk
