import TreeWalk.Text.Bytes

/-!
# Positions

A position names a file, a line and a column.  Columns count bytes; a line feed starts the next
line at column one.  Counting has no end, but lines and columns are shown as signed words of
64 bits.

## Main definitions

* `Position.start` — the first position of a file.
* `Position.advance`, `Position.advanceOver` — the position after a byte, and after a text.
* `Position.shownLine`, `Position.shownColumn` — the line and the column as they are shown.
* `Position.text` — the position as it stands in messages.
-/

namespace TreeWalk

/-- The signed word of 64 bits that stands for `n`. -/
def signedWord (n : Int) : Int := n.bmod 18446744073709551616

/-- A place in a file. -/
structure Position where
  /-- The name of the file as messages show it. -/
  file : Bytes
  /-- The line, the first one being line one. -/
  line : Int
  /-- The byte column, the first one being column one. -/
  column : Int
  deriving DecidableEq, Repr, Inhabited

namespace Position

/-- The first position of a file. -/
def start (file : Bytes) : Position := ⟨file, 1, 1⟩

/-- The position after the byte `b`: a line feed starts a line, and any other byte takes a
column. -/
def advance (pos : Position) (b : UInt8) : Position :=
  if b = ascii '\n' then { pos with line := pos.line + 1, column := 1 }
  else { pos with column := pos.column + 1 }

/-- The position after `text`, byte by byte with `advance`. -/
def advanceOver (pos : Position) (text : Bytes) : Position :=
  text.foldl advance pos

@[simp] theorem advanceOver_nil (pos : Position) : pos.advanceOver [] = pos := rfl

@[simp] theorem advanceOver_cons (pos : Position) (b : UInt8) (text : Bytes) :
    pos.advanceOver (b :: text) = (pos.advance b).advanceOver text := rfl

theorem advanceOver_append (pos : Position) (first second : Bytes) :
    pos.advanceOver (first ++ second) = (pos.advanceOver first).advanceOver second := by
  simp [advanceOver]

/-- The line as it is shown, which is the `signedWord` that a counter of 64 bits would hold. -/
def shownLine (pos : Position) : Int := signedWord pos.line

/-- The column as it is shown, which is the `signedWord` that a counter of 64 bits would hold. -/
def shownColumn (pos : Position) : Int := signedWord pos.column

/-- The position in messages: `file:line:column`. -/
def text (pos : Position) : Bytes :=
  pos.file ++ utf8 ":" ++ Bytes.ofInt pos.shownLine ++ utf8 ":" ++ Bytes.ofInt pos.shownColumn

end Position

end TreeWalk
