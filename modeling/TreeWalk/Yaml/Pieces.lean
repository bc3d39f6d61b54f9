import TreeWalk.Text.Utf8

/-!
# YAML text in pieces

A YAML text is read a piece of 512 bytes at a time, and only as far as someone asks for it.  A
piece that cannot be read spoils the text only when it is reached.  Two marks at the very start of
a text say that its characters take two bytes each, and a third one says nothing at all.

## Main definitions

* `Yaml.isAllowed` — the characters that a YAML text may hold.
* `Yaml.Encoding` — how characters are written as bytes.
* `Yaml.Pieces`, `Yaml.Pieces.ofBytes` — the pieces of a text.
-/

namespace TreeWalk.Yaml

/-- Whether a character may occur in a YAML text at all. -/
def isAllowed (c : Char) : Bool :=
  let n := c.toNat
  n = 0x09 || n = 0x0A || n = 0x0D || (0x20 ≤ n && n ≤ 0x7E) || n = 0x85
    || (0xA0 ≤ n && n ≤ 0xFFFD) || 0x10000 ≤ n

/-- How the characters of a text are written as bytes. -/
inductive Encoding
  /-- In one to four bytes. -/
  | utf8
  /-- In two or four bytes, the high byte of a pair in front if `bigEndian` holds. -/
  | utf16 (bigEndian : Bool)
  deriving DecidableEq, Repr

/-- The number that a pair of bytes stands for, the high one in front if `bigEndian` holds. -/
def wordOf (bigEndian : Bool) (a b : UInt8) : Nat :=
  if bigEndian then a.toNat * 256 + b.toNat else b.toNat * 256 + a.toNat

/-- The first character of a text in `Encoding.utf16`. -/
def firstWide (bigEndian : Bool) : Bytes → Utf8.First
  | a :: b :: rest =>
    let high := wordOf bigEndian a b
    if 0xD800 ≤ high && high < 0xDC00 then
      match rest with
      | c :: d :: rest =>
        let low := wordOf bigEndian c d
        if 0xDC00 ≤ low && low < 0xE000 then
          .of (Utf8.char? 0 (0x10000 + (high - 0xD800) * 1024 + (low - 0xDC00))) rest
        else .bad
      | _ => .cut
    else .of (Utf8.char? 0 high) rest
  | _ => .cut

/-- Reads at most `count` characters of two or four bytes each, up to where the text ends or breaks
off. -/
def readWide (bigEndian : Bool) : Nat → Bytes → Option (List Char × Bytes)
  | 0, text => some ([], text)
  | count + 1, text =>
    match firstWide bigEndian text with
    | .char c rest => (readWide bigEndian count rest).map fun (more, left) => (c :: more, left)
    | .cut => some ([], text)
    | .bad => none

/-- The characters of `piece` and the bytes that are left at its end, if the piece can be read and
holds only characters with `isAllowed`. -/
def Encoding.read (encoding : Encoding) (piece : Bytes) : Option (List Char × Bytes) := do
  let (chars, left) ← match encoding with
    | .utf8 => Utf8.read piece.length piece
    | .utf16 bigEndian => readWide bigEndian piece.length piece
  if chars.all isAllowed then some (chars, left) else none

/-- The `Encoding` of a text, and the number of bytes of the mark that says so. -/
def Encoding.ofText : Bytes → Encoding × Nat
  | 0xFF :: 0xFE :: _ => (.utf16 false, 2)
  | 0xFE :: 0xFF :: _ => (.utf16 true, 2)
  | 0xEF :: 0xBB :: 0xBF :: _ => (.utf8, 3)
  | _ => (.utf8, 0)

/-- The number of bytes that are read at a time. -/
def pieceSize : Nat := 512

/-- A text in pieces. -/
structure Pieces where
  /-- The pieces that can be read. -/
  pieces : List (List Char)
  /-- Whether the text ends behind them; otherwise something follows that cannot be read. -/
  whole : Bool
  deriving DecidableEq, Repr

namespace Pieces

/-- The pieces of a text, `left` being bytes of a character that the piece before broke off. -/
def cut (encoding : Encoding) : Nat → Bytes → Bytes → Pieces
  | 0, _, _ => ⟨[], true⟩
  | count + 1, left, text =>
    let room := pieceSize - left.length
    match encoding.read (left ++ text.take room) with
    | none => ⟨[], false⟩
    | some (chars, left) =>
      let rest := text.drop room
      if rest.isEmpty then ⟨[chars], left.isEmpty⟩
      else
        let more := cut encoding count left rest
        { more with pieces := chars :: more.pieces }

/-- The pieces of a text.  The mark in front of it counts for the size of the first one. -/
def ofBytes (text : Bytes) : Pieces :=
  let (encoding, mark) := Encoding.ofText text
  let rest := text.drop pieceSize
  match encoding.read ((text.take pieceSize).drop mark) with
  | none => ⟨[], false⟩
  | some (chars, left) =>
    if rest.isEmpty then ⟨[chars], left.isEmpty⟩
    else
      let more := cut encoding (text.length + 1) left rest
      { more with pieces := chars :: more.pieces }

/-- The number of characters. -/
def size (text : Pieces) : Nat := text.pieces.flatten.length

end Pieces

end TreeWalk.Yaml
