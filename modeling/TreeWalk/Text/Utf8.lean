import TreeWalk.Text.Bytes

/-!
# UTF-8

Reading bytes as characters.  Overlong forms, surrogates and code points past the last one cannot
be read; bytes that break off inside a character may still be completed by more of them.

## Main definitions

* `Utf8.first` — the first character of a text.
* `Utf8.read` — the characters of a text up to where it breaks off, if it can be read so far.
* `Utf8.decode?` — the characters of a text, if it is valid.
-/

namespace TreeWalk.Utf8

/-- What stands at the start of a text. -/
inductive First
  /-- A character, and what follows it. -/
  | char (c : Char) (rest : Bytes)
  /-- Too few bytes for a character. -/
  | cut
  /-- Bytes that are no character. -/
  | bad

/-- The payload of a continuation byte. -/
def continuation? (b : UInt8) : Option Nat :=
  if b &&& 0xC0 = 0x80 then some (b &&& 0x3F).toNat else none

/-- The character with the code point `code`, if that is not below `least`, so that no fewer bytes
would have done for it. -/
def char? (least code : Nat) : Option Char :=
  if least ≤ code then
    if h : code.isValidChar then some (Char.ofNatAux code h) else none
  else none

/-- A character that was read, or bytes that are none. -/
def First.of (c : Option Char) (rest : Bytes) : First :=
  match c with
  | some c => .char c rest
  | none => .bad

/-- The first character of a text.  It is `First.cut` where the text ends inside a character, and
`First.bad` where no character has such bytes. -/
def first : Bytes → First
  | [] => .cut
  | a :: rest =>
    if a < 0x80 then .char (Char.ofNat a.toNat) rest
    else if a &&& 0xE0 = 0xC0 then
      match rest with
      | b :: rest =>
        .of (do char? 0x80 ((a &&& 0x1F).toNat * 64 + (← continuation? b))) rest
      | _ => .cut
    else if a &&& 0xF0 = 0xE0 then
      match rest with
      | b :: b' :: rest =>
        .of (do
          char? 0x800 (((a &&& 0x0F).toNat * 64 + (← continuation? b)) * 64
            + (← continuation? b'))) rest
      | _ => .cut
    else if a &&& 0xF8 = 0xF0 then
      match rest with
      | b :: b' :: b'' :: rest =>
        .of (do
          char? 0x10000 ((((a &&& 0x07).toNat * 64 + (← continuation? b)) * 64
            + (← continuation? b')) * 64 + (← continuation? b''))) rest
      | _ => .cut
    else .bad

/-- Reads at most `count` characters, up to the end of the text or to where it breaks off inside
one.  The result is the characters and the bytes that are left. -/
def read : Nat → Bytes → Option (List Char × Bytes)
  | 0, text => some ([], text)
  | count + 1, text =>
    match first text with
    | .char c rest => (read count rest).map fun (more, left) => (c :: more, left)
    | .cut => some ([], text)
    | .bad => none

/-- The characters of a text, or `none` when the text is not valid UTF-8. -/
def decode? (text : Bytes) : Option (List Char) :=
  match read text.length text with
  | some (chars, []) => some chars
  | _ => none

end TreeWalk.Utf8
