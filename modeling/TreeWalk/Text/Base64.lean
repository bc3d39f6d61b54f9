import TreeWalk.Text.Bytes

/-!
# Base 64

Bytes written with sixty-four letters: three bytes make four letters, and equals signs fill up the
last four.  Line breaks between letters do not count.

## Main definitions

* `Base64.encode` — bytes as letters.
* `Base64.decode?` — the bytes that letters stand for.
-/

namespace TreeWalk.Base64

/-- The letter for a number `n` below sixty-four. -/
def letter (n : Nat) : UInt8 :=
  if n < 26 then (65 + n).toUInt8
  else if n < 52 then (71 + n).toUInt8
  else if n < 62 then (n - 4).toUInt8
  else if n = 62 then ascii '+'
  else ascii '/'

/-- The number that a letter stands for. -/
def value? (b : UInt8) : Option Nat :=
  let n := b.toNat
  if 65 ≤ n && n ≤ 90 then some (n - 65)
  else if 97 ≤ n && n ≤ 122 then some (n - 71)
  else if 48 ≤ n && n ≤ 57 then some (n + 4)
  else if b = ascii '+' then some 62
  else if b = ascii '/' then some 63
  else none

/-- The sign that fills up the last four letters. -/
def filler : UInt8 := ascii '='

/-- Bytes as letters, four for every three bytes, the last four filled up with `filler`. -/
def encode : Bytes → Bytes
  | [] => []
  | [a] =>
    [letter (a.toNat / 4), letter (a.toNat % 4 * 16), filler, filler]
  | [a, b] =>
    [letter (a.toNat / 4), letter (a.toNat % 4 * 16 + b.toNat / 16), letter (b.toNat % 16 * 4),
      filler]
  | a :: b :: c :: rest =>
    letter (a.toNat / 4) :: letter (a.toNat % 4 * 16 + b.toNat / 16)
      :: letter (b.toNat % 16 * 4 + c.toNat / 64) :: letter (c.toNat % 64) :: encode rest

/-- The bytes that letters without line breaks stand for.  What the last letter holds beyond whole
bytes is dropped. -/
def decodeLetters? : Bytes → Option Bytes
  | [] => some []
  | a :: b :: c :: d :: rest => do
    let a ← value? a
    let b ← value? b
    let first := (a * 4 + b / 16).toUInt8
    if c = filler && d = filler && rest.isEmpty then return [first]
    else
      let c ← value? c
      let second := (b % 16 * 16 + c / 4).toUInt8
      if d = filler && rest.isEmpty then return [first, second]
      else
        let d ← value? d
        let more ← decodeLetters? rest
        return first :: second :: (c % 4 * 64 + d).toUInt8 :: more
  | _ => none

/-- The bytes that letters stand for; line breaks among the letters are left out. -/
def decode? (text : Bytes) : Option Bytes :=
  decodeLetters? (text.filter fun b => b ≠ ascii '\n' && b ≠ ascii '\r')

end TreeWalk.Base64
