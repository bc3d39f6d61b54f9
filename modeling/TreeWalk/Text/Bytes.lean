/-!
# Byte text

The language reads and writes bytes: a program may hold any byte, columns count bytes, and a
string value is a run of bytes that need not be valid UTF-8.  Text is therefore a list of bytes,
and the fixed wording of messages enters it through `utf8`.

## Main definitions

* `Bytes` — text as a list of bytes.
* `utf8` — the bytes of a literal.
* `Bytes.ofInt` — a whole number in decimal.
* `Bytes.join` — pieces with a separator between them.
* `Bytes.linesAfter` — the lines of a text, each with the line feed that ends it.
-/

namespace TreeWalk

/-- Text as the language sees it: a list of bytes. -/
abbrev Bytes := List UInt8

/-- The UTF-8 bytes of a string. -/
def utf8 (s : String) : Bytes :=
  s.toList.flatMap String.utf8EncodeChar

/-- The byte of an ASCII character. -/
def ascii (c : Char) : UInt8 :=
  c.toNat.toUInt8

namespace Bytes

/-- A natural number in decimal. -/
def ofNat (n : Nat) : Bytes :=
  (Nat.toDigits 10 n).map ascii

/-- A whole number in decimal, with a minus sign when it is negative. -/
def ofInt : Int → Bytes
  | .ofNat n => ofNat n
  | .negSucc n => ascii '-' :: ofNat (n + 1)

/-- The pieces in order, with `separator` between neighbours. -/
def join (separator : Bytes) : List Bytes → Bytes
  | [] => []
  | [piece] => piece
  | piece :: more => piece ++ separator ++ join separator more

@[simp] theorem join_nil (separator : Bytes) : join separator [] = [] := rfl

@[simp] theorem join_singleton (separator piece : Bytes) : join separator [piece] = piece := rfl

@[simp] theorem join_cons_cons (separator piece next : Bytes) (more : List Bytes) :
    join separator (piece :: next :: more)
      = piece ++ separator ++ join separator (next :: more) := rfl

/-- The pieces of a text, cut after every line feed; a last piece without a line feed is kept and
an empty one is not. -/
def linesAfter : Bytes → List Bytes
  | [] => []
  | b :: rest =>
    if b = ascii '\n' then [b] :: linesAfter rest
    else match linesAfter rest with
      | [] => [[b]]
      | line :: more => (b :: line) :: more

/-- Cutting with `linesAfter` loses nothing. -/
theorem flatten_linesAfter (text : Bytes) : (linesAfter text).flatten = text := by
  induction text with
  | nil => rfl
  | cons b rest ih =>
    rw [linesAfter]
    split
    · simp [ih]
    · split
      · rename_i h
        rw [h] at ih
        simp_all
      · rename_i h
        rw [h] at ih
        simp_all

/-- Whether a text comes before another in byte order, or is the same. -/
def le : Bytes → Bytes → Bool
  | [], _ => true
  | _ :: _, [] => false
  | a :: as, b :: bs => a < b || (a == b && le as bs)

end Bytes

end TreeWalk
