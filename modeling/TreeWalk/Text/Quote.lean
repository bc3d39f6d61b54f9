import TreeWalk.Text.Printable
import TreeWalk.Text.Utf8

/-!
# Quoted text

Text as messages quote it: in double quotes, with a backslash before quotes and backslashes, the
usual letters for common controls, and the code in hexadecimal for every other character that is
not printable and for every byte that is no part of a character.

## Main definitions

* `quote` — a text in quotes.
* `quoteBytes` — bytes in quotes.
-/

namespace TreeWalk

/-- The number `n` in lower-case hexadecimal, filled up with zeros to `width` digits. -/
def hexadecimal (width n : Nat) : List Char :=
  let digits := Nat.toDigits 16 n
  List.replicate (width - digits.length) '0' ++ digits

/-- The letter that stands for a control character after a backslash. -/
def controlLetter? (c : Char) : Option Char :=
  match c.toNat with
  | 7 => some 'a'
  | 8 => some 'b'
  | 9 => some 't'
  | 10 => some 'n'
  | 11 => some 'v'
  | 12 => some 'f'
  | 13 => some 'r'
  | _ => none

/-- One character of a quoted text: as it is if `isPrintable` holds, else behind a backslash. -/
def quoteChar (c : Char) : List Char :=
  if c = '"' || c = '\\' then ['\\', c]
  else if isPrintable c then [c]
  else match controlLetter? c with
    | some letter => ['\\', letter]
    | none =>
      if c.toNat < 0x20 || c.toNat = 0x7F then '\\' :: 'x' :: hexadecimal 2 c.toNat
      else if c.toNat < 0x10000 then '\\' :: 'u' :: hexadecimal 4 c.toNat
      else '\\' :: 'U' :: hexadecimal 8 c.toNat

/-- A text in quotes, every character of it as `quoteChar` shows it. -/
def quote (text : String) : String :=
  String.ofList ('"' :: text.toList.flatMap quoteChar ++ ['"'])

/-- The characters of at most `count` bytes inside quotes; a byte that starts no character is shown
by its number. -/
def quoteEach : Nat → Bytes → List Char
  | 0, _ => []
  | count + 1, text =>
    match Utf8.first text, text with
    | .char c rest, _ => quoteChar c ++ quoteEach count rest
    | _, b :: rest => '\\' :: 'x' :: hexadecimal 2 b.toNat ++ quoteEach count rest
    | _, [] => []

/-- Bytes in quotes. -/
def quoteBytes (text : Bytes) : Bytes :=
  utf8 (String.ofList ('"' :: quoteEach text.length text ++ ['"']))

end TreeWalk
