import TreeWalk.Text.Base64
import TreeWalk.Text.Quote
import TreeWalk.Yaml.Resolve

/-!
# Writing YAML scalars

A text is written plainly where it reads back as itself.  Otherwise it goes into single quotes if
only its place or its signs are the trouble, into double quotes if it would mean something else or
holds characters that need an escape, and into an indented block if it has several lines.  Bytes
that are no text are written in base 64.

## Main definitions

* `Yaml.writeText` — a text as the value of a key at the start of a line.
-/

namespace TreeWalk.Yaml

/-- Whether a character can be written as it is. -/
def isWritable (c : Char) : Bool :=
  let n := c.toNat
  n = 0x0A || (0x20 ≤ n && n ≤ 0x7E) || (0xA0 ≤ n && n ≤ 0xFFFD && n ≠ 0xFEFF)

/-- Whether a space stands right in front of a line break. -/
def spaceBeforeBreak : List Char → Bool
  | a :: b :: rest => (a = ' ' && isBreak b) || spaceBeforeBreak (b :: rest)
  | _ => false

/-- Whether a space stands right behind a line break. -/
def spaceAfterBreak : List Char → Bool
  | a :: b :: rest => (isBreak a && b = ' ') || spaceAfterBreak (b :: rest)
  | _ => false

/-- Whether a text holds signs that mean something in block form; `afterBlank` tells whether a blank
stands in front of it. -/
def hasSigns (afterBlank : Bool) : List Char → Bool
  | [] => false
  | c :: rest =>
    let blankNext := rest.isEmpty || rest.head?.any isBlank
    (c = ':' && blankNext) || (c = '#' && afterBlank)
      || hasSigns (isBlank c || isBreak c || c.toNat = 0) rest

/-- Whether a text starts with a sign that means something in block form. -/
def startsWithSign : List Char → Bool
  | [] => false
  | c :: rest =>
    "#,[]\x7b\x7d&*!|>'\"%@`".toList.contains c
      || ((c = '?' || c = '-') && (rest.isEmpty || rest.head?.any isBlank))
      || "---".toList.isPrefixOf (c :: rest) || "...".toList.isPrefixOf (c :: rest)

/-- Whether a text of one line reads back as written, as far as its signs are concerned. -/
def plainFits (text : List Char) : Bool :=
  text.head? ≠ some ' ' && text.getLast? ≠ some ' ' && !text.any isBreak
    && !text.contains '\t' && text.all isWritable && !startsWithSign text && !hasSigns true text

/-- Whether a text can stand in single quotes. -/
def singleFits (text : List Char) : Bool :=
  text.all isWritable && !text.contains '\t' && !spaceBeforeBreak text && !spaceAfterBreak text

/-- Whether a text can stand in an indented block. -/
def blockFits (text : List Char) : Bool :=
  text.all (fun c => c = '\t' || isWritable c) && text.getLast? ≠ some ' '
    && !spaceBeforeBreak text

/-- Words that some readers take for truth values. -/
def isTruthWord (text : String) : Bool :=
  ["y", "Y", "yes", "Yes", "YES", "on", "On", "ON",
    "n", "N", "no", "No", "NO", "off", "Off", "OFF"].contains text

/-- Whether the rest of a text is groups of a colon and a number below sixty, at least one if
`due` holds, and then perhaps a fraction. -/
def isSexagesimalTail (due : Bool) : List Char → Bool
  | [] => !due
  | ':' :: a :: b :: rest =>
    if b.isDigit then '0' ≤ a && a ≤ '5' && isSexagesimalTail false rest
    else a.isDigit && isSexagesimalTail false (b :: rest)
  | [':', a] => a.isDigit
  | '.' :: rest => !due && rest.all fun c => c.isDigit || c = '_'
  | _ => false

/-- Whether some readers take a text for a number in base sixty. -/
def isSexagesimal (text : List Char) : Bool :=
  let text := match text with
    | c :: rest => if c = '+' || c = '-' then rest else c :: rest
    | [] => []
  match text with
  | c :: rest => c.isDigit && isSexagesimalTail true (rest.dropWhile fun c => c.isDigit || c = '_')
  | [] => false

/-- Whether a text that is written plainly is read as a text by every reader: neither by this one as
something else, nor with `isTruthWord` or `isSexagesimal`. -/
def readsAsText (text : String) : Bool :=
  (plainMeaning text).tag = .text && !isSexagesimal text.toList && !isTruthWord text

/-- The letter that stands for a character behind a backslash. -/
def escapeLetter? (c : Char) : Option Char :=
  match c.toNat with
  | 0x00 => some '0'
  | 0x07 => some 'a'
  | 0x08 => some 'b'
  | 0x09 => some 't'
  | 0x0A => some 'n'
  | 0x0B => some 'v'
  | 0x0C => some 'f'
  | 0x0D => some 'r'
  | 0x1B => some 'e'
  | 0x22 => some '"'
  | 0x5C => some '\\'
  | 0x85 => some 'N'
  | 0xA0 => some '_'
  | 0x2028 => some 'L'
  | 0x2029 => some 'P'
  | _ => none

/-- A character behind a backslash: its letter from `escapeLetter?`, or its number. -/
def escapeChar (c : Char) : List Char :=
  match escapeLetter? c with
  | some letter => ['\\', letter]
  | none =>
    let code (width : Nat) : List Char := (hexadecimal width c.toNat).map Char.toUpper
    if c.toNat ≤ 0xFF then '\\' :: 'x' :: code 2
    else if c.toNat ≤ 0xFFFF then '\\' :: 'u' :: code 4
    else '\\' :: 'U' :: code 8

/-- One character in double quotes.  Behind a byte order mark, which `marked` tells of, every
character is escaped. -/
def quotedChar (marked : Bool) (c : Char) : List Char :=
  if marked || !isWritable c || isBreak c || c = '"' || c = '\\' then escapeChar c else [c]

/-- A text in double quotes. -/
def inDoubleQuotes (text : List Char) : List Char :=
  '"' :: text.flatMap (quotedChar (text.head? = some byteOrderMark)) ++ ['"']

/-- The indentation of the lines of a value. -/
def margin : List Char := [' ', ' ', ' ', ' ']

/-- The rest of a text in single quotes; `starts` tells whether a line starts here. -/
def singleLines (starts : Bool) : List Char → List Char
  | [] => ['\'']
  | c :: rest =>
    if c = ' ' then c :: singleLines starts rest
    else if isBreak c then c :: singleLines true rest
    else (if starts then margin else []) ++ (if c = '\'' then ['\'', c] else [c])
      ++ singleLines false rest

/-- A text in single quotes, by `singleLines`. -/
def inSingleQuotes (text : List Char) : List Char := '\'' :: singleLines false text

/-- The signs behind the bar of a block: how far it is indented, if its first character hides
that, and what becomes of the line breaks at its end. -/
def blockSigns (text : List Char) : List Char :=
  (if text.head?.any (fun c => c = ' ' || isBreak c) then ['4'] else [])
    ++ match text.reverse with
      | [] => ['-']
      | [c] => if isBreak c then ['+'] else ['-']
      | c :: d :: _ => if !isBreak c then ['-'] else if isBreak d then ['+'] else []

/-- The lines of a block, each behind the `margin`; `starts` tells whether a line starts here. -/
def indentLines (starts : Bool) : List Char → List Char
  | [] => []
  | c :: rest =>
    if isBreak c then c :: indentLines true rest
    else if starts then margin ++ c :: indentLines false rest
    else c :: indentLines false rest

/-- A text with a line break behind it, unless it ends in one. -/
def endLine (text : List Char) : List Char :=
  if text.getLast?.any isBreak then text else text ++ ['\n']

/-- A text as an indented block.  A line break in front of it also ends the line of the bar. -/
def asBlock (text : List Char) : List Char :=
  let lines := indentLines true text
  '|' :: blockSigns text ++ endLine (if text.head?.any isBreak then lines else '\n' :: lines)

/-- A text as the value of a key at the start of a line, with the line break behind it: plain if
`readsAsText` and `plainFits` hold, else in quotes or as a block. -/
def writeChars (text : List Char) : List Char :=
  if text.contains '\n' then
    if blockFits text then asBlock text else inDoubleQuotes text ++ ['\n']
  else if !readsAsText (String.ofList text) then inDoubleQuotes text ++ ['\n']
  else if plainFits text then text ++ ['\n']
  else if singleFits text then inSingleQuotes text ++ ['\n']
  else inDoubleQuotes text ++ ['\n']

/-- Lines of seventy characters, each with a line break behind it. -/
def wrapLines : Nat → List Char → List Char
  | 0, text => text
  | count + 1, text =>
    if text.isEmpty then []
    else text.take 70 ++ '\n' :: wrapLines count (text.drop 70)

/-- Bytes in base 64 as the value of a key, in a block of `wrapLines` if they take more than one
line. -/
def writeBytes (data : Bytes) : List Char :=
  let letters := (Base64.encode data).map fun b => Char.ofNat b.toNat
  "!!binary ".toList ++
    if letters.length < 70 then letters ++ ['\n'] else asBlock (wrapLines letters.length letters)

/-- A text as the value of a key at the start of a line, with the line break behind it.  Bytes that
are no text are written in base 64. -/
def writeText (text : Bytes) : Bytes :=
  let chars := match Utf8.decode? text with
    | some chars => writeChars chars
    | none => writeBytes text
  chars.flatMap String.utf8EncodeChar

end TreeWalk.Yaml
