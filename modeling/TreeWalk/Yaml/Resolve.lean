import TreeWalk.Number.Nearest
import TreeWalk.Text.Base64
import TreeWalk.Yaml.Node
import TreeWalk.Yaml.Timestamp

/-!
# What a scalar means

A quoted scalar means its text.  A plain one may also be nothing, a truth value, a whole number, a
decimal or a date, depending on how it is spelled.  Whole numbers may have a sign, underscores
anywhere behind the first character, and a leading zero or a letter that gives the base.

A tag in front of a scalar must agree with its meaning, unless it is a tag that does not tell how
a scalar is spelled: then the scalar means its text, or the bytes that its text stands for.

## Main definitions

* `Yaml.Meaning` — what a scalar means.
* `Yaml.plainMeaning` — what a plain scalar means.
* `Yaml.meaning?` — what a scalar with a tag and a style means.
-/

namespace TreeWalk.Yaml

/-- What a scalar means. -/
inductive Meaning
  /-- Nothing. -/
  | null
  /-- A truth value. -/
  | boolean (value : Bool)
  /-- A whole number. -/
  | integer (value : Int)
  /-- A decimal. -/
  | decimal (value : Float)
  /-- A date. -/
  | timestamp
  /-- A text, as it is written. -/
  | text
  /-- Bytes that were written in base 64. -/
  | binary (data : Bytes)

/-- The `Tag` of a meaning. -/
def Meaning.tag : Meaning → Tag
  | null => .null
  | boolean _ => .boolean
  | integer _ => .integer
  | decimal _ => .decimal
  | timestamp => .timestamp
  | text => .text
  | binary _ => .binary

/-! ### Whole numbers -/

/-- The number that `digits` of the given `base` spell; there must be at least one. -/
def natural? (base : Nat) (digits : List Char) : Option Nat :=
  if digits.isEmpty then none
  else digits.foldlM (fun n c => do
    let d ← hexValue? c
    if d < base then some (n * base + d) else none) 0

/-- The number that digits spell in the base that their first characters give: a zero and a
letter, or a zero alone for base eight. -/
def prefixed? : List Char → Option Nat
  | ['0'] => some 0
  | '0' :: c :: rest =>
    if !rest.isEmpty && (c = 'x' || c = 'X') then natural? 16 rest
    else if !rest.isEmpty && (c = 'o' || c = 'O') then natural? 8 rest
    else if !rest.isEmpty && (c = 'b' || c = 'B') then natural? 2 rest
    else natural? 8 (c :: rest)
  | digits => natural? 10 digits

/-- The first number past the signed ones of 64 bits. -/
def signedBound : Nat := Nat.pow 2 63

/-- The first number past the unsigned ones of 64 bits. -/
def unsignedBound : Nat := Nat.pow 2 64

/-- A number with an optional sign that fits into 64 bits. -/
def signed? (magnitude? : List Char → Option Nat) (text : List Char) : Option Int :=
  match text with
  | '-' :: rest => do
    let n ← magnitude? rest
    if n ≤ signedBound then some (-(n : Int)) else none
  | '+' :: rest => do
    let n ← magnitude? rest
    if n < signedBound then some (n : Int) else none
  | rest => do
    let n ← magnitude? rest
    if n < unsignedBound then some (n : Int) else none

/-- A number whose sign stands behind the letter that gives the base, as `signed?` reads it
there. -/
def innerSigned? : List Char → Option Int
  | '0' :: 'b' :: rest => signed? (natural? 2) rest
  | '0' :: 'o' :: rest => signed? (natural? 8) rest
  | _ => none

/-! ### Decimals -/

/-- The parts of a decimal: its digits as one number, and its power of ten. -/
structure Scientific where
  /-- The digits. -/
  mantissa : Nat
  /-- The power of ten. -/
  exponent : Int

/-- The number that decimal digits spell, zero if there are none. -/
def decimalDigits (digits : List Char) : Nat :=
  digits.foldl (fun n c => n * 10 + (c.toNat - 48)) 0

/-- Reads an exponent, which may be left out. -/
def exponent? : List Char → Option Int
  | [] => some 0
  | c :: rest =>
    if c = 'e' || c = 'E' then
      let digits := match rest with
        | s :: more => if s = '+' || s = '-' then more else rest
        | [] => []
      if digits.isEmpty || !digits.all Char.isDigit then none
      else if rest.head? = some '-' then some (-(decimalDigits digits : Int))
      else some (decimalDigits digits)
    else none

/-- Reads a `Scientific` without its sign: digits, a point and more digits, and an exponent. -/
def scientific? (text : List Char) : Option Scientific := do
  let whole := text.takeWhile Char.isDigit
  let (fraction, rest) := match text.dropWhile Char.isDigit with
    | '.' :: rest => (rest.takeWhile Char.isDigit, rest.dropWhile Char.isDigit)
    | rest => ([], rest)
  if whole.isEmpty && fraction.isEmpty then none
  else
    let exponent ← exponent? rest
    return ⟨decimalDigits (whole ++ fraction), exponent - fraction.length⟩

/-- The double nearest to a decimal with an optional sign, unless it is too large. -/
def float? (text : List Char) : Option Float :=
  let unsigned? (text : List Char) : Option Float := do
    let parts ← scientific? text
    Number.ofDecimal? parts.mantissa parts.exponent
  match text with
  | '-' :: rest => (unsigned? rest).map fun x => -x
  | '+' :: rest => unsigned? rest
  | rest => unsigned? rest

/-- Whether every underscore stands between two digits, given whether a digit stands before. -/
def separatesDigits (afterDigit : Bool) : List Char → Bool
  | [] => true
  | c :: rest =>
    if c = '_' then
      afterDigit && (rest.head?.any Char.isDigit) && separatesDigits false rest
    else separatesDigits c.isDigit rest

/-! ### Plain scalars -/

/-- What the scalars with a spelling of their own mean, such as `true` and `.inf`. -/
def word? (text : String) : Option Meaning :=
  if ["", "~", "null", "Null", "NULL"].contains text then some .null
  else if ["true", "True", "TRUE"].contains text then some (.boolean true)
  else if ["false", "False", "FALSE"].contains text then some (.boolean false)
  else if [".nan", ".NaN", ".NAN"].contains text then some (.decimal (0 / 0))
  else if [".inf", ".Inf", ".INF", "+.inf", "+.Inf", "+.INF"].contains text then
    some (.decimal (1 / 0))
  else if ["-.inf", "-.Inf", "-.INF"].contains text then some (.decimal (-1 / 0))
  else none

/-- What a scalar that starts with a digit or a sign means.  Whole numbers of 64 bits come first,
and what is not one may still be a decimal. -/
def numberMeaning? (text : List Char) : Option Meaning :=
  let plain := text.filter (· ≠ '_')
  match signed? prefixed? plain with
  | some n => some (.integer n)
  | none =>
    match float? plain with
    | some x => some (.decimal x)
    | none => (innerSigned? plain).map .integer

/-- What a plain scalar means; dates count as text if `dates` does not hold. -/
def spelled (dates : Bool) (text : String) : Meaning :=
  match word? text with
  | some meaning => meaning
  | none =>
    let chars := text.toList
    match chars with
    | [] => .null
    | c :: _ =>
      if c = '.' then
        if separatesDigits false chars then
          match float? (chars.filter (· ≠ '_')) with
          | some x => .decimal x
          | none => .text
        else .text
      else if c = '+' || c = '-' || c.isDigit then
        if dates && isTimestamp chars then .timestamp
        else (numberMeaning? chars).getD .text
      else .text

/-- What a plain scalar means. -/
def plainMeaning (text : String) : Meaning := spelled true text

/-- The tag of a scalar without a tag that says something: a text if it is quoted, else that of its
`plainMeaning`, two angles apart. -/
def impliedTag (style : Style) (text : String) : Tag :=
  match style with
  | .quoted => .text
  | .plain => if text = "<<" then .merge else (plainMeaning text).tag

/-- The tag of a scalar: its own `tag` if that says something, else `impliedTag`. -/
def scalarTag (tag : Option Tag) (style : Style) (text : String) : Tag :=
  tag.getD (impliedTag style text)

/-- What a scalar with a tag means, or `none` if the tag does not suit it.  A whole number can be
taken for a decimal if it is a signed one of 64 bits. -/
def taggedMeaning? (tag : Tag) (text : String) : Option Meaning :=
  match tag with
  | .null | .boolean | .integer | .decimal | .timestamp =>
    let meaning := spelled (tag = .timestamp) text
    if meaning.tag = tag then some meaning
    else match meaning with
      | .integer n =>
        if tag = .decimal && n < signedBound then some (.decimal (Float.ofInt n)) else none
      | _ => none
  | .binary => (Base64.decode? (utf8 text)).map .binary
  | _ => some .text

/-- What a scalar means, or `none` if its `tag` does not suit it. -/
def meaning? (tag : Option Tag) (style : Style) (text : String) : Option Meaning :=
  taggedMeaning? (scalarTag tag style text) text

/-- The text that a scalar stands for where a text is due: its own `text`, or the bytes that a
binary one holds. -/
def Meaning.asText (meaning : Meaning) (text : String) : Bytes :=
  match meaning with
  | binary data => data
  | _ => utf8 text

/-- The whole number that a number is when its fraction is dropped, if it is not past the largest
one of 64 bits.  Numbers that are too small, and the one that is just too large, become the
smallest number of 64 bits. -/
def Meaning.toInt? : Meaning → Option Int
  | integer n => if n < signedBound then some n else none
  | decimal x =>
    let bound : Float := 9223372036854775808
    if x < bound then some x.toInt64.toInt
    else if x == bound then some (-(signedBound : Int))
    else none
  | _ => none

end TreeWalk.Yaml
