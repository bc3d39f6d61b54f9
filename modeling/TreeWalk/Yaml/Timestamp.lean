/-!
# Timestamps

A plain scalar that reads as a date, or as a date with a time of day, is a timestamp.  Nothing
looks at the moment it denotes; all that matters is that it is not text.

## Main definitions

* `Yaml.isTimestamp` — whether a scalar is a date or a date with a time.
-/

namespace TreeWalk.Yaml

namespace Timestamp

/-- Whether a year has a 29th of February. -/
def isLeap (year : Nat) : Bool := (year % 4 = 0 && year % 100 ≠ 0) || year % 400 = 0

/-- The number of days of a month. -/
def daysIn (year month : Nat) : Nat :=
  if month = 2 then if isLeap year then 29 else 28
  else if month = 4 || month = 6 || month = 9 || month = 11 then 30
  else 31

/-- The value of a digit. -/
def digit (c : Char) : Nat := c.toNat - 48

/-- Reads a number of one or two digits. -/
def short? : List Char → Option (Nat × List Char)
  | a :: b :: rest =>
    if !a.isDigit then none
    else if b.isDigit then some (digit a * 10 + digit b, rest)
    else some (digit a, b :: rest)
  | [a] => if a.isDigit then some (digit a, []) else none
  | [] => none

/-- Skips the character `c`, which has to stand here. -/
def skip? (c : Char) : List Char → Option (List Char)
  | d :: rest => if c = d then some rest else none
  | [] => none

/-- Skips the fraction of a second, if there is one. -/
def dropFraction : List Char → List Char
  | c :: d :: rest =>
    if (c = '.' || c = ',') && d.isDigit then rest.dropWhile Char.isDigit else c :: d :: rest
  | rest => rest

/-- Reads a time of day; the result is what follows it. -/
def time? (text : List Char) : Option (List Char) := do
  let (hour, rest) ← short? text
  let (minute, rest) ← short? (← skip? ':' rest)
  let (second, rest) ← short? (← skip? ':' rest)
  if hour < 24 && minute < 60 && second < 60 then some (dropFraction rest) else none

/-- Whether a text is a time zone: `Z`, or hours and minutes with a sign. -/
def isZone : List Char → Bool
  | ['Z'] => true
  | [sign, a, b, ':', c, d] =>
    (sign = '+' || sign = '-') && [a, b, c, d].all Char.isDigit
      && digit a * 10 + digit b ≤ 24 && digit c * 10 + digit d ≤ 60
  | _ => false

/-- Whether a text is empty or the time that may follow a date: `time?`, and perhaps a zone with
`isZone`. -/
def isTimePart : List Char → Bool
  | [] => true
  | c :: rest =>
    if c = 'T' || c = 't' then
      match time? rest with
      | some zone => isZone zone
      | none => false
    else c = ' ' && time? (rest.dropWhile (· = ' ')) = some []

/-- Reads the month and the day behind the `year`, and gives what follows if there is such a day. -/
def monthDay? (year : Nat) (text : List Char) : Option (List Char) := do
  let (month, rest) ← short? text
  let (day, rest) ← short? (← skip? '-' rest)
  if 1 ≤ month && month ≤ 12 && 1 ≤ day && day ≤ daysIn year month then some rest else none

end Timestamp

open Timestamp in
/-- Whether a scalar is a date or a date with a time. -/
def isTimestamp (text : List Char) : Bool :=
  match text with
  | a :: b :: c :: d :: '-' :: rest =>
    [a, b, c, d].all Char.isDigit
      && match monthDay? (digit a * 1000 + digit b * 100 + digit c * 10 + digit d) rest with
        | some rest => isTimePart rest
        | none => false
  | _ => false

example : isTimestamp "2024-02-29".toList = true := by decide
example : isTimestamp "2023-2-29".toList = false := by decide
example : isTimestamp "2001-12-14t21:59:43.10-05:00".toList = true := by decide

end TreeWalk.Yaml
