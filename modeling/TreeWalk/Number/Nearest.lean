/-!
# The nearest double

Decimal numbers are read exactly: the value is a ratio of natural numbers, and the double nearest
to it is found in integer arithmetic.  A ratio half-way between two doubles goes to the one whose
last bit is zero.  A ratio that would round past the largest finite double has no double.

## Main definitions

* `Number.roundDiv` — a quotient rounded to the nearest integer, ties to even.
* `Number.nearestBits?` — the bit pattern of the double nearest to a ratio.
* `Number.nearest?` — that double.
* `Number.ofDecimal?` — the double nearest to `mantissa * 10 ^ exponent`.
-/

namespace TreeWalk.Number

/-- The integer nearest to `num / den`; a half goes to the even neighbour. -/
def roundDiv (num den : Nat) : Nat :=
  let quotient := num / den
  let twice := 2 * (num % den)
  if twice < den then quotient
  else if den < twice then quotient + 1
  else quotient + quotient % 2

/-- `num / den` rounded down after the ratio was divided by `2 ^ exponent`. -/
def scaledQuotient (num den : Nat) (exponent : Int) : Nat :=
  num * Nat.pow 2 (-exponent).toNat / (den * Nat.pow 2 exponent.toNat)

/-- The exponent of the last bit of the double nearest to a positive ratio: the ratio then has 53
bits before the point, or fewer when the exponent is already the least one. -/
def lastBitExponent (num den : Nat) : Int :=
  let guess : Int := (num.log2 : Int) - den.log2 - 53
  let exponent := if Nat.pow 2 53 ≤ scaledQuotient num den guess then guess + 1 else guess
  max exponent (-1074)

/-- The bit pattern of infinity; every finite pattern is below it. -/
def infinityBits : Nat := 2047 * Nat.pow 2 52

/-- The bit pattern of the double nearest to `num / den`, ties to even, or `none` when the ratio
is too large.  Adding the rounded mantissa to the shifted exponent lets a carry out of the
mantissa move into the exponent, so subnormal, normal and carried results share one formula. -/
def nearestBits? (num den : Nat) : Option Nat :=
  if num = 0 then some 0
  else
    let exponent := lastBitExponent num den
    let mantissa :=
      roundDiv (num * Nat.pow 2 (-exponent).toNat) (den * Nat.pow 2 exponent.toNat)
    let bits := (exponent + 1074).toNat * Nat.pow 2 52 + mantissa
    if bits < infinityBits then some bits else none

/-- The double nearest to `num / den`, or `none` when the ratio is too large. -/
def nearest? (num den : Nat) : Option Float :=
  (nearestBits? num den).map fun bits => Float.ofBits bits.toUInt64

/-- The double nearest to `mantissa * 10 ^ exponent`, or `none` when the number is too large.
Exponents far outside the range of doubles are settled without computing the power. -/
def ofDecimal? (mantissa : Nat) (exponent : Int) : Option Float :=
  if mantissa = 0 then some 0
  else
    let magnitude := (Nat.toDigits 10 mantissa).length + exponent
    if magnitude < -400 then some 0
    else if 400 < magnitude then none
    else nearest? (mantissa * Nat.pow 10 exponent.toNat) (Nat.pow 10 (-exponent).toNat)

example : nearest? 1 1 = some 1.0 := by decide
example : nearest? (2 ^ 53 + 1) 1 = some 9007199254740992.0 := by decide
example : nearest? (2 ^ 65 + 2 ^ 12 + 1) 1 = some (Float.ofBits 0x4400000000000001) := by decide
example : ofDecimal? 15 (-1) = some 1.5 := by decide

end TreeWalk.Number
