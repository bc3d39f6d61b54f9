import TreeWalk.Text.Bytes

/-!
# The shortest decimal

A double is written with the fewest digits that read back as the same double; of several such
decimals the nearest is taken, and of two equally near ones the one with an even last digit.  The
digits are written out positionally, never with an exponent.

A positive double `m * 2 ^ q` stands for the reals that round to it.  In units of `2 ^ (q - 2)`
these lie between `4 m - 2` and `4 m + 2`, or above `4 m - 1` when `m` is a power of two and the
double below is half as far away; the ends belong to it when `m` is even.  The search walks the
grids of multiples of a power of ten from coarse to fine, and on each grid looks at the two
neighbours of the value.

## Main definitions

* `Number.Cell` — the reals that round to one positive double.
* `Number.shortest` — the shortest decimal in a cell.
* `Number.positional` — a decimal written out without an exponent.
* `Number.text` — the text of any double.
-/

namespace TreeWalk.Number

/-- The reals that round to one positive double, in units of `2 ^ unit`. -/
structure Cell where
  /-- The exponent of the unit. -/
  unit : Int
  /-- The double itself. -/
  center : Nat
  /-- The lower end. -/
  low : Nat
  /-- The upper end. -/
  high : Nat
  /-- Whether the ends round to the double as well. -/
  closed : Bool
  deriving DecidableEq, Repr

/-- The cell of the positive finite double with the bit pattern `bits`. -/
def Cell.ofBits (bits : Nat) : Cell :=
  let field : Nat := bits / Nat.pow 2 52 % Nat.pow 2 11
  let fraction := bits % Nat.pow 2 52
  let mantissa := if field = 0 then fraction else Nat.pow 2 52 + fraction
  let exponent : Int := if field = 0 then -1074 else (field : Int) - 1075
  { unit := exponent - 2
    center := 4 * mantissa
    low := if fraction = 0 ∧ 1 < field then 4 * mantissa - 1 else 4 * mantissa - 2
    high := 4 * mantissa + 2
    closed := mantissa % 2 = 0 }

/-- A decimal: `digits * 10 ^ exponent`. -/
structure Decimal where
  /-- The digits, as one number. -/
  digits : Nat
  /-- The power of ten of the last digit. -/
  exponent : Int
  deriving DecidableEq, Repr

/-- How many units of the cell make `scale`-ths of one step of the grid `10 ^ exponent`: a number
`u` of units is the multiple `n` of the grid exactly when `u * fst = n * snd`. -/
def Cell.gridRatio (cell : Cell) (exponent : Int) : Nat × Nat :=
  (Nat.pow 2 cell.unit.toNat * Nat.pow 10 (-exponent).toNat,
    Nat.pow 2 (-cell.unit).toNat * Nat.pow 10 exponent.toNat)

/-- Whether the `multiple`-th point of the grid rounds to the double of the cell; `ratio` is what
`gridRatio` gives. -/
def Cell.holds (cell : Cell) (ratio : Nat × Nat) (multiple : Nat) : Bool :=
  let point := multiple * ratio.2
  if cell.closed then cell.low * ratio.1 ≤ point && point ≤ cell.high * ratio.1
  else cell.low * ratio.1 < point && point < cell.high * ratio.1

/-- The multiple of the grid that stands for the cell: of the two neighbours of the double those
in the cell, then the nearer one, then the even one. -/
def Cell.onGrid? (cell : Cell) (exponent : Int) : Option Nat :=
  let ratio := cell.gridRatio exponent
  let below := cell.center * ratio.1 / ratio.2
  let excess := 2 * (cell.center * ratio.1 % ratio.2)
  match cell.holds ratio below, cell.holds ratio (below + 1) with
  | true, false => some below
  | false, true => some (below + 1)
  | false, false => none
  | true, true =>
    if excess < ratio.2 then some below
    else if ratio.2 < excess then some (below + 1)
    else some (below + below % 2)

/-- Walks the grids from coarse to fine and stops at the first one where `onGrid?` meets the
cell. -/
def Cell.search (cell : Cell) : Nat → Int → Decimal
  | 0, exponent => ⟨cell.center, exponent⟩
  | steps + 1, exponent =>
    match cell.onGrid? exponent with
    | some digits => ⟨digits, exponent⟩
    | none => cell.search steps (exponent - 1)

/-- The shortest decimal of a cell.  The walk starts on a grid coarser than the double and needs
at most seventeen digits. -/
def shortest (cell : Cell) : Decimal :=
  let binary : Int := cell.center.log2 + cell.unit
  cell.search 40 (binary * 30103 / 100000 + 2)

/-- A `Decimal` written out: zeros fill the places up to the point, and a number below one starts
with a zero. -/
def positional (decimal : Decimal) : Bytes :=
  if 0 ≤ decimal.exponent then
    Bytes.ofNat decimal.digits ++ List.replicate decimal.exponent.toNat (ascii '0')
  else
    let places := (-decimal.exponent).toNat
    let fraction := Bytes.ofNat (decimal.digits % Nat.pow 10 places)
    Bytes.ofNat (decimal.digits / Nat.pow 10 places) ++ ascii '.' ::
      (List.replicate (places - fraction.length) (ascii '0') ++ fraction)

/-- The text of a double, by `shortest` and `positional`: both zeros are `0`, infinities carry their
sign. -/
def text (value : Float) : Bytes :=
  let bits := value.toBits.toNat
  let magnitude := bits % Nat.pow 2 63
  if magnitude = 0 then utf8 "0"
  else if 2047 * Nat.pow 2 52 < magnitude then utf8 "NaN"
  else if magnitude = 2047 * Nat.pow 2 52 then
    if bits = magnitude then utf8 "+Inf" else utf8 "-Inf"
  else
    let digits := positional (shortest (Cell.ofBits magnitude))
    if bits = magnitude then digits else ascii '-' :: digits

example : text 0.1 = utf8 "0.1" := by decide +kernel
example : text (Float.ofBits 0x8000000000000000) = utf8 "0" := by decide +kernel
example : text 8796093022208.0625 = utf8 "8796093022208.062" := by decide +kernel
example : text 100000 = utf8 "100000" := by decide +kernel
example : text (-2.5) = utf8 "-2.5" := by decide +kernel

end TreeWalk.Number
