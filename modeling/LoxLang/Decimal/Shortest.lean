/-
Module: LoxLang.Decimal.Shortest
Purpose: The shortest decimal that reads back as a given binary64 number.  A finite number is
  opened into an integer mantissa and a power of two, the interval of reals that round to it is
  written with integer end points, and decimal grids of one, two, … seventeen digits are tried in
  exact natural-number arithmetic.
Main exports: Fields, Binary, Binary.ofFields, Interval, Decimal, Decimal.shortest
-/

namespace LoxLang

/-! ### Binary numbers -/

/-- A power of two. -/
def twoPow (n : Nat) : Nat :=
  Nat.pow 2 n

/-- A power of ten. -/
def tenPow (n : Nat) : Nat :=
  Nat.pow 10 n

/-- The three fields of a binary64 bit pattern. -/
structure Fields where
  negative : Bool
  exponent : Nat
  fraction : Nat
deriving DecidableEq, Repr, Inhabited

namespace Fields

/-- Splits a bit pattern into one sign bit, eleven exponent bits and fifty-two fraction bits. -/
def ofBits (bits : UInt64) : Fields :=
  { negative := twoPow 63 ≤ bits.toNat
    exponent := bits.toNat / twoPow 52 % twoPow 11
    fraction := bits.toNat % twoPow 52 }

/-- Whether the fields are those of an infinity or of no number; the exponent bits are all set. -/
def isSpecial (fields : Fields) : Bool :=
  fields.exponent = 2047

/-- Whether the fields are those of no number. -/
def isNaN (fields : Fields) : Bool :=
  fields.isSpecial && fields.fraction ≠ 0

end Fields

/-- The magnitude `mantissa * 2 ^ exponent` of a finite binary64 number.  `tightBelow` records
that the next smaller number lies only half as far away as the next larger one, which happens at
the smallest mantissa of every binade but the lowest two. -/
structure Binary where
  mantissa : Nat
  exponent : Int
  tightBelow : Bool
deriving DecidableEq, Repr, Inhabited

/-- The magnitude given by the fields of a finite number.  An exponent field of zero marks the
numbers too small for a hidden leading bit. -/
def Binary.ofFields (fields : Fields) : Binary :=
  if fields.exponent = 0 then
    { mantissa := fields.fraction, exponent := -1074, tightBelow := false }
  else
    { mantissa := fields.fraction + twoPow 52
      exponent := (fields.exponent : Int) - 1075
      tightBelow := fields.fraction = 0 && 1 < fields.exponent }

/-- A positive decimal `digits * 10 ^ exponent`. -/
structure Decimal where
  digits : Nat
  exponent : Int
deriving DecidableEq, Repr, Inhabited

namespace Decimal

/-- Moves trailing zeros of the digits into the exponent, at most `bound` of them. -/
def stripZeros : Nat → Decimal → Decimal
  | 0, decimal => decimal
  | bound + 1, decimal =>
      if decimal.digits ≠ 0 ∧ decimal.digits % 10 = 0 then
        stripZeros bound { digits := decimal.digits / 10, exponent := decimal.exponent + 1 }
      else
        decimal

/-- The decimal digits of a natural number, most significant first. -/
def digitChars (n : Nat) : List Char :=
  Nat.toDigits 10 n

/-- How many decimal digits a natural number has. -/
def width (n : Nat) : Nat :=
  (digitChars n).length

end Decimal

/-! ### The rounding interval on a decimal grid -/

/-- The value and the two ends of its rounding interval, measured in quarters of the last binary
place, together with the size of that quarter as the fraction `scale / grid` of one step of a
decimal grid.  All comparisons with the grid are then comparisons of natural numbers. -/
structure Interval where
  low : Nat
  value : Nat
  high : Nat
  closed : Bool
  scale : Nat
  grid : Nat
deriving DecidableEq, Repr

namespace Interval

/-- The rounding interval of `number` against the grid of multiples of `10 ^ step`.  Its ends
belong to it exactly when the mantissa is even, since ties are rounded to even. -/
def onGrid (number : Binary) (step : Int) : Interval :=
  let quarter := number.exponent - 2
  { low := 4 * number.mantissa - (if number.tightBelow then 1 else 2)
    value := 4 * number.mantissa
    high := 4 * number.mantissa + 2
    closed := number.mantissa % 2 = 0
    scale := twoPow quarter.toNat * tenPow (-step).toNat
    grid := twoPow (-quarter).toNat * tenPow step.toNat }

/-- Whether the grid point `point` rounds to the number. -/
def contains (interval : Interval) (point : Nat) : Bool :=
  let place := point * interval.grid
  let low := interval.low * interval.scale
  let high := interval.high * interval.scale
  if interval.closed then low ≤ place && place ≤ high else low < place && place < high

/-- The grid point just below the value, or at it. -/
def floor (interval : Interval) : Nat :=
  interval.value * interval.scale / interval.grid

/-- The nearer of the two grid points around the value; of two equally near ones the even. -/
def nearest (interval : Interval) : Nat :=
  let below := interval.floor
  let twice := 2 * (interval.value * interval.scale)
  let middle := (2 * below + 1) * interval.grid
  if twice < middle then below
  else if middle < twice then below + 1
  else if below % 2 = 0 then below
  else below + 1

/-- A grid point next to the value that rounds to the number, the nearer one if both do. -/
def pick? (interval : Interval) : Option Nat :=
  let below := interval.floor
  match interval.contains below, interval.contains (below + 1) with
  | true, true => some interval.nearest
  | true, false => some below
  | false, true => some (below + 1)
  | false, false => none

end Interval

/-! ### Shortest digits -/

namespace Binary

/-- The least `e` with `number < 10 ^ e`.  Multiplied by `10 ^ scale`, which is at least
`2 ^ (-exponent)`, a positive number has a positive integer part, and the digits of that part are
counted. -/
def magnitude (number : Binary) : Int :=
  let shift := (-number.exponent).toNat
  let scale := shift * 31 / 100 + 1
  let scaled := number.mantissa * twoPow number.exponent.toNat * tenPow scale / twoPow shift
  (Decimal.width scaled : Int) - scale

/-- The best decimal among the multiples of `10 ^ step`, if one of them reads back. -/
def decimal? (number : Binary) (step : Int) : Option Decimal :=
  (Interval.onGrid number step).pick?.map fun digits => { digits := digits, exponent := step }

/-- The nearest multiple of `10 ^ step`. -/
def nearestDecimal (number : Binary) (step : Int) : Decimal :=
  { digits := (Interval.onGrid number step).nearest, exponent := step }

end Binary

/-- The decimal with the fewest digits that reads back as `number`, and among those the nearest
to it.  Seventeen digits always suffice, so the last alternative is never taken. -/
def Decimal.shortest (number : Binary) : Decimal :=
  let magnitude := number.magnitude
  let found := (List.range 17).findSome? fun (i : Nat) => number.decimal? (magnitude - (i + 1))
  (found.getD (number.nearestDecimal (magnitude - 17))).stripZeros 17

end LoxLang
