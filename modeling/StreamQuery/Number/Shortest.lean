import StreamQuery.Number.Binary

/-!
# Shortest decimals

Of the decimals that read back as a given float, the one with the fewest digits, and of those
the nearest to the float.
-/

namespace StreamQuery.Number

/-- A number `digits * 10 ^ exponent`. -/
structure Decimal where
  digits : Nat
  exponent : Int
  deriving DecidableEq, Repr

/-- Trailing zeros moved into the exponent; `fuel` bounds their number. -/
def Decimal.normalize (decimal : Decimal) : Nat → Decimal
  | 0 => decimal
  | fuel + 1 =>
    if decimal.digits != 0 && decimal.digits % 10 == 0 then
      Decimal.normalize ⟨decimal.digits / 10, decimal.exponent + 1⟩ fuel
    else decimal

/-- The number of decimal digits. -/
def digitCount (n : Nat) : Nat :=
  (Nat.toDigits 10 n).length

/-- The exponent of the first digit. -/
def Decimal.leading (decimal : Decimal) : Int :=
  decimal.exponent + digitCount decimal.digits - 1

/-- The positive reals that round to a float, in quarters of its unit `2 ^ exponent / 4`. The
ends belong to the interval when the significand is even. -/
structure RoundingInterval where
  low : Nat
  middle : Nat
  high : Nat
  exponent : Int
  closed : Bool

/-- The rounding interval of a positive float. Below a power of two the floats are closer. -/
def Binary.interval (binary : Binary) : RoundingInterval :=
  { low := 4 * binary.significand -
      if binary.significand == Nat.pow 2 52 && binary.exponent > -1074 then 1 else 2
    middle := 4 * binary.significand
    high := 4 * binary.significand + 2
    exponent := binary.exponent - 2
    closed := binary.significand % 2 == 0 }

/-- The multiple of `10 ^ exponent` that lies in the interval, the nearest to its middle if
there are two next to it; an exact tie goes to the even multiple. -/
def RoundingInterval.gridPoint? (interval : RoundingInterval) (exponent : Int) : Option Nat :=
  let (unit, step) : Nat × Nat :=
    let unit := if interval.exponent < 0 then 1 else Nat.pow 2 interval.exponent.toNat
    let half := if interval.exponent < 0 then Nat.pow 2 (-interval.exponent).toNat else 1
    if exponent < 0 then (unit * Nat.pow 10 (-exponent).toNat, half)
    else (unit, half * Nat.pow 10 exponent.toNat)
  let low := interval.low * unit
  let middle := interval.middle * unit
  let high := interval.high * unit
  let inside (point : Nat) : Bool :=
    if interval.closed then low ≤ point * step && point * step ≤ high
    else low < point * step && point * step < high
  let below := middle / step
  let above := below + 1
  match inside below, inside above with
  | true, true =>
    let toBelow := middle - below * step
    let toAbove := above * step - middle
    some (if toBelow < toAbove || (toBelow == toAbove && below % 2 == 0) then below else above)
  | true, false => some below
  | false, true => some above
  | false, false => none

/-- The first grid, from coarse to fine, with a point in the interval. -/
def RoundingInterval.firstGridPoint (interval : RoundingInterval) (exponent : Int) :
    Nat → Decimal
  | 0 => ⟨interval.middle, exponent⟩
  | fuel + 1 =>
    match interval.gridPoint? exponent with
    | some digits => if digits == 0 then interval.firstGridPoint (exponent - 1) fuel
      else ⟨digits, exponent⟩
    | none => interval.firstGridPoint (exponent - 1) fuel

/-- The shortest decimal that reads back as a positive float. -/
def Binary.shortest (binary : Binary) : Decimal :=
  let log2 : Int := binary.significand.log2 + binary.exponent
  let start := Int.fdiv (log2 * 30103) 100000 + 2
  (binary.interval.firstGridPoint start 24).normalize 24

end StreamQuery.Number
