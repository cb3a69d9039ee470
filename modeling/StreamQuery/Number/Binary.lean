/-!
# Floats as binary fractions

A finite float is an integer times a power of two. This module reads that form off a float,
rounds an exact ratio to the nearest float, and converts between floats and integers. All of it
is exact integer arithmetic.
-/

namespace StreamQuery.Number

/-- A number `± significand * 2 ^ exponent`. -/
structure Binary where
  negative : Bool
  significand : Nat
  exponent : Int
  deriving DecidableEq, Repr

/-- The binary form of a finite float. -/
def Binary.ofFloat (x : Float) : Binary :=
  let bits := x.toBits.toNat
  let fraction := bits % Nat.pow 2 52
  let biased : Nat := bits / Nat.pow 2 52 % 2048
  { negative := bits / Nat.pow 2 63 == 1
    significand := if biased == 0 then fraction else fraction + Nat.pow 2 52
    exponent := (if biased == 0 then 1 else Int.ofNat biased) - 1075 }

/-- The quotient rounded to the nearest integer, a half to the even one. -/
def roundedQuotient (num den : Nat) : Nat :=
  let quotient := num / den
  let twice := 2 * (num % den)
  if twice > den || (twice == den && quotient % 2 == 1) then quotient + 1 else quotient

/-- The bits of infinity. -/
def infinityBits : Nat := 2047 * Nat.pow 2 52

/-- The bits of the float nearest to `num / den`; halfway cases go to the even significand. -/
def nearestBits (num den : Nat) : Nat :=
  if num == 0 then 0
  else
    let guess : Int := (num.log2 : Int) - den.log2 - 53
    let scaled (exponent : Int) : Nat × Nat :=
      if exponent < 0 then (num * Nat.pow 2 (-exponent).toNat, den)
      else (num, den * Nat.pow 2 exponent.toNat)
    let (top, bottom) := scaled guess
    let exponent := max (if top / bottom ≥ Nat.pow 2 53 then guess + 1 else guess) (-1074)
    let (top, bottom) := scaled exponent
    min (roundedQuotient top bottom + (exponent + 1074).toNat * Nat.pow 2 52) infinityBits

/-- The float nearest to `num / den`, with the given sign. -/
def nearest (negative : Bool) (num den : Nat) : Float :=
  Float.ofBits (UInt64.ofNat (nearestBits num den + if negative then Nat.pow 2 63 else 0))

/-- The float nearest to an integer. -/
def floatOfInt (n : Int) : Float :=
  nearest (n < 0) n.natAbs 1

/-- The integer part of a finite float. -/
def truncate (x : Float) : Int :=
  let binary := Binary.ofFloat x
  let magnitude : Nat :=
    if binary.exponent < 0 then binary.significand / Nat.pow 2 (-binary.exponent).toNat
    else binary.significand * Nat.pow 2 binary.exponent.toNat
  if binary.negative then -(magnitude : Int) else magnitude

/-- The greatest integer that is not above a float; what is infinite or no number stays. -/
def floor (x : Float) : Float :=
  let binary := Binary.ofFloat x
  let numerator : Int := if binary.negative then -binary.significand else binary.significand
  if !x.isFinite || binary.significand == 0 || binary.exponent ≥ 0 then x
  else floatOfInt (numerator.fdiv (Nat.pow 2 (-binary.exponent).toNat))

/-- The integer part limited to the signed 64-bit range; what is no number counts zero. -/
def saturatedInt64 (x : Float) : Int :=
  if x.isNaN then 0
  else if x.isFinite then max (-0x8000000000000000) (min 0x7FFFFFFFFFFFFFFF (truncate x))
  else if x > 0 then 0x7FFFFFFFFFFFFFFF
  else -0x8000000000000000

end StreamQuery.Number
