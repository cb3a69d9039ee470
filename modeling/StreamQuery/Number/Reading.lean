import StreamQuery.Number.Binary

/-!
# Reading numbers

Signed decimal integers and decimal floats. A float text is read exactly and rounded once.
-/

namespace StreamQuery.Number

/-- The value of a digit in a radix of up to 36. -/
def digitValue? (radix : Nat) (c : Char) : Option Nat :=
  let value :=
    if '0' ≤ c && c ≤ '9' then c.toNat - '0'.toNat
    else if 'a' ≤ c && c ≤ 'z' then c.toNat - 'a'.toNat + 10
    else if 'A' ≤ c && c ≤ 'Z' then c.toNat - 'A'.toNat + 10
    else radix
  if value < radix then some value else none

/-- The number written by a non-empty list of digits. -/
def naturalOfDigits? (radix : Nat) (digits : List Char) : Option Nat :=
  if digits.isEmpty then none
  else digits.foldlM (fun value c => (digitValue? radix c).map (radix * value + ·)) 0

/-- The number written by ASCII digits; other characters count zero. -/
def naturalOfDecimals (digits : List Char) : Nat :=
  digits.foldl (fun value c => 10 * value + (c.toNat - '0'.toNat)) 0

/-- A sign and the text after it. -/
def splitSign : List Char → Bool × List Char
  | '-' :: rest => (true, rest)
  | '+' :: rest => (false, rest)
  | text => (false, text)

/-- An optionally signed integer of the signed 64-bit range. -/
def readInt64? (radix : Nat) (text : List Char) : Option Int := do
  let (negative, digits) := splitSign text
  let magnitude ← naturalOfDigits? radix digits
  let value : Int := if negative then -(magnitude : Int) else magnitude
  if -0x8000000000000000 ≤ value ∧ value < 0x8000000000000000 then some value else none

/-- The float nearest to `digits * 10 ^ exponent`. Exponents beyond every float's range are
decided without computing the power. -/
def floatOfDecimal (negative : Bool) (digits : Nat) (exponent : Int) : Float :=
  let leading := exponent + digits.log2 / 3 + 1
  if digits == 0 then nearest negative 0 1
  else if leading < -400 then nearest negative 0 1
  else if exponent > 400 then nearest negative (Nat.pow 2 1100) 1
  else if exponent < 0 then nearest negative digits (Nat.pow 10 (-exponent).toNat)
  else nearest negative (digits * Nat.pow 10 exponent.toNat) 1

/-- The exponent after the digits of a float: nothing, or `e`, an optional sign and digits. -/
def readExponent? : List Char → Option Int
  | [] => some 0
  | c :: rest =>
    if c == 'e' || c == 'E' then
      let (negative, digits) := splitSign rest
      if !digits.isEmpty && digits.all Char.isDigit then
        let magnitude : Int := naturalOfDecimals digits
        some (if negative then -magnitude else magnitude)
      else none
    else none

/-- A float without sign: digits with an optional point, at least one digit, and an optional
exponent. -/
def readUnsignedFloat? (negative : Bool) (text : List Char) : Option Float := do
  let whole := text.takeWhile Char.isDigit
  let afterWhole := text.dropWhile Char.isDigit
  let (fraction, afterFraction) := match afterWhole with
    | '.' :: rest => (rest.takeWhile Char.isDigit, rest.dropWhile Char.isDigit)
    | _ => ([], afterWhole)
  if whole.isEmpty && fraction.isEmpty then none
  else
    let exponent ← readExponent? afterFraction
    some (floatOfDecimal negative (naturalOfDecimals (whole ++ fraction))
      (exponent - fraction.length))

/-- A float text: a signed decimal, or a name of infinity or of no number. -/
def readFloat? (text : List Char) : Option Float :=
  let (negative, magnitude) := splitSign text
  let name := String.ofList (magnitude.map Char.toLower)
  if name == "inf" || name == "infinity" then some (nearest negative (Nat.pow 2 1100) 1)
  else if name == "nan" then some (0.0 / 0.0)
  else readUnsignedFloat? negative magnitude

end StreamQuery.Number
