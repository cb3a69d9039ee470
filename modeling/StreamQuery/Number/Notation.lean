import StreamQuery.Number.Shortest

/-!
# Float texts

A notation says which numbers are written positionally and how an exponent looks. The digits are
always the shortest that read back.
-/

namespace StreamQuery.Number

/-- How a float is written. -/
structure Notation where
  /-- The least exponent of the first digit that is written positionally. -/
  least : Option Int
  /-- The greatest exponent of the first digit that is written positionally. -/
  greatest : Option Int
  /-- Whether a whole number written positionally ends in `.0`. -/
  wholePoint : Bool
  /-- Whether a positive exponent carries its sign. -/
  exponentPlus : Bool

/-- The notation of JSON numbers: positional from `0.00001` up to sixteen digits, always with a
point or an exponent. -/
def jsonNotation : Notation := ⟨some (-5), some 15, true, true⟩

/-- Positional notation throughout, whole numbers without a point. -/
def plainNotation : Notation := ⟨none, none, false, false⟩

/-- The notation of numbers in descriptions of tokens. -/
def tokenNotation : Notation := ⟨some (-4), some 15, true, false⟩

/-- The decimal digits of a natural number. -/
def digitsOf (n : Nat) : List Char :=
  Nat.toDigits 10 n

/-- Whether a first digit's exponent calls for positional notation. -/
def Notation.positional (style : Notation) (leading : Int) : Bool :=
  style.least.all (· ≤ leading) && style.greatest.all (leading ≤ ·)

/-- A decimal written positionally. -/
def Notation.writePositional (style : Notation) (decimal : Decimal) : List Char :=
  let digits := digitsOf decimal.digits
  if decimal.exponent ≥ 0 then
    digits ++ List.replicate decimal.exponent.toNat '0' ++
      if style.wholePoint then ['.', '0'] else []
  else
    let places := (-decimal.exponent).toNat
    let padded := List.replicate (places + 1 - digits.length) '0' ++ digits
    padded.take (padded.length - places) ++ '.' :: padded.drop (padded.length - places)

/-- A decimal written with an exponent. -/
def Notation.writeScientific (style : Notation) (decimal : Decimal) : List Char :=
  let mantissa := match digitsOf decimal.digits with
    | [] => []
    | [digit] => [digit]
    | digit :: rest => digit :: '.' :: rest
  let leading := decimal.leading
  let sign := if leading < 0 then ['-'] else if style.exponentPlus then ['+'] else []
  mantissa ++ 'e' :: sign ++ digitsOf leading.natAbs

/-- The text of a finite float. -/
def Notation.writeFinite (style : Notation) (x : Float) : List Char :=
  let binary := Binary.ofFloat x
  let magnitude :=
    if binary.significand == 0 then '0' :: if style.wholePoint then ['.', '0'] else []
    else
      let decimal := binary.shortest
      if style.positional decimal.leading then style.writePositional decimal
      else style.writeScientific decimal
  if binary.negative then '-' :: magnitude else magnitude

/-- The text of a float. -/
def Notation.write (style : Notation) (x : Float) : String :=
  if x.isNaN then "NaN"
  else if x.isFinite then String.ofList (style.writeFinite x)
  else if x > 0 then "inf"
  else "-inf"

end StreamQuery.Number
