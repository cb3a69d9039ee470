import StreamQuery.Number.Reading
import StreamQuery.Value.Basic

/-!
# Reading JSON

A reader for JSON texts. Integers are exact as far as 64 bits reach. Other numbers keep the first
digits that fit 64 bits and are scaled by one power of ten, so they may differ from the nearest
float in the last place. Lists and objects nest less than 128 levels deep.
-/

namespace StreamQuery.Json

/-- Blanks between the parts of a text. -/
def isBlank (c : Char) : Bool :=
  c == ' ' || c == '\n' || c == '\t' || c == '\r'

/-- A text without leading blanks. -/
def skipBlanks (text : List Char) : List Char :=
  text.dropWhile isBlank

/-- The value of a hexadecimal digit of either case. -/
def hexValue? (c : Char) : Option Nat :=
  Number.digitValue? 16 c

/-- The number written by four hexadecimal digits, and the rest. -/
def fourHexDigits? : List Char → Option (Nat × List Char)
  | a :: b :: c :: d :: rest => do
    some (((← hexValue? a) * 16 + (← hexValue? b)) * 256 +
      ((← hexValue? c) * 16 + (← hexValue? d)), rest)
  | _ => none

/-- The character of an escape after its `\u`. Code units beyond the basic plane come in pairs. -/
def unicodeEscape? (text : List Char) : Option (Char × List Char) := do
  let (unit, rest) ← fourHexDigits? text
  if 0xD800 ≤ unit && unit < 0xDC00 then
    match rest with
    | '\\' :: 'u' :: rest =>
      let (second, rest) ← fourHexDigits? rest
      if 0xDC00 ≤ second && second < 0xE000 then
        some (Char.ofNat (0x10000 + (unit - 0xD800) * 0x400 + (second - 0xDC00)), rest)
      else none
    | _ => none
  else if 0xDC00 ≤ unit && unit < 0xE000 then none
  else some (Char.ofNat unit, rest)

/-- The character an escape letter stands for. -/
def simpleEscape? : Char → Option Char
  | '"' => some '"'
  | '\\' => some '\\'
  | '/' => some '/'
  | 'b' => some (Char.ofNat 8)
  | 'f' => some (Char.ofNat 12)
  | 'n' => some '\n'
  | 'r' => some '\r'
  | 't' => some '\t'
  | _ => none

/-- The content of a string after its opening quote, and the rest; `fuel` bounds its length. -/
def readString? : Nat → List Char → Option (List Char × List Char)
  | 0, _ => none
  | fuel + 1, text =>
    match text with
    | [] => none
    | '"' :: rest => some ([], rest)
    | '\\' :: 'u' :: rest => do
      let (c, rest) ← unicodeEscape? rest
      let (content, rest) ← readString? fuel rest
      some (c :: content, rest)
    | '\\' :: letter :: rest => do
      let c ← simpleEscape? letter
      let (content, rest) ← readString? fuel rest
      some (c :: content, rest)
    | c :: rest =>
      if c.toNat < 32 || c == '\\' then none
      else do
        let (content, rest) ← readString? fuel rest
        some (c :: content, rest)

/-- The digits of a number that fit 64 bits, the count of the digits dropped after them, and the
rest. Once a digit is dropped all later ones are. -/
def significand (value : Nat) : List Char → Nat × Nat × List Char
  | [] => (value, 0, [])
  | c :: rest =>
    if c.isDigit then
      let next := 10 * value + (c.toNat - '0'.toNat)
      if next < 0x10000000000000000 then significand next rest
      else (value, ((c :: rest).takeWhile Char.isDigit).length, (c :: rest).dropWhile Char.isDigit)
    else (value, 0, c :: rest)

/-- The float `digits * 10 ^ exponent` with at most one rounding per factor, or nothing if it is
too large; `fuel` bounds the number of factors. -/
def scaled? (value : Float) (exponent : Int) : Nat → Option Float
  | 0 => some value
  | fuel + 1 =>
    if exponent.natAbs ≤ 308 then
      let power := Number.nearest false (Nat.pow 10 exponent.natAbs) 1
      if exponent ≥ 0 then
        let product := value * power
        if product.isFinite then some product else none
      else some (value / power)
    else if value == 0.0 then some value
    else if exponent ≥ 0 then none
    else scaled? (value / Number.nearest false (Nat.pow 10 308) 1) (exponent + 308) fuel

/-- The float of a sign, a significand and an exponent. -/
def floatOfParts? (negative : Bool) (digits : Nat) (exponent : Int) : Option Value := do
  let magnitude ← scaled? (Number.floatOfInt digits) exponent 8
  some (.ofFloat (if negative then -magnitude else magnitude))

/-- The float whose exponent part, after its `e`, is at the front. An exponent beyond 32 bits is
zero or too large. -/
def readExponent? (negative : Bool) (digits : Nat) (exponent : Int) (text : List Char) :
    Option (Value × List Char) := do
  let (down, unsigned) := Number.splitSign text
  let exponentDigits := unsigned.takeWhile Char.isDigit
  let rest := unsigned.dropWhile Char.isDigit
  let written : Int := Number.naturalOfDecimals exponentDigits
  if exponentDigits.isEmpty then none
  else if written ≥ 0x80000000 then
    if digits != 0 && !down then none
    else some (.ofFloat (if negative then -0.0 else 0.0), rest)
  else
    let value ← floatOfParts? negative digits (exponent + if down then -written else written)
    some (value, rest)

/-- What follows the significand of a float: an exponent part or nothing. -/
def readScale? (negative : Bool) (digits : Nat) (exponent : Int) (text : List Char) :
    Option (Value × List Char) :=
  match text with
  | 'e' :: rest => readExponent? negative digits exponent rest
  | 'E' :: rest => readExponent? negative digits exponent rest
  | _ => (floatOfParts? negative digits exponent).map (·, text)

/-- The digits after the point of a float and what follows them. -/
def readFraction? (negative : Bool) (digits : Nat) (exponent : Int) (text : List Char) :
    Option (Value × List Char) :=
  let (all, dropped, rest) := significand digits text
  let count := text.length - rest.length
  if count == 0 then none
  else readScale? negative all (exponent - ((count - dropped : Nat) : Int)) rest

/-- A number after its sign. An integer with a sign that is zero or too small is a float. -/
def readUnsigned? (negative : Bool) (text : List Char) : Option (Value × List Char) :=
  match text with
  | '0' :: c :: _ => if c.isDigit then none else afterDigits
  | c :: _ => if c.isDigit then afterDigits else none
  | [] => none
where
  afterDigits : Option (Value × List Char) :=
    let (digits, dropped, rest) := significand 0 text
    match rest with
    | '.' :: fraction => readFraction? negative digits dropped fraction
    | 'e' :: _ => readScale? negative digits dropped rest
    | 'E' :: _ => readScale? negative digits dropped rest
    | _ =>
      if dropped > 0 then readScale? negative digits dropped rest
      else if !negative then some (.ofNat digits, rest)
      else if digits == 0 || digits > 0x8000000000000000 then
        some (.ofFloat (-(Number.floatOfInt digits)), rest)
      else some (.ofInt (-(digits : Int)), rest)

/-- A number. -/
def readNumber? : List Char → Option (Value × List Char)
  | '-' :: rest => readUnsigned? true rest
  | text => readUnsigned? false text

mutual

/-- The value at the front of a text, which may nest `depth` levels deep, and the rest. -/
def readValue? (depth : Nat) : Nat → List Char → Option (Value × List Char)
  | 0, _ => none
  | fuel + 1, text =>
    match skipBlanks text with
    | 'n' :: 'u' :: 'l' :: 'l' :: rest => some (.null, rest)
    | 't' :: 'r' :: 'u' :: 'e' :: rest => some (.bool true, rest)
    | 'f' :: 'a' :: 'l' :: 's' :: 'e' :: rest => some (.bool false, rest)
    | '"' :: rest => do
      let (content, rest) ← readString? (rest.length + 1) rest
      some (.str (String.ofList content), rest)
    | '[' :: rest =>
      match depth with
      | 0 => none
      | depth + 1 =>
        match skipBlanks rest with
        | ']' :: rest => some (.list [], rest)
        | rest => do
          let (items, rest) ← readItems? depth fuel rest
          some (.list items, rest)
    | '\x7b' :: rest =>
      match depth with
      | 0 => none
      | depth + 1 =>
        match skipBlanks rest with
        | '\x7d' :: rest => some (.object [], rest)
        | rest => do
          let (entries, rest) ← readEntries? depth fuel rest
          some (.object (insertEntries [] entries), rest)
    | text => readNumber? text

/-- The items of a list up to its bracket. -/
def readItems? (depth : Nat) : Nat → List Char → Option (List Value × List Char)
  | 0, _ => none
  | fuel + 1, text => do
    let (item, rest) ← readValue? depth fuel text
    match skipBlanks rest with
    | ',' :: rest =>
      let (items, rest) ← readItems? depth fuel rest
      some (item :: items, rest)
    | ']' :: rest => some ([item], rest)
    | _ => none

/-- The entries of an object up to its brace. -/
def readEntries? (depth : Nat) : Nat → List Char → Option (List (String × Value) × List Char)
  | 0, _ => none
  | fuel + 1, text =>
    match skipBlanks text with
    | '"' :: rest => do
      let (key, rest) ← readString? (rest.length + 1) rest
      match skipBlanks rest with
      | ':' :: rest =>
        let (value, rest) ← readValue? depth fuel rest
        match skipBlanks rest with
        | ',' :: rest =>
          let (entries, rest) ← readEntries? depth fuel rest
          some ((String.ofList key, value) :: entries, rest)
        | '\x7d' :: rest => some ([(String.ofList key, value)], rest)
        | _ => none
      | _ => none
    | _ => none

end

/-- How many levels a text may nest. -/
def depthLimit : Nat := 127

/-- The value of a whole JSON text. -/
def readAll? (text : List Char) : Option Value := do
  let (value, rest) ← readValue? depthLimit (2 * text.length + 2) text
  if (skipBlanks rest).isEmpty then some value else none

/-- The value of a JSON string. -/
def read? (text : String) : Option Value :=
  readAll? text.toList

end StreamQuery.Json
