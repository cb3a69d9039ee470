import StreamQuery.Number.Reading
import StreamQuery.Value.Basic

/-!
# Scalars of TOML

Strings, numbers and date-times at the front of a text. Integers have 64 bits with a sign. Values
without a counterpart in JSON become null, if they are floats, or an object of one entry, if they
are date-times.
-/

namespace StreamQuery.Toml

/-- Blanks within a line. -/
def isBlank (c : Char) : Bool :=
  c == ' ' || c == '\t'

/-- Characters of comments and of strings on one line. -/
def isLineChar (c : Char) : Bool :=
  c == '\t' || (32 ≤ c.toNat && c.toNat != 127)

/-! ### Strings -/

/-- The character of a hexadecimal code. -/
def charOfHex? (digits : List Char) : Option Char := do
  let code ← Number.naturalOfDigits? 16 digits
  if code.isValidChar then some (Char.ofNat code) else none

/-- The character an escape letter stands for. -/
def escaped? : Char → Option Char
  | 'b' => some (Char.ofNat 8)
  | 't' => some '\t'
  | 'n' => some '\n'
  | 'f' => some (Char.ofNat 12)
  | 'r' => some '\r'
  | '"' => some '"'
  | '\\' => some '\\'
  | _ => none

/-- The character of an escape after its backslash, and the rest. -/
def readEscape? : List Char → Option (Char × List Char)
  | 'u' :: rest => do
    if rest.length < 4 then none
    else some (← charOfHex? (rest.take 4), rest.drop 4)
  | 'U' :: rest => do
    if rest.length < 8 then none
    else some (← charOfHex? (rest.take 8), rest.drop 8)
  | letter :: rest => do some (← escaped? letter, rest)
  | [] => none

/-- The content of a string after its opening quote, and the rest; `fuel` bounds its length. -/
def readBasic? : Nat → List Char → Option (List Char × List Char)
  | 0, _ => none
  | fuel + 1, text =>
    match text with
    | [] => none
    | '"' :: rest => some ([], rest)
    | '\\' :: rest => do
      let (c, rest) ← readEscape? rest
      let (content, rest) ← readBasic? fuel rest
      some (c :: content, rest)
    | c :: rest =>
      if isLineChar c then do
        let (content, rest) ← readBasic? fuel rest
        some (c :: content, rest)
      else none

/-- The content of a string without escapes after its opening quote, and the rest. -/
def readLiteral? : List Char → Option (List Char × List Char)
  | [] => none
  | '\'' :: rest => some ([], rest)
  | c :: rest =>
    if isLineChar c then do
      let (content, rest) ← readLiteral? rest
      some (c :: content, rest)
    else none

/-- The quotes right before the end of a string of several lines, of which two may belong to it,
after the three that would end it. -/
def lastQuotes (quote : Char) (text : List Char) : List Char × List Char :=
  let count := min 2 (text.takeWhile (· == quote)).length
  (List.replicate count quote, text.drop count)

/-- A text without the blanks and line ends at its front. -/
def skipLines : List Char → List Char
  | '\r' :: '\n' :: rest => skipLines rest
  | c :: rest => if isBlank c || c == '\n' then skipLines rest else c :: rest
  | [] => []

/-- A text after the line end at its front, which blanks may precede. -/
def afterLine? (text : List Char) : Option (List Char) :=
  match text.dropWhile isBlank with
  | '\n' :: rest => some rest
  | '\r' :: '\n' :: rest => some rest
  | _ => none

/-- The content of a string of several lines after its opening quotes, and the rest. A backslash
at the end of a line drops the line end and the blanks after it. -/
def readLongBasic? : Nat → List Char → Option (List Char × List Char)
  | 0, _ => none
  | fuel + 1, text =>
    let goOn (c : Char) (rest : List Char) : Option (List Char × List Char) := do
      let (content, rest) ← readLongBasic? fuel rest
      some (c :: content, rest)
    match text with
    | [] => none
    | '"' :: '"' :: '"' :: rest => some (lastQuotes '"' rest)
    | '\\' :: rest =>
      match afterLine? rest with
      | some rest => readLongBasic? fuel (skipLines rest)
      | none => do
        let (c, rest) ← readEscape? rest
        goOn c rest
    | '\r' :: '\n' :: rest => goOn '\n' rest
    | c :: rest => if isLineChar c || c == '\n' then goOn c rest else none

/-- The content of a string of several lines without escapes after its opening quotes, and the
rest. -/
def readLongLiteral? : List Char → Option (List Char × List Char)
  | [] => none
  | '\'' :: '\'' :: '\'' :: rest => some (lastQuotes '\'' rest)
  | '\r' :: '\n' :: rest => do
    let (content, rest) ← readLongLiteral? rest
    some ('\n' :: content, rest)
  | c :: rest =>
    if isLineChar c || c == '\n' then do
      let (content, rest) ← readLongLiteral? rest
      some (c :: content, rest)
    else none

/-- A text without a line end at its front. -/
def withoutLineEnd : List Char → List Char
  | '\n' :: rest => rest
  | '\r' :: '\n' :: rest => rest
  | text => text

/-- A string, and the rest. -/
def readString? : List Char → Option (List Char × List Char)
  | '"' :: '"' :: '"' :: rest => readLongBasic? (rest.length + 1) (withoutLineEnd rest)
  | '"' :: rest => readBasic? (rest.length + 1) rest
  | '\'' :: '\'' :: '\'' :: rest => readLongLiteral? (withoutLineEnd rest)
  | '\'' :: rest => readLiteral? rest
  | _ => none

/-! ### Numbers -/

/-- Digits with single underscores between them, without those, and the rest. -/
def digitGroups (isDigit : Char → Bool) : List Char → List Char × List Char
  | '_' :: c :: rest =>
    if isDigit c then
      let (digits, rest) := digitGroups isDigit rest
      (c :: digits, rest)
    else ([], '_' :: c :: rest)
  | c :: rest =>
    if isDigit c then
      let (digits, rest) := digitGroups isDigit rest
      (c :: digits, rest)
    else ([], c :: rest)
  | [] => ([], [])

/-- Digits that begin with a digit, and the rest. -/
def readDigits? (isDigit : Char → Bool) (text : List Char) : Option (List Char × List Char) :=
  if text.head?.any isDigit then some (digitGroups isDigit text) else none

/-- A sign and the text after it. -/
def takeSign : List Char → List Char × List Char
  | '-' :: rest => (['-'], rest)
  | '+' :: rest => (['+'], rest)
  | text => ([], text)

/-- An integer in a radix, and the rest. -/
def readRadix? (radix : Nat) (text : List Char) : Option (Value × List Char) := do
  let (digits, rest) ← readDigits? (fun c => (Number.digitValue? radix c).isSome) text
  some (.ofInt (← Number.readInt64? radix digits), rest)

/-- The digits before the point of a number, which begin with zero only if that is all. -/
def readWhole? : List Char → Option (List Char × List Char)
  | '0' :: rest => some (['0'], rest)
  | text => readDigits? Char.isDigit text

/-- The digits after the point at the front, and the rest; no digits without a point. -/
def readFraction? : List Char → Option (List Char × List Char)
  | '.' :: rest => do
    let (digits, rest) ← readDigits? Char.isDigit rest
    some ('.' :: digits, rest)
  | text => some ([], text)

/-- The exponent at the front, and the rest. -/
def readExponent? : List Char → Option (List Char × List Char)
  | c :: rest =>
    if c == 'e' || c == 'E' then do
      let (sign, rest) := takeSign rest
      let (digits, rest) ← readDigits? Char.isDigit rest
      some ('e' :: sign ++ digits, rest)
    else some ([], c :: rest)
  | [] => some ([], [])

/-- The value of a float. One that is too large is refused if it is positive. -/
def floatValue? (text : List Char) : Option Value := do
  let x ← Number.readFloat? text
  if x.isInf && x > 0.0 then none else some (.ofFloat x)

/-- A decimal number, and the rest. -/
def readDecimal? (text : List Char) : Option (Value × List Char) := do
  let (sign, unsigned) := takeSign text
  match unsigned with
  | 'i' :: 'n' :: 'f' :: rest => some (.null, rest)
  | 'n' :: 'a' :: 'n' :: rest => some (.null, rest)
  | _ =>
    let (whole, rest) ← readWhole? unsigned
    let (fraction, rest) ← readFraction? rest
    let (exponent, rest) ← readExponent? rest
    if fraction.isEmpty && exponent.isEmpty then
      some (.ofInt (← Number.readInt64? 10 (sign ++ whole)), rest)
    else some (← floatValue? (sign ++ whole ++ fraction ++ exponent), rest)

/-- A number, and the rest. -/
def readNumber? : List Char → Option (Value × List Char)
  | '0' :: 'x' :: rest => readRadix? 16 rest
  | '0' :: 'o' :: rest => readRadix? 8 rest
  | '0' :: 'b' :: rest => readRadix? 2 rest
  | text => readDecimal? text

/-! ### Date-times -/

/-- The number of a fixed count of digits, if it lies in a range, and the rest. -/
def readField? (width least most : Nat) (text : List Char) : Option (Nat × List Char) :=
  let digits := text.take width
  let number := Number.naturalOfDecimals digits
  if digits.length == width && digits.all Char.isDigit && least ≤ number && number ≤ most then
    some (number, text.drop width)
  else none

/-- A text after a character. -/
def dropChar? (c : Char) : List Char → Option (List Char)
  | d :: rest => if c == d then some rest else none
  | [] => none

/-- The number of days of a month, in years with and without a leap day. -/
def monthLength (year month : Nat) : Nat :=
  if month == 2 then
    if year % 4 == 0 && (year % 100 != 0 || year % 400 == 0) then 29 else 28
  else if [4, 6, 9, 11].contains month then 30
  else 31

/-- A date as it is written, and the rest. -/
def readDate? (text : List Char) : Option (List Char × List Char) := do
  let (year, rest) ← readField? 4 0 9999 text
  let rest ← dropChar? '-' rest
  let (month, rest) ← readField? 2 1 12 rest
  let rest ← dropChar? '-' rest
  let (_, rest) ← readField? 2 1 (monthLength year month) rest
  some (text.take 10, rest)

/-- The parts of a second, of which nine digits count, as they are shown, and the rest. -/
def readSecondParts (text : List Char) : List Char × List Char :=
  match text with
  | '.' :: rest =>
    let digits := rest.takeWhile Char.isDigit
    if digits.isEmpty then ([], text)
    else
      let shown := ((digits.take 9).reverse.dropWhile (· == '0')).reverse
      (if shown.isEmpty then [] else '.' :: shown, rest.drop digits.length)
  | _ => ([], text)

/-- A time of day as it is shown, and the rest. -/
def readTime? (text : List Char) : Option (List Char × List Char) := do
  let (_, rest) ← readField? 2 0 23 text
  let rest ← dropChar? ':' rest
  let (_, rest) ← readField? 2 0 59 rest
  let rest ← dropChar? ':' rest
  let (_, rest) ← readField? 2 0 60 rest
  let (parts, rest) := readSecondParts rest
  some (text.take 8 ++ parts, rest)

/-- An offset as it is shown, if there is one, and the rest. -/
def readOffset (text : List Char) : List Char × List Char :=
  match text with
  | 'Z' :: rest => (['Z'], rest)
  | 'z' :: rest => (['Z'], rest)
  | sign :: digits =>
    let offset? : Option (List Char) := do
      let (_, rest) ← readField? 2 0 23 digits
      let rest ← dropChar? ':' rest
      let (_, rest) ← readField? 2 0 59 rest
      some rest
    match sign == '+' || sign == '-', offset? with
    | true, some rest =>
      let shown := digits.take 5
      ((if shown == ['0', '0', ':', '0', '0'] then '+' else sign) :: shown, rest)
    | _, _ => ([], text)
  | [] => ([], [])

/-- The time and the offset after a date as they are shown, and the rest. -/
def readTimeOfDate (text : List Char) : List Char × List Char :=
  match text with
  | divider :: rest =>
    match divider == 'T' || divider == 't' || divider == ' ', readTime? rest with
    | true, some (time, rest) =>
      let (offset, rest) := readOffset rest
      ('T' :: time ++ offset, rest)
    | _, _ => ([], text)
  | [] => ([], [])

/-- The name of the only entry of a date-time as a value. -/
def dateTimeKey : String := "$__toml_private_datetime"

/-- A date-time, and the rest. -/
def readDateTime? (text : List Char) : Option (Value × List Char) := do
  let (shown, rest) ← match readDate? text with
    | some (date, rest) =>
      let (time, rest) := readTimeOfDate rest
      some (date ++ time, rest)
    | none => readTime? text
  some (.object [(dateTimeKey, .str (String.ofList shown))], rest)

end StreamQuery.Toml
