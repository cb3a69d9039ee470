/-!
# Searching texts

Parts of texts: whether one occurs, where, how often, and cutting or replacing at occurrences. All
occurrences are found from the left and do not overlap.
-/

namespace StreamQuery.Text

/-- The text after a part at its front. -/
def dropPart? : (part text : List Char) → Option (List Char)
  | [], text => some text
  | _ :: _, [] => none
  | c :: part, d :: text => if c == d then dropPart? part text else none

/-- Whether a part occurs in a text. -/
def containsPart (part : List Char) : List Char → Bool
  | [] => part.isEmpty
  | c :: text => part.isPrefixOf (c :: text) || containsPart part text

/-- The number of characters before the first occurrence of a part. -/
def position? (part : List Char) : List Char → Option Nat
  | [] => if part.isEmpty then some 0 else none
  | c :: text =>
    if part.isPrefixOf (c :: text) then some 0 else (position? part text).map (· + 1)

/-- A text cut at the occurrences of a part that is not empty. The first `skip` characters belong
to an occurrence already found. -/
def cutFrom (part : List Char) (skip : Nat) : List Char → List (List Char)
  | [] => [[]]
  | c :: text =>
    match skip with
    | skip + 1 => cutFrom part skip text
    | 0 =>
      if part.isPrefixOf (c :: text) then [] :: cutFrom part (part.length - 1) text
      else match cutFrom part 0 text with
        | first :: rest => (c :: first) :: rest
        | [] => [[c]]

/-- A text cut at the occurrences of a part; the empty part cuts around every character. -/
def cut (part text : List Char) : List (List Char) :=
  if part.isEmpty then [] :: text.map (fun c => [c]) ++ [[]] else cutFrom part 0 text

/-- The number of occurrences of a part. -/
def occurrences (part text : List Char) : Nat :=
  (cut part text).length - 1

/-- A text with all occurrences of a part replaced. -/
def replace (part replacement text : List Char) : List Char :=
  replacement.intercalate (cut part text)

/-- The words of a text: what is left between characters of a class. -/
def wordsBy (isGap : Char → Bool) (text : List Char) : List (List Char) :=
  go text []
where
  go : List Char → List Char → List (List Char)
    | [], word => if word.isEmpty then [] else [word.reverse]
    | c :: rest, word =>
      if isGap c then (if word.isEmpty then go rest [] else word.reverse :: go rest [])
      else go rest (c :: word)

/-- A text without the characters of a class at its front. -/
def trimStart (p : Char → Bool) (text : List Char) : List Char :=
  text.dropWhile p

/-- A text without the characters of a class at its end. -/
def trimEnd (p : Char → Bool) (text : List Char) : List Char :=
  (text.reverse.dropWhile p).reverse

/-- A text without the characters of a class at both ends. -/
def trim (p : Char → Bool) (text : List Char) : List Char :=
  trimEnd p (trimStart p text)

end StreamQuery.Text
