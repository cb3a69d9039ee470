import StreamQuery.Pattern.Escape

/-!
# Reading bracketed classes

A class holds characters, ranges, named classes and further classes in brackets, and operators
between what stands to their left and to their right. Operators are read from left to right and
bind weaker than standing next to each other.
-/

namespace StreamQuery.Pattern

/-- An open class: whether it is negated, the operation that its next operand completes, and the
items of that operand read so far, last one first. -/
structure OpenClass where
  negated : Bool
  pending : Option (SetOperator × ClassForm)
  items : List ClassForm

namespace OpenClass

/-- One more item of the current operand. -/
def add (current : OpenClass) (item : ClassForm) : OpenClass :=
  { current with items := item :: current.items }

/-- What was read so far, with the pending operation completed. -/
def operand (current : OpenClass) : ClassForm :=
  let right := ClassForm.ofItems current.items.reverse
  match current.pending with
  | some (operator, left) => .operation operator left right
  | none => right

/-- The class starts its next operand. -/
def startOperand (operator : SetOperator) (current : OpenClass) : OpenClass :=
  { current with pending := some (operator, current.operand), items := [] }

end OpenClass

/-- A character that stands for itself. -/
def plain (c : Char) : ClassForm :=
  .literal ⟨c, false⟩

/-- Leading hyphens of a class stand for themselves. -/
def leadingHyphens (verbose : Bool) (current : OpenClass) :
    List Char → OpenClass × List Char
  | [] => (current, [])
  | c :: rest =>
    if c == '-' then leadingHyphens verbose (current.add (plain '-')) (skip verbose rest)
    else (current, c :: rest)
termination_by text => text.length
decreasing_by
  have := length_skip_le verbose rest
  simp only [List.length_cons]
  omega

/-- A class after its opening bracket, up to its first ordinary item. A closing bracket that would
leave the class empty stands for itself. -/
def openClass (verbose : Bool) (text : List Char) : OpenClass × List Char :=
  let (negated, text) := match skip verbose text with
    | '^' :: rest => (true, skip verbose rest)
    | text => (false, text)
  let (current, text) := leadingHyphens verbose ⟨negated, none, []⟩ text
  match text with
  | ']' :: rest =>
    if current.items.isEmpty then (current.add (plain ']'), skip verbose rest) else (current, text)
  | _ => (current, text)

/-- A named ASCII class after `[:`, and the rest. -/
def asciiClass? (text : List Char) : Option (ClassForm × List Char) :=
  let (negated, text) := match text with
    | '^' :: rest => (true, rest)
    | _ => (false, text)
  match text.dropWhile (· != ':') with
  | ':' :: ']' :: rest =>
    (AsciiClass.ofName? (String.ofList (text.takeWhile (· != ':')))).map
      fun kind => (.ascii kind negated, rest)
  | _ => none

/-- One element of a class, and the rest. -/
def classElement? (verbose : Bool) : List Char → Option (Form × List Char)
  | [] => none
  | '\\' :: rest => escape? verbose rest
  | c :: rest => some (.literal ⟨c, false⟩, rest)

/-- An element as an item of a class; conditions on positions are none. -/
def classItem? : Form → Option ClassForm
  | .literal literal => some (.literal literal)
  | .letter kind negated => some (.letter kind negated)
  | .property query negated => some (.property query negated)
  | _ => none

/-- An element or a range of a class. A hyphen before the end of the class or before another hyphen
does not make a range. -/
def classRange? (verbose : Bool) (text : List Char) : Option (ClassForm × List Char) := do
  let (first, rest) ← classElement? verbose text
  match skip verbose rest with
  | [] => none
  | '-' :: after =>
    let next := glance verbose after
    if next == some ']' || next == some '-' then (classItem? first).map (·, '-' :: after)
    else
      let (last, rest) ← classElement? verbose (skip verbose after)
      match first, last with
      | .literal first, .literal last =>
        if first.char ≤ last.char then some (.range first last, rest) else none
      | _, _ => none
  | rest => (classItem? first).map (·, rest)

/-- The class whose current operand is `current`, inside the classes `outer`. Every step consumes a
character, so the length of the text bounds the steps. -/
def classBody? (verbose : Bool) (current : OpenClass) (outer : List OpenClass) :
    Nat → List Char → Option (Form × List Char)
  | 0, _ => none
  | fuel + 1, text =>
    match skip verbose text with
    | [] => none
    | '[' :: rest =>
      let nested := fun (_ : Unit) =>
        let (inner, rest) := openClass verbose rest
        classBody? verbose inner (current :: outer) fuel rest
      match rest with
      | ':' :: named => match asciiClass? named with
        | some (item, rest) => classBody? verbose (current.add item) outer fuel rest
        | none => nested ()
      | _ => nested ()
    | ']' :: rest =>
      match outer with
      | [] => some (.bracket current.negated current.operand, rest)
      | enclosing :: outer =>
        classBody? verbose (enclosing.add (.bracket current.negated current.operand)) outer fuel
          rest
    | '&' :: '&' :: rest =>
      classBody? verbose (current.startOperand .intersection) outer fuel rest
    | '-' :: '-' :: rest =>
      classBody? verbose (current.startOperand .difference) outer fuel rest
    | '~' :: '~' :: rest =>
      classBody? verbose (current.startOperand .symmetricDifference) outer fuel rest
    | text => do
      let (item, rest) ← classRange? verbose text
      classBody? verbose (current.add item) outer fuel rest

/-- A class after its opening bracket, and the rest. -/
def bracketClass? (verbose : Bool) (text : List Char) : Option (Form × List Char) :=
  let (current, rest) := openClass verbose text
  classBody? verbose current [] (text.length + 1) rest

end StreamQuery.Pattern
