import StreamQuery.Pattern.ClassReader

/-!
# Reading patterns

The syntax of regular expressions. There is no look-around and there are no references to groups;
a text that uses them, or is malformed otherwise, has no form. Every step consumes a character, so
the length of the text bounds the steps.
-/

namespace StreamQuery.Pattern

/-! ### Groups -/

/-- The flag of a letter. -/
def Flag.ofLetter? (letter : Char) : Option Flag :=
  match letter with
  | 'i' => some .ignoreCase
  | 'm' => some .multiLine
  | 's' => some .dotAll
  | 'U' => some .swapGreed
  | 'u' => some .unicode
  | 'x' => some .verbose
  | 'R' => some .crlf
  | _ => none

/-- The flags after `(?` up to the colon or parenthesis after them, which stays in the rest. No
letter may come twice, and neither may the hyphen, which needs a letter after it. -/
def flagChange? (value : Bool) (seen : List Char) :
    List Char → Option (FlagChange × List Char)
  | [] => none
  | c :: rest =>
    if c == ':' || c == ')' then
      if seen.head? == some '-' then none else some ([], c :: rest)
    else if seen.contains c then none
    else if c == '-' then flagChange? false (c :: seen) rest
    else do
      let flag ← Flag.ofLetter? c
      let (change, rest) ← flagChange? value (c :: seen) rest
      some ((flag, value) :: change, rest)

/-- Whether the verbose flag is set after a change. -/
def verboseAfter (change : FlagChange) (verbose : Bool) : Bool :=
  match change.find? (·.1 == .verbose) with
  | some (_, value) => value
  | none => verbose

/-- The name of a group up to its closing angle. -/
def groupName? (text : List Char) : Option (String × List Char) :=
  let name := text.takeWhile (· != '>')
  match text.dropWhile (· != '>'), name with
  | _ :: rest, c :: more =>
    if (c == '_' || Unicode.isAlphabetic c) &&
        more.all (fun c => c == '_' || c == '.' || c == '[' || c == ']' ||
          Unicode.isAlphanumeric c) then
      some (String.ofList name, rest)
    else none
  | _, _ => none

/-! ### Repetitions -/

/-- The digits of a decimal count. -/
def countDigits (verbose : Bool) : List Char → List Char × List Char
  | [] => ([], [])
  | c :: rest =>
    if c.isDigit then
      let (digits, rest) := countDigits verbose (skip verbose rest)
      (c :: digits, rest)
    else ([], c :: rest)
termination_by text => text.length
decreasing_by
  have := length_skip_le verbose rest
  simp only [List.length_cons]
  omega

/-- A text without the blanks at its front, and without comments after one of them if the verbose
flag is set. -/
def dropCountBlanks (verbose : Bool) : List Char → List Char
  | [] => []
  | c :: rest =>
    if Unicode.isWhitespace c then dropCountBlanks verbose (skip verbose rest) else c :: rest
termination_by text => text.length
decreasing_by
  have := length_skip_le verbose rest
  simp only [List.length_cons]
  omega

/-- A decimal count of 32 bits with blanks around it. -/
def count? (verbose : Bool) (text : List Char) : Option (Nat × List Char) :=
  let (digits, rest) := countDigits verbose (text.dropWhile Unicode.isWhitespace)
  let count := Number.naturalOfDecimals digits
  if digits.isEmpty || count ≥ 0x100000000 then none else some (count, dropCountBlanks verbose rest)

/-- The counts of a repetition after its opening brace. -/
def counts? (verbose : Bool) (text : List Char) :
    Option (Nat × Option Nat × List Char) := do
  let (least, rest) ← count? verbose (skip verbose text)
  match rest with
  | '\x7d' :: rest => some (least, some least, rest)
  | ',' :: rest =>
    match skip verbose rest with
    | '\x7d' :: rest => some (least, none, rest)
    | rest =>
      let (most, rest) ← count? verbose rest
      match rest with
      | '\x7d' :: rest => if least ≤ most then some (least, some most, rest) else none
      | _ => none
  | _ => none

/-- Parts, last one first, with the last of them repeated. Flags are nothing to repeat. -/
def repeatLast? (parts : List Form) (least : Nat) (most : Option Nat) (greedy : Bool) :
    Option (List Form) :=
  match parts with
  | [] => none
  | .setFlags _ :: _ => none
  | last :: before => some (.repeated last least most greedy :: before)

/-! ### The body of a pattern -/

/-- A group still open: how its form is wrapped, whether the verbose flag was set before it, and
what was read before it, last one first. -/
structure OpenGroup where
  wrap : Form → Form
  verbose : Bool
  branches : List Form
  parts : List Form

/-- The groups opened so far: their number and the names among them. -/
structure GroupNames where
  count : Nat := 0
  names : List String := []

/-- The form read from a text: `parts` and `branches` of the innermost group so far, last one
first, inside the groups `outer`. -/
def body? (verbose : Bool) (groups : GroupNames) (parts branches : List Form)
    (outer : List OpenGroup) : Nat → List Char → Option Form
  | 0, _ => none
  | fuel + 1, text =>
    let closed := Form.ofBranches (Form.ofParts parts.reverse :: branches).reverse
    let push (part : Form) (rest : List Char) : Option Form :=
      body? verbose groups (part :: parts) branches outer fuel rest
    let counted (least : Nat) (most : Option Nat) (rest : List Char) : Option Form :=
      let (greedy, rest) := match rest with
        | '?' :: rest => (false, rest)
        | rest => (true, rest)
      match repeatLast? parts least most greedy with
      | some parts => body? verbose groups parts branches outer fuel rest
      | none => none
    let opened (groups : GroupNames) (wrap : Form → Form) (inner : Bool) (rest : List Char) :
        Option Form :=
      body? inner groups [] [] (⟨wrap, verbose, branches, parts⟩ :: outer) fuel rest
    let named (text : List Char) : Option Form :=
      match groupName? text with
      | some (name, rest) =>
        if groups.names.contains name then none
        else
          let index := groups.count + 1
          opened ⟨index, name :: groups.names⟩ (.group index (some name)) verbose rest
      | none => none
    match skip verbose text with
    | [] => if outer.isEmpty then some closed else none
    | '|' :: rest =>
      body? verbose groups [] (Form.ofParts parts.reverse :: branches) outer fuel rest
    | ')' :: rest =>
      match outer with
      | [] => none
      | closing :: outer =>
        body? closing.verbose groups (closing.wrap closed :: closing.parts) closing.branches outer
          fuel rest
    | '(' :: rest =>
      match skip verbose rest with
      | '?' :: 'P' :: '<' :: rest => named rest
      | '?' :: '<' :: rest => named rest
      | '?' :: rest =>
        match flagChange? true [] rest with
        | some (change, ':' :: rest) =>
          opened groups (.flagged change) (verboseAfter change verbose) rest
        | some (change, _ :: rest) =>
          if change.isEmpty then none
          else
            body? (verboseAfter change verbose) groups (.setFlags change :: parts) branches outer
              fuel rest
        | _ => none
      | rest =>
        let index := groups.count + 1
        opened ⟨index, groups.names⟩ (.group index none) verbose rest
    | '[' :: rest =>
      match bracketClass? verbose rest with
      | some (part, rest) => push part rest
      | none => none
    | '*' :: rest => counted 0 none rest
    | '+' :: rest => counted 1 none rest
    | '?' :: rest => counted 0 (some 1) rest
    | '\x7b' :: rest =>
      match counts? verbose rest with
      | some (least, most, rest) => counted least most (skip verbose rest)
      | none => none
    | '\\' :: rest =>
      match escape? verbose rest with
      | some (part, rest) => push part rest
      | none => none
    | '.' :: rest => push .dot rest
    | '^' :: rest => push (.anchor .caret) rest
    | '$' :: rest => push (.anchor .dollar) rest
    | c :: rest => push (.literal ⟨c, false⟩) rest

/-- The form of a text, if the text is a pattern that is not nested too deeply. -/
def Form.ofText? (text : List Char) : Option Form :=
  match body? false {} [] [] [] (text.length + 1) text with
  | some form => if form.nesting ≤ Form.nestingLimit then some form else none
  | none => none

end StreamQuery.Pattern
