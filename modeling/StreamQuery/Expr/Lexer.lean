import StreamQuery.Error
import StreamQuery.Number.Reading
import StreamQuery.Unicode.Case

/-!
# From text to tokens

Each scanner reads the longest lexeme of its class from the front of the text and returns what is
left, which is never longer than what it was given. Blanks separate tokens and are dropped.
-/

namespace StreamQuery.Lexer

/-- Characters of an identifier after its first one. -/
def isIdentifierPart (c : Char) : Bool :=
  Unicode.isAlphanumeric c || c == '_'

/-- Characters an identifier starts with. -/
def isIdentifierStart (c : Char) : Bool :=
  Unicode.isAlphabetic c || c == '_'

/-- Whether a character sits at the front. -/
def startsWith (p : Char → Bool) : List Char → Bool
  | c :: _ => p c
  | [] => false

/-- A scanned number: its characters without underscores, whether it has a point or an exponent,
and the text after it. -/
structure NumberScan where
  digits : List Char
  isFloat : Bool
  rest : List Char

/-- A number with one more character in front. -/
def NumberScan.push (c : Char) (scan : NumberScan) : NumberScan :=
  { scan with digits := c :: scan.digits }

/-- The longest number at the front. A point before a letter other than `e` belongs to a method
call. -/
def scanNumber (isFloat : Bool) : List Char → NumberScan
  | [] => ⟨[], isFloat, []⟩
  | c :: rest =>
    if c.isDigit then (scanNumber isFloat rest).push c
    else if c == '_' then scanNumber isFloat rest
    else if c == '.' && !isFloat then
      if startsWith (fun n => Unicode.isAlphabetic n && n != 'e' && n != 'E') rest then
        ⟨[], isFloat, c :: rest⟩
      else (scanNumber true rest).push c
    else if c == 'e' || c == 'E' then
      match rest with
      | n :: rest' =>
        if n == '-' || n == '+' || n.isDigit then ((scanNumber true rest').push n).push c
        else ⟨[], isFloat, c :: rest⟩
      | [] => ⟨[], isFloat, c :: rest⟩
    else ⟨[], isFloat, c :: rest⟩

/-- The token of a scanned number. Integers beyond signed 64 bits become floats. -/
def numberToken (digits : List Char) (isFloat : Bool) : Except SyntaxFault Token :=
  let value := Number.naturalOfDecimals digits
  if !isFloat && value < 0x8000000000000000 then .ok (.integer value)
  else match Number.readFloat? digits with
    | some x => .ok (.float x)
    | none => .error (.invalidFloat (String.ofList digits))

/-- The character an escape stands for, with the backslash kept before unknown escapes. -/
def escape (c : Char) : List Char :=
  match c with
  | 'n' => ['\n']
  | 't' => ['\t']
  | 'r' => ['\r']
  | '0' => ['\x00']
  | '\\' => ['\\']
  | '"' => ['"']
  | '\'' => ['\'']
  | _ => ['\\', c]

/-- The content of a string up to its closing quote, and the rest. A doubled quote stands for one
quote. -/
def scanString (quote : Char) : List Char → Option (List Char × List Char)
  | [] => none
  | [c] => if c == quote then some ([], []) else none
  | c :: n :: rest =>
    if c == quote then
      if n == quote then (scanString quote rest).map fun (text, after) => (quote :: text, after)
      else some ([], n :: rest)
    else if c == '\\' then
      (scanString quote rest).map fun (text, after) => (escape n ++ text, after)
    else (scanString quote (n :: rest)).map fun (text, after) => (c :: text, after)

/-- The keyword with a spelling in capitals. -/
def keyword? (capitals : String) : Option Symbol :=
  match capitals with
  | "AND" => some .andWord
  | "OR" => some .orWord
  | "NOT" => some .notWord
  | "IN" => some .inWord
  | "IS" => some .isWord
  | "LIKE" => some .likeWord
  | "IF" => some .ifWord
  | "TRUE" => some .trueWord
  | "FALSE" => some .falseWord
  | "NULL" => some .nullWord
  | "NONE" => some .nullWord
  | "CASE" => some .caseWord
  | "WHEN" => some .whenWord
  | "THEN" => some .thenWord
  | "ELSE" => some .elseWord
  | "END" => some .endWord
  | _ => none

/-- The token of a word: a keyword in any case, else an identifier. -/
def wordToken (word : List Char) : Token :=
  match keyword? (String.ofList (Unicode.upperText word)) with
  | some symbol => .symbol symbol
  | none => .identifier (String.ofList word)

/-- The sign at the front of a text, the longest one that fits, and the rest. -/
def scanSign : List Char → Option (Symbol × List Char)
  | '=' :: '=' :: rest => some (.equal, rest)
  | '=' :: rest => some (.assign, rest)
  | '!' :: '=' :: rest => some (.notEqual, rest)
  | '!' :: rest => some (.notWord, rest)
  | '<' :: '=' :: rest => some (.lessOrEqual, rest)
  | '<' :: '<' :: rest => some (.shiftLeft, rest)
  | '<' :: '>' :: rest => some (.notEqual, rest)
  | '<' :: rest => some (.less, rest)
  | '>' :: '=' :: rest => some (.greaterOrEqual, rest)
  | '>' :: '>' :: rest => some (.shiftRight, rest)
  | '>' :: rest => some (.greater, rest)
  | '+' :: rest => some (.plus, rest)
  | '-' :: rest => some (.minus, rest)
  | '*' :: '*' :: rest => some (.doubleStar, rest)
  | '*' :: rest => some (.star, rest)
  | '/' :: '/' :: rest => some (.doubleSlash, rest)
  | '/' :: rest => some (.slash, rest)
  | '%' :: rest => some (.percent, rest)
  | '&' :: '&' :: rest => some (.andWord, rest)
  | '&' :: rest => some (.ampersand, rest)
  | '|' :: '|' :: rest => some (.orWord, rest)
  | '|' :: rest => some (.pipe, rest)
  | '^' :: rest => some (.caret, rest)
  | '~' :: rest => some (.tilde, rest)
  | '.' :: rest => some (.dot, rest)
  | ',' :: rest => some (.comma, rest)
  | '\x7b' :: rest => some (.leftBrace, rest)
  | '\x7d' :: rest => some (.rightBrace, rest)
  | '[' :: rest => some (.leftBracket, rest)
  | ']' :: rest => some (.rightBracket, rest)
  | '(' :: rest => some (.leftParen, rest)
  | ')' :: rest => some (.rightParen, rest)
  | ':' :: rest => some (.colon, rest)
  | '?' :: '?' :: rest => some (.coalesce, rest)
  | '?' :: rest => some (.question, rest)
  | _ => none

/-- The token that starts with `c`, and the rest. -/
def scanToken (c : Char) (rest : List Char) : Except SyntaxFault (Token × List Char) :=
  if c.isDigit || (c == '.' && startsWith Char.isDigit rest) then
    let scan := scanNumber false (c :: rest)
    (numberToken scan.digits scan.isFloat).map (·, scan.rest)
  else if c == '"' || c == '\'' then
    match scanString c rest with
    | some (text, after) => .ok (.string (String.ofList text), after)
    | none => .error .unterminatedString
  else if isIdentifierStart c then
    .ok (wordToken ((c :: rest).takeWhile isIdentifierPart), rest.dropWhile isIdentifierPart)
  else match scanSign (c :: rest) with
    | some (symbol, after) => .ok (.symbol symbol, after)
    | none => .error (.unexpectedCharacter c)

theorem length_dropWhile_le (p : Char → Bool) (text : List Char) :
    (text.dropWhile p).length ≤ text.length :=
  (List.dropWhile_sublist p).length_le

@[simp] theorem NumberScan.rest_push (c : Char) (scan : NumberScan) :
    (scan.push c).rest = scan.rest := rfl

theorem length_scanNumber_le (isFloat : Bool) (text : List Char) :
    (scanNumber isFloat text).rest.length ≤ text.length := by
  fun_induction scanNumber isFloat text <;> simp_all <;> omega

/-- A digit of ASCII is no letter. -/
theorem isAlphabetic_of_isDigit {c : Char} (h : c.isDigit) : Unicode.isAlphabetic c = false := by
  simp only [Char.isDigit, Bool.and_eq_true, decide_eq_true_eq, ge_iff_le,
    UInt32.le_iff_toNat_le] at h
  have hval : c.val.toNat = c.toNat := rfl
  have hA : 'A'.val.toNat = 65 := rfl
  have ha : 'a'.val.toNat = 97 := rfl
  have h9 : '9'.val.toNat = 57 := rfl
  have ascii : c.toNat < 128 := by omega
  have letter : c.isAlpha = (decide (c.val ≥ 'A'.val ∧ c.val ≤ 'Z'.val) ||
    (decide (c.val ≥ 'a'.val) && decide (c.val ≤ 'z'.val))) := rfl
  simp only [Unicode.isAlphabetic, ascii, if_true, letter, Bool.or_eq_false_iff,
    Bool.and_eq_false_iff, decide_eq_false_iff_not, ge_iff_le, UInt32.le_iff_toNat_le]
  omega

theorem length_scanNumber_lt {c : Char} {rest : List Char}
    (h : c.isDigit || (c == '.' && startsWith Char.isDigit rest)) :
    (scanNumber false (c :: rest)).rest.length ≤ rest.length := by
  have digit := length_scanNumber_le false rest
  have point := length_scanNumber_le true rest
  rw [scanNumber.eq_def]
  by_cases hd : c.isDigit
  · simpa [hd] using digit
  · have hpoint : c = '.' ∧ startsWith Char.isDigit rest := by simpa [hd] using h
    obtain ⟨rfl, hs⟩ := hpoint
    have notAlpha : startsWith (fun n => Unicode.isAlphabetic n && n != 'e' && n != 'E') rest =
        false := by
      cases rest with
      | nil => rfl
      | cons n tail => simp [startsWith, isAlphabetic_of_isDigit (c := n) hs]
    simpa [notAlpha] using point

theorem length_scanString_le (quote : Char) (text content after : List Char)
    (h : scanString quote text = some (content, after)) : after.length < text.length := by
  fun_induction scanString quote text generalizing content <;> simp_all <;> grind

theorem length_scanSign_lt (text after : List Char) (symbol : Symbol)
    (h : scanSign text = some (symbol, after)) : after.length < text.length := by
  unfold scanSign at h
  split at h <;> simp at h <;> (obtain ⟨_, rfl⟩ := h; simp only [List.length_cons]; omega)

theorem length_scanToken_le {c : Char} {rest after : List Char} {token : Token}
    (h : scanToken c rest = .ok (token, after)) : after.length ≤ rest.length := by
  unfold scanToken at h
  split at h
  · rename_i hc
    cases hn : numberToken (scanNumber false (c :: rest)).digits
        (scanNumber false (c :: rest)).isFloat with
    | error _ => simp [hn, Except.map] at h
    | ok _ =>
      simp [hn, Except.map] at h
      obtain ⟨_, rfl⟩ := h
      exact length_scanNumber_lt hc
  · split at h
    · split at h
      · rename_i hs
        simp at h
        obtain ⟨_, rfl⟩ := h
        have := length_scanString_le _ _ _ _ hs
        omega
      · simp at h
    · split at h
      · simp at h
        obtain ⟨_, rfl⟩ := h
        exact length_dropWhile_le _ _
      · split at h
        · rename_i hs
          simp at h
          obtain ⟨_, rfl⟩ := h
          have := length_scanSign_lt _ _ _ hs
          simp at this
          omega
        · simp at h

/-- The tokens of a text. -/
def tokens (text : List Char) : Except SyntaxFault (List Token) :=
  match _hblank : text.dropWhile Unicode.isWhitespace with
  | [] => .ok []
  | c :: rest =>
    match _htoken : scanToken c rest with
    | .error fault => .error fault
    | .ok (token, after) =>
      match tokens after with
      | .ok following => .ok (token :: following)
      | .error fault => .error fault
termination_by text.length
decreasing_by
  have := length_scanToken_le _htoken
  have := length_dropWhile_le Unicode.isWhitespace text
  rw [_hblank] at this
  simp at this
  omega

end StreamQuery.Lexer

namespace StreamQuery

/-- The tokens of a string. -/
def tokenize (text : String) : Except SyntaxFault (List Token) :=
  Lexer.tokens text.toList

end StreamQuery
