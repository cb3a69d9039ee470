import Mathlib
import StreamQuery.Proofs.Expr.Columns
import StreamQuery.Proofs.Expr.Joining
import StreamQuery.Proofs.Query.Binding
import StreamQuery.Proofs.Value.Entries

/-!
# Tokens of bound texts

Putting the access to a column in the place of whole words of a text does the same to the tokens of
the text, unless a word is something else for the lexer than it looks like. Only two such words are
in expressions: a member behind a dot and blanks, and digits behind the sign of an exponent. Where a
word is not by itself, a number or a string stands right before it, so it is a keyword.
-/

namespace StreamQuery

namespace Lexer

/-! ### Words that are no columns -/

/-- Whether a word is an identifier and no keyword. -/
def isIdentifier (word : List Char) : Bool :=
  startsWith isIdentifierStart word && word.all isIdentifierPart &&
    (keyword? (String.ofList (Unicode.upperText word))).isNone

/-- The words right behind the sign of an exponent, in the number at the front of a text. -/
def exponentWords (isFloat : Bool) : List Char → List String
  | [] => []
  | c :: rest =>
    if c.isDigit then exponentWords isFloat rest
    else if c == '_' then exponentWords isFloat rest
    else if c == '.' && !isFloat then
      if startsWith (fun n => Unicode.isAlphabetic n && n != 'e' && n != 'E') rest then []
      else exponentWords true rest
    else if c == 'e' || c == 'E' then
      match rest with
      | n :: rest' =>
        if n.isDigit then exponentWords true rest'
        else if n == '-' || n == '+' then frontWord rest' :: exponentWords true rest'
        else []
      | [] => []
    else []

/-- The member behind blanks at the front of a text, unless it is called. -/
def spacedMember (text : List Char) : List String :=
  let member := text.dropWhile Unicode.isWhitespace
  if startsWith Unicode.isWhitespace text &&
      !Fragment.opensCall (Fragment.ofText (member.dropWhile isIdentifierPart)) then
    [frontWord member]
  else []

/-- The words of a token, or behind it, that are no columns and look like columns: those that the
sign of an exponent takes into a number, and a member behind a dot and blanks. -/
def hiddenWords (c : Char) (rest : List Char) (token : Token) (after : List Char) : List String :=
  if startsNumber c rest then exponentWords false (c :: rest)
  else if token.isDot then spacedMember after
  else []

/-- The words of a text that are no columns, look like columns and have no place among its tokens
that would tell. -/
def hidden (text : List Char) : List String :=
  match _hblank : text.dropWhile Unicode.isWhitespace with
  | [] => []
  | c :: rest =>
    match _htoken : scanToken c rest with
    | .error _ => []
    | .ok (token, after) => hiddenWords c rest token after ++ hidden after
termination_by text.length
decreasing_by exact length_lt_of_scanToken _hblank _htoken

theorem hidden_token {text rest after : List Char} {c : Char} {token : Token}
    (h : text.dropWhile Unicode.isWhitespace = c :: rest)
    (htoken : scanToken c rest = .ok (token, after)) :
    hidden text = hiddenWords c rest token after ++ hidden after := by
  rw [hidden]
  split
  · rename_i hblank
    cases h.symm.trans hblank
  · rename_i hblank
    cases h.symm.trans hblank
    split
    · rename_i hscan
      cases htoken.symm.trans hscan
    · rename_i hscan
      cases htoken.symm.trans hscan
      rfl

/-! ### Scanning a token -/

theorem isIdentifierStart_of_isDigit {c : Char} (h : c.isDigit = true) :
    isIdentifierStart c = false := by
  have hunderscore : c ≠ '_' := by
    rintro rfl
    revert h
    decide
  simp [isIdentifierStart, isAlphabetic_of_isDigit h, hunderscore]

theorem scanToken_number {c : Char} {rest : List Char}
    (h : startsNumber c rest = true) :
    scanToken c rest =
      (numberToken (scanNumber false (c :: rest)).digits (scanNumber false (c :: rest)).isFloat).map
        (·, (scanNumber false (c :: rest)).rest) := by
  unfold startsNumber at h
  rw [scanToken, if_pos h]

theorem scanToken_word {c : Char} (h : isIdentifierStart c = true) (rest : List Char) :
    scanToken c rest = .ok (wordToken ((c :: rest).takeWhile isIdentifierPart),
      (c :: rest).dropWhile isIdentifierPart) := by
  have hdigit : c.isDigit = false := by
    refine Bool.eq_false_iff.mpr fun hdigit => ?_
    cases h.symm.trans (isIdentifierStart_of_isDigit hdigit)
  have hne {d : Char} (hd : isIdentifierStart d = false) : (c == d) = false := by
    refine beq_false_of_ne ?_
    rintro rfl
    cases h.symm.trans hd
  rw [scanToken, hdigit, hne (by decide), hne (by decide), hne (by decide), if_neg (by simp),
    if_neg (by simp), if_pos h, List.dropWhile_cons,
    if_pos (isIdentifierPart_of_isIdentifierStart h)]

theorem scanSign_start {c : Char} {rest after : List Char} {symbol : Symbol}
    (h : scanSign (c :: rest) = some (symbol, after)) :
    Unicode.isWhitespace c = false ∧ Literal.isQuote c = false ∧
      Fragment.isNameChar c = false := by
  unfold scanSign at h
  split at h <;> cases h
  all_goals rename_i heq; cases heq; decide

theorem scanToken_sign {c : Char} {rest after : List Char} {symbol : Symbol}
    (hnumber : startsNumber c rest = false)
    (h : scanSign (c :: rest) = some (symbol, after)) :
    scanToken c rest = .ok (.symbol symbol, after) := by
  obtain ⟨-, hquote, hname⟩ := scanSign_start h
  have hstart : isIdentifierStart c = false := by
    refine Bool.eq_false_iff.mpr fun hstart => ?_
    cases (isIdentifierPart_of_isIdentifierStart hstart).symm.trans hname
  have hquote' : (c == '"' || c == '\'') = false := (Bool.or_comm _ _).trans hquote
  unfold startsNumber at hnumber
  rw [scanToken, hnumber, hquote', hstart, h]
  rfl

end Lexer

/-! ### Scanning a bound text -/

namespace ColumnBindings

open Fragment Lexer

variable {bindings : ColumnBindings} {dotted : Bool} {text rest : List Char}

/-! #### Signs -/

/-- A sign stays, and a dot keeps the word behind it. -/
theorem scanSign_bindAfter (bindings : ColumnBindings) (dotted : Bool) {after : List Char}
    {symbol : Symbol}
    (h : scanSign text = some (symbol, after)) :
    scanSign (bindings.bindAfter dotted text) =
      some (symbol, bindings.bindAfter (symbol == .dot) after) := by
  unfold scanSign at h
  split at h <;> cases h
  all_goals rw [bindAfter_sign (by decide) (by decide)]
  -- A sign of two characters, one that no longer sign begins with, or one without the next
  -- character of any longer sign.
  all_goals first
    | (rw [bindAfter_sign (by decide) (by decide)]; rfl)
    | rfl
    | (rw [scanSign] <;> first | rfl | exact bindAfter_ne_cons (by decide) ‹_›)

/-! #### Numbers -/

/-- A number stays, unless the sign of an exponent takes in a word that is bound. -/
theorem scanNumber_bindAfter (bindings : ColumnBindings) (isFloat : Bool) (text : List Char)
    (h : ∀ name ∈ exponentWords isFloat text, lookup? name bindings = none) :
    scanNumber isFloat (bindings.bindAfter true text) =
      { scanNumber isFloat text with
        rest := bindings.bindAfter true (scanNumber isFloat text).rest } := by
  have hname {c : Char} (h : (c == 'e' || c == 'E') = true) : isNameChar c = true := by
    rcases (by simpa using h : c = 'e' ∨ c = 'E') with rfl | rfl <;> decide
  have hstart (p : Char → Bool) (rest : List Char) :
      startsWith p (bindings.bindAfter true rest) = startsWith p rest :=
    startsWith_eq_of_head? (head?_bindAfter_true bindings rest)
  have hdot (rest : List Char) : bindings.bindAfter true ('.' :: rest) =
      '.' :: bindings.bindAfter true rest := bindAfter_sign (by decide) (by decide) rest
  fun_induction scanNumber isFloat text with
  | case1 => rfl
  | case2 isFloat c rest hdigit ih =>
    rw [exponentWords.eq_def] at h
    simp only [hdigit, if_true] at h
    rw [bindAfter_true_cons (isNameChar_of_isDigit hdigit), scanNumber_digit hdigit, ih h]
    rfl
  | case3 isFloat c rest hdigit hunderscore ih =>
    rw [exponentWords.eq_def] at h
    simp only [hdigit, hunderscore, if_true] at h
    obtain rfl := eq_of_beq hunderscore
    rw [bindAfter_true_cons (by decide), scanNumber_underscore, ih h]
  | case4 isFloat c rest hdigit hunderscore hpoint hmethod =>
    obtain ⟨rfl, rfl⟩ : c = '.' ∧ isFloat = false := by simpa using hpoint
    rw [hdot, scanNumber_method ((hstart _ rest).trans hmethod)]
  | case5 isFloat c rest hdigit hunderscore hpoint hmethod ih =>
    obtain ⟨rfl, rfl⟩ : c = '.' ∧ isFloat = false := by simpa using hpoint
    rw [exponentWords.eq_def] at h
    simp only [hdigit, hunderscore, hpoint, hmethod, if_true] at h
    rw [Bool.not_eq_true] at hmethod
    rw [hdot, scanNumber_point ((hstart _ rest).trans hmethod)]
    exact congrArg (NumberScan.push '.') (ih h)
  | case6 isFloat c hdigit hunderscore hpoint hexponent n rest hsign ih =>
    rw [exponentWords.eq_def] at h
    simp only [hdigit, hunderscore, hpoint, hexponent, if_true] at h
    have hrest : bindings.bindAfter true (n :: rest) = n :: bindings.bindAfter true rest ∧
        ∀ name ∈ exponentWords true rest, lookup? name bindings = none := by
      by_cases hn : n.isDigit = true
      · simp only [hn, if_true] at h
        exact ⟨bindAfter_true_cons (isNameChar_of_isDigit hn) rest, h⟩
      · -- The word behind the sign stays because it is not bound.
        have hplus : n = '-' ∨ n = '+' := by simpa [hn] using hsign
        have hnsign : (n == '-' || n == '+') = true := by simpa using hplus
        simp only [hn, hnsign, if_true] at h
        obtain ⟨hword, h⟩ := List.forall_mem_cons.mp h
        refine ⟨?_, h⟩
        rw [← bindAfter_of_unbound hword]
        rcases hplus with rfl | rfl
        · exact bindAfter_sign (by decide) (by decide) rest
        · exact bindAfter_sign (by decide) (by decide) rest
    rw [bindAfter_true_cons (hname hexponent), hrest.1, scanNumber_exponent hexponent hsign,
      ih hrest.2]
    rfl
  | case7 isFloat c hdigit hunderscore hpoint hexponent n rest hsign =>
    have hstop := hstart (fun n => n == '-' || n == '+' || n.isDigit) (n :: rest)
    rw [bindAfter_true_cons (hname hexponent),
      scanNumber_letter hexponent (hstop.trans (Bool.eq_false_iff.mpr hsign))]
  | case8 isFloat c hdigit hunderscore hpoint hexponent =>
    rw [bindAfter_true_cons (hname hexponent)]
    exact scanNumber_letter hexponent rfl isFloat
  | case9 isFloat c rest hdigit hunderscore hpoint hexponent =>
    obtain ⟨others, hothers⟩ := exists_cons_bindAfter_true bindings c rest
    rw [hothers]
    exact scanNumber_stop hdigit hunderscore hpoint hexponent others

/-! #### Calls -/

theorem opensArguments_of_mark? {token : Token} (h : token.mark? = none) (others : List Token) :
    Token.opensArguments (token :: others) = false := by
  cases token with
  | symbol symbol =>
    refine beq_false_of_ne ?_
    rintro rfl
    cases h
  | _ => rfl

theorem opensArguments_cons {c : Char} {rest after : List Char} {token : Token}
    (h : scanToken c rest = .ok (token, after)) (others : List Token) :
    Token.opensArguments (token :: others) = (c == '(') := by
  have hparen (hne : c ≠ '(') : (c == '(') = false := beq_false_of_ne hne
  cases scans_of_scanToken h with
  | number hstart hnumber =>
    rw [hparen (by rintro rfl; simp [startsNumber] at hstart),
      opensArguments_of_mark? (mark?_of_numberToken hnumber)]
  | string hquote =>
    rw [hparen (by rintro rfl; revert hquote; decide)]
    rfl
  | word hstart =>
    rw [hparen (by rintro rfl; revert hstart; decide), opensArguments_of_mark? (mark?_wordToken _)]
  | sign hnumber hsign =>
    unfold scanSign at hsign
    split at hsign <;> cases hsign
    all_goals rename_i heq; cases heq; rfl

/-- A call's parenthesis is the next token. -/
theorem opensArguments_of_tokens {ts : List Token} (h : tokens text = .ok ts) :
    Token.opensArguments ts = opensCall (ofText text) := by
  rw [← opensCall_dropWhile]
  cases hblank : text.dropWhile Unicode.isWhitespace with
  | nil =>
    rw [tokens_nil hblank] at h
    cases h
    rfl
  | cons c rest =>
    have hc : Unicode.isWhitespace c = false := by
      have hstart := startsWith_dropWhile Unicode.isWhitespace text
      rwa [hblank] at hstart
    obtain ⟨token, after, others, hscan, -, rfl⟩ := exists_of_tokens hblank h
    rw [opensCall_cons hc, opensArguments_cons hscan]

/-! #### Access -/

theorem naturalOfDecimals_digitsOf (n : Nat) :
    Number.naturalOfDecimals (Number.digitsOf n) = n :=
  Nat.ofDigitChars_ten_toDigits

theorem scanNumber_digits {digits : List Char} (h : ∀ c ∈ digits, c.isDigit = true)
    (rest : List Char) :
    scanNumber false (digits ++ ']' :: rest) = ⟨digits, false, ']' :: rest⟩ := by
  induction digits with
  | nil =>
    rw [List.nil_append, scanNumber.eq_def]
    rfl
  | cons c digits ih =>
    obtain ⟨hc, hdigits⟩ := List.forall_mem_cons.mp h
    rw [List.cons_append, scanNumber_digit hc, ih hdigits]
    rfl

theorem tokens_cons {c : Char} {rest after : List Char} {token : Token} {ts : List Token}
    (hblank : Unicode.isWhitespace c = false) (hscan : scanToken c rest = .ok (token, after))
    (h : tokens after = .ok ts) : tokens (c :: rest) = .ok (token :: ts) := by
  rw [tokens_token (by rw [List.dropWhile_cons, hblank, if_neg Bool.false_ne_true]) hscan, h]
  rfl

/-- The tokens of an index between brackets. -/
theorem tokens_index {index : Nat} (hindex : index < 0x8000000000000000) {ts : List Token}
    (h : tokens rest = .ok ts) :
    tokens ('[' :: (Number.digitsOf index ++ ']' :: rest)) =
      .ok (.symbol .leftBracket :: .integer index :: .symbol .rightBracket :: ts) := by
  have hdigits : ∀ c ∈ Number.digitsOf index, c.isDigit = true := fun c hc =>
    Nat.isDigit_of_mem_toDigits (by decide) (Nat.le_refl 10) hc
  have hclose : tokens (']' :: rest) = .ok (.symbol .rightBracket :: ts) :=
    tokens_cons (by decide) rfl h
  have hnumber : tokens (Number.digitsOf index ++ ']' :: rest) =
      .ok (.integer index :: .symbol .rightBracket :: ts) := by
    have hscan := scanNumber_digits hdigits rest
    have htoken : numberToken (Number.digitsOf index) false = .ok (.integer index) := by
      simp [numberToken, naturalOfDecimals_digitsOf, hindex]
    cases hd : Number.digitsOf index with
    | nil => exact absurd hd Nat.toDigits_ne_nil
    | cons c digits =>
      have hc : c.isDigit = true := hdigits c (hd ▸ List.mem_cons_self)
      rw [hd] at hscan htoken
      refine tokens_cons (isWhitespace_of_isNameChar (isNameChar_of_isDigit hc)) ?_ hclose
      have hnumber := @scanToken_number c (digits ++ ']' :: rest) (by rw [startsNumber, hc]; rfl)
      rw [List.cons_append] at hscan
      rw [hscan, htoken] at hnumber
      exact hnumber
  exact tokens_cons (by decide) rfl hnumber

theorem tokens_access {index : Nat} (hindex : index < 0x8000000000000000) {ts : List Token}
    (h : tokens rest = .ok ts) :
    tokens (access index ++ rest) = .ok (accessTokens index ++ ts) := by
  have hname : tokens ("_values".toList ++ '[' :: (Number.digitsOf index ++ ']' :: rest)) =
      .ok (accessTokens index ++ ts) :=
    tokens_cons (by decide) (scanToken_word (by decide) _) (tokens_index hindex h)
  rw [access_eq]
  simpa using hname

/-! ### Proper bindings -/

/-- Columns have identifiers for names and positions that are signed integers. -/
structure Proper (bindings : ColumnBindings) : Prop where
  names : ∀ name, ∀ index ∈ lookup? name bindings, isIdentifier name.toList = true
  positions : ∀ name, ∀ index ∈ lookup? name bindings, index < 0x8000000000000000

theorem Proper.unbound (h : bindings.Proper) {word : List Char}
    (hword : isIdentifier word = false) : lookup? (String.ofList word) bindings = none := by
  cases hlookup : lookup? (String.ofList word) bindings with
  | none => rfl
  | some index =>
    have hname := h.names _ index hlookup
    rw [String.toList_ofList, hword] at hname
    cases hname

/-- A number begins with no name. -/
theorem Proper.bindAfter_number (h : bindings.Proper) {c : Char} {rest : List Char}
    (hstart : startsNumber c rest = true) :
    bindings.bindAfter false (c :: rest) = bindings.bindAfter true (c :: rest) := by
  cases hdigit : c.isDigit with
  | true =>
    refine bindAfter_of_unbound (h.unbound ?_)
    have hc : isIdentifierPart c = true := isNameChar_of_isDigit hdigit
    rw [List.takeWhile_cons, if_pos hc]
    simp [isIdentifier, startsWith, isIdentifierStart_of_isDigit hdigit]
  | false =>
    obtain ⟨rfl, -⟩ : c = '.' ∧ startsWith Char.isDigit rest = true := by
      simpa [startsNumber, hdigit] using hstart
    have hname : startsWith isNameChar ('.' :: rest) = false :=
      show isNameChar '.' = false by decide
    exact (bindAfter_of_not_name hname).symm

theorem tokens_dropWhile (text : List Char) :
    tokens (text.dropWhile Unicode.isWhitespace) = tokens text :=
  tokens_congr (dropWhile_of_startsWith (startsWith_dropWhile Unicode.isWhitespace text))

theorem numberToken_cases {digits : List Char} {isFloat : Bool} {token : Token}
    (h : numberToken digits isFloat = .ok token) :
    (∃ n, token = .integer n) ∨ ∃ x, token = .float x := by
  unfold numberToken at h
  dsimp only at h
  split at h
  · cases h
    exact .inl ⟨_, rfl⟩
  · split at h <;> cases h
    exact .inr ⟨_, rfl⟩

theorem wordToken_cases (word : List Char) :
    wordToken word = .identifier (String.ofList word) ∨
      ∃ symbol, keyword? (String.ofList (Unicode.upperText word)) = some symbol ∧
        wordToken word = .symbol symbol := by
  rw [wordToken]
  cases keyword? (String.ofList (Unicode.upperText word)) with
  | none => exact .inl rfl
  | some symbol => exact .inr ⟨symbol, rfl, rfl⟩

theorem wordToken_of_isIdentifier {word : List Char} (h : isIdentifier word = true) :
    wordToken word = .identifier (String.ofList word) := by
  obtain ⟨-, hkeyword⟩ := Bool.and_eq_true_iff.mp h
  rw [wordToken, Option.isNone_iff_eq_none.mp hkeyword]

/-- A name among tokens is the word at the front of the text. -/
theorem eq_frontWord {name : String} {others : List Token}
    (h : tokens text = .ok (.identifier name :: others)) :
    name = frontWord (text.dropWhile Unicode.isWhitespace) ∧
      tokens ((text.dropWhile Unicode.isWhitespace).dropWhile isIdentifierPart) = .ok others := by
  cases hblank : text.dropWhile Unicode.isWhitespace with
  | nil =>
    rw [tokens_nil hblank] at h
    cases h
  | cons c rest =>
    obtain ⟨token, after, _, hscan, hothers, hts⟩ := exists_of_tokens hblank h
    obtain ⟨rfl, rfl⟩ := List.cons.inj hts
    generalize htoken : Token.identifier name = token at hscan
    cases scans_of_scanToken hscan with
    | number _ hnumber => rcases numberToken_cases hnumber with ⟨_, rfl⟩ | ⟨_, rfl⟩ <;> cases htoken
    | string => cases htoken
    | word =>
      refine ⟨?_, hothers⟩
      rcases wordToken_cases ((c :: rest).takeWhile isIdentifierPart) with hword | ⟨_, -, hword⟩
      · rw [hword] at htoken
        exact Token.identifier.inj htoken
      · rw [hword] at htoken
        cases htoken
    | sign => cases htoken

/-- A symbol at the front of a text is no bound name. -/
theorem Proper.unbound_of_symbol (h : bindings.Proper) {ts : List Token}
    (htokens : tokens text = .ok ts) (hts : ∀ token ∈ ts.head?, token.isSymbol = true) :
    lookup? (frontWord text) bindings = none := by
  refine h.unbound (Bool.eq_false_iff.mpr fun hword => ?_)
  cases text with
  | nil => cases hword
  | cons c rest =>
    have hc : isIdentifierStart c = true := by
      cases hpart : isIdentifierPart c with
      | false =>
        rw [List.takeWhile_cons, hpart] at hword
        cases hword
      | true =>
        rw [List.takeWhile_cons, if_pos hpart] at hword
        exact (Bool.and_eq_true_iff.mp (Bool.and_eq_true_iff.mp hword).1).1
    have hblank : (c :: rest).dropWhile Unicode.isWhitespace = c :: rest :=
      dropWhile_of_startsWith
        (isWhitespace_of_isNameChar (isIdentifierPart_of_isIdentifierStart hc))
    obtain ⟨token, after, others, hscan, -, rfl⟩ := exists_of_tokens hblank htokens
    rw [scanToken_word hc, wordToken_of_isIdentifier hword] at hscan
    cases hscan
    cases hts _ rfl

/-! ### Tokens that stay -/

theorem bindTokens_of_kept {dotted : Bool} {token : Token} {others : List Token}
    (h : bindings.bindToken dotted others token = [token]) (hdot : token.isDot = false) :
    bindings.bindTokens dotted (token :: others) = token :: bindings.bindTokens false others := by
  rw [bindTokens, h, hdot]
  rfl

/-- A name that is not bound stays, wherever it stands, and so does one that is called. -/
theorem bindTokens_true_of_kept {ts : List Token}
    (h : ∀ name others, ts = .identifier name :: others → Token.opensArguments others = false →
      lookup? name bindings = none) :
    bindings.bindTokens true ts = bindings.bindTokens false ts := by
  cases ts with
  | nil => rfl
  | cons token others =>
    cases token with
    | identifier name =>
      cases hopens : Token.opensArguments others with
      | true => simp only [bindTokens, bindToken, hopens, Bool.or_true]
      | false => simp only [bindTokens, bindToken, h name others rfl hopens]
    | _ => rfl

theorem isDot_wordToken (word : List Char) : (wordToken word).isDot = false := by
  rcases wordToken_cases word with h | ⟨symbol, hsymbol, h⟩
  · rw [h]
    rfl
  · rw [h]
    unfold keyword? at hsymbol
    split at hsymbol <;> cases hsymbol <;> rfl

theorem bindToken_wordToken {word : List Char} {others : List Token}
    (h : ∀ index ∈ lookup? (String.ofList word) bindings,
      (dotted || Token.opensArguments others) = true) :
    bindings.bindToken dotted others (wordToken word) = [wordToken word] := by
  rcases wordToken_cases word with hword | ⟨symbol, -, hword⟩
  · rw [hword, bindToken]
    cases hlookup : lookup? (String.ofList word) bindings with
    | none => rfl
    | some index => exact if_pos (h index hlookup)
  · rw [hword]
    rfl

/-- A number begins in a bound text where it began: only a dot looks at what follows, and keeps
it. -/
theorem startsNumber_bindAfter (bindings : ColumnBindings) (c : Char) (rest : List Char) :
    startsNumber c (bindings.bindAfter (c == '.') rest) = startsNumber c rest := by
  cases hdot : c == '.' with
  | false => simp [startsNumber, hdot]
  | true =>
    rw [startsNumber, startsNumber, startsWith_eq_of_head? (head?_bindAfter_true bindings rest)]

theorem exists_numberStart (bindings : ColumnBindings) {c : Char} {rest : List Char}
    (h : startsNumber c rest = true) :
    ∃ others, bindings.bindAfter true (c :: rest) = c :: others ∧ startsNumber c others = true := by
  cases hdigit : c.isDigit with
  | true =>
    obtain ⟨others, hothers⟩ := exists_cons_bindAfter_true bindings c rest
    exact ⟨others, hothers, by rw [startsNumber, hdigit]; rfl⟩
  | false =>
    obtain ⟨rfl, -⟩ : c = '.' ∧ startsWith Char.isDigit rest = true := by
      simpa [startsNumber, hdigit] using h
    exact ⟨bindings.bindAfter true rest, bindAfter_sign (by decide) (by decide) rest,
      (startsNumber_bindAfter bindings '.' rest).trans h⟩

theorem bindToken_bound {name : String} {others : List Token} {index : Nat}
    (hlookup : lookup? name bindings = some index)
    (h : (dotted || Token.opensArguments others) = false) :
    bindings.bindToken dotted others (.identifier name) = accessTokens index := by
  rw [bindToken, hlookup]
  dsimp only
  rw [h, if_neg Bool.false_ne_true]

/-- A number stays, and what follows it goes on. -/
theorem tokens_number (hproper : bindings.Proper) {c : Char} {rest : List Char} {token : Token}
    {ts : List Token}
    (hstart : startsNumber c rest = true)
    (hnumber : numberToken (scanNumber false (c :: rest)).digits
      (scanNumber false (c :: rest)).isFloat = .ok token)
    (hhidden : ∀ name ∈ exponentWords false (c :: rest), lookup? name bindings = none)
    (h : tokens (bindings.bindAfter true (scanNumber false (c :: rest)).rest) = .ok ts) :
    tokens (bindings.bindAfter dotted (c :: rest)) = .ok (token :: ts) := by
  have hbound : bindings.bindAfter dotted (c :: rest) = bindings.bindAfter true (c :: rest) := by
    cases dotted with
    | true => rfl
    | false => exact hproper.bindAfter_number hstart
  have hblank : Unicode.isWhitespace c = false := by
    rcases Bool.or_eq_true_iff.mp hstart with hdigit | hpoint
    · exact isWhitespace_of_isNameChar (isNameChar_of_isDigit hdigit)
    · rw [eq_of_beq (Bool.and_eq_true_iff.mp hpoint).1]
      decide
  obtain ⟨others, hothers, hstart'⟩ := exists_numberStart bindings hstart
  have hscan := scanNumber_bindAfter bindings false (c :: rest) hhidden
  rw [hothers] at hscan
  have htoken := scanToken_number hstart'
  rw [hscan, hnumber] at htoken
  rw [hbound, hothers]
  exact tokens_cons hblank htoken h

/-- A word in front of another character than those of words is a token. -/
theorem tokens_frontWord {c : Char} (hc : isIdentifierStart c = true) (rest : List Char)
    {other : List Char} (hend : startsWith isIdentifierPart other = false) {ts : List Token}
    (h : tokens other = .ok ts) :
    tokens ((c :: rest).takeWhile isIdentifierPart ++ other) =
      .ok (wordToken ((c :: rest).takeWhile isIdentifierPart) :: ts) := by
  have hpart := isIdentifierPart_of_isIdentifierStart hc
  have hword : ∀ d ∈ c :: rest.takeWhile isIdentifierPart, isIdentifierPart d = true :=
    List.forall_mem_cons.mpr ⟨hpart, List.all_eq_true.mp List.all_takeWhile⟩
  have hscan := scanToken_word hc (rest.takeWhile isIdentifierPart ++ other)
  rw [← List.cons_append, List.takeWhile_append_of_pos hword, List.dropWhile_append_of_pos hword,
    dropWhile_of_startsWith hend, takeWhile_of_startsWith hend, List.append_nil] at hscan
  rw [List.takeWhile_cons, if_pos hpart]
  exact tokens_cons (isWhitespace_of_isNameChar hpart) hscan h

/-- A word that stays is the same token. -/
theorem tokens_word {c : Char} (hc : isIdentifierStart c = true) {rest : List Char}
    {ts : List Token}
    (h : tokens (bindings.bindAfter false ((c :: rest).dropWhile isIdentifierPart)) = .ok ts) :
    tokens ((c :: rest).takeWhile isIdentifierPart ++
      bindings.bindAfter false ((c :: rest).dropWhile isIdentifierPart)) =
      .ok (wordToken ((c :: rest).takeWhile isIdentifierPart) :: ts) :=
  tokens_frontWord hc rest
    ((startsWith_bindAfter bindings false _).trans (startsWith_dropWhile isIdentifierPart _)) h

/-! ### Tokens of a bound text -/

/-- What stands behind a token is read as it was, with its columns bound: also behind a dot, unless
blanks hide a bound name there. -/
def Follows (bindings : ColumnBindings) (after : List Char) (others : List Token) : Prop :=
  ∀ dotted, (dotted = true → ∀ name ∈ spacedMember after, lookup? name bindings = none) →
    tokens (bindings.bindAfter dotted after) = .ok (bindings.bindTokens dotted others)

theorem Follows.plain {after : List Char} {others : List Token}
    (h : Follows bindings after others) :
    tokens (bindings.bindAfter false after) = .ok (bindings.bindTokens false others) :=
  h false (by simp)

/-- A number is the same token. -/
theorem follows_number (hproper : bindings.Proper) {c : Char} {rest : List Char} {token : Token}
    {others : List Token} (hstart : startsNumber c rest = true)
    (hnumber : numberToken (scanNumber false (c :: rest)).digits
      (scanNumber false (c :: rest)).isFloat = .ok token)
    (hothers : tokens (scanNumber false (c :: rest)).rest = .ok others)
    (hchain : (token :: others).IsChain Parser.Apart)
    (hhidden : ∀ name ∈ exponentWords false (c :: rest), lookup? name bindings = none)
    (ih : Follows bindings (scanNumber false (c :: rest)).rest others) :
    tokens (bindings.bindAfter dotted (c :: rest)) =
      .ok (bindings.bindTokens dotted (token :: others)) := by
  have hsymbol : token.isSymbol = false := by
    rcases numberToken_cases hnumber with ⟨_, rfl⟩ | ⟨_, rfl⟩ <;> rfl
  have hkept : bindings.bindTokens dotted (token :: others) =
      token :: bindings.bindTokens false others := by
    rcases numberToken_cases hnumber with ⟨_, rfl⟩ | ⟨_, rfl⟩ <;> rfl
  have hnext : ∀ next ∈ others.head?, next.isSymbol = true := fun next hnext =>
    ((List.isChain_cons.mp hchain).1 next hnext).resolve_left (by simp [hsymbol])
  rw [hkept]
  refine tokens_number hproper hstart hnumber hhidden ?_
  -- The word right behind a number is a keyword: two names or constants are no neighbours.
  rw [← bindAfter_of_unbound (hproper.unbound_of_symbol hothers hnext)]
  exact ih.plain

/-- A string is the same token, and does not run into what follows. -/
theorem follows_string {quote : Char} {contents after : List Char} {others : List Token}
    (hquote : Literal.isQuote quote = true) (hcontents : Literal.Contents quote contents)
    (hne : ∀ d ∈ after.head?, d ≠ quote) (ih : Follows bindings after others) :
    tokens (bindings.bindAfter dotted (quote :: (contents ++ quote :: after))) =
      .ok (bindings.bindTokens dotted
        (.string (Literal.constant ⟨quote, contents⟩) :: others)) := by
  have hkept : bindings.bindTokens dotted
      (.string (Literal.constant ⟨quote, contents⟩) :: others) =
      .string (Literal.constant ⟨quote, contents⟩) :: bindings.bindTokens false others := rfl
  have hnext : ∀ rest, after = quote :: rest → False := by
    rintro rest rfl
    exact hne quote rfl rfl
  have hne' : ∀ d ∈ (bindings.bindAfter false after).head?, d ≠ quote := by
    rintro d hd rfl
    obtain ⟨rest, hrest⟩ := List.head?_eq_some_iff.mp hd
    exact bindAfter_ne_cons (isIdentifierPart_quote hquote) hnext rest hrest
  rw [hkept, bindAfter_quoted hquote hcontents]
  exact tokens_cons (isWhitespace_quote hquote) (scanToken_literal hquote hcontents hne') ih.plain

/-- A word becomes the access to a column when its token does. -/
theorem follows_word (hproper : bindings.Proper) {c : Char} (hc : isIdentifierStart c = true)
    {rest : List Char} {others : List Token}
    (hothers : tokens ((c :: rest).dropWhile isIdentifierPart) = .ok others)
    (ih : Follows bindings ((c :: rest).dropWhile isIdentifierPart) others) :
    tokens (bindings.bindAfter dotted (c :: rest)) =
      .ok (bindings.bindTokens dotted
        (wordToken ((c :: rest).takeWhile isIdentifierPart) :: others)) := by
  have hstart : startsWith isNameChar (c :: rest) = true :=
    isIdentifierPart_of_isIdentifierStart hc
  have hopens := opensArguments_of_tokens hothers
  have hstays (h : ∀ index ∈ lookup? (frontWord (c :: rest)) bindings,
      (dotted || Token.opensArguments others) = true) :
      tokens (bindings.bindAfter dotted (c :: rest)) =
        .ok (bindings.bindTokens dotted
          (wordToken ((c :: rest).takeWhile isIdentifierPart) :: others)) := by
    rw [bindTokens_of_kept (bindToken_wordToken h) (isDot_wordToken _),
      bindAfter_kept hstart (hopens ▸ h)]
    exact tokens_word hc ih.plain
  cases hlookup : lookup? (frontWord (c :: rest)) bindings with
  | none => exact hstays (by simp [hlookup])
  | some index =>
    cases hplace : dotted || Token.opensArguments others with
    | true => exact hstays fun _ _ => hplace
    | false =>
      have hidentifier := hproper.names _ index hlookup
      rw [frontWord, String.toList_ofList] at hidentifier
      have htoken : bindings.bindToken dotted others
          (wordToken ((c :: rest).takeWhile isIdentifierPart)) = accessTokens index := by
        rw [wordToken_of_isIdentifier hidentifier]
        exact bindToken_bound hlookup hplace
      rw [bindTokens, htoken, isDot_wordToken, bindAfter_access hstart hlookup (hopens ▸ hplace)]
      exact tokens_access (hproper.positions _ index hlookup) ih.plain

/-- A sign is the same token, and a dot keeps the name behind it. -/
theorem follows_sign {c : Char} {rest after : List Char} {symbol : Symbol} {others : List Token}
    (hnumber : startsNumber c rest = false)
    (hsign : scanSign (c :: rest) = some (symbol, after))
    (hhidden : ∀ name ∈ hiddenWords c rest (.symbol symbol) after, lookup? name bindings = none)
    (ih : Follows bindings after others) :
    tokens (bindings.bindAfter dotted (c :: rest)) =
      .ok (bindings.bindTokens dotted (.symbol symbol :: others)) := by
  obtain ⟨hblank, hquote, hname⟩ := scanSign_start hsign
  have hsign' := scanSign_bindAfter bindings dotted hsign
  rw [bindAfter_sign hquote hname] at hsign' ⊢
  have hnumber' := (startsNumber_bindAfter bindings c rest).trans hnumber
  refine tokens_cons hblank (scanToken_sign hnumber' hsign') (ih _ fun hdot => ?_)
  have hsymbol : (Token.symbol symbol).isDot = true := hdot
  rwa [hiddenWords, hnumber, if_neg Bool.false_ne_true, if_pos hsymbol] at hhidden

/-- A token is bound by itself, if what follows is. -/
theorem follows_token (hproper : bindings.Proper) {c : Char} {rest after : List Char}
    {token : Token} {others : List Token} (hscan : scanToken c rest = .ok (token, after))
    (hothers : tokens after = .ok others) (hchain : (token :: others).IsChain Parser.Apart)
    (hhidden : ∀ name ∈ hiddenWords c rest token after, lookup? name bindings = none)
    (ih : Follows bindings after others) :
    tokens (bindings.bindAfter dotted (c :: rest)) =
      .ok (bindings.bindTokens dotted (token :: others)) := by
  cases scans_of_scanToken hscan with
  | number hstart hnumber =>
    rw [hiddenWords, if_pos hstart] at hhidden
    exact follows_number hproper hstart hnumber hothers hchain hhidden ih
  | string hquote hcontents hne hrest =>
    subst hrest
    exact follows_string hquote hcontents hne ih
  | word hc => exact follows_word hproper hc hothers ih
  | sign hnumber hsign => exact follows_sign hnumber hsign hhidden ih

/-- The tokens of a text with its columns bound are those of the text, bound. -/
theorem follows_text (hproper : bindings.Proper) {text : List Char} {ts : List Token}
    (htokens : tokens text = .ok ts) (hchain : ts.IsChain Parser.Apart)
    (hhidden : ∀ name ∈ hidden text, lookup? name bindings = none) :
    Follows bindings text ts := by
  have hfront (dotted : Bool) :
      tokens (bindings.bindAfter dotted (text.dropWhile Unicode.isWhitespace)) =
        .ok (bindings.bindTokens dotted ts) := by
    cases hblank : text.dropWhile Unicode.isWhitespace with
    | nil =>
      rw [tokens_nil hblank] at htokens
      cases htokens
      exact tokens_nil rfl
    | cons c rest =>
      obtain ⟨token, after, others, hscan, hothers, rfl⟩ := exists_of_tokens hblank htokens
      rw [hidden_token hblank hscan] at hhidden
      obtain ⟨hhere, hlater⟩ := List.forall_mem_append.mp hhidden
      have hlength := length_lt_of_scanToken hblank hscan
      exact follows_token hproper hscan hothers hchain hhere
        (follows_text hproper hothers hchain.tail hlater)
  intro dotted hspaced
  cases hspace : startsWith Unicode.isWhitespace text with
  | false =>
    rw [dropWhile_of_startsWith hspace] at hfront
    exact hfront dotted
  | true =>
    -- Behind blanks nothing tells of a dot before them.
    have htext : bindings.bindAfter dotted text = bindings.bindAfter false text := by
      cases dotted with
      | false => rfl
      | true => exact bindAfter_of_not_name (startsWith_name_of_blank hspace)
    have hts : bindings.bindTokens dotted ts = bindings.bindTokens false ts := by
      cases dotted with
      | false => rfl
      | true =>
        refine bindTokens_true_of_kept ?_
        rintro name others rfl hopens
        obtain ⟨rfl, hothers⟩ := eq_frontWord htokens
        rw [opensArguments_of_tokens hothers] at hopens
        refine hspaced rfl _ ?_
        rw [spacedMember, hspace, hopens]
        exact List.mem_singleton_self _
    rw [htext, hts, ← tokens_dropWhile, dropWhile_bindAfter]
    exact hfront false
termination_by text.length

/-- The names that make a word of a text seem to be a column when it is none: the row itself, the
placeholders of literals, the words that blanks or the sign of an exponent hide, and the bare keys
of objects. -/
def notColumns (literals : LiteralTable) (text : List Char) : List String :=
  "_values" :: (literals.map (String.ofList ·.1) ++
    (hidden (literals.restore true text) ++
      Token.bareKeys ((tokens (literals.restore true text)).toOption.getD [])))

theorem proper_of_forall (h : ∀ column ∈ bindings,
    isIdentifier column.1.toList = true ∧ column.2 < 0x8000000000000000) : bindings.Proper :=
  ⟨fun _ _ hindex => (h _ (mem_of_lookup? hindex)).1,
    fun _ _ hindex => (h _ (mem_of_lookup? hindex)).2⟩

end ColumnBindings

open ColumnBindings

/-- Binding the columns of a text binds those of its expression, and changes nothing else: the text
is parsed as the one whose literals are put back, with columns in the place of the variables with
bound names. -/
theorem Expr.parse_prepare {bindings : ColumnBindings} (hproper : bindings.Proper)
    {literals : LiteralTable} {text : String} (hplaced : literals.Placed text.toList)
    (hcolumns : ∀ name ∈ notColumns literals text.toList, lookup? name bindings = none) {e : Expr}
    (h : Expr.parse (String.ofList (literals.restore true text.toList)) = .ok e) :
    Expr.parse (bindings.prepare literals text) = .ok (e.bindColumns bindings) := by
  obtain ⟨ts, htokens, hspelled⟩ := parse_ok_iff.mp h
  rw [tokenize, String.toList_ofList] at htokens
  rw [notColumns, htokens] at hcolumns
  obtain ⟨hvalues, hcolumns⟩ := List.forall_mem_cons.mp hcolumns
  obtain ⟨hliterals, hcolumns⟩ := List.forall_mem_append.mp hcolumns
  obtain ⟨hhidden, hkeys⟩ := List.forall_mem_append.mp hcolumns
  have hunbound : ∀ entry ∈ literals, lookup? (String.ofList entry.1) bindings = none :=
    fun entry hentry => hliterals _ (List.mem_map_of_mem hentry)
  refine parse_ok_iff.mpr ⟨bindings.bindTokens false ts, ?_,
    hspelled.bound hvalues hproper.positions hkeys⟩
  rw [tokenize, prepare, String.toList_ofList, bind_eq, restore_bindAfter hplaced hunbound]
  exact (follows_text hproper htokens hspelled.isChain hhidden).plain

/-- The names of a call and of a field stay, and so does a string that reads like a column. -/
theorem Expr.parse_prepare_of_call :
    Expr.parse (ColumnBindings.prepare [("a", 0), ("b", 1)]
        [("__aaaaaaaaaaaa__".toList, ⟨'\'', ['b']⟩)] "a(b) + a.b + __aaaaaaaaaaaa__") =
      .ok (.binary (.binary (.call "a" [.column 1]) .add (.field (.column 0) "b")) .add
        (.literal (.str "b"))) := by
  have hrestored : LiteralTable.restore [("__aaaaaaaaaaaa__".toList, ⟨'\'', ['b']⟩)] true
      "a(b) + a.b + __aaaaaaaaaaaa__".toList = "a(b) + a.b + 'b'".toList := by decide
  have hparse : Expr.parse "a(b) + a.b + 'b'" =
      .ok (.binary (.binary (.call "a" [.variable "b"]) .add (.field (.variable "a") "b")) .add
        (.literal (.str "b"))) := by cbv
  have hfragments : ∀ fragment ∈ Fragment.ofText "a(b) + a.b + __aaaaaaaaaaaa__".toList,
      fragment.text.length < Placeholder.size ∨ fragment = .word "__aaaaaaaaaaaa__".toList := by
    decide
  have hplaced : LiteralTable.Placed [("__aaaaaaaaaaaa__".toList, ⟨'\'', ['b']⟩)]
      "a(b) + a.b + __aaaaaaaaaaaa__".toList := by
    refine ⟨by decide, by decide, ?_, fun word hword hmentions => ?_, fun run hrun hmentions => ?_⟩
    · exact List.forall_mem_singleton.mpr (.plain (by decide) (by decide) .nil)
    · rcases hfragments _ hword with hshort | hword
      · exact absurd hmentions (LiteralTable.not_mentions_of_length (by decide) hshort)
      · rw [Fragment.word.inj hword]
        decide
    · rcases hfragments _ hrun with hshort | hrun
      · exact LiteralTable.not_mentions_of_length (by decide) hshort hmentions
      · cases hrun
  have hcolumns : ∀ name ∈ notColumns [("__aaaaaaaaaaaa__".toList, ⟨'\'', ['b']⟩)]
      "a(b) + a.b + __aaaaaaaaaaaa__".toList, lookup? name [("a", 0), ("b", 1)] = none := by
    have hhidden : Lexer.hidden "a(b) + a.b + 'b'".toList = [] := by cbv
    have hkeys :
        Token.bareKeys ((Lexer.tokens "a(b) + a.b + 'b'".toList).toOption.getD []) = [] := by
      cbv
    rw [notColumns, hrestored, hhidden, hkeys]
    decide
  exact Expr.parse_prepare (proper_of_forall (by decide)) hplaced hcolumns
    (by rw [hrestored, String.ofList_toList]; exact hparse)

/-- Binding the column `a` makes the bare key of an object a key that is computed: what is taken for
a column need not be one. -/
theorem Expr.parse_not_prepare :
    ∃ (bindings : ColumnBindings) (literals : LiteralTable) (text : String) (e : Expr),
      bindings.Proper ∧ literals.Placed text.toList ∧
      Expr.parse (String.ofList (literals.restore true text.toList)) = .ok e ∧
      Expr.parse (bindings.prepare literals text) ≠ .ok (e.bindColumns bindings) := by
  have hparse : Expr.parse "\x7ba: 1\x7d" =
      .ok (.object [(.literal (.str "a"), .literal (.ofNat 1))]) := by cbv
  have hbound : Expr.parse "\x7b_values[0]: 1\x7d" =
      .ok (.object [(.column 0, .literal (.ofNat 1))]) := by cbv
  have hrestored : String.ofList (LiteralTable.restore [] true "\x7ba: 1\x7d".toList) =
      "\x7ba: 1\x7d" := by decide
  have hprepared :
      ColumnBindings.prepare [("a", 0)] [] "\x7ba: 1\x7d" = "\x7b_values[0]: 1\x7d" := by
    decide
  refine ⟨[("a", 0)], [], "\x7ba: 1\x7d", _, proper_of_forall (by decide),
    LiteralTable.placed_nil _, hrestored ▸ hparse, ?_⟩
  rw [hprepared, hbound]
  intro h
  cases h

end StreamQuery
