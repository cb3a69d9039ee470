import StreamQuery.Proofs.Expr.Relexing
import StreamQuery.Proofs.Expr.RenamedCalls
import StreamQuery.Proofs.Query.RecasedFragments

/-!
# Tokens of renamed texts

A function that is called is a word in front of a parenthesis, and a token of its own. Two texts in
which such words are written in different cases of their letters therefore have the same tokens,
except for the names that are called.
-/

namespace StreamQuery

open Unicode

namespace Lexer

/-- Two texts that are the same but for the case of functions that are called: words in front of
parentheses, which do not begin within another word. -/
inductive Renamed : Bool → List Char → List Char → Prop
  | nil {inWord : Bool} : Renamed inWord [] []
  | plain {inWord : Bool} {c : Char} {rest other : List Char} : Literal.isQuote c = false →
      Renamed (isIdentifierPart c) rest other → Renamed inWord (c :: rest) (c :: other)
  | literal {inWord : Bool} {quote : Char} {contents rest other : List Char} :
      Literal.isQuote quote = true → Literal.Contents quote contents →
      (∀ c ∈ rest.head?, c ≠ quote) → Renamed false rest other →
      Renamed inWord (quote :: contents ++ quote :: rest) (quote :: contents ++ quote :: other)
  | called {name spelling rest other : List Char} : SameFunction name spelling →
      opensParenthesis rest = true → Renamed true rest other →
      Renamed false (name ++ rest) (spelling ++ other)

namespace Renamed

variable {inWord : Bool} {text other rest : List Char}

theorem sameLetters (h : Renamed inWord text other) : SameLetters text other := by
  induction h with
  | nil => exact .refl []
  | plain _ _ ih => exact .cons rfl ih
  | literal _ _ _ _ ih => exact .append (.refl _) (.cons rfl ih)
  | called hname _ _ ih => exact hname.letters.append ih

theorem opensParenthesis_eq (h : SameLetters text other) :
    opensParenthesis text = opensParenthesis other := by
  have hany : ∀ text : List Char, opensParenthesis text =
      (text.dropWhile isWhitespace).head?.any (· == '(') := fun text => by
    rw [opensParenthesis]
    cases (text.dropWhile isWhitespace).head? <;> rfl
  have halpha : '('.isAlpha = false := by decide
  rw [hany, hany, (h.dropWhile caseless_isWhitespace).head?_any_eq (caseless_beq halpha)]

/-- No quote comes or goes. -/
theorem head?_ne {quote : Char} (hquote : Literal.isQuote quote = true)
    (h : SameLetters text other) (hne : ∀ c ∈ text.head?, c ≠ quote) :
    ∀ c ∈ other.head?, c ≠ quote := by
  have halpha : quote.isAlpha = false := by
    rcases Literal.eq_of_isQuote hquote with rfl | rfl <;> decide
  rintro c hc rfl
  have hfound : text.head?.any (· == c) = true := by
    rw [h.head?_any_eq (caseless_beq halpha), Option.mem_def.mp hc]
    exact beq_self_eq_true c
  obtain ⟨d, hd, hsame⟩ := (Option.any_eq_true _ _).mp hfound
  exact hne d hd (eq_of_beq hsame)

protected theorem symm (h : Renamed inWord text other) : Renamed inWord other text := by
  induction h with
  | nil => exact .nil
  | plain hc _ ih => exact .plain hc ih
  | literal hquote hcontents hne hrest ih =>
    exact .literal hquote hcontents (head?_ne hquote hrest.sameLetters hne) ih
  | called hname hopens hrest ih =>
    exact .called hname.symm (opensParenthesis_eq hrest.sameLetters ▸ hopens) ih

/-- Where a name may not begin, none does. -/
theorem weaken (h : Renamed inWord text other) : Renamed false text other := by
  cases h with
  | nil => exact .nil
  | plain hc hrest => exact .plain hc hrest
  | literal hquote hcontents hne hrest => exact .literal hquote hcontents hne hrest
  | called hname hopens hrest => exact .called hname hopens hrest

/-- A literal in front of texts, be it that of another one with the same quotes. -/
theorem of_literal {quote : Char} {contents : List Char} (hquote : Literal.isQuote quote = true)
    (hcontents : Literal.Contents quote contents) (h : Renamed false text other) :
    Renamed inWord (quote :: contents ++ quote :: text) (quote :: contents ++ quote :: other) := by
  by_cases hne : ∀ c ∈ text.head?, c ≠ quote
  · exact .literal hquote hcontents hne h
  · cases h with
    | nil => simp at hne
    | @plain _ c rest others hc =>
      obtain rfl : c = quote := by simpa using hne
      cases hquote.symm.trans hc
    | @literal _ c more after otherAfter _ hmore hafter hrest =>
      obtain rfl : c = quote := by simpa using hne
      have hwhole : Literal.Contents c (contents ++ c :: c :: more) :=
        hcontents.append hmore.doubled
      have hjoined : Renamed inWord (c :: (contents ++ c :: c :: more) ++ c :: after)
          (c :: (contents ++ c :: c :: more) ++ c :: otherAfter) :=
        .literal hquote hwhole hafter hrest
      simpa using hjoined
    | @called name spelling rest others hname =>
      obtain ⟨c, d, letters, rfl, hc, -⟩ := hname.exists_letters
      obtain rfl : c = quote := by simpa using hne
      rcases Literal.eq_of_isQuote hquote with rfl | rfl <;> cases hc

/-- A sign at the front stays, and what stands behind it is renamed. -/
theorem exists_of_sign {c : Char} (hc : c.isAlpha = false) (hquote : Literal.isQuote c = false)
    (h : Renamed inWord (c :: rest) other) : ∃ others, other = c :: others ∧
      Renamed false rest others := by
  generalize htext : c :: rest = text at h
  cases h with
  | nil => cases htext
  | plain _ hrest =>
    cases htext
    exact ⟨_, rfl, hrest.weaken⟩
  | literal hquoted =>
    cases htext
    cases hquote.symm.trans hquoted
  | called hname =>
    obtain ⟨d, e, letters, rfl, hd, -⟩ := hname.exists_letters
    cases htext
    cases hc.symm.trans hd

/-! ### Runs of characters -/

/-- The rest of a word stays, as no name begins in it. -/
theorem wordRest (h : Renamed true text other) :
    text.takeWhile isIdentifierPart = other.takeWhile isIdentifierPart ∧
      Renamed false (text.dropWhile isIdentifierPart) (other.dropWhile isIdentifierPart) := by
  generalize htrue : true = inWord at h
  induction h with
  | nil => exact ⟨rfl, .nil⟩
  | @plain _ c rest other hc hrest ih =>
    rw [List.takeWhile_cons, List.takeWhile_cons, List.dropWhile_cons, List.dropWhile_cons]
    split
    case isTrue hpart =>
      obtain ⟨hword, hafter⟩ := ih hpart.symm
      exact ⟨by rw [hword], hafter⟩
    case isFalse => exact ⟨rfl, .plain hc hrest⟩
  | literal hquote hcontents hne hrest =>
    simp only [List.cons_append, List.takeWhile_cons, List.dropWhile_cons,
      isIdentifierPart_quote hquote]
    exact ⟨rfl, .literal hquote hcontents hne hrest⟩
  | called => cases htrue

theorem dropBlanks (h : Renamed inWord text other) :
    Renamed false (text.dropWhile isWhitespace) (other.dropWhile isWhitespace) := by
  induction h with
  | nil => exact .nil
  | @plain _ c rest other hc hrest ih =>
    rw [List.dropWhile_cons, List.dropWhile_cons]
    split
    · exact ih
    · exact .plain hc hrest
  | literal hquote hcontents hne hrest =>
    simp only [List.cons_append, List.dropWhile_cons, isWhitespace_quote hquote]
    exact .literal hquote hcontents hne hrest
  | @called name spelling rest other hname hopens hrest =>
    have hblank : ∀ {name spelling : List Char}, SameFunction name spelling → ∀ rest : List Char,
        (name ++ rest).dropWhile isWhitespace = name ++ rest := by
      intro name spelling hname rest
      obtain ⟨c, d, letters, rfl, hc, -⟩ := hname.exists_letters
      have hblank := ColumnBindings.isWhitespace_of_isNameChar (Fragment.isNameChar_of_isAlpha hc)
      exact List.dropWhile_cons_of_neg (by simp [hblank])
    rw [hblank hname, hblank hname.symm]
    exact .called hname hopens hrest

end Renamed

/-! ### Numbers and signs -/

variable {inWord : Bool} {text other : List Char}

theorem startsWith_eq_of_sameLetters {p : Char → Bool} (hp : Caseless p)
    (h : SameLetters text other) : startsWith p text = startsWith p other := by
  cases text with
  | nil => rw [h.of_nil]
  | cons c rest =>
    obtain ⟨d, others, rfl, hc, -⟩ := h.exists_of_cons
    exact hp.eq hc

theorem isDigit_of_isAlpha {c : Char} (h : c.isAlpha = true) : c.isDigit = false :=
  Bool.eq_false_iff.mpr fun hdigit => by
    cases (Shorthand.isAlphabetic_of_isAlpha h).symm.trans (isAlphabetic_of_isDigit hdigit)

/-- Two letters begin no number, and no exponent of one. -/
theorem endsNumber_letters {c d : Char} (hc : c.isAlpha = true) (hd : d.isAlpha = true)
    (rest : List Char) : EndsNumber (c :: d :: rest) := by
  have hne : ∀ {c e : Char}, c.isAlpha = true → e.isAlpha = false → (c == e) = false := by
    intro c e hc he
    refine beq_false_of_ne ?_
    rintro rfl
    cases hc.symm.trans he
  have hsign : ∀ {c : Char}, c.isAlpha = true → ∀ rest : List Char,
      startsWith (fun n => n == '-' || n == '+' || n.isDigit) (c :: rest) = false := by
    intro c hc rest
    rw [startsWith, hne hc (by decide), hne hc (by decide), isDigit_of_isAlpha hc]
    rfl
  refine ⟨fun isFloat => ?_, hsign hc _⟩
  cases hexponent : c == 'e' || c == 'E' with
  | true => exact scanNumber_letter hexponent (hsign hd rest) isFloat
  | false =>
    refine scanNumber_stop ?_ ?_ ?_ (Bool.eq_false_iff.mp hexponent) _
    · simp [isDigit_of_isAlpha hc]
    · simp [hne hc (show '_'.isAlpha = false by decide)]
    · simp [hne hc (show '.'.isAlpha = false by decide)]

theorem endsNumber_name {name spelling : List Char} (hname : SameFunction name spelling)
    (rest : List Char) : EndsNumber (name ++ rest) := by
  obtain ⟨c, d, letters, rfl, hc, hd⟩ := hname.exists_letters
  exact endsNumber_letters hc hd _

/-- The name of a function ends a number, and begins no sign. -/
theorem scansAlike_renamed : ScansAlike (Renamed false) where
  step h := by
    cases h with
    | nil => exact .inr ⟨endsNumber_nil, endsNumber_nil⟩
    | plain _ hrest => exact .inl ⟨_, _, _, rfl, rfl, hrest.weaken⟩
    | literal hquote => exact .inr ⟨endsNumber_quote hquote _, endsNumber_quote hquote _⟩
    | called hname => exact .inr ⟨endsNumber_name hname _, endsNumber_name hname.symm _⟩
  start hp h := startsWith_eq_of_sameLetters hp h.sameLetters
  sign hc hquote h := h.exists_of_sign hc hquote
  back hc hquote h := by
    obtain ⟨rest, rfl, hrest⟩ := h.symm.exists_of_sign hc hquote
    exact ⟨rest, rfl, hrest.symm⟩

/-! ### Tokens -/

/-- The same token with renamed texts after it, or a name that is called in two cases. -/
inductive SameToken : Token × List Char → Token × List Char → Prop
  | same (token : Token) {after others : List Char} : Renamed false after others →
      SameToken (token, after) (token, others)
  | called {name spelling : String} {after others : List Char} :
      SameLetters name.toList spelling.toList → opensParenthesis after = true →
      Renamed false after others →
      SameToken (.identifier name, after) (.identifier spelling, others)

/-- Two scans of a token both fail, or find the same token but for the case of a function. -/
abbrev SameTokenScan : Except SyntaxFault (Token × List Char) →
    Except SyntaxFault (Token × List Char) → Prop :=
  Alike (fun _ _ => True) SameToken

theorem scanToken_plain {c : Char} {rest others : List Char} (hc : Literal.isQuote c = false)
    (h : Renamed (isIdentifierPart c) rest others) :
    SameTokenScan (scanToken c rest) (scanToken c others) := by
  refine scansAlike_renamed.alike_scanToken .same hc (.plain hc h) h.weaken fun hstart => ?_
  have hpart := isIdentifierPart_of_isIdentifierStart hstart
  exact (hpart ▸ h).wordRest

/-- The name of a function that is called is a token of its own. -/
theorem scanToken_name {name spelling : List Char} (hname : SameFunction name spelling)
    {c : Char} {rest after : List Char} (htext : c :: rest = name ++ after)
    (hopens : opensParenthesis after = true) :
    scanToken c rest = .ok (.identifier (String.ofList name), after) := by
  have hstart : isIdentifierStart c = true := by
    obtain ⟨d, e, letters, rfl, hd, -⟩ := hname.exists_letters
    obtain ⟨rfl, -⟩ := List.cons.inj htext
    rw [isIdentifierStart, Shorthand.isAlphabetic_of_isAlpha hd, Bool.true_or]
  have hall : ∀ d ∈ name, isIdentifierPart d = true := List.all_eq_true.mp hname.isNameChar
  have hends : startsWith isIdentifierPart after = false := startsWith_of_opensParenthesis hopens
  have hnone : after.takeWhile isIdentifierPart = [] ∧
      after.dropWhile isIdentifierPart = after := by
    cases after with
    | nil => exact ⟨rfl, rfl⟩
    | cons d after => exact ⟨List.takeWhile_cons_of_neg (by simpa [startsWith] using hends),
        List.dropWhile_cons_of_neg (by simpa [startsWith] using hends)⟩
  rw [scanToken_word hstart, htext, List.takeWhile_append_of_pos hall,
    List.dropWhile_append_of_pos hall, hnone.1, hnone.2, List.append_nil, wordToken,
    hname.plainName.keyword]

/-- The first tokens of renamed texts. -/
theorem scanToken_renamed {c d : Char} {rest others : List Char}
    (h : Renamed false (c :: rest) (d :: others)) :
    SameTokenScan (scanToken c rest) (scanToken d others) := by
  generalize htext : c :: rest = text at h
  generalize hother : d :: others = other at h
  cases h with
  | nil => cases htext
  | plain hc hrest =>
    cases htext
    cases hother
    exact scanToken_plain hc hrest
  | @literal _ quote contents rest other hquote hcontents hne hrest =>
    obtain ⟨rfl, rfl⟩ := List.cons.inj htext
    obtain ⟨rfl, rfl⟩ := List.cons.inj hother
    have hother := Renamed.head?_ne hquote hrest.sameLetters hne
    change SameTokenScan (scanToken d (contents ++ d :: rest))
      (scanToken d (contents ++ d :: other))
    rw [scanToken_literal hquote hcontents hne, scanToken_literal hquote hcontents hother]
    exact .ok (.same _ hrest)
  | called hname hopens hrest =>
    have hotherOpens := Renamed.opensParenthesis_eq hrest.sameLetters ▸ hopens
    rw [scanToken_name hname htext hopens, scanToken_name hname.symm hother hotherOpens]
    refine .ok (.called ?_ hopens hrest.weaken)
    rw [String.toList_ofList, String.toList_ofList]
    exact hname.letters

/-- The tokens of renamed texts are the same, except for the names that are called. -/
theorem tokens_renamed (h : Renamed inWord text other) :
    Alike (fun _ _ => True) Parser.Renamed (tokens text) (tokens other) := by
  have hscan : ∀ {c : Char} {rest other : List Char}, Renamed false (c :: rest) other →
      ∃ d others, other = d :: others ∧ SameTokenScan (scanToken c rest) (scanToken d others) := by
    intro c rest other h
    obtain ⟨d, others, rfl, -⟩ := h.sameLetters.exists_of_cons
    exact ⟨d, others, rfl, scanToken_renamed h⟩
  have hafter : ∀ {scanned other : Token × List Char}, SameToken scanned other →
      Renamed false scanned.2 other.2 := by
    intro scanned other hsame
    cases hsame <;> assumption
  have hcons : ∀ {scanned other : Token × List Char} {ts us : List Token},
      SameToken scanned other → tokens scanned.2 = .ok ts → Parser.Renamed ts us →
        Parser.Renamed (scanned.1 :: ts) (other.1 :: us) := by
    intro scanned other ts us hsame hts hrest
    cases hsame with
    | same token => exact .keep token hrest
    | called hname hopens =>
      refine .called hname ?_ hrest
      rw [ColumnBindings.opensArguments_of_tokens hts, Fragment.opensCall_ofText, hopens]
  exact alike_tokens (fun h => h.dropBlanks) (fun h => h.sameLetters.of_nil) hscan hafter .nil hcons
    h.weaken

/-! ### Texts between commas -/

namespace Renamed

theorem append_comma {more others : List Char} (h : Renamed inWord text other)
    (hmore : Renamed false more others) :
    Renamed inWord (text ++ ',' :: more) (other ++ ',' :: others) := by
  induction h with
  | nil => exact .plain (by decide) hmore
  | plain hc _ ih => exact .plain hc ih
  | @literal _ quote contents rest other hquote hcontents hne _ ih =>
    have hhead : ∀ c ∈ (rest ++ ',' :: more).head?, c ≠ quote := by
      cases rest with
      | nil => rcases Literal.eq_of_isQuote hquote with rfl | rfl <;> simp
      | cons => exact hne
    rw [List.append_assoc, List.cons_append, List.append_assoc, List.cons_append]
    exact .literal hquote hcontents hhead ih
  | @called _ _ rest _ hname hopens _ ih =>
    have hcall : opensParenthesis (rest ++ ',' :: more) = true := by
      rw [opensParenthesis_iff, solid_append]
      exact ((opensParenthesis_iff rest).mp hopens).trans (List.prefix_append _ _)
    rw [List.append_assoc, List.append_assoc]
    exact .called hname hcall ih

theorem intercalate {texts others : List (List Char)}
    (h : List.Forall₂ (Renamed false) texts others) :
    Renamed false ([',', ' '].intercalate texts) ([',', ' '].intercalate others) := by
  induction h with
  | nil => exact .nil
  | cons hfirst hrest ih =>
    cases hrest with
    | nil => simpa using hfirst
    | cons =>
      rw [List.intercalate_cons_of_ne_nil (List.cons_ne_nil _ _),
        List.intercalate_cons_of_ne_nil (List.cons_ne_nil _ _), List.append_assoc,
        List.append_assoc]
      exact hfirst.append_comma (.plain (by decide) ih)

end Renamed

end Lexer

/-! ### Expressions -/

namespace Expr

variable {text other : String}

/-- Renamed texts are parsed alike. -/
theorem alike_parse_of_renamed (h : Lexer.Renamed false text.toList other.toList) :
    StreamQuery.Alike (fun _ _ => True) SameCalls (parse text) (parse other) :=
  (Lexer.tokens_renamed h).bind fun _ _ => Parser.alike_single_of_renamed

theorem alike_parseList_of_renamed {texts others : List String}
    (h : List.Forall₂ (fun text other => Lexer.Renamed false text.toList other.toList) texts
      others) :
    StreamQuery.Alike (fun _ _ => True) (List.Forall₂ SameCalls) (parseList (", ".intercalate texts))
      (parseList (", ".intercalate others)) := by
  have hjoined : Lexer.Renamed false (", ".intercalate texts).toList
      (", ".intercalate others).toList := by
    rw [String.toList_intercalate, String.toList_intercalate]
    exact .intercalate (List.forall₂_map_left_iff.mpr (List.forall₂_map_right_iff.mpr h))
  exact (Lexer.tokens_renamed hjoined).bind fun _ _ => Parser.alike_several_of_renamed

end Expr

end StreamQuery
