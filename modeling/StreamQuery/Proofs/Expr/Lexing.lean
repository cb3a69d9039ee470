import StreamQuery.Proofs.Expr.Scanning
import StreamQuery.Proofs.Query.Refilling

/-!
# Tokens of refilled texts

Expressions have the same literals as queries: both find the same end of a literal. Two texts that
differ only in the contents of their literals therefore have the same tokens, except for the
constants of the literals.
-/

namespace StreamQuery

/-- The constant that a literal means in an expression. -/
def Literal.constant (literal : Literal) : String :=
  String.ofList (((Lexer.scanString literal.quote (literal.text ++ [literal.quote])).map
    (·.1)).getD [])

/-- Two constants are those of literals that are related. -/
def Constants (related : Literal → Literal → Prop) (text other : String) : Prop :=
  ∃ literal filling, related literal filling ∧ text = literal.constant ∧ other = filling.constant

/-- Two tokens are the same, or strings that are related. -/
inductive Token.Alike (strings : String → String → Prop) : Token → Token → Prop
  | same (token : Token) : Alike strings token token
  | string {text other : String} : strings text other → Alike strings (.string text) (.string other)

variable {related : Literal → Literal → Prop}

namespace Lexer

/-! ### Strings -/

theorem exists_scanString {quote : Char} {contents : List Char}
    (hquote : Literal.isQuote quote = true) (h : Literal.Contents quote contents) :
    ∃ content, ∀ after : List Char, (∀ c ∈ after.head?, c ≠ quote) →
      scanString quote (contents ++ quote :: after) = some (content, after) := by
  have hbackslash := Literal.ne_backslash_of_isQuote hquote
  induction h with
  | nil =>
    refine ⟨[], fun after hne => ?_⟩
    cases after with
    | nil => simp [scanString]
    | cons d after =>
      have hd : d ≠ quote := hne d rfl
      simp [scanString, hd]
  | escaped c _ ih =>
    obtain ⟨content, ih⟩ := ih
    exact ⟨escape c ++ content, fun after hne => by
      simp [scanString, Ne.symm hbackslash, ih after hne]⟩
  | doubled _ ih =>
    obtain ⟨content, ih⟩ := ih
    exact ⟨quote :: content, fun after hne => by simp [scanString, ih after hne]⟩
  | @plain c contents hc hescape _ ih =>
    obtain ⟨content, ih⟩ := ih
    refine ⟨c :: content, fun after hne => ?_⟩
    obtain ⟨d, rest, hrest⟩ := List.exists_cons_of_ne_nil
      (show contents ++ quote :: after ≠ [] by simp)
    rw [List.cons_append, hrest, scanString]
    simp [hc, hescape, ← hrest, ih after hne]

/-- A string of an expression ends where the literal ends. -/
theorem scanString_contents {quote : Char} {contents after : List Char}
    (hquote : Literal.isQuote quote = true) (h : Literal.Contents quote contents)
    (hne : ∀ c ∈ after.head?, c ≠ quote) :
    (scanString quote (contents ++ quote :: after)).map
        (fun result => (String.ofList result.1, result.2)) =
      some (Literal.constant ⟨quote, contents⟩, after) := by
  obtain ⟨content, hscan⟩ := exists_scanString hquote h
  rw [Literal.constant, hscan after hne, hscan [] (by simp)]
  rfl

theorem scanString_eq_none {quote : Char} {text : List Char}
    (hquote : Literal.isQuote quote = true) (h : Literal.read? quote text = none) :
    scanString quote text = none := by
  have hbackslash := Literal.ne_backslash_of_isQuote hquote
  fun_induction Literal.read? quote text with
  | case1 => rfl
  | case2 => cases h
  | case3 c hc => simp [scanString, hc]
  | case4 c d rest hpair ih =>
    rw [Option.map_eq_none_iff] at h
    have hnone := ih h
    rw [scanString]
    grind
  | case5 => cases h
  | case6 c d rest hpair hc ih =>
    rw [Option.map_eq_none_iff] at h
    have hnone := ih h
    rw [scanString]
    grind

/-! ### Runs of characters -/

/-- Classes of characters without quotes end at literals. -/
theorem takeWhile_eq {p : Char → Bool}
    (hp : ∀ quote, Literal.isQuote quote = true → p quote = false) {text other : List Char}
    (h : Refilled related text other) :
    text.takeWhile p = other.takeWhile p := by
  induction h with
  | nil => rfl
  | plain _ _ ih => rw [List.takeWhile_cons, List.takeWhile_cons, ih]
  | literal hquote => simp [hp _ hquote]
  | unterminated => rfl

theorem refilled_dropWhile {p : Char → Bool}
    (hp : ∀ quote, Literal.isQuote quote = true → p quote = false) {text other : List Char}
    (h : Refilled related text other) :
    Refilled related (text.dropWhile p) (other.dropWhile p) := by
  induction h with
  | nil => exact .nil
  | @plain c rest other hc hrest ih =>
    rw [List.dropWhile_cons, List.dropWhile_cons]
    split
    · exact ih
    · exact .plain hc hrest
  | literal hquote hcontents hfilling hrelated hne hrest =>
    simp only [List.cons_append, List.dropWhile_cons, hp _ hquote]
    exact .literal hquote hcontents hfilling hrelated hne hrest
  | unterminated hquote hread =>
    simp only [List.dropWhile_cons, hp _ hquote]
    exact .unterminated hquote hread

theorem isWhitespace_quote {quote : Char} (h : Literal.isQuote quote = true) :
    Unicode.isWhitespace quote = false := by
  rcases Literal.eq_of_isQuote h with rfl | rfl <;> decide

theorem isIdentifierPart_quote {quote : Char} (h : Literal.isQuote quote = true) :
    isIdentifierPart quote = false := by
  rcases Literal.eq_of_isQuote h with rfl | rfl <;> decide

/-! ### Numbers, signs and words -/

theorem startsWith_eq (p : Char → Bool) {text other : List Char}
    (h : Refilled related text other) : startsWith p text = startsWith p other := by
  cases h <;> rfl

/-- A literal ends a number, and begins no sign. -/
theorem scansAlike_refilled (related : Literal → Literal → Prop) :
    ScansAlike (Refilled related) where
  step {text _} h := by
    cases text with
    | nil =>
      cases h
      exact .inr ⟨endsNumber_nil, endsNumber_nil⟩
    | cons c rest =>
      rcases h.cons_cases with ⟨-, others, rfl, hrest⟩ | ⟨hquote, others, rfl⟩
      · exact .inl ⟨c, rest, others, rfl, rfl, hrest⟩
      · exact .inr ⟨endsNumber_quote hquote rest, endsNumber_quote hquote others⟩
  start _ h := startsWith_eq _ h
  sign _ hquote h := h.cons_plain hquote
  back _ hquote h := by
    obtain ⟨rest, rfl, hrest⟩ := h.symm.cons_plain hquote
    exact ⟨rest, rfl, hrest.symm⟩

/-! ### Tokens -/

/-- Two scans of a token both fail, or find tokens that are alike with refilled texts after them. -/
def SameScan (related : Literal → Literal → Prop) :
    Except SyntaxFault (Token × List Char) → Except SyntaxFault (Token × List Char) → Prop :=
  Alike (fun _ _ => True) fun scanned other =>
    scanned.1.Alike (Constants related) other.1 ∧ Refilled related scanned.2 other.2

theorem sameScan_plain {c : Char} {rest other : List Char} (hc : Literal.isQuote c = false)
    (h : Refilled related rest other) :
    SameScan related (scanToken c rest) (scanToken c other) :=
  (scansAlike_refilled related).alike_scanToken (fun token _ _ hafter => ⟨.same token, hafter⟩) hc
    (.plain hc h) h fun _ =>
      ⟨takeWhile_eq (fun _ => isIdentifierPart_quote) h,
        refilled_dropWhile (fun _ => isIdentifierPart_quote) h⟩

theorem scanToken_quote {quote : Char} (h : Literal.isQuote quote = true) (rest : List Char) :
    scanToken quote rest = match scanString quote rest with
      | some (text, after) => .ok (.string (String.ofList text), after)
      | none => .error .unterminatedString := by
  rcases Literal.eq_of_isQuote h with rfl | rfl <;> rfl

theorem scanToken_literal {quote : Char} {contents after : List Char}
    (hquote : Literal.isQuote quote = true) (h : Literal.Contents quote contents)
    (hne : ∀ c ∈ after.head?, c ≠ quote) :
    scanToken quote (contents ++ quote :: after) =
      .ok (.string (Literal.constant ⟨quote, contents⟩), after) := by
  have hscan := scanString_contents hquote h hne
  rw [scanToken_quote hquote]
  cases hstring : scanString quote (contents ++ quote :: after) with
  | none =>
    rw [hstring] at hscan
    cases hscan
  | some result =>
    rw [hstring] at hscan
    obtain ⟨htext, hafter⟩ := Prod.mk.inj (Option.some.inj hscan)
    rw [← htext, ← hafter]

/-- The first tokens of refilled texts. -/
theorem sameScan_cons {c : Char} {rest other : List Char}
    (h : Refilled related (c :: rest) (c :: other)) :
    SameScan related (scanToken c rest) (scanToken c other) := by
  generalize htext : c :: rest = text at h
  generalize hothers : c :: other = others at h
  cases h with
  | nil => cases htext
  | plain hc hrest =>
    cases htext
    cases hothers
    exact sameScan_plain hc hrest
  | @literal quote contents filling rest other hquote hcontents hfilling hrelated hne hrest =>
    obtain ⟨rfl, rfl⟩ := List.cons.inj htext
    obtain ⟨-, rfl⟩ := List.cons.inj hothers
    change SameScan related (scanToken c (contents ++ c :: rest))
      (scanToken c (filling ++ c :: other))
    rw [scanToken_literal hquote hcontents hne,
      scanToken_literal hquote hfilling (hrest.head?_eq ▸ hne)]
    exact .ok ⟨.string ⟨_, _, hrelated, rfl, rfl⟩, hrest⟩
  | unterminated hquote hread =>
    cases htext
    cases hothers
    rw [scanToken_quote hquote, scanString_eq_none hquote hread]
    exact .error trivial

/-- The tokens of refilled texts are the same, except for the constants of their literals. -/
theorem tokens_refilled {text other : List Char} (h : Refilled related text other) :
    Alike (fun _ _ => True) (List.Forall₂ (Token.Alike (Constants related))) (tokens text)
      (tokens other) := by
  refine alike_tokens (fun h => refilled_dropWhile (fun _ => isWhitespace_quote) h) (fun h => ?_)
    (fun h => ?_) And.right .nil (fun hsame _ hrest => .cons hsame.1 hrest) h
  · cases h
    rfl
  · obtain ⟨-, others, rfl, -⟩ | ⟨-, others, rfl⟩ := h.cons_cases
    all_goals exact ⟨_, others, rfl, sameScan_cons h⟩

end Lexer

end StreamQuery
