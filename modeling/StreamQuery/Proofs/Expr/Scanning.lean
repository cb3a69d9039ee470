import StreamQuery.Expr.Lexer
import StreamQuery.Proofs.Agreement
import StreamQuery.Proofs.Query.Piece
import StreamQuery.Proofs.Unicode.Letters

/-!
# Texts that are scanned alike

The tokens of a text are scanned one after the other, each from the front of what is left. Where two
texts have the same numbers and signs at their fronts, and texts that are related in the same way
behind these, the scanner takes the same steps in both of them. Their tokens are related as soon as
their words and strings are.
-/

namespace StreamQuery.Lexer

open Unicode

/-! ### One token after the other -/

section Tokens

variable {text other rest after : List Char} {c : Char}

theorem tokens_nil (h : text.dropWhile isWhitespace = []) : tokens text = .ok [] := by
  rw [tokens]
  split
  · rfl
  · rename_i hblank
    cases h.symm.trans hblank

theorem tokens_fault {fault : SyntaxFault} (h : text.dropWhile isWhitespace = c :: rest)
    (htoken : scanToken c rest = .error fault) : tokens text = .error fault := by
  rw [tokens]
  split
  · rename_i hblank
    cases h.symm.trans hblank
  · rename_i hblank
    cases h.symm.trans hblank
    split
    · rename_i hscan
      cases htoken.symm.trans hscan
      rfl
    · rename_i hscan
      cases htoken.symm.trans hscan

theorem tokens_token {token : Token} (h : text.dropWhile isWhitespace = c :: rest)
    (htoken : scanToken c rest = .ok (token, after)) :
    tokens text = (tokens after).map (token :: ·) := by
  rw [tokens]
  split
  · rename_i hblank
    cases h.symm.trans hblank
  · rename_i hblank
    cases h.symm.trans hblank
    split
    · rename_i hscan
      cases htoken.symm.trans hscan
    · rename_i hscan
      cases htoken.symm.trans hscan
      cases tokens after <;> rfl

theorem length_lt_of_scanToken {token : Token} (hblank : text.dropWhile isWhitespace = c :: rest)
    (htoken : scanToken c rest = .ok (token, after)) : after.length < text.length := by
  have hafter := length_scanToken_le htoken
  have hblanks := length_dropWhile_le isWhitespace text
  rw [hblank, List.length_cons] at hblanks
  omega

/-- Only blanks are left of a text, its first token cannot be scanned, or other tokens follow. -/
theorem tokens_induction {motive : List Char → Prop}
    (blank : ∀ text : List Char, text.dropWhile isWhitespace = [] → motive text)
    (fault : ∀ (text rest : List Char) (c : Char) (fault : SyntaxFault),
      text.dropWhile isWhitespace = c :: rest → scanToken c rest = .error fault → motive text)
    (token : ∀ (text rest after : List Char) (c : Char) (token : Token),
      text.dropWhile isWhitespace = c :: rest → scanToken c rest = .ok (token, after) →
      motive after → motive text) (text : List Char) : motive text := by
  induction hlength : text.length using Nat.strongRecOn generalizing text with
  | ind length ih =>
    cases hblank : text.dropWhile isWhitespace with
    | nil => exact blank text hblank
    | cons c rest =>
      cases hscan : scanToken c rest with
      | error reason => exact fault text rest c reason hblank hscan
      | ok found =>
        have hshorter := length_lt_of_scanToken hblank hscan
        exact token text rest found.2 c found.1 hblank hscan (ih _ (hlength ▸ hshorter) _ rfl)

/-- Blanks in front make no difference. -/
theorem tokens_congr (h : text.dropWhile isWhitespace = other.dropWhile isWhitespace) :
    tokens text = tokens other := by
  cases hblank : other.dropWhile isWhitespace with
  | nil => rw [tokens_nil (h.trans hblank), tokens_nil hblank]
  | cons c rest =>
    cases hscan : scanToken c rest with
    | error fault => rw [tokens_fault (h.trans hblank) hscan, tokens_fault hblank hscan]
    | ok found => rw [tokens_token (h.trans hblank) hscan, tokens_token hblank hscan]

theorem exists_of_tokens {ts : List Token} (hblank : text.dropWhile isWhitespace = c :: rest)
    (h : tokens text = .ok ts) :
    ∃ token after others, scanToken c rest = .ok (token, after) ∧ tokens after = .ok others ∧
      ts = token :: others := by
  cases hscan : scanToken c rest with
  | error fault =>
    rw [tokens_fault hblank hscan] at h
    cases h
  | ok found =>
    obtain ⟨token, after⟩ := found
    rw [tokens_token hblank hscan] at h
    cases hafter : tokens after with
    | error fault =>
      rw [hafter] at h
      cases h
    | ok others =>
      rw [hafter] at h
      cases h
      exact ⟨token, after, others, rfl, hafter, rfl⟩

end Tokens

/-- Related texts have related tokens if their first tokens are related, and the texts behind these
are. -/
theorem alike_tokens {R : List Char → List Char → Prop} {Q : List Token → List Token → Prop}
    {S : Token × List Char → Token × List Char → Prop}
    (hblanks : ∀ {text other : List Char}, R text other →
      R (text.dropWhile isWhitespace) (other.dropWhile isWhitespace))
    (hnil : ∀ {other : List Char}, R [] other → other = [])
    (hscan : ∀ {c : Char} {rest other : List Char}, R (c :: rest) other →
      ∃ d others, other = d :: others ∧
        Alike (fun _ _ => True) S (scanToken c rest) (scanToken d others))
    (hafter : ∀ {scanned other : Token × List Char}, S scanned other → R scanned.2 other.2)
    (hempty : Q [] [])
    (hcons : ∀ {scanned other : Token × List Char} {ts us : List Token}, S scanned other →
      tokens scanned.2 = .ok ts → Q ts us → Q (scanned.1 :: ts) (other.1 :: us))
    {text other : List Char} (h : R text other) :
    Alike (fun _ _ => True) Q (tokens text) (tokens other) := by
  induction text using tokens_induction generalizing other with
  | blank text htext =>
    have hdrop := hblanks h
    rw [htext] at hdrop
    rw [tokens_nil htext, tokens_nil (hnil hdrop)]
    exact .ok hempty
  | fault text rest c fault htext hfirst =>
    have hdrop := hblanks h
    rw [htext] at hdrop
    obtain ⟨d, others, hother, hsame⟩ := hscan hdrop
    rw [hfirst] at hsame
    generalize hsecond : scanToken d others = second at hsame
    cases hsame
    rw [tokens_fault htext hfirst, tokens_fault hother hsecond]
    exact .error trivial
  | token text rest after c token htext hfirst ih =>
    have hdrop := hblanks h
    rw [htext] at hdrop
    obtain ⟨d, others, hother, hsame⟩ := hscan hdrop
    rw [hfirst] at hsame
    generalize hsecond : scanToken d others = second at hsame
    cases hsame with
    | @ok _ found hfound =>
      have hlater := ih (hafter hfound)
      rw [tokens_token htext hfirst, tokens_token hother hsecond]
      generalize hts : tokens after = ts, tokens found.2 = us at hlater
      cases hlater with
      | error => exact .error trivial
      | ok hus => exact .ok (hcons hfound hts hus)

/-! ### Numbers and signs -/

theorem scanNumber_digit {c : Char} (h : c.isDigit = true) (isFloat : Bool) (rest : List Char) :
    scanNumber isFloat (c :: rest) = (scanNumber isFloat rest).push c := by
  rw [scanNumber.eq_def]
  simp only [h, if_true]

theorem scanNumber_underscore (isFloat : Bool) (rest : List Char) :
    scanNumber isFloat ('_' :: rest) = scanNumber isFloat rest := by
  rw [scanNumber.eq_def]
  rfl

/-- A point in front of the name of a method ends a number. -/
theorem scanNumber_method {rest : List Char}
    (h : startsWith (fun n => isAlphabetic n && n != 'e' && n != 'E') rest = true) :
    scanNumber false ('.' :: rest) = ⟨[], false, '.' :: rest⟩ := by
  have hdigit : '.'.isDigit = false := by decide
  rw [scanNumber.eq_def]
  simp [hdigit, h]

theorem scanNumber_point {rest : List Char}
    (h : startsWith (fun n => isAlphabetic n && n != 'e' && n != 'E') rest = false) :
    scanNumber false ('.' :: rest) = (scanNumber true rest).push '.' := by
  have hdigit : '.'.isDigit = false := by decide
  rw [scanNumber.eq_def]
  simp [hdigit, h]

theorem scanNumber_exponent {c n : Char} (hc : (c == 'e' || c == 'E') = true)
    (hn : (n == '-' || n == '+' || n.isDigit) = true) (isFloat : Bool) (rest : List Char) :
    scanNumber isFloat (c :: n :: rest) = ((scanNumber true rest).push n).push c := by
  rw [scanNumber.eq_def]
  rcases (by simpa using hc : c = 'e' ∨ c = 'E') with rfl | rfl
  · exact if_pos hn
  · exact if_pos hn

/-- The letter of an exponent ends a number itself when none follows. -/
theorem scanNumber_letter {c : Char} (hc : (c == 'e' || c == 'E') = true) {rest : List Char}
    (h : startsWith (fun n => n == '-' || n == '+' || n.isDigit) rest = false) (isFloat : Bool) :
    scanNumber isFloat (c :: rest) = ⟨[], isFloat, c :: rest⟩ := by
  rcases (by simpa using hc : c = 'e' ∨ c = 'E') with rfl | rfl
  all_goals
    rw [scanNumber.eq_def]
    cases rest <;> simp_all [startsWith]

theorem scanNumber_stop {c : Char} {isFloat : Bool} (hdigit : ¬ c.isDigit = true)
    (hunderscore : ¬ (c == '_') = true) (hpoint : ¬ (c == '.' && !isFloat) = true)
    (hexponent : ¬ (c == 'e' || c == 'E') = true) (rest : List Char) :
    scanNumber isFloat (c :: rest) = ⟨[], isFloat, c :: rest⟩ := by
  rw [scanNumber.eq_def]
  dsimp only
  rw [if_neg hdigit, if_neg hunderscore, if_neg hpoint, if_neg hexponent]

theorem scanNumber_quote {quote : Char} (h : Literal.isQuote quote = true) (isFloat : Bool)
    (rest : List Char) : scanNumber isFloat (quote :: rest) = ⟨[], isFloat, quote :: rest⟩ := by
  rw [scanNumber.eq_def]
  rcases Literal.eq_of_isQuote h with rfl | rfl <;> rfl

/-- Texts that no number goes on with, and no exponent of one. -/
structure EndsNumber (text : List Char) : Prop where
  scan (isFloat : Bool) : scanNumber isFloat text = ⟨[], isFloat, text⟩
  exponent : startsWith (fun n => n == '-' || n == '+' || n.isDigit) text = false

theorem endsNumber_nil : EndsNumber [] where
  scan _ := scanNumber.eq_1 _
  exponent := rfl

theorem endsNumber_quote {quote : Char} (h : Literal.isQuote quote = true) (rest : List Char) :
    EndsNumber (quote :: rest) where
  scan isFloat := scanNumber_quote h isFloat rest
  exponent := by
    rcases Literal.eq_of_isQuote h with rfl | rfl <;> rfl

/-- Texts are related so that they begin with the same numbers and signs: they begin with the same
character in front of related texts, or end numbers, and no sign comes or goes. -/
structure ScansAlike (R : List Char → List Char → Prop) : Prop where
  step {text other : List Char} : R text other →
    (∃ c rest others, text = c :: rest ∧ other = c :: others ∧ R rest others) ∨
      EndsNumber text ∧ EndsNumber other
  start {text other : List Char} {p : Char → Bool} : Caseless p → R text other →
    startsWith p text = startsWith p other
  sign {c : Char} {rest other : List Char} : c.isAlpha = false → Literal.isQuote c = false →
    R (c :: rest) other → ∃ others, other = c :: others ∧ R rest others
  back {c : Char} {text others : List Char} : c.isAlpha = false → Literal.isQuote c = false →
    R text (c :: others) → ∃ rest, text = c :: rest ∧ R rest others

/-- Two numbers are the same, with related texts after them. -/
structure SameNumber (R : List Char → List Char → Prop) (scan other : NumberScan) : Prop where
  digits : scan.digits = other.digits
  isFloat : scan.isFloat = other.isFloat
  rest : R scan.rest other.rest

variable {R : List Char → List Char → Prop} {text other : List Char}

theorem SameNumber.push {scan other : NumberScan} (h : SameNumber R scan other) (c : Char) :
    SameNumber R (scan.push c) (other.push c) :=
  ⟨congrArg (c :: ·) h.digits, h.isFloat, h.rest⟩

namespace ScansAlike

protected theorem flip (hR : ScansAlike R) : ScansAlike (flip R) where
  step h := by
    rcases hR.step h with ⟨c, others, rest, rfl, rfl, hrest⟩ | ⟨hother, htext⟩
    · exact .inl ⟨c, rest, others, rfl, rfl, hrest⟩
    · exact .inr ⟨htext, hother⟩
  start hp h := (hR.start hp h).symm
  sign hc hquote h := hR.back hc hquote h
  back hc hquote h := hR.sign hc hquote h

theorem sameNumber (hR : ScansAlike R) (h : R text other) (isFloat : Bool) :
    SameNumber R (scanNumber isFloat text) (scanNumber isFloat other) := by
  induction hlength : text.length using Nat.strongRecOn generalizing text other isFloat with
  | ind length ih =>
    subst hlength
    rcases hR.step h with ⟨c, rest, others, rfl, rfl, hrest⟩ | ⟨htext, hother⟩
    · have hshorter := Nat.lt_succ_self rest.length
      have hcaseless : Caseless fun n => isAlphabetic n && n != 'e' && n != 'E' := by decide
      have hstart := hR.start hcaseless hrest
      by_cases hexponent : (c == 'e' || c == 'E') = true ∧ EndsNumber rest ∧ EndsNumber others
      · obtain ⟨hc, hends, hotherEnds⟩ := hexponent
        rw [scanNumber_letter hc hends.exponent, scanNumber_letter hc hotherEnds.exponent]
        exact ⟨rfl, rfl, h⟩
      rw [scanNumber.eq_def, scanNumber.eq_def isFloat (c :: others)]
      simp only [← hstart]
      -- A digit, an underscore, a point, or an exponent; anything else ends the number.
      split
      · exact (ih _ hshorter hrest isFloat rfl).push c
      split
      · exact ih _ hshorter hrest isFloat rfl
      split
      · split
        · exact ⟨rfl, rfl, h⟩
        · exact (ih _ hshorter hrest true rfl).push c
      split
      case isTrue hc =>
        rcases hR.step hrest with ⟨n, tail, otherTail, rfl, rfl, htail⟩ | hends
        · simp only
          split
          · exact ((ih _ (by simp only [List.length_cons]; omega) htail true rfl).push n).push c
          · exact ⟨rfl, rfl, h⟩
        · exact absurd ⟨hc, hends⟩ hexponent
      case isFalse => exact ⟨rfl, rfl, h⟩
    · rw [htext.scan, hother.scan]
      exact ⟨rfl, rfl, h⟩

theorem ne_cons (hR : ScansAlike R) {d : Char} (hd : d.isAlpha = false)
    (hquote : Literal.isQuote d = false) (h : R text other)
    (hne : ∀ rest, text = d :: rest → False) : ∀ rest, other = d :: rest → False := by
  rintro rest rfl
  obtain ⟨others, rfl, -⟩ := hR.back hd hquote h
  exact hne others rfl

/-- A sign is the same sign: neither a letter nor a quote belongs to one. -/
theorem exists_sign (hR : ScansAlike R) {after : List Char} {symbol : Symbol} (h : R text other)
    (hsign : scanSign text = some (symbol, after)) :
    ∃ others, scanSign other = some (symbol, others) ∧ R after others := by
  unfold scanSign at hsign
  split at hsign <;> cases hsign
  all_goals obtain ⟨_, rfl, hrest⟩ := hR.sign (by decide) rfl h
  -- A sign of two characters, one that no longer sign begins with, or one without the next
  -- character of any longer sign.
  all_goals first
    | (obtain ⟨_, rfl, hafter⟩ := hR.sign (by decide) rfl hrest; exact ⟨_, rfl, hafter⟩)
    | exact ⟨_, rfl, hrest⟩
    | (refine ⟨_, ?_, hrest⟩; rw [scanSign] <;> exact hR.ne_cons (by decide) rfl hrest ‹_›)

theorem scanSign_eq_none (hR : ScansAlike R) (h : R text other) (hnone : scanSign text = none) :
    scanSign other = none := by
  cases hother : scanSign other with
  | none => rfl
  | some found =>
    obtain ⟨_, hsome, -⟩ := hR.flip.exists_sign h hother
    cases hnone.symm.trans hsome

/-- The first tokens of related texts, if these are no strings: a word is the same word. -/
theorem alike_scanToken (hR : ScansAlike R) {S : Token × List Char → Token × List Char → Prop}
    (hS : ∀ (token : Token) {after others : List Char}, R after others →
      S (token, after) (token, others)) {c : Char} {rest others : List Char}
    (hc : Literal.isQuote c = false) (hwhole : R (c :: rest) (c :: others)) (h : R rest others)
    (hword : isIdentifierStart c = true →
      rest.takeWhile isIdentifierPart = others.takeWhile isIdentifierPart ∧
        R (rest.dropWhile isIdentifierPart) (others.dropWhile isIdentifierPart)) :
    Alike (fun _ _ => True) S (scanToken c rest) (scanToken c others) := by
  unfold scanToken
  rw [hR.start caseless_isDigit h]
  split
  · have hnumber := hR.sameNumber hwhole false
    simp only [hnumber.digits, hnumber.isFloat]
    cases numberToken (scanNumber false (c :: others)).digits
        (scanNumber false (c :: others)).isFloat with
    | error fault => exact .error trivial
    | ok token => exact .ok (hS token hnumber.rest)
  split
  · rename_i hquote
    rw [Bool.or_comm] at hquote
    cases hc.symm.trans hquote
  split
  · rename_i hstart
    obtain ⟨hfront, hafter⟩ := hword hstart
    rw [List.takeWhile_cons, List.takeWhile_cons, hfront]
    exact .ok (hS _ hafter)
  · cases hsign : scanSign (c :: rest) with
    | none =>
      rw [hR.scanSign_eq_none hwhole hsign]
      exact .error trivial
    | some found =>
      obtain ⟨others, hother, hafter⟩ := hR.exists_sign hwhole hsign
      rw [hother]
      exact .ok (hS _ hafter)

end ScansAlike

end StreamQuery.Lexer
