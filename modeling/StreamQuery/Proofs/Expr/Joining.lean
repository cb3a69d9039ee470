import StreamQuery.Proofs.Expr.Lexing
import StreamQuery.Proofs.Expr.Nesting
import StreamQuery.Proofs.Query.Filling

/-!
# Tokens of joined texts

Texts whose literals all end can be joined with commas: the tokens of the whole are those of the
texts with commas between them. Outside of its literals a text has the same brackets and commas as
its tokens.
-/

namespace StreamQuery

/-- The mark that a character makes. -/
def Mark.ofChar? (c : Char) : Option Mark :=
  if c == '(' || c == '[' || c == '\x7b' then some .opening
  else if c == ')' || c == ']' || c == '\x7d' then some .closing
  else if c == ',' then some .comma
  else none

/-- The marks of a text, literals not told apart. -/
def textMarks (text : List Char) : List Mark :=
  text.filterMap Mark.ofChar?

@[simp] theorem textMarks_nil : textMarks [] = [] := rfl

@[simp] theorem textMarks_append (text other : List Char) :
    textMarks (text ++ other) = textMarks text ++ textMarks other :=
  List.filterMap_append

@[simp] theorem textMarks_cons (c : Char) (rest : List Char) :
    textMarks (c :: rest) = (Mark.ofChar? c).toList ++ textMarks rest := by
  rw [textMarks, List.filterMap_cons]
  cases Mark.ofChar? c <;> rfl

/-- A class of characters without brackets and commas. -/
def Unmarking (p : Char → Bool) : Prop :=
  ∀ c ∈ ['(', '[', '\x7b', ')', ']', '\x7d', ','], p c = false

theorem Unmarking.ofChar?_eq_none {p : Char → Bool} (h : Unmarking p) {c : Char} (hc : p c = true) :
    Mark.ofChar? c = none := by
  have hne : ∀ d ∈ ['(', '[', '\x7b', ')', ']', '\x7d', ','], c ≠ d := by
    rintro d hd rfl
    cases hc.symm.trans (h c hd)
  simp only [List.forall_mem_cons] at hne
  simp [Mark.ofChar?, hne]

theorem Unmarking.textMarks_eq_nil {p : Char → Bool} (h : Unmarking p) {text : List Char}
    (htext : text.all p = true) : textMarks text = [] :=
  List.filterMap_eq_nil_iff.mpr fun c hc => h.ofChar?_eq_none (List.all_eq_true.mp htext c hc)

/-- A text whose literals all end, with the marks outside of them. -/
inductive Shown : List Char → List Mark → Prop
  | nil : Shown [] []
  | plain {c : Char} {rest : List Char} {marks : List Mark} : Literal.isQuote c = false →
      Shown rest marks → Shown (c :: rest) ((Mark.ofChar? c).toList ++ marks)
  | literal {quote : Char} {contents rest : List Char} {marks : List Mark} :
      Literal.isQuote quote = true → Literal.Contents quote contents → Shown rest marks →
      Shown (quote :: contents ++ quote :: rest) marks

namespace Shown

variable {text rest : List Char} {marks : List Mark}

theorem of_plain {c : Char} (h : Shown (c :: rest) marks) (hc : Literal.isQuote c = false) :
    ∃ later, marks = (Mark.ofChar? c).toList ++ later ∧ Shown rest later := by
  generalize htext : c :: rest = text at h
  cases h with
  | nil => cases htext
  | plain _ hrest =>
    cases htext
    exact ⟨_, rfl, hrest⟩
  | literal hquote =>
    cases htext
    cases hc.symm.trans hquote

/-- A literal with those that follow it at once in the same quotes. -/
theorem of_quote {quote : Char} (h : Shown (quote :: rest) marks)
    (hquote : Literal.isQuote quote = true) :
    ∃ contents after, rest = contents ++ quote :: after ∧ Literal.Contents quote contents ∧
      (∀ c ∈ after.head?, c ≠ quote) ∧ Shown after marks := by
  generalize htext : quote :: rest = text at h
  induction h generalizing rest with
  | nil => cases htext
  | plain hc =>
    cases htext
    cases hc.symm.trans hquote
  | @literal quote' contents after marks _ hcontents hafter ih =>
    obtain ⟨rfl, rfl⟩ := List.cons.inj htext
    by_cases hhead : ∀ c ∈ after.head?, c ≠ quote
    · exact ⟨contents, after, rfl, hcontents, hhead, hafter⟩
    · cases after with
      | nil => simp at hhead
      | cons c after =>
        obtain rfl : c = quote := by simpa using hhead
        obtain ⟨more, later, rfl, hmore, hlater, hshown⟩ := ih rfl
        exact ⟨contents ++ c :: c :: more, later, by simp, hcontents.append hmore.doubled, hlater,
          hshown⟩

theorem of_append {front : List Char} (h : Shown (front ++ rest) marks)
    (hfront : ∀ c ∈ front, Literal.isQuote c = false) :
    ∃ later, marks = textMarks front ++ later ∧ Shown rest later := by
  induction front generalizing marks with
  | nil => exact ⟨marks, rfl, h⟩
  | cons c front ih =>
    obtain ⟨hc, hfront⟩ := List.forall_mem_cons.mp hfront
    obtain ⟨middle, rfl, hmiddle⟩ := h.of_plain hc
    obtain ⟨later, rfl, hlater⟩ := ih hmiddle hfront
    exact ⟨later, by rw [textMarks_cons, List.append_assoc], hlater⟩

theorem append_plain {front : List Char} (hfront : ∀ c ∈ front, Literal.isQuote c = false)
    (h : Shown rest marks) : Shown (front ++ rest) (textMarks front ++ marks) := by
  induction front with
  | nil => exact h
  | cons c front ih =>
    obtain ⟨hc, hfront⟩ := List.forall_mem_cons.mp hfront
    simpa using plain hc (ih hfront)

theorem dropWhile {p : Char → Bool} (h : Shown text marks) (hp : Unmarking p)
    (hquote : ∀ quote, Literal.isQuote quote = true → p quote = false) :
    Shown (text.dropWhile p) marks := by
  have hfront : (text.takeWhile p).all p = true := List.all_takeWhile
  have hsplit : text.takeWhile p ++ text.dropWhile p = text := List.takeWhile_append_dropWhile
  obtain ⟨later, rfl, hlater⟩ := (hsplit.symm ▸ h).of_append fun c hc => by
    refine Bool.eq_false_iff.mpr fun hc' => ?_
    cases (List.all_eq_true.mp hfront c hc).symm.trans (hquote c hc')
  rwa [hp.textMarks_eq_nil hfront]

end Shown

namespace Lexer

theorem unmarking_isWhitespace : Unmarking Unicode.isWhitespace := by
  unfold Unmarking
  decide

theorem unmarking_isIdentifierPart : Unmarking isIdentifierPart := by
  unfold Unmarking
  decide

/-! ### Before a separator -/

/-- A character that ends what stands in front of it: no word or number goes on with it, and no
sign. -/
structure Separates (d : Char) : Prop where
  part : isIdentifierPart d = false
  sign : d ∉ ['.', '-', '+', '=', '<', '>', '*', '/', '&', '|', '?']

theorem separates_comma : Separates ',' :=
  ⟨by decide, by decide⟩

variable {p : Char → Bool} {d : Char}

theorem takeWhile_append_cons (hd : p d = false) (text more : List Char) :
    (text ++ d :: more).takeWhile p = text.takeWhile p := by
  induction text with
  | nil => simp [hd]
  | cons c text ih => rw [List.cons_append, List.takeWhile_cons, List.takeWhile_cons, ih]

theorem dropWhile_append_cons (hd : p d = false) (text more : List Char) :
    (text ++ d :: more).dropWhile p = text.dropWhile p ++ d :: more := by
  induction text with
  | nil => simp [hd]
  | cons c text ih =>
    rw [List.cons_append, List.dropWhile_cons, List.dropWhile_cons, ih]
    split <;> rfl

theorem startsWith_append_cons (hd : p d = false) (text more : List Char) :
    startsWith p (text ++ d :: more) = startsWith p text := by
  cases text with
  | nil => exact hd
  | cons c text => rfl

theorem append_ne_cons {c : Char} {after more : List Char} (hc : c ≠ d)
    (h : ∀ rest, after = c :: rest → False) : ∀ rest, after ++ d :: more = c :: rest → False := by
  cases after with
  | nil =>
    intro rest heq
    exact hc (List.cons.inj heq).1.symm
  | cons e after =>
    intro rest heq
    obtain ⟨rfl, -⟩ := List.cons.inj heq
    exact h after rfl

theorem scanSign_cons_eq_none {c : Char} {rest : List Char} (h : scanSign (c :: rest) = none)
    (others : List Char) : scanSign (c :: others) = none := by
  unfold scanSign at h
  split at h <;> try cases h
  unfold scanSign
  split
  all_goals first
    | rfl
    | (rename_i heq; cases heq; exfalso; solve_by_elim)

namespace Separates

theorem ne_sign (h : Separates d) {c : Char}
    (hc : c ∈ ['.', '-', '+', '=', '<', '>', '*', '/', '&', '|', '?']) : c ≠ d := by
  rintro rfl
  exact h.sign hc

theorem isDigit (h : Separates d) : d.isDigit = false := by
  refine Bool.eq_false_iff.mpr fun hdigit => ?_
  cases h.part.symm.trans (Fragment.isNameChar_of_isDigit hdigit)

theorem endsNumber (h : Separates d) (more : List Char) : EndsNumber (d :: more) where
  scan isFloat := by
    have hpoint := h.ne_sign (show '.' ∈ _ by decide)
    have hpart : ∀ c, isIdentifierPart c = true → d ≠ c := by
      rintro c hc rfl
      cases h.part.symm.trans hc
    rw [scanNumber.eq_def]
    simp [h.isDigit, hpart '_' (by decide), hpart 'e' (by decide), hpart 'E' (by decide),
      hpoint.symm]
  exponent := by
    have hminus := h.ne_sign (show '-' ∈ _ by decide)
    have hplus := h.ne_sign (show '+' ∈ _ by decide)
    simp [startsWith, h.isDigit, hminus.symm, hplus.symm]

/-- A number before a separator ends where it ended. -/
theorem scanNumber_append (h : Separates d) (isFloat : Bool) (text more : List Char) :
    scanNumber isFloat (text ++ d :: more) =
      { scanNumber isFloat text with rest := (scanNumber isFloat text).rest ++ d :: more } := by
  have hends := h.endsNumber more
  have hletter : Unicode.isAlphabetic d = false := by
    have hpart := h.part
    simp only [isIdentifierPart, Unicode.isAlphanumeric, Bool.or_eq_false_iff] at hpart
    exact hpart.1.1
  have hmethod (rest : List Char) :
      startsWith (fun n => Unicode.isAlphabetic n && n != 'e' && n != 'E') (rest ++ d :: more) =
        startsWith (fun n => Unicode.isAlphabetic n && n != 'e' && n != 'E') rest :=
    startsWith_append_cons (by simp [hletter]) rest more
  fun_induction scanNumber isFloat text with
  | case1 isFloat => exact hends.scan isFloat
  | case8 isFloat c _ _ _ hexponent => exact scanNumber_letter hexponent hends.exponent isFloat
  | _ =>
    rw [List.cons_append, scanNumber.eq_def]
    simp_all [NumberScan.push]

/-- A sign before a separator is the same sign. -/
theorem scanSign_append (h : Separates d) (c : Char) (text more : List Char) :
    scanSign (c :: text ++ d :: more) =
      (scanSign (c :: text)).map fun (symbol, after) => (symbol, after ++ d :: more) := by
  rw [List.cons_append]
  cases hsign : scanSign (c :: text) with
  | none => exact scanSign_cons_eq_none hsign _
  | some found =>
    unfold scanSign at hsign
    split at hsign <;> cases hsign
    all_goals rename_i heq; cases heq
    -- A sign of two characters, one that no longer sign begins with, or one without the next
    -- character of any longer sign.
    all_goals first
      | rfl
      | (rw [scanSign] <;> first | rfl | exact append_ne_cons (h.ne_sign (by decide)) ‹_›)

/-- A token before a separator is the same token, if it is no string. -/
theorem scanToken_append (h : Separates d) {c : Char} (hc : Literal.isQuote c = false)
    (text more : List Char) :
    scanToken c (text ++ d :: more) =
      (scanToken c text).map fun (token, after) => (token, after ++ d :: more) := by
  unfold scanToken
  rw [startsWith_append_cons h.isDigit, ← List.cons_append, h.scanNumber_append]
  split
  · dsimp only
    cases numberToken (scanNumber false (c :: text)).digits
        (scanNumber false (c :: text)).isFloat <;> rfl
  split
  · rename_i hquote
    rw [Bool.or_comm] at hquote
    cases hc.symm.trans hquote
  split
  · rw [takeWhile_append_cons h.part, dropWhile_append_cons h.part]
    rfl
  · rw [h.scanSign_append]
    cases scanSign (c :: text) <;> rfl

end Separates

/-! ### Scanning a token -/

/-- Whether a number begins with a character in front of a text. -/
def startsNumber (c : Char) (rest : List Char) : Bool :=
  c.isDigit || (c == '.' && startsWith Char.isDigit rest)

/-- How the token at the front of a text is found. -/
inductive Scans (c : Char) (rest : List Char) : Token → List Char → Prop
  | number {token : Token}
      (hstart : startsNumber c rest = true)
      (h : numberToken (scanNumber false (c :: rest)).digits
        (scanNumber false (c :: rest)).isFloat = .ok token) :
      Scans c rest token (scanNumber false (c :: rest)).rest
  | string {contents after : List Char} (hquote : Literal.isQuote c = true)
      (h : Literal.Contents c contents) (hne : ∀ d ∈ after.head?, d ≠ c)
      (hrest : rest = contents ++ c :: after) :
      Scans c rest (.string (Literal.constant ⟨c, contents⟩)) after
  | word (hstart : isIdentifierStart c = true) :
      Scans c rest (wordToken ((c :: rest).takeWhile isIdentifierPart))
        ((c :: rest).dropWhile isIdentifierPart)
  | sign {symbol : Symbol} {after : List Char}
      (hnumber : startsNumber c rest = false)
      (h : scanSign (c :: rest) = some (symbol, after)) : Scans c rest (.symbol symbol) after

theorem isIdentifierPart_of_isIdentifierStart {c : Char} (h : isIdentifierStart c = true) :
    isIdentifierPart c = true := by
  simp only [isIdentifierStart, isIdentifierPart, Unicode.isAlphanumeric, Bool.or_eq_true] at h ⊢
  exact h.imp_left .inl

theorem scans_of_scanToken {c : Char} {rest after : List Char} {token : Token}
    (h : scanToken c rest = .ok (token, after)) : Scans c rest token after := by
  cases hquote : Literal.isQuote c with
  | true =>
    cases hread : Literal.read? c rest with
    | none =>
      rw [scanToken_quote hquote, scanString_eq_none hquote hread] at h
      cases h
    | some found =>
      obtain ⟨rfl, hcontents, hne⟩ := Literal.contents_of_read? hquote hread
      rw [scanToken_literal hquote hcontents hne] at h
      cases h
      exact .string hquote hcontents hne rfl
  | false =>
    unfold scanToken at h
    split at h
    · next hstart =>
      dsimp only at h
      cases hnumber : numberToken (scanNumber false (c :: rest)).digits
          (scanNumber false (c :: rest)).isFloat with
      | error fault =>
        rw [hnumber] at h
        cases h
      | ok number =>
        rw [hnumber] at h
        cases h
        exact .number hstart hnumber
    · next hnumber =>
      split at h
      · next hquote' =>
        rw [Bool.or_comm] at hquote'
        cases hquote.symm.trans hquote'
      split at h
      · next hstart =>
        cases h
        have hdrop : (c :: rest).dropWhile isIdentifierPart = rest.dropWhile isIdentifierPart := by
          rw [List.dropWhile_cons, if_pos (isIdentifierPart_of_isIdentifierStart hstart)]
        exact hdrop ▸ .word hstart
      · cases hsign : scanSign (c :: rest) with
        | none =>
          rw [hsign] at h
          cases h
        | some found =>
          rw [hsign] at h
          cases h
          exact .sign (Bool.eq_false_iff.mpr hnumber) hsign

/-! ### The characters of a token -/

/-- A character in a number. -/
def isNumberPart (c : Char) : Bool :=
  c.isDigit || ['_', '.', 'e', 'E', '-', '+'].contains c

theorem unmarking_isNumberPart : Unmarking isNumberPart := by
  unfold Unmarking
  decide

theorem isNumberPart_quote {quote : Char} (h : Literal.isQuote quote = true) :
    isNumberPart quote = false := by
  rcases Literal.eq_of_isQuote h with rfl | rfl <;> decide

theorem exists_append_scanNumber (isFloat : Bool) (text : List Char) :
    ∃ front, text = front ++ (scanNumber isFloat text).rest ∧ front.all isNumberPart = true := by
  fun_induction scanNumber isFloat text with
  | case2 isFloat c rest hdigit ih =>
    obtain ⟨front, htext, hfront⟩ := ih
    exact ⟨c :: front, congrArg (c :: ·) htext, by simp [isNumberPart, hdigit, hfront]⟩
  | case3 isFloat c rest _ hunderscore ih =>
    obtain ⟨front, htext, hfront⟩ := ih
    obtain rfl := eq_of_beq hunderscore
    exact ⟨'_' :: front, congrArg ('_' :: ·) htext, by simp [isNumberPart, hfront]⟩
  | case5 isFloat c rest _ _ hpoint _ ih =>
    obtain ⟨front, htext, hfront⟩ := ih
    obtain rfl := eq_of_beq (Bool.and_eq_true_iff.mp hpoint).1
    exact ⟨'.' :: front, congrArg ('.' :: ·) htext, by simp [isNumberPart, hfront]⟩
  | case6 isFloat c _ _ _ hexponent n rest hsign ih =>
    obtain ⟨front, htext, hfront⟩ := ih
    refine ⟨c :: n :: front, congrArg (c :: n :: ·) htext, ?_⟩
    have hc : isNumberPart c = true := by
      rcases (by simpa using hexponent : c = 'e' ∨ c = 'E') with rfl | rfl <;> decide
    have hn : isNumberPart n = true := by
      rcases (by simpa using hsign : (n = '-' ∨ n = '+') ∨ n.isDigit = true) with (rfl | rfl) | hn
      · decide
      · decide
      · simp [isNumberPart, hn]
    simp [hc, hn, hfront]
  | _ => exact ⟨[], rfl, rfl⟩

/-- The characters of a sign make the mark of its symbol. -/
theorem scanSign_front {text after : List Char} {symbol : Symbol}
    (h : scanSign text = some (symbol, after)) :
    ∃ front, text = front ++ after ∧ (∀ c ∈ front, Literal.isQuote c = false) ∧
      textMarks front = symbol.mark?.toList := by
  unfold scanSign at h
  split at h <;> cases h
  all_goals first
    | exact ⟨[_, _], rfl, by decide, rfl⟩
    | exact ⟨[_], rfl, by decide, rfl⟩

theorem mark?_of_numberToken {digits : List Char} {isFloat : Bool} {token : Token}
    (h : numberToken digits isFloat = .ok token) : token.mark? = none := by
  unfold numberToken at h
  simp only at h
  split at h
  · cases h
    rfl
  split at h <;> cases h
  rfl

theorem mark?_wordToken (word : List Char) : (wordToken word).mark? = none := by
  unfold wordToken keyword?
  split
  · rename_i hkeyword
    split at hkeyword <;> cases hkeyword
    all_goals rfl
  · rfl

variable {c : Char} {text rest : List Char} {marks : List Mark}

/-- The characters of a token that is no string make its mark, if any. -/
theorem scanToken_front (hc : Literal.isQuote c = false) {token : Token} {after : List Char}
    (h : scanToken c rest = .ok (token, after)) :
    ∃ front, c :: rest = front ++ after ∧ (∀ d ∈ front, Literal.isQuote d = false) ∧
      textMarks front = token.mark?.toList := by
  have hclass : ∀ {p : Char → Bool} {front : List Char},
      (∀ quote, Literal.isQuote quote = true → p quote = false) → front.all p = true →
      ∀ d ∈ front, Literal.isQuote d = false := fun hp hfront d hd => by
    refine Bool.eq_false_iff.mpr fun hquote => ?_
    cases (List.all_eq_true.mp hfront d hd).symm.trans (hp d hquote)
  cases scans_of_scanToken h with
  | number _ hnumber =>
    obtain ⟨front, htext, hfront⟩ := exists_append_scanNumber false (c :: rest)
    refine ⟨front, htext, hclass (fun _ => isNumberPart_quote) hfront, ?_⟩
    rw [unmarking_isNumberPart.textMarks_eq_nil hfront, mark?_of_numberToken hnumber]
    rfl
  | string hquote => cases hc.symm.trans hquote
  | word =>
    have hword : ((c :: rest).takeWhile isIdentifierPart).all isIdentifierPart = true :=
      List.all_takeWhile
    refine ⟨_, List.takeWhile_append_dropWhile.symm,
      hclass (fun _ => isIdentifierPart_quote) hword, ?_⟩
    rw [unmarking_isIdentifierPart.textMarks_eq_nil hword, mark?_wordToken]
    rfl
  | sign _ hsign => exact scanSign_front hsign

/-- The first token of a text makes its first mark, if any. -/
theorem shown_of_scanToken (h : Shown (c :: rest) marks) {token : Token} {after : List Char}
    (htoken : scanToken c rest = .ok (token, after)) :
    ∃ later, marks = token.mark?.toList ++ later ∧ Shown after later := by
  cases hquote : Literal.isQuote c with
  | true =>
    obtain ⟨contents, following, rfl, hcontents, hne, hfollowing⟩ := h.of_quote hquote
    rw [scanToken_literal hquote hcontents hne] at htoken
    cases htoken
    exact ⟨marks, rfl, hfollowing⟩
  | false =>
    obtain ⟨front, htext, hfront, hmarks⟩ := scanToken_front hquote htoken
    rw [htext] at h
    obtain ⟨later, rfl, hlater⟩ := h.of_append hfront
    exact ⟨later, by rw [hmarks], hlater⟩

/-! ### Tokens before a comma -/

theorem scanToken_append_comma (h : Shown (c :: rest) marks) (more : List Char) :
    scanToken c (rest ++ ',' :: more) =
      (scanToken c rest).map fun (token, after) => (token, after ++ ',' :: more) := by
  cases hquote : Literal.isQuote c with
  | true =>
    obtain ⟨contents, after, rfl, hcontents, hne, -⟩ := h.of_quote hquote
    have hne' : ∀ d ∈ (after ++ ',' :: more).head?, d ≠ c := by
      cases after with
      | nil => rcases Literal.eq_of_isQuote hquote with rfl | rfl <;> simp
      | cons d after => exact hne
    rw [scanToken_literal hquote hcontents hne, List.append_assoc, List.cons_append,
      scanToken_literal hquote hcontents hne']
    rfl
  | false => exact separates_comma.scanToken_append hquote rest more

/-- A comma between two texts is a comma between their tokens. -/
theorem tokens_append_comma (h : Shown text marks) (more : List Char) :
    tokens (text ++ ',' :: more) = (do
      let before ← tokens text
      let after ← tokens more
      pure (before ++ .symbol .comma :: after)) := by
  have hwhole (text : List Char) : (text ++ ',' :: more).dropWhile Unicode.isWhitespace =
      text.dropWhile Unicode.isWhitespace ++ ',' :: more :=
    dropWhile_append_cons (by decide) text more
  induction text using tokens_induction generalizing marks with
  | blank text htext =>
    have hafter := hwhole text
    rw [htext] at hafter
    have hcomma : scanToken ',' more = .ok (.symbol .comma, more) := rfl
    rw [tokens_nil htext, tokens_token hafter hcomma]
    cases tokens more <;> rfl
  | fault text rest c fault htext hscan =>
    have hdrop := h.dropWhile unmarking_isWhitespace fun _ => isWhitespace_quote
    have hafter := hwhole text
    rw [htext] at hdrop hafter
    have happend := scanToken_append_comma hdrop more
    rw [hscan] at happend
    rw [tokens_fault htext hscan, tokens_fault hafter happend]
    rfl
  | token text rest after c token htext hscan ih =>
    have hdrop := h.dropWhile unmarking_isWhitespace fun _ => isWhitespace_quote
    have hafter := hwhole text
    rw [htext] at hdrop hafter
    have happend := scanToken_append_comma hdrop more
    rw [hscan] at happend
    obtain ⟨later, -, hlater⟩ := shown_of_scanToken hdrop hscan
    rw [tokens_token htext hscan, tokens_token hafter happend, ih hlater]
    cases tokens after with
    | error fault => rfl
    | ok before => cases tokens more <;> rfl

/-- The tokens of a text make the marks outside of its literals. -/
theorem marksOf_tokens {ts : List Token} (h : Shown text marks) (htokens : tokens text = .ok ts) :
    marksOf ts = marks := by
  induction text using tokens_induction generalizing marks ts with
  | blank text htext =>
    rw [tokens_nil htext] at htokens
    cases htokens
    have hdrop := h.dropWhile unmarking_isWhitespace fun _ => isWhitespace_quote
    rw [htext] at hdrop
    cases hdrop
    rfl
  | fault text rest c fault htext hscan =>
    rw [tokens_fault htext hscan] at htokens
    cases htokens
  | token text rest after c token htext hscan ih =>
    obtain ⟨_, _, following, hfirst, hafter, rfl⟩ := exists_of_tokens htext htokens
    cases hscan.symm.trans hfirst
    have hdrop := h.dropWhile unmarking_isWhitespace fun _ => isWhitespace_quote
    rw [htext] at hdrop
    obtain ⟨later, rfl, hlater⟩ := shown_of_scanToken hdrop hscan
    rw [marksOf_cons, ih hlater hafter]

theorem shown_cons_of_scanToken {token : Token} {after : List Char}
    (htoken : scanToken c rest = .ok (token, after)) (h : Shown after marks) :
    ∃ before, Shown (c :: rest) before := by
  cases hquote : Literal.isQuote c with
  | true =>
    cases hread : Literal.read? c rest with
    | none =>
      rw [scanToken_quote hquote, scanString_eq_none hquote hread] at htoken
      cases htoken
    | some found =>
      obtain ⟨rfl, hcontents, hne⟩ := Literal.contents_of_read? hquote hread
      rw [scanToken_literal hquote hcontents hne] at htoken
      cases htoken
      exact ⟨marks, .literal hquote hcontents h⟩
  | false =>
    obtain ⟨front, htext, hfront, -⟩ := scanToken_front hquote htoken
    exact ⟨textMarks front ++ marks, htext ▸ h.append_plain hfront⟩

/-- Blanks in front of a text have no quotes. -/
theorem exists_shown_of_dropWhile (h : Shown (text.dropWhile Unicode.isWhitespace) marks) :
    ∃ before, Shown text before := by
  have hblanks : ∀ c ∈ text.takeWhile Unicode.isWhitespace, Literal.isQuote c = false := by
    intro c hc
    refine Bool.eq_false_iff.mpr fun hquote => ?_
    have hblank : Unicode.isWhitespace c = true := List.all_eq_true.mp List.all_takeWhile c hc
    cases hblank.symm.trans (isWhitespace_quote hquote)
  have hsplit : text.takeWhile Unicode.isWhitespace ++ text.dropWhile Unicode.isWhitespace = text :=
    List.takeWhile_append_dropWhile
  exact ⟨_, hsplit ▸ h.append_plain hblanks⟩

/-- The literals of a text that has tokens all end. -/
theorem exists_shown_of_tokens {ts : List Token} (htokens : tokens text = .ok ts) :
    ∃ marks, Shown text marks := by
  induction text using tokens_induction generalizing ts with
  | blank text htext =>
    have hnil : Shown (text.dropWhile Unicode.isWhitespace) [] := htext ▸ .nil
    exact exists_shown_of_dropWhile hnil
  | fault text rest c fault htext hscan =>
    rw [tokens_fault htext hscan] at htokens
    cases htokens
  | token text rest after c token htext hscan ih =>
    obtain ⟨_, _, _, hfirst, hafter, -⟩ := exists_of_tokens htext htokens
    cases hscan.symm.trans hfirst
    obtain ⟨later, hlater⟩ := ih hafter
    obtain ⟨before, hbefore⟩ := shown_cons_of_scanToken hscan hlater
    rw [← htext] at hbefore
    exact exists_shown_of_dropWhile hbefore

theorem tokens_blank (rest : List Char) : tokens (' ' :: rest) = tokens rest :=
  tokens_congr (by rw [List.dropWhile_cons, if_pos (by decide)])

/-- The tokens of joined texts are those of the texts with commas between them. -/
theorem tokens_intercalate {texts : List (List Char)} {ts : List Token} (hne : texts ≠ [])
    (h : ∀ text ∈ texts, ∃ marks, Shown text marks) :
    tokens ([',', ' '].intercalate texts) = .ok ts ↔
      ∃ parts, List.Forall₂ (fun text part => tokens text = .ok part) texts parts ∧
        ts = Parser.separated parts := by
  induction texts generalizing ts with
  | nil => exact absurd rfl hne
  | cons text rest ih =>
    obtain ⟨⟨marks, hshown⟩, hrest⟩ := List.forall_mem_cons.mp h
    cases rest with
    | nil =>
      rw [List.intercalate_singleton]
      refine ⟨fun htext => ⟨[ts], .cons htext .nil, (Parser.separated_singleton ts).symm⟩, ?_⟩
      rintro ⟨parts, hparts, rfl⟩
      cases hparts with
      | cons htext hnil =>
        cases hnil
        rwa [Parser.separated_singleton]
    | cons next rest =>
      have hnext : next :: rest ≠ [] := List.cons_ne_nil _ _
      have hjoined := tokens_append_comma hshown (' ' :: [',', ' '].intercalate (next :: rest))
      rw [tokens_blank] at hjoined
      rw [List.intercalate_cons_of_ne_nil hnext, List.append_assoc]
      constructor
      · intro htokens
        obtain ⟨before, hbefore, htokens⟩ := ok_of_bind (hjoined.symm.trans htokens)
        obtain ⟨after, hafter, htokens⟩ := ok_of_bind htokens
        obtain ⟨parts, hparts, rfl⟩ := (ih hnext hrest).mp hafter
        cases htokens
        cases hparts with
        | cons hfirst hothers =>
          exact ⟨_, .cons hbefore (.cons hfirst hothers),
            (Parser.separated_cons (List.cons_ne_nil _ _) _).symm⟩
      · rintro ⟨parts, hparts, rfl⟩
        cases hparts with
        | @cons _ before _ others hbefore hothers =>
          have hafter := (ih hnext hrest).mpr ⟨_, hothers, rfl⟩
          have hne : others ≠ [] := by
            rintro rfl
            cases hothers
          refine hjoined.trans ?_
          rw [hbefore, hafter, Parser.separated_cons hne]
          rfl

end Lexer

namespace Expr

/-- A text whose literals all end and that, outside of them, closes only brackets it has opened and
has commas only inside of brackets. -/
def SelfContained (text : List Char) : Prop :=
  ∃ marks depth, Shown text marks ∧ nest 0 marks = some depth

theorem selfContained_of_plain {text : List Char} {depth : Nat}
    (hplain : text.any Literal.isQuote = false) (h : nest 0 (textMarks text) = some depth) :
    SelfContained text := by
  have hshown := Shown.append_plain
    (fun c hc => Bool.eq_false_iff.mpr (List.any_eq_false.mp hplain c hc)) .nil
  rw [List.append_nil, List.append_nil] at hshown
  exact ⟨_, depth, hshown, h⟩

theorem parse_ok_iff {text : String} {e : Expr} :
    parse text = .ok e ↔ ∃ part, tokenize text = .ok part ∧ Parser.Spelled part e :=
  ⟨ok_of_bind, fun ⟨part, htokens, hspelled⟩ => by rw [parse, htokens]; exact hspelled⟩

theorem forall₂_parse_iff {texts : List String} {exprs : List Expr} :
    List.Forall₂ (fun text e => parse text = .ok e) texts exprs ↔
      ∃ parts, List.Forall₂ (fun text part => tokenize text = .ok part) texts parts ∧
        List.Forall₂ Parser.Spelled parts exprs := by
  constructor
  · intro h
    induction h with
    | nil => exact ⟨[], .nil, .nil⟩
    | cons hparse _ ih =>
      obtain ⟨part, htokens, hspelled⟩ := parse_ok_iff.mp hparse
      obtain ⟨parts, hparts, hexprs⟩ := ih
      exact ⟨part :: parts, .cons htokens hparts, .cons hspelled hexprs⟩
  · rintro ⟨parts, hparts, hexprs⟩
    induction hparts generalizing exprs with
    | nil =>
      cases hexprs
      exact .nil
    | cons htokens _ ih =>
      cases hexprs with
      | cons hspelled hrest => exact .cons (parse_ok_iff.mpr ⟨_, htokens, hspelled⟩) (ih hrest)

theorem inside_of_tokenize {texts : List String} {parts : List (List Token)}
    (h : ∀ text ∈ texts, SelfContained text.toList)
    (hparts : List.Forall₂ (fun text part => tokenize text = .ok part) texts parts) :
    ∀ part ∈ parts, Parser.Inside part := by
  induction hparts with
  | nil => exact fun _ hmem => absurd hmem List.not_mem_nil
  | cons htokens _ ih =>
    obtain ⟨⟨marks, depth, hshown, hnest⟩, hrest⟩ := List.forall_mem_cons.mp h
    refine List.forall_mem_cons.mpr ⟨⟨depth, ?_⟩, ih hrest⟩
    rw [Lexer.marksOf_tokens hshown htokens, hnest]

theorem tokenize_intercalate {texts : List String} {ts : List Token} (hne : texts ≠ [])
    (h : ∀ text ∈ texts, ∃ marks, Shown text.toList marks) :
    tokenize (", ".intercalate texts) = .ok ts ↔
      ∃ parts, List.Forall₂ (fun text part => tokenize text = .ok part) texts parts ∧
        ts = Parser.separated parts := by
  have hshown : ∀ text ∈ texts.map String.toList, ∃ marks, Shown text marks :=
    List.forall_mem_map.mpr h
  rw [tokenize, String.toList_intercalate]
  refine (Lexer.tokens_intercalate (by simpa using hne) hshown).trans ?_
  simp only [List.forall₂_map_left_iff, tokenize]

theorem ne_nil_of_forall₂ {texts : List String} {parts : List (List Token)} (hne : texts ≠ [])
    (h : List.Forall₂ (fun text part => tokenize text = .ok part) texts parts) : parts ≠ [] := by
  rintro rfl
  cases h
  exact hne rfl

/-- Texts that are parsed one by one are parsed to the same expressions when they are joined. -/
theorem parseList_of_each {texts : List String} {exprs : List Expr} (hne : texts ≠ [])
    (h : List.Forall₂ (fun text e => parse text = .ok e) texts exprs) :
    parseList (", ".intercalate texts) = .ok exprs := by
  obtain ⟨parts, hparts, hexprs⟩ := forall₂_parse_iff.mp h
  have hshown : ∀ text ∈ texts, ∃ marks, Shown text.toList marks :=
    ((List.forall₂_and_left _ _).mp
      (hparts.imp fun _ _ htokens => ⟨Lexer.exists_shown_of_tokens htokens, htokens⟩)).1
  rw [parseList, (tokenize_intercalate hne hshown).mpr ⟨parts, hparts, rfl⟩]
  exact Parser.several_of_spelled (ne_nil_of_forall₂ hne hparts) hexprs

/-- Joined texts are parsed to the expressions that the texts are parsed to one by one. -/
theorem parseList_intercalate {texts : List String} {exprs : List Expr} (hne : texts ≠ [])
    (h : ∀ text ∈ texts, SelfContained text.toList) :
    parseList (", ".intercalate texts) = .ok exprs ↔
      List.Forall₂ (fun text e => parse text = .ok e) texts exprs := by
  refine ⟨fun hparse => ?_, parseList_of_each hne⟩
  have hshown : ∀ text ∈ texts, ∃ marks, Shown text.toList marks := fun text htext =>
    (h text htext).imp fun _ ⟨_, hmarks, _⟩ => hmarks
  obtain ⟨ts, hts, hexprs⟩ := ok_of_bind hparse
  obtain ⟨parts, hparts, rfl⟩ := (tokenize_intercalate hne hshown).mp hts
  exact forall₂_parse_iff.mpr ⟨parts, hparts,
    (Parser.several_separated (ne_nil_of_forall₂ hne hparts) (inside_of_tokenize h hparts)).mp
      hexprs⟩

end Expr

end StreamQuery
