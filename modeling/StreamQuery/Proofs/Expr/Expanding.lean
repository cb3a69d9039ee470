import StreamQuery.Proofs.Expr.Relexing
import StreamQuery.Proofs.Expr.Respelling

/-!
# Expanded texts

Trimming and expanding a text changes none of the tokens that it is parsed from.
-/

/-!
## Blanks at the ends of texts

Blanks separate tokens and are none, so that a text without blanks at its ends has the same tokens:
every scanner stops at a blank as it stops at the end of the text.
-/

namespace StreamQuery.Lexer

open Fragment ColumnBindings

variable {blank : Char} {text rest : List Char}

theorem separates_blank (hblank : Unicode.isWhitespace blank = true) : Separates blank where
  part := isNameChar_of_isWhitespace hblank
  sign hsign := by
    have hsigns : ∀ c ∈ ['.', '-', '+', '=', '<', '>', '*', '/', '&', '|', '?'],
        Unicode.isWhitespace c = false := by decide
    cases hblank.symm.trans (hsigns blank hsign)

theorem scanString_append_blank {quote : Char} (hquote : Literal.isQuote quote = true)
    (hblank : Unicode.isWhitespace blank = true) (text : List Char) :
    scanString quote (text ++ [blank]) =
      (scanString quote text).map fun (content, after) => (content, after ++ [blank]) := by
  have hne : blank ≠ quote := by
    rintro rfl
    cases hblank.symm.trans (isWhitespace_quote hquote)
  have hbackslash : quote ≠ '\\' := Literal.ne_backslash_of_isQuote hquote
  fun_induction scanString quote text with
  | case1 => simp [scanString, hne]
  | case2 c hc =>
    obtain rfl := eq_of_beq hc
    simp [scanString, hne]
  | case3 c hc => simp [scanString, hc, hne]
  | _ => simp_all [scanString, Function.comp_def]

theorem scanToken_append_blank (hblank : Unicode.isWhitespace blank = true) (c : Char)
    (text : List Char) :
    scanToken c (text ++ [blank]) =
      (scanToken c text).map fun (token, after) => (token, after ++ [blank]) := by
  cases hquote : Literal.isQuote c with
  | true =>
    rw [scanToken_quote hquote, scanToken_quote hquote, scanString_append_blank hquote hblank]
    cases scanString c text <;> rfl
  | false => exact (separates_blank hblank).scanToken_append hquote text []

/-- A blank behind a text makes no token. -/
theorem tokens_append_blank (hblank : Unicode.isWhitespace blank = true) (text : List Char) :
    tokens (text ++ [blank]) = tokens text := by
  have hdrop (text : List Char) : (text ++ [blank]).dropWhile Unicode.isWhitespace =
      if text.dropWhile Unicode.isWhitespace = [] then []
      else text.dropWhile Unicode.isWhitespace ++ [blank] := by
    rw [List.dropWhile_append]
    simp [hblank, List.isEmpty_iff]
  induction text using tokens_induction with
  | blank text htext =>
    have hnil := hdrop text
    rw [htext, if_pos rfl] at hnil
    rw [tokens_nil htext, tokens_nil hnil]
  | fault text rest c fault htext hscan =>
    have hcons := hdrop text
    rw [htext, if_neg (List.cons_ne_nil _ _), List.cons_append] at hcons
    have happend := scanToken_append_blank hblank c rest
    rw [hscan] at happend
    rw [tokens_fault htext hscan, tokens_fault hcons happend]
  | token text rest after c token htext hscan ih =>
    have hcons := hdrop text
    rw [htext, if_neg (List.cons_ne_nil _ _), List.cons_append] at hcons
    have happend := scanToken_append_blank hblank c rest
    rw [hscan] at happend
    rw [tokens_token htext hscan, tokens_token hcons happend, ih]

theorem tokens_trim (text : List Char) :
    tokens (Text.trim Unicode.isWhitespace text) = tokens text := by
  have hend (text : List Char) : tokens (Text.trimEnd Unicode.isWhitespace text) = tokens text := by
    induction text using List.reverseRecOn with
    | nil => rfl
    | append_singleton front c ih =>
      rw [Text.trimEnd, List.reverse_append, List.reverse_singleton, List.singleton_append,
        List.dropWhile_cons]
      split
      · next hblank => rw [tokens_append_blank hblank]; exact ih
      · simp
  rw [Text.trim, hend, Text.trimStart, tokens_dropWhile]

end StreamQuery.Lexer

/-!
## Tokens of expanded texts

The tokens of a text with its members expanded are those of the text with the same members
respelled, so that expanding a text without other shorthand changes nothing that is parsed from it.
Two things are told apart by the tokens only: a keyword behind a dot is a name in lower case, and a
number with separators may go on behind its point with a letter or a separator.
-/

namespace StreamQuery

open Fragment Lexer ColumnBindings

namespace Lexer

/-! ### What a dot means to the tokens only -/

/-- Whether the number at the front of a text goes on with a letter or a separator behind its point
and has a separator before it. -/
def splitAtPoint (separated : Bool) : List Char → Bool
  | [] => false
  | c :: rest =>
    if c.isDigit then splitAtPoint separated rest
    else if c == '_' then splitAtPoint true rest
    else c == '.' && separated && startsWith (fun n => n == 'e' || n == 'E' || n == '_') rest

/-- Whether a keyword that is not called is at the front of a text, as another name than its own. -/
def renamesKeyword (text : List Char) : Bool :=
  !Fragment.opensCall (ofText (text.dropWhile isIdentifierPart)) &&
    (Parser.fieldName? (wordToken (text.takeWhile isIdentifierPart))).any (· != frontWord text)

/-- Whether a token in front of a text has a dot that only the tokens tell the meaning of. -/
def isMisleading (c : Char) (rest : List Char) (token : Token) (after : List Char) : Bool :=
  if startsNumber c rest then splitAtPoint false (c :: rest)
  else token.isDot && renamesKeyword after

/-- Whether some dot of a text has a meaning that only the tokens tell: behind it is a keyword that
is not in lower case, or it is the point of a number with separators that goes on with a letter or a
separator. -/
def misleads (text : List Char) : Bool :=
  match _hblank : text.dropWhile Unicode.isWhitespace with
  | [] => false
  | c :: rest =>
    match _htoken : scanToken c rest with
    | .error _ => false
    | .ok (token, after) => isMisleading c rest token after || misleads after
termination_by text.length
decreasing_by exact length_lt_of_scanToken _hblank _htoken

theorem misleads_token {text rest after : List Char} {c : Char} {token : Token}
    (h : text.dropWhile Unicode.isWhitespace = c :: rest)
    (htoken : scanToken c rest = .ok (token, after)) :
    misleads text = (isMisleading c rest token after || misleads after) := by
  rw [misleads]
  split
  · rename_i hblank
    cases h.symm.trans hblank
  · rename_i hblank
    cases h.symm.trans hblank
    split
    · rename_i hscan
      cases htoken.symm.trans hscan
    · rename_i hscan
      cases htoken.symm.trans hscan
      rfl

end Lexer

namespace Shorthand

variable {place : Place} {text rest : List Char}

/-! ### Numbers -/

theorem exists_cons_membersAfter (place : Place) (c : Char) (rest : List Char) :
    ∃ d others, membersAfter place (c :: rest) = d :: others ∧ (d = c ∨ c = '.' ∧ d = '[') := by
  rcases head?_membersAfter_cases place (c :: rest) with h | ⟨hdot, -, h⟩
  · obtain ⟨others, hothers⟩ := List.head?_eq_some_iff.mp h
    exact ⟨c, others, hothers, .inl rfl⟩
  · obtain ⟨others, hothers⟩ := List.head?_eq_some_iff.mp h
    exact ⟨'[', others, hothers, .inr ⟨Option.some.inj hdot, rfl⟩⟩

theorem startsWith_head?_membersAfter (p : Char → Bool) (text : List Char) :
    startsWith p (membersAfter (.outside false) text) = startsWith p text :=
  startsWith_eq_of_head? (head?_membersAfter text)

/-- The point of a number is no member, unless the number goes on like one behind a separator. -/
theorem beginsMember_point {separated : Bool} (hvalue : place.isValue = true → separated = true)
    (hsplit : splitAtPoint separated ('.' :: rest) = false)
    (hmethod : ¬ startsWith (fun n => Unicode.isAlphabetic n && n != 'e' && n != 'E') rest = true) :
    (place.isValue && beginsMember rest) = false := by
  refine Bool.eq_false_iff.mpr fun htaken => ?_
  obtain ⟨hplace, hmember⟩ := Bool.and_eq_true_iff.mp htaken
  have hstart := startsWith_of_beginsMember hmember
  cases rest with
  | nil => cases hstart
  | cons n rest =>
    have hn : (Unicode.isAlphabetic n || n == '_') = true := hstart
    simp only [splitAtPoint, hvalue hplace, startsWith] at hsplit hmethod
    have hdigit : Char.isDigit '.' = false := by decide
    simp [hdigit] at hsplit hmethod
    simp_all

theorem isValue_of_isDigits (h : place.isDigits = false) : place.isValue = true := by
  cases place with
  | outside => cases h
  | inside digits =>
    have hdigits : digits = false := h
    rw [hdigits]
    rfl

/-- A number stays, and what follows it stands behind the word that it ends in. -/
theorem scanNumber_membersAfter (isFloat : Bool) (text : List Char) {place : Place}
    {separated : Bool} (hvalue : isFloat = false → place.isValue = true → separated = true)
    (hsplit : isFloat = false → splitAtPoint separated text = false) :
    ∃ next, scanNumber isFloat (membersAfter place text) =
      { scanNumber isFloat text with
        rest := membersAfter next (scanNumber isFloat text).rest } := by
  have hletter {c : Char} (h : (c == 'e' || c == 'E') = true) : isNameChar c = true := by
    rcases (by simpa using h : c = 'e' ∨ c = 'E') with rfl | rfl <;> decide
  fun_induction scanNumber isFloat text generalizing place separated with
  | case1 isFloat => exact ⟨place, by rw [membersAfter_nil, scanNumber]⟩
  | case2 isFloat c rest hdigit ih =>
    simp only [splitAtPoint, hdigit, if_true] at hsplit
    have hinside : isFloat = false →
        (Place.inside (place.isDigits && c.isDigit)).isValue = true → separated = true := by
      intro hfloat hplace
      refine hvalue hfloat (isValue_of_isDigits ?_)
      simpa [Place.isValue, hdigit] using hplace
    obtain ⟨next, hnext⟩ := ih hinside hsplit
    refine ⟨next, ?_⟩
    rw [membersAfter_cons (isNameChar_of_isDigit hdigit), scanNumber_digit hdigit, hnext]
    rfl
  | case3 isFloat c rest hdigit hunderscore ih =>
    have hsplit' : isFloat = false → splitAtPoint true rest = false := fun hfloat => by
      have hwhole := hsplit hfloat
      rwa [splitAtPoint, if_neg hdigit, if_pos hunderscore] at hwhole
    obtain ⟨next, hnext⟩ := @ih (.inside (place.isDigits && c.isDigit)) true (by simp) hsplit'
    refine ⟨next, ?_⟩
    obtain rfl := eq_of_beq hunderscore
    rw [membersAfter_cons (by decide), scanNumber_underscore, hnext]
  | case4 isFloat c rest hdigit hunderscore hpoint hmethod =>
    obtain ⟨rfl, rfl⟩ : c = '.' ∧ isFloat = false := by simpa using hpoint
    refine ⟨place, ?_⟩
    rw [membersAfter_dot]
    split
    · rw [itemAccess, List.append_assoc, List.append_assoc]
      exact scanNumber.eq_def _ _
    · exact scanNumber_method (by rwa [startsWith_head?_membersAfter])
  | case5 isFloat c rest hdigit hunderscore hpoint hmethod ih =>
    obtain ⟨rfl, rfl⟩ : c = '.' ∧ isFloat = false := by simpa using hpoint
    obtain ⟨next, hnext⟩ := @ih (.outside false) separated (by simp) (by simp)
    refine ⟨next, ?_⟩
    rw [membersAfter_dot, beginsMember_point (hvalue rfl) (hsplit rfl) hmethod,
      if_neg Bool.false_ne_true, scanNumber_point, hnext]
    · rfl
    · rwa [startsWith_head?_membersAfter, ← Bool.not_eq_true]
  | case6 isFloat c hdigit hunderscore hpoint hexponent n rest hsign ih =>
    obtain ⟨middle, hmiddle⟩ : ∃ middle, membersAfter (.inside (place.isDigits && c.isDigit))
        (n :: rest) = n :: membersAfter middle rest := by
      by_cases hn : n.isDigit = true
      · exact ⟨_, membersAfter_cons (isNameChar_of_isDigit hn) _ _⟩
      · rcases (by simpa [hn] using hsign : n = '-' ∨ n = '+') with rfl | rfl
        · exact ⟨_, membersAfter_sign (by decide) (by decide) (by decide) _ _⟩
        · exact ⟨_, membersAfter_sign (by decide) (by decide) (by decide) _ _⟩
    obtain ⟨next, hnext⟩ := @ih middle separated (by simp) (by simp)
    refine ⟨next, ?_⟩
    rw [membersAfter_cons (hletter hexponent), hmiddle, scanNumber_exponent hexponent hsign, hnext]
    rfl
  | case7 isFloat c hdigit hunderscore hpoint hexponent n rest hsign =>
    refine ⟨place, ?_⟩
    obtain ⟨d, others, hothers, hd⟩ :=
      exists_cons_membersAfter (.inside (place.isDigits && c.isDigit)) n rest
    have hstop : startsWith (fun n => n == '-' || n == '+' || n.isDigit) (d :: others) = false := by
      rcases hd with rfl | ⟨-, rfl⟩
      · exact Bool.eq_false_iff.mpr hsign
      · rfl
    rw [membersAfter_cons (hletter hexponent), hothers]
    exact scanNumber_letter hexponent hstop isFloat
  | case8 isFloat c hdigit hunderscore hpoint hexponent =>
    refine ⟨place, ?_⟩
    rw [membersAfter_cons (hletter hexponent), membersAfter_nil]
    exact scanNumber_letter hexponent rfl isFloat
  | case9 isFloat c rest hdigit hunderscore hpoint hexponent =>
    refine ⟨place, ?_⟩
    obtain ⟨d, others, hothers, hd⟩ := exists_cons_membersAfter place c rest
    rw [hothers]
    rcases hd with rfl | ⟨-, rfl⟩
    · exact scanNumber_stop hdigit hunderscore hpoint hexponent others
    · exact scanNumber.eq_def _ _

theorem startsWith_scanNumber (isFloat : Bool) (text : List Char) :
    startsWith Char.isDigit (scanNumber isFloat text).rest = false := by
  fun_induction scanNumber isFloat text <;> simp_all [startsWith]

/-- A number begins at a place that takes no member behind it. -/
theorem exists_place_of_startsNumber {c : Char} (h : startsNumber c rest = true)
    (hplace : place.isInside = true → startsWith Char.isDigit (c :: rest) = false) :
    ∃ front : Place, front.isValue = false ∧
      membersAfter place (c :: rest) = membersAfter front (c :: rest) := by
  cases hdigit : c.isDigit with
  | true =>
    cases place with
    | inside =>
      have hstop : c.isDigit = false := hplace rfl
      cases hdigit.symm.trans hstop
    | outside =>
      have hname : startsWith isNameChar (c :: rest) = true := isNameChar_of_isDigit hdigit
      exact ⟨.inside true, rfl, membersAfter_of_name hname⟩
  | false =>
    obtain ⟨rfl, hrest⟩ : c = '.' ∧ startsWith Char.isDigit rest = true := by
      simpa [startsNumber, hdigit] using h
    have hmember : beginsMember rest = false := by
      refine Bool.eq_false_iff.mpr fun hmember => ?_
      have hstart := startsWith_of_beginsMember hmember
      cases rest with
      | nil => cases hrest
      | cons d rest => cases hstart.symm.trans (isIdentifierStart_of_isDigit hrest)
    exact ⟨.outside false, rfl, by simp [membersAfter_dot, hmember]⟩

/-- A number begins where it began. -/
theorem exists_number_membersAfter {c : Char} (hplace : place.isValue = false)
    (h : startsNumber c rest = true) :
    ∃ others, membersAfter place (c :: rest) = c :: others ∧ startsNumber c others = true := by
  rcases head?_membersAfter_cases place (c :: rest) with hhead | ⟨-, hvalue, -⟩
  · obtain ⟨others, hothers⟩ := List.head?_eq_some_iff.mp hhead
    refine ⟨others, hothers, ?_⟩
    by_cases hdot : c = '.'
    · subst hdot
      rw [membersAfter_dot, hplace, Bool.false_and, if_neg Bool.false_ne_true] at hothers
      rwa [← (List.cons.inj hothers).2, startsNumber, startsWith_head?_membersAfter, ← startsNumber]
    · simpa [startsNumber, hdot] using h
  · cases hplace.symm.trans hvalue

/-! ### Signs -/

/-- A sign other than a dot stays. -/
theorem scanSign_membersAfter (place : Place) {after : List Char} {symbol : Symbol}
    (hsymbol : symbol ≠ .dot) (h : scanSign text = some (symbol, after)) :
    scanSign (membersAfter place text) = some (symbol, membersAfter (.outside
      (symbol == .rightParen || symbol == .rightBracket || symbol == .rightBrace)) after) := by
  unfold scanSign at h
  split at h <;> cases h
  all_goals first
    | exact (hsymbol rfl).elim
    | rw [membersAfter_sign (by decide) (by decide) (by decide)]
  -- A sign of two characters, one that no longer sign begins with, or one without the next
  -- character of any longer sign.
  all_goals first
    | (rw [membersAfter_sign (by decide) (by decide) (by decide)]; rfl)
    | rfl
    | (rw [scanSign] <;> first | rfl | exact membersAfter_ne_cons (by decide) ‹_›)

/-! ### Blanks -/

theorem free_of_outside {p : Prop} (value : Bool) (h : (Place.outside value).isInside = true) : p :=
  absurd h Bool.false_ne_true

/-- Behind blanks a text stands at a place of its own, that takes no digits from before. -/
theorem exists_dropWhile_membersAfter (place : Place) (text : List Char)
    (hplace : place.isInside = true → startsWith Char.isDigit text = false) :
    ∃ next : Place,
      (membersAfter place text).dropWhile Unicode.isWhitespace =
        membersAfter next (text.dropWhile Unicode.isWhitespace) ∧
      (next.isInside = true →
        startsWith Char.isDigit (text.dropWhile Unicode.isWhitespace) = false) := by
  induction text generalizing place with
  | nil => exact ⟨place, by rw [membersAfter_nil]; exact membersAfter_nil.symm, hplace⟩
  | cons c rest ih =>
    cases hblank : Unicode.isWhitespace c with
    | true =>
      obtain ⟨next, hnext, hinside⟩ :=
        ih (.outside (c == ')' || c == ']' || c == '\x7d')) (free_of_outside _)
      have hdot : c ≠ '.' := by
        rintro rfl
        revert hblank
        decide
      rw [membersAfter_sign (isQuote_of_isWhitespace hblank) (isNameChar_of_isWhitespace hblank)
        hdot, List.dropWhile_cons, List.dropWhile_cons, if_pos hblank, if_pos hblank]
      exact ⟨next, hnext, hinside⟩
    | false =>
      refine ⟨place, ?_, ?_⟩
      · obtain ⟨d, others, hothers, hd⟩ := exists_cons_membersAfter place c rest
        have hkept : Unicode.isWhitespace d = false := by
          rcases hd with rfl | ⟨-, rfl⟩
          · exact hblank
          · decide
        rw [hothers, List.dropWhile_cons, hkept, List.dropWhile_cons, hblank]
        exact hothers.symm
      · rwa [List.dropWhile_cons, hblank]

/-! ### Tokens -/

/-- Wherever a text stands, unless its digits go on with a word, its tokens are those of the text
with its members expanded, respelled. -/
def Respells (text : List Char) (ts : List Token) : Prop :=
  ∀ place : Place, (place.isInside = true → startsWith Char.isDigit text = false) →
    ∃ us, tokens (membersAfter place text) = .ok us ∧ Parser.Respelled ts us

variable {c : Char} {after : List Char} {token : Token} {others : List Token}

theorem respells_number (hstart : startsNumber c rest = true)
    (hnumber : numberToken (scanNumber false (c :: rest)).digits
      (scanNumber false (c :: rest)).isFloat = .ok token)
    (hsplit : splitAtPoint false (c :: rest) = false)
    (ih : Respells (scanNumber false (c :: rest)).rest others) :
    Respells (c :: rest) (token :: others) := by
  intro place hplace
  obtain ⟨front, hvalue, hfront⟩ := exists_place_of_startsNumber hstart hplace
  obtain ⟨behind, hbehind, hstart'⟩ := exists_number_membersAfter hvalue hstart
  obtain ⟨next, hscan⟩ := @scanNumber_membersAfter false (c :: rest) front false
    (fun _ htaken => absurd (hvalue.symm.trans htaken) Bool.false_ne_true) (fun _ => hsplit)
  obtain ⟨us, htokens, hus⟩ := ih next fun _ => startsWith_scanNumber _ _
  have hblank : Unicode.isWhitespace c = false := by
    rcases Bool.or_eq_true_iff.mp hstart with hdigit | hpoint
    · exact isWhitespace_of_isNameChar (isNameChar_of_isDigit hdigit)
    · rw [eq_of_beq (Bool.and_eq_true_iff.mp hpoint).1]
      decide
  have htoken := scanToken_number hstart'
  rw [← hbehind, hscan, hnumber] at htoken
  rw [hfront, hbehind]
  exact ⟨_, tokens_cons hblank htoken htokens, .keep token hus⟩

theorem respells_string (hquote : Literal.isQuote c = true) {contents : List Char}
    (hcontents : Literal.Contents c contents) (hne : ∀ d ∈ after.head?, d ≠ c)
    (ih : Respells after others) :
    Respells (c :: (contents ++ c :: after))
      (.string (Literal.constant ⟨c, contents⟩) :: others) := by
  intro place _
  obtain ⟨us, htokens, hus⟩ := ih (.outside false) (free_of_outside _)
  rw [membersAfter_quoted hquote hcontents]
  rw [← head?_membersAfter after] at hne
  exact ⟨_, tokens_cons (isWhitespace_quote hquote) (scanToken_literal hquote hcontents hne)
    htokens, .keep _ hus⟩

theorem respells_word (hc : isIdentifierStart c = true)
    (ih : Respells ((c :: rest).dropWhile isIdentifierPart) others) :
    Respells (c :: rest) (wordToken ((c :: rest).takeWhile isIdentifierPart) :: others) := by
  intro place _
  obtain ⟨us, htokens, hus⟩ := ih (.outside true) (free_of_outside _)
  have hstarts : startsWith isIdentifierStart (c :: rest) = true := hc
  have hend := (startsWith_membersAfter (.outside true) _).trans
    (startsWith_dropWhile isNameChar (c :: rest))
  rw [membersAfter_word hstarts]
  exact ⟨_, tokens_frontWord hc rest hend htokens, .keep _ hus⟩

theorem respells_sign (hnumber : startsNumber c rest = false) {symbol : Symbol}
    (hsymbol : symbol ≠ .dot) (hsign : scanSign (c :: rest) = some (symbol, after))
    (ih : Respells after others) : Respells (c :: rest) (.symbol symbol :: others) := by
  intro place _
  obtain ⟨hblank, hquote, hname⟩ := scanSign_start hsign
  have hdot : c ≠ '.' := by
    rintro rfl
    cases hsign
    exact hsymbol rfl
  have hsign' := scanSign_membersAfter place hsymbol hsign
  obtain ⟨us, htokens, hus⟩ := ih (.outside _) (free_of_outside _)
  have hnumber' (behind : List Char) : startsNumber c behind = false := by
    simpa [startsNumber, hdot] using hnumber
  rw [membersAfter_sign hquote hname hdot] at hsign' ⊢
  exact ⟨_, tokens_cons hblank (scanToken_sign (hnumber' _) hsign') htokens, .keep _ hus⟩

theorem exists_of_tokens_word (hc : isIdentifierStart c = true) {ts : List Token}
    (h : tokens (c :: rest) = .ok ts) :
    ∃ others, tokens ((c :: rest).dropWhile isIdentifierPart) = .ok others ∧
      ts = wordToken ((c :: rest).takeWhile isIdentifierPart) :: others := by
  have hblank : (c :: rest).dropWhile Unicode.isWhitespace = c :: rest :=
    dropWhile_of_startsWith (isWhitespace_of_isNameChar (isIdentifierPart_of_isIdentifierStart hc))
  obtain ⟨token, after, others, hscan, hothers, rfl⟩ := exists_of_tokens hblank h
  rw [scanToken_word hc] at hscan
  cases hscan
  exact ⟨others, hothers, rfl⟩

/-- A dot stays, or it becomes the access to the member behind it. -/
theorem respells_dot (hnumber : startsNumber '.' rest = false)
    (hrenames : renamesKeyword rest = false) (hothers : tokens rest = .ok others)
    (ih : Respells rest others)
    (ihmember : startsWith isIdentifierStart rest = true →
      ∀ ts, tokens (rest.dropWhile isIdentifierPart) = .ok ts →
        Respells (rest.dropWhile isIdentifierPart) ts) :
    Respells ('.' :: rest) (.symbol .dot :: others) := by
  intro place _
  rw [membersAfter_dot]
  split
  · next htaken =>
    have hmember := (Bool.and_eq_true_iff.mp htaken).2
    have hstarts := startsWith_of_beginsMember hmember
    cases rest with
    | nil => cases hstarts
    | cons c rest =>
      obtain ⟨ts, hts, rfl⟩ := exists_of_tokens_word hstarts hothers
      obtain ⟨us, htokens, hus⟩ := ihmember hstarts ts hts (.outside true) (free_of_outside _)
      have hcall : opensCall (ofText ((c :: rest).dropWhile isIdentifierPart)) = false := by
        simp only [beginsMember, Bool.and_eq_true, Bool.not_eq_true'] at hmember
        exact hmember.1.2
      have hname : ∀ found ∈ Parser.fieldName? (wordToken ((c :: rest).takeWhile isIdentifierPart)),
          found = frontWord (c :: rest) := by
        simpa [renamesKeyword, hcall, Option.any_eq_false] using hrenames
      exact ⟨_, tokens_itemAccess List.all_takeWhile htokens,
        .member hname ((opensArguments_of_tokens hts).trans hcall) hus⟩
  · obtain ⟨us, htokens, hus⟩ := ih (.outside false) (free_of_outside _)
    have hnumber' : startsNumber '.' (membersAfter (.outside false) rest) = false := by
      rwa [startsNumber, startsWith_head?_membersAfter]
    exact ⟨_, tokens_cons (by decide) (scanToken_sign hnumber' rfl) htokens, .keep _ hus⟩

theorem eq_of_scanSign_dot (h : scanSign (c :: rest) = some (.dot, after)) :
    c = '.' ∧ after = rest := by
  unfold scanSign at h
  split at h <;> cases h
  rename_i heq
  exact ⟨(List.cons.inj heq).1, (List.cons.inj heq).2.symm⟩

theorem misleads_dropWhile (hstarts : startsWith isIdentifierStart text = true)
    (h : misleads text = false) : misleads (text.dropWhile isIdentifierPart) = false := by
  cases text with
  | nil => cases hstarts
  | cons c rest =>
    have hblank : (c :: rest).dropWhile Unicode.isWhitespace = c :: rest := dropWhile_of_startsWith
      (isWhitespace_of_isNameChar (isIdentifierPart_of_isIdentifierStart hstarts))
    rw [misleads_token hblank (scanToken_word hstarts rest), Bool.or_eq_false_iff] at h
    exact h.2

/-- The tokens of a text with its members expanded are those of the text, respelled. -/
theorem respells_text {text : List Char} {ts : List Token} (htokens : tokens text = .ok ts)
    (hmisleads : misleads text = false) : Respells text ts := by
  intro place hplace
  obtain ⟨next, hnext, hinside⟩ := exists_dropWhile_membersAfter place text hplace
  rw [← tokens_dropWhile, hnext]
  cases hblank : text.dropWhile Unicode.isWhitespace with
  | nil =>
    rw [tokens_nil hblank] at htokens
    cases htokens
    exact ⟨[], by rw [membersAfter_nil]; exact tokens_nil rfl, .nil⟩
  | cons c rest =>
    rw [hblank] at hinside
    obtain ⟨token, after, others, hscan, hothers, rfl⟩ := exists_of_tokens hblank htokens
    rw [misleads_token hblank hscan, Bool.or_eq_false_iff, isMisleading] at hmisleads
    obtain ⟨hhere, hlater⟩ := hmisleads
    have hlength := length_lt_of_scanToken hblank hscan
    have ih : Respells after others := respells_text hothers hlater
    cases scans_of_scanToken hscan with
    | number hstart hnumber =>
      rw [if_pos hstart] at hhere
      exact respells_number hstart hnumber hhere ih next hinside
    | string hquote hcontents hne hrest =>
      subst hrest
      exact respells_string hquote hcontents hne ih next hinside
    | word hc => exact respells_word hc ih next hinside
    | @sign symbol _ hnumber hsign =>
      by_cases hsymbol : symbol = .dot
      · subst hsymbol
        obtain ⟨rfl, rfl⟩ := eq_of_scanSign_dot hsign
        have hrenames : renamesKeyword after = false := by
          rw [if_neg (by simp [hnumber])] at hhere
          exact hhere
        refine respells_dot hnumber hrenames hothers ih (fun hstarts ts hts => ?_) next hinside
        have hshorter := length_dropWhile_le isIdentifierPart after
        exact respells_text hts (misleads_dropWhile hstarts hlater)
      · exact respells_sign hnumber hsymbol hsign ih next hinside
termination_by text.length

/-- A text whose only shorthand are members is expanded to a text with the members expanded. -/
theorem tokens_expand (hstars : StarFree text)
    (hdots : dotsAttached none (ofText text) = true)
    (harrows : ¬ [.sign '-', .sign '>'] <:+: ofText text) :
    tokens (expand text) = tokens (membersAfter (.outside false) text) := by
  have hfree : ArrowFree (membersAfter (.outside false) text) := arrowFree_membersAfter _ harrows
  rw [expand, tokens_trim, expandStars_of_starFree hstars,
    expandLeadingDots_of_dotsAttached hdots, textOf_ofText, membersAfter_eq]
  exact congrArg tokens hfree

end Shorthand

namespace Expr

open Shorthand

/-- Expanding a text that is an expression as it stands changes nothing that is parsed from it: not
if it calls no aggregate on `*`, has no arrows, has each of its dots in a number or behind the value
that it belongs to, and none that is misleading. -/
theorem parse_expand {text : String} {e : Expr} (h : parse text = .ok e)
    (hstars : StarFree text.toList) (hdots : dotsAttached none (ofText text.toList) = true)
    (harrows : ¬ [.sign '-', .sign '>'] <:+: ofText text.toList)
    (hmisleads : misleads text.toList = false) :
    parse (String.ofList (expand text.toList)) = .ok e := by
  obtain ⟨ts, htokens, hspelled⟩ := parse_ok_iff.mp h
  obtain ⟨us, hus, hrespelled⟩ :=
    respells_text htokens hmisleads (.outside false) (free_of_outside _)
  refine parse_ok_iff.mpr ⟨us, ?_, hspelled.respelled hrespelled⟩
  rw [tokenize, String.toList_ofList, tokens_expand hstars hdots harrows, hus]

/-- A keyword in lower case may be a member, digits may be separated, and a method is called. -/
theorem parse_expand_of_members :
    parse (String.ofList (expand "a.end[1_0].b() + '->x'.c".toList)) =
      .ok (.binary (.method (.item (.field (.variable "a") "end") (.literal (.ofNat 10))) "b" [])
        .add (.field (.literal (.str "->x")) "c")) := by
  have hstars : StarFree "a.end[1_0].b() + '->x'.c".toList := starFree_of_not_mem (by decide)
  exact parse_expand (by cbv) hstars (by decide) (by decide) (by cbv)

/-- Expanding changes what is parsed from a keyword behind a dot that is not in lower case, from a
number with separators that goes on with a name behind its point, and from a string that reads like
an aggregate that is called on `*`. -/
theorem parse_not_expand :
    (∀ text ∈ ["x.AND", "1_0._5"], StarFree text.toList ∧
      dotsAttached none (ofText text.toList) = true ∧
      (¬ [.sign '-', .sign '>'] <:+: ofText text.toList) ∧
      ∃ e, parse text = .ok e ∧ parse (String.ofList (expand text.toList)) ≠ .ok e) ∧
    parse "'count_agg(*)'" = .ok (.literal (.str "count_agg(*)")) ∧
    parse (String.ofList (expand "'count_agg(*)'".toList)) =
      .ok (.literal (.str "count_agg(1)")) := by
  refine ⟨List.forall_mem_cons.mpr ⟨?_, List.forall_mem_singleton.mpr ?_⟩, by cbv, by cbv⟩
  · have hparse : parse "x.AND" = .ok (.field (.variable "x") "and") := by cbv
    have hexpanded : parse (String.ofList (expand "x.AND".toList)) =
        .ok (.field (.variable "x") "AND") := by cbv
    refine ⟨starFree_of_not_mem (by decide), by decide, by decide, _, hparse, ?_⟩
    rw [hexpanded]
    simp
  · have hscan : scanToken '1' "_0._5".toList = .ok (.float 10.5, []) := rfl
    have htokens : tokens "1_0._5".toList = .ok [.float 10.5] :=
      tokens_cons (by decide) hscan (tokens_nil rfl)
    have hfinite : (10.5 : Float).isFinite = true := by decide
    have hparse :=
      Parser.parse_of_postfixed (.postfixed (.constant _ (.float hfinite)) .noSuffix) htokens
    simp only [Parser.Derivation.value, String.ofList_toList] at hparse
    have hexpanded : parse (String.ofList (expand "1_0._5".toList)) =
        .ok (.field (.literal (.ofNat 10)) "_5") := by cbv
    refine ⟨starFree_of_not_mem (by decide), by decide, by decide, _, hparse, ?_⟩
    rw [hexpanded]
    simp

end Expr

end StreamQuery
