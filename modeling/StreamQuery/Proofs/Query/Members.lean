import StreamQuery.Proofs.Expr.Relexing
import StreamQuery.Proofs.Query.Longhand

/-!
# Members behind dots

What expanding members makes of a text, from its front: names behind dots become item access, and
words, strings and all other signs stay. Of what stands before a text it matters whether it is a
value, and whether the text goes on with a word.
-/

namespace StreamQuery.Shorthand

open Fragment Lexer ColumnBindings

/-- What stands before a text: something that ends there, be it a value or not, or the front of a
word, be it all digits or not. -/
inductive Place where
  | outside (value : Bool)
  | inside (digits : Bool)

namespace Place

/-- Whether a dot at a place belongs to a value. -/
def isValue : Place → Bool
  | .outside value => value
  | .inside digits => !digits

/-- Whether there is nothing but digits in the word at a place. -/
def isDigits : Place → Bool
  | .outside _ => true
  | .inside digits => digits

/-- Whether a place is inside of a word. -/
def isInside : Place → Bool
  | .outside _ => false
  | .inside _ => true

end Place

/-- A fragment that is a value, or none. -/
def valueIf (value : Bool) : Option Fragment :=
  if value then some (.sign ')') else none

/-- A text with its members expanded that stands at a place. -/
def membersAfter : Place → List Char → List Char
  | .outside value, text => expandMembers (valueIf value) (ofText text)
  | .inside digits, text =>
    text.takeWhile isNameChar ++
      expandMembers (valueIf !(digits && (text.takeWhile isNameChar).all Char.isDigit))
        (ofText (text.dropWhile isNameChar))

/-- Whether a name that is no method and no placeholder stands at the front of a text. -/
def beginsMember (text : List Char) : Bool :=
  startsWith isIdentifierStart text && !opensCall (ofText (text.dropWhile isNameChar)) &&
    !Placeholder.isWhole (text.takeWhile isNameChar)

variable {place : Place} {value : Bool} {text rest : List Char}

theorem expandMembers_eq {previous : Option Fragment} (h : endsValue previous = value)
    (fragments : List Fragment) :
    expandMembers previous fragments = expandMembers (valueIf value) fragments := by
  have hvalue : endsValue (valueIf value) = value := by cases value <;> decide
  rw [expandMembers.eq_def, expandMembers.eq_def (valueIf value), h, hvalue]

theorem membersAfter_eq (text : List Char) :
    expandMembers none (ofText text) = membersAfter (.outside false) text := rfl

@[simp] theorem membersAfter_nil : membersAfter place [] = [] := by
  cases place <;> simp [membersAfter, ofText, readFrom, Reading.finish, expandMembers]

/-! ### Words -/

/-- A word at the front of a text may have begun before it. -/
theorem membersAfter_of_name (h : startsWith isNameChar text = true) :
    membersAfter (.outside value) text = membersAfter (.inside true) text := by
  rw [membersAfter, ofText_frontWord h, expandMembers_word, expandMembers_eq rfl, membersAfter,
    endsValue, Bool.true_and]

theorem exists_membersAfter_name (h : startsWith isNameChar text = true) (place : Place) :
    ∃ value, membersAfter place text =
      text.takeWhile isNameChar ++ membersAfter (.outside value) (text.dropWhile isNameChar) := by
  cases place with
  | outside => exact ⟨_, membersAfter_of_name h⟩
  | inside => exact ⟨_, rfl⟩

theorem membersAfter_cons {c : Char} (h : isNameChar c = true) (place : Place) (rest : List Char) :
    membersAfter place (c :: rest) =
      c :: membersAfter (.inside (place.isDigits && c.isDigit)) rest := by
  have hinside (digits : Bool) : membersAfter (.inside digits) (c :: rest) =
      c :: membersAfter (.inside (digits && c.isDigit)) rest := by
    simp [membersAfter, h, Bool.and_assoc]
  cases place with
  | inside digits => exact hinside digits
  | outside value =>
    have hstart : startsWith isNameChar (c :: rest) = true := h
    rw [membersAfter_of_name hstart, hinside, Place.isDigits]

/-- A word ends in front of any other character. -/
theorem membersAfter_of_not_name (h : startsWith isNameChar text = false) (place : Place) :
    membersAfter place text = membersAfter (.outside place.isValue) text := by
  cases place with
  | outside => rfl
  | inside digits =>
    simp [membersAfter, takeWhile_of_startsWith h, dropWhile_of_startsWith h, Place.isValue]

theorem membersAfter_word (h : startsWith isIdentifierStart text = true) (place : Place) :
    membersAfter place text =
      text.takeWhile isNameChar ++ membersAfter (.outside true) (text.dropWhile isNameChar) := by
  cases text with
  | nil => cases h
  | cons c rest =>
    have hc : isNameChar c = true := isIdentifierPart_of_isIdentifierStart h
    have hdigit : c.isDigit = false := by
      refine Bool.eq_false_iff.mpr fun hdigit => ?_
      cases h.symm.trans (isIdentifierStart_of_isDigit hdigit)
    rw [membersAfter_cons hc, hdigit, Bool.and_false, List.takeWhile_cons, if_pos hc,
      List.dropWhile_cons, if_pos hc, membersAfter]
    rfl

/-! ### Signs and strings -/

theorem membersAfter_sign {c : Char} (hquote : Literal.isQuote c = false)
    (hname : isNameChar c = false) (hdot : c ≠ '.') (place : Place) (rest : List Char) :
    membersAfter place (c :: rest) =
      c :: membersAfter (.outside (c == ')' || c == ']' || c == '\x7d')) rest := by
  have hstart : startsWith isNameChar (c :: rest) = false := hname
  have hkept (previous : Option Fragment) (fragments : List Fragment) :
      expandMembers previous (.sign c :: fragments) =
        c :: expandMembers (some (.sign c)) fragments := by
    simp [expandMembers, hdot, Fragment.text]
  rw [membersAfter_of_not_name hstart, membersAfter, ofText, readFrom_sign hquote hname, hkept,
    expandMembers_eq rfl, membersAfter, endsValue, ofText]

/-- A word that a member may stand behind. -/
theorem endsValue_word {word : List Char} (h : startsWith isIdentifierStart word = true) :
    endsValue (some (.word word)) = true := by
  cases word with
  | nil => cases h
  | cons c word =>
    have hdigit : c.isDigit = false := by
      refine Bool.eq_false_iff.mpr fun hdigit => ?_
      cases h.symm.trans (isIdentifierStart_of_isDigit hdigit)
    simp [endsValue, hdigit]

theorem startsName_takeWhile (text : List Char) :
    startsName (text.takeWhile isNameChar) = startsWith isIdentifierStart text := by
  cases text with
  | nil => rfl
  | cons c rest =>
    cases hname : isNameChar c with
    | true =>
      rw [List.takeWhile_cons, if_pos hname]
      rfl
    | false =>
      have hstart : isIdentifierStart c = false := by
        refine Bool.eq_false_iff.mpr fun hstart => ?_
        cases (isIdentifierPart_of_isIdentifierStart hstart).symm.trans hname
      rw [List.takeWhile_cons, hname, if_neg Bool.false_ne_true]
      exact hstart.symm

theorem startsWith_start_of_not_name (h : startsWith isNameChar text = false) :
    startsWith isIdentifierStart text = false := by
  rw [← startsName_takeWhile, takeWhile_of_startsWith h]
  rfl

theorem ofText_ne_word (h : startsWith isNameChar text = false) (word : List Char)
    (others : List Fragment) : ofText text ≠ .word word :: others := by
  intro htext
  cases text with
  | nil => cases htext
  | cons c rest =>
    cases hquote : Literal.isQuote c with
    | true =>
      obtain ⟨run, fragments, hfragments⟩ := exists_ofText_quote hquote rest
      cases hfragments.symm.trans htext
    | false => cases (ofText_sign hquote h rest).symm.trans htext

theorem startsWith_of_beginsMember (h : beginsMember text = true) :
    startsWith isIdentifierStart text = true := by
  simp only [beginsMember, Bool.and_eq_true] at h
  exact h.1.1

/-- A dot behind a value takes a member, and stays where there is none. -/
theorem membersAfter_dot (place : Place) (rest : List Char) :
    membersAfter place ('.' :: rest) =
      if place.isValue && beginsMember rest then
        itemAccess (rest.takeWhile isNameChar) ++
          membersAfter (.outside true) (rest.dropWhile isNameChar)
      else '.' :: membersAfter (.outside false) rest := by
  have hvalue : endsValue (valueIf place.isValue) = place.isValue := by
    cases place.isValue <;> decide
  have hstart : startsWith isNameChar ('.' :: rest) = false :=
    show isNameChar '.' = false by decide
  rw [membersAfter_of_not_name hstart, membersAfter, ofText_sign (by decide) (by decide)]
  cases hname : startsWith isNameChar rest with
  | false =>
    have hmember : beginsMember rest = false := by
      rw [beginsMember, startsWith_start_of_not_name hname]
      rfl
    rw [hmember, Bool.and_false, if_neg Bool.false_ne_true, expandMembers]
    · exact congrArg ('.' :: ·) (expandMembers_eq rfl _)
    · exact fun word others _ => ofText_ne_word hname word others
  | true =>
    rw [ofText_frontWord hname, expandMembers, hvalue, startsName_takeWhile, Bool.and_assoc,
      Bool.and_assoc, ← Bool.and_assoc (startsWith _ _), ← beginsMember]
    split
    · next htaken =>
      have hword : startsWith isIdentifierStart (rest.takeWhile isNameChar) = true := by
        have hname := startsWith_of_beginsMember (Bool.and_eq_true_iff.mp htaken).2
        rw [← startsName_takeWhile] at hname
        cases hcase : rest.takeWhile isNameChar with
        | nil =>
          rw [hcase] at hname
          cases hname
        | cons => rwa [hcase] at hname
      exact congrArg (_ ++ ·) (expandMembers_eq (endsValue_word hword) _)
    · rw [membersAfter, ofText_frontWord hname, expandMembers_word]
      rfl

theorem expandMembers_run (previous : Option Fragment) (run : List Char) (rest : List Fragment) :
    expandMembers previous (.quoted run :: rest) =
      run ++ expandMembers (some (.quoted run)) rest := by
  simp [expandMembers, text]

theorem expandMembers_quoted {quote : Char} {contents : List Char}
    (hquote : Literal.isQuote quote = true) (h : Literal.Contents quote contents)
    (previous : Option Fragment) (latest after : List Char) :
    expandMembers previous (readFrom (.quoted quote false latest) (contents ++ quote :: after)) =
      latest.reverse ++ (contents ++ quote :: membersAfter (.outside false) after) := by
  have hbackslash := Literal.ne_backslash_of_isQuote hquote
  induction h generalizing previous latest with
  | nil =>
    have hnext : expandMembers (some (.quoted (quote :: latest).reverse)) (ofText after) =
        membersAfter (.outside false) after := expandMembers_eq rfl _
    simp [readFrom, Reading.step, hbackslash, expandMembers_run, ← hnext, ofText]
  | escaped c _ ih => simp [readFrom, Reading.step, ih]
  | doubled _ ih => simp [readFrom, Reading.step, hbackslash, begin, hquote, expandMembers_run, ih]
  | plain hc hescape _ ih => simp [readFrom, Reading.step, hc, hescape, ih]

/-- A string stays. -/
theorem membersAfter_quoted {quote : Char} {contents : List Char}
    (hquote : Literal.isQuote quote = true) (h : Literal.Contents quote contents) (place : Place)
    (after : List Char) :
    membersAfter place (quote :: (contents ++ quote :: after)) =
      quote :: (contents ++ quote :: membersAfter (.outside false) after) := by
  have hstart : startsWith isNameChar (quote :: (contents ++ quote :: after)) = false :=
    isIdentifierPart_quote hquote
  rw [membersAfter_of_not_name hstart, membersAfter, ofText, readFrom]
  simp [Reading.step, begin, hquote, expandMembers_quoted hquote h]

/-! ### The first character -/

/-- A text keeps its first character, but for a dot that gives way to a bracket. -/
theorem head?_membersAfter_cases (place : Place) (text : List Char) :
    (membersAfter place text).head? = text.head? ∨
      text.head? = some '.' ∧ place.isValue = true ∧
        (membersAfter place text).head? = some '[' := by
  cases text with
  | nil => exact .inl (by rw [membersAfter_nil])
  | cons c rest =>
    cases hname : isNameChar c with
    | true => exact .inl (by rw [membersAfter_cons hname]; rfl)
    | false =>
      cases hquote : Literal.isQuote c with
      | true =>
        obtain ⟨run, others, hfragments⟩ := exists_ofText_quote hquote rest
        have hstart : startsWith isNameChar (c :: rest) = false := hname
        rw [membersAfter_of_not_name hstart, membersAfter, hfragments, expandMembers_run]
        exact .inl rfl
      | false =>
        by_cases hdot : c = '.'
        · subst hdot
          rw [membersAfter_dot]
          split
          · next htaken => exact .inr ⟨rfl, (Bool.and_eq_true_iff.mp htaken).1, rfl⟩
          · exact .inl rfl
        · exact .inl (by rw [membersAfter_sign hquote hname hdot]; rfl)

/-- Where there is no value every dot stays. -/
theorem head?_membersAfter (text : List Char) :
    (membersAfter (.outside false) text).head? = text.head? := by
  rcases head?_membersAfter_cases (.outside false) text with h | ⟨-, hvalue, -⟩
  · exact h
  · cases hvalue

/-- A name stays at the front, and none gets there. -/
theorem startsWith_membersAfter (place : Place) (text : List Char) :
    startsWith isNameChar (membersAfter place text) = startsWith isNameChar text := by
  rcases head?_membersAfter_cases place text with h | ⟨htext, -, h⟩
  · exact startsWith_eq_of_head? h
  · obtain ⟨rest, rfl⟩ := List.head?_eq_some_iff.mp htext
    obtain ⟨others, hothers⟩ := List.head?_eq_some_iff.mp h
    rw [hothers]
    exact (show isNameChar '[' = false by decide).trans (show false = isNameChar '.' by decide)

/-- A character other than a bracket that is not at the front does not get there. -/
theorem membersAfter_ne_cons {d : Char} (hd : d ≠ '[') (h : ∀ rest, text = d :: rest → False) :
    ∀ rest, membersAfter place text = d :: rest → False := by
  intro rest hmembers
  rcases head?_membersAfter_cases place text with hhead | ⟨-, -, hhead⟩
  · rw [hmembers] at hhead
    obtain ⟨others, hothers⟩ := List.head?_eq_some_iff.mp hhead.symm
    exact h others hothers
  · rw [hmembers] at hhead
    exact hd (Option.some.inj hhead)

/-! ### Arrows -/

/-- There are no arrows to expand. -/
def ArrowFree (text : List Char) : Prop :=
  expandArrows (ofText text) = text

theorem expandArrows_sign {c : Char} {fragments : List Fragment}
    (h : c = '-' → fragments.head? ≠ some (.sign '>')) :
    expandArrows (.sign c :: fragments) = c :: expandArrows fragments := by
  rw [expandArrows]
  · rfl
  · rintro key rest hc rfl
    exact h (Fragment.sign.inj hc) rfl

theorem expandArrows_run (run : List Char) (rest : List Fragment) :
    expandArrows (.quoted run :: rest) = run ++ expandArrows rest := by
  simp [expandArrows, text]

theorem exists_cons_of_sign {d : Char} (h : (ofText text).head? = some (.sign d)) :
    ∃ rest, text = d :: rest := by
  obtain ⟨others, hothers⟩ := List.head?_eq_some_iff.mp h
  exact ⟨textOf others, by rw [← textOf_ofText text, hothers]; rfl⟩

namespace ArrowFree

theorem word {word : List Char} (hne : word ≠ []) (hword : ∀ c ∈ word, isNameChar c = true)
    (hrest : startsWith isNameChar rest = false) (h : ArrowFree rest) :
    ArrowFree (word ++ rest) := by
  rw [ArrowFree, ofText_word hne hword hrest, expandArrows_word, h]

theorem sign {c : Char} (hquote : Literal.isQuote c = false) (hname : isNameChar c = false)
    (hnext : c = '-' → ∀ others, rest ≠ '>' :: others) (h : ArrowFree rest) :
    ArrowFree (c :: rest) := by
  have hhead : c = '-' → (ofText rest).head? ≠ some (.sign '>') := by
    intro hc hsign
    obtain ⟨others, hothers⟩ := exists_cons_of_sign hsign
    exact hnext hc others hothers
  rw [ArrowFree, ofText_sign hquote hname, expandArrows_sign hhead, h]

theorem sign_of_ne {c : Char} (hquote : Literal.isQuote c = false) (hname : isNameChar c = false)
    (hc : c ≠ '-') (h : ArrowFree rest) : ArrowFree (c :: rest) :=
  h.sign hquote hname fun hdash => absurd hdash hc

theorem itemAccess {name : List Char} (hname : name.all isNameChar = true) (h : ArrowFree rest) :
    ArrowFree (itemAccess name ++ rest) := by
  have hquoted : ofText ('\'' :: (name ++ '\'' :: ']' :: rest)) =
      .quoted ('\'' :: name ++ ['\'']) :: ofText (']' :: rest) := by
    rw [ofText, readFrom]
    simp [Reading.step, begin, Literal.isQuote, readFrom_quoted hname, ofText]
  have hclose : ArrowFree (']' :: rest) := h.sign_of_ne (by decide) (by decide) (by decide)
  have hname : ArrowFree ('\'' :: (name ++ '\'' :: ']' :: rest)) := by
    rw [ArrowFree, hquoted, expandArrows_run, hclose]
    simp
  have hopen : ArrowFree ('[' :: '\'' :: (name ++ '\'' :: ']' :: rest)) :=
    hname.sign_of_ne (by decide) (by decide) (by decide)
  simpa [Shorthand.itemAccess] using hopen

end ArrowFree

/-- A text behind a quote is a string with a text behind it, or all of it stays. -/
theorem membersAfter_quote {quote : Char} (hquote : Literal.isQuote quote = true) (place : Place)
    (rest : List Char) :
    (∃ run after, rest = run ++ quote :: after ∧
      ofText (quote :: rest) = .quoted (quote :: (run ++ [quote])) :: ofText after ∧
      (ArrowFree (membersAfter (.outside false) after) →
        ArrowFree (membersAfter place (quote :: rest)))) ∨
      ArrowFree (membersAfter place (quote :: rest)) := by
  have hstart : startsWith isNameChar (quote :: rest) = false := isIdentifierPart_quote hquote
  rw [membersAfter_of_not_name hstart]
  rcases ofText_quote hquote rest with ⟨run, after, rfl, hread⟩ | hread
  · refine .inl ⟨run, after, rfl, hread after, fun hafter => ?_⟩
    have hmembers : membersAfter (.outside place.isValue) (quote :: (run ++ quote :: after)) =
        quote :: (run ++ quote :: membersAfter (.outside false) after) := by
      rw [membersAfter, hread, expandMembers_run, expandMembers_eq rfl]
      simp [membersAfter, endsValue]
    rw [hmembers, ArrowFree, hread, expandArrows_run, hafter]
    simp
  · right
    have hmembers : membersAfter (.outside place.isValue) (quote :: rest) = quote :: rest := by
      rw [membersAfter, hread]
      simp [expandMembers, Fragment.text]
    rw [hmembers, ArrowFree, hread, expandArrows_run]
    simp [expandArrows]

/-- Expanding members makes no arrow where there is none. -/
theorem arrowFree_membersAfter (place : Place) {text : List Char}
    (h : ¬ [.sign '-', .sign '>'] <:+: ofText text) : ArrowFree (membersAfter place text) := by
  cases htext : text with
  | nil =>
    rw [membersAfter_nil]
    rfl
  | cons c rest =>
    -- What stands behind the first fragments of the text is shorter, and has no arrow.
    have hlater {place : Place} {front : List Fragment} {after : List Char}
        (hlength : after.length < text.length) (hfront : ofText text = front ++ ofText after) :
        ArrowFree (membersAfter place after) :=
      arrowFree_membersAfter place fun hwithin =>
        h (hwithin.trans (hfront ▸ List.suffix_append front _).isInfix)
    subst htext
    cases hname : isNameChar c with
    | true =>
      have hstart : startsWith isNameChar (c :: rest) = true := hname
      obtain ⟨value, hmembers⟩ := exists_membersAfter_name hstart place
      have hrest : startsWith isNameChar
          (membersAfter (.outside value) ((c :: rest).dropWhile isNameChar)) = false :=
        (startsWith_membersAfter _ _).trans (startsWith_dropWhile isNameChar (c :: rest))
      rw [hmembers]
      exact .word (takeWhile_ne_nil hstart) (List.all_eq_true.mp List.all_takeWhile) hrest
        (@hlater _ [.word _] _ (length_dropWhile_lt hstart) (ofText_frontWord hstart))
    | false =>
      have hshorter : rest.length < (c :: rest).length := Nat.lt_succ_self _
      cases hquote : Literal.isQuote c with
      | true =>
        rcases membersAfter_quote hquote place rest with ⟨run, after, hrest, hread, hstring⟩ | hall
        · exact hstring (@hlater _ [.quoted _] _ (by rw [hrest]; simp; omega) hread)
        · exact hall
      | false =>
        have hsign := ofText_sign hquote hname rest
        by_cases hdot : c = '.'
        · subst hdot
          rw [membersAfter_dot]
          split
          · next htaken =>
            have hstart : startsWith isNameChar rest = true := by
              refine Bool.of_not_eq_false fun hword => ?_
              have hmember := startsWith_of_beginsMember (Bool.and_eq_true_iff.mp htaken).2
              rw [startsWith_start_of_not_name hword] at hmember
              cases hmember
            have hword : (rest.dropWhile isNameChar).length < ('.' :: rest).length :=
              Nat.lt_succ_of_le (length_dropWhile_le isNameChar rest)
            have hfront : ofText ('.' :: rest) =
                [.sign '.', .word (rest.takeWhile isNameChar)] ++
                  ofText (rest.dropWhile isNameChar) := by
              rw [hsign, ofText_frontWord hstart]
              rfl
            exact .itemAccess List.all_takeWhile (hlater hword hfront)
          · exact .sign_of_ne hquote hname (by decide) (@hlater _ [.sign '.'] _ hshorter hsign)
        · rw [membersAfter_sign hquote hname hdot]
          refine .sign hquote hname ?_ (@hlater _ [.sign c] _ hshorter hsign)
          rintro rfl others
          refine membersAfter_ne_cons (by decide) (fun after hafter => h ?_) others
          rw [hsign, hafter, ofText_sign (by decide) (by decide)]
          exact ⟨[], _, rfl⟩
termination_by text.length

end StreamQuery.Shorthand
