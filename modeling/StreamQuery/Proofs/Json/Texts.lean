import StreamQuery.Json.Printer
import StreamQuery.Json.Reader
import StreamQuery.Proofs.Number.Text
import StreamQuery.Value.Order

/-!
# JSON texts

What JSON texts tell of the strings, the numbers and the values that they were written from.
-/

/-!
## Strings in JSON texts

A string is written so that reading finds its end: the quote and the backslash are escaped, and so is
every control character. What is read is the string that was written.
-/

namespace StreamQuery.Json

theorem hexValue?_hexDigit : ∀ n < 16, hexValue? (hexDigit n) = some n := by
  decide

/-- The escape of a control character is read as the character. -/
theorem unicodeEscape?_control {c : Char} (h : c.toNat < 32) (rest : List Char) :
    unicodeEscape? ('0' :: '0' :: hexDigit (c.toNat / 16) :: hexDigit (c.toNat % 16) :: rest) =
      some (c, rest) := by
  have hzero : hexValue? '0' = some 0 := by decide
  have hhigh := hexValue?_hexDigit (c.toNat / 16) (by omega)
  have hlow := hexValue?_hexDigit (c.toNat % 16) (by omega)
  have hunit : (0 * 16 + 0) * 256 + (c.toNat / 16 * 16 + c.toNat % 16) = c.toNat := by omega
  simp only [unicodeEscape?, fourHexDigits?, hzero, hhigh, hlow, Option.bind_eq_bind,
    Option.bind_some, hunit]
  rw [if_neg (by simp; omega), if_neg (by simp; omega), Char.ofNat_toNat]

/-- A string that begins with a character and goes on with another string. -/
def consString (c : Char) (string : List Char × List Char) : List Char × List Char :=
  (c :: string.1, string.2)

theorem readString?_simpleEscape {letter c : Char} (h : simpleEscape? letter = some c)
    (fuel : Nat) (rest : List Char) :
    readString? (fuel + 1) ('\\' :: letter :: rest) =
      (readString? fuel rest).map (consString c) := by
  have hletter : letter ≠ 'u' := by
    rintro rfl
    cases h
  rw [readString?, h, Option.bind_eq_bind, Option.bind_some]
  · generalize readString? fuel rest = read
    cases read <;> rfl
  · exact fun h => hletter h

theorem readString?_control {c : Char} (h : c.toNat < 32) (fuel : Nat) (rest : List Char) :
    readString? (fuel + 1) ('\\' :: 'u' :: '0' :: '0' :: hexDigit (c.toNat / 16) ::
      hexDigit (c.toNat % 16) :: rest) = (readString? fuel rest).map (consString c) := by
  rw [readString?, unicodeEscape?_control h, Option.bind_eq_bind, Option.bind_some]
  dsimp only
  cases readString? fuel rest <;> rfl

theorem readString?_plain {c : Char} (hquote : c ≠ '"') (hescape : c ≠ '\\') (h : 32 ≤ c.toNat)
    (fuel : Nat) (rest : List Char) :
    readString? (fuel + 1) (c :: rest) = (readString? fuel rest).map (consString c) := by
  have hplain : (decide (c.toNat < 32) || c == '\\') = false := by
    rw [Bool.or_eq_false_iff]
    exact ⟨decide_eq_false (by omega), beq_false_of_ne hescape⟩
  rw [readString?, hplain]
  · cases readString? fuel rest <;> rfl
  · exact fun h => hquote h
  · exact fun _ h => absurd h hescape
  · exact fun _ _ h => absurd h hescape

/-- A character is read as it was written. -/
theorem readString?_stringChar (fuel : Nat) (c : Char) (rest : List Char) :
    readString? (fuel + 1) (stringChar c ++ rest) =
      (readString? fuel rest).map (consString c) := by
  unfold stringChar
  split
  · next h =>
    obtain rfl := beq_iff_eq.mp h
    exact readString?_simpleEscape rfl fuel rest
  split
  · next h =>
    obtain rfl := beq_iff_eq.mp h
    exact readString?_simpleEscape rfl fuel rest
  split
  · next h =>
    obtain rfl := beq_iff_eq.mp h
    exact readString?_simpleEscape rfl fuel rest
  split
  · next h =>
    obtain rfl := beq_iff_eq.mp h
    exact readString?_simpleEscape rfl fuel rest
  split
  · next h =>
    obtain rfl := beq_iff_eq.mp h
    exact readString?_simpleEscape rfl fuel rest
  split
  · next h =>
    have hc : c = Char.ofNat 8 := (Char.ofNat_toNat c).symm.trans (congrArg _ (beq_iff_eq.mp h))
    rw [hc]
    exact readString?_simpleEscape rfl fuel rest
  split
  · next h =>
    have hc : c = Char.ofNat 12 := (Char.ofNat_toNat c).symm.trans (congrArg _ (beq_iff_eq.mp h))
    rw [hc]
    exact readString?_simpleEscape rfl fuel rest
  split
  · next h => exact readString?_control h fuel rest
  · next hquote hescape _ _ _ _ _ hcontrol =>
    exact readString?_plain (by simpa using hquote) (by simpa using hescape) (by omega) fuel rest

/-- A string is read as it was written, whatever follows it. -/
theorem readString?_flatMap (text rest : List Char) {fuel : Nat} (h : text.length < fuel) :
    readString? fuel (text.flatMap stringChar ++ '"' :: rest) = some (text, rest) := by
  induction text generalizing fuel with
  | nil =>
    obtain ⟨fuel, rfl⟩ := Nat.exists_eq_add_of_lt h
    rfl
  | cons c text ih =>
    cases fuel with
    | zero => simp at h
    | succ fuel =>
      rw [List.flatMap_cons, List.append_assoc, readString?_stringChar,
        ih (by simpa using h)]
      rfl

/-!
## JSON texts tell values apart

The compact texts of values are a prefix code: followed by something that is no part of a number, the
text of a value tells the value and where its text ends. Integers and floats have different texts.
-/

/-! ### Strings -/

/-- A string's text tells the string and where its text ends. -/
theorem stringText_cancel {left right rest other : List Char}
    (h : stringText left ++ rest = stringText right ++ other) : left = right ∧ rest = other := by
  rw [stringText, stringText, List.cons_append, List.cons_append, List.cons_append,
    List.cons_append, List.cons.injEq, List.append_assoc, List.append_assoc] at h
  have hread := congrArg (readString? (left.length + right.length + 1)) h.2
  rw [List.singleton_append, List.singleton_append, readString?_flatMap _ _ (by omega),
    readString?_flatMap _ _ (by omega)] at hread
  exact Prod.mk.inj (Option.some.inj hread)

/-! ### Numbers -/

open Number (isNumberChar digitsOf)

theorem isNumberChar_of_mem_intText {n : Int} {c : Char} (h : c ∈ intText n) :
    isNumberChar c = true := by
  unfold intText at h
  split at h
  · obtain rfl | h := List.mem_cons.mp h
    · rfl
    · exact Number.isNumberChar_of_mem_digitsOf h
  · exact Number.isNumberChar_of_mem_digitsOf h

theorem intText_injective : Function.Injective intText := by
  have hsign (n m : Nat) : digitsOf n ≠ '-' :: digitsOf m := by
    intro h
    have hdigit : ('-').isDigit = true :=
      Number.isDigit_of_mem_digitsOf (n := n) (h ▸ List.mem_cons_self)
    cases hdigit
  intro n m h
  unfold intText at h
  split at h <;> split at h
  · have := Number.digitsOf_injective (List.cons.inj h).2
    omega
  · exact absurd h.symm (hsign _ _)
  · exact absurd h (hsign _ _)
  · have := Number.digitsOf_injective h
    omega

/-- An integer is written without point and exponent. -/
theorem isDigit_of_mem_intText {n : Int} {c : Char} (h : c ∈ intText n) :
    c = '-' ∨ c.isDigit = true := by
  unfold intText at h
  split at h
  · exact (List.mem_cons.mp h).imp_right Number.isDigit_of_mem_digitsOf
  · exact .inr (Number.isDigit_of_mem_digitsOf h)

theorem intText_ne_writeFinite (n : Int) (x : Float) :
    intText n ≠ Number.jsonNotation.writeFinite x := by
  intro h
  rcases Number.jsonNotation.exists_mark rfl x with hmark | hmark <;> rw [← h] at hmark <;>
    rcases isDigit_of_mem_intText hmark with heq | hdigit
  · exact absurd heq (by decide)
  · cases hdigit
  · exact absurd heq (by decide)
  · cases hdigit

/-- Whether what follows a text is no part of a number. -/
def Stops (rest : List Char) : Prop :=
  ∀ c, rest.head? = some c → isNumberChar c = false

/-- Two texts of number characters end where the first other character stands. -/
theorem numbers_cancel {left right rest other : List Char}
    (hleft : ∀ c ∈ left, isNumberChar c = true) (hright : ∀ c ∈ right, isNumberChar c = true)
    (hrest : Stops rest) (hother : Stops other) (h : left ++ rest = right ++ other) :
    left = right ∧ rest = other := by
  induction left generalizing right with
  | nil =>
    cases right with
    | nil => exact ⟨rfl, h⟩
    | cons c right =>
      have hc := hrest c (congrArg List.head? h)
      exact absurd (hright c List.mem_cons_self) (by simp [hc])
  | cons c left ih =>
    cases right with
    | nil =>
      have hc := hother c (congrArg List.head? h.symm)
      exact absurd (hleft c List.mem_cons_self) (by simp [hc])
    | cons d right =>
      obtain ⟨rfl, htail⟩ := List.cons.inj h
      obtain ⟨rfl, heq⟩ := ih (fun c hc => hleft c (List.mem_cons_of_mem _ hc))
        (fun c hc => hright c (List.mem_cons_of_mem _ hc)) htail
      exact ⟨rfl, heq⟩

theorem stops_nil : Stops [] := by
  rintro c ⟨⟩

theorem stops_cons {c : Char} (h : isNumberChar c = false) (rest : List Char) :
    Stops (c :: rest) := by
  rintro d ⟨⟩
  exact h

/-! ### Values -/

/-- The rank of the values whose texts begin with a character. -/
def rankOf (c : Char) : Nat :=
  if isNumberChar c then 2
  else if c == 'n' then 0
  else if c == 't' || c == 'f' then 1
  else if c == '"' then 3
  else if c == '[' then 4
  else if c == '\x7b' then 5
  else 6

/-- The text of a number has a first character. -/
theorem head?_number {text : List Char} (hne : text ≠ [])
    (h : ∀ c ∈ text, isNumberChar c = true) : ∃ c, text.head? = some c ∧ rankOf c = 2 := by
  cases text with
  | nil => exact absurd rfl hne
  | cons c rest => exact ⟨c, rfl, if_pos (h c List.mem_cons_self)⟩

theorem intText_ne_nil (n : Int) : intText n ≠ [] := by
  unfold intText
  split
  · exact List.cons_ne_nil _ _
  · exact Number.digitsOf_ne_nil _

theorem writeFinite_ne_nil (x : Float) : Number.jsonNotation.writeFinite x ≠ [] := by
  intro h
  rcases Number.jsonNotation.exists_mark rfl x with hmark | hmark <;> rw [h] at hmark <;>
    cases hmark

/-- The first character of a text tells the rank of its value. -/
theorem rankOf_head? (value : Value) :
    ∃ c, (text value).head? = some c ∧ rankOf c = value.rank := by
  cases value with
  | int n => exact head?_number (intText_ne_nil _) fun _ hc => isNumberChar_of_mem_intText hc
  | float x =>
    exact head?_number (writeFinite_ne_nil _)
      fun _ hc => Number.jsonNotation.isNumberChar_of_mem_writeFinite hc
  | null => exact ⟨'n', rfl, by decide⟩
  | bool b => cases b <;> exact ⟨_, rfl, by decide⟩
  | str s => exact ⟨'"', rfl, (by decide : rankOf '"' = 3)⟩
  | list items => exact ⟨'[', rfl, (by decide : rankOf '[' = 4)⟩
  | object entries => exact ⟨'\x7b', rfl, (by decide : rankOf '\x7b' = 5)⟩

theorem text_ne_cons {c : Char} (h : rankOf c = 6) (value : Value) (rest other : List Char) :
    text value ++ rest ≠ c :: other := by
  intro heq
  obtain ⟨d, hd, hrank⟩ := rankOf_head? value
  have hhead : (text value ++ rest).head? = some d := by rw [List.head?_append, hd]; rfl
  rw [heq] at hhead
  obtain rfl : c = d := Option.some.inj hhead
  cases value <;> simp_all [Value.rank]

theorem rank_eq {left right : Value} {rest other : List Char}
    (h : text left ++ rest = text right ++ other) : left.rank = right.rank := by
  obtain ⟨c, hc, hleft⟩ := rankOf_head? left
  obtain ⟨d, hd, hright⟩ := rankOf_head? right
  have hhead := congrArg List.head? h
  rw [List.head?_append, List.head?_append, hc, hd] at hhead
  obtain rfl : c = d := Option.some.inj hhead
  exact hleft.symm.trans hright

theorem number_cancel {left right : Value} {rest other : List Char} (hleft : left.isNumber = true)
    (hright : right.isNumber = true) (hrest : Stops rest) (hother : Stops other)
    (h : text left ++ rest = text right ++ other) : left = right ∧ rest = other := by
  have hchars {value : Value} (hnumber : value.isNumber = true) :
      ∀ c ∈ text value, isNumberChar c = true := by
    intro c hc
    cases value with
    | int n => exact isNumberChar_of_mem_intText hc
    | float x => exact Number.jsonNotation.isNumberChar_of_mem_writeFinite hc
    | _ => cases hnumber
  obtain ⟨htext, hend⟩ := numbers_cancel (hchars hleft) (hchars hright) hrest hother h
  refine ⟨?_, hend⟩
  cases left with
  | int n =>
    cases right with
    | int m =>
      obtain ⟨n, _, _⟩ := n
      obtain ⟨m, _, _⟩ := m
      obtain rfl : n = m := intText_injective htext
      rfl
    | float y => exact absurd htext (intText_ne_writeFinite _ _)
    | _ => cases hright
  | float x =>
    cases right with
    | int m => exact absurd htext.symm (intText_ne_writeFinite _ _)
    | float y =>
      obtain ⟨x, hx⟩ := x
      obtain ⟨y, hy⟩ := y
      obtain rfl : x = y := Number.jsonNotation.writeFinite_injective hx hy htext
      rfl
    | _ => cases hright
  | _ => cases hleft

theorem stops_itemsTail (items : List Value) (rest : List Char) :
    Stops (itemsTail items ++ ']' :: rest) := by
  cases items <;> exact stops_cons rfl _

theorem stops_entriesTail (entries : List (String × Value)) (rest : List Char) :
    Stops (entriesTail entries ++ '\x7d' :: rest) := by
  cases entries <;> exact stops_cons rfl _

/-- The items after the first one begin with a comma, or there are none. -/
theorem itemsText_of_itemsTail {items others : List Value} {rest other : List Char}
    (h : itemsTail items ++ ']' :: rest = itemsTail others ++ ']' :: other) :
    itemsText items ++ ']' :: rest = itemsText others ++ ']' :: other := by
  cases items <;> cases others
  case nil.nil => exact h
  case cons.cons => exact (List.cons.inj h).2
  all_goals exact absurd (congrArg List.head? h) (by simp [itemsTail])

theorem entriesText_of_entriesTail {entries others : List (String × Value)}
    {rest other : List Char}
    (h : entriesTail entries ++ '\x7d' :: rest = entriesTail others ++ '\x7d' :: other) :
    entriesText entries ++ '\x7d' :: rest = entriesText others ++ '\x7d' :: other := by
  cases entries <;> cases others
  case nil.nil => exact h
  case cons.cons => exact (List.cons.inj h).2
  all_goals exact absurd (congrArg List.head? h) (by simp [entriesTail])

mutual

/-- The text of a value tells the value and where its text ends. -/
theorem text_cancel (left right : Value) {rest other : List Char} (hrest : Stops rest)
    (hother : Stops other) (h : text left ++ rest = text right ++ other) :
    left = right ∧ rest = other := by
  have hrank := rank_eq h
  cases left <;> cases right <;> try (simp [Value.rank] at hrank; done)
  case null.null => exact ⟨rfl, List.append_cancel_left h⟩
  case bool.bool b d =>
    cases b <;> cases d
    case false.false => exact ⟨rfl, List.append_cancel_left h⟩
    case true.true => exact ⟨rfl, List.append_cancel_left h⟩
    all_goals exact absurd (congrArg List.head? h) (by simp [text])
  case str.str s t =>
    obtain ⟨htext, hend⟩ := stringText_cancel h
    exact ⟨congrArg Value.str (String.toList_injective htext), hend⟩
  case list.list items others =>
    simp only [text, List.cons_append, List.append_assoc, List.cons.injEq, true_and,
      List.nil_append] at h
    obtain ⟨rfl, hend⟩ := itemsText_cancel items others h
    exact ⟨rfl, hend⟩
  case object.object entries others =>
    simp only [text, List.cons_append, List.append_assoc, List.cons.injEq, true_and,
      List.nil_append] at h
    obtain ⟨rfl, hend⟩ := entriesText_cancel entries others h
    exact ⟨rfl, hend⟩
  all_goals exact number_cancel rfl rfl hrest hother h

theorem itemsText_cancel (items others : List Value) {rest other : List Char}
    (h : itemsText items ++ ']' :: rest = itemsText others ++ ']' :: other) :
    items = others ∧ rest = other := by
  cases items with
  | nil =>
    cases others with
    | nil => exact ⟨rfl, (List.cons.inj h).2⟩
    | cons second others =>
      rw [itemsText, itemsText, List.append_assoc] at h
      exact absurd h.symm (text_ne_cons (by decide) _ _ _)
  | cons first items =>
    cases others with
    | nil =>
      rw [itemsText, itemsText, List.append_assoc] at h
      exact absurd h (text_ne_cons (by decide) _ _ _)
    | cons second others =>
      rw [itemsText, itemsText, List.append_assoc, List.append_assoc] at h
      obtain ⟨rfl, htail⟩ := text_cancel first second (stops_itemsTail _ _) (stops_itemsTail _ _) h
      obtain ⟨rfl, hend⟩ := itemsText_cancel items others (itemsText_of_itemsTail htail)
      exact ⟨rfl, hend⟩

theorem entriesText_cancel (entries others : List (String × Value)) {rest other : List Char}
    (h : entriesText entries ++ '\x7d' :: rest = entriesText others ++ '\x7d' :: other) :
    entries = others ∧ rest = other := by
  cases entries with
  | nil =>
    cases others with
    | nil => exact ⟨rfl, (List.cons.inj h).2⟩
    | cons second others => exact absurd (congrArg List.head? h) (by simp [entriesText, stringText])
  | cons first entries =>
    obtain ⟨key, first⟩ := first
    cases others with
    | nil => exact absurd (congrArg List.head? h) (by simp [entriesText, stringText])
    | cons second others =>
      obtain ⟨otherKey, second⟩ := second
      simp only [entriesText, List.append_assoc, List.cons_append] at h
      obtain ⟨hkey, hvalue⟩ := stringText_cancel h
      obtain ⟨rfl, htail⟩ := text_cancel first second (stops_entriesTail _ _)
        (stops_entriesTail _ _) (List.cons.inj hvalue).2
      obtain ⟨rfl, hend⟩ := entriesText_cancel entries others (entriesText_of_entriesTail htail)
      obtain rfl := String.toList_injective hkey
      exact ⟨rfl, hend⟩

end

theorem text_injective : Function.Injective text := by
  intro left right h
  have hends : text left ++ [] = text right ++ [] := by rw [h]
  exact (text_cancel left right stops_nil stops_nil hends).1

end StreamQuery.Json

namespace StreamQuery

/-- Tuples of values that share a key are the same. -/
theorem eq_of_tupleKey {values others : List Value} (h : tupleKey values = tupleKey others) :
    values = others :=
  Value.list.inj (Json.text_injective (String.ofList_injective h))

end StreamQuery
