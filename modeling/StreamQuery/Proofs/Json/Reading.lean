import StreamQuery.Proofs.Json.Texts
import StreamQuery.Proofs.Value.Entries

/-!
# Reading JSON texts back

The compact text of a value without floats is read as that value, if objects have pairwise different
keys and the value nests no deeper than the reader goes.
-/

namespace StreamQuery.Json

/-! ### Integers -/

/-- Whether what follows a text ends a number: nothing, a comma or a closing bracket. -/
def Ends (rest : List Char) : Prop :=
  ∀ c, rest.head? = some c → c = ',' ∨ c = ']' ∨ c = '\x7d'

theorem ends_nil : Ends [] := by
  rintro c ⟨⟩

theorem ends_cons {c : Char} (h : c = ',' ∨ c = ']' ∨ c = '\x7d') (rest : List Char) :
    Ends (c :: rest) := by
  rintro d ⟨⟩
  exact h

theorem Ends.isDigit {rest : List Char} (h : Ends rest) :
    ∀ c, rest.head? = some c → c.isDigit = false := by
  intro c hc
  rcases h c hc with rfl | rfl | rfl <;> rfl

/-- Only the text of zero begins with a zero. -/
theorem eq_zero_of_digitsOf {n : Nat} {rest : List Char} (h : Number.digitsOf n = '0' :: rest) :
    n = 0 := by
  induction n using Nat.strongRecOn generalizing rest with
  | ind n ih =>
    rcases Nat.lt_or_ge n 10 with hlt | hge
    · rw [Number.digitsOf, Nat.toDigits_of_lt_base hlt] at h
      have hdigit : ∀ m < 10, m.digitChar = '0' → m = 0 := by decide
      exact hdigit n hlt (List.cons.inj h).1
    · have hhead := congrArg List.head? h
      rw [Number.digitsOf, Nat.toDigits_of_base_le (by decide) hge, List.head?_append] at hhead
      cases hcase : Nat.toDigits 10 (n / 10) with
      | nil => exact absurd hcase Nat.toDigits_ne_nil
      | cons c tail =>
        rw [hcase] at hhead
        obtain rfl : c = '0' := Option.some.inj hhead
        have := ih (n / 10) (by omega) hcase
        omega

theorem le_ofDigitChars (digits : List Char) (value : Nat) :
    value ≤ Nat.ofDigitChars 10 digits value := by
  rw [Nat.ofDigitChars_eq_ofDigitChars_zero]
  exact Nat.le_add_right_of_le (Nat.le_mul_of_pos_left _ (Nat.pow_pos (by decide)))

/-- Digits of a number of 64 bits are all read. -/
theorem significand_digits {digits rest : List Char} (hdigits : ∀ c ∈ digits, c.isDigit = true)
    (hrest : ∀ c, rest.head? = some c → c.isDigit = false) {value : Nat}
    (h : Nat.ofDigitChars 10 digits value < 0x10000000000000000) :
    significand value (digits ++ rest) = (Nat.ofDigitChars 10 digits value, 0, rest) := by
  induction digits generalizing value with
  | nil =>
    cases rest with
    | nil => rfl
    | cons c rest => simp [significand, hrest c rfl]
  | cons c digits ih =>
    rw [Nat.ofDigitChars_cons] at h
    have hnext := (le_ofDigitChars digits _).trans_lt h
    rw [List.cons_append, significand, if_pos (hdigits c List.mem_cons_self)]
    dsimp only
    rw [if_pos hnext]
    exact ih (fun c hc => hdigits c (List.mem_cons_of_mem _ hc)) h

/-- What the digits of a number of 64 bits are read as. -/
def unsignedValue (negative : Bool) (n : Nat) : Value :=
  if !negative then .ofNat n
  else if n == 0 || n > 0x8000000000000000 then .ofFloat (-(Number.floatOfInt n))
  else .ofInt (-(n : Int))

theorem afterDigits_digitsOf (negative : Bool) {n : Nat} (hn : n < 0x10000000000000000)
    {rest : List Char} (hrest : Ends rest) :
    readUnsigned?.afterDigits negative (Number.digitsOf n ++ rest) =
      some (unsignedValue negative n, rest) := by
  have hvalue : Nat.ofDigitChars 10 (Number.digitsOf n) 0 = n := Nat.ofDigitChars_ten_toDigits
  have hread := significand_digits (fun _ hc => Number.isDigit_of_mem_digitsOf hc)
    hrest.isDigit (hvalue.symm ▸ hn)
  rw [hvalue] at hread
  unfold readUnsigned?.afterDigits
  rw [hread]
  dsimp only
  split
  · next h => rcases hrest '.' rfl with h | h | h <;> cases h
  · next h => rcases hrest 'e' rfl with h | h | h <;> cases h
  · next h => rcases hrest 'E' rfl with h | h | h <;> cases h
  · rw [if_neg (Nat.lt_irrefl 0), unsignedValue]
    split
    · rfl
    · split <;> rfl

theorem readUnsigned?_digitsOf (negative : Bool) {n : Nat} (hn : n < 0x10000000000000000)
    {rest : List Char} (hrest : Ends rest) :
    readUnsigned? negative (Number.digitsOf n ++ rest) = some (unsignedValue negative n, rest) := by
  have hafter := afterDigits_digitsOf negative hn hrest
  cases hdigits : Number.digitsOf n with
  | nil => exact absurd hdigits (Number.digitsOf_ne_nil n)
  | cons digit digits =>
    have hdigit : digit.isDigit = true :=
      Number.isDigit_of_mem_digitsOf (n := n) (hdigits ▸ List.mem_cons_self)
    rw [hdigits] at hafter
    unfold readUnsigned?
    split
    · next c _ heq =>
      obtain ⟨rfl, htail⟩ := List.cons.inj heq
      obtain rfl := eq_zero_of_digitsOf hdigits
      obtain ⟨-, rfl⟩ : '0' = '0' ∧ [] = digits := List.cons.inj hdigits
      rw [if_neg (by simp [hrest.isDigit c (congrArg List.head? htail)])]
      exact hafter
    · next heq =>
      obtain ⟨rfl, -⟩ := List.cons.inj heq
      rw [if_pos hdigit]
      exact hafter
    · next heq => cases heq

theorem ofInt_val (n : BoundedInt) : Value.ofInt n.val = .int n :=
  dif_pos ⟨n.lower, n.upper⟩

/-- An integer is read as it was written. -/
theorem readNumber?_intText (n : BoundedInt) {rest : List Char} (hrest : Ends rest) :
    readNumber? (intText n.val ++ rest) = some (.int n, rest) := by
  have hlower := n.lower
  have hupper := n.upper
  unfold intText
  by_cases hneg : n.val < 0
  · rw [if_pos hneg]
    have hread := readUnsigned?_digitsOf true (n := n.val.natAbs) (by omega) hrest
    have hvalue : unsignedValue true n.val.natAbs = .int n := by
      rw [← ofInt_val, unsignedValue, Bool.not_true, if_neg Bool.false_ne_true, if_neg (by simp; omega)]
      congr 1
      omega
    rw [hvalue] at hread
    exact hread
  · rw [if_neg hneg]
    have hread := readUnsigned?_digitsOf false (n := n.val.natAbs) (by omega) hrest
    have hvalue : unsignedValue false n.val.natAbs = .int n := by
      rw [← ofInt_val, unsignedValue, Bool.not_false, if_pos rfl, Value.ofNat]
      congr 1
      omega
    rw [hvalue] at hread
    unfold readNumber?
    split
    · next heq =>
      cases hdigits : Number.digitsOf n.val.natAbs with
      | nil => exact absurd hdigits (Number.digitsOf_ne_nil _)
      | cons digit digits =>
        rw [hdigits, List.cons_append] at heq
        have hdigit : digit.isDigit = true :=
          Number.isDigit_of_mem_digitsOf (n := n.val.natAbs) (hdigits ▸ List.mem_cons_self)
        obtain rfl := (List.cons.inj heq).1
        cases hdigit
    · exact hread

/-! ### Values -/

theorem skipBlanks_cons {c : Char} (h : isBlank c = false) (rest : List Char) :
    skipBlanks (c :: rest) = c :: rest :=
  List.dropWhile_cons_of_neg (by simp [h])

theorem isBlank_of_isNumberChar {c : Char} (h : Number.isNumberChar c = true) :
    isBlank c = false := by
  rw [isBlank]
  simp only [Bool.or_eq_false_iff, beq_eq_false_iff_ne]
  refine ⟨⟨⟨?_, ?_⟩, ?_⟩, ?_⟩ <;> (rintro rfl; cases h)

theorem readValue?_number {c : Char} (h : Number.isNumberChar c = true) (depth fuel : Nat)
    (rest : List Char) : readValue? depth (fuel + 1) (c :: rest) = readNumber? (c :: rest) := by
  rw [readValue?, skipBlanks_cons (isBlank_of_isNumberChar h)]
  split <;> first
    | rfl
    | next heq =>
      obtain ⟨rfl, -⟩ := List.cons.inj heq
      cases h

/-- A value without floats that nests at most so many levels deep, in which no object has a key
twice. -/
inductive Storable : Nat → Value → Prop where
  | null {depth : Nat} : Storable depth .null
  | bool {depth : Nat} (b : Bool) : Storable depth (.bool b)
  | int {depth : Nat} (n : BoundedInt) : Storable depth (.int n)
  | str {depth : Nat} (s : String) : Storable depth (.str s)
  | list {depth : Nat} {items : List Value} (h : ∀ item ∈ items, Storable depth item) :
    Storable (depth + 1) (.list items)
  | object {depth : Nat} {entries : List (String × Value)} (hkeys : (keysOf entries).Nodup)
    (h : ∀ entry ∈ entries, Storable depth entry.2) : Storable (depth + 1) (.object entries)

theorem Storable.succ {depth : Nat} {value : Value} (h : Storable depth value) :
    Storable (depth + 1) value := by
  induction h with
  | null => exact .null
  | bool b => exact .bool b
  | int n => exact .int n
  | str s => exact .str s
  | list _ ih => exact .list ih
  | object hkeys _ ih => exact .object hkeys ih

theorem Storable.mono {depth deeper : Nat} {value : Value} (h : Storable depth value)
    (hle : depth ≤ deeper) : Storable deeper value := by
  induction hle with
  | refl => exact h
  | step _ ih => exact ih.succ

theorem text_ne_nil (value : Value) : text value ≠ [] := by
  obtain ⟨c, hc, -⟩ := rankOf_head? value
  intro h
  rw [h] at hc
  cases hc

theorem length_le_flatMap (content : List Char) :
    content.length ≤ (content.flatMap stringChar).length := by
  have hone (c : Char) : 1 ≤ (stringChar c).length := by
    unfold stringChar
    repeat' split
    all_goals simp
  induction content with
  | nil => simp
  | cons c content ih =>
    have := hone c
    rw [List.flatMap_cons, List.length_append, List.length_cons]
    omega

/-- The content of a string is read whatever follows it. -/
theorem readString?_content (content rest : List Char) :
    readString? ((content.flatMap stringChar ++ '"' :: rest).length + 1)
      (content.flatMap stringChar ++ '"' :: rest) = some (content, rest) := by
  have hlength := length_le_flatMap content
  apply readString?_flatMap
  rw [List.length_append]
  omega

theorem stringText_append (content rest : List Char) :
    stringText content ++ rest = '"' :: (content.flatMap stringChar ++ '"' :: rest) := by
  simp [stringText]

/-- What follows an item: the items after it, or the end of the list. -/
theorem ends_itemsTail (items : List Value) (rest : List Char) :
    Ends (itemsTail items ++ ']' :: rest) := by
  cases items
  · exact ends_cons (by simp) _
  · exact ends_cons (by simp) _

theorem ends_entriesTail (entries : List (String × Value)) (rest : List Char) :
    Ends (entriesTail entries ++ '\x7d' :: rest) := by
  cases entries
  · exact ends_cons (by simp) _
  · exact ends_cons (by simp) _

/-- The first character of a value's text is no blank and no closing bracket. -/
theorem skipBlanks_text (value : Value) (rest : List Char) :
    skipBlanks (text value ++ rest) = text value ++ rest := by
  obtain ⟨c, hc, hrank⟩ := rankOf_head? value
  cases htext : text value with
  | nil => exact absurd htext (text_ne_nil value)
  | cons d tail =>
    rw [htext] at hc
    obtain rfl : d = c := Option.some.inj hc
    refine skipBlanks_cons ?_ _
    cases hblank : isBlank d with
    | false => rfl
    | true =>
      simp only [isBlank, Bool.or_eq_true, beq_iff_eq] at hblank
      rcases hblank with ((rfl | rfl) | rfl) | rfl <;>
        cases value <;> simp [rankOf, Value.rank, Number.isNumberChar] at hrank

theorem readValue?_string (depth fuel : Nat) (rest : List Char) :
    readValue? depth (fuel + 1) ('"' :: rest) =
      (readString? (rest.length + 1) rest).bind fun (content, rest) =>
        some (.str (String.ofList content), rest) := by
  rw [readValue?, skipBlanks_cons rfl]
  rfl

/-- A list that does not end at once has items. -/
theorem readValue?_list (depth fuel : Nat) {rest : List Char} (hblanks : skipBlanks rest = rest)
    (h : ∀ after, rest ≠ ']' :: after) :
    readValue? (depth + 1) (fuel + 1) ('[' :: rest) =
      (readItems? depth fuel rest).bind fun (items, rest) => some (.list items, rest) := by
  rw [readValue?, skipBlanks_cons rfl]
  simp only [hblanks]
  rfl

/-- An object that does not end at once has entries. -/
theorem readValue?_object (depth fuel : Nat) {rest : List Char} (hblanks : skipBlanks rest = rest)
    (h : ∀ after, rest ≠ '\x7d' :: after) :
    readValue? (depth + 1) (fuel + 1) ('\x7b' :: rest) =
      (readEntries? depth fuel rest).bind fun (entries, rest) =>
        some (.object (insertEntries [] entries), rest) := by
  rw [readValue?, skipBlanks_cons rfl]
  simp only [hblanks]
  rfl

/-- The entry at the front of an object. -/
theorem readEntries?_entry (depth fuel : Nat) {key : List Char} {value : Value}
    {rest after : List Char} (hvalue : readValue? depth fuel rest = some (value, after)) :
    readEntries? depth (fuel + 1) (stringText key ++ ':' :: rest) =
      match skipBlanks after with
      | ',' :: after => (readEntries? depth fuel after).bind fun (entries, after) =>
        some ((String.ofList key, value) :: entries, after)
      | '\x7d' :: after => some ([(String.ofList key, value)], after)
      | _ => none := by
  rw [stringText_append, readEntries?, skipBlanks_cons rfl]
  change ((readString? _ _).bind _) = _
  rw [readString?_content, Option.bind_some]
  dsimp only
  rw [skipBlanks_cons rfl]
  change ((readValue? depth fuel rest).bind _) = _
  rw [hvalue]
  rfl

/-- A list is read as it was written if its items are. -/
theorem readValue?_listText {depth fuel : Nat} {items : List Value} {rest : List Char}
    (hread : items ≠ [] →
      readItems? depth fuel (itemsText items ++ ']' :: rest) = some (items, rest)) :
    readValue? (depth + 1) (fuel + 1) (text (.list items) ++ rest) = some (.list items, rest) := by
  have htext : text (.list items) ++ rest = '[' :: (itemsText items ++ ']' :: rest) := by
    simp [text]
  rw [htext]
  cases items with
  | nil => rfl
  | cons first items =>
    have hfront : itemsText (first :: items) ++ ']' :: rest =
        text first ++ (itemsTail items ++ ']' :: rest) := List.append_assoc _ _ _
    rw [readValue?_list, hread (List.cons_ne_nil _ _)]
    · rfl
    · rw [hfront]
      exact skipBlanks_text first _
    · rw [hfront]
      exact text_ne_cons (by decide) first _

/-- An object is read as it was written if its entries are, and no key is written twice. -/
theorem readValue?_objectText {depth fuel : Nat} {entries : List (String × Value)}
    (hkeys : (keysOf entries).Nodup) {rest : List Char}
    (hread : entries ≠ [] →
      readEntries? depth fuel (entriesText entries ++ '\x7d' :: rest) = some (entries, rest)) :
    readValue? (depth + 1) (fuel + 1) (text (.object entries) ++ rest) =
      some (.object entries, rest) := by
  have htext : text (.object entries) ++ rest =
      '\x7b' :: (entriesText entries ++ '\x7d' :: rest) := by
    simp [text]
  rw [htext]
  cases entries with
  | nil => rfl
  | cons first entries =>
    have hfront : entriesText (first :: entries) ++ '\x7d' :: rest = '"' ::
        (first.1.toList.flatMap stringChar ++ '"' :: ':' :: (text first.2 ++
          (entriesTail entries ++ '\x7d' :: rest))) := by
      simp [entriesText, stringText]
    rw [readValue?_object, hread (List.cons_ne_nil _ _), Option.bind_some]
    · dsimp only
      rw [insertEntries_of_nodup hkeys]
    · rw [hfront]
      exact skipBlanks_cons rfl _
    · rw [hfront]
      intro after heq
      cases (List.cons.inj heq).1

mutual

/-- A value is read as it was written. -/
theorem readValue?_text (value : Value) {depth fuel : Nat} (h : Storable depth value)
    {rest : List Char} (hrest : Ends rest) (hfuel : 2 * (text value).length ≤ fuel) :
    readValue? depth fuel (text value ++ rest) = some (value, rest) := by
  have hpositive := List.length_pos_iff.mpr (text_ne_nil value)
  obtain ⟨fuel, rfl⟩ : ∃ less, fuel = less + 1 := ⟨fuel - 1, by omega⟩
  cases h with
  | null => rfl
  | bool b => cases b <;> rfl
  | int n =>
    have hread := readNumber?_intText n hrest
    cases htext : intText n.val with
    | nil => exact absurd htext (intText_ne_nil _)
    | cons c digits =>
      have hc : Number.isNumberChar c = true :=
        isNumberChar_of_mem_intText (n := n.val) (htext ▸ List.mem_cons_self)
      rw [htext, List.cons_append] at hread
      rw [text, htext, List.cons_append, readValue?_number hc, hread]
  | str s =>
    rw [text, stringText_append, readValue?_string, readString?_content, Option.bind_some]
    dsimp only
    rw [String.ofList_toList]
  | @list depth items hitems =>
    have hlength : (text (.list items)).length = (itemsText items).length + 2 := by simp [text]
    exact readValue?_listText fun hne => readItems?_itemsText items hne hitems rest (by omega)
  | @object depth entries hkeys hentries =>
    have hlength : (text (.object entries)).length = (entriesText entries).length + 2 := by
      simp [text]
    exact readValue?_objectText hkeys fun hne =>
      readEntries?_entriesText entries hne hentries rest (by omega)

theorem readItems?_itemsText (items : List Value) (hne : items ≠ []) {depth fuel : Nat}
    (h : ∀ item ∈ items, Storable depth item) (rest : List Char)
    (hfuel : 2 * (itemsText items).length < fuel) :
    readItems? depth fuel (itemsText items ++ ']' :: rest) = some (items, rest) := by
  obtain ⟨fuel, rfl⟩ : ∃ less, fuel = less + 1 := ⟨fuel - 1, by omega⟩
  cases items with
  | nil => exact absurd rfl hne
  | cons first items =>
    have hlength : (itemsText (first :: items)).length =
        (text first).length + (itemsTail items).length := by simp [itemsText]
    have hfirst := readValue?_text first (h first List.mem_cons_self) (ends_itemsTail items rest)
      (by omega : 2 * (text first).length ≤ fuel)
    rw [itemsText, List.append_assoc, readItems?, hfirst, Option.bind_eq_bind, Option.bind_some]
    dsimp only
    cases items with
    | nil => rfl
    | cons second items =>
      have htail : itemsTail (second :: items) = ',' :: itemsText (second :: items) := rfl
      have hread := readItems?_itemsText (second :: items) (List.cons_ne_nil _ _)
        (fun item hitem => h item (List.mem_cons_of_mem _ hitem)) rest
        (by rw [htail, List.length_cons] at hlength; omega : _ < fuel)
      rw [htail, List.cons_append, skipBlanks_cons rfl]
      change ((readItems? depth fuel _).bind _) = _
      rw [hread]
      rfl

theorem readEntries?_entriesText (entries : List (String × Value)) (hne : entries ≠ [])
    {depth fuel : Nat} (h : ∀ entry ∈ entries, Storable depth entry.2) (rest : List Char)
    (hfuel : 2 * (entriesText entries).length < fuel) :
    readEntries? depth fuel (entriesText entries ++ '\x7d' :: rest) = some (entries, rest) := by
  obtain ⟨fuel, rfl⟩ : ∃ less, fuel = less + 1 := ⟨fuel - 1, by omega⟩
  cases entries with
  | nil => exact absurd rfl hne
  | cons first entries =>
    obtain ⟨key, value⟩ := first
    have hlength : (entriesText ((key, value) :: entries)).length =
        (stringText key.toList).length + 1 + (text value).length +
          (entriesTail entries).length := by
      simp [entriesText]
      omega
    have hvalue := readValue?_text value (h _ List.mem_cons_self) (ends_entriesTail entries rest)
      (by omega : 2 * (text value).length ≤ fuel)
    have hfront : entriesText ((key, value) :: entries) ++ '\x7d' :: rest =
        stringText key.toList ++ ':' :: (text value ++ (entriesTail entries ++ '\x7d' :: rest)) := by
      simp [entriesText]
    rw [hfront, readEntries?_entry depth fuel hvalue, String.ofList_toList]
    cases entries with
    | nil => rfl
    | cons second entries =>
      have htail : entriesTail (second :: entries) = ',' :: entriesText (second :: entries) := rfl
      have hread := readEntries?_entriesText (second :: entries) (List.cons_ne_nil _ _)
        (fun entry hentry => h entry (List.mem_cons_of_mem _ hentry)) rest
        (by rw [htail, List.length_cons] at hlength; omega : _ < fuel)
      rw [htail, List.cons_append, skipBlanks_cons rfl]
      change ((readEntries? depth fuel _).bind _) = _
      rw [hread]
      rfl

end

/-- A JSON text is read as the value it was written from. -/
theorem read?_toJson {value : Value} (h : Storable depthLimit value) :
    read? value.toJson = some value := by
  have hread := readValue?_text value h ends_nil
    (by omega : 2 * (text value).length ≤ 2 * (text value).length + 2)
  rw [List.append_nil] at hread
  rw [read?, Value.toJson, String.toList_ofList, readAll?, hread]
  rfl

end StreamQuery.Json
