import Mathlib.Algebra.Order.Field.Rat
import Mathlib.Tactic.Positivity
import Mathlib.Tactic.Ring
import StreamQuery.Number.Notation
import StreamQuery.Number.Reading
import StreamQuery.Proofs.Number.Interval

/-!
# The texts of floats

The text of a float shows the decimal it was written from, in whatever notation. That decimal rounds
to no other float, so different floats have different texts.
-/

namespace StreamQuery.Number

/-! ### Digits -/

theorem naturalOfDecimals_append (left right : List Char) :
    naturalOfDecimals (left ++ right) =
      10 ^ right.length * naturalOfDecimals left + naturalOfDecimals right := by
  change Nat.ofDigitChars 10 (left ++ right) 0 = _
  rw [Nat.ofDigitChars_append, Nat.ofDigitChars_eq_ofDigitChars_zero]
  rfl

theorem naturalOfDecimals_zeros (count : Nat) :
    naturalOfDecimals (List.replicate count '0') = 0 := by
  change Nat.ofDigitChars 10 _ 0 = 0
  rw [Nat.ofDigitChars_replicate_zero, Nat.mul_zero]

theorem naturalOfDecimals_digitsOf (n : Nat) : naturalOfDecimals (digitsOf n) = n :=
  Nat.ofDigitChars_ten_toDigits

example : naturalOfDecimals (digitsOf 1200) = 1200 := by decide +kernel

theorem digitsOf_injective : Function.Injective digitsOf :=
  Function.LeftInverse.injective naturalOfDecimals_digitsOf

theorem isDigit_of_mem_digitsOf {n : Nat} {c : Char} (h : c ∈ digitsOf n) : c.isDigit = true :=
  Nat.isDigit_of_mem_toDigits (by decide) (by decide) h

theorem digitsOf_ne_nil (n : Nat) : digitsOf n ≠ [] :=
  Nat.toDigits_ne_nil

theorem isDigit_of_mem_zeros {count : Nat} {c : Char} (h : c ∈ List.replicate count '0') :
    c.isDigit = true := by
  rw [List.eq_of_mem_replicate h]
  rfl

/-- A character of a number. -/
def isNumberChar (c : Char) : Bool :=
  c.isDigit || c == '-' || c == '+' || c == '.' || c == 'e'

theorem isNumberChar_of_isDigit {c : Char} (h : c.isDigit = true) : isNumberChar c = true := by
  rw [isNumberChar, h]
  rfl

theorem head?_digits {digits : List Char} (hne : digits ≠ [])
    (hdigits : ∀ c ∈ digits, c.isDigit = true) : ∃ c, digits.head? = some c ∧ c.isDigit = true := by
  cases digits with
  | nil => exact absurd rfl hne
  | cons c rest => exact ⟨c, rfl, hdigits c List.mem_cons_self⟩

theorem isNumberChar_of_mem_digitsOf {n : Nat} {c : Char} (h : c ∈ digitsOf n) :
    isNumberChar c = true :=
  isNumberChar_of_isDigit (isDigit_of_mem_digitsOf h)

/-! ### Reading a text -/

/-- The decimal that the text of a number without sign shows. -/
def decimalOf (text : List Char) : Decimal :=
  let whole := text.takeWhile Char.isDigit
  let afterWhole := text.dropWhile Char.isDigit
  let (fraction, rest) := match afterWhole with
    | '.' :: rest => (rest.takeWhile Char.isDigit, rest.dropWhile Char.isDigit)
    | _ => ([], afterWhole)
  ⟨naturalOfDecimals (whole ++ fraction), (readExponent? rest).getD 0 - fraction.length⟩

section Reading

variable {digits fraction rest : List Char}

theorem takeWhile_digits (hdigits : ∀ c ∈ digits, c.isDigit = true)
    (hrest : ∀ c, rest.head? = some c → c.isDigit = false) :
    (digits ++ rest).takeWhile Char.isDigit = digits := by
  rw [List.takeWhile_append_of_pos hdigits]
  cases rest with
  | nil => simp
  | cons c rest => rw [List.takeWhile_cons_of_neg (by simp [hrest c rfl]), List.append_nil]

theorem dropWhile_digits (hdigits : ∀ c ∈ digits, c.isDigit = true)
    (hrest : ∀ c, rest.head? = some c → c.isDigit = false) :
    (digits ++ rest).dropWhile Char.isDigit = rest := by
  rw [List.dropWhile_append_of_pos hdigits]
  cases rest with
  | nil => rfl
  | cons c rest => rw [List.dropWhile_cons_of_neg (by simp [hrest c rfl])]

theorem decimalOf_point (hdigits : ∀ c ∈ digits, c.isDigit = true)
    (hfraction : ∀ c ∈ fraction, c.isDigit = true)
    (hrest : ∀ c, rest.head? = some c → c.isDigit = false) :
    decimalOf (digits ++ '.' :: (fraction ++ rest)) =
      ⟨naturalOfDecimals (digits ++ fraction), (readExponent? rest).getD 0 - fraction.length⟩ := by
  have hpoint : ∀ c, ('.' :: (fraction ++ rest)).head? = some c → c.isDigit = false := by
    rintro c ⟨⟩
    rfl
  simp only [decimalOf, takeWhile_digits hdigits hpoint, dropWhile_digits hdigits hpoint,
    takeWhile_digits hfraction hrest, dropWhile_digits hfraction hrest]

theorem decimalOf_whole (hdigits : ∀ c ∈ digits, c.isDigit = true)
    (hrest : ∀ c, rest.head? = some c → c.isDigit = false ∧ c ≠ '.') :
    decimalOf (digits ++ rest) =
      ⟨naturalOfDecimals digits, (readExponent? rest).getD 0⟩ := by
  have hend : ∀ c, rest.head? = some c → c.isDigit = false := fun c hc => (hrest c hc).1
  simp only [decimalOf, takeWhile_digits hdigits hend, dropWhile_digits hdigits hend]
  split
  · next h => exact absurd rfl (hrest '.' rfl).2
  · simp

/-- A number with a point is read as its digits, moved by the digits after the point. -/
theorem decimalOf_pointed (hdigits : ∀ c ∈ digits, c.isDigit = true)
    (hfraction : ∀ c ∈ fraction, c.isDigit = true) :
    decimalOf (digits ++ '.' :: fraction) =
      ⟨naturalOfDecimals (digits ++ fraction), -fraction.length⟩ := by
  have hread : decimalOf (digits ++ '.' :: (fraction ++ [])) = _ :=
    decimalOf_point hdigits hfraction (by simp)
  rwa [List.append_nil, show (readExponent? []).getD 0 = 0 from rfl, Int.zero_sub] at hread

theorem decimalOf_cut {places : Nat} (hdigits : ∀ c ∈ digits, c.isDigit = true)
    (hplaces : places ≤ digits.length) :
    decimalOf (digits.take (digits.length - places) ++ '.' :: digits.drop (digits.length - places)) =
      ⟨naturalOfDecimals digits, -places⟩ := by
  rw [decimalOf_pointed (fun c hc => hdigits c (List.mem_of_mem_take hc))
    (fun c hc => hdigits c (List.mem_of_mem_drop hc)), List.take_append_drop, List.length_drop,
    Nat.sub_sub_self hplaces]

end Reading

namespace Notation

variable (style : Notation) (decimal : Decimal)

/-- A decimal written positionally is read back as the same number. -/
theorem value_writePositional :
    (decimalOf (style.writePositional decimal)).value = decimal.value := by
  have hdigits : ∀ c ∈ digitsOf decimal.digits, c.isDigit = true :=
    fun c hc => isDigit_of_mem_digitsOf hc
  unfold writePositional
  dsimp only
  split
  · next h =>
    have hwhole : ∀ c ∈ digitsOf decimal.digits ++ List.replicate decimal.exponent.toNat '0',
        c.isDigit = true :=
      fun c hc => (List.mem_append.mp hc).elim (hdigits c) isDigit_of_mem_zeros
    have hvalue : ((naturalOfDecimals
        (digitsOf decimal.digits ++ List.replicate decimal.exponent.toNat '0') : Nat) : ℚ) =
        decimal.value := by
      rw [naturalOfDecimals_append, naturalOfDecimals_zeros, naturalOfDecimals_digitsOf,
        List.length_replicate, Decimal.value, Nat.add_zero, Nat.cast_mul, mul_comm, Nat.cast_pow,
        ← zpow_natCast, Int.toNat_of_nonneg h]
      rfl
    cases style.wholePoint
    · rw [if_neg Bool.false_ne_true, decimalOf_whole hwhole (by simp), ← hvalue, Decimal.value]
      exact mul_one _
    · rw [if_pos rfl, @decimalOf_pointed _ ['0'] hwhole (by simp),
        naturalOfDecimals_append, ← hvalue, Decimal.value, show naturalOfDecimals ['0'] = 0 from rfl]
      push_cast
      rw [List.length_singleton, Nat.cast_one, zpow_neg, zpow_one]
      ring
  · next h =>
    have hpadded : ∀ c ∈ List.replicate
        ((-decimal.exponent).toNat + 1 - (digitsOf decimal.digits).length) '0' ++
        digitsOf decimal.digits, c.isDigit = true :=
      fun c hc => (List.mem_append.mp hc).elim isDigit_of_mem_zeros (hdigits c)
    rw [decimalOf_cut hpadded (by simp; omega), naturalOfDecimals_append, naturalOfDecimals_zeros,
      naturalOfDecimals_digitsOf, Nat.mul_zero, Nat.zero_add, Int.toNat_of_nonneg (by omega),
      Int.neg_neg]

/-- The sign that an exponent is written with. -/
def exponentSign (leading : Int) : List Char :=
  if leading < 0 then ['-'] else if style.exponentPlus then ['+'] else []

theorem splitSign_digitsOf (n : Nat) : splitSign (digitsOf n) = (false, digitsOf n) := by
  have hdigits : ∀ c ∈ digitsOf n, c.isDigit = true := fun c hc => isDigit_of_mem_digitsOf hc
  unfold splitSign
  split
  · next h => exact absurd (hdigits '-' (by simp [h])) (by decide)
  · next h => exact absurd (hdigits '+' (by simp [h])) (by decide)
  · rfl

theorem splitSign_exponent (leading : Int) :
    splitSign (style.exponentSign leading ++ digitsOf leading.natAbs) =
      (decide (leading < 0), digitsOf leading.natAbs) := by
  unfold exponentSign
  by_cases h : leading < 0
  · rw [if_pos h, decide_eq_true h]
    rfl
  · rw [if_neg h, decide_eq_false h]
    cases style.exponentPlus
    · exact splitSign_digitsOf _
    · rfl

theorem readExponent?_written (leading : Int) :
    readExponent? ('e' :: (style.exponentSign leading ++ digitsOf leading.natAbs)) =
      some leading := by
  have hall : (digitsOf leading.natAbs).all Char.isDigit = true :=
    List.all_eq_true.mpr fun c hc => isDigit_of_mem_digitsOf hc
  have hne : (digitsOf leading.natAbs).isEmpty = false :=
    List.isEmpty_eq_false_iff.mpr (digitsOf_ne_nil _)
  simp only [readExponent?, splitSign_exponent, hall, hne, naturalOfDecimals_digitsOf, beq_self_eq_true,
    Bool.true_or, if_true, Bool.not_false, Bool.and_self, decide_eq_true_iff, Option.some.injEq]
  split <;> omega

/-- A decimal written with an exponent is read back as the same number. -/
theorem value_writeScientific :
    (decimalOf (style.writeScientific decimal)).value = decimal.value := by
  have hdigits : ∀ c ∈ digitsOf decimal.digits, c.isDigit = true :=
    fun c hc => isDigit_of_mem_digitsOf hc
  have hexponent := style.readExponent?_written decimal.leading
  have hvalue := naturalOfDecimals_digitsOf decimal.digits
  have hleading : decimal.leading = decimal.exponent + (digitsOf decimal.digits).length - 1 := rfl
  have hend (text : List Char) :
      ∀ c, ('e' :: text).head? = some c → c.isDigit = false ∧ c ≠ '.' := by
    rintro c ⟨⟩
    exact ⟨rfl, by decide⟩
  have htext (mantissa : List Char) :
      mantissa ++ 'e' :: (if decimal.leading < 0 then ['-']
        else if style.exponentPlus then ['+'] else []) ++ digitsOf decimal.leading.natAbs =
      mantissa ++ 'e' :: (style.exponentSign decimal.leading ++ digitsOf decimal.leading.natAbs) :=
    List.append_assoc _ _ _
  unfold writeScientific
  dsimp only
  rw [htext]
  cases h : digitsOf decimal.digits with
  | nil => exact absurd h (digitsOf_ne_nil _)
  | cons digit rest =>
    rw [h] at hvalue hleading hdigits
    cases rest with
    | nil =>
      dsimp only
      rw [decimalOf_whole hdigits (hend _), hexponent, hvalue, Decimal.value, Decimal.value,
        hleading]
      simp
    | cons second rest =>
      have hrest : ∀ c ∈ second :: rest, c.isDigit = true :=
        fun c hc => hdigits c (List.mem_cons_of_mem _ hc)
      have hdigit : ∀ c ∈ [digit], c.isDigit = true := fun c hc => hdigits c (by simp_all)
      refine (congrArg Decimal.value
        (decimalOf_point hdigit hrest fun c hc => (hend _ c hc).1)).trans ?_
      rw [hexponent, Decimal.value, Decimal.value, List.singleton_append, hvalue, hleading]
      congr 2
      simp only [Option.getD_some, List.length_cons]
      omega

/-! ### The characters of a text -/

/-- The text of a decimal begins with a digit. -/
theorem head?_writePositional :
    ∃ c, (style.writePositional decimal).head? = some c ∧ c.isDigit = true := by
  have hdigits : ∀ c ∈ digitsOf decimal.digits, c.isDigit = true :=
    fun c hc => isDigit_of_mem_digitsOf hc
  have hne := digitsOf_ne_nil decimal.digits
  unfold writePositional
  dsimp only
  split
  · obtain ⟨c, hc, hdigit⟩ := head?_digits hne hdigits
    exact ⟨c, by rw [List.head?_append, List.head?_append, hc]; rfl, hdigit⟩
  · have hpadded : ∀ c ∈ List.replicate
        ((-decimal.exponent).toNat + 1 - (digitsOf decimal.digits).length) '0' ++
        digitsOf decimal.digits, c.isDigit = true :=
      fun c hc => (List.mem_append.mp hc).elim isDigit_of_mem_zeros (hdigits c)
    obtain ⟨c, hc, hdigit⟩ := head?_digits (by simp [hne]) hpadded
    refine ⟨c, ?_, hdigit⟩
    rw [List.head?_append, List.head?_take, if_neg (by simp; omega), hc]
    rfl

theorem head?_writeScientific :
    ∃ c, (style.writeScientific decimal).head? = some c ∧ c.isDigit = true := by
  obtain ⟨c, hc, hdigit⟩ := head?_digits (digitsOf_ne_nil decimal.digits)
    fun c hc => isDigit_of_mem_digitsOf hc
  refine ⟨c, ?_, hdigit⟩
  unfold writeScientific
  dsimp only
  split <;> simp_all

theorem isNumberChar_of_mem_point {c : Char}
    (h : c ∈ if style.wholePoint then ['.', '0'] else []) : isNumberChar c = true := by
  split at h
  · rcases (by simpa using h : c = '.' ∨ c = '0') with rfl | rfl <;> decide
  · cases h

theorem isNumberChar_of_mem_writePositional {c : Char} (h : c ∈ style.writePositional decimal) :
    isNumberChar c = true := by
  unfold writePositional at h
  dsimp only at h
  split at h
  · rw [List.mem_append, List.mem_append] at h
    obtain (h | h) | h := h
    · exact isNumberChar_of_mem_digitsOf h
    · exact isNumberChar_of_isDigit (isDigit_of_mem_zeros h)
    · exact isNumberChar_of_mem_point style h
  · have hpadded : ∀ c ∈ List.replicate
        ((-decimal.exponent).toNat + 1 - (digitsOf decimal.digits).length) '0' ++
        digitsOf decimal.digits, isNumberChar c = true :=
      fun c hc => (List.mem_append.mp hc).elim
        (fun hc => isNumberChar_of_isDigit (isDigit_of_mem_zeros hc)) isNumberChar_of_mem_digitsOf
    rw [List.mem_append, List.mem_cons] at h
    obtain h | rfl | h := h
    · exact hpadded c (List.mem_of_mem_take h)
    · rfl
    · exact hpadded c (List.mem_of_mem_drop h)

theorem isNumberChar_of_mem_writeScientific {c : Char} (h : c ∈ style.writeScientific decimal) :
    isNumberChar c = true := by
  have hdigits : ∀ c ∈ digitsOf decimal.digits, isNumberChar c = true :=
    fun c hc => isNumberChar_of_mem_digitsOf hc
  unfold writeScientific at h
  dsimp only at h
  rw [List.mem_append, List.mem_append, List.mem_cons] at h
  obtain (h | rfl | h) | h := h
  · split at h
    · cases h
    · next hone => exact hdigits c (hone ▸ h)
    · next hmore =>
      rw [hmore] at hdigits
      rw [List.mem_cons, List.mem_cons] at h
      obtain rfl | rfl | h := h
      · exact hdigits c List.mem_cons_self
      · rfl
      · exact hdigits c (List.mem_cons_of_mem _ h)
  · rfl
  · split at h
    · obtain rfl := List.mem_singleton.mp h
      rfl
    · split at h
      · obtain rfl := List.mem_singleton.mp h
        rfl
      · cases h
  · exact isNumberChar_of_mem_digitsOf h

/-- The text of a finite float without its sign. -/
def magnitudeText (x : Float) : List Char :=
  let binary := Binary.ofFloat x
  if binary.significand == 0 then '0' :: if style.wholePoint then ['.', '0'] else []
  else if style.positional binary.shortest.leading then style.writePositional binary.shortest
  else style.writeScientific binary.shortest

theorem writeFinite_eq (x : Float) :
    style.writeFinite x =
      if (Binary.ofFloat x).negative then '-' :: style.magnitudeText x else style.magnitudeText x :=
  rfl

theorem head?_magnitudeText (x : Float) :
    ∃ c, (style.magnitudeText x).head? = some c ∧ c.isDigit = true := by
  unfold magnitudeText
  dsimp only
  split
  · exact ⟨'0', rfl, rfl⟩
  · split
    · exact style.head?_writePositional _
    · exact style.head?_writeScientific _

/-- Every character of a float's text is one of a number. -/
theorem isNumberChar_of_mem_writeFinite {x : Float} {c : Char} (h : c ∈ style.writeFinite x) :
    isNumberChar c = true := by
  have hmagnitude : ∀ c ∈ style.magnitudeText x, isNumberChar c = true := by
    intro c hc
    unfold magnitudeText at hc
    dsimp only at hc
    split at hc
    · obtain rfl | hc := List.mem_cons.mp hc
      · rfl
      · exact isNumberChar_of_mem_point style hc
    · split at hc
      · exact isNumberChar_of_mem_writePositional _ _ hc
      · exact isNumberChar_of_mem_writeScientific _ _ hc
  rw [writeFinite_eq] at h
  split at h
  · obtain rfl | h := List.mem_cons.mp h
    · rfl
    · exact hmagnitude c h
  · exact hmagnitude c h

/-- A float's text has a point or an exponent if whole numbers have one. -/
theorem exists_mark (hpoint : style.wholePoint = true) (x : Float) :
    '.' ∈ style.writeFinite x ∨ 'e' ∈ style.writeFinite x := by
  have hmagnitude : '.' ∈ style.magnitudeText x ∨ 'e' ∈ style.magnitudeText x := by
    unfold magnitudeText writePositional writeScientific
    dsimp only
    rw [hpoint]
    split
    · simp
    · split
      · split <;> simp
      · simp
  rw [writeFinite_eq]
  split
  · exact hmagnitude.imp (List.mem_cons_of_mem _) (List.mem_cons_of_mem _)
  · exact hmagnitude

/-! ### Floats and their texts -/

/-- The number that a float's text shows, without the sign. -/
theorem value_magnitudeText (x : Float) :
    (decimalOf (style.magnitudeText x)).value =
      if (Binary.ofFloat x).significand = 0 then 0 else (Binary.ofFloat x).shortest.value := by
  unfold magnitudeText
  dsimp only
  by_cases h : (Binary.ofFloat x).significand = 0
  · rw [if_pos (beq_iff_eq.mpr h), if_pos h]
    cases style.wholePoint
    · rw [if_neg Bool.false_ne_true, show decimalOf ['0'] = ⟨0, 0⟩ by decide]
      simp [Decimal.value]
    · rw [if_pos rfl, show decimalOf ['0', '.', '0'] = ⟨0, -1⟩ by decide]
      simp [Decimal.value]
  · rw [if_neg (by simpa using h), if_neg h]
    split
    · exact value_writePositional _ _
    · exact value_writeScientific _ _

/-- Only the text of a zero shows zero. -/
theorem magnitude_eq_of_magnitudeText {x y : Float} (hx : x.isFinite = true)
    (hy : y.isFinite = true) (h : style.magnitudeText x = style.magnitudeText y) :
    (Binary.ofFloat x).magnitude = (Binary.ofFloat y).magnitude := by
  have hxcanonical := canonical_ofFloat hx
  have hycanonical := canonical_ofFloat hy
  have hvalues := congrArg (fun text => (decimalOf text).value) h
  simp only [value_magnitudeText] at hvalues
  by_cases hxzero : (Binary.ofFloat x).significand = 0 <;>
    by_cases hyzero : (Binary.ofFloat y).significand = 0
  · rw [hxcanonical.magnitude_eq_zero hxzero, hycanonical.magnitude_eq_zero hyzero]
  · rw [if_pos hxzero, if_neg hyzero] at hvalues
    exact absurd (hvalues ▸ hycanonical.contains_shortest hyzero)
      (RoundingInterval.not_contains_zero (Binary.interval_low_pos hyzero))
  · rw [if_neg hxzero, if_pos hyzero] at hvalues
    exact absurd (hvalues ▸ hxcanonical.contains_shortest hxzero)
      (RoundingInterval.not_contains_zero (Binary.interval_low_pos hxzero))
  · rw [if_neg hxzero, if_neg hyzero] at hvalues
    exact hxcanonical.magnitude_eq hycanonical hxzero hyzero hvalues

theorem magnitudeText_ne_cons (x : Float) (text : List Char) :
    style.magnitudeText x ≠ '-' :: text := by
  obtain ⟨c, hc, hdigit⟩ := style.head?_magnitudeText x
  intro h
  rw [h] at hc
  obtain rfl : '-' = c := Option.some.inj hc
  cases hdigit

/-- Different finite floats have different texts. -/
theorem writeFinite_injective {x y : Float} (hx : x.isFinite = true) (hy : y.isFinite = true)
    (h : style.writeFinite x = style.writeFinite y) : x = y := by
  rw [writeFinite_eq, writeFinite_eq] at h
  cases hxsign : (Binary.ofFloat x).negative <;> cases hysign : (Binary.ofFloat y).negative <;>
    simp only [hxsign, hysign, if_true, Bool.false_eq_true, if_false, List.cons.injEq,
      true_and] at h
  · exact eq_of_magnitude (hxsign.trans hysign.symm) (style.magnitude_eq_of_magnitudeText hx hy h)
  · exact absurd h (style.magnitudeText_ne_cons x _)
  · exact absurd h.symm (style.magnitudeText_ne_cons y _)
  · exact eq_of_magnitude (hxsign.trans hysign.symm) (style.magnitude_eq_of_magnitudeText hx hy h)

end Notation

end StreamQuery.Number
