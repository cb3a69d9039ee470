import StreamQuery.Proofs.Number.Rounding

/-!
# Results in the range of floats

The result of an operation on finite floats is rounded to a significand with an exponent, and is
infinite only if that exponent is too large. The position of the leading bit tells: a result that is
at most half the greatest float stays finite when it is rounded.
-/

namespace StreamQuery.Number

open Float.Model Float.Model.UnpackedFloat

/-! ### Packing -/

/-- Zero, or a number whose exponent a finite float has. -/
def InRange : UnpackedFloat → Prop
  | .zero _ => True
  | .finite _ _ exponent _ => exponent ≤ 971
  | _ => False

theorem toNat_packComponents_lt {sign : Sign} {exponent : BitVec 11} {mantissa : BitVec 52}
    (h : exponent.toNat < 2047) :
    (packComponents Format.binary64 sign exponent mantissa).toNat % 2 ^ 63 < infinityBits := by
  have hinfinity : infinityBits = 2047 * 2 ^ 52 := rfl
  have hmantissa := mantissa.isLt
  rw [toNat_packComponents, hinfinity]
  omega

theorem isFinite_pack {number : UnpackedFloat} (h : InRange number) :
    (Float.ofModel (Float.Model.pack number)).isFinite = true := by
  rw [isFinite_iff]
  change (UnpackedFloat.pack Format.binary64 number).toNat % 2 ^ 63 < infinityBits
  cases number with
  | infinity sign => cases h
  | notANumber => cases h
  | zero sign => exact toNat_packComponents_lt (by decide)
  | finite sign mantissa exponent hpos =>
    have hexponent : exponent ≤ 971 := h
    have hrange : ¬ 2 ^ Format.binary64.exponentBits ≤ (exponent + Format.binary64.exponentBias +
        Format.binary64.mantissaBitsWithoutImplicit).toNat + 1 := by
      change ¬ 2048 ≤ (exponent + 1023 + 52).toNat + 1
      omega
    simp only [UnpackedFloat.pack, if_neg hrange]
    split
    · apply toNat_packComponents_lt
      rw [BitVec.toNat_ofNat]
      change (exponent + 1023 + 52).toNat % 2048 < 2047
      omega
    · exact toNat_packComponents_lt (by decide)

/-- An operation on finite floats is finite if what it gives for their binary forms is in range. -/
theorem isFinite_combined (operation : UnpackedFloat → UnpackedFloat → UnpackedFloat) {x y : Float}
    (hx : x.isFinite = true) (hy : y.isFinite = true)
    (h : InRange (operation (Binary.ofFloat x).unpacked (Binary.ofFloat y).unpacked)) :
    (Float.ofModel
      (Float.Model.pack (operation x.toModel.unpack y.toModel.unpack))).isFinite = true := by
  rw [unpack_of_isFinite hx, unpack_of_isFinite hy]
  exact isFinite_pack h

/-! ### Rounding -/

theorem mantissa_repeat_shiftRightOne (shifts : Nat) (extended : ExtendedMantissa) :
    (Nat.repeat ExtendedMantissa.shiftRightOne shifts extended).mantissa =
      extended.mantissa / 2 ^ shifts := by
  induction shifts with
  | zero => rw [Nat.pow_zero, Nat.div_one]; rfl
  | succ shifts ih =>
    rw [Nat.pow_succ, ← Nat.div_div_eq_div_mul, ← ih]
    rfl

theorem roundedMantissa_le (extended : ExtendedMantissa) :
    extended.roundedMantissa ≤ extended.mantissa + 1 := by
  unfold ExtendedMantissa.roundedMantissa
  cases extended.accuracy with
  | exact => exact Nat.le_succ _
  | inexact relative =>
    cases relative with
    | lt => exact Nat.le_succ _
    | eq => exact Nat.add_le_add_left (Nat.le_of_lt_succ (Nat.mod_lt _ (by decide))) _
    | gt => exact Nat.le_refl _

/-- The exponent that a significand is shifted to. -/
def roundingExponent (mantissa : Nat) (exponent : Int) : Int :=
  max (mantissa.log2 + 1 + exponent - 53) (-1074)

theorem mantissa_shiftToTargetExponent (mantissa : Nat) (exponent : Int) (accuracy : Accuracy) :
    (shiftToTargetExponent Format.binary64 mantissa exponent accuracy).1.mantissa =
      mantissa / 2 ^ (roundingExponent mantissa exponent - exponent).toNat := by
  have hextended :
      (ExtendedMantissa.ofMantissaAndAccuracy mantissa accuracy).mantissa = mantissa := by
    cases accuracy with
    | exact => rfl
    | inexact relative => cases relative <;> rfl
  have hshift := mantissa_repeat_shiftRightOne (roundingExponent mantissa exponent - exponent).toNat
    (ExtendedMantissa.ofMantissaAndAccuracy mantissa accuracy)
  rw [hextended] at hshift
  exact hshift

theorem exponent_shiftToTargetExponent (mantissa : Nat) (exponent : Int) (accuracy : Accuracy) :
    (shiftToTargetExponent Format.binary64 mantissa exponent accuracy).2 =
      max exponent (roundingExponent mantissa exponent) := by
  change exponent + ((roundingExponent mantissa exponent - exponent).toNat : Int) = _
  omega

theorem log2_le_of_le_two_pow {n bits : Nat} (h : n ≤ 2 ^ bits) : n.log2 ≤ bits := by
  rcases Nat.eq_zero_or_pos n with rfl | hpos
  · exact Nat.zero_le _
  · have hlt : n < 2 ^ (bits + 1) :=
      h.trans_lt (Nat.pow_lt_pow_right (by decide) (Nat.lt_succ_self _))
    exact Nat.le_of_lt_succ ((Nat.log2_lt (Nat.ne_of_gt hpos)).mpr hlt)

/-- Shifting takes bits away, and rounding makes at most one more. -/
theorem log2_rounded_le {mantissa shifts rounded : Nat}
    (h : rounded ≤ mantissa / 2 ^ shifts + 1) : rounded.log2 ≤ mantissa.log2 + 1 - shifts := by
  have hwhole : mantissa < 2 ^ (mantissa.log2 + 1 - shifts) * 2 ^ shifts := by
    rw [← Nat.pow_add]
    exact Nat.lt_log2_self.trans_le (Nat.pow_le_pow_right (by decide) (by omega))
  have hquotient := Nat.div_lt_of_lt_mul (Nat.mul_comm _ _ ▸ hwhole)
  exact log2_le_of_le_two_pow (by omega)

/-- A number with its leading bit below that of the greatest float stays in the range when it is
rounded. -/
theorem inRange_roundWithAccuracy (sign : Sign) {mantissa : Nat} {exponent : Int}
    (accuracy : Accuracy) (hexponent : exponent ≤ 970)
    (hleading : mantissa.log2 + 1 + exponent ≤ 1023) :
    InRange (roundWithAccuracy Format.binary64 sign mantissa exponent accuracy) := by
  have hmantissa := mantissa_shiftToTargetExponent mantissa exponent accuracy
  have hfirst := exponent_shiftToTargetExponent mantissa exponent accuracy
  have hrounded := roundedMantissa_le
    (shiftToTargetExponent Format.binary64 mantissa exponent accuracy).1
  rw [hmantissa] at hrounded
  -- The rounded significand may have one bit more, so the second shift goes one further.
  have hlog := log2_rounded_le hrounded
  unfold roundWithAccuracy
  dsimp only
  split
  · trivial
  · change _ ≤ (971 : Int)
    rw [exponent_shiftToTargetExponent, hfirst]
    simp only [roundingExponent] at hlog ⊢
    omega

/-! ### Quotients -/

theorem log2_quotient_le {num den shifts : Nat} (h : num <<< shifts / den ≠ 0) :
    (num <<< shifts / den).log2 + den.log2 ≤ num.log2 + shifts := by
  have hden : den ≠ 0 := by
    rintro rfl
    exact h (Nat.div_zero _)
  have hbits : 2 ^ ((num <<< shifts / den).log2 + den.log2) < 2 ^ (num.log2 + 1 + shifts) :=
    calc 2 ^ ((num <<< shifts / den).log2 + den.log2)
        = 2 ^ (num <<< shifts / den).log2 * 2 ^ den.log2 := Nat.pow_add _ _ _
      _ ≤ num <<< shifts / den * den :=
        Nat.mul_le_mul (Nat.log2_self_le h) (Nat.log2_self_le hden)
      _ ≤ num <<< shifts := Nat.div_mul_le_self _ _
      _ = num * 2 ^ shifts := Nat.shiftLeft_eq _ _
      _ < 2 ^ (num.log2 + 1) * 2 ^ shifts :=
        Nat.mul_lt_mul_of_pos_right Nat.lt_log2_self (Nat.two_pow_pos _)
      _ = 2 ^ (num.log2 + 1 + shifts) := (Nat.pow_add _ _ _).symm
  have hexponents := (Nat.pow_lt_pow_iff_right (by decide)).mp hbits
  omega

/-- Dividing by two or more halves the greatest float at least, so the quotient is in the range. -/
theorem inRange_div {x y : Binary} (hx : x.Canonical) (hy : y.significand ≠ 0)
    (htwo : 1 ≤ (y.significand.log2 : Int) + y.exponent) :
    InRange (UnpackedFloat.div Format.binary64 x.unpacked y.unpacked) := by
  have hgreatest := hx.greatest
  have hleast := hx.least
  rw [Binary.unpacked, Binary.unpacked, dif_neg hy]
  by_cases hzero : x.significand = 0
  · rw [dif_pos hzero]
    trivial
  · rw [dif_neg hzero]
    have hbits : x.significand.log2 < 53 := (Nat.log2_lt hzero).mpr hx.significand_lt
    let quotient := divCore Format.binary64 x.significand x.exponent y.significand y.exponent
    have htarget : quotient.2.1 = min (x.exponent - y.exponent)
        (max (x.significand.log2 + 1 + x.exponent - (y.significand.log2 + 1 + y.exponent) - 53)
          (-1074)) := rfl
    have hquotient : quotient.1 =
        x.significand <<< (x.exponent - y.exponent - quotient.2.1).toNat / y.significand := rfl
    change InRange (roundWithAccuracy Format.binary64 _ quotient.1 quotient.2.1 quotient.2.2)
    clear_value quotient
    have hleading : (quotient.1.log2 : Int) + 1 + quotient.2.1 ≤ 1023 := by
      by_cases hnone : quotient.1 = 0
      · rw [hnone, Nat.log2_zero]
        omega
      · rw [hquotient] at hnone ⊢
        have hlog := log2_quotient_le hnone
        omega
    exact inRange_roundWithAccuracy _ _ (by omega) hleading

/-- The float of an integer of two or more has its leading bit at two or above. -/
theorem leading_floatOfInt {n : Int} (htwo : 2 ≤ n) (hn : n < 2 ^ 64) :
    (Binary.ofFloat (floatOfInt n)).significand ≠ 0 ∧
      1 ≤ ((Binary.ofFloat (floatOfInt n)).significand.log2 : Int) +
        (Binary.ofFloat (floatOfInt n)).exponent := by
  have habs : n.natAbs < 2 ^ 64 := by omega
  have hne : n.natAbs ≠ 0 := by omega
  have hcanonical := canonical_ofFloat (isFinite_floatOfInt habs)
  have hlog : 1 ≤ n.natAbs.log2 := (Nat.le_log2 hne).mpr (by omega)
  have hlow := (roundedSignificand_bounds hne).1
  have hexponent : -51 ≤ (Binary.ofFloat (floatOfInt n)).exponent := by
    have hinfinity : infinityBits = 2047 * 2 ^ 52 := rfl
    have hlt := nearestBits_one_lt habs
    have hbits := toBits_floatOfInt habs
    rw [nearestBits_one hne] at hlt hbits
    rw [if_neg (by omega), Nat.add_zero] at hbits
    rw [Binary.ofFloat_eq, hbits]
    simp only [Binary.ofBits]
    split <;> omega
  have hnormal := hcanonical.normal (by omega)
  have hsignificand : (Binary.ofFloat (floatOfInt n)).significand ≠ 0 := by omega
  have hleading := (Nat.le_log2 (k := 52) hsignificand).mpr hnormal
  exact ⟨hsignificand, by omega⟩

/-- The quotient of a finite float by the float of an integer of two or more is finite. -/
theorem isFinite_div_floatOfInt {x : Float} (hx : x.isFinite = true) {n : Int} (htwo : 2 ≤ n)
    (hn : n < 2 ^ 64) : (x / floatOfInt n).isFinite = true := by
  obtain ⟨hsignificand, hleading⟩ := leading_floatOfInt htwo hn
  exact isFinite_combined _ hx (isFinite_floatOfInt (by omega))
    (inRange_div (canonical_ofFloat hx) hsignificand hleading)

/-! ### Sums and products -/

/-- A binary form with its leading bit so low that it can be added and multiplied in the range. -/
def Binary.Moderate (binary : Binary) : Prop :=
  binary.significand.log2 + binary.exponent ≤ 450

theorem log2_shiftLeft {n : Nat} (h : n ≠ 0) (shifts : Nat) :
    (n <<< shifts).log2 = n.log2 + shifts := by
  have hne : n <<< shifts ≠ 0 := by
    rw [Nat.shiftLeft_eq]
    exact Nat.mul_ne_zero h (Nat.two_pow_pos _).ne'
  rw [Nat.log2_eq_iff hne, Nat.shiftLeft_eq, Nat.pow_add, Nat.add_right_comm, Nat.pow_add]
  exact ⟨Nat.mul_le_mul_right _ (Nat.log2_self_le h),
    Nat.mul_lt_mul_of_pos_right Nat.lt_log2_self (Nat.two_pow_pos _)⟩

theorem inRange_round (sign : Sign) {mantissa : Nat} {exponent : Int} (hexponent : exponent ≤ 970)
    (hleading : mantissa.log2 + 1 + exponent ≤ 1023) :
    InRange (UnpackedFloat.round Format.binary64 sign mantissa exponent) := by
  unfold UnpackedFloat.round decreaseExponent
  dsimp only
  generalize (exponent - _).toNat = shifts
  refine inRange_roundWithAccuracy _ _ (by omega) ?_
  by_cases h : mantissa = 0
  · rw [h, Nat.zero_shiftLeft, Nat.log2_zero]
    omega
  · rw [log2_shiftLeft h]
    push_cast
    omega

theorem inRange_normalize {mantissa exponent : Int} (sign : Sign) (hexponent : exponent ≤ 970)
    (hleading : mantissa.natAbs.log2 + 1 + exponent ≤ 1023) :
    InRange (UnpackedFloat.normalize Format.binary64 mantissa exponent sign) := by
  unfold UnpackedFloat.normalize
  split
  · next hneg =>
    rw [Int.compare_eq_lt] at hneg
    rw [show (-mantissa).toNat = mantissa.natAbs by omega]
    exact inRange_round _ hexponent hleading
  · trivial
  · next hpos =>
    rw [Int.compare_eq_gt] at hpos
    rw [show mantissa.toNat = mantissa.natAbs by omega]
    exact inRange_round _ hexponent hleading

theorem natAbs_apply (sign : Sign) (n : Nat) : (sign.apply n).natAbs = n := by
  cases sign <;> simp [Sign.apply]

/-- A number of bits shifted to the smaller of two exponents. -/
theorem shiftLeft_lt {n : Nat} {exponent least bound : Int} (hleast : least ≤ exponent)
    (h : n.log2 + exponent ≤ bound) :
    n <<< (exponent - least).toNat < 2 ^ (bound + 1 - least).toNat := by
  calc n <<< (exponent - least).toNat = n * 2 ^ (exponent - least).toNat := Nat.shiftLeft_eq _ _
    _ < 2 ^ (n.log2 + 1) * 2 ^ (exponent - least).toNat :=
      Nat.mul_lt_mul_of_pos_right Nat.lt_log2_self (Nat.two_pow_pos _)
    _ = 2 ^ (n.log2 + 1 + (exponent - least).toNat) := (Nat.pow_add _ _ _).symm
    _ ≤ 2 ^ (bound + 1 - least).toNat := Nat.pow_le_pow_right (by decide) (by omega)

/-- The difference or sum of two numbers shifted to the smaller of their exponents. -/
theorem inRange_combined {n m : Nat} {exponent other mantissa : Int} (sign : Sign)
    (hn : n.log2 + exponent ≤ 450) (hm : m.log2 + other ≤ 450)
    (hmantissa : mantissa.natAbs ≤ n <<< (exponent - min exponent other).toNat +
      m <<< (other - min exponent other).toNat) :
    InRange (UnpackedFloat.normalize Format.binary64 mantissa (min exponent other) sign) := by
  have hfirst := shiftLeft_lt (min_le_left exponent other) hn
  have hsecond := shiftLeft_lt (min_le_right exponent other) hm
  have hlog : mantissa.natAbs.log2 ≤ (450 + 1 - min exponent other).toNat + 1 := by
    refine log2_le_of_le_two_pow ?_
    rw [Nat.pow_succ]
    omega
  exact inRange_normalize sign (by omega) (by omega)

theorem Binary.Canonical.inRange_unpacked {x : Binary} (hx : x.Canonical) : InRange x.unpacked := by
  unfold unpacked
  split
  · trivial
  · exact hx.greatest

section Operations

variable {x y : Binary}

theorem inRange_add (hx : x.Canonical) (hy : y.Canonical) (hxlow : x.Moderate)
    (hylow : y.Moderate) :
    InRange (UnpackedFloat.add Format.binary64 x.unpacked y.unpacked) := by
  have hxrange := hx.inRange_unpacked
  have hyrange := hy.inRange_unpacked
  unfold Binary.unpacked at hxrange hyrange ⊢
  by_cases hxzero : x.significand = 0 <;> by_cases hyzero : y.significand = 0 <;>
    simp only [hxzero, hyzero, dite_true, dite_false] at hxrange hyrange ⊢
  · unfold UnpackedFloat.add
    dsimp only
    split <;> trivial
  · exact hyrange
  · exact hxrange
  · refine inRange_combined (n := x.significand) (m := y.significand) _ hxlow hylow ?_
    refine (Int.natAbs_add_le _ _).trans ?_
    rw [natAbs_apply, natAbs_apply]

theorem inRange_sub (hx : x.Canonical) (hy : y.Canonical) (hxlow : x.Moderate)
    (hylow : y.Moderate) :
    InRange (UnpackedFloat.sub Format.binary64 x.unpacked y.unpacked) := by
  have hxrange := hx.inRange_unpacked
  have hyrange := hy.inRange_unpacked
  unfold Binary.unpacked at hxrange hyrange ⊢
  by_cases hxzero : x.significand = 0 <;> by_cases hyzero : y.significand = 0 <;>
    simp only [hxzero, hyzero, dite_true, dite_false] at hxrange hyrange ⊢
  · unfold UnpackedFloat.sub
    dsimp only
    split <;> trivial
  · exact hyrange
  · exact hxrange
  · refine inRange_combined (n := x.significand) (m := y.significand) _ hxlow hylow ?_
    refine (Int.natAbs_sub_le _ _).trans ?_
    rw [natAbs_apply, natAbs_apply]

theorem inRange_mul (hxlow : x.Moderate) (hylow : y.Moderate) :
    InRange (UnpackedFloat.mul Format.binary64 x.unpacked y.unpacked) := by
  unfold Binary.unpacked
  by_cases hxzero : x.significand = 0 <;> by_cases hyzero : y.significand = 0 <;>
    simp only [hxzero, hyzero, dite_true, dite_false]
  · trivial
  · trivial
  · trivial
  · unfold Binary.Moderate at hxlow hylow
    have hlog : (x.significand * y.significand).log2 ≤
        x.significand.log2 + 1 + (y.significand.log2 + 1) := by
      refine log2_le_of_le_two_pow ?_
      rw [Nat.pow_add]
      exact Nat.mul_le_mul Nat.lt_log2_self.le Nat.lt_log2_self.le
    exact inRange_roundWithAccuracy _ _ (by omega) (by omega)

theorem inRange_neg (hx : x.Canonical) : InRange x.unpacked.neg := by
  have hrange := hx.inRange_unpacked
  unfold Binary.unpacked at hrange ⊢
  by_cases hzero : x.significand = 0 <;>
    simp only [hzero, dite_true, dite_false] at hrange ⊢ <;> exact hrange

end Operations

/-- The float of an integer of 64 bits is far below the greatest float. -/
theorem moderate_floatOfInt {n : Int} (h : n.natAbs < 2 ^ 64) :
    (Binary.ofFloat (floatOfInt n)).Moderate := by
  have hsignificand := (canonical_ofFloat (isFinite_floatOfInt h)).significand_lt
  have hexponent : (Binary.ofFloat (floatOfInt n)).exponent ≤ 13 := by
    have hbits := toBits_floatOfInt h
    have hmost : nearestBits n.natAbs 1 ≤ 1087 * 2 ^ 52 := by
      rcases Nat.eq_zero_or_pos n.natAbs with hzero | hpos
      · rw [hzero]
        exact Nat.zero_le _
      · have hlog := (Nat.log2_lt hpos.ne').mpr h
        have hbound := (roundedSignificand_bounds hpos.ne').2
        rw [nearestBits_one hpos.ne']
        omega
    rw [Binary.ofFloat_eq, hbits]
    simp only [Binary.ofBits]
    split <;> split <;> omega
  have hlog := log2_le_of_le_two_pow hsignificand.le
  unfold Binary.Moderate
  omega

theorem isFinite_neg {x : Float} (hx : x.isFinite = true) : (-x).isFinite = true := by
  have hrange := isFinite_pack (inRange_neg (canonical_ofFloat hx))
  rw [← unpack_of_isFinite hx] at hrange
  exact hrange

theorem isFinite_add_floatOfInt {a b : Int} (ha : a.natAbs < 2 ^ 64) (hb : b.natAbs < 2 ^ 64) :
    (floatOfInt a + floatOfInt b).isFinite = true :=
  have hx := isFinite_floatOfInt ha
  have hy := isFinite_floatOfInt hb
  isFinite_combined _ hx hy (inRange_add (canonical_ofFloat hx) (canonical_ofFloat hy)
    (moderate_floatOfInt ha) (moderate_floatOfInt hb))

theorem isFinite_sub_floatOfInt {a b : Int} (ha : a.natAbs < 2 ^ 64) (hb : b.natAbs < 2 ^ 64) :
    (floatOfInt a - floatOfInt b).isFinite = true :=
  have hx := isFinite_floatOfInt ha
  have hy := isFinite_floatOfInt hb
  isFinite_combined _ hx hy (inRange_sub (canonical_ofFloat hx) (canonical_ofFloat hy)
    (moderate_floatOfInt ha) (moderate_floatOfInt hb))

theorem isFinite_mul_floatOfInt {a b : Int} (ha : a.natAbs < 2 ^ 64) (hb : b.natAbs < 2 ^ 64) :
    (floatOfInt a * floatOfInt b).isFinite = true :=
  isFinite_combined _ (isFinite_floatOfInt ha) (isFinite_floatOfInt hb)
    (inRange_mul (moderate_floatOfInt ha) (moderate_floatOfInt hb))

/-! ### Equality -/

theorem beq_iff_ordinal {x y : Float} (hx : x.isFinite = true) (hy : y.isFinite = true) :
    (x == y) = true ↔ ordinal x = ordinal y := by
  have hcompare := (canonical_ofFloat hx).compare_unpacked (canonical_ofFloat hy)
  rw [← unpack_of_isFinite hx, ← unpack_of_isFinite hy] at hcompare
  change x.toModel.beq y.toModel = true ↔ _
  rw [Float.Model.beq, UnpackedFloat.beq, hcompare, ordinal, ordinal, ← Int.compare_eq_eq]
  simp

/-- Only zero is rounded to zero. -/
theorem floatOfInt_beq_zero {n : Int} (hne : n ≠ 0) (hn : n.natAbs < 2 ^ 64) :
    (floatOfInt n == 0.0) = false := by
  have hzero : (0.0 : Float).isFinite = true := by decide
  have hordinal : ordinal 0.0 = 0 := by decide
  rw [← Bool.not_eq_true, beq_iff_ordinal (isFinite_floatOfInt hn) hzero, hordinal]
  exact fun heq => hne (ordinal_floatOfInt_eq_zero hn heq)

end StreamQuery.Number
