import Mathlib
import StreamQuery.Value.Order

/-!
# Floats by their bits

The bits of a float are a sign, and below it a number that grows with the size of the float. So the
finite floats are ordered like integers: by their bits without the sign, counted downwards where the
sign is minus. Both zeros count zero.
-/

namespace StreamQuery.Number

open Float.Model Float.Model.UnpackedFloat

/-- The binary form of the float with the given bits. -/
def Binary.ofBits (bits : Nat) : Binary :=
  { negative := bits / 2 ^ 63 == 1
    significand := bits % 2 ^ 52 + if bits / 2 ^ 52 % 2048 = 0 then 0 else 2 ^ 52
    exponent :=
      if bits / 2 ^ 52 % 2048 = 0 then -1074 else ((bits / 2 ^ 52 % 2048 : Nat) : Int) - 1075 }

theorem Binary.ofFloat_eq (x : Float) : Binary.ofFloat x = .ofBits x.toBits.toNat := by
  simp only [Binary.ofFloat, Binary.ofBits, Nat.pow_eq, beq_iff_eq]
  split <;> rfl

/-- The sign of a binary form. -/
def Binary.sign (binary : Binary) : Sign :=
  if binary.negative then .negative else .positive

theorem Binary.toNat_sign (binary : Binary) :
    binary.sign.toBitVec.toNat = if binary.negative then 1 else 0 := by
  cases h : binary.negative <;> simp [Binary.sign, h, Sign.toBitVec]

/-- What a binary form means. -/
def Binary.unpacked (binary : Binary) : UnpackedFloat :=
  if h : binary.significand = 0 then .zero binary.sign
  else .finite binary.sign binary.significand binary.exponent (Nat.pos_of_ne_zero h)

/-! ### Unpacking and packing -/

theorem toNat_unpackMantissa (b : BitVec 64) :
    (@unpackMantissa Format.binary64 b).toNat = b.toNat % 2 ^ 52 := by
  simp [unpackMantissa, BitVec.extractLsb, BitVec.extractLsb']

theorem toNat_unpackExponent (b : BitVec 64) :
    (@unpackExponent Format.binary64 b).toNat = b.toNat / 2 ^ 52 % 2048 := by
  simp [unpackExponent, BitVec.extractLsb, BitVec.extractLsb', Nat.shiftRight_eq_div_pow]

theorem toNat_unpackSign (b : BitVec 64) :
    (@unpackSign Format.binary64 b).toNat = b.toNat / 2 ^ 63 := by
  simp [unpackSign, BitVec.extractLsb, BitVec.extractLsb', Nat.shiftRight_eq_div_pow]
  have := b.isLt
  omega

theorem ofBitVec_eq (v : BitVec 1) :
    Sign.ofBitVec v = if v.toNat = 1 then .negative else .positive := by
  have hlt : v.toNat < 2 := v.isLt
  rw [Sign.ofBitVec]
  by_cases h : v = 0#1
  · rw [if_pos h, h]
    rfl
  · have hne : v.toNat ≠ 0 := fun h0 => h (BitVec.eq_of_toNat_eq h0)
    rw [if_neg h, if_pos (by omega)]

/-- What bits mean: infinity or no number with the greatest exponent, else a binary form. -/
def unpacked (bits : Nat) : UnpackedFloat :=
  if bits / 2 ^ 52 % 2048 = 2047 then
    if bits % 2 ^ 52 = 0 then .infinity (Binary.ofBits bits).sign else .notANumber
  else (Binary.ofBits bits).unpacked

theorem unpack_eq (b : BitVec 64) : UnpackedFloat.unpack Format.binary64 b = unpacked b.toNat := by
  have hm := toNat_unpackMantissa b
  have he := toNat_unpackExponent b
  have hzero : (@unpackMantissa Format.binary64 b = 0#_) ↔
      b.toNat % 2 ^ 52 = 0 := by rw [← BitVec.toNat_inj, hm]; rfl
  have hleast : (@unpackExponent Format.binary64 b = 0#_) ↔
      b.toNat / 2 ^ 52 % 2048 = 0 := by rw [← BitVec.toNat_inj, he]; rfl
  have hgreatest : (@unpackExponent Format.binary64 b = -1#_) ↔
      b.toNat / 2 ^ 52 % 2048 = 2047 := by rw [← BitVec.toNat_inj, he]; rfl
  have hsign : Sign.ofBitVec (@unpackSign Format.binary64 b) =
      (Binary.ofBits b.toNat).sign := by
    simp only [ofBitVec_eq, toNat_unpackSign, Binary.sign, Binary.ofBits, beq_iff_eq]
  have hnormal : (1#1 ++ @unpackMantissa Format.binary64 b).toNat =
      b.toNat % 2 ^ 52 + 2 ^ 52 := by
    have hlt : b.toNat % 2 ^ 52 < 2 ^ 52 := Nat.mod_lt _ (by decide)
    rw [BitVec.toNat_append, hm, Nat.shiftLeft_eq, Nat.mul_comm]
    exact (Nat.two_pow_add_eq_or_of_lt hlt _).symm.trans (Nat.add_comm _ _)
  simp only [UnpackedFloat.unpack, unpacked, Binary.unpacked, hsign]
  by_cases hlast : b.toNat / 2 ^ 52 % 2048 = 2047
  · rw [if_pos (hgreatest.mpr hlast), if_pos hlast]
    by_cases hmantissa : b.toNat % 2 ^ 52 = 0
    · rw [if_pos (hzero.mpr hmantissa), if_pos hmantissa]
    · rw [if_neg (mt hzero.mp hmantissa), if_neg hmantissa]
  · rw [if_neg (mt hgreatest.mp hlast), if_neg hlast]
    by_cases hfirst : b.toNat / 2 ^ 52 % 2048 = 0
    · rw [if_pos (hleast.mpr hfirst)]
      simp only [Binary.ofBits, hfirst, if_true, Nat.add_zero]
      by_cases hmantissa : b.toNat % 2 ^ 52 = 0
      · rw [dif_pos (hzero.mpr hmantissa), dif_pos hmantissa]
      · rw [dif_neg (mt hzero.mp hmantissa), dif_neg hmantissa]
        congr 1
        rw [he, hfirst]
        rfl
    · have hpositive : (Binary.ofBits b.toNat).significand ≠ 0 := by
        simp only [Binary.ofBits, if_neg hfirst]
        exact Nat.ne_of_gt (Nat.lt_add_left _ (by decide))
      rw [if_neg (mt hleast.mp hfirst), dif_neg hpositive]
      simp only [Binary.ofBits, hfirst, if_false]
      congr 1
      rw [he]
      rfl

theorem toNat_packComponents (sign : Sign) (exponent : BitVec 11) (mantissa : BitVec 52) :
    (packComponents Format.binary64 sign exponent mantissa).toNat =
      sign.toBitVec.toNat * 2 ^ 63 + exponent.toNat * 2 ^ 52 + mantissa.toNat := by
  have hm := mantissa.isLt
  have he := exponent.isLt
  change (sign.toBitVec ++ exponent ++ mantissa).toNat = _
  rw [BitVec.toNat_append, BitVec.toNat_append, Nat.shiftLeft_eq, Nat.shiftLeft_eq, Nat.mul_comm,
    Nat.mul_comm sign.toBitVec.toNat, ← Nat.two_pow_add_eq_or_of_lt he,
    ← Nat.two_pow_add_eq_or_of_lt hm]
  omega

theorem toNat_sign_ofBits {bits : Nat} (hlt : bits < 2 ^ 64) :
    (Binary.ofBits bits).sign.toBitVec.toNat = bits / 2 ^ 63 := by
  rw [Binary.toNat_sign]
  simp only [Binary.ofBits, beq_iff_eq]
  split <;> omega

/-- A number is packed without its leading bit exactly if it was unpacked with one. -/
theorem mantissaBits_iff {bits : Nat} (h : (Binary.ofBits bits).significand ≠ 0) :
    (Binary.ofBits bits).significand.log2 + 1 = Format.binary64.mantissaBits ↔
      bits / 2 ^ 52 % 2048 ≠ 0 := by
  change _ = 53 ↔ _
  have hlog := Nat.le_log2 (k := 52) h
  have hless := Nat.log2_lt (k := 53) h
  have hvalue : (Binary.ofBits bits).significand =
    bits % 2 ^ 52 + if bits / 2 ^ 52 % 2048 = 0 then 0 else 2 ^ 52 := rfl
  split at hvalue <;> omega

/-- Bits that are a number or infinity are packed from what they mean. -/
theorem toNat_pack {bits : Nat} (hlt : bits < 2 ^ 64) (hnumber : bits % 2 ^ 63 ≤ infinityBits) :
    (UnpackedFloat.pack Format.binary64 (unpacked bits)).toNat = bits := by
  have hinfinity : infinityBits = 2047 * 2 ^ 52 := rfl
  rw [hinfinity] at hnumber
  have hsign := toNat_sign_ofBits hlt
  unfold unpacked
  -- Infinity, zero, or a number with or without a leading bit that is not packed.
  split
  case isTrue hgreatest =>
    have hmantissa : bits % 2 ^ 52 = 0 := by omega
    rw [if_pos hmantissa]
    change (packComponents Format.binary64 (Binary.ofBits bits).sign (-1#_) 0).toNat = _
    rw [toNat_packComponents, hsign]
    change bits / 2 ^ 63 * 2 ^ 63 + 2047 * 2 ^ 52 + 0 = bits
    omega
  case isFalse =>
    unfold Binary.unpacked
    split
    case isTrue hzero =>
      simp only [Binary.ofBits] at hzero
      change (packComponents Format.binary64 (Binary.ofBits bits).sign 0 0).toNat = _
      rw [toNat_packComponents, hsign]
      change bits / 2 ^ 63 * 2 ^ 63 + 0 * 2 ^ 52 + 0 = bits
      split at hzero <;> omega
    case isFalse hpositive =>
      have hexponent : ((Binary.ofBits bits).exponent + 1023 + 52).toNat =
          if bits / 2 ^ 52 % 2048 = 0 then 1 else bits / 2 ^ 52 % 2048 := by
        simp only [Binary.ofBits]
        split <;> omega
      have hrange : ¬ 2 ^ Format.binary64.exponentBits ≤ ((Binary.ofBits bits).exponent +
          Format.binary64.exponentBias + Format.binary64.mantissaBitsWithoutImplicit).toNat + 1 := by
        change ¬ 2048 ≤ ((Binary.ofBits bits).exponent + 1023 + 52).toNat + 1
        rw [hexponent]
        split <;> omega
      have hnormal := mantissaBits_iff hpositive
      simp only [UnpackedFloat.pack, if_neg hrange]
      split
      case isTrue hleading =>
        have hfield := hnormal.mp hleading
        rw [toNat_packComponents, hsign, BitVec.toNat_ofNat, BitVec.toNat_ofNat]
        change bits / 2 ^ 63 * 2 ^ 63 +
          ((Binary.ofBits bits).exponent + 1023 + 52).toNat % 2048 * 2 ^ 52 +
          (Binary.ofBits bits).significand % 2 ^ 52 = bits
        rw [hexponent]
        simp only [Binary.ofBits, if_neg hfield]
        omega
      case isFalse hleading =>
        have hfield : bits / 2 ^ 52 % 2048 = 0 := not_not.mp (mt hnormal.mpr hleading)
        rw [toNat_packComponents, hsign, BitVec.toNat_ofNat]
        change bits / 2 ^ 63 * 2 ^ 63 + 0 * 2 ^ 52 +
          (Binary.ofBits bits).significand % 2 ^ 52 = bits
        simp only [Binary.ofBits, if_pos hfield]
        omega

/-- A float keeps bits that are a number or infinity. -/
theorem toBits_ofBits {bits : Nat} (hlt : bits < 2 ^ 64)
    (hnumber : bits % 2 ^ 63 ≤ infinityBits) :
    (Float.ofBits (UInt64.ofNat bits)).toBits.toNat = bits := by
  have hbits : (UInt64.ofNat bits).toNat = bits := UInt64.toNat_ofNat_of_lt' hlt
  change (UnpackedFloat.pack Format.binary64
    (UnpackedFloat.unpack Format.binary64 (UInt64.ofNat bits).toBitVec)).toNat = bits
  rw [unpack_eq]
  change (UnpackedFloat.pack Format.binary64 (unpacked (UInt64.ofNat bits).toNat)).toNat = bits
  rw [hbits, toNat_pack hlt hnumber]

theorem eq_of_toBits {x y : Float} (h : x.toBits.toNat = y.toBits.toNat) : x = y := by
  obtain ⟨⟨xbits, hx⟩⟩ := x
  obtain ⟨⟨ybits, hy⟩⟩ := y
  obtain rfl : xbits = ybits := UInt64.toNat_inj.mp h
  rfl

/-! ### Magnitudes -/

/-- What the binary form of a finite float obeys. -/
structure Binary.Canonical (binary : Binary) : Prop where
  significand_lt : binary.significand < 2 ^ 53
  least : -1074 ≤ binary.exponent
  greatest : binary.exponent ≤ 971
  normal : -1074 < binary.exponent → 2 ^ 52 ≤ binary.significand

/-- The bits of a binary form without its sign. -/
def Binary.magnitude (binary : Binary) : Nat :=
  binary.significand + (binary.exponent + 1074).toNat * 2 ^ 52

theorem Binary.canonical_ofBits {bits : Nat} (hlt : bits % 2 ^ 63 < infinityBits) :
    (Binary.ofBits bits).Canonical := by
  have hinfinity : infinityBits = 2047 * 2 ^ 52 := rfl
  rw [hinfinity] at hlt
  constructor <;> simp only [ofBits] <;> split <;> omega

theorem Binary.magnitude_ofBits (bits : Nat) : (Binary.ofBits bits).magnitude = bits % 2 ^ 63 := by
  simp only [Binary.magnitude, Binary.ofBits]
  split
  · simp
    omega
  · next h =>
    have hexponent : (((bits / 2 ^ 52 % 2048 : Nat) : Int) - 1075 + 1074).toNat =
      bits / 2 ^ 52 % 2048 - 1 := by omega
    rw [hexponent]
    omega

/-- Binary forms of one sign are ordered by their exponents, then by their significands: like their
bits. -/
theorem Binary.Canonical.compare_then {x y : Binary} (hx : x.Canonical) (hy : y.Canonical) :
    (compare x.exponent y.exponent).then (compare x.significand y.significand) =
      compare x.magnitude y.magnitude := by
  have hxlt := hx.significand_lt
  have hylt := hy.significand_lt
  have hxleast := hx.least
  have hyleast := hy.least
  rcases lt_trichotomy x.exponent y.exponent with h | h | h
  · have hnormal := hy.normal (by omega)
    have hlt : x.magnitude < y.magnitude := by
      have hexponent : (x.exponent + 1074).toNat + 1 ≤ (y.exponent + 1074).toNat := by omega
      have hscaled := Nat.mul_le_mul_right (2 ^ 52) hexponent
      simp only [magnitude]
      omega
    rw [Int.compare_eq_lt.mpr h, Nat.compare_eq_lt.mpr hlt, Ordering.lt_then]
  · rw [Int.compare_eq_eq.mpr h, Ordering.eq_then, magnitude, magnitude, h, Nat.compare_eq_ite_lt,
      Nat.compare_eq_ite_lt]
    simp
  · have hnormal := hx.normal (by omega)
    have hlt : y.magnitude < x.magnitude := by
      have hexponent : (y.exponent + 1074).toNat + 1 ≤ (x.exponent + 1074).toNat := by omega
      have hscaled := Nat.mul_le_mul_right (2 ^ 52) hexponent
      simp only [magnitude]
      omega
    rw [Int.compare_eq_gt.mpr h, Nat.compare_eq_gt.mpr hlt, Ordering.gt_then]

/-- Floats of one sign and one magnitude are the same. -/
theorem eq_of_magnitude {x y : Float}
    (hsign : (Binary.ofFloat x).negative = (Binary.ofFloat y).negative)
    (h : (Binary.ofFloat x).magnitude = (Binary.ofFloat y).magnitude) : x = y := by
  have hx := x.toBits.toNat_lt
  have hy := y.toBits.toNat_lt
  rw [Binary.ofFloat_eq, Binary.ofFloat_eq, Binary.magnitude_ofBits, Binary.magnitude_ofBits] at h
  rw [Binary.ofFloat_eq, Binary.ofFloat_eq, Binary.ofBits, Binary.ofBits] at hsign
  simp only [Bool.beq_eq_decide_eq, decide_eq_decide] at hsign
  apply eq_of_toBits
  omega

theorem isFinite_iff (x : Float) : x.isFinite = true ↔ x.toBits.toNat % 2 ^ 63 < infinityBits := by
  have hinfinity : infinityBits = 2047 * 2 ^ 52 := rfl
  change (UnpackedFloat.unpack Format.binary64 x.toBits.toBitVec).isFinite = true ↔ _
  rw [unpack_eq]
  change (unpacked x.toBits.toNat).isFinite = true ↔ _
  generalize x.toBits.toNat = bits
  unfold unpacked
  split
  · have hinfinite : ¬ bits % 2 ^ 63 < 2047 * 2 ^ 52 := by omega
    split <;> simp [UnpackedFloat.isFinite, hinfinity] <;> omega
  · have hfinite : bits % 2 ^ 63 < 2047 * 2 ^ 52 := by omega
    unfold Binary.unpacked
    split <;> simp [UnpackedFloat.isFinite, hinfinity] <;> omega

/-! ### The order of finite floats -/

theorem canonical_ofFloat {x : Float} (h : x.isFinite = true) :
    (Binary.ofFloat x).Canonical := by
  rw [Binary.ofFloat_eq]
  exact Binary.canonical_ofBits ((isFinite_iff x).mp h)

namespace Binary

/-- The place of a binary form among the binary forms. -/
def ordinal (binary : Binary) : Int :=
  if binary.negative then -binary.magnitude else binary.magnitude

variable {x y : Binary}

theorem Canonical.magnitude_eq_zero (h : x.Canonical) (hzero : x.significand = 0) :
    x.magnitude = 0 := by
  have hleast : x.exponent = -1074 := by
    by_contra hne
    have := h.normal (lt_of_le_of_ne h.least (Ne.symm hne))
    omega
  rw [magnitude, hzero, hleast]
  rfl

theorem magnitude_pos (h : x.significand ≠ 0) : 0 < x.magnitude :=
  Nat.lt_of_lt_of_le (Nat.pos_of_ne_zero h) (Nat.le_add_right _ _)

theorem Canonical.compare_unpacked (hx : x.Canonical) (hy : y.Canonical) :
    x.unpacked.compare y.unpacked = some (compare x.ordinal y.ordinal) := by
  have horder := hx.compare_then hy
  have hxzero := hx.magnitude_eq_zero
  have hyzero := hy.magnitude_eq_zero
  have hxpos := magnitude_pos (x := x)
  have hypos := magnitude_pos (x := y)
  unfold unpacked ordinal sign
  by_cases hxs : x.significand = 0 <;> by_cases hys : y.significand = 0 <;>
    cases x.negative <;> cases y.negative <;>
    simp only [hxs, hys, UnpackedFloat.compare, horder, dite_true, dite_false, if_true,
      Bool.false_eq_true, if_false, Option.some.injEq, Nat.compare_swap]
  all_goals
    simp only [Nat.compare_eq_ite_lt, Int.compare_eq_ite_lt]
    repeat' split
  all_goals first
    | rfl
    | omega

end Binary

theorem unpack_of_isFinite {x : Float} (h : x.isFinite = true) :
    x.toModel.unpack = (Binary.ofFloat x).unpacked := by
  have hinfinity : infinityBits = 2047 * 2 ^ 52 := rfl
  have hlt := (isFinite_iff x).mp h
  rw [hinfinity] at hlt
  change UnpackedFloat.unpack Format.binary64 x.toBits.toBitVec = _
  rw [unpack_eq]
  change unpacked x.toBits.toNat = _
  rw [unpacked, if_neg (by omega), Binary.ofFloat_eq]

/-- The place of a float among the finite floats. -/
def ordinal (x : Float) : Int :=
  (Binary.ofFloat x).ordinal

theorem ordinal_eq (x : Float) :
    ordinal x =
      if x.toBits.toNat / 2 ^ 63 = 1 then -((x.toBits.toNat % 2 ^ 63 : Nat) : Int)
      else (x.toBits.toNat % 2 ^ 63 : Nat) := by
  rw [ordinal, Binary.ofFloat_eq, Binary.ordinal, Binary.magnitude_ofBits, Binary.ofBits]
  simp only [beq_iff_eq]

/-- A place other than that of the zeros has one float only. -/
theorem eq_of_ordinal {x y : Float} (h : ordinal x = ordinal y) (hzero : ordinal x ≠ 0) :
    x = y := by
  have hx := x.toBits.toNat_lt
  have hy := y.toBits.toNat_lt
  rw [ordinal_eq] at h hzero
  rw [ordinal_eq] at h
  apply eq_of_toBits
  split at h <;> split at h <;> omega

theorem lt_iff_ordinal {x y : Float} (hx : x.isFinite = true) (hy : y.isFinite = true) :
    x < y ↔ ordinal x < ordinal y := by
  have hcompare := (canonical_ofFloat hx).compare_unpacked (canonical_ofFloat hy)
  rw [← unpack_of_isFinite hx, ← unpack_of_isFinite hy] at hcompare
  change decide (x.toModel.lt y.toModel = true) = true ↔ _
  rw [decide_eq_true_iff, Float.Model.lt, UnpackedFloat.lt, hcompare, ordinal, ordinal,
    ← Int.compare_eq_lt]
  simp

/-- Finite floats are ordered by their places. -/
theorem floatOrder_eq {x y : Float} (hx : x.isFinite = true) (hy : y.isFinite = true) :
    Value.floatOrder x y = compare (ordinal x) (ordinal y) := by
  rw [Value.floatOrder, Int.compare_eq_ite_lt]
  simp only [lt_iff_ordinal hx hy, gt_iff_lt, lt_iff_ordinal hy hx]

end StreamQuery.Number
