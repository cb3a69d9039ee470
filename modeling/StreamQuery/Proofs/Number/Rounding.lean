import Mathlib.Algebra.Order.Group.Nat
import Mathlib.Tactic.Ring
import StreamQuery.Proofs.Number.Bits

/-!
# Integers as floats

The float nearest to an integer of 64 bits is finite, and rounding keeps the order: a greater integer
never becomes a smaller float. Different integers may become the same float.
-/

namespace StreamQuery.Number

/-! ### Rounded quotients -/

theorem le_roundedQuotient (num den : Nat) : num / den ≤ roundedQuotient num den := by
  unfold roundedQuotient
  dsimp only
  split <;> omega

theorem roundedQuotient_le (num den : Nat) : roundedQuotient num den ≤ num / den + 1 := by
  unfold roundedQuotient
  dsimp only
  split <;> omega

theorem roundedQuotient_mono {num other : Nat} (den : Nat) (h : num ≤ other) :
    roundedQuotient num den ≤ roundedQuotient other den := by
  rcases Nat.lt_or_eq_of_le (Nat.div_le_div_right (c := den) h) with hlt | heq
  · exact (roundedQuotient_le num den).trans
      ((Nat.succ_le_of_lt hlt).trans (le_roundedQuotient other den))
  · -- Of two numbers with one quotient the greater one has the greater remainder.
    have hnum := Nat.div_add_mod num den
    have hother := Nat.div_add_mod other den
    have hmod : num % den ≤ other % den := by
      rw [heq] at hnum
      omega
    unfold roundedQuotient
    dsimp only
    rw [heq]
    grind

theorem roundedQuotient_bounds {num den : Nat} {low high : Nat} (hlow : low * den ≤ num)
    (hhigh : num < high * den) : low ≤ roundedQuotient num den ∧ roundedQuotient num den ≤ high := by
  have hden : 0 < den := Nat.pos_of_ne_zero fun h => by simp [h] at hhigh
  have hlowest := (Nat.le_div_iff_mul_le hden).mpr hlow
  have hhighest := (Nat.div_lt_iff_lt_mul hden).mpr hhigh
  exact ⟨hlowest.trans (le_roundedQuotient num den), (roundedQuotient_le num den).trans hhighest⟩

/-! ### The bits of an integer -/

/-- The significand of the float nearest to a positive integer. -/
def roundedSignificand (n : Nat) : Nat :=
  roundedQuotient (n * 2 ^ (52 - n.log2)) (2 ^ (n.log2 - 52))

theorem roundedSignificand_bounds {n : Nat} (h : n ≠ 0) :
    2 ^ 52 ≤ roundedSignificand n ∧ roundedSignificand n ≤ 2 ^ 53 := by
  have hlow := Nat.log2_self_le h
  have hhigh := Nat.lt_log2_self (n := n)
  apply roundedQuotient_bounds
  · calc 2 ^ 52 * 2 ^ (n.log2 - 52) = 2 ^ n.log2 * 2 ^ (52 - n.log2) := by
          rw [← Nat.pow_add, ← Nat.pow_add]
          congr 1
          omega
      _ ≤ n * 2 ^ (52 - n.log2) := Nat.mul_le_mul_right _ hlow
  · calc n * 2 ^ (52 - n.log2) < 2 ^ (n.log2 + 1) * 2 ^ (52 - n.log2) :=
          Nat.mul_lt_mul_of_pos_right hhigh (Nat.two_pow_pos _)
      _ = 2 ^ 53 * 2 ^ (n.log2 - 52) := by
          rw [← Nat.pow_add, ← Nat.pow_add]
          congr 1
          omega

theorem scaled_eq (num den : Nat) (exponent : Int) :
    (if exponent < 0 then (num * 2 ^ (-exponent).toNat, den)
      else (num, den * 2 ^ exponent.toNat)) =
      (num * 2 ^ (-exponent).toNat, den * 2 ^ exponent.toNat) := by
  split
  · rw [Int.toNat_of_nonpos (by omega : exponent ≤ 0), Nat.pow_zero, Nat.mul_one]
  · rw [Int.toNat_of_nonpos (by omega : -exponent ≤ 0), Nat.pow_zero, Nat.mul_one]

/-- The bits of the float nearest to a positive integer, before they are limited. -/
theorem nearestBits_one {n : Nat} (h : n ≠ 0) :
    nearestBits n 1 = min (roundedSignificand n + (n.log2 + 1022) * 2 ^ 52) infinityBits := by
  have hlow := Nat.log2_self_le h
  have hnonzero : (n == 0) = false := beq_false_of_ne h
  have hone : Nat.log2 1 = 0 := by decide
  have hfull : 2 ^ 53 ≤ n * 2 ^ (53 - n.log2) / (1 * 2 ^ (n.log2 - 53)) := by
    rw [Nat.one_mul, Nat.le_div_iff_mul_le (Nat.two_pow_pos _)]
    calc 2 ^ 53 * 2 ^ (n.log2 - 53) = 2 ^ n.log2 * 2 ^ (53 - n.log2) := by
          rw [← Nat.pow_add, ← Nat.pow_add]
          congr 1
          omega
      _ ≤ n * 2 ^ (53 - n.log2) := Nat.mul_le_mul_right _ hlow
  have hguess : ((n.log2 : Int) - ((0 : Nat) : Int) - 53).toNat = n.log2 - 53 := by omega
  have hnegated : (-((n.log2 : Int) - ((0 : Nat) : Int) - 53)).toNat = 53 - n.log2 := by omega
  have hexponent : max ((n.log2 : Int) - ((0 : Nat) : Int) - 53 + 1) (-1074) = n.log2 - 52 := by
    omega
  have hplace : ((n.log2 : Int) - 52 + 1074).toNat = n.log2 + 1022 := by omega
  have hup : (-((n.log2 : Int) - 52)).toNat = 52 - n.log2 := by omega
  have hdown : ((n.log2 : Int) - 52).toNat = n.log2 - 52 := by omega
  simp only [nearestBits, hnonzero, Bool.false_eq_true, if_false, hone, Nat.pow_eq, scaled_eq,
    ge_iff_le]
  rw [hguess, hnegated, if_pos hfull, hexponent, hplace, hup, hdown, Nat.one_mul,
    roundedSignificand]

theorem nearestBits_one_lt {n : Nat} (hlt : n < 2 ^ 64) : nearestBits n 1 < infinityBits := by
  have hinfinity : infinityBits = 2047 * 2 ^ 52 := rfl
  rcases Nat.eq_zero_or_pos n with rfl | hpos
  · exact Nat.two_pow_pos 52 |>.trans_le (by decide)
  · have hne := Nat.ne_of_gt hpos
    have hlog := (Nat.log2_lt hne).mpr hlt
    have hbound := (roundedSignificand_bounds hne).2
    rw [nearestBits_one hne, hinfinity]
    omega

/-- Rounding keeps the order of the positive integers. -/
theorem nearestBits_one_mono {n m : Nat} (h : n ≤ m) : nearestBits n 1 ≤ nearestBits m 1 := by
  rcases Nat.eq_zero_or_pos n with rfl | hpos
  · exact Nat.zero_le _
  · have hn := Nat.ne_of_gt hpos
    have hm := Nat.ne_of_gt (hpos.trans_le h)
    rw [nearestBits_one hn, nearestBits_one hm]
    refine min_le_min_right _ ?_
    rcases Nat.lt_or_ge n.log2 m.log2 with hlt | hge
    · -- The significand of `n` is at most twice the least one, which `m` makes up in the exponent.
      have hnbound := (roundedSignificand_bounds hn).2
      have hmbound := (roundedSignificand_bounds hm).1
      calc roundedSignificand n + (n.log2 + 1022) * 2 ^ 52
          ≤ 2 ^ 53 + (n.log2 + 1022) * 2 ^ 52 := Nat.add_le_add_right hnbound _
        _ = 2 ^ 52 + (n.log2 + 1 + 1022) * 2 ^ 52 := by ring
        _ ≤ roundedSignificand m + (m.log2 + 1022) * 2 ^ 52 :=
          Nat.add_le_add hmbound (Nat.mul_le_mul_right _ (Nat.add_le_add_right hlt _))
    · have hlog : n.log2 = m.log2 := by
        refine Nat.le_antisymm ((Nat.le_log2 hm).mpr ((Nat.log2_self_le hn).trans h)) hge
      rw [roundedSignificand, roundedSignificand, hlog]
      exact Nat.add_le_add_right (roundedQuotient_mono _ (Nat.mul_le_mul_right _ h)) _

/-! ### The float of an integer -/

/-- The bits of the float nearest to an integer. -/
theorem toBits_floatOfInt {n : Int} (h : n.natAbs < 2 ^ 64) :
    (floatOfInt n).toBits.toNat = nearestBits n.natAbs 1 + if n < 0 then 2 ^ 63 else 0 := by
  have hinfinity : infinityBits = 2047 * 2 ^ 52 := rfl
  have hbits := nearestBits_one_lt h
  rw [floatOfInt, nearest]
  simp only [decide_eq_true_eq, Nat.pow_eq]
  apply toBits_ofBits <;> split <;> omega

example : (floatOfInt (2 ^ 53 + 1)).toBits = (floatOfInt (2 ^ 53)).toBits := by decide +kernel

theorem isFinite_floatOfInt {n : Int} (h : n.natAbs < 2 ^ 64) : (floatOfInt n).isFinite = true := by
  have hinfinity : infinityBits = 2047 * 2 ^ 52 := rfl
  have hbits := nearestBits_one_lt h
  rw [isFinite_iff, toBits_floatOfInt h]
  split <;> omega

theorem ordinal_floatOfInt {n : Int} (h : n.natAbs < 2 ^ 64) :
    ordinal (floatOfInt n) =
      if n < 0 then -(nearestBits n.natAbs 1 : Int) else nearestBits n.natAbs 1 := by
  have hinfinity : infinityBits = 2047 * 2 ^ 52 := rfl
  have hbits := nearestBits_one_lt h
  rw [ordinal_eq, toBits_floatOfInt h]
  by_cases hneg : n < 0
  · rw [if_pos hneg, if_pos (by omega), if_pos hneg]
    omega
  · rw [if_neg hneg, if_neg (by omega), if_neg hneg]
    omega

/-- Only zero has the place of the zeros. -/
theorem ordinal_floatOfInt_eq_zero {n : Int} (h : n.natAbs < 2 ^ 64)
    (hzero : ordinal (floatOfInt n) = 0) : n = 0 := by
  by_contra hne
  have hinfinity : infinityBits = 2047 * 2 ^ 52 := rfl
  have habs : n.natAbs ≠ 0 := by omega
  have hlow := (roundedSignificand_bounds habs).1
  rw [ordinal_floatOfInt h, nearestBits_one habs, hinfinity] at hzero
  split at hzero <;> omega

/-- Rounding keeps the order of the integers. -/
theorem ordinal_floatOfInt_mono {n m : Int} (hn : n.natAbs < 2 ^ 64) (hm : m.natAbs < 2 ^ 64)
    (h : n ≤ m) : ordinal (floatOfInt n) ≤ ordinal (floatOfInt m) := by
  rw [ordinal_floatOfInt hn, ordinal_floatOfInt hm]
  split
  · split
    · have := nearestBits_one_mono (by omega : m.natAbs ≤ n.natAbs)
      omega
    · omega
  · rw [if_neg (by omega)]
    exact Int.ofNat_le.mpr (nearestBits_one_mono (by omega))

end StreamQuery.Number
