import Mathlib.Algebra.Order.Field.Power
import Mathlib.Tactic.LinearCombination
import Mathlib.Tactic.Positivity
import Mathlib.Tactic.Ring
import StreamQuery.Number.Shortest
import StreamQuery.Proofs.Number.Bits

/-!
# Rounding intervals

The positive reals that round to a float form an interval, and those of different floats are
disjoint. The shortest decimal of a float lies in its interval, so no other float has it.
-/

namespace StreamQuery.Number

/-- The number that a decimal is. -/
def Decimal.value (decimal : Decimal) : ℚ :=
  decimal.digits * 10 ^ decimal.exponent

namespace RoundingInterval

variable {interval : RoundingInterval} {exponent : Int} {point : Nat}

/-- Whether a number lies between the ends of an interval, or at one of them if they belong to it. -/
def Contains (interval : RoundingInterval) (value : ℚ) : Prop :=
  if interval.closed then
    interval.low * 2 ^ interval.exponent ≤ value ∧ value ≤ interval.high * 2 ^ interval.exponent
  else
    interval.low * 2 ^ interval.exponent < value ∧ value < interval.high * 2 ^ interval.exponent

/-- What the ends of an interval are multiplied by to be compared with grid points. -/
def unit (interval : RoundingInterval) (exponent : Int) : Nat :=
  2 ^ interval.exponent.toNat * 10 ^ (-exponent).toNat

/-- What grid points are multiplied by to be compared with the ends of an interval. -/
def step (interval : RoundingInterval) (exponent : Int) : Nat :=
  2 ^ (-interval.exponent).toNat * 10 ^ exponent.toNat

/-- Whether a grid point lies in an interval. -/
def inside (interval : RoundingInterval) (exponent : Int) (point : Nat) : Bool :=
  if interval.closed then
    interval.low * interval.unit exponent ≤ point * interval.step exponent &&
      point * interval.step exponent ≤ interval.high * interval.unit exponent
  else
    interval.low * interval.unit exponent < point * interval.step exponent &&
      point * interval.step exponent < interval.high * interval.unit exponent

theorem gridPoint?_eq (interval : RoundingInterval) (exponent : Int) :
    interval.gridPoint? exponent =
      let middle := interval.middle * interval.unit exponent
      let below := middle / interval.step exponent
      let above := below + 1
      match interval.inside exponent below, interval.inside exponent above with
      | true, true =>
        let toBelow := middle - below * interval.step exponent
        let toAbove := above * interval.step exponent - middle
        some (if toBelow < toAbove || (toBelow == toAbove && below % 2 == 0) then below else above)
      | true, false => some below
      | false, true => some above
      | false, false => none := by
  have hpair : (
    let unit := if interval.exponent < 0 then 1 else Nat.pow 2 interval.exponent.toNat
    let half := if interval.exponent < 0 then Nat.pow 2 (-interval.exponent).toNat else 1
    if exponent < 0 then (unit * Nat.pow 10 (-exponent).toNat, half)
    else (unit, half * Nat.pow 10 exponent.toNat)) =
      (interval.unit exponent, interval.step exponent) := by
    simp only [unit, step, Nat.pow_eq]
    by_cases h : interval.exponent < 0 <;> by_cases h' : exponent < 0 <;>
      simp only [h, h', if_true, if_false, Prod.mk.injEq]
    · simp [Int.toNat_of_nonpos h.le, Int.toNat_of_nonpos h'.le]
    · simp [Int.toNat_of_nonpos h.le, Int.toNat_of_nonpos (by omega : -exponent ≤ 0)]
    · simp [Int.toNat_of_nonpos (by omega : -interval.exponent ≤ 0), Int.toNat_of_nonpos h'.le]
    · simp [Int.toNat_of_nonpos (by omega : -interval.exponent ≤ 0),
        Int.toNat_of_nonpos (by omega : -exponent ≤ 0)]
  unfold gridPoint?
  rw [hpair]
  rfl

theorem inside_of_gridPoint? (h : interval.gridPoint? exponent = some point) :
    interval.inside exponent point = true := by
  rw [gridPoint?_eq] at h
  dsimp only at h
  split at h
  · next hbelow habove =>
    obtain rfl := Option.some.inj h
    split
    · exact hbelow
    · exact habove
  · next hbelow _ =>
    obtain rfl := Option.some.inj h
    exact hbelow
  · next _ habove =>
    obtain rfl := Option.some.inj h
    exact habove
  · cases h

theorem gridPoint?_of_inside
    (h : interval.inside exponent
      (interval.middle * interval.unit exponent / interval.step exponent) = true) :
    ∃ point, interval.gridPoint? exponent = some point := by
  rw [gridPoint?_eq]
  dsimp only
  rw [h]
  split <;> first | exact ⟨_, rfl⟩ | contradiction

theorem zpow_mul_pow (base : ℚ) (hbase : base ≠ 0) (exponent : Int) :
    base ^ exponent * base ^ (-exponent).toNat = base ^ exponent.toNat := by
  rw [← zpow_natCast, ← zpow_natCast, ← zpow_add₀ hbase]
  congr 1
  omega

/-- Grid points are compared with the ends of an interval as the numbers they are. -/
theorem inside_iff :
    interval.inside exponent point = true ↔ interval.Contains (point * 10 ^ exponent) := by
  have hscale : (0 : ℚ) < 2 ^ (-interval.exponent).toNat * 10 ^ (-exponent).toNat := by positivity
  have hend (n : Nat) : (n * 2 ^ interval.exponent : ℚ) *
      (2 ^ (-interval.exponent).toNat * 10 ^ (-exponent).toNat) =
      (n * interval.unit exponent : Nat) := by
    have htwo := zpow_mul_pow 2 (by norm_num) interval.exponent
    rw [unit]
    push_cast
    linear_combination (n * 10 ^ (-exponent).toNat : ℚ) * htwo
  have hpoint : (point * 10 ^ exponent : ℚ) *
      (2 ^ (-interval.exponent).toNat * 10 ^ (-exponent).toNat) =
      (point * interval.step exponent : Nat) := by
    have hten := zpow_mul_pow 10 (by norm_num) exponent
    rw [step]
    push_cast
    linear_combination (point * 2 ^ (-interval.exponent).toNat : ℚ) * hten
  rw [inside, Contains]
  split <;> rw [Bool.and_eq_true, decide_eq_true_iff, decide_eq_true_iff] <;> refine and_congr ?_ ?_
  · rw [← mul_le_mul_iff_of_pos_right hscale, hend, hpoint, Nat.cast_le]
  · rw [← mul_le_mul_iff_of_pos_right hscale, hend, hpoint, Nat.cast_le]
  · rw [← mul_lt_mul_iff_of_pos_right hscale, hend, hpoint, Nat.cast_lt]
  · rw [← mul_lt_mul_iff_of_pos_right hscale, hend, hpoint, Nat.cast_lt]

theorem step_le_unit (h : (10 : ℚ) ^ exponent ≤ 2 ^ interval.exponent) :
    interval.step exponent ≤ interval.unit exponent := by
  have htwo := zpow_mul_pow 2 (by norm_num) interval.exponent
  have hten := zpow_mul_pow 10 (by norm_num) exponent
  have hscale : (0 : ℚ) < 2 ^ (-interval.exponent).toNat * 10 ^ (-exponent).toNat := by positivity
  have hscaled := mul_le_mul_of_nonneg_right h hscale.le
  have hstep : ((interval.step exponent : Nat) : ℚ) =
      10 ^ exponent * (2 ^ (-interval.exponent).toNat * 10 ^ (-exponent).toNat) := by
    rw [step]
    push_cast
    linear_combination (-(2 ^ (-interval.exponent).toNat) : ℚ) * hten
  have hunit : ((interval.unit exponent : Nat) : ℚ) =
      2 ^ interval.exponent * (2 ^ (-interval.exponent).toNat * 10 ^ (-exponent).toNat) := by
    rw [unit]
    push_cast
    linear_combination (-(10 ^ (-exponent).toNat) : ℚ) * htwo
  rw [← hstep, ← hunit] at hscaled
  exact_mod_cast hscaled

/-- A grid as fine as the unit of an interval has a point below its middle and above its lower end. -/
theorem exists_gridPoint? (hlow : interval.low < interval.middle)
    (hhigh : interval.middle < interval.high)
    (h : (10 : ℚ) ^ exponent ≤ 2 ^ interval.exponent) :
    ∃ point, interval.gridPoint? exponent = some point := by
  apply gridPoint?_of_inside
  have hfine := step_le_unit h
  have hpositive : 0 < interval.step exponent := by
    unfold step
    positivity
  have hunit : 0 < interval.unit exponent := hpositive.trans_le hfine
  have hbelow := Nat.div_mul_le_self (interval.middle * interval.unit exponent)
    (interval.step exponent)
  have habove := Nat.lt_div_mul_add hpositive (a := interval.middle * interval.unit exponent)
  have hleft := Nat.mul_le_mul_right (interval.unit exponent) hlow
  have hright := Nat.mul_lt_mul_of_pos_right hhigh hunit
  rw [Nat.succ_mul] at hleft
  rw [inside]
  split <;> rw [Bool.and_eq_true, decide_eq_true_iff, decide_eq_true_iff] <;> omega

section Ends

variable {value : ℚ} (h : interval.Contains value)

include h

theorem Contains.low_le : interval.low * 2 ^ interval.exponent ≤ value := by
  rw [Contains] at h
  split at h
  · exact h.1
  · exact h.1.le

theorem Contains.le_high : value ≤ interval.high * 2 ^ interval.exponent := by
  rw [Contains] at h
  split at h
  · exact h.2
  · exact h.2.le

/-- Only a closed interval contains an end of it. -/
theorem Contains.closed (hend : value = interval.low * 2 ^ interval.exponent ∨
    value = interval.high * 2 ^ interval.exponent) : interval.closed = true := by
  by_contra hopen
  rw [Contains, if_neg hopen] at h
  rcases hend with hend | hend
  · exact absurd hend h.1.ne'
  · exact absurd hend h.2.ne

end Ends

theorem not_contains_zero (hlow : 0 < interval.low) : ¬ interval.Contains 0 := by
  have hend : (0 : ℚ) < interval.low * 2 ^ interval.exponent := by positivity
  exact fun h => absurd h.low_le (not_le_of_gt hend)

/-- The decimal found lies in the interval if one of the grids that are tried has a point there. -/
theorem contains_firstGridPoint (hlow : 0 < interval.low) {fuel : Nat} (finer : Nat)
    (hlt : finer < fuel)
    (h : ∃ point, interval.gridPoint? (exponent - finer) = some point) :
    interval.Contains (interval.firstGridPoint exponent fuel).value := by
  induction fuel generalizing exponent finer with
  | zero => omega
  | succ fuel ih =>
    rw [firstGridPoint]
    cases hgrid : interval.gridPoint? exponent with
    | some point =>
      have hcontains := inside_iff.mp (inside_of_gridPoint? hgrid)
      have hpoint : point ≠ 0 := by
        rintro rfl
        exact not_contains_zero hlow (by simpa using hcontains)
      simpa [hpoint, Decimal.value] using hcontains
    | none =>
      cases finer with
      | zero => simp [hgrid] at h
      | succ finer =>
        refine ih finer (by omega) ?_
        rw [show exponent - 1 - (finer : Int) = exponent - (finer + 1 : Nat) by push_cast; ring]
        exact h

end RoundingInterval

theorem Decimal.value_normalize (decimal : Decimal) (fuel : Nat) :
    (decimal.normalize fuel).value = decimal.value := by
  induction fuel generalizing decimal with
  | zero => rfl
  | succ fuel ih =>
    rw [normalize]
    split
    · next h =>
      have hdigits : decimal.digits / 10 * 10 = decimal.digits := by
        simp only [Bool.and_eq_true, beq_iff_eq] at h
        omega
      rw [ih, value, value, zpow_add₀ (by norm_num), zpow_one]
      nth_rewrite 2 [← hdigits]
      push_cast
      ring
    · rfl

/-! ### Powers of ten and of two -/

theorem zpow_pow (base : ℚ) (exponent : Int) (n : Nat) :
    (base ^ exponent) ^ n = base ^ (n * exponent) := by
  rw [← zpow_natCast, ← zpow_mul, mul_comm]

/-- A power of ten is compared with a power of two by `10 ^ 3 < 2 ^ 10`. -/
theorem ten_zpow_le_of_nonneg {exponent bits : Int} (hexponent : 0 ≤ exponent)
    (h : 10 * exponent ≤ 3 * bits) : (10 : ℚ) ^ exponent ≤ 2 ^ bits := by
  have hbase : (10 : ℚ) ^ (3 : Int) ≤ 2 ^ (10 : Int) := by norm_num
  rw [← pow_le_pow_iff_left₀ (by positivity) (by positivity) (by decide : 3 ≠ 0)]
  calc ((10 : ℚ) ^ exponent) ^ 3 = (10 ^ (3 : Int)) ^ exponent := by rw [zpow_pow, zpow_mul]; rfl
    _ ≤ (2 ^ (10 : Int)) ^ exponent := zpow_le_zpow_left₀ hexponent (by positivity) hbase
    _ = 2 ^ (10 * exponent) := (zpow_mul _ _ _).symm
    _ ≤ 2 ^ (3 * bits) := zpow_le_zpow_right₀ (by norm_num) h
    _ = (2 ^ bits) ^ 3 := (zpow_pow _ _ _).symm

/-- A power of ten less than one is compared with a power of two by `2 ^ 93 < 10 ^ 28`. -/
theorem ten_zpow_le_of_neg {exponent bits : Int} (hexponent : exponent ≤ 0)
    (h : 93 * exponent ≤ 28 * bits) : (10 : ℚ) ^ exponent ≤ 2 ^ bits := by
  have hbase : (2 : ℚ) ^ (93 : Int) ≤ 10 ^ (28 : Int) := by norm_num
  rw [← pow_le_pow_iff_left₀ (by positivity) (by positivity) (by decide : 28 ≠ 0)]
  calc ((10 : ℚ) ^ exponent) ^ 28 = ((10 ^ (28 : Int)) ^ (-exponent))⁻¹ := by
        rw [zpow_pow, zpow_mul, zpow_neg, inv_inv]
        rfl
    _ ≤ ((2 ^ (93 : Int)) ^ (-exponent))⁻¹ :=
        inv_anti₀ (by positivity) (zpow_le_zpow_left₀ (by omega) (by positivity) hbase)
    _ = 2 ^ (93 * exponent) := by rw [zpow_neg, inv_inv, ← zpow_mul]
    _ ≤ 2 ^ (28 * bits) := zpow_le_zpow_right₀ (by norm_num) h
    _ = (2 ^ bits) ^ 28 := (zpow_pow _ _ _).symm

theorem ten_zpow_le {exponent bits : Int} (h : 10 * exponent ≤ 3 * bits)
    (h' : 93 * exponent ≤ 28 * bits) : (10 : ℚ) ^ exponent ≤ 2 ^ bits := by
  rcases le_total 0 exponent with hexponent | hexponent
  · exact ten_zpow_le_of_nonneg hexponent h
  · exact ten_zpow_le_of_neg hexponent h'

/-! ### The intervals of floats -/

namespace Binary

variable {x y : Binary}

theorem interval_low_eq (x : Binary) :
    x.interval.low =
      4 * x.significand - if x.significand = 2 ^ 52 ∧ -1074 < x.exponent then 1 else 2 := by
  simp only [interval, Nat.pow_eq, Bool.and_eq_true, beq_iff_eq, gt_iff_lt, decide_eq_true_iff]

theorem interval_low_pos (h : x.significand ≠ 0) : 0 < x.interval.low := by
  rw [interval_low_eq]
  split <;> omega

theorem interval_low_lt (h : x.significand ≠ 0) : x.interval.low < x.interval.middle := by
  have hmiddle : x.interval.middle = 4 * x.significand := rfl
  rw [interval_low_eq]
  split <;> omega

/-- The shortest decimal of a float rounds to it. -/
theorem Canonical.contains_shortest (hx : x.Canonical) (h : x.significand ≠ 0) :
    x.interval.Contains x.shortest.value := by
  have hlog : x.significand.log2 < 53 := (Nat.log2_lt h).mpr hx.significand_lt
  have hleast := hx.least
  have hgreatest := hx.greatest
  rw [shortest, Decimal.value_normalize]
  refine RoundingInterval.contains_firstGridPoint (interval_low_pos h) 23 (by decide) ?_
  apply RoundingInterval.exists_gridPoint? (interval_low_lt h) (Nat.lt_add_of_pos_right (by decide))
  have hexponent : x.interval.exponent = x.exponent - 2 := rfl
  rw [hexponent, Int.fdiv_eq_ediv_of_nonneg _ (by decide)]
  apply ten_zpow_le <;> omega

/-- The interval of a float ends before that of a greater one begins. If they touch, one significand
is odd. -/
theorem Canonical.interval_high_le (hx : x.Canonical) (hy : y.Canonical)
    (h : x.magnitude < y.magnitude) :
    ∃ shift : Nat, y.exponent = x.exponent + shift ∧
      x.interval.high ≤ y.interval.low * 2 ^ shift ∧
      (x.interval.high = y.interval.low * 2 ^ shift →
        ¬ (x.interval.closed = true ∧ y.interval.closed = true)) := by
  have horder := hx.compare_then hy
  rw [Nat.compare_eq_lt.mpr h, Ordering.then_eq_lt, Int.compare_eq_lt, Int.compare_eq_eq,
    Nat.compare_eq_lt] at horder
  have hhigh : x.interval.high = 4 * x.significand + 2 := rfl
  have hxclosed : x.interval.closed = (x.significand % 2 == 0) := rfl
  have hyclosed : y.interval.closed = (y.significand % 2 == 0) := rfl
  have hlow := y.interval_low_eq
  rw [hxclosed, hyclosed, beq_iff_eq, beq_iff_eq]
  rcases horder with hexponent | ⟨hexponent, hsignificand⟩
  · have hleast := hx.least
    have hnormal := hy.normal (lt_of_le_of_lt hleast hexponent)
    have hlt := hx.significand_lt
    refine ⟨(y.exponent - x.exponent - 1).toNat + 1, by omega, ?_⟩
    have hpow := Nat.one_le_two_pow (n := (y.exponent - x.exponent - 1).toNat)
    have hscaled := Nat.mul_le_mul_left (y.interval.low * 2) hpow
    rw [Nat.pow_succ, Nat.mul_comm (2 ^ _) 2, ← Nat.mul_assoc]
    split at hlow <;> omega
  · refine ⟨0, by omega, ?_⟩
    rw [Nat.pow_zero, Nat.mul_one]
    split at hlow <;> omega

/-- No number rounds to two floats. -/
theorem Canonical.not_contains (hx : x.Canonical) (hy : y.Canonical)
    (h : x.magnitude < y.magnitude) {value : ℚ} (hxvalue : x.interval.Contains value) :
    ¬ y.interval.Contains value := by
  obtain ⟨shift, hshift, hle, hclosed⟩ := hx.interval_high_le hy h
  have hunit : (0 : ℚ) < 2 ^ (x.exponent - 2) := by positivity
  have hexponent : y.interval.exponent = x.exponent - 2 + shift := by
    change y.exponent - 2 = _
    omega
  have hlow : (y.interval.low : ℚ) * 2 ^ y.interval.exponent =
      (y.interval.low * 2 ^ shift : Nat) * 2 ^ (x.exponent - 2) := by
    rw [hexponent, zpow_add₀ (by norm_num), zpow_natCast]
    push_cast
    ring
  have hends : (x.interval.high : ℚ) * 2 ^ (x.exponent - 2) ≤
      y.interval.low * 2 ^ y.interval.exponent := by
    rw [hlow]
    exact mul_le_mul_of_nonneg_right (Nat.cast_le.mpr hle) hunit.le
  intro hyvalue
  -- The number is both the upper end of one interval and the lower end of the other.
  have hxend := le_antisymm hxvalue.le_high (hends.trans hyvalue.low_le)
  have hyend := le_antisymm (hxvalue.le_high.trans hends) hyvalue.low_le
  refine hclosed ?_ ⟨hxvalue.closed (.inr hxend), hyvalue.closed (.inl hyend)⟩
  have heq : (x.interval.high : ℚ) * 2 ^ (x.exponent - 2) =
      (y.interval.low * 2 ^ shift : Nat) * 2 ^ (x.exponent - 2) :=
    hxend.symm.trans (hyend.trans hlow)
  exact Nat.cast_injective (mul_right_cancel₀ hunit.ne' heq)

/-- Different positive floats have different shortest decimals. -/
theorem Canonical.magnitude_eq (hx : x.Canonical) (hy : y.Canonical) (hxpos : x.significand ≠ 0)
    (hypos : y.significand ≠ 0) (h : x.shortest.value = y.shortest.value) :
    x.magnitude = y.magnitude := by
  have hxvalue := hx.contains_shortest hxpos
  have hyvalue := hy.contains_shortest hypos
  rcases Nat.lt_trichotomy x.magnitude y.magnitude with hlt | heq | hgt
  · exact absurd (h ▸ hyvalue) (hx.not_contains hy hlt hxvalue)
  · exact heq
  · exact absurd (h ▸ hxvalue) (hy.not_contains hx hgt hyvalue)

end Binary

end StreamQuery.Number
