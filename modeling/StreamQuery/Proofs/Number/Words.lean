import Mathlib
import StreamQuery.Number.Machine
import StreamQuery.Value.Basic

/-!
# Words of machines

Where a result fits its word, what is left to the machine does not depend on the machine: one that
wraps around and one that traps both give the exact result. A checked power by squaring has a result
exactly if the power fits, since no product on the way to a power that fits is too large.
-/

namespace StreamQuery

namespace Number

variable {bits : Nat} {n : Int}

theorem fitsWord_iff_inInt64 : FitsWord 64 n ↔ InInt64 n := Iff.rfl

theorem fitsWord_iff (hbits : 0 < bits) :
    FitsWord bits n ↔ -(2 ^ bits) ≤ n * 2 ∧ n * 2 < 2 ^ bits := by
  have hpow : (2 : Int) ^ bits = 2 ^ (bits - 1) * 2 := by
    rw [← pow_succ, Nat.sub_add_cancel hbits]
  simp only [FitsWord, Nat.pow_eq, Nat.cast_pow, Nat.cast_ofNat, hpow]
  constructor <;> (rintro ⟨hlow, hhigh⟩; constructor <;> omega)

theorem lowWord_of_fitsWord (hbits : 0 < bits) (h : FitsWord bits n) : lowWord bits n = n := by
  obtain ⟨hlow, hhigh⟩ := (fitsWord_iff hbits).mp h
  exact Int.bmod_eq_of_le_mul_two (by exact_mod_cast hlow) (by exact_mod_cast hhigh)

theorem checked_of_fitsWord (h : FitsWord bits n) : checked bits n = some n :=
  if_pos h

theorem checked_of_not_fitsWord (h : ¬ FitsWord bits n) : checked bits n = none :=
  if_neg h

theorem checkedQuotient_of_fitsWord {a b : Int} (hb : b ≠ 0) (h : FitsWord bits (a.tdiv b)) :
    checkedQuotient bits a b = some (a.tdiv b) := by
  rw [checkedQuotient, if_neg hb, checked_of_fitsWord h]

/-! ### Powers -/

/-- A factor of one or more takes no number into the word that does not fit. -/
theorem fitsWord_of_mul {factor : Int} (hfactor : 1 ≤ factor) (h : FitsWord bits (n * factor)) :
    FitsWord bits n := by
  obtain ⟨hlow, hhigh⟩ := h
  rcases Int.le_total 0 n with hn | hn
  · exact ⟨by omega, (le_mul_of_one_le_right hn hfactor).trans_lt hhigh⟩
  · exact ⟨hlow.trans (mul_le_of_one_le_right hn hfactor), by omega⟩

/-- The product with an odd power fits only if the product with the base does. -/
theorem fitsWord_mul_of_odd {acc base : Int} {exponent : Nat} (hodd : exponent % 2 = 1)
    (h : FitsWord bits (acc * base ^ exponent)) : FitsWord bits (acc * base) := by
  have hsplit : acc * base ^ exponent = acc * base * (base ^ 2) ^ (exponent / 2) := by
    rw [← pow_mul, mul_assoc, ← pow_succ', show 2 * (exponent / 2) + 1 = exponent by omega]
  by_cases hbase : base = 0
  · rw [hbase, zero_pow (by omega)] at h
    rwa [hbase]
  · have hsquare : 0 < base ^ 2 := by positivity
    rw [hsplit] at h
    exact fitsWord_of_mul (one_le_pow₀ hsquare) h

/-- No square lies at the end of the word of 64 bits. -/
theorem fitsWord_square {base : Int} (h : base ^ 2 ≤ 0x8000000000000000) :
    FitsWord 64 (base ^ 2) := by
  rw [fitsWord_iff_inInt64]
  refine ⟨by nlinarith, ?_⟩
  by_contra hge
  rcases le_total 0 base with hbase | hbase
  · by_cases hsmall : base ≤ 3037000499 <;> nlinarith
  · by_cases hsmall : -3037000499 ≤ base <;> nlinarith

/-- The product with a power of two or more fits only if the square of the base does. -/
theorem fitsWord_square_of_mul {acc base : Int} {exponent : Nat} (hacc : acc ≠ 0 ∨ base = 0)
    (htwo : 2 ≤ exponent) (h : FitsWord 64 (acc * base ^ exponent)) : FitsWord 64 (base ^ 2) := by
  apply fitsWord_square
  rcases eq_or_ne base 0 with hbase | hbase
  · rw [hbase]
    decide
  · have hacc := Int.natAbs_pos.mpr (hacc.resolve_right hbase)
    have hbase := Int.natAbs_pos.mpr hbase
    have hle : base.natAbs ^ 2 ≤ acc.natAbs * base.natAbs ^ exponent :=
      (Nat.pow_le_pow_right hbase htwo).trans (Nat.le_mul_of_pos_left _ hacc)
    rw [← Int.natAbs_pow, ← Int.natAbs_pow, ← Int.natAbs_mul] at hle
    obtain ⟨hlow, hhigh⟩ := fitsWord_iff_inInt64.mp h
    omega

theorem checkedPowerFrom_eq (exponent : Nat) {acc base : Int} (hacc : FitsWord 64 acc)
    (hnonzero : acc ≠ 0 ∨ base = 0) :
    checkedPowerFrom 64 acc base exponent = checked 64 (acc * base ^ exponent) := by
  induction exponent using Nat.strongRecOn generalizing acc base with
  | ind exponent ih =>
    rw [checkedPowerFrom]
    by_cases hzero : exponent = 0
    · rw [if_pos hzero, hzero, pow_zero, mul_one, checked_of_fitsWord hacc]
    rw [if_neg hzero]
    -- What is left after the accumulator has taken the last bit of the exponent.
    have hrest : ∀ {acc : Int}, FitsWord 64 acc → (acc ≠ 0 ∨ base = 0) → 2 ≤ exponent →
        (do checkedPowerFrom 64 acc (← checked 64 (base * base)) (exponent / 2)) =
          checked 64 (acc * (base ^ 2) ^ (exponent / 2)) := by
      intro acc hacc hnonzero htwo
      rw [← pow_two]
      by_cases hsquare : FitsWord 64 (base ^ 2)
      · rw [checked_of_fitsWord hsquare]
        exact ih _ (by omega) hacc (hnonzero.imp_right fun hbase => by rw [hbase]; rfl)
      · have hpower : ¬ FitsWord 64 (acc * (base ^ 2) ^ (exponent / 2)) := by
          rw [← pow_mul]
          exact mt (fitsWord_square_of_mul hnonzero (by omega)) hsquare
        rw [checked_of_not_fitsWord hsquare, checked_of_not_fitsWord hpower]
        rfl
    by_cases hodd : exponent % 2 = 1
    · have hsplit : acc * base ^ exponent = acc * base * (base ^ 2) ^ (exponent / 2) := by
        rw [← pow_mul, mul_assoc, ← pow_succ', show 2 * (exponent / 2) + 1 = exponent by omega]
      rw [if_pos hodd]
      by_cases hfits : FitsWord 64 (acc * base)
      · rw [checked_of_fitsWord hfits]
        by_cases hone : exponent = 1
        · rw [hone, pow_one, checked_of_fitsWord hfits]
          rfl
        · have hproduct : acc * base ≠ 0 ∨ base = 0 := by
            rcases hnonzero with hacc | hbase
            · exact (em (base = 0)).symm.imp_left (mul_ne_zero hacc)
            · exact .inr hbase
          rw [hsplit, ← hrest hfits hproduct (by omega)]
          simp [hone]
      · have hpower := mt (fitsWord_mul_of_odd hodd) hfits
        rw [checked_of_not_fitsWord hfits, checked_of_not_fitsWord hpower]
        rfl
    · have hsplit : base ^ exponent = (base ^ 2) ^ (exponent / 2) := by
        rw [← pow_mul, show 2 * (exponent / 2) = exponent by omega]
      rw [if_neg hodd, hsplit, ← hrest hacc hnonzero (by omega)]
      simp [show exponent ≠ 1 by omega]

/-- A checked power of a word of 64 bits has a result exactly if the power fits. -/
theorem checkedPower_eq (base : Int) (exponent : Nat) :
    checkedPower 64 base exponent = checked 64 (base ^ exponent) := by
  rw [checkedPower, checkedPowerFrom_eq exponent (by decide) (.inl one_ne_zero), one_mul]

end Number

/-! ### Machines -/

namespace Machine

open Number

/-- A machine gives the exact result of what fits, and a part that is there. -/
structure Faithful {m : Type → Type} [Monad m] (machine : Machine m) : Prop where
  word {bits : Nat} {n : Int} : 0 < bits → FitsWord bits n → machine.word bits n = pure n
  quotient {bits : Nat} {a b : Int} : 0 < bits → b ≠ 0 → FitsWord bits (a.tdiv b) →
    machine.quotient bits a b = pure (a.tdiv b)
  remainder {a b : Int} : b ≠ 0 → machine.remainder a b = pure (a.tmod b)
  present {α : Type} [Inhabited α] (part : α) : machine.present (some part) = pure part

theorem faithful_wrapping : wrapping.Faithful where
  word := lowWord_of_fitsWord
  quotient hbits _ h := lowWord_of_fitsWord hbits h
  remainder _ := rfl
  present _ := rfl

theorem faithful_trapping : trapping.Faithful where
  word _ h := checked_of_fitsWord h
  quotient _ hb h := checkedQuotient_of_fitsWord hb h
  remainder hb := if_neg hb
  present _ := rfl

theorem faithful_unbounded : unbounded.Faithful where
  word _ _ := rfl
  quotient _ _ _ := rfl
  remainder _ := rfl
  present _ := rfl

end Machine

end StreamQuery
