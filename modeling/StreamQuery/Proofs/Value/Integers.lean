import StreamQuery.Proofs.Number.Range
import StreamQuery.Proofs.Number.Words
import StreamQuery.Value.Arithmetic

/-!
# Integer operators

Sums, differences, products and negations of signed 64-bit integers are exact as long as they fit,
and floats elsewhere. Quotients are rounded down and remainders have the sign of the divisor. Powers
are exact as long as both the power and 32 bits for the exponent suffice; shifts to the left wrap
around.
-/

namespace StreamQuery.Value

open Number

variable {x y : Value} {a b : Int}

/-! ### Exact results -/

/-- A result that is an exact integer where that fits signed 64 bits, and a computed float
elsewhere. -/
structure ExactOrFloat (result : Except Error Value) (exact : Int) (computed : Float) : Prop where
  integer : InInt64 exact → ∃ n : BoundedInt, n.val = exact ∧ result = .ok (.int n)
  float : ¬ InInt64 exact → ∃ x : FiniteFloat, x.val = computed ∧ result = .ok (.float x)

theorem exists_ofInt {n : Int} (h : InInt64 n) :
    ∃ m : BoundedInt, m.val = n ∧ ofInt n = .int m := by
  obtain ⟨hlow, hhigh⟩ := h
  have hrange : -0x8000000000000000 ≤ n ∧ n < 0x10000000000000000 := ⟨hlow, by omega⟩
  exact ⟨⟨n, hrange.1, hrange.2⟩, rfl, dif_pos hrange⟩

theorem exists_ofFloat {x : Float} (h : x.isFinite = true) :
    ∃ y : FiniteFloat, y.val = x ∧ ofFloat x = .float y :=
  ⟨⟨x, h⟩, rfl, dif_pos h⟩

theorem ofExact_of_inInt64 {exact : Int} (h : InInt64 exact) (computed : Float) :
    ofExact exact computed = ofInt exact :=
  if_pos h

theorem exactOrFloat_ofExact {exact : Int} {computed : Float}
    (h : ¬ InInt64 exact → computed.isFinite = true) :
    ExactOrFloat (.ok (ofExact exact computed)) exact computed where
  integer hexact := by
    obtain ⟨n, hn, heq⟩ := exists_ofInt hexact
    exact ⟨n, hn, by rw [ofExact_of_inInt64 hexact, heq]⟩
  float hexact := by
    obtain ⟨x, hx, heq⟩ := exists_ofFloat (h hexact)
    exact ⟨x, hx, by rw [ofExact, if_neg hexact, heq]⟩

/-- The values that count as integers are booleans and integers. -/
theorem bool_or_int_of_asInt64? (h : x.asInt64? = some a) :
    (∃ flag : Bool, x = .bool flag ∧ (if flag then 1 else 0) = a) ∨
      ∃ n : BoundedInt, x = .int n ∧ InInt64 n.val ∧ n.val = a := by
  cases x
  case bool flag => exact .inl ⟨flag, rfl, Option.some.inj h⟩
  case int n =>
    obtain ⟨hn, heq⟩ := Option.ite_none_right_eq_some.mp h
    exact .inr ⟨n, rfl, hn, Option.some.inj heq⟩
  all_goals cases h

theorem inInt64_of_asInt64? (h : x.asInt64? = some a) : InInt64 a := by
  obtain ⟨flag, -, rfl⟩ | ⟨n, -, hn, rfl⟩ := bool_or_int_of_asInt64? h
  · cases flag <;> decide
  · exact hn

theorem natAbs_lt_of_inInt64 (h : InInt64 a) : a.natAbs < 2 ^ 64 := by
  obtain ⟨hlow, hhigh⟩ := h
  omega

/-! ### Operators on integers -/

theorem isNull_of_asInt64? (h : x.asInt64? = some a) : x.isNull = false := by
  obtain ⟨flag, rfl, -⟩ | ⟨n, rfl, -⟩ := bool_or_int_of_asInt64? h <;> rfl

theorem applyBinary_of_asInt64? {op : BinaryOp} (hx : x.asInt64? = some a)
    (hy : y.asInt64? = some b)
    (hop : op ∈ [.add, .subtract, .multiply, .floorDivide, .modulus, .exponent]) :
    applyBinary op x y = integerArithmetic op a b (unsupported op x y) := by
  have harithmetic : arithmetic op x y = integerArithmetic op a b (unsupported op x y) := by
    rw [arithmetic, hx, hy]
  have hoperands : add x y = arithmetic .add x y ∧ multiply x y = arithmetic .multiply x y := by
    obtain ⟨flag, rfl, -⟩ | ⟨n, rfl, -⟩ := bool_or_int_of_asInt64? hx <;>
      obtain ⟨other, rfl, -⟩ | ⟨m, rfl, -⟩ := bool_or_int_of_asInt64? hy <;> exact ⟨rfl, rfl⟩
  rw [← harithmetic]
  simp only [List.mem_cons, List.not_mem_nil, or_false] at hop
  rcases hop with rfl | rfl | rfl | rfl | rfl | rfl <;>
    simp [applyBinary, isNull_of_asInt64? hx, isNull_of_asInt64? hy, applyStrict, hoperands]

/-! ### Quotients and remainders -/

/-- What a quotient rounded towards zero is corrected by. -/
theorem fdiv_eq_corrected (a : Int) (hb : b ≠ 0) :
    a.fdiv b = if a.tmod b ≠ 0 ∧ (a < 0) ≠ (b < 0) then a.tdiv b - 1 else a.tdiv b := by
  simp only [Int.fdiv_eq_tdiv, Int.dvd_iff_tmod_eq_zero]
  rcases lt_or_gt_of_ne hb with hneg | hpos
  · rw [Int.sign_eq_neg_one_of_neg hneg]
    grind
  · rw [Int.sign_eq_one_of_pos hpos]
    grind

theorem natAbs_tmod_lt (a : Int) (hb : b ≠ 0) : (a.tmod b).natAbs < b.natAbs := by
  rw [Int.natAbs_tmod]
  exact Nat.mod_lt _ (Int.natAbs_pos.mpr hb)

theorem tmod_neg_iff (h : a.tmod b ≠ 0) : a.tmod b < 0 ↔ a < 0 := by
  have hsign := Int.sign_tmod a b
  rw [if_neg (mt Int.dvd_iff_tmod_eq_zero.mp h)] at hsign
  rw [← Int.sign_eq_neg_one_iff_neg, hsign, Int.sign_eq_neg_one_iff_neg]

theorem fmod_eq_corrected (a : Int) (hb : b ≠ 0) :
    a.fmod b = if a.tmod b ≠ 0 ∧ (a.tmod b < 0) ≠ (b < 0) then a.tmod b + b else a.tmod b := by
  have hquotient := fdiv_eq_corrected a hb
  have hwhole := Int.tmod_add_mul_tdiv a b
  rw [Int.fmod_def]
  by_cases hzero : a.tmod b = 0
  · simp only [hzero, ne_eq, not_true_eq_false, false_and, if_false] at hquotient ⊢
    rw [hquotient]
    omega
  · have hsign := tmod_neg_iff hzero
    rw [hquotient]
    simp only [hsign]
    split
    · rw [mul_sub, mul_one]
      omega
    · omega

theorem floor_div (a : Int) (b : Int) : ⌊(a / b : ℚ)⌋ = a.fdiv b := by
  obtain ⟨n, rfl | rfl⟩ := b.eq_nat_or_neg
  · rw [Int.fdiv_eq_ediv_of_nonneg _ (by omega), Int.cast_natCast, Rat.floor_intCast_div_natCast]
  · rw [← Int.neg_fdiv_neg, neg_neg, Int.fdiv_eq_ediv_of_nonneg _ (by omega),
      ← Rat.floor_intCast_div_natCast]
    push_cast
    rw [div_neg, neg_div]

/-- A remainder has the sign of the divisor and is smaller. -/
theorem fmod_bounds (a : Int) (hb : b ≠ 0) :
    (0 < b → 0 ≤ a.fmod b) ∧ (b < 0 → a.fmod b ≤ 0) ∧ |a.fmod b| < |b| := by
  have hbound := natAbs_tmod_lt a hb
  have hvalue := fmod_eq_corrected a hb
  rcases lt_or_gt_of_ne hb with hneg | hpos
  · simp only [hneg, ne_eq, eq_iff_iff, iff_true] at hvalue
    rw [abs_of_neg hneg, abs_lt]
    refine ⟨?_, ?_, ?_, ?_⟩ <;> split at hvalue <;> omega
  · simp only [hpos.not_gt, ne_eq, eq_iff_iff, iff_false] at hvalue
    rw [abs_of_pos hpos, abs_lt]
    refine ⟨?_, ?_, ?_, ?_⟩ <;> split at hvalue <;> omega

/-- A quotient fits unless it is that of the least word by minus one. -/
theorem fitsWord_tdiv (ha : InInt64 a) (hb : b ≠ 0) :
    FitsWord 64 (a.tdiv b) ∨ (a = -0x8000000000000000 ∧ b = -1) := by
  rw [fitsWord_iff_inInt64]
  obtain ⟨hlow, hhigh⟩ := ha
  have hquotient : (a.tdiv b).natAbs = a.natAbs / b.natAbs := Int.natAbs_tdiv a b
  by_cases hone : b.natAbs = 1
  · rw [hone, Nat.div_one] at hquotient
    rcases Int.natAbs_eq_iff.mp hone with rfl | rfl
    · rw [Nat.cast_one, Int.tdiv_one]
      exact .inl ⟨hlow, hhigh⟩
    · rw [Nat.cast_one, Int.tdiv_neg, Int.tdiv_one]
      rcases eq_or_ne a (-0x8000000000000000) with hleast | hne
      · exact .inr ⟨hleast, rfl⟩
      · exact .inl ⟨by omega, by omega⟩
  · have hhalf : a.natAbs / b.natAbs ≤ a.natAbs / 2 := Nat.div_le_div_left (by omega) (by decide)
    exact .inl ⟨by omega, by omega⟩

theorem fitsWord_tdiv_sub_one (ha : InInt64 a) (hremainder : a.tmod b ≠ 0) (hb : b ≠ 0) :
    FitsWord 64 (a.tdiv b - 1) := by
  rw [fitsWord_iff_inInt64]
  obtain ⟨hlow, hhigh⟩ := ha
  have hquotient : (a.tdiv b).natAbs = a.natAbs / b.natAbs := Int.natAbs_tdiv a b
  have hbound := natAbs_tmod_lt a hb
  have hhalf : a.natAbs / b.natAbs ≤ a.natAbs / 2 := Nat.div_le_div_left (by omega) (by decide)
  exact ⟨by omega, by omega⟩

/-! ### Machines -/

section Machines

variable {m : Type → Type} [Monad m] [LawfulMonad m] {machine : Machine m} {fault : Error}

theorem integerArithmeticOn_floorDivide (hmachine : machine.Faithful) (ha : InInt64 a)
    (hb : b ≠ 0) :
    integerArithmeticOn machine .floorDivide a b fault =
      pure (.ok (ofExact (a.fdiv b) (floor (floatOfInt a / floatOfInt b)))) := by
  rcases fitsWord_tdiv ha hb with hfits | ⟨rfl, rfl⟩
  · have hquotient := checkedQuotient_of_fitsWord hb hfits
    have hremainder : checkedRemainder 64 a b = some (a.tmod b) := by
      rw [checkedRemainder, hquotient, Option.map_some]
    have hvalue := fdiv_eq_corrected a hb
    simp only [integerArithmeticOn, beq_false_of_ne hb, Bool.false_eq_true, if_false, hquotient,
      hremainder]
    split
    · next hcorrected =>
      have hless := fitsWord_tdiv_sub_one ha hcorrected.1 hb
      rw [if_pos hcorrected] at hvalue
      rw [hmachine.word (by decide) hless, pure_bind, hvalue,
        ofExact_of_inInt64 (fitsWord_iff_inInt64.mp hless)]
    · next hexact =>
      rw [if_neg hexact] at hvalue
      rw [hvalue, ofExact_of_inInt64 (fitsWord_iff_inInt64.mp hfits)]
  · rfl

theorem inInt64_fmod (hb : b ≠ 0) (hfits : InInt64 b) : InInt64 (a.fmod b) := by
  obtain ⟨hlow, hhigh⟩ := hfits
  obtain ⟨hpos, hneg, hbound⟩ := fmod_bounds a hb
  rw [abs_lt] at hbound
  rcases lt_or_gt_of_ne hb with h | h
  · rw [abs_of_neg h] at hbound
    exact ⟨by omega, by omega⟩
  · rw [abs_of_pos h] at hbound
    exact ⟨by omega, by omega⟩

theorem integerArithmeticOn_modulus (hmachine : machine.Faithful) (hfits : InInt64 b)
    (hb : b ≠ 0) :
    integerArithmeticOn machine .modulus a b fault = pure (.ok (ofInt (a.fmod b))) := by
  have hvalue := fmod_eq_corrected a hb
  have hword := fitsWord_iff_inInt64.mpr (inInt64_fmod (a := a) hb hfits)
  simp only [integerArithmeticOn, beq_false_of_ne hb, Bool.false_eq_true, if_false,
    hmachine.remainder hb, pure_bind]
  split
  · next hcorrected =>
    rw [if_pos hcorrected] at hvalue
    rw [hmachine.word (by decide) (hvalue ▸ hword), pure_bind, hvalue]
  · next hexact =>
    rw [if_neg hexact] at hvalue
    rw [hvalue]

/-- No operator leaves anything to the machine that would not fit. -/
theorem integerArithmeticOn_eq (hmachine : machine.Faithful) (ha : InInt64 a) (hb : InInt64 b)
    (op : BinaryOp) :
    integerArithmeticOn machine op a b fault = pure (integerArithmetic op a b fault) := by
  by_cases hzero : b = 0
  · subst hzero
    cases op <;> rfl
  · cases op
    case floorDivide =>
      rw [integerArithmeticOn_floorDivide hmachine ha hzero, integerArithmetic,
        integerArithmeticOn_floorDivide Machine.faithful_wrapping ha hzero]
      rfl
    case modulus =>
      rw [integerArithmeticOn_modulus hmachine hb hzero, integerArithmetic,
        integerArithmeticOn_modulus Machine.faithful_wrapping hb hzero]
      rfl
    case exponent =>
      simp only [integerArithmetic, integerArithmeticOn]
      split <;> rfl
    all_goals rfl

end Machines

/-! ### Arithmetic -/

/-- What `//` and `%` give for a divisor other than zero. -/
structure FloorDivision (x y : Value) (a b : Int) : Prop where
  quotient : ExactOrFloat (applyBinary .floorDivide x y) ⌊(a / b : ℚ)⌋
    (floor (floatOfInt a / floatOfInt b))
  remainder : ∃ r : BoundedInt, applyBinary .modulus x y = .ok (.int r) ∧ InInt64 r.val ∧
    (0 < b → 0 ≤ r.val) ∧ (b < 0 → r.val ≤ 0) ∧ |r.val| < |b| ∧
      ∀ q : BoundedInt, applyBinary .floorDivide x y = .ok (.int q) → q.val * b + r.val = a

/-- What the operators give for two values that count as the integers `a` and `b`. -/
structure IntegerArithmetic (x y : Value) (a b : Int) : Prop where
  add : ExactOrFloat (applyBinary .add x y) (a + b) (floatOfInt a + floatOfInt b)
  subtract : ExactOrFloat (applyBinary .subtract x y) (a - b) (floatOfInt a - floatOfInt b)
  multiply : ExactOrFloat (applyBinary .multiply x y) (a * b) (floatOfInt a * floatOfInt b)
  negate : ExactOrFloat (applyUnary .negate x) (-a) (-floatOfInt a)
  division : b ≠ 0 → FloorDivision x y a b
  floorDivide_fails : (∃ error, applyBinary .floorDivide x y = .error error) ↔ b = 0
  modulus_fails : (∃ error, applyBinary .modulus x y = .error error) ↔ b = 0
  never_traps : ∀ op fault,
    integerArithmeticOn .trapping op a b fault = some (integerArithmetic op a b fault)

theorem applyBinary_floorDivide (hx : x.asInt64? = some a) (hy : y.asInt64? = some b)
    (hb : b ≠ 0) :
    applyBinary .floorDivide x y =
      .ok (ofExact (a.fdiv b) (floor (floatOfInt a / floatOfInt b))) := by
  rw [applyBinary_of_asInt64? hx hy (by decide), integerArithmetic,
    integerArithmeticOn_floorDivide Machine.faithful_wrapping (inInt64_of_asInt64? hx) hb]
  rfl

theorem applyBinary_modulus (hx : x.asInt64? = some a) (hy : y.asInt64? = some b) (hb : b ≠ 0) :
    applyBinary .modulus x y = .ok (ofInt (a.fmod b)) := by
  rw [applyBinary_of_asInt64? hx hy (by decide), integerArithmetic,
    integerArithmeticOn_modulus Machine.faithful_wrapping (inInt64_of_asInt64? hy) hb]
  rfl

theorem applyUnary_negate (hx : x.asInt64? = some a) :
    applyUnary .negate x = .ok (ofExact (-a) (-floatOfInt a)) := by
  obtain ⟨flag, rfl, rfl⟩ | ⟨n, rfl, hn, rfl⟩ := bool_or_int_of_asInt64? hx
  · cases flag <;> rfl
  · exact if_pos hn

/-- The quotient of the least word by minus one is the only one that does not fit. -/
theorem isFinite_floor_div (ha : InInt64 a) (hb : b ≠ 0) (h : ¬ InInt64 (a.fdiv b)) :
    (floor (floatOfInt a / floatOfInt b)).isFinite = true := by
  rcases fitsWord_tdiv ha hb with hfits | ⟨rfl, rfl⟩
  · refine absurd ?_ h
    rw [fdiv_eq_corrected a hb]
    split
    · next hcorrected => exact fitsWord_tdiv_sub_one ha hcorrected.1 hb
    · exact hfits
  · decide +kernel

theorem floorDivision (hx : x.asInt64? = some a) (hy : y.asInt64? = some b) (hb : b ≠ 0) :
    FloorDivision x y a b where
  quotient := by
    rw [floor_div, applyBinary_floorDivide hx hy hb]
    exact exactOrFloat_ofExact (isFinite_floor_div (inInt64_of_asInt64? hx) hb)
  remainder := by
    have hfits := inInt64_fmod (a := a) hb (inInt64_of_asInt64? hy)
    obtain ⟨r, hr, heq⟩ := exists_ofInt hfits
    obtain ⟨hpos, hneg, hless⟩ := fmod_bounds a hb
    rw [applyBinary_modulus hx hy hb, heq, applyBinary_floorDivide hx hy hb]
    refine ⟨r, rfl, hr ▸ hfits, hr ▸ hpos, hr ▸ hneg, hr ▸ hless, fun q hq => ?_⟩
    have hquotient := Except.ok.inj hq
    rw [ofExact] at hquotient
    split at hquotient
    · next hexact =>
      obtain ⟨n, hn, hint⟩ := exists_ofInt hexact
      rw [hint] at hquotient
      obtain rfl := Value.int.inj hquotient
      rw [hr, hn, Int.mul_comm]
      exact Int.mul_fdiv_add_fmod a b
    · next hexact =>
      have hfinite := isFinite_floor_div (inInt64_of_asInt64? hx) hb hexact
      obtain ⟨n, -, hfloat⟩ := exists_ofFloat hfinite
      rw [hfloat] at hquotient
      cases hquotient

/-- Arithmetic on signed 64-bit integers, and on booleans as zero and one, is exact or gives a
float: sums, differences, products, negations and quotients rounded down are the exact integer where
it fits and a float elsewhere, and remainders are always exact. Only a division by zero fails, and
nothing is left to the machine that it could trap on. -/
theorem integer_arithmetic (hx : x.asInt64? = some a) (hy : y.asInt64? = some b) :
    IntegerArithmetic x y a b := by
  have ha := inInt64_of_asInt64? hx
  have hb := inInt64_of_asInt64? hy
  have hafloat := natAbs_lt_of_inInt64 ha
  have hbfloat := natAbs_lt_of_inInt64 hb
  constructor
  case add =>
    rw [applyBinary_of_asInt64? hx hy (by decide)]
    exact exactOrFloat_ofExact fun _ => isFinite_add_floatOfInt hafloat hbfloat
  case subtract =>
    rw [applyBinary_of_asInt64? hx hy (by decide)]
    exact exactOrFloat_ofExact fun _ => isFinite_sub_floatOfInt hafloat hbfloat
  case multiply =>
    rw [applyBinary_of_asInt64? hx hy (by decide)]
    exact exactOrFloat_ofExact fun _ => isFinite_mul_floatOfInt hafloat hbfloat
  case negate =>
    rw [applyUnary_negate hx]
    exact exactOrFloat_ofExact fun _ => isFinite_neg (isFinite_floatOfInt hafloat)
  case division => exact floorDivision hx hy
  case floorDivide_fails =>
    refine ⟨fun ⟨error, herror⟩ => ?_, fun hzero => ?_⟩
    · by_contra hne
      rw [applyBinary_floorDivide hx hy hne] at herror
      cases herror
    · subst hzero
      exact ⟨_, applyBinary_of_asInt64? hx hy (by decide)⟩
  case modulus_fails =>
    refine ⟨fun ⟨error, herror⟩ => ?_, fun hzero => ?_⟩
    · by_contra hne
      rw [applyBinary_modulus hx hy hne] at herror
      cases herror
    · subst hzero
      exact ⟨_, applyBinary_of_asInt64? hx hy (by decide)⟩
  case never_traps =>
    exact fun op fault => integerArithmeticOn_eq Machine.faithful_trapping ha hb op

/-- The least word and `-1`, where the quotient does not fit, and `-7` and `true`. -/
theorem integer_arithmetic_of_least :
    IntegerArithmetic (ofInt (-0x8000000000000000)) (ofInt (-1)) (-0x8000000000000000) (-1) ∧
      IntegerArithmetic (ofInt (-7)) (bool true) (-7) 1 :=
  ⟨integer_arithmetic rfl rfl, integer_arithmetic rfl rfl⟩

example : applyBinary .floorDivide (ofInt (-7)) (ofInt 2) = .ok (ofInt (-4)) := rfl

/-! ### Powers and shifts -/

theorem ofFloat_ne_int (x : Float) (n : BoundedInt) : ofFloat x ≠ .int n := by
  rw [ofFloat]
  split <;> nofun

/-- What `**` gives for an exponent that is not negative: the exact power where that fits, unless
the exponent of `-1`, `0` or `1` takes more than 32 bits, and what a computed float makes
elsewhere. -/
structure Power (result : Except Error Value) (a : Int) (exponent : Nat) (computed : Float) :
    Prop where
  exact : InInt64 (a ^ exponent) → 1 < a.natAbs ∨ exponent < 2 ^ 32 →
    ∃ n : BoundedInt, n.val = a ^ exponent ∧ result = .ok (.int n)
  float : ¬ (InInt64 (a ^ exponent) ∧ (1 < a.natAbs ∨ exponent < 2 ^ 32)) →
    result = .ok (ofFloat computed)

/-- What the operators `**`, `<<` and `>>` give for two values that count as the integers `a` and
`b`. A shift to the left drops the bits that leave the word. -/
structure PowersAndShifts (x y : Value) (a b : Int) : Prop where
  power : 0 ≤ b →
    Power (applyBinary .exponent x y) a b.toNat ((floatOfInt a).pow (floatOfInt b))
  shiftLeft_succeeds : (∃ value, applyBinary .shiftLeft x y = .ok value) ↔ 0 ≤ b ∧ b < 64
  shiftLeft : ∀ value, applyBinary .shiftLeft x y = .ok value → ∃ n : BoundedInt,
    value = .int n ∧ InInt64 n.val ∧ n.val = (a * 2 ^ b.toNat).bmod (2 ^ 64) ∧
      (n.val = a * 2 ^ b.toNat ↔ InInt64 (a * 2 ^ b.toNat))
  shiftRight_succeeds : (∃ value, applyBinary .shiftRight x y = .ok value) ↔ 0 ≤ b ∧ b < 64
  shiftRight : ∀ value, applyBinary .shiftRight x y = .ok value → ∃ n : BoundedInt,
    value = .int n ∧ InInt64 n.val ∧ n.val = ⌊(a / 2 ^ b.toNat : ℚ)⌋

/-- A power of more than 32 bits in the exponent fits only for the bases that stay small. -/
theorem lt_of_inInt64_pow {exponent : Nat} (ha : 1 < a.natAbs) (h : InInt64 (a ^ exponent)) :
    exponent < 2 ^ 32 := by
  by_contra hlarge
  have hbase : 2 ^ exponent ≤ a.natAbs ^ exponent := Nat.pow_le_pow_left ha exponent
  have hexponent : 2 ^ 64 ≤ 2 ^ exponent := Nat.pow_le_pow_right two_pos (by omega)
  have hfits := natAbs_lt_of_inInt64 h
  rw [Int.natAbs_pow] at hfits
  omega

theorem applyBinary_exponent (hx : x.asInt64? = some a) (hy : y.asInt64? = some b) (hb : 0 ≤ b) :
    applyBinary .exponent x y = .ok (if b < 2 ^ 32 ∧ InInt64 (a ^ b.toNat) then ofInt (a ^ b.toNat)
      else ofFloat ((floatOfInt a).pow (floatOfInt b))) := by
  have hresult : applyBinary .exponent x y = .ok (ofChecked
      (if b < 2 ^ 32 then checkedPower 64 a b.toNat else none)
      ((floatOfInt a).pow (floatOfInt b))) := by
    rw [applyBinary_of_asInt64? hx hy (by decide), integerArithmetic]
    simp only [integerArithmeticOn, if_neg hb.not_gt]
    rfl
  rw [hresult, checkedPower_eq]
  by_cases hsmall : b < 2 ^ 32
  · by_cases hfits : InInt64 (a ^ b.toNat)
    · rw [if_pos hsmall, if_pos ⟨hsmall, hfits⟩,
        checked_of_fitsWord (fitsWord_iff_inInt64.mpr hfits), ofChecked]
    · rw [if_pos hsmall, if_neg fun h => hfits h.2,
        checked_of_not_fitsWord (mt fitsWord_iff_inInt64.mp hfits), ofChecked]
  · rw [if_neg hsmall, if_neg fun h => hsmall h.1, ofChecked]

theorem power_exponent (hx : x.asInt64? = some a) (hy : y.asInt64? = some b) (hb : 0 ≤ b) :
    Power (applyBinary .exponent x y) a b.toNat ((floatOfInt a).pow (floatOfInt b)) where
  exact hfits hbase := by
    have hsmall : b.toNat < 2 ^ 32 := hbase.elim (lt_of_inInt64_pow · hfits) id
    obtain ⟨n, hn, heq⟩ := exists_ofInt hfits
    rw [applyBinary_exponent hx hy hb, if_pos ⟨by omega, hfits⟩, heq]
    exact ⟨n, hn, rfl⟩
  float hnot := by
    rw [applyBinary_exponent hx hy hb, if_neg fun h => hnot ⟨h.2, .inr (by omega)⟩]

theorem inInt64_toInt (w : BitVec 64) : InInt64 w.toInt :=
  ⟨BitVec.le_toInt w, BitVec.toInt_lt⟩

theorem toInt_word (ha : InInt64 a) : (word a).toInt = a := by
  rw [word, BitVec.toInt_ofInt]
  exact lowWord_of_fitsWord (by decide) (fitsWord_iff_inInt64.mpr ha)

theorem toInt_shiftLeft_word (a : Int) (places : Nat) :
    (word a <<< places).toInt = (a * 2 ^ places).bmod (2 ^ 64) := by
  rw [word, BitVec.toInt_shiftLeft, BitVec.toNat_ofInt, Nat.shiftLeft_eq, Nat.cast_mul,
    Int.toNat_of_nonneg (Int.emod_nonneg a (by decide)), Int.emod_mul_bmod]
  norm_cast

theorem toInt_sshiftRight_word (ha : InInt64 a) (places : Nat) :
    ((word a).sshiftRight places).toInt = ⌊(a / 2 ^ places : ℚ)⌋ := by
  rw [BitVec.toInt_sshiftRight, toInt_word ha, Int.shiftRight_eq_div_pow,
    ← Rat.floor_intCast_div_natCast]
  norm_cast

theorem applyBinary_shift {op : BinaryOp} (hx : x.asInt64? = some a) (hy : y.asInt64? = some b)
    (hop : op = .shiftLeft ∨ op = .shiftRight) :
    applyBinary op x y = bitwise op a b (unsupported op x y) := by
  rcases hop with rfl | rfl <;>
    simp [applyBinary, isNull_of_asInt64? hx, isNull_of_asInt64? hy, applyStrict, bitwiseValues,
      hx, hy]

theorem applyBinary_shiftLeft (hx : x.asInt64? = some a) (hy : y.asInt64? = some b)
    (value : Value) : applyBinary .shiftLeft x y = .ok value ↔
      (0 ≤ b ∧ b < 64) ∧ ofInt ((a * 2 ^ b.toNat).bmod (2 ^ 64)) = value := by
  rw [applyBinary_shift hx hy (.inl rfl), bitwise, toInt_shiftLeft_word]
  split <;> simp [*]

theorem applyBinary_shiftRight (hx : x.asInt64? = some a) (hy : y.asInt64? = some b)
    (value : Value) : applyBinary .shiftRight x y = .ok value ↔
      (0 ≤ b ∧ b < 64) ∧ ofInt ⌊(a / 2 ^ b.toNat : ℚ)⌋ = value := by
  rw [applyBinary_shift hx hy (.inr rfl), bitwise, toInt_sshiftRight_word (inInt64_of_asInt64? hx)]
  split <;> simp [*]

/-- The low bits of a number are the number exactly if it fits. -/
theorem bmod_eq_iff_inInt64 (a : Int) : a.bmod (2 ^ 64) = a ↔ InInt64 a := by
  constructor
  · intro h
    rw [← h, ← BitVec.toInt_ofInt]
    exact inInt64_toInt _
  · exact fun h => lowWord_of_fitsWord (by decide) (fitsWord_iff_inInt64.mpr h)

/-- A power with an exponent that is not negative is exact where it fits, at least for every
exponent of 32 bits and for every base but `-1`, `0` and `1`. Shifts succeed by fewer than 64
places: one to the right rounds down, and one to the left is exact where the product fits. -/
theorem powers_and_shifts (hx : x.asInt64? = some a) (hy : y.asInt64? = some b) :
    PowersAndShifts x y a b where
  power := power_exponent hx hy
  shiftLeft_succeeds := by simp [applyBinary_shiftLeft hx hy]
  shiftLeft value hvalue := by
    obtain ⟨-, rfl⟩ := (applyBinary_shiftLeft hx hy value).mp hvalue
    have hfits : InInt64 ((a * 2 ^ b.toNat).bmod (2 ^ 64)) := by
      rw [← toInt_shiftLeft_word]
      exact inInt64_toInt _
    obtain ⟨n, hn, heq⟩ := exists_ofInt hfits
    refine ⟨n, heq, hn ▸ hfits, hn, ?_⟩
    rw [hn]
    exact bmod_eq_iff_inInt64 _
  shiftRight value hvalue := by
    obtain ⟨-, rfl⟩ := (applyBinary_shiftRight hx hy value).mp hvalue
    have hfits : InInt64 ⌊(a / 2 ^ b.toNat : ℚ)⌋ := by
      rw [← toInt_sshiftRight_word (inInt64_of_asInt64? hx)]
      exact inInt64_toInt _
    obtain ⟨n, hn, heq⟩ := exists_ofInt hfits
    exact ⟨n, heq, hn ▸ hfits, hn⟩
  shiftRight_succeeds := by simp [applyBinary_shiftRight hx hy]

/-- The least power of `-2`, the last bit of a word, and an odd number rounded down. -/
theorem powers_and_shifts_of_least :
    PowersAndShifts (ofInt (-2)) (ofInt 63) (-2) 63 ∧
      PowersAndShifts (ofInt (-7)) (bool true) (-7) 1 :=
  ⟨powers_and_shifts rfl rfl, powers_and_shifts rfl rfl⟩

/-- A power of `1` is no integer where its exponent takes more than 32 bits, and a shift to the left
turns `1` into the least integer. -/
theorem powers_and_shifts_not_exact :
    ((1 : Int) ^ 0x100000000 = 1 ∧
      ∀ n, applyBinary .exponent (ofInt 1) (ofInt 0x100000000) ≠ .ok (.int n)) ∧
    ((1 : Int) * 2 ^ 63 = 0x8000000000000000 ∧
      applyBinary .shiftLeft (ofInt 1) (ofInt 63) = .ok (ofInt (-0x8000000000000000))) := by
  refine ⟨⟨one_pow _, fun n hn => ?_⟩, by decide, rfl⟩
  exact ofFloat_ne_int _ n (Except.ok.inj hn)

end StreamQuery.Value
