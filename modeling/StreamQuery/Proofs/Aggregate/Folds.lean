import StreamQuery.Proofs.Aggregate.Histories
import StreamQuery.Proofs.Number.Range

/-!
# Folds of numbers

The sum, the product and the mean fold an operator over the inputs that are not null. Their
accumulator tells by null alone that there is no input yet, and the operator gives null for a result
out of the range of floats. So a fold that has come to null goes on with the next input as if that
were the first: the inputs folded are those since the fold last came to null, while the mean divides
by the number of all.
-/

namespace StreamQuery

/-- Null, a number, or a boolean, which counts as zero or one. -/
def Value.isNumeric (x : Value) : Bool :=
  x.isNull || x.asFloat?.isSome

/-- An operator over the inputs that are not null, from the left; null if there are none. -/
def leftFold (op : BinaryOp) (xs : List Value) : Except Error Value :=
  match kept xs with
  | [] => .ok .null
  | first :: rest => rest.foldlM (Value.applyBinary op) first

/-- An aggregate function that folds an operator, and what it makes of the fold and a number of
inputs. -/
structure NumericFold where
  function : Aggregate
  op : BinaryOp
  finish : Nat → Value → Except Error Value

namespace NumericFold

/-- The sum of the inputs. -/
def sum : NumericFold :=
  ⟨.sum, .add, fun _ total => .ok total⟩

/-- The product of the inputs. -/
def product : NumericFold :=
  ⟨.product, .multiply, fun _ total => .ok total⟩

/-- The sum of the inputs divided by their number. -/
def mean : NumericFold :=
  ⟨.average, .add, fun count total => Value.applyBinary .divide total (.ofNat count)⟩

/-- What a function makes of inputs to fold and a number of inputs. -/
def result (fold : NumericFold) (xs : List Value) (count : Nat) : Except Error Value := do
  let total ← leftFold fold.op xs
  fold.finish count total

end NumericFold

/-- Whether the fold of inputs is null. -/
def comesToNull (op : BinaryOp) (xs : List Value) : Bool :=
  match leftFold op xs with
  | .ok total => total.isNull
  | .error _ => false

/-- The inputs since their fold last came to null. -/
def sinceNull (op : BinaryOp) (xs : List Value) : List Value :=
  xs.foldl (fun since x => if comesToNull op since then [x] else since ++ [x]) []

/-- Inputs whose fold left the range of floats. -/
structure Lost (op : BinaryOp) (xs : List Value) : Prop where
  nonempty : kept xs ≠ []
  null : leftFold op xs = .ok .null

/-- Whether only null comes after a fold has left the range of floats. -/
def NeverResumes (op : BinaryOp) (xs : List Value) : Prop :=
  ∀ ys x, ys ++ [x] <+: xs → Lost op ys → x.isNull = true

/-! ### Operators on numbers -/

namespace Value

theorem isNull_iff {x : Value} : x.isNull = true ↔ x = .null := by
  cases x <;> simp [isNull]

theorem exists_asFloat {x : Value} (h : x.isNumeric = true) (hx : x.isNull = false) :
    ∃ number, x.asFloat? = some number := by
  rw [isNumeric, hx, Bool.false_or] at h
  exact Option.isSome_iff_exists.mp h

theorem isNumeric_ofInt (n : Int) : (ofInt n).isNumeric = true := by
  unfold ofInt
  split <;> rfl

theorem isNumeric_ofFloat (x : Float) : (ofFloat x).isNumeric = true := by
  unfold ofFloat
  split <;> rfl

theorem isNumeric_ofExact (exact : Int) (otherwise : Float) :
    (ofExact exact otherwise).isNumeric = true := by
  unfold ofExact
  split
  · exact isNumeric_ofInt exact
  · exact isNumeric_ofFloat otherwise

theorem applyBinary_eq {op : BinaryOp} (hop : op = .add ∨ op = .multiply ∨ op = .divide)
    (a b : Value) : applyBinary op a b =
      if a.isNull || b.isNull then .ok .null else applyStrict op a b := by
  rcases hop with rfl | rfl | rfl <;> rfl

theorem applyStrict_numeric {op : BinaryOp} (hop : op = .add ∨ op = .multiply) {a b : Value}
    {x y : Float} (ha : a.asFloat? = some x) (hb : b.asFloat? = some y) :
    applyStrict op a b = arithmetic op a b := by
  cases b with
  | null | str _ | list _ | object _ => cases hb
  | bool _ | int _ | float _ =>
    cases a with
    | null | str _ | list _ | object _ => cases ha
    | bool _ | int _ | float _ => rcases hop with rfl | rfl <;> rfl

theorem arithmetic_numeric {op : BinaryOp} (hop : op = .add ∨ op = .multiply) {a b : Value}
    {x y : Float} (ha : a.asFloat? = some x) (hb : b.asFloat? = some y) :
    ∃ c, arithmetic op a b = .ok c ∧ c.isNumeric = true := by
  unfold arithmetic
  split
  · rcases hop with rfl | rfl
    · exact ⟨_, rfl, isNumeric_ofExact _ _⟩
    · exact ⟨_, rfl, isNumeric_ofExact _ _⟩
  · rw [ha, hb]
    rcases hop with rfl | rfl
    · exact ⟨_, rfl, isNumeric_ofFloat _⟩
    · exact ⟨_, rfl, isNumeric_ofFloat _⟩

/-- The sum and the product of numbers are numbers or null. -/
theorem applyBinary_numeric {op : BinaryOp} (hop : op = .add ∨ op = .multiply) {a b : Value}
    (ha : a.isNumeric = true) (hb : b.isNumeric = true) :
    ∃ c, applyBinary op a b = .ok c ∧ c.isNumeric = true := by
  rw [applyBinary_eq (hop.imp_right .inl)]
  cases hnullA : a.isNull with
  | true => exact ⟨.null, rfl, rfl⟩
  | false =>
    cases hnullB : b.isNull with
    | true => exact ⟨.null, rfl, rfl⟩
    | false =>
      obtain ⟨x, hx⟩ := exists_asFloat ha hnullA
      obtain ⟨y, hy⟩ := exists_asFloat hb hnullB
      obtain ⟨c, hc, hnumeric⟩ := arithmetic_numeric hop hx hy
      exact ⟨c, (applyStrict_numeric hop hx hy).trans hc, hnumeric⟩

theorem isFinite_asFloat {v : Value} {x : Float} (h : v.asFloat? = some x) : x.isFinite = true := by
  cases v with
  | int n =>
    cases h
    have hlower := n.lower
    have hupper := n.upper
    exact Number.isFinite_floatOfInt (by omega)
  | float finite =>
    cases h
    exact finite.finite
  | bool b =>
    cases h
    cases b <;> decide
  | null | str _ | list _ | object _ => cases h

theorem floatOfInt_asInt64 {v : Value} {n : Int} {x : Float} (hn : v.asInt64? = some n)
    (hx : v.asFloat? = some x) : Number.floatOfInt n = x := by
  cases v with
  | int m =>
    simp only [asInt64?, Option.ite_none_right_eq_some, Option.some.injEq] at hn
    cases hx
    rw [hn.2]
  | bool b =>
    cases hn
    cases hx
    cases b <;> decide
  | float _ => cases hn
  | null | str _ | list _ | object _ => cases hx

theorem integerArithmetic_divide (a b : Int) (fault : Error) :
    integerArithmetic .divide a b fault =
      if b == 0 then .error (.eval .divisionByZero)
      else .ok (ofFloat (Number.floatOfInt a / Number.floatOfInt b)) :=
  rfl

/-- A number divided by a count is the quotient of the floats. -/
theorem applyBinary_divide_ofNat {v : Value} {x : Float} (hx : v.asFloat? = some x) {n : Nat}
    (hne : n ≠ 0) (hn : n < 2 ^ 64) :
    applyBinary .divide v (.ofNat n) = .ok (ofFloat (x / Number.floatOfInt n)) := by
  have hlower : (-0x8000000000000000 : Int) ≤ n := by omega
  have hupper : (n : Int) < 0x10000000000000000 := by omega
  have hcount : ofNat n = .int ⟨n, hlower, hupper⟩ := by
    rw [ofNat, ofInt, dif_pos ⟨hlower, hupper⟩]
  have hzero : (Number.floatOfInt n == 0.0) = false :=
    Number.floatOfInt_beq_zero (by omega) (by omega)
  have hnull : v.isNull = false := by
    cases v <;> first | rfl | cases hx
  rw [applyBinary_eq (.inr (.inr rfl)), hnull, hcount]
  change arithmetic .divide v (.int ⟨n, hlower, hupper⟩) = _
  rw [arithmetic]
  split
  · next a b ha hb =>
    simp only [asInt64?, Option.ite_none_right_eq_some, Option.some.injEq] at hb
    have hb0 : ¬ b = 0 := by omega
    rw [integerArithmetic_divide, floatOfInt_asInt64 ha hx, ← hb.2]
    simp [hne]
  · rw [hx]
    simp [asFloat?, floatArithmetic, hzero]

end Value

/-! ### Folds -/

section Folds

variable {op : BinaryOp} {xs : List Value} {x : Value}

theorem leftFold_singleton (h : x.isNull = false) : leftFold op [x] = .ok x := by
  simp only [leftFold, kept, List.filter, h]
  rfl

theorem leftFold_of_kept_nil (h : kept xs = []) : leftFold op xs = .ok .null := by
  rw [leftFold, h]

theorem leftFold_append_null (h : x.isNull = true) : leftFold op (xs ++ [x]) = leftFold op xs := by
  rw [leftFold, leftFold, kept_append_singleton, if_pos h]

theorem leftFold_append_first (h : kept xs = []) : leftFold op (xs ++ [x]) = leftFold op [x] := by
  have hkept : kept (xs ++ [x]) = kept [x] := by
    have happend : kept (xs ++ [x]) = kept xs ++ kept [x] := List.filter_append xs [x]
    rw [happend, h, List.nil_append]
  rw [leftFold, leftFold, hkept]

theorem leftFold_append_op (hne : kept xs ≠ []) (h : x.isNull = false) :
    leftFold op (xs ++ [x]) = leftFold op xs >>= fun total => Value.applyBinary op total x := by
  obtain ⟨first, rest, hxs⟩ := List.exists_cons_of_ne_nil hne
  rw [leftFold, leftFold, kept_append_singleton, h, hxs]
  simp [List.foldlM_append]

theorem comesToNull_iff : comesToNull op xs = true ↔ leftFold op xs = .ok .null := by
  unfold comesToNull
  cases leftFold op xs with
  | error error => simp
  | ok total => simp [Value.isNull_iff]

theorem kept_ne_nil (h : comesToNull op xs = false) : kept xs ≠ [] := by
  intro hkept
  rw [comesToNull_iff.mpr (leftFold_of_kept_nil hkept)] at h
  cases h

/-- What comes to null has no input, or is lost. -/
theorem lost_of_comesToNull (h : comesToNull op xs = true) : kept xs = [] ∨ Lost op xs := by
  by_cases hkept : kept xs = []
  · exact .inl hkept
  · exact .inr ⟨hkept, comesToNull_iff.mp h⟩

/-- Folds that are equal and not null go on equally. -/
theorem leftFold_append_congr {ys : List Value} (h : leftFold op xs = leftFold op ys)
    (hnull : comesToNull op xs = false) (x : Value) :
    leftFold op (xs ++ [x]) = leftFold op (ys ++ [x]) := by
  have hnull' : comesToNull op ys = false := by
    rw [← hnull, comesToNull, comesToNull, h]
  cases hx : x.isNull with
  | true => rw [leftFold_append_null hx, leftFold_append_null hx, h]
  | false =>
    rw [leftFold_append_op (kept_ne_nil hnull) hx, leftFold_append_op (kept_ne_nil hnull') hx, h]

theorem sinceNull_append_singleton (op : BinaryOp) (xs : List Value) (x : Value) :
    sinceNull op (xs ++ [x]) =
      if comesToNull op (sinceNull op xs) then [x] else sinceNull op xs ++ [x] := by
  rw [sinceNull, List.foldl_append]
  rfl

theorem sinceNull_suffix (op : BinaryOp) (xs : List Value) : sinceNull op xs <:+ xs := by
  induction xs using List.reverseRecOn with
  | nil => exact List.suffix_rfl
  | append_singleton xs x ih =>
    rw [sinceNull_append_singleton]
    split
    · exact List.suffix_append xs [x]
    · obtain ⟨before, hbefore⟩ := ih
      exact ⟨before, by rw [← List.append_assoc, hbefore]⟩

/-- A fold that never resumes is a fold of all inputs. -/
theorem leftFold_sinceNull (h : NeverResumes op xs) {ys : List Value} (hys : ys <+: xs) :
    leftFold op (sinceNull op ys) = leftFold op ys := by
  induction ys using List.reverseRecOn with
  | nil => rfl
  | append_singleton ys x ih =>
    have heq := ih ((List.prefix_append ys [x]).trans hys)
    rw [sinceNull_append_singleton]
    cases hnull : comesToNull op (sinceNull op ys) with
    | false => exact leftFold_append_congr heq hnull x
    | true =>
      have hys' : comesToNull op ys = true := by rw [comesToNull, ← heq]; exact hnull
      rcases lost_of_comesToNull hys' with hkept | hlost
      · exact (leftFold_append_first hkept).symm
      · -- What comes after a lost fold is null, and leaves either fold at null.
        have hx := h ys x hys hlost
        rw [leftFold_append_null hx, hlost.null]
        rw [if_pos rfl, ← List.nil_append [x], leftFold_append_null hx]
        rfl

theorem Lost.append (hop : ∀ x, Value.applyBinary op .null x = .ok .null) (h : Lost op xs)
    (x : Value) : Lost op (xs ++ [x]) := by
  obtain ⟨hne, hnull⟩ := h
  constructor
  · rw [kept_append_singleton]
    split
    · exact hne
    · exact List.append_ne_nil_of_left_ne_nil hne _
  · cases hx : x.isNull with
    | true => rw [leftFold_append_null hx, hnull]
    | false =>
      rw [leftFold_append_op hne hx, hnull]
      exact hop x

/-- A single input is not out of range. -/
theorem Lost.two_le (h : Lost op xs) : 2 ≤ (kept xs).length := by
  obtain ⟨hne, hnull⟩ := h
  obtain ⟨first, rest, hxs⟩ := List.exists_cons_of_ne_nil hne
  have hmem : first ∈ kept xs := by simp [hxs]
  have hfirst := isNull_of_mem_kept hmem
  cases rest with
  | cons second rest => simp [hxs]
  | nil =>
    rw [leftFold, hxs] at hnull
    cases hnull
    cases hfirst

end Folds

/-! ### What accumulators hold -/

/-- All inputs are numbers or null. -/
def Numeric (xs : List Value) : Prop :=
  ∀ x ∈ xs, x.isNumeric = true

/-- A fold brought up to date with an input. -/
def foldNext (op : BinaryOp) (total x : Value) : Except Error Value :=
  if x.isNull then .ok total
  else if total.isNull then .ok x
  else Value.applyBinary op total x

theorem leftFold_sinceNull_append (op : BinaryOp) (xs : List Value) (x : Value) :
    leftFold op (sinceNull op (xs ++ [x])) =
      leftFold op (sinceNull op xs) >>= fun total => foldNext op total x := by
  rw [sinceNull_append_singleton]
  cases hnull : comesToNull op (sinceNull op xs) with
  | true =>
    -- From null on the input alone is folded, which is how it gets into the accumulator.
    rw [comesToNull_iff.mp hnull, if_pos rfl]
    cases hx : x.isNull with
    | true =>
      rw [Value.isNull_iff.mp hx]
      rfl
    | false =>
      rw [leftFold_singleton hx]
      simp only [bind, Except.bind, foldNext, hx]
      rfl
  | false =>
    rw [if_neg Bool.false_ne_true]
    cases hx : x.isNull with
    | true =>
      rw [leftFold_append_null hx]
      cases leftFold op (sinceNull op xs) with
      | error error => rfl
      | ok total => simp only [bind, Except.bind, foldNext, hx, if_true]
    | false =>
      rw [leftFold_append_op (kept_ne_nil hnull) hx]
      rw [comesToNull] at hnull
      cases htotal : leftFold op (sinceNull op xs) with
      | error error => rfl
      | ok total =>
        rw [htotal] at hnull
        simp only [bind, Except.bind, foldNext, hx, hnull, Bool.false_eq_true, if_false]

theorem exists_leftFold {op : BinaryOp} (hop : op = .add ∨ op = .multiply) {xs : List Value}
    (hxs : Numeric xs) : ∃ total, leftFold op xs = .ok total ∧ total.isNumeric = true := by
  induction xs using List.reverseRecOn with
  | nil => exact ⟨.null, rfl, rfl⟩
  | append_singleton xs x ih =>
    rw [Numeric, List.forall_mem_append, List.forall_mem_singleton] at hxs
    obtain ⟨total, htotal, hnumeric⟩ := ih hxs.1
    cases hx : x.isNull with
    | true => exact ⟨total, (leftFold_append_null hx).trans htotal, hnumeric⟩
    | false =>
      by_cases hkept : kept xs = []
      · exact ⟨x, (leftFold_append_first hkept).trans (leftFold_singleton hx), hxs.2⟩
      · obtain ⟨next, hnext, hnumeric'⟩ := Value.applyBinary_numeric hop hnumeric hxs.2
        refine ⟨next, ?_, hnumeric'⟩
        rw [leftFold_append_op hkept hx, htotal]
        exact hnext

theorem numeric_sinceNull {xs : List Value} (h : Numeric xs) (op : BinaryOp) :
    Numeric (sinceNull op xs) :=
  fun x hx => h x ((sinceNull_suffix op xs).subset hx)

namespace NumericFold

/-- What an accumulator holds of the total and the number of inputs, and what is made of them. -/
structure Sound (fold : NumericFold) (effect : Value → Accumulator.Step)
    (Holds : Accumulator → Value → Nat → Prop) : Prop where
  step : ∀ x, fold.function.step [x] = .ok (effect x)
  op : fold.op = .add ∨ fold.op = .multiply
  empty : Holds .empty .null 0
  advance : ∀ {accumulator total count x next value}, Holds accumulator total count →
    foldNext fold.op total x = .ok next →
    fold.finish (count + if x.isNull then 0 else 1) next = .ok value →
    ∃ after, effect x accumulator = .ok (value, after) ∧
      Holds after next (count + if x.isNull then 0 else 1)
  finish_null : ∀ count, fold.finish count .null = .ok .null
  finish_ok : ∀ {count total}, count ≠ 0 → total.isNumeric = true →
    ∃ value, fold.finish count total = .ok value
  null_of_finish : ∀ {count total}, 2 ≤ count → count < 2 ^ 64 → total.isNumeric = true →
    fold.finish count total = .ok .null → total.isNull = true

/-- A function that shows the fold itself. -/
theorem sound_of_fold {function : Aggregate} {op : BinaryOp} (hop : op = .add ∨ op = .multiply)
    (hstep : ∀ x, function.step [x] = .ok (Accumulator.fold (Value.applyBinary op) x)) :
    Sound ⟨function, op, fun _ total => .ok total⟩ (Accumulator.fold (Value.applyBinary op))
      fun accumulator total _ => accumulator.current = total where
  step := hstep
  op := hop
  empty := rfl
  advance := by
    rintro accumulator _ count x next _ rfl hnext ⟨⟩
    rw [foldNext] at hnext
    cases hx : x.isNull with
    | true =>
      rw [hx] at hnext
      cases hnext
      exact ⟨accumulator, Accumulator.fold_of_null hx, rfl⟩
    | false =>
      cases hcurrent : accumulator.current.isNull with
      | true =>
        rw [hx, hcurrent] at hnext
        cases hnext
        exact ⟨_, Accumulator.fold_of_current_null hx hcurrent, rfl⟩
      | false =>
        rw [hx, hcurrent] at hnext
        exact ⟨_, Accumulator.fold_of_op hx hcurrent hnext, rfl⟩
  finish_null _ := rfl
  finish_ok _ _ := ⟨_, rfl⟩
  null_of_finish := by
    rintro _ _ _ _ _ ⟨⟩
    rfl

/-- A number divided by the number of inputs is null only when that does not fit a counter. -/
theorem divide_count {total : Value} (hnumeric : total.isNumeric = true)
    (hnull : total.isNull = false) {count : Nat} (hne : count ≠ 0) :
    ∃ quotient, Value.applyBinary .divide total (.ofNat count) = .ok quotient ∧
      (2 ≤ count → count < 2 ^ 64 → quotient.isNull = false) := by
  by_cases hcount : count < 2 ^ 64
  · obtain ⟨x, hx⟩ := Value.exists_asFloat hnumeric hnull
    refine ⟨_, Value.applyBinary_divide_ofNat hx hne hcount, fun htwo _ => ?_⟩
    have hfinite := Number.isFinite_div_floatOfInt (Value.isFinite_asFloat hx)
      (n := count) (by omega) (by omega)
    rw [Value.ofFloat, dif_pos hfinite]
    rfl
  · -- A larger count has no value, and anything divided by null is null.
    have hnone : Value.ofNat count = .null := by
      rw [Value.ofNat, Value.ofInt, dif_neg (by omega)]
    refine ⟨.null, ?_, fun _ h => absurd h hcount⟩
    rw [hnone, Value.applyBinary_eq (.inr (.inr rfl)), Value.isNull, Bool.or_true, if_pos rfl]

/-- What an accumulator holds of a mean. -/
structure Averages (accumulator : Accumulator) (total : Value) (count : Nat) : Prop where
  averaged : accumulator.averaged = (total, count)
  null : count = 0 → total = .null

theorem mean_accumulator {accumulator : Accumulator} {total : Value} {count : Nat}
    (h : accumulator.averaged = (total, count)) (x : Value) :
    Accumulator.mean x accumulator =
      let counted := count + if x.isNull then 0 else 1
      foldNext .add total x >>= fun next =>
        (if counted = 0 then .ok .null else Value.applyBinary .divide next (.ofNat counted)) >>=
          fun quotient => .ok (quotient, .average next counted) := by
  simp only [Accumulator.mean, h, foldNext]
  cases x.isNull with
  | true => by_cases hcount : count = 0 <;> simp [hcount, bind, Except.bind, pure, Except.pure]
  | false =>
    cases total.isNull with
    | true => rfl
    | false => rfl

/-- Without any input the total is null, and so is what is made of it. -/
theorem mean_finish {total : Value} {count : Nat} (h : count = 0 → total = .null) :
    (if count = 0 then .ok .null else Value.applyBinary .divide total (.ofNat count)) =
      mean.finish count total := by
  by_cases hcount : count = 0
  · rw [if_pos hcount, h hcount]
    rfl
  · rw [if_neg hcount]
    rfl

theorem sound_mean : Sound mean Accumulator.mean Averages where
  step _ := rfl
  op := .inl rfl
  empty := ⟨rfl, fun _ => rfl⟩
  advance := by
    rintro accumulator total count x next value ⟨haveraged, hnull⟩ hnext hvalue
    have hnull' : (count + if x.isNull then 0 else 1) = 0 → next = .null := by
      intro hzero
      cases hx : x.isNull with
      | true =>
        simp only [foldNext, hx, if_true, Except.ok.injEq] at hnext hzero
        rw [← hnext, hnull hzero]
      | false => simp [hx] at hzero
    refine ⟨.average next (count + if x.isNull then 0 else 1), ?_, rfl, hnull'⟩
    change foldNext .add total x = .ok next at hnext
    rw [mean_accumulator haveraged]
    simp only [hnext, bind, Except.bind, mean_finish hnull', hvalue]
  finish_null _ := rfl
  finish_ok := by
    intro count total hne hnumeric
    cases hnull : total.isNull with
    | true =>
      rw [Value.isNull_iff.mp hnull]
      exact ⟨.null, rfl⟩
    | false =>
      obtain ⟨quotient, hquotient, -⟩ := divide_count hnumeric hnull hne
      exact ⟨quotient, hquotient⟩
  null_of_finish := by
    intro count total htwo hcount hnumeric hfinish
    by_contra hnull
    have hpos : count ≠ 0 := by omega
    obtain ⟨quotient, hquotient, hne⟩ :=
      divide_count hnumeric (Bool.eq_false_of_not_eq_true hnull) hpos
    have heq : quotient = .null := Except.ok.inj (hquotient.symm.trans hfinish)
    exact absurd (hne htwo hcount) (by simp [heq, Value.isNull])

/-- The functions that fold numbers. -/
def all : List NumericFold :=
  [sum, product, mean]

theorem exists_sound {fold : NumericFold} (h : fold ∈ all) :
    ∃ effect Holds, fold.Sound effect Holds := by
  simp only [all, List.mem_cons, List.not_mem_nil, or_false] at h
  rcases h with rfl | rfl | rfl
  · exact ⟨_, _, sound_of_fold (.inl rfl) fun _ => rfl⟩
  · exact ⟨_, _, sound_of_fold (.inr rfl) fun _ => rfl⟩
  · exact ⟨_, _, sound_mean⟩

/-! ### What the results are -/

section Sound

variable {fold : NumericFold} {effect : Value → Accumulator.Step}
  {Holds : Accumulator → Value → Nat → Prop} {xs : List Value}

/-- What is made of the inputs since the fold last came to null, and of the number of all. -/
def shown (fold : NumericFold) (xs : List Value) : Except Error Value :=
  fold.result (sinceNull fold.op xs) (kept xs).length

theorem Sound.exists_shown (h : fold.Sound effect Holds) (hxs : Numeric xs) :
    ∃ value, fold.shown xs = .ok value := by
  obtain ⟨total, htotal, hnumeric⟩ := exists_leftFold h.op (numeric_sinceNull hxs fold.op)
  rw [shown, result, htotal]
  change ∃ value, fold.finish (kept xs).length total = .ok value
  -- Without any input there is nothing to divide by, but the total is null then.
  by_cases hcount : (kept xs).length = 0
  · have hkept : kept (sinceNull fold.op xs) = [] := by
      have hsub := (sinceNull_suffix fold.op xs).sublist.filter (!·.isNull)
      rw [← kept, ← kept, List.length_eq_zero_iff.mp hcount] at hsub
      exact List.sublist_nil.mp hsub
    rw [leftFold_of_kept_nil hkept] at htotal
    cases htotal
    exact ⟨.null, h.finish_null _⟩
  · exact h.finish_ok hcount hnumeric

/-- An accumulator that holds the total and the number of the inputs shows what is made of them. -/
theorem Sound.summarizes (h : fold.Sound effect Holds) :
    Aggregates.Summarizes Numeric fold.function (fun x => [x])
      fun ys => (fold.shown ys).toOption.getD .null := by
  apply Aggregates.summarizes_of_represents effect fun accumulator ys =>
    ∃ total, leftFold fold.op (sinceNull fold.op ys) = .ok total ∧
      Holds accumulator total (kept ys).length
  · exact h.step
  · exact ⟨.null, rfl, h.empty⟩
  · rintro ys x accumulator hys ⟨total, htotal, hholds⟩
    obtain ⟨next, hnext, -⟩ := exists_leftFold h.op (numeric_sinceNull hys fold.op)
    obtain ⟨value, hvalue⟩ := h.exists_shown hys
    have hlength : (kept (ys ++ [x])).length = (kept ys).length + if x.isNull then 0 else 1 := by
      rw [kept_append_singleton]
      cases x.isNull <;> simp
    have hadvance : foldNext fold.op total x = .ok next := by
      rw [leftFold_sinceNull_append, htotal] at hnext
      exact hnext
    have hfinish : fold.finish ((kept ys).length + if x.isNull then 0 else 1) next = .ok value := by
      rw [shown, result, hnext, hlength] at hvalue
      exact hvalue
    obtain ⟨after, heffect, hafter⟩ := h.advance hholds hadvance hfinish
    rw [hvalue]
    exact ⟨after, heffect, next, hnext, hlength ▸ hafter⟩
  · exact fun xs ys hxs hys x hx => hxs x (hys.subset hx)

/-- If the fold of all inputs is lost and yet the function shows what it is, then the inputs folded
come to null too. -/
theorem Sound.comesToNull_of_shown (h : fold.Sound effect Holds) (hxs : Numeric xs)
    (hlength : (kept xs).length < 2 ^ 64) (hlost : Lost fold.op xs)
    (hshown : fold.shown xs = fold.result xs (kept xs).length) :
    comesToNull fold.op (sinceNull fold.op xs) = true := by
  obtain ⟨total, htotal, hnumeric⟩ := exists_leftFold h.op (numeric_sinceNull hxs fold.op)
  have hnull : fold.result xs (kept xs).length = .ok .null := by
    rw [result, hlost.null]
    exact h.finish_null _
  rw [hnull, shown, result, htotal] at hshown
  rw [comesToNull, htotal]
  exact h.null_of_finish hlost.two_le hlength hnumeric hshown

theorem Sound.neverResumes (h : fold.Sound effect Holds) (hxs : Numeric xs)
    (hlength : (kept xs).length < 2 ^ 64)
    (hshown : ∀ ys, ys <+: xs → fold.shown ys = fold.result ys (kept ys).length) :
    NeverResumes fold.op xs := by
  have hnull : ∀ ys, ys <+: xs → Lost fold.op ys →
      comesToNull fold.op (sinceNull fold.op ys) = true := fun ys hys hlost =>
    h.comesToNull_of_shown (fun x hx => hxs x (hys.subset hx))
      (Nat.lt_of_le_of_lt (hys.filter _).length_le hlength) hlost (hshown ys hys)
  intro ys x hprefix hlost
  have hys := hnull ys ((List.prefix_append ys [x]).trans hprefix) hlost
  have hop : ∀ x, Value.applyBinary fold.op .null x = .ok .null := fun x => by
    rw [Value.applyBinary_eq (h.op.imp_right .inl)]
    rfl
  -- One more input starts afresh from null, while the fold of all inputs stays lost.
  have hnext := hnull (ys ++ [x]) hprefix (hlost.append hop x)
  rw [sinceNull_append_singleton, if_pos hys, comesToNull_iff] at hnext
  cases hx : x.isNull with
  | true => rfl
  | false =>
    rw [leftFold_singleton hx] at hnext
    cases hnext
    cases hx

end Sound

end NumericFold

namespace Aggregates

/-- A sum, a product or a mean, called at one site with numbers or null, whatever happens at other
sites. Each result is that of the inputs since the fold last came to null, and of the number of all
inputs so far. It is the fold of all of them, as long as a fold that has left the range of floats is
followed by null only; and if it is, then the fold is followed by null only. -/
theorem folds_restart {fold : NumericFold} (hfold : fold ∈ NumericFold.all) (site : Site)
    (actions : List AggregateAction) {xs : List Value} (hxs : Numeric xs)
    (hcalls : callsAt site .start actions = xs.map fun x => ⟨fold.function, [x]⟩) :
    resultsAt site {} actions = (prefixes xs).map (fun ys =>
        fold.result (sinceNull fold.op ys) (kept ys).length) ∧
      (∀ result ∈ resultsAt site {} actions, ∃ value, result = .ok value) ∧
      (NeverResumes fold.op xs → resultsAt site {} actions =
        (prefixes xs).map fun ys => fold.result ys (kept ys).length) ∧
      ((kept xs).length < 2 ^ 64 → resultsAt site {} actions =
        (prefixes xs).map (fun ys => fold.result ys (kept ys).length) →
        NeverResumes fold.op xs) := by
  obtain ⟨effect, Holds, hsound⟩ := NumericFold.exists_sound hfold
  -- Results are compared as values, which they are since no step fails on numbers.
  have hok : ∀ ys ∈ prefixes xs, ∃ value, fold.shown ys = .ok value := fun ys hys =>
    hsound.exists_shown fun x hx => hxs x ((prefix_of_mem_prefixes hys).subset hx)
  have hresults : resultsAt site {} actions = (prefixes xs).map fold.shown := by
    rw [hsound.summarizes site actions xs hxs hcalls]
    refine List.map_congr_left fun ys hys => ?_
    obtain ⟨value, hvalue⟩ := hok ys hys
    simp only [hvalue]
    rfl
  refine ⟨hresults, fun result hresult => ?_, fun hnever => ?_, fun hlength hall => ?_⟩
  · rw [hresults, List.mem_map] at hresult
    obtain ⟨ys, hys, rfl⟩ := hresult
    exact hok ys hys
  · rw [hresults]
    refine List.map_congr_left fun ys hys => ?_
    rw [NumericFold.shown, NumericFold.result,
      leftFold_sinceNull hnever (prefix_of_mem_prefixes hys)]
    rfl
  · rw [hresults, List.map_inj_left] at hall
    refine hsound.neverResumes hxs hlength fun ys hys => ?_
    by_cases hne : ys = []
    · rw [hne]
      rfl
    · exact hall ys (mem_prefixes_of_ne_nil hys hne)

/-- Twice this is out of the range of floats. -/
def huge : Value :=
  .float ⟨1e308, by decide +kernel⟩

theorem add_huge : Value.applyBinary .add huge huge = .ok .null := by
  have hsum : Value.ofFloat (1e308 + 1e308) = .null := dif_neg (by decide +kernel)
  exact congrArg Except.ok hsum

/-- Rows of one group that count each input and add it up. -/
def addingRows (xs : List Value) : List AggregateAction :=
  xs.flatMap fun x => [.startRow "a", .call ⟨.count, [x]⟩, .call ⟨.sum, [x]⟩]

theorem callsAt_addingRows (here : Site) (xs : List Value) :
    callsAt ⟨"a", 1⟩ here (addingRows xs) = xs.map fun x => ⟨.sum, [x]⟩ := by
  induction xs generalizing here with
  | nil => rfl
  | cons x xs ih =>
    have hcons : addingRows (x :: xs) = .startRow "a" :: .call ⟨.count, [x]⟩ :: .call ⟨.sum, [x]⟩ ::
      addingRows xs := rfl
    simp [hcons, callsAt, ih, Aggregate.step, Aggregate.arity, Aggregate.stepOf, Site.next]

theorem folds_restart_of_huge :
    let xs : List Value := [huge, .null, huge, .null]
    callsAt ⟨"a", 1⟩ .start (addingRows xs) = xs.map (fun x => ⟨.sum, [x]⟩) ∧ Numeric xs ∧
      NeverResumes .add xs ∧ resultsAt ⟨"a", 1⟩ {} (addingRows xs) =
        [.ok huge, .ok huge, .ok .null, .ok .null] := by
  intro xs
  have hcalls := callsAt_addingRows .start xs
  have hnumeric : Numeric xs := List.all_eq_true.mp rfl
  have hnever : NeverResumes .add xs := by
    rintro ys x ⟨rest, hrest⟩ hlost
    have htwo := hlost.two_le
    have hlength := htwo.trans (List.length_filter_le _ ys)
    rcases ys with _ | ⟨a, _ | ⟨b, _ | ⟨c, _ | ⟨d, ys⟩⟩⟩⟩
    · simp at hlength
    · simp at hlength
    · simp only [xs, List.cons_append, List.nil_append, List.cons.injEq] at hrest
      obtain ⟨rfl, rfl, -⟩ := hrest
      exact absurd htwo (by decide)
    · simp only [xs, List.cons_append, List.nil_append, List.cons.injEq] at hrest
      rw [hrest.2.2.2.1]
      rfl
    · simp [xs] at hrest
  have hsum : NumericFold.sum ∈ NumericFold.all := List.mem_cons_self
  obtain ⟨-, -, hresults, -⟩ :=
    folds_restart hsum ⟨"a", 1⟩ (addingRows xs) hnumeric hcalls
  refine ⟨hcalls, hnumeric, hnever, (hresults hnever).trans ?_⟩
  have hadd : NumericFold.sum.result [huge, .null, huge] 2 = .ok .null := add_huge
  have hadd' : NumericFold.sum.result xs 2 = .ok .null := add_huge
  change [_, _, NumericFold.sum.result [huge, .null, huge] 2, NumericFold.sum.result xs 2] = _
  rw [hadd, hadd']
  rfl

/-- Once out of the range of floats, a sum starts afresh with the next input, unlike the fold of all
inputs. -/
theorem sum_restarts :
    let one : Value := .int ⟨1, by decide, by decide⟩
    let xs := [huge, huge, one]
    callsAt ⟨"a", 1⟩ .start (addingRows xs) = xs.map (fun x => ⟨.sum, [x]⟩) ∧ Numeric xs ∧
      resultsAt ⟨"a", 1⟩ {} (addingRows xs) = [.ok huge, .ok .null, .ok one] ∧
      (prefixes xs).map (fun ys => NumericFold.sum.result ys (kept ys).length) =
        [.ok huge, .ok .null, .ok .null] := by
  intro one xs
  have hcalls := callsAt_addingRows .start xs
  have hlost : Lost .add [huge, huge] := ⟨List.cons_ne_nil _ _, add_huge⟩
  have hnull : leftFold .add xs = .ok .null := (hlost.append (fun _ => rfl) one).null
  refine ⟨hcalls, List.all_eq_true.mp rfl, ?_, ?_⟩
  · let add := Accumulator.fold (Value.applyBinary .add)
    have hfirst : add huge .empty = .ok (huge, .running huge) :=
      Accumulator.fold_of_current_null rfl rfl
    have hsecond : add huge (.running huge) = .ok (.null, .running .null) :=
      Accumulator.fold_of_op rfl rfl add_huge
    have hthird : add one (.running .null) = .ok (one, .running one) :=
      Accumulator.fold_of_current_null rfl rfl
    have hsite : ({} : Aggregates).site = .start := rfl
    rw [resultsAt_eq_run, slotAt_empty, hsite, hcalls]
    change Accumulator.run .empty [add huge, add huge, add one] = _
    simp only [Accumulator.run, hfirst, hsecond, hthird]
  · have htwo : NumericFold.sum.result [huge, huge] 2 = .ok .null := add_huge
    have hthree : NumericFold.sum.result xs 3 = .ok .null := by
      rw [NumericFold.result, NumericFold.sum, hnull]
      rfl
    change [_, NumericFold.sum.result [huge, huge] 2, NumericFold.sum.result xs 3] = _
    rw [htwo, hthree]
    rfl

end Aggregates

end StreamQuery
