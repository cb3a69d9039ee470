import StreamQuery.Function.Library
import StreamQuery.Proofs.Value.Integers

/-!
# Ranges

The function `range` gives the terms of an arithmetic progression up to a bound. They are counted
by a division of the way to the bound and computed one by one in words of 128 bits; here they are
compared with the progression itself, which takes one step after the other.
-/

namespace StreamQuery

open Number

/-! ### Progressions -/

namespace Progression

/-- Whether a term lies before the bound, in the direction of the step. -/
def Before (term stop step : Int) : Prop :=
  (0 < step ∧ term < stop) ∨ (step < 0 ∧ stop < term)

instance (term stop step : Int) : Decidable (Before term stop step) :=
  inferInstanceAs (Decidable (_ ∨ _))

/-- The way from a term to the bound, in the direction of the step. -/
def distance (term stop step : Int) : Int :=
  if step > 0 then stop - term else term - stop

variable {term stop step : Int}

theorem before_iff (hstep : step ≠ 0) : Before term stop step ↔ 0 < distance term stop step := by
  unfold Before distance
  split <;> omega

theorem distance_step (term stop step : Int) :
    distance (term + step) stop step = distance term stop step - step.natAbs := by
  unfold distance
  split <;> omega

/-- The terms from a start on that lie before the bound. -/
def terms (start stop step : Int) : List Int :=
  if Before start stop step then start :: terms (start + step) stop step else []
termination_by (distance start stop step).toNat
decreasing_by
  next h =>
    have hstep : step ≠ 0 := by
      rintro rfl
      exact absurd h (by simp [Before])
    have hdistance := (before_iff hstep).mp h
    rw [distance_step]
    omega

/-- The number of steps that fit the way to the bound, where the last one may be cut short. -/
def size (start stop step : Int) : Int :=
  if distance start stop step ≤ 0 then 0
  else (distance start stop step - 1).tdiv step.natAbs + 1

theorem size_step (h : Before term stop step) (hstep : step ≠ 0) :
    size term stop step = size (term + step) stop step + 1 := by
  have hdistance := (before_iff hstep).mp h
  have hsize : 0 < (step.natAbs : Int) := by omega
  unfold size
  rw [distance_step, if_neg hdistance.not_ge]
  split
  · rw [Int.tdiv_eq_zero_of_lt (by omega) (by omega)]
  · rw [Int.tdiv_eq_ediv_of_nonneg (by omega), Int.tdiv_eq_ediv_of_nonneg (by omega),
      show distance term stop step - 1 =
        distance term stop step - step.natAbs - 1 + step.natAbs by omega,
      Int.add_ediv_of_dvd_right (dvd_refl _), Int.ediv_self hsize.ne']

theorem size_nonneg (start stop step : Int) : 0 ≤ size start stop step := by
  unfold size
  split
  · exact le_rfl
  · have := Int.tdiv_nonneg (a := distance start stop step - 1) (by omega)
      (Int.natCast_nonneg step.natAbs)
    omega

/-- The terms are as many as there are steps, and each is reached from the start at once. -/
theorem terms_eq_map_range (start stop : Int) (hstep : step ≠ 0) :
    terms start stop step =
      (List.range (size start stop step).toNat).map fun i : Nat => start + i * step := by
  fun_induction terms start stop step with
  | case1 start h ih =>
    have hcount := size_nonneg (start + step) stop step
    rw [ih, size_step h hstep,
      show (size (start + step) stop step + 1).toNat =
        (size (start + step) stop step).toNat + 1 by omega,
      List.range_succ_eq_map, List.map_cons, List.map_map]
    congr 1
    · simp
    · refine List.map_congr_left fun i _ => ?_
      simp only [Function.comp_apply]
      push_cast
      ring
  | case2 start h =>
    have hdistance : distance start stop step ≤ 0 := not_lt.mp (mt (before_iff hstep).mpr h)
    rw [size, if_pos hdistance]
    rfl

theorem length_terms (start stop : Int) (hstep : step ≠ 0) :
    ((terms start stop step).length : Int) = size start stop step := by
  rw [terms_eq_map_range start stop hstep, List.length_map, List.length_range,
    Int.toNat_of_nonneg (size_nonneg start stop step)]

/-- The terms by their positions: all the numbers reached from the start that lie before the
bound. -/
theorem getElem?_terms (start stop step : Int) (i : Nat) :
    (terms start stop step)[i]? =
      if Before (start + i * step) stop step then some (start + i * step) else none := by
  fun_induction terms start stop step generalizing i with
  | case1 start h ih =>
    cases i with
    | zero => simp [h]
    | succ i =>
      rw [List.getElem?_cons_succ, ih,
        show start + step + i * step = start + (i + 1 : Nat) * step by push_cast; ring]
  | case2 start h =>
    have hlater : ¬ Before (start + i * step) stop step := by
      rintro (⟨hstep, hlater⟩ | ⟨hstep, hlater⟩)
      · exact h (.inl ⟨hstep, by nlinarith⟩)
      · exact h (.inr ⟨hstep, by nlinarith⟩)
    rw [if_neg hlater, List.getElem?_nil]

/-- Every term lies between the start and the bound. -/
theorem inInt64_of_mem_terms {start : Int} (hstart : InInt64 start) (hstop : InInt64 stop)
    (h : term ∈ terms start stop step) : InInt64 term := by
  obtain ⟨i, hi⟩ := List.mem_iff_getElem?.mp h
  rw [getElem?_terms] at hi
  obtain ⟨hbefore, hterm⟩ := Option.ite_none_right_eq_some.mp hi
  obtain rfl := Option.some.inj hterm
  obtain ⟨hstartLow, hstartHigh⟩ := hstart
  obtain ⟨hstopLow, hstopHigh⟩ := hstop
  rcases hbefore with ⟨hstep, hbefore⟩ | ⟨hstep, hbefore⟩
  · exact ⟨by nlinarith, by omega⟩
  · exact ⟨by omega, by nlinarith⟩

end Progression

/-! ### The function -/

namespace CollectionFunction

open Progression

variable {m : Type → Type} [Monad m] [LawfulMonad m] {machine : Machine m}
  {start stop step : Int}

theorem mapM_eq_pure {α β : Type} {f : α → m β} {g : α → β} (items : List α)
    (h : ∀ item ∈ items, f item = pure (g item)) : items.mapM f = pure (items.map g) := by
  induction items with
  | nil => rfl
  | cons item rest ih =>
    rw [List.mapM_cons, h item List.mem_cons_self,
      ih fun other hother => h other (List.mem_cons_of_mem item hother)]
    simp

theorem fitsWord_128 {n : Int} (h : n.natAbs < 2 ^ 127) : FitsWord 128 n := by
  rw [fitsWord_iff (by decide)]
  omega

theorem natAbs_distance_lt (hstart : InInt64 start) (hstop : InInt64 stop) (step : Int) :
    (distance start stop step).natAbs < 2 ^ 64 := by
  obtain ⟨hstartLow, hstartHigh⟩ := hstart
  obtain ⟨hstopLow, hstopHigh⟩ := hstop
  unfold distance
  split <;> omega

/-- The terms are counted without cutting off a word. -/
theorem counting_eq {α : Type} (hmachine : machine.Faithful) (hstart : InInt64 start)
    (hstop : InInt64 stop) (hstep : InInt64 step) (hne : step ≠ 0) (next : Int → m α) :
    (if distance start stop step ≤ 0 then do
        let count ← pure 0
        next count
      else do
        let last ← machine.word 128 (distance start stop step - 1)
        let size ← machine.word 128 step.natAbs
        let count ← machine.word 128 ((← machine.quotient 128 last size) + 1)
        next count) = next (size start stop step) := by
  have hdistance := natAbs_distance_lt hstart hstop step
  have hsize := Value.natAbs_lt_of_inInt64 hstep
  unfold size
  split
  · rw [pure_bind]
  · have hquotient := Int.natAbs_tdiv_le_natAbs (distance start stop step - 1) step.natAbs
    rw [hmachine.word (by decide) (fitsWord_128 (by omega)), pure_bind,
      hmachine.word (by decide) (fitsWord_128 (by omega)), pure_bind,
      hmachine.quotient (by decide) (by omega) (fitsWord_128 (by omega)), pure_bind,
      hmachine.word (by decide) (fitsWord_128 (by omega)), pure_bind]

/-- A term is computed without cutting off a word. -/
theorem term_eq (hmachine : machine.Faithful) (hstart : InInt64 start) (hstop : InInt64 stop)
    (hstep : InInt64 step) (hne : step ≠ 0) {i : Nat} (hi : i < (size start stop step).toNat)
    (hshort : size start stop step ≤ Value.sequenceLimit) :
    (do
      let term ← machine.word 128 (start + (← machine.word 128 (i * step)))
      return Value.ofInt (lowWord 64 term)) = pure (Value.ofInt (start + i * step)) := by
  have hproduct : (i * step).natAbs < 10000000 * 2 ^ 64 := by
    rw [Int.natAbs_mul, Int.natAbs_natCast]
    exact Nat.mul_lt_mul_of_lt_of_le (by simp only [Value.sequenceLimit] at hshort; omega)
      (Value.natAbs_lt_of_inInt64 hstep).le (by decide)
  have hoffset := Value.natAbs_lt_of_inInt64 hstart
  have hmem : start + i * step ∈ terms start stop step := by
    rw [terms_eq_map_range start stop hne]
    exact List.mem_map.mpr ⟨i, List.mem_range.mpr hi, rfl⟩
  have hterm := fitsWord_iff_inInt64.mpr (inInt64_of_mem_terms hstart hstop hmem)
  rw [hmachine.word (by decide) (fitsWord_128 (by omega)), pure_bind,
    hmachine.word (by decide) (fitsWord_128 (by omega)), pure_bind,
    lowWord_of_fitsWord (by decide) hterm]

/-- No word that the function computes is cut off, so the list is the progression. -/
theorem rangeListOn_eq (hmachine : machine.Faithful) (hstart : InInt64 start)
    (hstop : InInt64 stop) (hstep : InInt64 step) (hne : step ≠ 0) :
    rangeListOn machine start stop step =
      pure (if size start stop step > Value.sequenceLimit then
        .error (.eval (.rangeTooLarge (size start stop step)))
      else .ok (.list ((terms start stop step).map Value.ofInt))) := by
  have hdistance := natAbs_distance_lt hstart hstop step
  have hspan : machine.word 128 (if step > 0 then stop - start else start - stop) =
      pure (distance start stop step) :=
    hmachine.word (by decide) (fitsWord_128 (n := distance start stop step) (by omega))
  rw [rangeListOn, if_neg hne, hspan, pure_bind]
  refine (counting_eq hmachine hstart hstop hstep hne _).trans ?_
  split
  · rfl
  · next hshort =>
    rw [mapM_eq_pure (g := fun i : Nat => Value.ofInt (start + i * step)) _ fun i hi =>
        term_eq hmachine hstart hstop hstep hne (List.mem_range.mp hi) (not_lt.mp hshort),
      pure_bind, terms_eq_map_range start stop hne, List.map_map]
    rfl

/-- What a call of the function gives for the integers `start`, `stop` and `step`. -/
structure Ranged (result : Except Error Noted) (start stop step : Int) : Prop where
  exact : step ≠ 0 → (terms start stop step).length ≤ Value.sequenceLimit →
    ∃ items : List BoundedInt, items.map BoundedInt.val = terms start stop step ∧
      result = .ok ⟨.list (items.map .int), none⟩
  tooLong : step ≠ 0 → Value.sequenceLimit < (terms start stop step).length →
    result = .error (.eval (.rangeTooLarge (terms start stop step).length))
  still : step = 0 → result = .error (.eval .rangeStep)
  never_traps : rangeListOn .trapping start stop step = some (rangeList start stop step)

theorem exists_map_ofInt {numbers : List Int} (h : ∀ n ∈ numbers, InInt64 n) :
    ∃ items : List BoundedInt, items.map BoundedInt.val = numbers ∧
      numbers.map Value.ofInt = items.map .int := by
  induction numbers with
  | nil => exact ⟨[], rfl, rfl⟩
  | cons n rest ih =>
    obtain ⟨item, hitem, hvalue⟩ := Value.exists_ofInt (h n List.mem_cons_self)
    obtain ⟨items, hitems, hvalues⟩ :=
      ih fun other hother => h other (List.mem_cons_of_mem n hother)
    exact ⟨item :: items, by rw [List.map_cons, hitem, hitems],
      by rw [List.map_cons, hvalue, hvalues, List.map_cons]⟩

theorem ranged_rangeList (hstart : InInt64 start) (hstop : InInt64 stop) (hstep : InInt64 step) :
    Ranged (Conversion.silent (rangeList start stop step)) start stop step := by
  by_cases hne : step = 0
  · subst hne
    exact ⟨nofun, nofun, fun _ => rfl, rfl⟩
  have hlength := length_terms start stop hne
  have hwrapping : rangeList start stop step =
      if size start stop step > Value.sequenceLimit then
        .error (.eval (.rangeTooLarge (size start stop step)))
      else .ok (.list ((terms start stop step).map Value.ofInt)) := by
    rw [rangeList, rangeListOn_eq Machine.faithful_wrapping hstart hstop hstep hne]
    rfl
  constructor
  case exact =>
    intro _ hshort
    obtain ⟨items, hitems, hvalues⟩ := exists_map_ofInt fun n (hn : n ∈ terms start stop step) =>
      inInt64_of_mem_terms hstart hstop hn
    rw [hwrapping, if_neg (by omega), hvalues]
    exact ⟨items, hitems, rfl⟩
  case tooLong =>
    intro _ hlong
    rw [hwrapping, if_pos (by omega), hlength]
    rfl
  case still => exact fun h => absurd h hne
  case never_traps =>
    rw [rangeListOn_eq Machine.faithful_trapping hstart hstop hstep hne, hwrapping]
    rfl

theorem call_range {arguments : List Value} (h : ∀ x ∈ arguments, x.isNull = false) :
    Builtin.call "range" arguments = Conversion.silent (applyRange arguments) := by
  have hname : Builtin.ofName? (Unicode.toLower "range") = some (.collection .range) := by
    decide +kernel
  have hany : arguments.any Value.isNull = false := by
    simpa [List.any_eq_false] using h
  rw [Builtin.call, hname]
  simp [hany, Builtin.apply, CollectionFunction.apply]

/-- The function `range` gives exactly the terms of the arithmetic progression that lie before the
bound, as long as they are no more than the longest list, and fails otherwise or for a step of zero.
Nothing that it computes leaves its word. -/
theorem range_progression {x y z : Value} (hx : x.asInt64? = some start)
    (hy : y.asInt64? = some stop) (hz : z.asInt64? = some step) :
    Ranged (Builtin.call "range" [x, y, z]) start stop step ∧
      Ranged (Builtin.call "range" [x, y]) start stop 1 ∧
      Ranged (Builtin.call "range" [y]) 0 stop 1 := by
  have hxnull := Value.isNull_of_asInt64? hx
  have hynull := Value.isNull_of_asInt64? hy
  have hznull := Value.isNull_of_asInt64? hz
  have hstart := Value.inInt64_of_asInt64? hx
  have hstop := Value.inInt64_of_asInt64? hy
  refine ⟨?_, ?_, ?_⟩
  · rw [call_range (by simp [hxnull, hynull, hznull])]
    simp only [applyRange, Arguments.integer, hx, hy, hz]
    exact ranged_rangeList hstart hstop (Value.inInt64_of_asInt64? hz)
  · rw [call_range (by simp [hxnull, hynull])]
    simp only [applyRange, Arguments.integer, hx, hy]
    exact ranged_rangeList hstart hstop (by decide : InInt64 1)
  · rw [call_range (by simp [hynull])]
    simp only [applyRange, Arguments.integer, hy]
    exact ranged_rangeList (by decide : InInt64 0) hstop (by decide : InInt64 1)

/-- A progression downwards over nearly all words, whose step is larger than half the way. -/
theorem range_progression_of_wide :
    let least := -0x8000000000000000
    let greatest := 0x7FFFFFFFFFFFFFFF
    Ranged (Builtin.call "range" [.ofInt greatest, .ofInt least, .ofInt least])
      greatest least least :=
  (range_progression rfl rfl rfl).1

example : Progression.terms 7 (-2) (-3) = [7, 4, 1] := by decide +kernel

end CollectionFunction

end StreamQuery
