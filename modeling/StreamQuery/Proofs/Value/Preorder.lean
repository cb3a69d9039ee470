import StreamQuery.Proofs.Number.Rounding

/-!
# The order of values as a preorder

`Value.order` relates every value to itself and reverses with its arguments. It is transitive but for
one kind of numbers: two signed 64-bit integers are compared exactly, a float or a greater integer
with either of them by the nearest float, and that may be one float for both.
-/

namespace StreamQuery

theorem BoundedInt.natAbs_lt (n : BoundedInt) : n.val.natAbs < 2 ^ 64 := by
  have hlower := n.lower
  have hupper := n.upper
  omega

namespace Value

/-! ### Orderings one after the other -/

/-- Whether an ordering is what two others, one after the other, make of the ends. -/
def Chained (first second both : Ordering) : Prop :=
  first ≠ .gt → second ≠ .gt → both = first.then second

theorem chained_compare {α : Type} [Ord α] [Std.TransOrd α] (a b c : α) :
    Chained (compare a b) (compare b c) (compare a c) := by
  intro hab hbc
  cases h : compare a b with
  | lt => exact Std.TransCmp.lt_of_lt_of_isLE h (Ordering.ne_gt_iff_isLE.mp hbc)
  | eq => exact Std.TransCmp.congr_left h
  | gt => exact absurd h hab

/-- The first items that differ decide, on both sides alike. -/
theorem Chained.then {first second both first' second' both' : Ordering}
    (h : Chained first second both) (h' : Chained first' second' both') :
    Chained (first.then first') (second.then second') (both.then both') := by
  unfold Chained at *
  cases first <;> cases second <;> simp_all [Ordering.then]
  all_goals cases first' <;> simp_all

/-! ### Numbers -/

/-- The place of a number among the floats. -/
def place (number : Value) : Int :=
  Number.ordinal (number.asFloat?.getD 0.0)

variable {a b c : Value}

theorem place_of_asFloat? {x : Float} (h : a.asFloat? = some x) : a.place = Number.ordinal x := by
  rw [place, h, Option.getD_some]

theorem asFloat?_of_isNumber (h : a.isNumber = true) :
    ∃ x : Float, a.asFloat? = some x ∧ x.isFinite = true := by
  cases a with
  | int n => exact ⟨_, rfl, Number.isFinite_floatOfInt n.natAbs_lt⟩
  | float x => exact ⟨_, rfl, x.finite⟩
  | _ => cases h

theorem asInt64?_int (n : BoundedInt) :
    (Value.int n).asInt64? = if InInt64 n.val then some n.val else none :=
  rfl

theorem eq_int_of_asInt64? {i : Int} (hnumber : a.isNumber = true) (h : a.asInt64? = some i) :
    ∃ n : BoundedInt, a = .int n ∧ InInt64 n.val ∧ n.val = i := by
  cases a with
  | int n =>
    rw [asInt64?_int, Option.ite_none_right_eq_some] at h
    exact ⟨n, rfl, h.1, Option.some.inj h.2⟩
  | float x => cases h
  | _ => cases hnumber

/-- Two signed 64-bit integers are compared exactly, all other numbers by their places. -/
theorem numberOrder_eq (ha : a.isNumber = true) (hb : b.isNumber = true) :
    numberOrder a b =
      match a.asInt64?, b.asInt64? with
      | some i, some j => compare i j
      | _, _ => compare a.place b.place := by
  obtain ⟨x, hx, hxfinite⟩ := asFloat?_of_isNumber ha
  obtain ⟨y, hy, hyfinite⟩ := asFloat?_of_isNumber hb
  have hplaces : floatOrder (a.asFloat?.getD 0.0) (b.asFloat?.getD 0.0) =
      compare a.place b.place := by
    rw [place_of_asFloat? hx, place_of_asFloat? hy, hx, hy]
    exact Number.floatOrder_eq hxfinite hyfinite
  cases a with
  | int n =>
    cases b with
    | int m =>
      rw [numberOrder, asInt64?_int, asInt64?_int]
      by_cases hn : InInt64 n.val <;> by_cases hm : InInt64 m.val <;> simp [hn, hm]
      all_goals exact hplaces
    | float y => cases (Value.int n).asInt64? <;> exact hplaces
    | _ => cases hb
  | float x => exact hplaces
  | _ => cases ha

theorem order_number (ha : a.isNumber = true) (hb : b.isNumber = true) :
    order a b = numberOrder a b := by
  cases a with
  | int n => rw [order, if_pos hb]
  | float x => rw [order, if_pos hb]
  | _ => cases ha

/-- A greater integer has no lesser place. -/
theorem place_le {i j : Int} (ha : a.isNumber = true) (hb : b.isNumber = true)
    (hi : a.asInt64? = some i) (hj : b.asInt64? = some j) (h : i ≤ j) : a.place ≤ b.place := by
  obtain ⟨n, rfl, -, rfl⟩ := eq_int_of_asInt64? ha hi
  obtain ⟨m, rfl, -, rfl⟩ := eq_int_of_asInt64? hb hj
  exact Number.ordinal_floatOfInt_mono n.natAbs_lt m.natAbs_lt h

/-- Two different signed 64-bit integers and a number that is none, with one float for all three. -/
structure Blurred (lesser greater : BoundedInt) (number : Value) : Prop where
  lesser_signed : InInt64 lesser.val
  greater_signed : InInt64 greater.val
  lt : lesser.val < greater.val
  isNumber : number.isNumber = true
  inexact : number.asInt64? = none
  lesser_float : number.asFloat? = some (Number.floatOfInt lesser.val)
  greater_float : number.asFloat? = some (Number.floatOfInt greater.val)

/-- No two integers and no number that a condition allows are blurred. -/
def Sharp (allowed : Value → Prop) : Prop :=
  ∀ lesser greater number, allowed (.int lesser) → allowed (.int greater) → allowed number →
    ¬ Blurred lesser greater number

variable {allowed : Value → Prop}

/-- Of two integers and a number compared with them as a float, the lesser integer has a lesser place
or is told from the number by it. -/
theorem Sharp.apart {i j : Int} (hsharp : Sharp allowed) (ha : a.isNumber = true)
    (hb : b.isNumber = true) (hc : c.isNumber = true)
    (hallowed : allowed a ∧ allowed b ∧ allowed c) (hi : a.asInt64? = some i)
    (hj : b.asInt64? = some j) (hinexact : c.asInt64? = none) (h : i < j) :
    ¬ (a.place = c.place ∧ b.place = c.place) := by
  rintro ⟨hac, hbc⟩
  obtain ⟨n, rfl, hn, rfl⟩ := eq_int_of_asInt64? ha hi
  obtain ⟨m, rfl, hm, rfl⟩ := eq_int_of_asInt64? hb hj
  obtain ⟨x, hx, -⟩ := asFloat?_of_isNumber hc
  change Number.ordinal (Number.floatOfInt n.val) = _ at hac
  change Number.ordinal (Number.floatOfInt m.val) = _ at hbc
  rw [place_of_asFloat? hx] at hac hbc
  -- Both zeros have one place, but zero is the only integer there.
  have hzero : Number.ordinal x ≠ 0 := by
    intro hzero
    have hn0 := Number.ordinal_floatOfInt_eq_zero n.natAbs_lt (hac.trans hzero)
    have hm0 := Number.ordinal_floatOfInt_eq_zero m.natAbs_lt (hbc.trans hzero)
    omega
  exact hsharp n m c hallowed.1 hallowed.2.1 hallowed.2.2
    { lesser_signed := hn
      greater_signed := hm
      lt := h
      isNumber := hc
      inexact := hinexact
      lesser_float := by rw [hx, Number.eq_of_ordinal hac.symm hzero]
      greater_float := by rw [hx, Number.eq_of_ordinal hbc.symm hzero] }

theorem Sharp.chained_numbers (hsharp : Sharp allowed) (ha : a.isNumber = true)
    (hb : b.isNumber = true) (hc : c.isNumber = true)
    (hallowed : allowed a ∧ allowed b ∧ allowed c) :
    Chained (order a b) (order b c) (order a c) := by
  obtain ⟨hA, hB, hC⟩ := hallowed
  rw [order_number ha hb, order_number hb hc, order_number ha hc, numberOrder_eq ha hb,
    numberOrder_eq hb hc, numberOrder_eq ha hc]
  cases hi : a.asInt64? <;> cases hj : b.asInt64? <;> cases hk : c.asInt64?
  case some.some.none i j =>
    have hle := place_le ha hb hi hj
    have hge := place_le hb ha hj hi
    have hapart := hsharp.apart ha hb hc ⟨hA, hB, hC⟩ hi hj hk
    simp only [Chained, Int.compare_eq_ite_lt]
    grind
  case some.none.some i k =>
    have hle := place_le ha hc hi hk
    have hge := place_le hc ha hk hi
    have hapart := hsharp.apart ha hc hb ⟨hA, hC, hB⟩ hi hk hj
    have hapart' := hsharp.apart hc ha hb ⟨hC, hA, hB⟩ hk hi hj
    simp only [Chained, Int.compare_eq_ite_lt]
    grind
  case none.some.some j k =>
    have hle := place_le hb hc hj hk
    have hge := place_le hc hb hk hj
    have hapart := hsharp.apart hb hc ha ⟨hB, hC, hA⟩ hj hk hi
    simp only [Chained, Int.compare_eq_ite_lt]
    grind
  all_goals exact chained_compare _ _ _

theorem order_number_self (ha : a.isNumber = true) : order a a = .eq := by
  rw [order_number ha ha, numberOrder_eq ha ha]
  split <;> simp_all

theorem order_number_swap (ha : a.isNumber = true) (hb : b.isNumber = true) :
    order b a = (order a b).swap := by
  rw [order_number ha hb, order_number hb ha, numberOrder_eq ha hb, numberOrder_eq hb ha]
  cases a.asInt64? <;> cases b.asInt64? <;> exact (Int.compare_swap _ _).symm

/-! ### Values -/

/-- A property of a list's items is one of the list: then it is one of all values. -/
@[elab_as_elim]
theorem induction_items {motive : Value → Prop}
    (step : ∀ a : Value, (∀ items, a = .list items → ∀ b ∈ items, motive b) → motive a) (a : Value) :
    motive a := by
  refine step a fun items heq b hmem => ?_
  have hlt : sizeOf b < sizeOf a := by
    have := List.sizeOf_lt_of_mem hmem
    simp only [heq, list.sizeOf_spec]
    omega
  exact induction_items step b
termination_by sizeOf a

/-- Values of different ranks are ordered by them. -/
theorem order_of_rank_ne (h : a.rank ≠ b.rank) : order a b = compare a.rank b.rank := by
  cases a <;> cases b <;> first | rfl | exact absurd rfl h

theorem orderItems_self {items : List Value} (h : ∀ a ∈ items, order a a = .eq) :
    orderItems items items = .eq := by
  induction items with
  | nil => rfl
  | cons a items ih =>
    rw [orderItems, h a List.mem_cons_self, ih fun b hb => h b (List.mem_cons_of_mem a hb)]
    rfl

theorem order_self (a : Value) : order a a = .eq := by
  induction a using induction_items with
  | step a ih =>
    cases a with
    | null => rfl
    | bool b => cases b <;> rfl
    | int n => exact order_number_self (a := .int n) rfl
    | float x => exact order_number_self (a := .float x) rfl
    | str s =>
      change compare s s = .eq
      exact Std.ReflCmp.compare_self
    | list items => exact orderItems_self (ih items rfl)
    | object entries => exact Nat.compare_eq_eq.mpr rfl

theorem orderItems_swap {left : List Value} (h : ∀ a ∈ left, ∀ b, order b a = (order a b).swap)
    (right : List Value) : orderItems right left = (orderItems left right).swap := by
  induction left generalizing right with
  | nil => cases right <;> rfl
  | cons a left ih =>
    cases right with
    | nil => rfl
    | cons b right =>
      rw [orderItems, orderItems, h a List.mem_cons_self,
        ih (fun c hc => h c (List.mem_cons_of_mem a hc)), Ordering.swap_then]

theorem order_swap (a b : Value) : order b a = (order a b).swap := by
  induction a using induction_items generalizing b with
  | step a ih =>
    by_cases hrank : a.rank = b.rank
    · cases a <;> cases b <;> try (simp [rank] at hrank; done)
      case null.null => rfl
      case str.str s t =>
        change compare t s = (compare s t).swap
        exact Std.OrientedCmp.eq_swap
      case list.list left right => exact orderItems_swap (ih left rfl) right
      case bool.bool => exact (Nat.compare_swap _ _).symm
      case object.object => exact (Nat.compare_swap _ _).symm
      all_goals exact order_number_swap rfl rfl
    · rw [order_of_rank_ne hrank, order_of_rank_ne (Ne.symm hrank), Nat.compare_swap]

/-- Whether a number is compared where a value is: the value itself or, in a list, an item's. -/
inductive Compares : Value → Value → Prop where
  | itself {a : Value} (h : a.isNumber = true) : Compares a a
  | item {items : List Value} {a number : Value} (hmem : a ∈ items) (h : Compares a number) :
    Compares (.list items) number

/-- Whether all numbers compared where a value is are allowed. -/
def Within (allowed : Value → Prop) (a : Value) : Prop :=
  ∀ number, Compares a number → allowed number

theorem Within.item {items : List Value} (h : Within allowed (.list items)) (hmem : a ∈ items) :
    Within allowed a :=
  fun number hnumber => h number (.item hmem hnumber)

theorem Within.number (h : Within allowed a) (hnumber : a.isNumber = true) : allowed a :=
  h a (.itself hnumber)

theorem within_iff (h : a.isNumber = true) : Within allowed a ↔ allowed a := by
  refine ⟨fun hwithin => hwithin.number h, fun hallowed number hcompares => ?_⟩
  cases hcompares with
  | itself => exact hallowed
  | item => cases h

theorem chained_items {as bs cs : List Value}
    (h : ∀ a ∈ as, ∀ b ∈ bs, ∀ c ∈ cs, Chained (order a b) (order b c) (order a c)) :
    Chained (orderItems as bs) (orderItems bs cs) (orderItems as cs) := by
  induction as generalizing bs cs with
  | nil => cases bs <;> cases cs <;> simp [Chained, orderItems]
  | cons a as ih =>
    cases bs with
    | nil => simp [Chained, orderItems]
    | cons b bs =>
      cases cs with
      | nil => simp [Chained, orderItems]
      | cons c cs =>
        simp only [orderItems]
        exact (h a List.mem_cons_self b List.mem_cons_self c List.mem_cons_self).then
          (ih fun a ha b hb c hc => h a (.tail _ ha) b (.tail _ hb) c (.tail _ hc))

theorem rank_le_of_order (h : order a b ≠ .gt) : a.rank ≤ b.rank := by
  by_cases hrank : a.rank = b.rank
  · exact hrank.le
  · rw [order_of_rank_ne hrank] at h
    exact Nat.compare_ne_gt.mp h

theorem order_of_rank_lt (h : a.rank < b.rank) : order a b = .lt := by
  rw [order_of_rank_ne (Nat.ne_of_lt h)]
  exact Nat.compare_eq_lt.mpr h

/-- Values that are not all of one rank are ordered by rank from end to end. -/
theorem chained_of_rank_ne (h : a.rank ≠ b.rank ∨ b.rank ≠ c.rank) :
    Chained (order a b) (order b c) (order a c) := by
  intro hab hbc
  have habrank := rank_le_of_order hab
  have hbcrank := rank_le_of_order hbc
  rw [order_of_rank_lt (by omega : a.rank < c.rank)]
  rcases Nat.lt_or_ge a.rank b.rank with hlt | hge
  · rw [order_of_rank_lt hlt, Ordering.lt_then]
  · rw [order_of_rank_lt (by omega : b.rank < c.rank)]
    cases hcase : order a b with
    | lt => rfl
    | eq => rfl
    | gt => exact absurd hcase hab

theorem Sharp.chained_order (hsharp : Sharp allowed) (ha : Within allowed a)
    (hb : Within allowed b) (hc : Within allowed c) :
    Chained (order a b) (order b c) (order a c) := by
  induction a using induction_items generalizing b c with
  | step a ih =>
    by_cases hab : a.rank = b.rank
    · by_cases hbc : b.rank = c.rank
      · cases a <;> cases b <;> (try (simp [rank] at hab; done)) <;> cases c <;>
          try (simp [rank] at hbc; done)
        case null.null.null => exact fun _ _ => rfl
        case bool.bool.bool => exact chained_compare _ _ _
        case str.str.str => exact chained_compare _ _ _
        case list.list.list left middle right =>
          exact chained_items fun a hal b hbm c hcr =>
            ih left rfl a hal (ha.item hal) (hb.item hbm) (hc.item hcr)
        case object.object.object => exact chained_compare _ _ _
        all_goals exact hsharp.chained_numbers rfl rfl rfl ⟨ha.number rfl, hb.number rfl, hc.number rfl⟩
      · exact chained_of_rank_ne (.inr hbc)
    · exact chained_of_rank_ne (.inl hab)

/-- A number that is compared with two integers as the float of both counts equal to both. -/
theorem Blurred.not_transitive {lesser greater : BoundedInt} {number : Value}
    (h : Blurred lesser greater number) :
    order (.int greater) number = .eq ∧ order number (.int lesser) = .eq ∧
      order (.int greater) (.int lesser) = .gt := by
  have hgreater : (Value.int greater).asInt64? = some greater.val := if_pos h.greater_signed
  have hlesser : (Value.int lesser).asInt64? = some lesser.val := if_pos h.lesser_signed
  have hgreaterplace : (Value.int greater).place = number.place :=
    (place_of_asFloat? h.greater_float).symm
  have hlesserplace : (Value.int lesser).place = number.place :=
    (place_of_asFloat? h.lesser_float).symm
  refine ⟨?_, ?_, ?_⟩
  · rw [order_number rfl h.isNumber, numberOrder_eq rfl h.isNumber, hgreater, h.inexact]
    exact Int.compare_eq_eq.mpr hgreaterplace
  · rw [order_number h.isNumber rfl, numberOrder_eq h.isNumber rfl, hlesser, h.inexact]
    exact Int.compare_eq_eq.mpr hlesserplace.symm
  · rw [order_number rfl rfl, numberOrder_eq rfl rfl, hgreater, hlesser]
    exact Int.compare_eq_gt.mpr h.lt

/-- Every value is related to itself and the order reverses with its arguments. Among the values
whose numbers are allowed it is transitive exactly if these are sharp. -/
theorem order_preorder (allowed : Value → Prop) :
    (∀ a, order a a = .eq) ∧ (∀ a b, order b a = (order a b).swap) ∧
      ((∀ a b c, Within allowed a → Within allowed b → Within allowed c →
        order a b ≠ .gt → order b c ≠ .gt → order a c ≠ .gt) ↔ Sharp allowed) := by
  refine ⟨order_self, order_swap, fun htrans => ?_, fun hsharp => ?_⟩
  · intro lesser greater number hlesser hgreater hnumber hblurred
    obtain ⟨hdown, hup, hgt⟩ := hblurred.not_transitive
    exact htrans (.int greater) number (.int lesser) ((within_iff rfl).mpr hgreater)
      ((within_iff hblurred.isNumber).mpr hnumber) ((within_iff rfl).mpr hlesser)
      (by simp [hdown]) (by simp [hup]) hgt
  · intro a b c ha hb hc hab hbc
    rw [hsharp.chained_order ha hb hc hab hbc]
    cases hcase : order a b with
    | lt => simp
    | eq => exact hbc
    | gt => exact absurd hcase hab

/-- The order of all values is not transitive: the float `2 ^ 53` counts equal to the integers
`2 ^ 53 + 1` and `2 ^ 53`. -/
theorem order_not_transitive :
    ∃ (m n : BoundedInt) (x : FiniteFloat),
      m.val = 9007199254740993 ∧ n.val = 9007199254740992 ∧ x.val = 9007199254740992.0 ∧
        order (.int m) (.float x) ≠ .gt ∧ order (.float x) (.int n) ≠ .gt ∧
          order (.int m) (.int n) = .gt := by
  refine ⟨⟨9007199254740993, by decide, by decide⟩, ⟨9007199254740992, by decide, by decide⟩,
    ⟨9007199254740992.0, by decide⟩, rfl, rfl, rfl, ?_, ?_, ?_⟩ <;> decide

end Value

end StreamQuery
