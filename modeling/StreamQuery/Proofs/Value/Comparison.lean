import StreamQuery.Proofs.Number.Range
import StreamQuery.Proofs.Value.Preorder
import StreamQuery.Value.Arithmetic

/-!
# The comparison operators

The ordering operators see an order in which a boolean counts as zero or one; `==` looks at the
values themselves. The six operators fit together on two values unless these are tied: not equal,
and yet at one place of that order.
-/

namespace StreamQuery.Value

variable {a b : Value}

/-! ### Equality and order -/

theorem numberEqual_iff (ha : a.isNumber = true) (hb : b.isNumber = true) :
    numberEqual a b = true ↔ numberOrder a b = .eq := by
  obtain ⟨x, hx, hxfinite⟩ := asFloat?_of_isNumber ha
  obtain ⟨y, hy, hyfinite⟩ := asFloat?_of_isNumber hb
  have hfloats : (a.asFloat?.getD 0.0 == b.asFloat?.getD 0.0) = true ↔
      floatOrder (a.asFloat?.getD 0.0) (b.asFloat?.getD 0.0) = .eq := by
    rw [hx, hy, Option.getD_some, Option.getD_some, Number.floatOrder_eq hxfinite hyfinite,
      Int.compare_eq_eq]
    exact Number.beq_iff_ordinal hxfinite hyfinite
  cases a with
  | int n =>
    cases b with
    | int m =>
      rw [numberEqual, numberOrder]
      split
      · rw [beq_iff_eq, Int.compare_eq_eq]
      · exact hfloats
    | float y => exact hfloats
    | _ => cases hb
  | float x => exact hfloats
  | _ => cases ha

theorem equal_number (ha : a.isNumber = true) (hb : b.isNumber = true) :
    equal a b = numberEqual a b := by
  cases a with
  | int n => rw [equal, hb, Bool.true_and]
  | float x => rw [equal, hb, Bool.true_and]
  | _ => cases ha

theorem equal_number_iff (ha : a.isNumber = true) (hb : b.isNumber = true) :
    equal a b = true ↔ order a b = .eq := by
  rw [equal_number ha hb, order_number ha hb, numberEqual_iff ha hb]

theorem equal_of_rank_ne (h : a.rank ≠ b.rank) : equal a b = false := by
  cases a <;> cases b <;> first | rfl | exact absurd rfl h

/-- Two values at one place of the order that are not equal: different objects of one size, or lists
with such values at one place and no difference in order at any other. -/
inductive Levelled : Value → Value → Prop where
  | object {entries others : List (String × Value)} (hlength : entries.length = others.length)
    (h : equal (.object entries) (.object others) = false) :
    Levelled (.object entries) (.object others)
  | list {items others : List Value} {pair : Value × Value}
    (horder : orderItems items others = .eq) (hmem : pair ∈ items.zip others)
    (h : Levelled pair.1 pair.2) : Levelled (.list items) (.list others)

theorem orderItems_eq_iff {items others : List Value} :
    orderItems items others = .eq ↔
      items.length = others.length ∧ ∀ pair ∈ items.zip others, order pair.1 pair.2 = .eq := by
  induction items generalizing others with
  | nil => cases others <;> simp [orderItems]
  | cons item items ih =>
    cases others with
    | nil => simp [orderItems]
    | cons other others => simp [orderItems, Ordering.then_eq_eq, ih, and_left_comm]

theorem equalItems_iff {items others : List Value} :
    equalItems items others = true ↔
      items.length = others.length ∧ ∀ pair ∈ items.zip others, equal pair.1 pair.2 = true := by
  induction items generalizing others with
  | nil => cases others <;> simp [equalItems]
  | cons item items ih =>
    cases others with
    | nil => simp [equalItems]
    | cons other others => simp [equalItems, ih, and_left_comm]

theorem order_of_equal {a b : Value} (h : equal a b = true) : order a b = .eq := by
  induction a using induction_items generalizing b with
  | step a ih =>
    have hrank : a.rank = b.rank := by
      by_contra hne
      rw [equal_of_rank_ne hne] at h
      cases h
    cases a <;> cases b <;> try (simp [rank] at hrank; done)
    case null.null => rfl
    case bool.bool p q => cases p <;> cases q <;> first | rfl | cases h
    case str.str s t =>
      rw [equal, beq_iff_eq] at h
      rw [h]
      exact order_self _
    case list.list items others =>
      rw [equal, equalItems_iff] at h
      rw [order, orderItems_eq_iff]
      exact ⟨h.1, fun pair hpair => ih items rfl _ (List.of_mem_zip hpair).1 (h.2 pair hpair)⟩
    case object.object entries others =>
      rw [equal, Bool.and_eq_true, beq_iff_eq] at h
      exact Nat.compare_eq_eq.mpr h.1
    all_goals exact (equal_number_iff rfl rfl).mp h

theorem Levelled.order_eq (h : Levelled a b) : order a b = .eq := by
  cases h with
  | object hlength => exact Nat.compare_eq_eq.mpr hlength
  | list horder => exact horder

theorem Levelled.not_equal (h : Levelled a b) : equal a b = false := by
  induction h with
  | object _ h => exact h
  | list _ hmem _ ih =>
    rw [← Bool.not_eq_true, equal, equalItems_iff]
    rintro ⟨-, hequal⟩
    rw [hequal _ hmem] at ih
    cases ih

theorem levelled_of_order {a b : Value} (horder : order a b = .eq) (hne : equal a b = false) :
    Levelled a b := by
  induction a using induction_items generalizing b with
  | step a ih =>
    have hrank : a.rank = b.rank := by
      by_contra hrank
      rw [order_of_rank_ne hrank, Nat.compare_eq_eq] at horder
      exact hrank horder
    cases a <;> cases b <;> try (simp [rank] at hrank; done)
    case null.null => cases hne
    case bool.bool p q => cases p <;> cases q <;> simp_all [order, equal]
    case str.str s t =>
      rw [equal, beq_eq_false_iff_ne] at hne
      exact absurd (Std.LawfulEqOrd.eq_of_compare horder) hne
    case list.list items others =>
      rw [order] at horder
      obtain ⟨hlength, hitems⟩ := orderItems_eq_iff.mp horder
      rw [equal, ← Bool.not_eq_true, equalItems_iff] at hne
      -- Some pair of items keeps the lists from being equal.
      obtain ⟨pair, hmem, hpair⟩ : ∃ pair ∈ items.zip others, equal pair.1 pair.2 = false := by
        by_contra hnone
        push Not at hnone
        exact hne ⟨hlength, fun pair hmem => by simpa using hnone pair hmem⟩
      exact .list horder hmem
        (ih items rfl _ (List.of_mem_zip hmem).1 (hitems pair hmem) hpair)
    case object.object entries others => exact .object (Nat.compare_eq_eq.mp horder) hne
    all_goals
      rw [(equal_number_iff rfl rfl).mpr horder] at hne
      cases hne

/-- Equal values are at one place of the order, and of the others only levelled ones are. -/
theorem order_eq_iff (a b : Value) : order a b = .eq ↔ equal a b = true ∨ Levelled a b := by
  refine ⟨fun horder => ?_, fun h => h.elim order_of_equal Levelled.order_eq⟩
  cases hequal : equal a b with
  | true => exact .inl rfl
  | false => exact .inr (levelled_of_order horder hequal)

/-! ### The operators -/

/-- A value as the ordering operators see it: a boolean counts as zero or one. -/
def numeral : Value → Value
  | .bool b => ofNat b.toNat
  | value => value

theorem asInt64?_numeral (a : Value) : a.numeral.asInt64? = a.asInt64? := by
  cases a with
  | bool b => cases b <;> rfl
  | _ => rfl

theorem asFloat?_numeral (a : Value) : a.numeral.asFloat? = a.asFloat? := by
  have hzero : Number.floatOfInt 0 = 0.0 := by decide
  have hone : Number.floatOfInt 1 = 1.0 := by decide
  cases a with
  | bool b => cases b <;> simp [numeral, asFloat?, ofNat, ofInt, hzero, hone]
  | _ => rfl

theorem isNumber_numeral {x : Float} (h : a.asFloat? = some x) : a.numeral.isNumber = true := by
  cases a with
  | bool b => cases b <;> rfl
  | int n => rfl
  | float x => rfl
  | _ => cases h

theorem comparison_number {x y : Float} (op : BinaryOp) (hcomparable : comparable a b = true)
    (hx : a.asFloat? = some x) (hy : b.asFloat? = some y) :
    comparison op a b = .ok (order a.numeral b.numeral) := by
  have ha := isNumber_numeral hx
  have hb := isNumber_numeral hy
  have hplaces : floatOrder x y = compare a.numeral.place b.numeral.place := by
    obtain ⟨x', hx', hxfinite⟩ := asFloat?_of_isNumber ha
    obtain ⟨y', hy', hyfinite⟩ := asFloat?_of_isNumber hb
    rw [place_of_asFloat? hx', place_of_asFloat? hy']
    rw [asFloat?_numeral] at hx' hy'
    obtain rfl := Option.some.inj (hx.symm.trans hx')
    obtain rfl := Option.some.inj (hy.symm.trans hy')
    exact Number.floatOrder_eq hxfinite hyfinite
  rw [comparison, hcomparable, order_number ha hb, numberOrder_eq ha hb, asInt64?_numeral,
    asInt64?_numeral, hx, hy]
  cases a.asInt64? <;> cases b.asInt64? <;> simp [hplaces]

theorem isSome_asFloat?_of_comparable (h : comparable a b = true) :
    (∃ s t, a = .str s ∧ b = .str t) ∨ (∃ items others, a = .list items ∧ b = .list others) ∨
      a.asFloat?.isSome = true ∧ b.asFloat?.isSome = true := by
  unfold comparable at h
  split at h
  · exact .inl ⟨_, _, rfl, rfl⟩
  · exact .inr (.inl ⟨_, _, rfl, rfl⟩)
  · exact .inr (.inr (Bool.and_eq_true_iff.mp h))

/-- The ordering operators take the order of the values as numerals. -/
theorem comparison_eq (op : BinaryOp) (h : comparable a b = true) :
    comparison op a b = .ok (order a.numeral b.numeral) := by
  obtain ⟨s, t, rfl, rfl⟩ | ⟨items, others, rfl, rfl⟩ | ⟨ha, hb⟩ := isSome_asFloat?_of_comparable h
  · rfl
  · rfl
  · obtain ⟨x, hx⟩ := Option.isSome_iff_exists.mp ha
    obtain ⟨y, hy⟩ := Option.isSome_iff_exists.mp hb
    exact comparison_number op h hx hy

theorem comparable_swap (h : comparable a b = true) : comparable b a = true := by
  cases a <;> cases b <;> exact h

theorem not_isNull (ha : a ≠ .null) (hb : b ≠ .null) : (a.isNull || b.isNull) = false := by
  cases a <;> cases b <;> first | rfl | exact absurd rfl ha | exact absurd rfl hb

theorem comparable_of_less {value : Value} (ha : a ≠ .null) (hb : b ≠ .null)
    (h : applyBinary .less a b = .ok value) : comparable a b = true := by
  by_contra hcomparable
  rw [Bool.not_eq_true] at hcomparable
  simp [applyBinary, not_isNull ha hb, applyStrict, comparison, hcomparable, bind, Except.bind] at h

/-- The comparison operators. -/
def comparisons : List BinaryOp :=
  [.equal, .notEqual, .less, .lessOrEqual, .greater, .greaterOrEqual]

/-- What a comparison operator makes of the order of two values and of their equality. -/
def verdict (op : BinaryOp) (place : Ordering) (same : Bool) : Bool :=
  match op with
  | .less => place == .lt
  | .lessOrEqual => place != .gt
  | .greater => place == .gt
  | .greaterOrEqual => place != .lt
  | .notEqual => !same
  | _ => same

theorem applyBinary_comparison {op : BinaryOp} (hop : op ∈ comparisons) (ha : a ≠ .null)
    (hb : b ≠ .null) (h : comparable a b = true) :
    applyBinary op a b = .ok (.bool (verdict op (order a.numeral b.numeral) (equal a b))) := by
  simp only [comparisons, List.mem_cons, List.not_mem_nil, or_false] at hop
  rcases hop with rfl | rfl | rfl | rfl | rfl | rfl
  all_goals
    simp only [applyBinary, not_isNull ha hb, applyStrict, comparison_eq _ h, verdict, bind,
      Except.bind, pure, Except.pure, Bool.false_eq_true, if_false]

/-- Whether an operator says yes to two values. -/
def Holds (op : BinaryOp) (a b : Value) : Prop :=
  applyBinary op a b = .ok (.bool true)

theorem holds_iff {op : BinaryOp} (hop : op ∈ comparisons) (ha : a ≠ .null) (hb : b ≠ .null)
    (h : comparable a b = true) :
    Holds op a b ↔ verdict op (order a.numeral b.numeral) (equal a b) = true := by
  rw [Holds, applyBinary_comparison hop ha hb h]
  simp

/-! ### Consistency -/

/-- A boolean and a number equal to its zero or one, or two values that are levelled: the ordering
operators see them at one place and `==` tells them apart. -/
inductive Tied : Value → Value → Prop where
  | flag {flag : Bool} {number : Value} (h : equal (ofNat flag.toNat) number = true) :
    Tied (.bool flag) number
  | flag_right {flag : Bool} {number : Value} (h : equal number (ofNat flag.toNat) = true) :
    Tied number (.bool flag)
  | levelled {a b : Value} (h : Levelled a b) : Tied a b

theorem rank_ofNat_toNat (flag : Bool) : (ofNat flag.toNat).rank = 2 := by
  cases flag <;> rfl

theorem isNumber_of_rank (h : a.rank = 2) : a.isNumber = true := by
  cases a <;> simp_all [rank, isNumber]

theorem exists_bool_of_rank (h : a.rank = 1) : ∃ flag, a = .bool flag := by
  cases a <;> simp_all [rank]

theorem numeral_of_rank (h : a.rank ≠ 1) : a.numeral = a := by
  cases a with
  | bool flag => exact absurd rfl h
  | _ => rfl

theorem rank_eq_of_order (h : order a b = .eq) : a.rank = b.rank := by
  by_contra hne
  rw [order_of_rank_ne hne, Nat.compare_eq_eq] at h
  exact hne h

/-- What is equal to a boolean's number is a number. -/
theorem rank_of_equal_ofNat {flag : Bool} :
    (equal (ofNat flag.toNat) a = true → a.rank = 2) ∧
      (equal a (ofNat flag.toNat) = true → a.rank = 2) :=
  ⟨fun h => (rank_eq_of_order (order_of_equal h)).symm.trans (rank_ofNat_toNat flag),
    fun h => (rank_eq_of_order (order_of_equal h)).trans (rank_ofNat_toNat flag)⟩

theorem Tied.order_numeral (h : Tied a b) : order a.numeral b.numeral = .eq := by
  cases h with
  | flag h =>
    rw [numeral_of_rank (a := b) (by simp [rank_of_equal_ofNat.1 h])]
    exact order_of_equal h
  | flag_right h =>
    rw [numeral_of_rank (a := a) (by simp [rank_of_equal_ofNat.2 h])]
    exact order_of_equal h
  | levelled h =>
    have horder := h.order_eq
    cases h <;> exact horder

theorem equal_bool_number (flag : Bool) {number : Value} (h : number.rank = 2) :
    equal (.bool flag) number = false ∧ equal number (.bool flag) = false := by
  have hne : (Value.bool flag).rank ≠ number.rank := by
    rw [h]
    exact Nat.ne_of_beq_eq_false rfl
  exact ⟨equal_of_rank_ne hne, equal_of_rank_ne hne.symm⟩

theorem Tied.not_equal (h : Tied a b) : equal a b = false := by
  cases h with
  | flag h => exact (equal_bool_number _ (rank_of_equal_ofNat.1 h)).1
  | flag_right h => exact (equal_bool_number _ (rank_of_equal_ofNat.2 h)).2
  | levelled h => exact h.not_equal

theorem tied_of_order (horder : order a.numeral b.numeral = .eq) (hne : equal a b = false) :
    Tied a b := by
  have hrank := rank_eq_of_order horder
  by_cases ha : a.rank = 1 <;> by_cases hb : b.rank = 1
  · obtain ⟨p, rfl⟩ := exists_bool_of_rank ha
    obtain ⟨q, rfl⟩ := exists_bool_of_rank hb
    have hdiffer : p ≠ q := by
      rintro rfl
      cases p <;> cases hne
    exfalso
    revert horder
    cases p <;> cases q <;> first | exact absurd rfl hdiffer | decide
  · obtain ⟨flag, rfl⟩ := exists_bool_of_rank ha
    rw [numeral_of_rank hb] at horder hrank
    have hnumber := isNumber_of_rank (hrank.symm.trans (rank_ofNat_toNat flag))
    have hflag := isNumber_of_rank (rank_ofNat_toNat flag)
    exact .flag ((equal_number_iff hflag hnumber).mpr horder)
  · obtain ⟨flag, rfl⟩ := exists_bool_of_rank hb
    rw [numeral_of_rank ha] at horder hrank
    have hnumber := isNumber_of_rank (hrank.trans (rank_ofNat_toNat flag))
    have hflag := isNumber_of_rank (rank_ofNat_toNat flag)
    exact .flag_right ((equal_number_iff hnumber hflag).mpr horder)
  · rw [numeral_of_rank ha, numeral_of_rank hb] at horder
    exact .levelled (levelled_of_order horder hne)

theorem tied_iff : Tied a b ↔ order a.numeral b.numeral = .eq ∧ equal a b = false :=
  ⟨fun h => ⟨h.order_numeral, h.not_equal⟩, fun ⟨horder, hne⟩ => tied_of_order horder hne⟩

/-- Equal values are at one place also for the ordering operators. -/
theorem order_numeral_of_equal (h : equal a b = true) : order a.numeral b.numeral = .eq := by
  have hrank := rank_eq_of_order (order_of_equal h)
  by_cases ha : a.rank = 1
  · obtain ⟨p, rfl⟩ := exists_bool_of_rank ha
    obtain ⟨q, rfl⟩ := exists_bool_of_rank (hrank.symm.trans ha)
    revert h
    cases p <;> cases q <;> decide
  · rw [numeral_of_rank ha, numeral_of_rank (hrank ▸ ha)]
    exact order_of_equal h

/-- What holds of the six operators on all values that can be ordered: they say yes or no, `<=` is
not `>`, `>=` is not `<`, `!=` is not `==`, `<` is `>` the other way round, and at most one of `<`,
`==` and `>` holds. -/
structure Aligned (a b : Value) : Prop where
  decided : ∀ op ∈ comparisons, ∃ answer, applyBinary op a b = .ok (.bool answer)
  notEqual : Holds .notEqual a b ↔ ¬ Holds .equal a b
  lessOrEqual : Holds .lessOrEqual a b ↔ ¬ Holds .greater a b
  greaterOrEqual : Holds .greaterOrEqual a b ↔ ¬ Holds .less a b
  swap : Holds .less a b ↔ Holds .greater b a
  less_equal : ¬ (Holds .less a b ∧ Holds .equal a b)
  greater_equal : ¬ (Holds .greater a b ∧ Holds .equal a b)
  less_greater : ¬ (Holds .less a b ∧ Holds .greater a b)

/-- Exactly one of `<`, `==` and `>` holds of two values, `<=` and `>=` are one of two of them, and
`<` is `>` the other way round. -/
structure Consistent (a b : Value) : Prop where
  exactly_one :
    (Holds .less a b ∧ ¬ Holds .equal a b ∧ ¬ Holds .greater a b) ∨
      (¬ Holds .less a b ∧ Holds .equal a b ∧ ¬ Holds .greater a b) ∨
        (¬ Holds .less a b ∧ ¬ Holds .equal a b ∧ Holds .greater a b)
  lessOrEqual : Holds .lessOrEqual a b ↔ Holds .less a b ∨ Holds .equal a b
  greaterOrEqual : Holds .greaterOrEqual a b ↔ Holds .greater a b ∨ Holds .equal a b
  swap : Holds .less a b ↔ Holds .greater b a

theorem aligned (ha : a ≠ .null) (hb : b ≠ .null) (h : comparable a b = true) : Aligned a b := by
  have hswap := order_swap a.numeral b.numeral
  have hequal : equal a b = true → order a.numeral b.numeral = .eq := order_numeral_of_equal
  constructor
  case decided => exact fun op hop => ⟨_, applyBinary_comparison hop ha hb h⟩
  case swap =>
    rw [holds_iff (by decide) ha hb h, holds_iff (by decide) hb ha (comparable_swap h), hswap]
    cases order a.numeral b.numeral <;> simp [verdict]
  all_goals
    repeat rw [holds_iff (by decide) ha hb h]
    revert hequal
    cases order a.numeral b.numeral <;> cases equal a b <;> decide

/-- On aligned values all that can be missing is that values at one place are equal. -/
theorem Aligned.consistent_iff (haligned : Aligned a b) :
    Consistent a b ↔ (Holds .less a b ∨ Holds .equal a b ∨ Holds .greater a b) := by
  have hle := haligned.lessOrEqual
  have hge := haligned.greaterOrEqual
  have hless := haligned.less_equal
  have hgreater := haligned.greater_equal
  have hboth := haligned.less_greater
  refine ⟨fun h => ?_, fun h => ⟨?_, ?_, ?_, haligned.swap⟩⟩
  · have hone := h.exactly_one
    tauto
  all_goals tauto

theorem consistent_iff_not_tied (ha : a ≠ .null) (hb : b ≠ .null) (h : comparable a b = true) :
    Consistent a b ↔ ¬ Tied a b := by
  rw [(aligned ha hb h).consistent_iff, tied_iff, holds_iff (by decide) ha hb h,
    holds_iff (by decide) ha hb h, holds_iff (by decide) ha hb h]
  cases order a.numeral b.numeral <;> cases equal a b <;> decide

theorem Tied.not_consistent (htied : Tied a b) (ha : a ≠ .null) (hb : b ≠ .null)
    (h : comparable a b = true) : ¬ Consistent a b :=
  fun hconsistent => (consistent_iff_not_tied ha hb h).mp hconsistent htied

/-- On two values that are not null and that `<` takes, the comparison operators are aligned, and
they are consistent unless the values are tied. -/
theorem comparisons_consistent_iff (ha : a ≠ .null) (hb : b ≠ .null)
    (h : ∃ value, applyBinary .less a b = .ok value) :
    Aligned a b ∧ (Consistent a b ↔ ¬ Tied a b) := by
  obtain ⟨value, hvalue⟩ := h
  have hcomparable := comparable_of_less ha hb hvalue
  exact ⟨aligned ha hb hcomparable, consistent_iff_not_tied ha hb hcomparable⟩

/-- The operators are consistent on `[1, [true]]` and `[1.0, [true, 2]]`, which are not tied. -/
theorem comparisons_consistent_of_nested :
    let a := list [ofNat 1, list [bool true]]
    let b := list [float ⟨1.0, by decide⟩, list [bool true, ofNat 2]]
    a ≠ null ∧ b ≠ null ∧ (∃ value, applyBinary .less a b = .ok value) ∧ ¬ Tied a b ∧
      Aligned a b ∧ Consistent a b := by
  intro a b
  have hless : order a.numeral b.numeral = .lt := by decide
  have huntied : ¬ Tied a b := fun h => by
    rw [h.order_numeral] at hless
    cases hless
  have hvalue : ∃ value, applyBinary .less a b = .ok value := ⟨_, rfl⟩
  obtain ⟨haligned, hconsistent⟩ :=
    comparisons_consistent_iff (a := a) (b := b) nofun nofun hvalue
  exact ⟨nofun, nofun, hvalue, huntied, haligned, hconsistent.mpr huntied⟩

/-- None of `<`, `==` and `>` holds of `true` and `1`, nor of `[{"a": 1}]` and `[{"a": 2}]`. -/
theorem comparisons_not_consistent :
    ((∃ value, applyBinary .less (bool true) (ofNat 1) = .ok value) ∧
      ¬ Consistent (bool true) (ofNat 1)) ∧
    (∃ value, applyBinary .less (list [object [("a", ofNat 1)]])
        (list [object [("a", ofNat 2)]]) = .ok value) ∧
      ¬ Consistent (list [object [("a", ofNat 1)]]) (list [object [("a", ofNat 2)]]) := by
  have hflag : Tied (bool true) (ofNat 1) := .flag (by decide)
  have hobjects : Tied (list [object [("a", ofNat 1)]]) (list [object [("a", ofNat 2)]]) :=
    .levelled (.list rfl List.mem_cons_self (.object rfl (by decide)))
  exact ⟨⟨⟨_, rfl⟩, fun h => hflag.not_consistent nofun nofun rfl h⟩,
    ⟨_, rfl⟩, fun h => hobjects.not_consistent nofun nofun rfl h⟩

end StreamQuery.Value
