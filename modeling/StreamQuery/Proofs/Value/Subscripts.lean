import StreamQuery.Proofs.Value.Integers

/-!
# Indexes and slices

An index means a position of a list or a string, from the end if it is negative, and a slice has the
elements at the positions between its bounds. Positions are computed in words: a machine whose words
hold the length of a sequence counts back from its end without leaving them, and what it fetches is
there. The words of a real machine hold the length of every sequence in its memory.
-/

namespace StreamQuery

open Number

variable {m : Type → Type} [Monad m] {machine : Machine m} {length : Nat}

/-- Whether a machine knows the length of a sequence, and counts back from its end, as they are. -/
structure Machine.Measures (machine : Machine m) (length : Nat) : Prop where
  faithful : machine.Faithful
  whole : machine.word 64 length = pure (length : Int)
  back {bound : Int} : InInt64 bound → bound < 0 →
    machine.word 64 (length + bound) = pure (length + bound)

theorem Machine.measures_unbounded (length : Nat) : unbounded.Measures length where
  faithful := faithful_unbounded
  whole := rfl
  back _ _ := rfl

theorem Machine.Faithful.measures (h : machine.Faithful) (hlength : InInt64 length) :
    machine.Measures length where
  faithful := h
  whole := h.word (by decide) (fitsWord_iff_inInt64.mpr hlength)
  back hbound hneg := by
    refine h.word (by decide) (fitsWord_iff_inInt64.mpr ?_)
    obtain ⟨hlow, -⟩ := hbound
    obtain ⟨-, hhigh⟩ := hlength
    constructor <;> omega

namespace Value

variable {α β : Type} {x key start stop : Value} {parts : List Value} {a b : Option Int} {i : Int}

/-! ### Positions -/

/-- An index counted from the end if it is negative. -/
def counted (length : Nat) (index : Int) : Int :=
  if index < 0 then length + index else index

/-- A bound counted from the end if it is negative, and clamped to a sequence. -/
def clamped (length : Nat) (bound : Int) : Int :=
  max 0 (min (counted length bound) length)

/-- The element that an index means, if any. -/
def elementAt? (index : Int) (elements : List α) : Option α :=
  if counted elements.length index < 0 then none
  else elements[(counted elements.length index).toNat]?

/-- The elements of a sequence between two bounds: those at the positions from the lower one on and
before the upper one, both clamped. A missing bound leaves no position out. -/
def between (a b : Option Int) (elements : List α) : List α :=
  let low := a.elim 0 (clamped elements.length)
  let high := b.elim (elements.length : Int) (clamped elements.length)
  (elements.zipIdx.filter fun (_, position) => low ≤ position ∧ position < high).map Prod.fst

theorem elementAt?_of_counted {elements : List α} {position : Nat}
    (h : counted elements.length i = position) : elementAt? i elements = elements[position]? := by
  rw [elementAt?, h, if_neg (by omega), Int.toNat_natCast]

theorem elementAt?_of_outside {elements : List α}
    (h : ¬ (-elements.length ≤ i ∧ i < elements.length)) : elementAt? i elements = none := by
  unfold elementAt?
  split
  · rfl
  · next hcounted =>
    rw [List.getElem?_eq_none_iff]
    unfold counted at hcounted ⊢
    omega

theorem elementAt?_map (f : α → β) (elements : List α) :
    elementAt? i (elements.map f) = (elementAt? i elements).map f := by
  unfold elementAt?
  rw [List.length_map, List.getElem?_map]
  split <;> rfl

/-- The elements at the positions between two numbers are next to each other. -/
theorem map_filter_zipIdx (low high : Int) (elements : List α) (first : Nat) :
    ((elements.zipIdx first).filter fun (_, position) => low ≤ position ∧ position < high).map
        Prod.fst =
      (elements.drop (low.toNat - first)).take (high.toNat - max low.toNat first) := by
  induction elements generalizing first with
  | nil => simp
  | cons element rest ih =>
    rw [List.zipIdx_cons, List.filter_cons]
    by_cases hlow : low ≤ first
    -- From the lower bound on nothing is dropped, and each element taken uses up one position.
    · have hdrop : low.toNat - first = 0 := by omega
      have hrest : low.toNat - (first + 1) = 0 := by omega
      by_cases hhigh : first < high
      · rw [if_pos (by simp [hlow, hhigh]), List.map_cons, ih, hdrop, hrest,
          show high.toNat - max low.toNat first =
            high.toNat - max low.toNat (first + 1) + 1 by omega]
        simp
      · rw [if_neg (by simp [hhigh]), ih, show high.toNat - max low.toNat first = 0 by omega,
          show high.toNat - max low.toNat (first + 1) = 0 by omega, List.take_zero, List.take_zero]
    · rw [if_neg (by simp [hlow]), ih,
        show low.toNat - first = low.toNat - (first + 1) + 1 by omega, List.drop_succ_cons,
        show max low.toNat first = max low.toNat (first + 1) by omega]

theorem between_eq (a b : Option Int) (elements : List α) :
    between a b elements =
      (elements.drop (a.elim 0 (clamped elements.length)).toNat).take
        ((b.elim (elements.length : Int) (clamped elements.length)).toNat -
          (a.elim 0 (clamped elements.length)).toNat) := by
  rw [between, map_filter_zipIdx, Nat.sub_zero, Nat.max_zero]

theorem between_map (f : α → β) (a b : Option Int) (elements : List α) :
    between a b (elements.map f) = (between a b elements).map f := by
  rw [between_eq, between_eq, List.length_map, List.map_take, List.map_drop]

/-- What is before a bound and what is from it on are the whole sequence. -/
theorem between_append (bound : Int) (elements : List α) :
    between none (some bound) elements ++ between (some bound) none elements = elements := by
  rw [between_eq, between_eq]
  simp only [Option.elim_none, Option.elim_some, Int.toNat_zero, Int.toNat_natCast, Nat.sub_zero,
    List.drop_zero]
  rw [← List.length_drop, List.take_length, List.take_append_drop]

theorem toNat_elim_clamped_le (bound : Option Int) {missing : Int} (h : missing ≤ length) :
    (bound.elim missing (clamped length)).toNat ≤ length := by
  cases bound with
  | none => exact Int.toNat_le.mpr h
  | some bound =>
    rw [Option.elim_some, clamped]
    omega

/-- The positions of a slice lie in order inside the sequence. -/
theorem stretch?_eq (a b : Option Int) (elements : List α) :
    stretch? (a.elim 0 (clamped elements.length)).toNat
        (max (b.elim (elements.length : Int) (clamped elements.length)).toNat
          (a.elim 0 (clamped elements.length)).toNat) elements = some (between a b elements) := by
  have hfirst := toNat_elim_clamped_le a (Int.natCast_nonneg elements.length)
  have hlast := toNat_elim_clamped_le b (le_refl (elements.length : Int))
  rw [stretch?, if_pos ⟨le_max_right _ _, max_le hlast hfirst⟩, between_eq,
    List.extract_eq_take_drop]
  congr 2
  omega

/-! ### Machines -/

theorem countedOn_eq (h : machine.Measures length) (hindex : InInt64 i) :
    countedOn machine length i = pure (counted length i) := by
  unfold countedOn counted
  split
  · next hneg => exact h.back hindex hneg
  · rfl

section Machines

variable [LawfulMonad m]

theorem positionOn?_eq (h : machine.Measures length) (hindex : InInt64 i) :
    positionOn? machine i length =
      pure (if 0 ≤ counted length i ∧ counted length i < length
        then some (counted length i).toNat else none) := by
  rw [positionOn?, h.whole, pure_bind, countedOn_eq h hindex, pure_bind]

theorem elementOn?_eq [Inhabited α] {elements : List α} (h : machine.Measures elements.length)
    (hindex : InInt64 i) : elementOn? machine i elements = pure (elementAt? i elements) := by
  rw [elementOn?, positionOn?_eq h hindex, pure_bind, elementAt?]
  by_cases hinside : 0 ≤ counted elements.length i ∧ counted elements.length i < elements.length
  · have hposition : (counted elements.length i).toNat < elements.length := by omega
    rw [if_pos hinside, if_neg (by omega)]
    dsimp only
    rw [List.getElem?_eq_getElem hposition, h.faithful.present, pure_bind]
  · rw [if_neg hinside]
    dsimp only
    split
    · rfl
    · rw [List.getElem?_eq_none (by omega)]

theorem clampOn_eq (h : machine.Measures length) {bound : Int} (hbound : InInt64 bound) :
    clampOn machine length bound = pure (clamped length bound).toNat := by
  rw [clampOn, countedOn_eq h hbound, pure_bind, clamped]

theorem boundsOn_eq (h : machine.Measures length) (ha : ∀ bound ∈ a, InInt64 bound)
    (hb : ∀ bound ∈ b, InInt64 bound) :
    boundsOn machine a b length =
      pure ((a.elim 0 (clamped length)).toNat,
        max (b.elim (length : Int) (clamped length)).toNat (a.elim 0 (clamped length)).toNat) := by
  have hfirst : a.elim (pure 0) (clampOn machine length) =
      pure (a.elim 0 (clamped length)).toNat := by
    cases a with
    | none => rfl
    | some bound => exact clampOn_eq h (ha bound rfl)
  have hlast : b.elim (pure length) (clampOn machine length) =
      pure (b.elim (length : Int) (clamped length)).toNat := by
    cases b with
    | none => rfl
    | some bound => exact clampOn_eq h (hb bound rfl)
  rw [boundsOn, h.whole, pure_bind, hfirst, pure_bind, hlast, pure_bind]

theorem betweenOn_eq {elements : List α} (h : machine.Measures elements.length)
    (ha : ∀ bound ∈ a, InInt64 bound) (hb : ∀ bound ∈ b, InInt64 bound) :
    betweenOn machine a b elements = pure (between a b elements) := by
  rw [betweenOn, boundsOn_eq h ha hb, pure_bind]
  dsimp only
  rw [stretch?_eq, h.faithful.present]

end Machines

/-! ### Values -/

/-- The parts of a list, its items, or of a string, its characters as strings of their own. -/
def parts? : Value → Option (List Value)
  | .list items => some items
  | .str text => some (text.toList.map fun c => .str (String.singleton c))
  | _ => none

/-- Whether a value stands for a bound of a slice: null for a missing one. -/
def IsBound (value : Value) : Option Int → Prop
  | none => value = .null
  | some bound => value.asInt64? = some bound

theorem IsBound.bound_eq (h : start.IsBound a) : bound start = .ok a := by
  cases a with
  | none =>
    obtain rfl : start = .null := h
    rfl
  | some n =>
    have hinteger : start.asInt64? = some n := h
    obtain ⟨flag, rfl, -⟩ | ⟨m, rfl, -⟩ := bool_or_int_of_asInt64? hinteger <;>
      simp only [bound, hinteger]

theorem IsBound.inInt64 (h : start.IsBound a) : ∀ bound ∈ a, InInt64 bound := by
  rintro bound rfl
  exact inInt64_of_asInt64? h

theorem item_object (entries : List (String × Value)) (name : String) :
    item (.object entries) (.str name) = .ok ((lookup? name entries).getD .null) :=
  rfl

theorem itemOn_list (machine : Machine m) (items : List Value) (hkey : key.asInt64? = some i) :
    itemOn machine (.list items) key =
      (do return .ok ((← elementOn? machine i items).getD .null)) := by
  obtain ⟨flag, rfl, -⟩ | ⟨n, rfl, -⟩ := bool_or_int_of_asInt64? hkey <;>
    simp only [itemOn, hkey]

theorem itemOn_str (machine : Machine m) (text : String) (hkey : key.asInt64? = some i) :
    itemOn machine (.str text) key =
      (do return .ok ((← elementOn? machine i text.toList).elim .null fun c =>
        .str (String.singleton c))) := by
  obtain ⟨flag, rfl, -⟩ | ⟨n, rfl, -⟩ := bool_or_int_of_asInt64? hkey <;>
    simp only [itemOn, hkey]

section Machines

variable [LawfulMonad m]

/-- An index is looked up in words without leaving them. -/
theorem itemOn_eq (hx : x.parts? = some parts) (hkey : key.asInt64? = some i)
    (h : machine.Measures parts.length) :
    itemOn machine x key = pure (.ok ((elementAt? i parts).getD .null)) := by
  have hindex := inInt64_of_asInt64? hkey
  cases x with
  | list items =>
    obtain rfl := Option.some.inj hx
    rw [itemOn_list machine items hkey, elementOn?_eq h hindex, pure_bind]
  | str text =>
    obtain rfl := Option.some.inj hx
    rw [List.length_map] at h
    rw [itemOn_str machine text hkey, elementOn?_eq h hindex, pure_bind, elementAt?_map]
    cases elementAt? i text.toList <;> rfl
  | _ => cases hx

theorem sliceOn_list {items : List Value} (h : machine.Measures items.length)
    (ha : ∀ bound ∈ a, InInt64 bound) (hb : ∀ bound ∈ b, InInt64 bound) :
    sliceOn machine (.list items) a b = pure (.ok (.list (between a b items))) := by
  rw [sliceOn, betweenOn_eq h ha hb, pure_bind]

theorem sliceOn_str {text : String} (h : machine.Measures text.toList.length)
    (ha : ∀ bound ∈ a, InInt64 bound) (hb : ∀ bound ∈ b, InInt64 bound) :
    sliceOn machine (.str text) a b =
      pure (.ok (.str (String.ofList (between a b text.toList)))) := by
  rw [sliceOn, betweenOn_eq h ha hb, pure_bind]

end Machines

theorem item_list {items : List Value} (hkey : key.asInt64? = some i) :
    item (.list items) key = .ok ((elementAt? i items).getD .null) :=
  itemOn_eq rfl hkey (Machine.measures_unbounded _)

theorem slice_eq (x : Value) (hstart : start.IsBound a) (hstop : stop.IsBound b) :
    x.slice start stop = Id.run (sliceOn .unbounded x a b) := by
  rw [slice, hstart.bound_eq, hstop.bound_eq]
  rfl

theorem slice_list (items : List Value) (hstart : start.IsBound a) (hstop : stop.IsBound b) :
    slice (.list items) start stop = .ok (.list (between a b items)) := by
  rw [slice_eq _ hstart hstop,
    sliceOn_list (Machine.measures_unbounded _) hstart.inInt64 hstop.inInt64]
  rfl

theorem slice_str (text : String) (hstart : start.IsBound a) (hstop : stop.IsBound b) :
    slice (.str text) start stop = .ok (.str (String.ofList (between a b text.toList))) := by
  rw [slice_eq _ hstart hstop,
    sliceOn_str (Machine.measures_unbounded _) hstart.inInt64 hstop.inInt64]
  rfl

/-- A slice is of the kind of the sequence and has its parts between the bounds. -/
theorem exists_slice (hx : x.parts? = some parts) (hstart : start.IsBound a)
    (hstop : stop.IsBound b) :
    ∃ y : Value, x.slice start stop = .ok y ∧ y.kind = x.kind ∧
      y.parts? = some (between a b parts) := by
  cases x with
  | list items =>
    obtain rfl := Option.some.inj hx
    exact ⟨_, slice_list items hstart hstop, rfl, rfl⟩
  | str text =>
    obtain rfl := Option.some.inj hx
    refine ⟨_, slice_str text hstart hstop, rfl, ?_⟩
    rw [parts?, String.toList_ofList, between_map]
  | _ => cases hx

/-- What is before a bound, joined with what is from it on. -/
theorem add_slices (hx : x.parts? = some parts) (hkey : key.asInt64? = some i) :
    ∃ front back, x.slice .null key = .ok front ∧ x.slice key .null = .ok back ∧
      applyBinary .add front back = .ok x := by
  have hnone : IsBound .null none := rfl
  have hsome : key.IsBound (some i) := hkey
  cases x with
  | list items =>
    refine ⟨_, _, slice_list items hnone hsome, slice_list items hsome hnone, ?_⟩
    change Except.ok (list _) = _
    rw [between_append]
  | str text =>
    refine ⟨_, _, slice_str text hnone hsome, slice_str text hsome hnone, ?_⟩
    change Except.ok (str (_ ++ _)) = _
    rw [← String.ofList_append, between_append, String.ofList_toList]
  | _ => cases hx

/-- What a machine that knows the length of a sequence makes of its indexes and slices does not
depend on the machine. -/
theorem subscripts_of_measures [LawfulMonad m] (h : machine.Measures parts.length)
    (hx : x.parts? = some parts) (hstart : start.IsBound a) (hstop : stop.IsBound b)
    (hkey : key.asInt64? = some i) :
    itemOn machine x key = pure (x.item key) ∧ sliceOn machine x a b = pure (x.slice start stop) := by
  constructor
  · rw [itemOn_eq hx hkey h, item, itemOn_eq hx hkey (Machine.measures_unbounded _)]
    rfl
  · cases x with
    | list items =>
      obtain rfl := Option.some.inj hx
      rw [sliceOn_list h hstart.inInt64 hstop.inInt64, slice_list items hstart hstop]
    | str text =>
      obtain rfl := Option.some.inj hx
      rw [List.length_map] at h
      rw [sliceOn_str h hstart.inInt64 hstop.inInt64, slice_str text hstart hstop]
    | _ => cases hx

/-- What indexing and slicing give for a list or a string with its parts, for the bounds `a` and `b`
and the index `i`. -/
structure Subscripts (x : Value) (parts : List Value) (start stop key : Value) (a b : Option Int)
    (i : Int) : Prop where
  slice : ∃ y : Value, x.slice start stop = .ok y ∧ y.kind = x.kind ∧
    y.parts? = some (between a b parts)
  halves : ∃ front back, x.slice .null key = .ok front ∧ x.slice key .null = .ok back ∧
    applyBinary .add front back = .ok x
  inside : -parts.length ≤ i → i < parts.length → ∃ (position : Nat) (part : Value),
    (position : Int) = (if i < 0 then parts.length + i else i) ∧
      parts[position]? = some part ∧ x.item key = .ok part
  outside : ¬ (-parts.length ≤ i ∧ i < parts.length) → x.item key = .ok .null
  never_traps : InInt64 parts.length →
    itemOn .trapping x key = some (x.item key) ∧
      sliceOn .trapping x a b = some (x.slice start stop)
  never_wraps : InInt64 parts.length →
    itemOn .wrapping x key = x.item key ∧ sliceOn .wrapping x a b = x.slice start stop

/-- Lists and strings are indexed and sliced by all integers, from the end by negative ones. A slice
has the elements at the positions between its bounds, and the slices up to an index and from it on
make up the sequence. An index that means no position gives null. Where the length fits a word, as
it does for every sequence in memory, no position that is computed leaves it and no element that is
fetched is missing. -/
theorem indexes_and_slices (hx : x.parts? = some parts) (hstart : start.IsBound a)
    (hstop : stop.IsBound b) (hkey : key.asInt64? = some i) :
    Subscripts x parts start stop key a b i where
  slice := exists_slice hx hstart hstop
  halves := add_slices hx hkey
  inside hlow hhigh := by
    have hcounted : 0 ≤ counted parts.length i ∧ counted parts.length i < parts.length := by
      unfold counted
      omega
    have hposition : (counted parts.length i).toNat < parts.length := by omega
    refine ⟨_, _, Int.toNat_of_nonneg hcounted.1, List.getElem?_eq_getElem hposition, ?_⟩
    rw [item, itemOn_eq hx hkey (Machine.measures_unbounded _),
      elementAt?_of_counted (Int.toNat_of_nonneg hcounted.1).symm,
      List.getElem?_eq_getElem hposition]
    rfl
  outside houtside := by
    rw [item, itemOn_eq hx hkey (Machine.measures_unbounded _), elementAt?_of_outside houtside]
    rfl
  never_traps hlength :=
    subscripts_of_measures (Machine.faithful_trapping.measures hlength) hx hstart hstop hkey
  never_wraps hlength :=
    subscripts_of_measures (Machine.faithful_wrapping.measures hlength) hx hstart hstop hkey

/-- The ends of the word on a list, and a bound from the end on a string whose last character takes
two bytes. -/
theorem indexes_and_slices_of_extremes :
    let least := -0x8000000000000000
    let greatest := 0x7FFFFFFFFFFFFFFF
    Subscripts (list [bool true, null]) [bool true, null] (ofInt least) (ofInt greatest)
        (ofInt least) (some least) (some greatest) least ∧
      Subscripts (str "né") [str "n", str "é"] null (ofInt (-1)) (bool true) none (some (-1)) 1 :=
  ⟨indexes_and_slices rfl rfl rfl rfl, indexes_and_slices (by simp [parts?]) rfl rfl rfl⟩

example : slice (str "hello") (ofInt (-3)) null = .ok (str "llo") := by cbv

end Value

end StreamQuery
