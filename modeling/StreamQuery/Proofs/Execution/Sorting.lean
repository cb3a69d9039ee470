import StreamQuery.Execution.Output
import StreamQuery.Proofs.Value.Preorder

/-!
# Sorting of records

Records are sorted in one pass for each key of `ORDER BY`, the last key first. Passes are stable, so
together they sort by the first key that tells two records apart. A pass needs an order that is
transitive among the values it sees, which the order of values is unless their numbers blur.
-/

namespace StreamQuery

/-! ### Stable sorting by an order of the members -/

section Members

variable {α : Type} {le : α → α → Bool} {items : List α}

/-- Whether a relation is total and transitive among the members of a list. -/
structure Ranks (le : α → α → Bool) (items : List α) : Prop where
  total : ∀ a ∈ items, ∀ b ∈ items, le a b || le b a
  trans : ∀ a ∈ items, ∀ b ∈ items, ∀ c ∈ items, le a b → le b c → le a c

/-- A relation between the members of a list alone. -/
def amongMembers (le : α → α → Bool) (items : List α) (a b : { a // a ∈ items }) : Bool :=
  le a b

theorem Ranks.amongMembers_total (h : Ranks le items) (a b : { a // a ∈ items }) :
    amongMembers le items a b || amongMembers le items b a :=
  h.total a a.2 b b.2

theorem Ranks.amongMembers_trans (h : Ranks le items) (a b c : { a // a ∈ items }) :
    amongMembers le items a b → amongMembers le items b c → amongMembers le items a c :=
  h.trans a a.2 b b.2 c c.2

/-- Sorting only compares members. -/
theorem map_mergeSort_attach (le : α → α → Bool) (items : List α) :
    (items.attach.mergeSort (amongMembers le items)).map Subtype.val = items.mergeSort le := by
  rw [List.map_mergeSort (s := le) (f := Subtype.val) (r := amongMembers le items)
    (fun _ _ _ _ => rfl), List.attach_map_subtype_val]

theorem Ranks.pairwise_mergeSort (h : Ranks le items) :
    (items.mergeSort le).Pairwise (le · ·) := by
  rw [← map_mergeSort_attach, List.pairwise_map]
  exact List.pairwise_mergeSort h.amongMembers_trans h.amongMembers_total _

/-- Members that may all stand before each other keep their places among themselves. -/
theorem Ranks.filter_mergeSort (h : Ranks le items) {p : α → Bool}
    (hle : ∀ a ∈ items, ∀ b ∈ items, p a → p b → le a b) :
    (items.mergeSort le).filter p = items.filter p := by
  have hsorted : (items.attach.filter (p ∘ Subtype.val)).Pairwise
      (amongMembers le items · · = true) :=
    List.pairwise_of_forall_mem_list fun a ha b hb =>
      hle a a.2 b b.2 (List.mem_filter.mp ha).2 (List.mem_filter.mp hb).2
  have hsublist := (List.sublist_mergeSort h.amongMembers_trans h.amongMembers_total hsorted
    List.filter_sublist).filter (p ∘ Subtype.val)
  rw [List.filter_filter] at hsublist
  simp only [Bool.and_self] at hsublist
  have hlength := ((List.mergeSort_perm items.attach (amongMembers le items)).filter
    (p ∘ Subtype.val)).length_eq
  have heq := hsublist.eq_of_length hlength.symm
  calc (items.mergeSort le).filter p
      = ((items.attach.mergeSort (amongMembers le items)).filter (p ∘ Subtype.val)).map
          Subtype.val := by rw [← map_mergeSort_attach, List.filter_map]
    _ = (items.attach.filter (p ∘ Subtype.val)).map Subtype.val := by rw [heq]
    _ = items.filter p := by rw [← List.filter_map, List.attach_map_subtype_val]

end Members

/-! ### The order of two values under a key -/

namespace OrderKey

variable {allowed : Value → Prop} {a b c : Value}

theorem order_self (key : OrderKey) (a : Value) : key.order a a = .eq := by
  unfold order
  cases a.isNull <;> cases key.descending <;> simp [Value.order_self]

theorem order_swap (key : OrderKey) (a b : Value) : key.order b a = (key.order a b).swap := by
  unfold order
  cases a.isNull <;> cases b.isNull <;> cases key.descending <;> simp [Value.order_swap a b]

/-- The place of null under a key does not depend on the direction. -/
theorem order_null (key : OrderKey) (ha : a.isNull = true) (hb : b.isNull = false) :
    key.order a b = if key.nullsFirst then .lt else .gt := by
  simp [order, ha, hb]

end OrderKey

theorem Value.Chained.reverse {first second both : Ordering} (h : Value.Chained first second both) :
    Value.Chained second first both := by
  intro hsecond hfirst
  rw [h hfirst hsecond]
  cases first <;> cases second <;> simp_all

/-- A key orders values as transitively as their own order does. -/
theorem Value.Sharp.chained_key {allowed : Value → Prop} {a b c : Value} (hsharp : Sharp allowed)
    (key : OrderKey) (ha : Within allowed a) (hb : Within allowed b) (hc : Within allowed c) :
    Chained (key.order a b) (key.order b c) (key.order a c) := by
  have hup := hsharp.chained_order ha hb hc
  have hdown := (hsharp.chained_order hc hb ha).reverse
  rw [Value.order_swap a b, Value.order_swap b c, Value.order_swap a c] at hdown
  unfold OrderKey.order
  cases a.isNull <;> cases b.isNull <;> cases c.isNull <;> cases key.descending <;>
    cases key.nullsFirst <;> simp_all [Chained]
  all_goals cases a.order b <;> simp

/-! ### Passes -/

/-- The value that a record is ordered by under the key with an index; a missing one is null. -/
def OutputRecord.sortKey (record : OutputRecord) (index : Nat) : Value :=
  (record.sortKeys[index]?).getD .null

namespace OrderKey

/-- The order of two records under the keys from an index on: the first key that tells them apart
decides. -/
def lexicographic (index : Nat) : List OrderKey → OutputRecord → OutputRecord → Ordering
  | [], _, _ => .eq
  | key :: rest, a, b =>
    (key.order (a.sortKey index) (b.sortKey index)).then (lexicographic (index + 1) rest a b)

theorem admits_iff {key : OrderKey} {index : Nat} {a b : OutputRecord} :
    key.admits index a b = true ↔ key.order (a.sortKey index) (b.sortKey index) ≠ .gt := by
  simp [admits, OutputRecord.sortKey]

theorem lexicographic_self (index : Nat) (keys : List OrderKey) (a : OutputRecord) :
    lexicographic index keys a a = .eq := by
  induction keys generalizing index with
  | nil => rfl
  | cons key rest ih => rw [lexicographic, order_self, ih, Ordering.eq_then]

theorem lexicographic_swap (index : Nat) (keys : List OrderKey) (a b : OutputRecord) :
    lexicographic index keys b a = (lexicographic index keys a b).swap := by
  induction keys generalizing index with
  | nil => rfl
  | cons key rest ih => rw [lexicographic, lexicographic, ih, order_swap, Ordering.swap_then]

end OrderKey

/-- Whether all numbers that a comparison of sort keys of the records meets are allowed. -/
def SortKeysWithin (allowed : Value → Prop) (records : List OutputRecord) : Prop :=
  ∀ record ∈ records, ∀ value ∈ record.sortKeys, value.Within allowed

section Passes

variable {allowed : Value → Prop} {records : List OutputRecord} {a b c : OutputRecord}

theorem SortKeysWithin.sortKey (h : SortKeysWithin allowed records) (ha : a ∈ records)
    (index : Nat) : (a.sortKey index).Within allowed := by
  unfold OutputRecord.sortKey
  cases hget : a.sortKeys[index]? with
  | some value => exact h a ha value (List.mem_of_getElem? hget)
  | none =>
    intro number hcompares
    cases hcompares with
    | itself hnumber => cases hnumber

theorem SortKeysWithin.chained_lexicographic (h : SortKeysWithin allowed records)
    (hsharp : Value.Sharp allowed) (ha : a ∈ records) (hb : b ∈ records) (hc : c ∈ records)
    (index : Nat) (keys : List OrderKey) :
    Value.Chained (OrderKey.lexicographic index keys a b) (OrderKey.lexicographic index keys b c)
      (OrderKey.lexicographic index keys a c) := by
  induction keys generalizing index with
  | nil => exact fun _ _ => rfl
  | cons key rest ih =>
    exact (hsharp.chained_key key (h.sortKey ha index) (h.sortKey hb index)
      (h.sortKey hc index)).then (ih (index + 1))

theorem SortKeysWithin.ranks_admits (h : SortKeysWithin allowed records)
    (hsharp : Value.Sharp allowed) (key : OrderKey) (index : Nat) :
    Ranks (key.admits index) records where
  total := by
    intro a _ b _
    rw [Bool.or_eq_true, OrderKey.admits_iff, OrderKey.admits_iff, OrderKey.order_swap key
      (a.sortKey index) (b.sortKey index)]
    cases key.order (a.sortKey index) (b.sortKey index) <;> simp
  trans := by
    intro a ha b hb c hc hab hbc
    rw [OrderKey.admits_iff] at *
    rw [hsharp.chained_key key (h.sortKey ha index) (h.sortKey hb index) (h.sortKey hc index) hab
      hbc]
    cases hcase : key.order (a.sortKey index) (b.sortKey index) <;> simp_all

theorem SortKeysWithin.of_perm {sorted : List OutputRecord} (h : SortKeysWithin allowed records)
    (hperm : sorted.Perm records) : SortKeysWithin allowed sorted :=
  fun record hmem => h record (hperm.mem_iff.mp hmem)

/-- Whether records are in the order of the keys from an index on, and those that no key tells apart
in the order they had. -/
structure StablySorted (index : Nat) (keys : List OrderKey) (records sorted : List OutputRecord) :
    Prop where
  perm : sorted.Perm records
  ordered : sorted.Pairwise (OrderKey.lexicographic index keys · · ≠ .gt)
  stable : ∀ a ∈ records, sorted.filter (OrderKey.lexicographic index keys a · == .eq) =
    records.filter (OrderKey.lexicographic index keys a · == .eq)

/-- A pass keeps the order of the records that its key does not tell from one of them. -/
theorem SortKeysWithin.filter_pass (h : SortKeysWithin allowed records)
    (hsharp : Value.Sharp allowed) (key : OrderKey) (index : Nat) (ha : a ∈ records) :
    (records.mergeSort (key.admits index)).filter
        (fun b => key.order (a.sortKey index) (b.sortKey index) == .eq) =
      records.filter (fun b => key.order (a.sortKey index) (b.sortKey index) == .eq) := by
  refine (h.ranks_admits hsharp key index).filter_mergeSort fun b hb c hc hab hac => ?_
  simp only [beq_iff_eq] at hab hac
  have hba : key.order (b.sortKey index) (a.sortKey index) = .eq := by
    rw [OrderKey.order_swap, hab, Ordering.swap_eq]
  have hchain := hsharp.chained_key key (h.sortKey hb index) (h.sortKey ha index)
    (h.sortKey hc index)
  rw [OrderKey.admits_iff, hchain (by simp [hba]) (by simp [hac]), hba, hac]
  simp

/-- One more pass, by a key that goes before those sorted by. -/
theorem StablySorted.pass {index : Nat} {key : OrderKey} {rest : List OrderKey}
    {sorted : List OutputRecord} (h : StablySorted (index + 1) rest records sorted)
    (hwithin : SortKeysWithin allowed records) (hsharp : Value.Sharp allowed) :
    StablySorted index (key :: rest) records (sorted.mergeSort (key.admits index)) where
  perm := (List.mergeSort_perm _ _).trans h.perm
  ordered := by
    have hsorted := hwithin.of_perm h.perm
    have hpass := (hsorted.ranks_admits hsharp key index).pairwise_mergeSort
    rw [List.pairwise_iff_forall_sublist] at hpass ⊢
    intro a b hab
    have ha : a ∈ sorted := List.mem_mergeSort.mp (hab.subset (by simp))
    have hkey := OrderKey.admits_iff.mp (hpass hab)
    rw [OrderKey.lexicographic]
    cases hcase : key.order (a.sortKey index) (b.sortKey index) with
    | lt => simp
    | gt => exact absurd hcase hkey
    | eq =>
      -- Two records that the key does not tell apart stood in this order before the pass.
      have hbefore := hab.filter
        (fun c => key.order (a.sortKey index) (c.sortKey index) == .eq)
      rw [hsorted.filter_pass hsharp key index ha] at hbefore
      simp only [OrderKey.order_self, hcase, List.filter_cons, BEq.rfl, if_true, List.filter_nil]
        at hbefore
      exact List.pairwise_iff_forall_sublist.mp h.ordered (hbefore.trans List.filter_sublist)
  stable := by
    intro a ha
    have hsplit (list : List OutputRecord) :
        list.filter (OrderKey.lexicographic index (key :: rest) a · == .eq) =
          (list.filter (fun b => key.order (a.sortKey index) (b.sortKey index) == .eq)).filter
            (OrderKey.lexicographic (index + 1) rest a · == .eq) := by
      rw [List.filter_filter]
      refine List.filter_congr fun b _ => ?_
      rw [OrderKey.lexicographic]
      cases key.order (a.sortKey index) (b.sortKey index) <;> simp
    rw [hsplit, hsplit, (hwithin.of_perm h.perm).filter_pass hsharp key index
      (h.perm.mem_iff.mpr ha), List.filter_comm, h.stable a ha, List.filter_comm]

/-- Sorting by keys, where the numbers among the sort keys do not blur. -/
theorem stablySorted_sortFrom (hsharp : Value.Sharp allowed)
    (hwithin : SortKeysWithin allowed records) (index : Nat) (keys : List OrderKey) :
    StablySorted index keys records (sortFrom index keys records) := by
  induction keys generalizing index with
  | nil =>
    exact ⟨.rfl, List.pairwise_of_forall fun _ _ => by simp [OrderKey.lexicographic],
      fun _ _ => rfl⟩
  | cons key rest ih => exact (ih (index + 1)).pass hwithin hsharp

end Passes

/-! ### The place of null -/

/-- Where a key is the first one that tells two records apart and one of them has null there, the
place for null decides. -/
theorem OrderKey.isNull_of_lexicographic {index position : Nat} {keys : List OrderKey}
    {key : OrderKey} {a b : OutputRecord} (hget : keys[position]? = some key)
    (hordered : lexicographic index keys a b ≠ .gt)
    (hequal : lexicographic index (keys.take position) a b = .eq)
    (hnull : (a.sortKey (index + position)).isNull ≠ (b.sortKey (index + position)).isNull) :
    (a.sortKey (index + position)).isNull = key.nullsFirst := by
  induction keys generalizing index position with
  | nil => simp at hget
  | cons first rest ih =>
    cases position with
    | zero =>
      obtain rfl : first = key := by simpa using hget
      rw [lexicographic] at hordered
      simp only [Nat.add_zero] at hnull ⊢
      cases ha : (a.sortKey index).isNull <;> cases hb : (b.sortKey index).isNull <;>
        cases hfirst : first.nullsFirst <;> simp_all [order]
    | succ position =>
      rw [lexicographic] at hordered
      rw [List.take_succ_cons, lexicographic, Ordering.then_eq_eq] at hequal
      rw [hequal.1, Ordering.eq_then] at hordered
      have hshift : index + (position + 1) = index + 1 + position := by omega
      rw [hshift] at hnull ⊢
      exact ih (by simpa using hget) hordered hequal.2 hnull

/-! ### Values without floats and large integers -/

/-- Signed 64-bit integers are compared exactly. -/
theorem Value.sharp_isInt64 : Sharp (·.isInt64 = true) := by
  intro lesser greater number _ _ hnumber hblurred
  rw [isInt64, hblurred.inexact] at hnumber
  cases hnumber

/-- Sorting by keys whose values hold no floats and no integers but signed 64-bit ones. The records
are in the order of the first key that tells two of them apart, and those that none tells apart in
the order they had. Among the records that the keys before a key do not tell apart, null stands
where that key wants it. -/
theorem sortRecords_stable (keys : List OrderKey) (records : List OutputRecord)
    (hwithin : SortKeysWithin (·.isInt64 = true) records) :
    StablySorted 0 keys records (sortRecords keys records) ∧
      (sortRecords keys records).Pairwise fun a b =>
        ∀ position key, keys[position]? = some key →
          OrderKey.lexicographic 0 (keys.take position) a b = .eq →
            (a.sortKey position).isNull ≠ (b.sortKey position).isNull →
              (a.sortKey position).isNull = key.nullsFirst := by
  have hsorted := stablySorted_sortFrom Value.sharp_isInt64 hwithin 0 keys
  refine ⟨hsorted, hsorted.ordered.imp fun hordered position key hget hequal hnull => ?_⟩
  have hplace := OrderKey.isNull_of_lexicographic hget hordered hequal
  rw [Nat.zero_add] at hplace
  exact hplace hnull

/-- Under a key that orders downwards and wants null last, one comes after two and null after one. -/
theorem sortRecords_stable_of_descending :
    let one : BoundedInt := ⟨1, by decide, by decide⟩
    let two : BoundedInt := ⟨2, by decide, by decide⟩
    let records : List OutputRecord :=
      [⟨[], [.int one], "one"⟩, ⟨[], [], "none"⟩, ⟨[], [.int two], "two"⟩]
    let keys : List OrderKey := [⟨.outputColumn 0, true, some .last⟩]
    SortKeysWithin (·.isInt64 = true) records ∧
      StablySorted 0 keys records (sortRecords keys records) ∧
        (sortRecords keys records).map (·.groupKey) = ["two", "one", "none"] := by
  intro one two records keys
  have hwithin : SortKeysWithin (·.isInt64 = true) records := by
    simp only [SortKeysWithin, records, List.forall_mem_cons, List.not_mem_nil, false_implies,
      implies_true, and_true, true_and]
    exact ⟨(Value.within_iff rfl).mpr (by decide), (Value.within_iff rfl).mpr (by decide)⟩
  exact ⟨hwithin, (sortRecords_stable keys records hwithin).1, by cbv⟩

end StreamQuery
