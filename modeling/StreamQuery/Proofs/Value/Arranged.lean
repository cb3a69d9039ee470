import Mathlib.Data.List.Perm.Basic
import Mathlib.Data.List.Sort
import StreamQuery.Proofs.Number.Rounding
import StreamQuery.Proofs.Value.Entries
import StreamQuery.Proofs.Value.Preorder
import StreamQuery.Value.Order

/-!
# Entries in another order

Equality of values passes over the order of object entries, their texts do not. Two values that
differ in that order only are equal, and they are the same value once the entries of their objects
are sorted by keys.
-/

namespace StreamQuery

namespace Value

/-- A value in which no object has a key twice. -/
inductive Keyed : Value → Prop where
  | null : Keyed .null
  | bool (b : Bool) : Keyed (.bool b)
  | int (n : BoundedInt) : Keyed (.int n)
  | float (x : FiniteFloat) : Keyed (.float x)
  | str (s : String) : Keyed (.str s)
  | list {items : List Value} (h : ∀ item ∈ items, Keyed item) : Keyed (.list items)
  | object {entries : List (String × Value)} (hkeys : (keysOf entries).Nodup)
    (h : ∀ entry ∈ entries, Keyed entry.2) : Keyed (.object entries)

/-- Two values that differ at most in the order of object entries, at any depth: their objects have
the same keys, and such values under each of them. -/
inductive Rearranged : Value → Value → Prop where
  | same (value : Value) : Rearranged value value
  | list {items others : List Value} (hlength : items.length = others.length)
    (h : ∀ pair ∈ items.zip others, Rearranged pair.1 pair.2) :
    Rearranged (.list items) (.list others)
  | object {entries others : List (String × Value)} (hkeys : (keysOf entries).Perm (keysOf others))
    (h : ∀ key value other, (key, value) ∈ entries → (key, other) ∈ others →
      Rearranged value other) :
    Rearranged (.object entries) (.object others)

/-! ### Equality -/

variable {entries others : List (String × Value)} {key : String} {value other : Value}

theorem mem_keysOf (h : (key, value) ∈ entries) : key ∈ keysOf entries :=
  List.mem_map_of_mem h

theorem exists_of_mem_keysOf (h : key ∈ keysOf entries) : ∃ value, (key, value) ∈ entries := by
  obtain ⟨entry, hentry, rfl⟩ := List.mem_map.mp h
  exact ⟨entry.2, hentry⟩

/-- Entries with different keys have one value under a key. -/
theorem eq_of_mem_entries (hkeys : (keysOf entries).Nodup) (hvalue : (key, value) ∈ entries)
    (hother : (key, other) ∈ entries) : value = other :=
  (Prod.mk.inj (List.inj_on_of_nodup_map hkeys hvalue hother rfl)).2

theorem exists_lookup? (h : key ∈ keysOf entries) : ∃ value, lookup? key entries = some value := by
  induction entries with
  | nil => cases h
  | cons entry rest ih =>
    rw [lookup?]
    by_cases hkey : entry.1 = key
    · exact ⟨entry.2, by simp [hkey]⟩
    · have hrest : key ∈ keysOf rest := (List.mem_cons.mp h).resolve_left (Ne.symm hkey)
      simpa [hkey] using ih hrest

/-- What holds of items and what they are mapped to holds of the two lists, pair by pair. -/
theorem forall_zip_map {α β : Type} {R : α → β → Prop} {f : α → β} {items : List α}
    (h : ∀ item ∈ items, R item (f item)) :
    ∀ pair ∈ items.zip (items.map f), R pair.1 pair.2 := by
  induction items with
  | nil => simp
  | cons item items ih =>
    obtain ⟨hfirst, hrest⟩ := List.forall_mem_cons.mp h
    exact List.forall_mem_cons.mpr ⟨hfirst, ih hrest⟩

theorem equalItems_of_zip {items others : List Value} (hlength : items.length = others.length)
    (h : ∀ pair ∈ items.zip others, equal pair.1 pair.2 = true) :
    equalItems items others = true := by
  induction items generalizing others with
  | nil => simpa [equalItems] using hlength.symm
  | cons item items ih =>
    cases others with
    | nil => cases hlength
    | cons other others =>
      obtain ⟨hfirst, hrest⟩ := List.forall_mem_cons.mp h
      rw [equalItems, hfirst, ih (Nat.succ.inj hlength) hrest]
      rfl

theorem equalEntries_iff :
    equalEntries entries others = true ↔
      ∀ entry ∈ entries, ∃ other, lookup? entry.1 others = some other ∧
        equal entry.2 other = true := by
  induction entries with
  | nil => simp [equalEntries]
  | cons entry rest ih =>
    rw [equalEntries, Bool.and_eq_true, ih, List.forall_mem_cons]
    cases lookup? entry.1 others <;> simp

theorem equal_object (hkeys : (keysOf entries).Perm (keysOf others))
    (h : ∀ key value other, (key, value) ∈ entries → (key, other) ∈ others →
      equal value other = true) :
    equal (.object entries) (.object others) = true := by
  have hlength : entries.length = others.length := by simpa [keysOf] using hkeys.length_eq
  rw [equal, hlength, BEq.rfl, Bool.true_and, equalEntries_iff]
  intro entry hentry
  obtain ⟨other, hother⟩ := exists_lookup? (hkeys.mem_iff.mp (mem_keysOf hentry))
  exact ⟨other, hother, h _ _ _ hentry (mem_of_lookup? hother)⟩

theorem beq_self_of_isFinite {x : Float} (h : x.isFinite = true) : (x == x) = true := by
  have hcompare := (Number.canonical_ofFloat h).compare_unpacked (Number.canonical_ofFloat h)
  rw [← Number.unpack_of_isFinite h, Int.compare_eq_eq.mpr rfl] at hcompare
  change (x.toModel.unpack.compare x.toModel.unpack == some Ordering.eq) = true
  rw [hcompare]
  rfl

theorem equal_int_self (n : BoundedInt) : equal (.int n) (.int n) = true := by
  have hfloat := beq_self_of_isFinite (Number.isFinite_floatOfInt n.natAbs_lt)
  simp [equal, isNumber, numberEqual, hfloat]

theorem equal_float_self (x : FiniteFloat) : equal (.float x) (.float x) = true := by
  simp [equal, isNumber, numberEqual, asFloat?, beq_self_of_isFinite x.finite]

/-- A value is equal to itself. -/
theorem Keyed.equal_self (h : value.Keyed) : equal value value = true := by
  induction h with
  | null => rfl
  | bool b => exact beq_self_eq_true b
  | int n => exact equal_int_self n
  | float x => exact equal_float_self x
  | str s => exact beq_self_eq_true s
  | @list items _ ih =>
    have hitems := forall_zip_map (R := fun a b => equal a b = true) (f := id) ih
    rw [List.map_id] at hitems
    exact equalItems_of_zip rfl hitems
  | @object entries hkeys _ ih =>
    refine equal_object (.refl _) fun key value other hvalue hother => ?_
    obtain rfl := eq_of_mem_entries hkeys hvalue hother
    exact ih _ hvalue

theorem mem_of_mem_zip {items others : List Value} {pair : Value × Value}
    (h : pair ∈ items.zip others) : pair.1 ∈ items :=
  (List.of_mem_zip h).1

/-- Values are equal in whatever order their entries stand. -/
theorem Rearranged.equal (h : Rearranged value other) (hvalue : value.Keyed) :
    value.equal other = true := by
  induction h with
  | same value => exact hvalue.equal_self
  | list hlength _ ih =>
    cases hvalue with
    | list hitems =>
      exact equalItems_of_zip hlength fun pair hpair =>
        ih pair hpair (hitems _ (mem_of_mem_zip hpair))
  | object hkeys _ ih =>
    cases hvalue with
    | object _ hentries =>
      exact equal_object hkeys fun key value other hvalue hother =>
        ih key value other hvalue hother (hentries _ hvalue)

/-! ### Sorted entries -/

mutual

/-- A value with the entries of all objects in it sorted by their keys. -/
def arranged : Value → Value
  | .list items => .list (arrangedItems items)
  | .object entries => .object ((arrangedEntries entries).mergeSort fun a b => decide (a.1 ≤ b.1))
  | value => value
termination_by structural value => value

/-- The items of a list, each of them arranged. -/
def arrangedItems : List Value → List Value
  | [] => []
  | item :: rest => item.arranged :: arrangedItems rest
termination_by structural items => items

/-- The entries of an object in their order, the value of each of them arranged. -/
def arrangedEntries : List (String × Value) → List (String × Value)
  | [] => []
  | (key, value) :: rest => (key, value.arranged) :: arrangedEntries rest
termination_by structural entries => entries

end

theorem arrangedItems_eq (items : List Value) : arrangedItems items = items.map arranged := by
  induction items with
  | nil => rfl
  | cons item rest ih => rw [arrangedItems, ih, List.map_cons]

theorem arrangedEntries_eq (entries : List (String × Value)) :
    arrangedEntries entries = entries.map fun entry => (entry.1, entry.2.arranged) := by
  induction entries with
  | nil => rfl
  | cons entry rest ih => rw [arrangedEntries, ih, List.map_cons]

theorem keysOf_arrangedEntries (entries : List (String × Value)) :
    keysOf (arrangedEntries entries) = keysOf entries := by
  rw [arrangedEntries_eq, keysOf, List.map_map]
  rfl

theorem nodup_keysOf_arrangedEntries (hkeys : (keysOf entries).Nodup) :
    (keysOf (arrangedEntries entries)).Nodup :=
  (keysOf_arrangedEntries entries).symm ▸ hkeys

theorem mem_arrangedEntries :
    (key, value) ∈ arrangedEntries entries ↔
      ∃ written, (key, written) ∈ entries ∧ written.arranged = value := by
  rw [arrangedEntries_eq]
  simp

/-- Entries with the same values under different keys are the same when they are sorted. -/
theorem mergeSort_eq_of_perm (hkeys : (keysOf entries).Nodup) (h : entries.Perm others) :
    (entries.mergeSort fun a b => decide (a.1 ≤ b.1)) =
      others.mergeSort fun a b => decide (a.1 ≤ b.1) := by
  have hsorted (entries : List (String × Value)) :=
    @List.pairwise_mergeSort _ (fun a b : String × Value => decide (a.1 ≤ b.1))
      (fun a b c hab hbc => by simpa using le_trans (by simpa using hab) (by simpa using hbc))
      (fun a b => by simpa using le_total a.1 b.1) entries
  refine List.Perm.eq_of_pairwise (fun a b ha hb hab hba => ?_) (hsorted entries) (hsorted others)
    ((List.mergeSort_perm _ _).trans (h.trans (List.mergeSort_perm _ _).symm))
  have hkey : a.1 = b.1 := le_antisymm (by simpa using hab) (by simpa using hba)
  exact List.inj_on_of_nodup_map hkeys ((List.mergeSort_perm _ _).mem_iff.mp ha)
    (h.mem_iff.mpr ((List.mergeSort_perm _ _).mem_iff.mp hb)) hkey

theorem map_arranged_of_zip {items others : List Value} (hlength : items.length = others.length)
    (h : ∀ pair ∈ items.zip others, pair.1.arranged = pair.2.arranged) :
    items.map arranged = others.map arranged := by
  induction items generalizing others with
  | nil => rw [List.eq_nil_of_length_eq_zero hlength.symm]
  | cons item items ih =>
    cases others with
    | nil => cases hlength
    | cons other others =>
      obtain ⟨hfirst, hrest⟩ := List.forall_mem_cons.mp h
      rw [List.map_cons, List.map_cons, hfirst, ih (Nat.succ.inj hlength) hrest]

/-- Entries with the same keys, and values under them that are arranged alike, are arranged
entries in another order. -/
theorem perm_arrangedEntries (hnodup : (keysOf entries).Nodup)
    (hkeys : (keysOf entries).Perm (keysOf others))
    (h : ∀ key value other, (key, value) ∈ entries → (key, other) ∈ others →
      value.arranged = other.arranged) :
    (arrangedEntries entries).Perm (arrangedEntries others) := by
  have hentries : (arrangedEntries entries).Nodup :=
    (nodup_keysOf_arrangedEntries hnodup).of_map
  have hothers : (arrangedEntries others).Nodup :=
    (nodup_keysOf_arrangedEntries (hkeys.nodup hnodup)).of_map
  refine (List.perm_ext_iff_of_nodup hentries hothers).mpr fun ⟨key, found⟩ => ?_
  rw [mem_arrangedEntries, mem_arrangedEntries]
  constructor
  · rintro ⟨value, hvalue, rfl⟩
    obtain ⟨other, hother⟩ := exists_of_mem_keysOf (hkeys.mem_iff.mp (mem_keysOf hvalue))
    exact ⟨other, hother, (h key value other hvalue hother).symm⟩
  · rintro ⟨other, hother, rfl⟩
    obtain ⟨value, hvalue⟩ := exists_of_mem_keysOf (hkeys.mem_iff.mpr (mem_keysOf hother))
    exact ⟨value, hvalue, h key value other hvalue hother⟩

/-- Values that differ in the order of entries only are the same when these are sorted. -/
theorem Rearranged.arranged_eq (h : Rearranged value other) (hvalue : value.Keyed) :
    value.arranged = other.arranged := by
  induction h with
  | same value => rfl
  | list hlength _ ih =>
    cases hvalue with
    | list hitems =>
      rw [arranged, arranged, arrangedItems_eq, arrangedItems_eq, map_arranged_of_zip hlength]
      exact fun pair hpair => ih pair hpair (hitems _ (mem_of_mem_zip hpair))
  | @object entries others hkeys _ ih =>
    cases hvalue with
    | object hnodup hentries =>
      have hperm := perm_arrangedEntries hnodup hkeys fun key value other hvalue hother =>
        ih key value other hvalue hother (hentries _ hvalue)
      rw [arranged, arranged,
        mergeSort_eq_of_perm (nodup_keysOf_arrangedEntries hnodup) hperm]

/-- Sorting entries changes their order only. -/
theorem Keyed.rearranged_arranged (h : value.Keyed) : Rearranged value value.arranged := by
  induction h with
  | list _ ih =>
    rw [arranged, arrangedItems_eq]
    exact .list (List.length_map _).symm (forall_zip_map ih)
  | @object entries hnodup _ ih =>
    have hsorted := List.mergeSort_perm (arrangedEntries entries) fun a b => decide (a.1 ≤ b.1)
    have hkeys := (hsorted.map (·.1)).symm
    rw [arranged]
    refine .object (keysOf_arrangedEntries entries ▸ hkeys) fun key value other hvalue hother => ?_
    obtain ⟨written, hwritten, rfl⟩ := mem_arrangedEntries.mp (hsorted.mem_iff.mp hother)
    obtain rfl := eq_of_mem_entries hnodup hvalue hwritten
    exact ih _ hvalue
  | _ => exact .same _

end Value

end StreamQuery
