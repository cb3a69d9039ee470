import StreamQuery.Aggregate.Table

/-!
# The accumulators of one group

Aggregate calls only look at the accumulators of the present group, at the present position, and
leave those of all other groups alone.
-/

namespace StreamQuery.Aggregates

/-- The accumulators of a group. -/
def slotsOf (table : Aggregates) (key : String) : Array Accumulator :=
  table.slots.getD key #[]

theorem slotsOf_store_of_ne {table : Aggregates} {key : String} (h : table.group ≠ key)
    (accumulator : Accumulator) : (table.store accumulator).slotsOf key = table.slotsOf key := by
  simp [slotsOf, store, Std.HashMap.getD_insert, h]

theorem slotsOf_store_self (table : Aggregates) (accumulator : Accumulator) :
    (table.store accumulator).slotsOf table.group =
      (table.slotsOf table.group ++ Array.replicate
        (table.position + 1 - (table.slotsOf table.group).size) Accumulator.empty).setIfInBounds
          table.position accumulator := by
  simp [slotsOf, store, present]

/-- The count of the next call on one more value. -/
def countWith (table : Aggregates) (value : Value) : Value :=
  .ofInt (table.next.counted + if value.isNull then 0 else 1)

theorem call_count (table : Aggregates) (value : Value) :
    table.call .count [value] =
      (.ok (table.countWith value), table.store (.running (table.countWith value))) :=
  rfl

/-- On two tables whose next accumulators are the same a call has the same result. It either fails
before it takes an accumulator, or stores the same one on both. -/
theorem call_of_next {table other : Aggregates} (h : table.next = other.next)
    (function : Aggregate) (arguments : List Value) :
    (∃ error, table.call function arguments = (.error error, table) ∧
      other.call function arguments = (.error error, other)) ∨
    ∃ result accumulator, table.call function arguments = (result, table.store accumulator) ∧
      other.call function arguments = (result, other.store accumulator) := by
  unfold call
  rw [← h]
  cases function.step arguments with
  | error error => exact .inl ⟨error, rfl, rfl⟩
  | ok step =>
    dsimp only
    cases step table.next with
    | error error => exact .inr ⟨_, _, rfl, rfl⟩
    | ok result => exact .inr ⟨_, _, rfl, rfl⟩

/-! ### Two tables in one group -/

/-- Two tables on a row of one group, with the same accumulators of it. -/
structure Matches (key : String) (table other : Aggregates) : Prop where
  group : table.group = key
  otherGroup : other.group = key
  position : table.position = other.position
  slots : table.slotsOf key = other.slotsOf key

namespace Matches

variable {key : String} {table other : Aggregates}

theorem startRow (h : table.slotsOf key = other.slotsOf key) :
    Matches key (table.startRow key) (other.startRow key) :=
  ⟨rfl, rfl, rfl, h⟩

theorem next (h : Matches key table other) : table.next = other.next := by
  have hpresent : table.present = other.present := by
    rw [present, present, h.group, h.otherGroup]
    exact h.slots
  rw [Aggregates.next, Aggregates.next, hpresent, h.position]

theorem store (h : Matches key table other) (accumulator : Accumulator) :
    Matches key (table.store accumulator) (other.store accumulator) where
  group := h.group
  otherGroup := h.otherGroup
  position := congrArg (· + 1) h.position
  slots := by
    have hleft := slotsOf_store_self table accumulator
    have hright := slotsOf_store_self other accumulator
    rw [h.group] at hleft
    rw [h.otherGroup] at hright
    rw [hleft, hright, h.slots, h.position]

/-- A call gives the same result on both tables, and leaves them matching. -/
theorem call (h : Matches key table other) (function : Aggregate) (arguments : List Value) :
    (table.call function arguments).1 = (other.call function arguments).1 ∧
      Matches key (table.call function arguments).2 (other.call function arguments).2 := by
  rcases call_of_next h.next function arguments with
    ⟨error, hcall, hother⟩ | ⟨result, accumulator, hcall, hother⟩
  · rw [hcall, hother]
    exact ⟨rfl, h⟩
  · rw [hcall, hother]
    exact ⟨rfl, h.store _⟩

end Matches

/-! ### Other groups -/

/-- A table on a row of another group, with certain accumulators of the group with a key. -/
structure Leaves (key : String) (slots : Array Accumulator) (table : Aggregates) : Prop where
  group : table.group ≠ key
  slots : table.slotsOf key = slots

theorem Leaves.store {key : String} {slots : Array Accumulator} {table : Aggregates}
    (h : Leaves key slots table) (accumulator : Accumulator) :
    Leaves key slots (table.store accumulator) :=
  ⟨h.group, (slotsOf_store_of_ne h.group accumulator).trans h.slots⟩

theorem Leaves.call {key : String} {slots : Array Accumulator} {table : Aggregates}
    (h : Leaves key slots table) (function : Aggregate) (arguments : List Value) :
    Leaves key slots (table.call function arguments).2 := by
  rcases call_of_next rfl function arguments with ⟨error, hcall, -⟩ | ⟨result, accumulator, hcall, -⟩
  · rwa [hcall]
  · rw [hcall]
    exact h.store _

end StreamQuery.Aggregates
