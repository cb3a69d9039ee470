import StreamQuery.Proofs.Aggregate.Slots

/-!
# Windows of accumulators

The calls that are still to come see the accumulators of the present group from the present position
on. A number of calls changes a window of these, and nothing else. When the same accumulators stand
in two places, calls at either place do the same to them.
-/

namespace StreamQuery.Aggregates

/-- The accumulator of a group at a position. -/
def slotAt (table : Aggregates) (key : String) (position : Nat) : Accumulator :=
  ((table.slotsOf key)[position]?).getD .empty

theorem next_eq_slotAt (table : Aggregates) :
    table.next = table.slotAt table.group table.position := rfl

theorem slotAt_store (table : Aggregates) (accumulator : Accumulator) (key : String)
    (position : Nat) : (table.store accumulator).slotAt key position =
      if key = table.group ∧ position = table.position then accumulator
      else table.slotAt key position := by
  by_cases hkey : key = table.group
  · subst hkey
    rw [slotAt, slotsOf_store_self, slotAt, Array.getElem?_setIfInBounds]
    by_cases hposition : position = table.position
    · have hsize : table.position < (table.slotsOf table.group ++ Array.replicate
          (table.position + 1 - (table.slotsOf table.group).size) Accumulator.empty).size := by
        rw [Array.size_append, Array.size_replicate]
        omega
      rw [if_pos hposition.symm, if_pos hsize, if_pos ⟨rfl, hposition⟩]
      rfl
    · rw [if_neg (Ne.symm hposition), if_neg (fun h => hposition h.2), Array.getElem?_append]
      split
      · rfl
      · next hsize =>
        rw [Array.getElem?_eq_none (Nat.le_of_not_lt hsize)]
        simp only [Array.getElem?_replicate]
        split <;> rfl
  · rw [slotAt, slotsOf_store_of_ne (Ne.symm hkey), if_neg (fun h => hkey h.1)]
    rfl

/-- The accumulators that a table has from the place on where the next call of another one goes. -/
def since (start table : Aggregates) (offset : Nat) : Accumulator :=
  table.slotAt start.group (start.position + offset)

/-- The accumulators of the calls to come. -/
def ahead (table : Aggregates) : Nat → Accumulator :=
  table.since table

/-! ### Going on -/

/-- A number of calls of the present group were made, which changed their own accumulators only. -/
structure Advances (calls : Nat) (table after : Aggregates) : Prop where
  group : after.group = table.group
  position : after.position = table.position + calls
  outside : ∀ key position,
    (key = table.group → position < table.position ∨ table.position + calls ≤ position) →
    after.slotAt key position = table.slotAt key position

theorem advances_store (table : Aggregates) (accumulator : Accumulator) :
    Advances 1 table (table.store accumulator) where
  group := rfl
  position := rfl
  outside key position hout := by
    rw [slotAt_store, if_neg]
    rintro ⟨rfl, rfl⟩
    have hbounds := hout rfl
    omega

namespace Advances

variable {calls more : Nat} {table middle after : Aggregates}

theorem refl (table : Aggregates) : Advances 0 table table :=
  ⟨rfl, rfl, fun _ _ _ => rfl⟩

theorem trans (hfirst : Advances calls table middle) (hnext : Advances more middle after) :
    Advances (calls + more) table after where
  group := hnext.group.trans hfirst.group
  position := by rw [hnext.position, hfirst.position, Nat.add_assoc]
  outside key position hout := by
    rw [hnext.outside key position, hfirst.outside key position]
    · exact fun hkey => (hout hkey).imp id (by omega)
    · rw [hfirst.group, hfirst.position]
      exact fun hkey => (hout hkey).imp (by omega) (by omega)

theorem since_of_le (h : Advances calls table after) {offset : Nat} (hle : calls ≤ offset) :
    table.since after offset = table.ahead offset :=
  h.outside _ _ fun _ => .inr (Nat.add_le_add_left hle _)

theorem since_add (h : Advances calls table middle) (after : Aggregates) (offset : Nat) :
    table.since after (calls + offset) = middle.since after offset := by
  rw [since, since, h.group, h.position, Nat.add_assoc]

/-- Later calls leave the accumulators of earlier ones alone. -/
theorem since_of_lt (hfirst : Advances calls table middle) (hnext : Advances more middle after)
    {offset : Nat} (hlt : offset < calls) : table.since after offset = table.since middle offset :=
  hnext.outside _ _ fun _ => .inl (hfirst.position ▸ Nat.add_lt_add_left hlt _)

theorem ahead_eq (h : Advances calls table after) (offset : Nat) :
    after.ahead offset = table.ahead (calls + offset) := by
  rw [ahead, ← h.since_add, h.since_of_le (Nat.le_add_right _ _)]

end Advances

/-! ### The same accumulators in two places -/

/-- The same number of calls were made from two tables, and left the same accumulators behind. -/
structure Matching (calls : Nat) (table other after otherAfter : Aggregates) : Prop where
  advances : Advances calls table after
  otherAdvances : Advances calls other otherAfter
  since_eq : ∀ offset < calls, table.since after offset = other.since otherAfter offset

namespace Matching

variable {calls more : Nat} {table other middle otherMiddle after otherAfter : Aggregates}

theorem refl (table other : Aggregates) : Matching 0 table other table other :=
  ⟨.refl _, .refl _, fun _ h => absurd h (Nat.not_lt_zero _)⟩

theorem trans (hfirst : Matching calls table other middle otherMiddle)
    (hnext : Matching more middle otherMiddle after otherAfter) :
    Matching (calls + more) table other after otherAfter where
  advances := hfirst.advances.trans hnext.advances
  otherAdvances := hfirst.otherAdvances.trans hnext.otherAdvances
  since_eq offset hoffset := by
    rcases Nat.lt_or_ge offset calls with hlt | hge
    · rw [hfirst.advances.since_of_lt hnext.advances hlt,
        hfirst.otherAdvances.since_of_lt hnext.otherAdvances hlt, hfirst.since_eq offset hlt]
    · obtain ⟨rest, rfl⟩ := Nat.exists_eq_add_of_le hge
      rw [hfirst.advances.since_add, hfirst.otherAdvances.since_add,
        hnext.since_eq rest (by omega)]

theorem store {accumulator : Accumulator} :
    Matching 1 table other (table.store accumulator) (other.store accumulator) where
  advances := advances_store table accumulator
  otherAdvances := advances_store other accumulator
  since_eq offset hoffset := by
    obtain rfl := Nat.lt_one_iff.mp hoffset
    rw [since, since, slotAt_store, slotAt_store, if_pos ⟨rfl, rfl⟩, if_pos ⟨rfl, rfl⟩]

end Matching

/-! ### A window that stands twice -/

/-- The accumulators on the right are those on the left with a second copy of a window: `size` of
them from `start` on stand once more at `place`, before those that stand there on the left. -/
structure Doubled (start place size : Nat) (left right : Nat → Accumulator) : Prop where
  before : ∀ offset < place, right offset = left offset
  copy : ∀ offset < size, right (place + offset) = left (start + offset)
  later : ∀ offset, right (place + size + offset) = left (place + offset)

theorem doubled_of_empty {start place size : Nat} {left right : Nat → Accumulator}
    (hleft : ∀ offset, left offset = .empty) (hright : ∀ offset, right offset = .empty) :
    Doubled start place size left right := by
  constructor
  all_goals simp [hleft, hright]

/-- The calls of a row, one table having made the calls of a window once and the other one twice:
the second time where the copy of the window stands. -/
structure Repeats (start size place more : Nat) (table other after otherAfter : Aggregates) :
    Prop where
  advances : Advances (place + more) table after
  otherAdvances : Advances (place + size + more) other otherAfter
  doubled : Doubled start place size (table.since after) (other.since otherAfter)

/-- A row is made up of calls before the window, those of the window, calls up to the place of the
copy, there the calls of the window again on the right, and calls after it. -/
theorem Doubled.repeats {start size rest more : Nat}
    {table first second third last other otherThird copied otherLast : Aggregates}
    (h : Doubled start (start + (size + rest)) size table.ahead other.ahead)
    (hstart : Advances start table first)
    (hrest : Advances rest second third)
    (hall : Matching (start + (size + rest)) table other third otherThird)
    (hcopy : Matching size first otherThird second copied)
    (hmore : Matching more third copied last otherLast) :
    Repeats start size (start + (size + rest)) more table other last otherLast where
  advances := hall.advances.trans hmore.advances
  otherAdvances := (hall.otherAdvances.trans hcopy.otherAdvances).trans hmore.otherAdvances
  doubled := by
    have hcopied := hcopy.otherAdvances.trans hmore.otherAdvances
    constructor
    -- Before the copy both tables made the same calls.
    · intro offset hoffset
      rw [hall.otherAdvances.since_of_lt hcopied hoffset,
        hall.advances.since_of_lt hmore.advances hoffset, hall.since_eq offset hoffset]
    -- The copy took the calls of the window, where the window itself had taken them on the left.
    · intro offset hoffset
      rw [hall.otherAdvances.since_add,
        hcopy.otherAdvances.since_of_lt hmore.otherAdvances hoffset, hstart.since_add,
        hcopy.advances.since_of_lt (hrest.trans hmore.advances) hoffset,
        hcopy.since_eq offset hoffset]
    -- Behind it all is shifted: the rest of this row, and what is left of longer rows.
    · intro offset
      rw [(hall.otherAdvances.trans hcopy.otherAdvances).since_add, hall.advances.since_add]
      rcases Nat.lt_or_ge offset more with hlt | hge
      · exact (hmore.since_eq offset hlt).symm
      · rw [hmore.otherAdvances.since_of_le hge, hmore.advances.since_of_le hge,
          (hall.otherAdvances.trans hcopy.otherAdvances).ahead_eq, hall.advances.ahead_eq,
          h.later]

end StreamQuery.Aggregates
