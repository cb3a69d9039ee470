import StreamQuery.Function.Library
import StreamQuery.Proofs.Aggregate.Histories
import StreamQuery.Proofs.Execution.Sorting

/-!
# What aggregate functions come to

Each aggregate function goes by its own accumulator from call to call. Yet every result is a function
of the list of inputs up to the call: a number, a choice, or what they are when put together.
-/

namespace StreamQuery

/-- Whether an input counts under a flag, which tells whether null does. -/
def counts (flag : Option Value) (otherwise : Bool) (x : Value) : Bool :=
  (flag.map Value.truthy).getD otherwise || !x.isNull

/-- Values combined from the left; null if there are none. -/
def combined (f : Value → Value → Value) : List Value → Value
  | [] => .null
  | first :: rest => rest.foldl f first

/-- The better of two values by the order, the earlier one unless the later one surpasses it. -/
def pick (surpasses : Ordering) (earlier later : Value) : Value :=
  if later.order earlier == surpasses then later else earlier

/-- The first value that none surpasses. -/
def firstUnsurpassed (surpasses : Ordering) (xs : List Value) : Option Value :=
  xs.find? fun x => xs.all fun y => y.order x != surpasses

/-- The values that are the first with their keys. -/
def firstOccurrences (xs : List Value) : List Value :=
  xs.eraseDupsBy fun x y => tupleKey [x] == tupleKey [y]

/-! ### Combined values -/

section Combined

variable {f : Value → Value → Value}

theorem combined_append_singleton {xs : List Value} (hne : xs ≠ []) (x : Value) :
    combined f (xs ++ [x]) = f (combined f xs) x := by
  obtain ⟨first, rest, rfl⟩ := List.exists_cons_of_ne_nil hne
  simp [combined]

theorem isNull_combined (hf : ∀ a b, a.isNull = false → b.isNull = false → (f a b).isNull = false)
    {xs : List Value} (hne : xs ≠ []) (hxs : ∀ x ∈ xs, x.isNull = false) :
    (combined f xs).isNull = false := by
  induction xs using List.reverseRecOn with
  | nil => exact absurd rfl hne
  | append_singleton xs x ih =>
    rw [List.forall_mem_append, List.forall_mem_singleton] at hxs
    by_cases hempty : xs = []
    · subst hempty
      exact hxs.2
    · rw [combined_append_singleton hempty]
      exact hf _ _ (ih hempty hxs.1) hxs.2

end Combined

namespace Aggregates

/-- All inputs are allowed. -/
abbrev anyInputs {α : Type} (_ : List α) : Prop := True

/-- What an accumulator shows of the inputs, brought up to date by each call, decides the
results. -/
theorem summarizes_of_view {α β : Type} {function : Aggregate} {arguments : α → List Value}
    (effect : α → Accumulator.Step) (view : Accumulator → β) (next : α → β → β)
    (result : β → Value) (state : List α → β)
    (hstep : ∀ x, function.step (arguments x) = .ok (effect x))
    (heffect : ∀ x accumulator, ∃ after,
      effect x accumulator = .ok (result (next x (view accumulator)), after) ∧
        view after = next x (view accumulator))
    (hempty : view .empty = state [])
    (happend : ∀ ys x, state (ys ++ [x]) = next x (state ys)) :
    Summarizes anyInputs function arguments fun ys => result (state ys) := by
  apply summarizes_of_represents effect fun accumulator ys => view accumulator = state ys
  · exact hstep
  · exact hempty
  · intro ys x accumulator _ hview
    obtain ⟨after, heq, hafter⟩ := heffect x accumulator
    rw [happend, ← hview]
    exact ⟨after, heq, hafter⟩
  · exact fun _ _ _ _ => trivial

/-- A fold that never comes to null is the inputs combined. -/
theorem summarizes_fold {function : Aggregate} {op : Value → Value → Except Error Value}
    {f : Value → Value → Value} {input : Value → Value}
    (hstep : ∀ x, function.step [x] = .ok (Accumulator.fold op (input x)))
    (hop : ∀ a b, op a b = .ok (f a b))
    (hf : ∀ a b, a.isNull = false → b.isNull = false → (f a b).isNull = false) :
    Summarizes anyInputs function (fun x => [x]) fun xs => combined f (kept (xs.map input)) := by
  apply summarizes_of_view (fun x => Accumulator.fold op (input x)) Accumulator.current
    (fun x value =>
      if (input x).isNull then value else if value.isNull then input x else f value (input x))
    id (fun xs => combined f (kept (xs.map input))) hstep
  · intro x accumulator
    cases hx : (input x).isNull with
    | true => exact ⟨_, Accumulator.fold_of_null hx, rfl⟩
    | false =>
      cases hcurrent : accumulator.current.isNull with
      | true => exact ⟨_, Accumulator.fold_of_current_null hx hcurrent, rfl⟩
      | false => exact ⟨_, Accumulator.fold_of_op hx hcurrent (hop _ _), rfl⟩
  · rfl
  · intro ys x
    rw [List.map_append, List.map_singleton, kept_append_singleton]
    cases hx : (input x).isNull with
    | true => rfl
    | false =>
      by_cases hempty : kept (ys.map input) = []
      · rw [hempty]
        rfl
      · have hnull := isNull_combined hf hempty fun _ => isNull_of_mem_kept
        simp only [Bool.false_eq_true, if_false, hnull, combined_append_singleton hempty]

/-! ### Numbers of inputs -/

theorem counted_running_ofNat {n : Nat} (h : n < 2 ^ 63) :
    Accumulator.counted (.running (.ofNat n)) = n := by
  have hlower : (-0x8000000000000000 : Int) ≤ n := by omega
  have hupper : (n : Int) < 0x10000000000000000 := by omega
  have hsigned : InInt64 n := ⟨hlower, by omega⟩
  rw [Value.ofNat, Value.ofInt, dif_pos ⟨hlower, hupper⟩, Accumulator.counted]
  simp only [hsigned, if_true]

theorem summarizes_count : Summarizes (fun xs => (kept xs).length < 2 ^ 63) .count
    (fun x => [x]) fun xs => .ofNat (kept xs).length := by
  apply summarizes_of_represents Accumulator.count fun accumulator ys =>
    accumulator.counted = (kept ys).length
  · exact fun _ => rfl
  · rfl
  · intro ys x accumulator hlength hcounted
    have hnext : accumulator.counted + (if x.isNull then 0 else 1) = (kept (ys ++ [x])).length := by
      rw [hcounted, kept_append_singleton]
      cases x.isNull <;> simp
    refine ⟨.running (.ofNat (kept (ys ++ [x])).length), ?_, counted_running_ofNat hlength⟩
    rw [Accumulator.count, hnext]
    rfl
  · exact fun xs ys hxs hys => Nat.lt_of_le_of_lt (hys.filter _).length_le hxs

/-! ### Extremes -/

theorem extreme_eq_combined (surpasses : Ordering) (xs : List Value) :
    MathFunction.extreme surpasses xs = combined (pick surpasses) (kept xs) := by
  rw [MathFunction.extreme, kept]
  cases xs.filter (!·.isNull) <;> rfl

theorem isNull_pick (surpasses : Ordering) (a b : Value) (ha : a.isNull = false)
    (hb : b.isNull = false) : (pick surpasses a b).isNull = false := by
  unfold pick
  split
  · exact hb
  · exact ha

theorem summarizes_extreme {function : Aggregate} {surpasses : Ordering}
    (hstep : ∀ x, function.step [x] = .ok (Accumulator.fold (Accumulator.better surpasses) x)) :
    Summarizes anyInputs function (fun x => [x]) (MathFunction.extreme surpasses) := by
  have h := summarizes_fold hstep (fun _ _ => rfl) (isNull_pick surpasses)
  simp only [List.map_id'] at h
  rwa [funext (extreme_eq_combined surpasses)]

theorem builtin_min (xs : List Value) :
    Builtin.call "min" [.list xs] = .ok ⟨MathFunction.extreme .lt xs, none⟩ := by
  have hname : Builtin.ofName? (Unicode.toLower "min") = some (.math .min) := by decide
  rw [Builtin.call, hname]
  rfl

theorem builtin_max (xs : List Value) :
    Builtin.call "max" [.list xs] = .ok ⟨MathFunction.extreme .gt xs, none⟩ := by
  have hname : Builtin.ofName? (Unicode.toLower "max") = some (.math .max) := by decide
  rw [Builtin.call, hname]
  rfl

end Aggregates

/-- Whether all numbers compared where a value is are signed 64-bit integers. -/
def Value.Exact (x : Value) : Prop :=
  x.Within (·.isInt64 = true)

/-- A value surpassed by one that itself is not better than a third: the third is surpassed too. -/
theorem Value.Exact.surpasses {surpasses : Ordering} (hsurpasses : surpasses ≠ .eq) {a b c : Value}
    (ha : a.Exact) (hb : b.Exact) (hc : c.Exact) (h : c.order b = surpasses)
    (hnot : a.order b ≠ surpasses) : c.order a = surpasses := by
  cases surpasses with
  | eq => exact absurd rfl hsurpasses
  | lt =>
    have hba : b.order a ≠ .gt := by
      rw [Value.order_swap a b]
      cases hab : a.order b with
      | lt => exact absurd hab hnot
      | eq => decide
      | gt => decide
    rw [Value.sharp_isInt64.chained_order hc hb ha (by simp [h]) hba, h, Ordering.lt_then]
  | gt =>
    -- Seen from the other side: the third is at most the first surpassed, which is below.
    have hbelow : b.order c = .lt := by
      rw [Value.order_swap c b, h]
      rfl
    have hac : a.order c = .lt := by
      rw [Value.sharp_isInt64.chained_order ha hb hc hnot (by simp [hbelow]), hbelow]
      cases hab : a.order b with
      | lt => rfl
      | eq => rfl
      | gt => exact absurd hab hnot
    rw [Value.order_swap a c, hac]
    rfl

/-- A value of a list that none surpasses, and that surpasses all before it. -/
structure Leads (surpasses : Ordering) (xs : List Value) (best : Value) : Prop where
  unsurpassed : ∀ x ∈ xs, x.order best ≠ surpasses
  first : ∃ before after, xs = before ++ best :: after ∧ ∀ x ∈ before, best.order x = surpasses

namespace Leads

variable {surpasses : Ordering} {xs : List Value} {best : Value}

theorem mem (h : Leads surpasses xs best) : best ∈ xs := by
  obtain ⟨before, after, rfl, -⟩ := h.first
  simp

theorem singleton (hsurpasses : surpasses ≠ .eq) (x : Value) : Leads surpasses [x] x where
  unsurpassed y hy := by
    rw [List.mem_singleton.mp hy, Value.order_self]
    exact Ne.symm hsurpasses
  first := ⟨[], [], rfl, by simp⟩

/-- One more value takes the lead if it surpasses the one that has it. -/
theorem append_singleton (hsurpasses : surpasses ≠ .eq) (h : Leads surpasses xs best) {x : Value}
    (hxs : ∀ y ∈ xs, y.Exact) (hx : x.Exact) :
    Leads surpasses (xs ++ [x]) (pick surpasses best x) := by
  unfold pick
  by_cases hbetter : x.order best = surpasses
  · have hall : ∀ y ∈ xs, x.order y = surpasses := fun y hy =>
      Value.Exact.surpasses hsurpasses (hxs y hy) (hxs best h.mem) hx hbetter (h.unsurpassed y hy)
    rw [if_pos (by simp [hbetter])]
    refine ⟨fun y hy => ?_, xs, [], rfl, hall⟩
    rcases List.mem_append.mp hy with hmem | hlast
    · rw [Value.order_swap x y, hall y hmem]
      cases surpasses <;> simp_all
    · rw [List.mem_singleton.mp hlast, Value.order_self]
      exact Ne.symm hsurpasses
  · obtain ⟨before, after, heq, hbefore⟩ := h.first
    rw [if_neg (by simp [hbetter])]
    refine ⟨fun y hy => ?_, before, after ++ [x], by simp [heq], hbefore⟩
    rcases List.mem_append.mp hy with hmem | hlast
    · exact h.unsurpassed y hmem
    · rw [List.mem_singleton.mp hlast]
      exact hbetter

theorem firstUnsurpassed_eq (h : Leads surpasses xs best) :
    firstUnsurpassed surpasses xs = some best := by
  obtain ⟨before, after, heq, hbefore⟩ := h.first
  refine List.find?_eq_some_iff_append.mpr ⟨?_, before, after, heq, fun x hx => ?_⟩
  · simpa using h.unsurpassed
  · have hmem := h.mem
    simpa using ⟨best, hmem, hbefore x hx⟩

end Leads

theorem leads_combined {surpasses : Ordering} (hsurpasses : surpasses ≠ .eq) {xs : List Value}
    (hne : xs ≠ []) (hxs : ∀ x ∈ xs, x.Exact) :
    Leads surpasses xs (combined (pick surpasses) xs) := by
  induction xs using List.reverseRecOn with
  | nil => exact absurd rfl hne
  | append_singleton xs x ih =>
    rw [List.forall_mem_append, List.forall_mem_singleton] at hxs
    by_cases hempty : xs = []
    · subst hempty
      exact .singleton hsurpasses x
    · rw [combined_append_singleton hempty]
      exact (ih hempty hxs.1).append_singleton hsurpasses hxs.1 hxs.2

/-- Among values that are compared exactly the extreme is the first that none surpasses. -/
theorem extreme_eq_firstUnsurpassed {surpasses : Ordering} (hsurpasses : surpasses ≠ .eq)
    {xs : List Value} (hxs : ∀ x ∈ xs, x.Exact) :
    MathFunction.extreme surpasses xs = (firstUnsurpassed surpasses (kept xs)).getD .null := by
  rw [Aggregates.extreme_eq_combined]
  by_cases hempty : kept xs = []
  · rw [hempty]
    rfl
  · have hkept : ∀ x ∈ kept xs, x.Exact := fun x hx => hxs x (List.mem_of_mem_filter hx)
    rw [(leads_combined hsurpasses hempty hkept).firstUnsurpassed_eq, Option.getD_some]

namespace Aggregates

/-! ### Truth values -/

theorem kept_map_truth (xs : List Value) :
    kept (xs.map Accumulator.truth) = (kept xs).map fun x => .bool x.truthy := by
  have hfront (x : Value) : kept [Accumulator.truth x] = (kept [x]).map fun x => .bool x.truthy := by
    cases x <;> rfl
  induction xs with
  | nil => rfl
  | cons x xs ih =>
    have hcons (x : Value) (xs : List Value) : kept (x :: xs) = kept [x] ++ kept xs :=
      List.filter_append [x] xs
    rw [List.map_cons, hcons, hcons x, List.map_append, hfront, ih]

theorem foldl_combine (op : Bool → Bool → Bool) (xs : List Value) (b : Bool) :
    (xs.map fun x => Value.bool x.truthy).foldl
        (fun earlier later => Value.bool (op earlier.truthy later.truthy)) (.bool b) =
      Value.bool (xs.foldl (fun b x => op b x.truthy) b) := by
  induction xs generalizing b with
  | nil => rfl
  | cons x xs ih => exact ih (op b x.truthy)

theorem foldl_or (xs : List Value) (b : Bool) :
    xs.foldl (fun b x => b || x.truthy) b = (b || xs.any Value.truthy) := by
  induction xs generalizing b with
  | nil => simp
  | cons x xs ih => simp [ih, Bool.or_assoc]

theorem foldl_and (xs : List Value) (b : Bool) :
    xs.foldl (fun b x => b && x.truthy) b = (b && xs.all Value.truthy) := by
  induction xs generalizing b with
  | nil => simp
  | cons x xs ih => simp [ih, Bool.and_assoc]

theorem summarizes_truth {function : Aggregate} {op : Bool → Bool → Bool}
    (quantified : List Value → Bool)
    (hstep : ∀ x, function.step [x] =
      .ok (Accumulator.fold (Accumulator.combine op) (Accumulator.truth x)))
    (hop : ∀ x xs, xs.foldl (fun b x => op b x.truthy) x.truthy = quantified (x :: xs)) :
    Summarizes anyInputs function (fun x => [x]) fun xs =>
      if (kept xs).isEmpty then .null else .bool (quantified (kept xs)) := by
  have h := summarizes_fold hstep (fun _ _ => rfl) (fun _ _ _ _ => rfl)
  have htotal : ∀ xs, combined (fun a b => .bool (op a.truthy b.truthy))
      (kept (xs.map Accumulator.truth)) =
        if (kept xs).isEmpty then .null else .bool (quantified (kept xs)) := by
    intro xs
    rw [kept_map_truth]
    cases kept xs with
    | nil => rfl
    | cons x xs =>
      rw [List.map_cons, combined, foldl_combine, hop]
      rfl
  rwa [← funext htotal]

theorem summarizes_any : Summarizes anyInputs .any (fun x => [x]) fun xs =>
    if (kept xs).isEmpty then .null else .bool ((kept xs).any Value.truthy) :=
  summarizes_truth (List.any · Value.truthy) (fun _ => rfl) fun x xs => foldl_or xs x.truthy

theorem summarizes_every : Summarizes anyInputs .every (fun x => [x]) fun xs =>
    if (kept xs).isEmpty then .null else .bool ((kept xs).all Value.truthy) :=
  summarizes_truth (List.all · Value.truthy) (fun _ => rfl) fun x xs => foldl_and xs x.truthy

end Aggregates

/-! ### Collections -/

/-- Inputs with one more, if it counts. -/
def withCounted {α : Type} (p : α → Bool) (x : α) (xs : List α) : List α :=
  if p x then xs ++ [x] else xs

theorem filter_append_singleton {α : Type} (p : α → Bool) (xs : List α) (x : α) :
    (xs ++ [x]).filter p = withCounted p x (xs.filter p) := by
  unfold withCounted
  cases hx : p x <;> simp [hx]

namespace Accumulator

/-- The items collected so far. -/
def collectedItems : Accumulator → List Value
  | .items latest => latest.reverse
  | _ => []

/-- The texts collected so far. -/
def collectedTexts : Accumulator → List String
  | .strings latest => latest.reverse
  | _ => []

/-- The entries collected so far. -/
def collectedEntries : Accumulator → List (String × Value)
  | .entries collected => collected
  | _ => []

/-- The latest values, the last one first. -/
def latestValues : Accumulator → List Value
  | .history latest => latest
  | _ => []

end Accumulator

namespace Aggregates

theorem summarizes_list (flag : Option Value) :
    Summarizes anyInputs .list (fun x => x :: flag.toList) fun xs =>
      .list (xs.filter (counts flag true)) := by
  apply summarizes_of_view (fun x => Accumulator.collect (counts flag true x) x)
    Accumulator.collectedItems (withCounted (counts flag true)) .list
    fun xs => xs.filter (counts flag true)
  · intro x
    cases flag <;> rfl
  · intro x accumulator
    cases hx : counts flag true x <;> cases accumulator <;>
      simp [Accumulator.collect, Accumulator.collectedItems, withCounted, hx]
  · rfl
  · exact filter_append_singleton _

theorem summarizes_string (separator : Value) (flag : Option Value) :
    Summarizes anyInputs .string (fun x => x :: separator :: flag.toList) fun xs =>
      .str (separator.display.intercalate ((xs.filter (counts flag false)).map Value.display)) := by
  apply summarizes_of_view
    (fun x => Accumulator.join (counts flag false x) separator.display x)
    Accumulator.collectedTexts
    (fun x texts => if counts flag false x then texts ++ [x.display] else texts)
    (fun texts => .str (separator.display.intercalate texts))
    fun xs => (xs.filter (counts flag false)).map Value.display
  · intro x
    cases flag <;> rfl
  · intro x accumulator
    cases hx : counts flag false x <;> cases accumulator <;>
      simp [Accumulator.join, Accumulator.collectedTexts]
  · rfl
  · intro ys x
    rw [filter_append_singleton, withCounted]
    split <;> simp

theorem summarizes_dict :
    Summarizes anyInputs .dict (fun entry : Value × Value => [entry.1, entry.2]) fun entries =>
      .object (insertEntries [] ((entries.filter fun entry => !entry.1.isNull).map fun entry =>
        (entry.1.display, entry.2))) := by
  apply summarizes_of_view
    (fun entry : Value × Value => Accumulator.collectEntry entry.1 entry.2)
    Accumulator.collectedEntries
    (fun entry collected =>
      if entry.1.isNull then collected else insertEntry entry.1.display entry.2 collected)
    .object
    fun entries : List (Value × Value) => insertEntries []
      ((entries.filter fun entry => !entry.1.isNull).map fun entry => (entry.1.display, entry.2))
  · exact fun _ => rfl
  · intro entry accumulator
    cases accumulator <;> exact ⟨_, rfl, rfl⟩
  · rfl
  · intro entries entry
    rw [filter_append_singleton, withCounted]
    cases entry.1.isNull <;> simp [insertEntries]

/-! ### Choices -/

@[simp] theorem choice_chosen (value : Value) : (Accumulator.chosen value).choice = some value :=
  rfl

theorem summarizes_first (flag : Option Value) :
    Summarizes anyInputs .first (fun x => x :: flag.toList) fun xs =>
      ((xs.filter (counts flag true)).head?).getD .null := by
  apply summarizes_of_view (fun x => Accumulator.first (counts flag true x) x) Accumulator.choice
    (fun x chosen => if counts flag true x then chosen.or (some x) else chosen)
    (fun chosen => chosen.getD .null) fun xs => (xs.filter (counts flag true)).head?
  · intro x
    cases flag <;> rfl
  · intro x accumulator
    cases counts flag true x <;> cases hchoice : accumulator.choice <;>
      simp [Accumulator.first, hchoice]
  · rfl
  · intro ys x
    rw [filter_append_singleton, withCounted]
    split <;> simp [List.head?_append]

theorem summarizes_last (flag : Option Value) :
    Summarizes anyInputs .last (fun x => x :: flag.toList) fun xs =>
      ((xs.filter (counts flag true)).getLast?).getD .null := by
  apply summarizes_of_view (fun x => Accumulator.last (counts flag true x) x) Accumulator.choice
    (fun x chosen => if counts flag true x then some x else chosen)
    (fun chosen => chosen.getD .null) fun xs => (xs.filter (counts flag true)).getLast?
  · intro x
    cases flag <;> rfl
  · intro x accumulator
    cases counts flag true x <;> simp [Accumulator.last]
  · rfl
  · intro ys x
    rw [filter_append_singleton, withCounted]
    split <;> simp

/-- The value a number of inputs before the last one, or a default if there are not so many. -/
def inputBack (offset : Nat) (otherwise : Value) (xs : List Value) : Value :=
  if offset < xs.length then xs.getD (xs.length - 1 - offset) .null else otherwise

theorem getElem?_reverse_getD (offset : Nat) (otherwise : Value) (xs : List Value) :
    (xs.reverse[offset]?).getD otherwise = inputBack offset otherwise xs := by
  rw [inputBack]
  split
  · next hlt =>
    have hindex : xs.length - 1 - offset < xs.length := by omega
    rw [List.getElem?_reverse hlt, List.getD_eq_getElem?_getD, List.getElem?_eq_getElem hindex]
    rfl
  · next hge =>
    rw [List.getElem?_eq_none (by simpa using hge)]
    rfl

theorem summarizes_lag {offset : Nat} (extras : List Value) (hlength : extras.length ≤ 2)
    (hoffset : Aggregate.lagOffset extras[0]? = .ok offset) :
    Summarizes anyInputs .lag (fun x => x :: extras)
      (inputBack offset (extras[1]?.getD .null)) := by
  have h : Summarizes anyInputs .lag (fun x => x :: extras) fun xs =>
      ((xs.reverse.take (offset + 1))[offset]?).getD (extras[1]?.getD .null) := by
    apply summarizes_of_view (fun x => Accumulator.lag offset (extras[1]?.getD .null) x)
      Accumulator.latestValues (fun x latest => (x :: latest).take (offset + 1))
      (fun latest => (latest[offset]?).getD (extras[1]?.getD .null))
      fun xs => xs.reverse.take (offset + 1)
    · intro x
      have harity : extras.length + 1 ≤ 3 := by omega
      simp [Aggregate.step, Aggregate.arity, harity, Aggregate.stepOf, hoffset]
    · intro x accumulator
      cases accumulator <;> exact ⟨_, rfl, rfl⟩
    · rfl
    · intro ys x
      rw [List.reverse_append, List.reverse_singleton, List.singleton_append, List.take_succ_cons,
        List.take_succ_cons, List.take_take, Nat.min_eq_left (Nat.le_succ offset)]
  have htotal : ∀ xs : List Value, ((xs.reverse.take (offset + 1))[offset]?).getD
      (extras[1]?.getD .null) = inputBack offset (extras[1]?.getD .null) xs := by
    intro xs
    rw [List.getElem?_take_of_lt (Nat.lt_succ_self offset), getElem?_reverse_getD]
  rwa [funext htotal] at h

/-! ### Distinct values -/

end Aggregates

theorem eraseDupsBy_append_singleton {α κ : Type} [DecidableEq κ] (key : α → κ) (xs : List α)
    (x : α) :
    (xs ++ [x]).eraseDupsBy (fun a b => key a == key b) =
      if key x ∈ xs.map key then xs.eraseDupsBy (fun a b => key a == key b)
      else xs.eraseDupsBy (fun a b => key a == key b) ++ [x] := by
  -- On the length, since what repeats the first value is dropped before the rest is looked at.
  induction hlength : xs.length using Nat.strong_induction_on generalizing xs with
  | _ length ih =>
    subst hlength
    cases xs with
    | nil => simp [List.eraseDupsBy_cons]
    | cons first xs =>
      have hshorter :
          (xs.filter fun a => (key a == key first) = false).length < (first :: xs).length :=
        Nat.lt_succ_of_le (List.length_filter_le _ _)
      have hrest := ih _ hshorter _ rfl
      rw [List.cons_append, List.eraseDupsBy_cons, List.eraseDupsBy_cons, List.filter_append]
      by_cases hfirst : key x = key first
      · simp [hfirst]
      · have hmem : key x ∈ (xs.filter fun a => (key a == key first) = false).map key ↔
            key x ∈ (first :: xs).map key := by
          simp only [List.map_cons, List.mem_cons, hfirst, false_or, List.mem_map, List.mem_filter]
          constructor
          · rintro ⟨a, ⟨ha, -⟩, heq⟩
            exact ⟨a, ha, heq⟩
          · rintro ⟨a, ha, heq⟩
            exact ⟨a, ⟨ha, by simp [heq, hfirst]⟩, heq⟩
        have hlast : [x].filter (fun a => (key a == key first) = false) = [x] := by simp [hfirst]
        rw [hlast, hrest]
        simp only [hmem]
        split <;> rfl

namespace Accumulator

/-- Whether an accumulator holds the first occurrences of values, and the keys of them all. -/
structure Distinguishes (accumulator : Accumulator) (values : List Value) : Prop where
  firsts : accumulator.distinctSoFar.2.reverse = firstOccurrences values
  keys : ∀ key, accumulator.distinctSoFar.1.contains key = true ↔
    key ∈ values.map fun x => tupleKey [x]

theorem distinguishes_empty : Distinguishes .empty [] where
  firsts := rfl
  keys := by simp [distinctSoFar]

/-- Observing a value adds it, unless its key was seen before. -/
theorem Distinguishes.observe {accumulator : Accumulator} {xs : List Value}
    (h : accumulator.Distinguishes xs) (x : Value) :
    Distinguishes (.distinct (accumulator.observe true x).1 (accumulator.observe true x).2)
      (xs ++ [x]) := by
  have hfirsts := eraseDupsBy_append_singleton (fun x => tupleKey [x]) xs x
  have hkeys : ∀ key, (key ∈ (xs ++ [x]).map fun x => tupleKey [x]) ↔
      accumulator.distinctSoFar.1.contains key = true ∨ key = tupleKey [x] := fun key => by
    rw [List.map_append, List.mem_append, h.keys, List.map_singleton, List.mem_singleton]
  rw [Accumulator.observe]
  by_cases hseen : accumulator.distinctSoFar.1.contains (tupleKey [x]) = true
  · simp only [hseen, Bool.not_true, Bool.and_false, Bool.false_eq_true, if_false]
    refine ⟨?_, fun key => ?_⟩
    · rw [firstOccurrences, hfirsts, if_pos ((h.keys _).mp hseen)]
      exact h.firsts
    · rw [hkeys]
      refine ⟨.inl, ?_⟩
      rintro (hbefore | rfl)
      · exact hbefore
      · exact hseen
  · simp only [hseen, Bool.not_false, Bool.and_true, if_true]
    refine ⟨?_, fun key => ?_⟩
    · change (x :: accumulator.distinctSoFar.2).reverse = _
      rw [List.reverse_cons, h.firsts, firstOccurrences, firstOccurrences, hfirsts,
        if_neg (mt (h.keys _).mpr hseen)]
    · change (accumulator.distinctSoFar.1.insert (tupleKey [x])).contains key = true ↔ _
      rw [Std.HashSet.contains_insert, Bool.or_eq_true, beq_iff_eq, hkeys, or_comm,
        eq_comm (a := tupleKey [x])]

/-- Observing only values that count keeps the first occurrences among these. -/
theorem Distinguishes.observe_filter {accumulator : Accumulator} {p : Value → Bool}
    {xs : List Value} (h : accumulator.Distinguishes (xs.filter p)) (x : Value) :
    Distinguishes (.distinct (accumulator.observe (p x) x).1 (accumulator.observe (p x) x).2)
      ((xs ++ [x]).filter p) := by
  rw [filter_append_singleton, withCounted]
  cases p x with
  | false => exact ⟨h.firsts, h.keys⟩
  | true => exact h.observe x

end Accumulator

namespace Aggregates

theorem summarizes_set (flag : Option Value) :
    Summarizes anyInputs .set (fun x => x :: flag.toList) fun xs =>
      .list (firstOccurrences (xs.filter (counts flag true))) := by
  apply summarizes_of_represents
    (fun x => Accumulator.collectDistinct (counts flag true x) x)
    fun accumulator ys => accumulator.Distinguishes (ys.filter (counts flag true))
  · intro x
    cases flag <;> rfl
  · exact Accumulator.distinguishes_empty
  · intro ys x accumulator _ hseen
    have hnext := hseen.observe_filter x
    refine ⟨_, ?_, hnext⟩
    rw [← hnext.firsts]
    rfl
  · exact fun _ _ _ _ => trivial

theorem summarizes_countDistinct :
    Summarizes anyInputs .countDistinct (fun x => [x]) fun xs =>
      .ofNat (firstOccurrences (kept xs)).length := by
  apply summarizes_of_represents Accumulator.countDistinct
    fun accumulator ys => accumulator.Distinguishes (kept ys)
  · exact fun _ => rfl
  · exact Accumulator.distinguishes_empty
  · intro ys x accumulator _ hseen
    have hnext := hseen.observe_filter x
    refine ⟨_, ?_, hnext⟩
    rw [kept, ← hnext.firsts, List.length_reverse]
    rfl
  · exact fun _ _ _ _ => trivial

/-! ### All functions -/

/-- What each aggregate function comes to, called at one site again and again with one set of
further arguments. The number of inputs that are not null, as long as it is a signed 64-bit integer; the
extreme that the functions `min` and `max` have for the list, which is the first input that none
surpasses if no floats and no larger integers are compared; whether any or every input is true; the
inputs that count, joined, told apart or chosen from; the one some calls ago; and the object of the
entries. -/
theorem aggregates_summarize :
    Summarizes (fun xs => (kept xs).length < 2 ^ 63) .count (fun x => [x])
      (fun xs => .ofNat (kept xs).length) ∧
    (Summarizes anyInputs .min (fun x => [x]) (MathFunction.extreme .lt) ∧
      Summarizes anyInputs .max (fun x => [x]) (MathFunction.extreme .gt) ∧
      ∀ xs, Builtin.call "min" [.list xs] = .ok ⟨MathFunction.extreme .lt xs, none⟩ ∧
        Builtin.call "max" [.list xs] = .ok ⟨MathFunction.extreme .gt xs, none⟩ ∧
        ((∀ x ∈ xs, x.Exact) →
          MathFunction.extreme .lt xs = (firstUnsurpassed .lt (kept xs)).getD .null ∧
          MathFunction.extreme .gt xs = (firstUnsurpassed .gt (kept xs)).getD .null)) ∧
    (Summarizes anyInputs .any (fun x => [x]) fun xs =>
      if (kept xs).isEmpty then .null else .bool ((kept xs).any Value.truthy)) ∧
    (Summarizes anyInputs .every (fun x => [x]) fun xs =>
      if (kept xs).isEmpty then .null else .bool ((kept xs).all Value.truthy)) ∧
    (∀ flag : Option Value, Summarizes anyInputs .list (fun x => x :: flag.toList) fun xs =>
      .list (xs.filter (counts flag true))) ∧
    (∀ flag : Option Value, Summarizes anyInputs .set (fun x => x :: flag.toList) fun xs =>
      .list (firstOccurrences (xs.filter (counts flag true)))) ∧
    (Summarizes anyInputs .countDistinct (fun x => [x]) fun xs =>
      .ofNat (firstOccurrences (kept xs)).length) ∧
    (∀ (separator : Value) (flag : Option Value),
      Summarizes anyInputs .string (fun x => x :: separator :: flag.toList) fun xs =>
        .str (separator.display.intercalate
          ((xs.filter (counts flag false)).map Value.display))) ∧
    (∀ flag : Option Value, Summarizes anyInputs .first (fun x => x :: flag.toList) fun xs =>
      ((xs.filter (counts flag true)).head?).getD .null) ∧
    (∀ flag : Option Value, Summarizes anyInputs .last (fun x => x :: flag.toList) fun xs =>
      ((xs.filter (counts flag true)).getLast?).getD .null) ∧
    (∀ (extras : List Value) (offset : Nat), extras.length ≤ 2 →
      Aggregate.lagOffset extras[0]? = .ok offset →
      Summarizes anyInputs .lag (fun x => x :: extras)
        (inputBack offset (extras[1]?.getD .null))) ∧
    Summarizes anyInputs .dict (fun entry : Value × Value => [entry.1, entry.2]) fun entries =>
      .object (insertEntries [] ((entries.filter fun entry => !entry.1.isNull).map fun entry =>
        (entry.1.display, entry.2))) :=
  ⟨summarizes_count,
    ⟨summarizes_extreme fun _ => rfl, summarizes_extreme fun _ => rfl, fun xs =>
      ⟨builtin_min xs, builtin_max xs, fun hxs =>
        ⟨extreme_eq_firstUnsurpassed (by decide) hxs,
          extreme_eq_firstUnsurpassed (by decide) hxs⟩⟩⟩,
    summarizes_any, summarizes_every, summarizes_list, summarizes_set, summarizes_countDistinct,
    summarizes_string, summarizes_first, summarizes_last,
    fun extras _ hlength hoffset => summarizes_lag extras hlength hoffset, summarizes_dict⟩

/-- Rows of two groups, with a count before each `lag_agg` and once a count without an argument. -/
def laggingRows (offset : BoundedInt) : List AggregateAction :=
  let extras : List Value := [.int offset, .str "none"]
  [.startRow "a", .call ⟨.count, [.null]⟩, .call ⟨.lag, .str "x" :: extras⟩,
    .startRow "b", .call ⟨.count, [.null]⟩, .call ⟨.lag, .str "y" :: extras⟩,
    .startRow "a", .call ⟨.count, []⟩, .call ⟨.count, [.null]⟩, .call ⟨.lag, .null :: extras⟩,
    .startRow "a", .call ⟨.count, [.null]⟩, .call ⟨.lag, .str "z" :: extras⟩]

theorem aggregates_summarize_of_laggingRows :
    let one : BoundedInt := ⟨1, by decide, by decide⟩
    let two : BoundedInt := ⟨2, by decide, by decide⟩
    let xs : List Value := [.int two, .null, .int one]
    resultsAt ⟨"a", 1⟩ {} (laggingRows one) = [.ok (.str "none"), .ok (.str "x"), .ok .null] ∧
      (∀ x ∈ xs, x.Exact) ∧
      MathFunction.extreme .lt xs = (firstUnsurpassed .lt (kept xs)).getD .null := by
  intro one two xs
  obtain ⟨-, ⟨-, -, hextreme⟩, -, -, -, -, -, -, -, -, hlag, -⟩ := aggregates_summarize
  have hcalls : callsAt ⟨"a", 1⟩ .start (laggingRows one) =
      [.str "x", .null, .str "z"].map fun x => ⟨.lag, [x, .int one, .str "none"]⟩ := by
    simp [callsAt, laggingRows, Aggregate.step, Aggregate.arity, Aggregate.stepOf,
      Aggregate.lagOffset, Site.start, Site.next, one]
  have hnull : Value.null.Exact := by
    rintro _ (hnumber | _)
    cases hnumber
  have hexact : ∀ x ∈ xs, x.Exact := by
    simp only [xs, List.forall_mem_cons, List.not_mem_nil, false_implies, implies_true, and_true]
    exact ⟨(Value.within_iff rfl).mpr (by decide), hnull, (Value.within_iff rfl).mpr (by decide)⟩
  refine ⟨?_, hexact, ((hextreme xs).2.2 hexact).1⟩
  exact hlag [.int one, .str "none"] 1 (by decide) rfl _ _ _ trivial hcalls

end Aggregates

end StreamQuery
