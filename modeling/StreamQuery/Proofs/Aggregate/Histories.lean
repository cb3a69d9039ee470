import Mathlib.Data.List.Infix
import StreamQuery.Proofs.Aggregate.Windows

/-!
# Histories of a call site

A table of accumulators takes rows and calls in any order. Its calls at one site, that is a position
in the rows of one group, see the accumulator of that site only, so that their results depend on the
calls at that site alone. An aggregate function is understood once it is known what its accumulator
stands for after any number of calls.
-/

namespace StreamQuery

/-- A call of an aggregate function. -/
structure AggregateCall where
  function : Aggregate
  arguments : List Value

/-- What a call does with its accumulator. -/
def AggregateCall.effect (call : AggregateCall) : Accumulator.Step := fun accumulator => do
  let step ← call.function.step call.arguments
  step accumulator

/-- What happens to a table of accumulators. -/
inductive AggregateAction where
  | startRow (key : String)
  | call (call : AggregateCall)

namespace Aggregates

/-- A group with a position among the calls of its rows. -/
structure Site where
  group : String
  position : Nat
  deriving DecidableEq

/-- The site of the first call without any row. -/
def Site.start : Site :=
  ⟨"", 0⟩

/-- The site of the next call of the row. -/
def Site.next (site : Site) : Site :=
  { site with position := site.position + 1 }

/-- The site of a table's next call. -/
def site (table : Aggregates) : Site :=
  ⟨table.group, table.position⟩

/-- The calls at a site, `here` being that of the next call. A call with wrong arguments takes no
position. -/
def callsAt (site here : Site) : List AggregateAction → List AggregateCall
  | [] => []
  | .startRow key :: rest => callsAt site ⟨key, 0⟩ rest
  | .call call :: rest => match call.function.step call.arguments with
    | .error _ => callsAt site here rest
    | .ok _ =>
      if here = site then call :: callsAt site here.next rest else callsAt site here.next rest

/-- The results of the calls at a site. -/
def resultsAt (site : Site) (table : Aggregates) :
    List AggregateAction → List (Except Error Value)
  | [] => []
  | .startRow key :: rest => resultsAt site (table.startRow key) rest
  | .call call :: rest =>
    let (result, after) := table.call call.function call.arguments
    match call.function.step call.arguments with
    | .error _ => resultsAt site after rest
    | .ok _ =>
      if table.site = site then result :: resultsAt site after rest else resultsAt site after rest

end Aggregates

namespace Accumulator

/-- The results of steps one after the other. A step that fails leaves the accumulator as it is. -/
def run (accumulator : Accumulator) : List Step → List (Except Error Value)
  | [] => []
  | step :: rest => match step accumulator with
    | .ok (value, next) => .ok value :: run next rest
    | .error error => .error error :: run accumulator rest

end Accumulator

namespace Aggregates

variable {site : Site}

theorem site_store (table : Aggregates) (accumulator : Accumulator) :
    (table.store accumulator).site = table.site.next := rfl

/-- Storing changes the accumulator of the site of the call, and of no other one. -/
theorem slotAt_store_site (table : Aggregates) (accumulator : Accumulator) (site : Site) :
    (table.store accumulator).slotAt site.group site.position =
      if table.site = site then accumulator else table.slotAt site.group site.position := by
  have hsite : site.group = table.group ∧ site.position = table.position ↔ table.site = site := by
    constructor
    · rintro ⟨hgroup, hposition⟩
      rw [Aggregates.site, ← hgroup, ← hposition]
    · rintro rfl
      exact ⟨rfl, rfl⟩
  rw [slotAt_store]
  exact if_congr hsite rfl rfl

/-- The results at a site are those of its calls alone. -/
theorem resultsAt_eq_run (site : Site) (table : Aggregates) (actions : List AggregateAction) :
    resultsAt site table actions = Accumulator.run (table.slotAt site.group site.position)
      ((callsAt site table.site actions).map AggregateCall.effect) := by
  induction actions generalizing table with
  | nil => rfl
  | cons action rest ih =>
    cases action with
    | startRow key => exact ih (table.startRow key)
    | call call =>
      have hafter := fun accumulator => ih (table.store accumulator)
      simp only [site_store, slotAt_store_site] at hafter
      cases hstep : call.function.step call.arguments with
      | error error => simp only [resultsAt, callsAt, Aggregates.call, hstep, ih]
      | ok step =>
        have heffect : call.effect = step := by
          funext accumulator
          simp only [AggregateCall.effect, hstep]
          rfl
        -- A call at the site sees its accumulator; one at another site leaves it alone.
        by_cases hsite : table.site = site
        · subst hsite
          have hslot : table.slotAt table.site.group table.site.position = table.next := rfl
          cases hresult : step table.next with
          | error error =>
            simp [resultsAt, callsAt, Aggregates.call, hstep, heffect, hslot, hresult,
              Accumulator.run, hafter]
          | ok result =>
            simp [resultsAt, callsAt, Aggregates.call, hstep, heffect, hslot, hresult,
              Accumulator.run, hafter]
        · cases hresult : step table.next with
          | error error => simp [resultsAt, callsAt, Aggregates.call, hstep, hsite, hresult, hafter]
          | ok result => simp [resultsAt, callsAt, Aggregates.call, hstep, hsite, hresult, hafter]

end Aggregates

/-! ### What results come to -/

/-- The inputs that are not null. -/
def kept (xs : List Value) : List Value :=
  xs.filter (!·.isNull)

theorem kept_append_singleton (xs : List Value) (x : Value) :
    kept (xs ++ [x]) = if x.isNull then kept xs else kept xs ++ [x] := by
  cases hx : x.isNull <;> simp [kept, hx]

theorem isNull_of_mem_kept {xs : List Value} {x : Value} (h : x ∈ kept xs) : x.isNull = false := by
  simpa using (List.mem_filter.mp h).2

/-- The prefixes of a list that are not empty, shortest first. -/
def prefixes {α : Type} (xs : List α) : List (List α) :=
  xs.inits.tail

theorem prefixes_cons {α : Type} (x : α) (xs : List α) :
    prefixes (x :: xs) = [x] :: (prefixes xs).map (x :: ·) := by
  cases xs <;> simp [prefixes]

theorem mem_prefixes_of_ne_nil {α : Type} {xs ys : List α} (h : ys <+: xs) (hne : ys ≠ []) :
    ys ∈ prefixes xs := by
  have hmem := (List.mem_inits ys xs).mpr h
  cases xs with
  | nil => exact absurd (List.prefix_nil.mp h) hne
  | cons x xs => exact (List.mem_cons.mp hmem).resolve_left hne

theorem prefix_of_mem_prefixes {α : Type} {xs ys : List α} (h : ys ∈ prefixes xs) : ys <+: xs :=
  (List.mem_inits ys xs).mp (List.mem_of_mem_tail h)

namespace Accumulator

/-! #### Folds -/

section Fold

variable {op : Value → Value → Except Error Value} {x : Value} {accumulator : Accumulator}

theorem fold_of_null (h : x.isNull = true) :
    fold op x accumulator = .ok (accumulator.current, accumulator) := by
  simp [fold, h]

/-- An input starts a fold whose value is null. -/
theorem fold_of_current_null (h : x.isNull = false) (hcurrent : accumulator.current.isNull = true) :
    fold op x accumulator = .ok (x, .running x) := by
  simp only [fold, h, hcurrent]
  rfl

theorem fold_of_op {next : Value} (h : x.isNull = false)
    (hcurrent : accumulator.current.isNull = false) (hop : op accumulator.current x = .ok next) :
    fold op x accumulator = .ok (next, .running next) := by
  simp only [fold, h, hcurrent, hop]
  rfl

end Fold

/-! #### All results -/

variable {α : Type} {effect : α → Step} {total : List α → Value}
  {Represents : Accumulator → List α → Prop}

/-- If each step, on an accumulator that stands for the inputs before, gives what all inputs come to
and leaves one that stands for them all, then the results are what the prefixes come to. -/
theorem run_eq_prefixes {xs : List α} (hempty : Represents .empty [])
    (hstep : ∀ (ys : List α) (x : α) (accumulator : Accumulator), ys ++ [x] <+: xs →
      Represents accumulator ys → ∃ next, effect x accumulator = .ok (total (ys ++ [x]), next) ∧
        Represents next (ys ++ [x])) :
    run .empty (xs.map effect) = (prefixes xs).map fun ys => .ok (total ys) := by
  -- On the inputs to come; the accumulator stands for those that were there before.
  have hgo : ∀ (rest ys : List α) (accumulator : Accumulator), ys ++ rest = xs →
      Represents accumulator ys → run accumulator (rest.map effect) =
        (prefixes rest).map fun later => .ok (total (ys ++ later)) := by
    intro rest
    induction rest with
    | nil =>
      intro ys accumulator _ _
      rfl
    | cons x rest ih =>
      intro ys accumulator hall hrepresents
      have happend : ys ++ [x] ++ rest = xs := by
        rw [← hall, List.append_assoc, List.singleton_append]
      obtain ⟨next, heffect, hnext⟩ := hstep ys x accumulator ⟨rest, happend⟩ hrepresents
      simp only [List.map_cons, run, heffect, ih (ys ++ [x]) next happend hnext, prefixes_cons,
        List.map_map, List.append_assoc, List.singleton_append]
      rfl
  exact hgo xs [] .empty rfl hempty

end Accumulator

namespace Aggregates

/-- The results of a function called at one site are what the prefixes of its inputs come to, for
all inputs that are allowed. Whatever else happens to the table, also at that site's group, between. -/
def Summarizes {α : Type} (allowed : List α → Prop) (function : Aggregate)
    (arguments : α → List Value) (total : List α → Value) : Prop :=
  ∀ (site : Site) (actions : List AggregateAction) (xs : List α), allowed xs →
    callsAt site .start actions = xs.map (fun x => ⟨function, arguments x⟩) →
    resultsAt site {} actions = (prefixes xs).map fun ys => .ok (total ys)

theorem slotAt_empty (key : String) (position : Nat) :
    ({} : Aggregates).slotAt key position = .empty := by
  simp [slotAt, slotsOf]

/-- A function is understood by what its accumulator stands for. -/
theorem summarizes_of_represents {α : Type} {allowed : List α → Prop} {function : Aggregate}
    {arguments : α → List Value} {total : List α → Value} (effect : α → Accumulator.Step)
    (Represents : Accumulator → List α → Prop)
    (heffect : ∀ x, function.step (arguments x) = .ok (effect x))
    (hempty : Represents .empty [])
    (hstep : ∀ (ys : List α) (x : α) (accumulator : Accumulator), allowed (ys ++ [x]) →
      Represents accumulator ys → ∃ next, effect x accumulator = .ok (total (ys ++ [x]), next) ∧
        Represents next (ys ++ [x]))
    (hallowed : ∀ xs ys, allowed xs → ys <+: xs → allowed ys) :
    Summarizes allowed function arguments total := by
  intro site actions xs hxs hcalls
  have heffects : (xs.map fun x => (⟨function, arguments x⟩ : AggregateCall)).map
      AggregateCall.effect = xs.map effect := by
    rw [List.map_map]
    refine List.map_congr_left fun x _ => ?_
    funext accumulator
    simp only [Function.comp, AggregateCall.effect, heffect]
    rfl
  have hsite : ({} : Aggregates).site = .start := rfl
  rw [resultsAt_eq_run, slotAt_empty, hsite, hcalls, heffects]
  exact Accumulator.run_eq_prefixes hempty fun ys x accumulator hprefix =>
    hstep ys x accumulator (hallowed xs _ hxs hprefix)

end Aggregates

end StreamQuery
