import StreamQuery.Execution.Run
import StreamQuery.Proofs.Computation

/-!
# Runs in step

Two computations, on two states, that go on side by side: from related states they end with the same
result, and leave states that are related again. The rules for composing them are those of one
computation, with relations in the place of properties.
-/

namespace StreamQuery

namespace Stateful

variable {σ τ α β : Type}

/-- From states in one relation, two computations end with the same result. It decides the relation
of the states they leave, and so does whether they fail. -/
def InStep (before : σ → τ → Prop) (left : Stateful σ α) (right : Stateful τ α)
    (after : α → σ → τ → Prop) (failed : σ → τ → Prop) : Prop :=
  ∀ state other, before state other →
    ∃ result last otherLast, left.Gives state result last ∧ right.Gives other result otherLast ∧
      match result with
      | .ok value => after value last otherLast
      | .error _ => failed last otherLast

variable {before failed : σ → τ → Prop} {after : α → σ → τ → Prop} {final : β → σ → τ → Prop}

theorem inStep_pure {value : α} (h : ∀ state other, before state other → after value state other) :
    InStep before (pure value) (pure value) after failed :=
  fun state other hbefore => ⟨.ok value, state, other, gives_pure _ _, gives_pure _ _,
    h state other hbefore⟩

theorem inStep_throw {error : Error}
    (h : ∀ state other, before state other → failed state other) :
    InStep before (throw error) (throw error) after failed :=
  fun state other hbefore => ⟨.error error, state, other, gives_throw _ _, gives_throw _ _,
    h state other hbefore⟩

theorem inStep_modify {change : σ → σ} {otherChange : τ → τ} {after : PUnit → σ → τ → Prop}
    (h : ∀ state other, before state other → after ⟨⟩ (change state) (otherChange other)) :
    InStep before (modify change) (modify otherChange) after failed :=
  fun state other hbefore => ⟨.ok ⟨⟩, _, _, gives_modify _ _, gives_modify _ _,
    h state other hbefore⟩

theorem InStep.bind {left : Stateful σ α} {right : Stateful τ α} {next : α → Stateful σ β}
    {otherNext : α → Stateful τ β} (h : InStep before left right after failed)
    (hnext : ∀ value, InStep (after value) (next value) (otherNext value) final failed) :
    InStep before (left >>= next) (right >>= otherNext) final failed := by
  intro state other hbefore
  obtain ⟨result, middle, otherMiddle, hleft, hright, hmiddle⟩ := h state other hbefore
  cases result with
  | error error =>
    exact ⟨.error error, middle, otherMiddle, hleft.bind_error, hright.bind_error, hmiddle⟩
  | ok value =>
    obtain ⟨result, last, otherLast, hleft', hright', hlast⟩ :=
      hnext value middle otherMiddle hmiddle
    exact ⟨result, last, otherLast, hleft.bind hleft', hright.bind hright', hlast⟩

theorem InStep.mapError {left : Stateful σ α} {right : Stateful τ α}
    (h : InStep before left right after failed) (change : Error → Error) :
    InStep before (left.mapError change) (right.mapError change) after failed := by
  intro state other hbefore
  obtain ⟨result, last, otherLast, hleft, hright, hlast⟩ := h state other hbefore
  refine ⟨_, last, otherLast, hleft.mapError change, hright.mapError change, ?_⟩
  cases result with
  | error error => exact hlast
  | ok value => exact hlast

/-- Both computations look at their states. -/
theorem inStep_get {next : σ → Stateful σ β} {otherNext : τ → Stateful τ β}
    (h : ∀ seen other, before seen other →
      InStep (fun state otherState => state = seen ∧ otherState = other) (next seen)
        (otherNext other) final failed) :
    InStep before (MonadState.get >>= next) (MonadState.get >>= otherNext) final failed := by
  intro state other hbefore
  obtain ⟨result, last, otherLast, hleft, hright, hlast⟩ :=
    h state other hbefore state other ⟨rfl, rfl⟩
  exact ⟨result, last, otherLast, (gives_get _).bind hleft, (gives_get _).bind hright, hlast⟩

theorem InStep.of_before {others : σ → τ → Prop} {left : Stateful σ α} {right : Stateful τ α}
    (h : InStep before left right after failed)
    (himp : ∀ state other, others state other → before state other) :
    InStep others left right after failed :=
  fun state other hothers => h state other (himp state other hothers)

theorem inStep_ofReporting {computation : Reporting α} (hsettles : computation.Settles)
    (hok : ∀ value, computation.Gives (.ok value) → ∀ state other, before state other →
      after value state other)
    (herror : ∀ state other, before state other → failed state other) :
    InStep before (ofReporting computation) (ofReporting computation) after failed := by
  intro state other hbefore
  obtain ⟨result, hgives⟩ := hsettles
  refine ⟨result, state, other, gives_ofReporting hgives _, gives_ofReporting hgives _, ?_⟩
  cases result with
  | ok value => exact hok value hgives state other hbefore
  | error error => exact herror state other hbefore

/-- What two different computations came to is used by two different continuations. -/
theorem inStep_ofReporting_ok {γ : Type} {left : Reporting α} {right : Reporting γ} {value : α}
    {otherValue : γ} {next : α → Stateful σ β} {otherNext : γ → Stateful τ β}
    (hleft : left.Gives (.ok value)) (hright : right.Gives (.ok otherValue))
    (hnext : InStep before (next value) (otherNext otherValue) final failed) :
    InStep before (ofReporting left >>= next) (ofReporting right >>= otherNext) final failed := by
  intro state other hbefore
  obtain ⟨result, last, otherLast, hgives, hother, hlast⟩ := hnext state other hbefore
  exact ⟨result, last, otherLast, (gives_ofReporting hleft _).bind hgives,
    (gives_ofReporting hright _).bind hother, hlast⟩

theorem inStep_ofReporting_error {γ : Type} {left : Reporting α} {right : Reporting γ}
    {error : Error} {next : α → Stateful σ β} {otherNext : γ → Stateful τ β}
    (hleft : left.Gives (.error error)) (hright : right.Gives (.error error))
    (hfailed : ∀ state other, before state other → failed state other) :
    InStep before (ofReporting left >>= next) (ofReporting right >>= otherNext) final failed :=
  fun state other hbefore => ⟨.error error, state, other, (gives_ofReporting hleft _).bind_error,
    (gives_ofReporting hright _).bind_error, hfailed state other hbefore⟩

theorem InStep.weaken {others : α → σ → τ → Prop} {left : Stateful σ α} {right : Stateful τ α}
    (h : InStep before left right after failed)
    (himp : ∀ value state other, after value state other → others value state other) :
    InStep before left right others failed := by
  intro state other hbefore
  obtain ⟨result, last, otherLast, hleft, hright, hlast⟩ := h state other hbefore
  refine ⟨result, last, otherLast, hleft, hright, ?_⟩
  cases result with
  | error error => exact hlast
  | ok value => exact himp value last otherLast hlast

end Stateful

open Stateful

namespace Job

variable {σ τ α : Type}

/-- Computations on the accumulators in step are so within a run. -/
theorem inStep_evaluating {tables failedTables : Aggregates → Aggregates → Prop}
    {tablesAfter : α → Aggregates → Aggregates → Prop} {before failed : RunState σ → RunState τ → Prop}
    {after : α → RunState σ → RunState τ → Prop} {left right : Evaluating α}
    (h : InStep tables left right tablesAfter failedTables)
    (hbefore : ∀ state other, before state other → tables state.aggregates other.aggregates)
    (hok : ∀ state other, before state other → ∀ value table otherTable,
      tablesAfter value table otherTable →
        after value { state with aggregates := table } { other with aggregates := otherTable })
    (herror : ∀ state other, before state other → ∀ table otherTable,
      failedTables table otherTable →
        failed { state with aggregates := table } { other with aggregates := otherTable }) :
    InStep before (evaluating left) (evaluating right) after failed := by
  intro state other hstates
  obtain ⟨result, table, otherTable, hleft, hright, htables⟩ :=
    h _ _ (hbefore state other hstates)
  refine ⟨result, _, _, Gives.onPart hleft, Gives.onPart hright, ?_⟩
  cases result with
  | ok value => exact hok state other hstates value table otherTable htables
  | error error => exact herror state other hstates table otherTable htables

end Job

end StreamQuery
