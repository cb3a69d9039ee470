import StreamQuery.Proofs.Aggregate.Windows
import StreamQuery.Proofs.Evaluation.Sites
import StreamQuery.Proofs.Execution.Row

/-!
# Evaluations in two places

Where the accumulators of its calls are the same, an evaluation comes to the same result in two
places, and leaves the same accumulators behind. This takes expressions all of whose evaluations
make the same number of calls: no part that is evaluated for some rows only may call an aggregate.
-/

namespace StreamQuery

open Stateful Aggregates

/-- A computation that only depends on the accumulators of its next calls, of which it makes a
certain number if it succeeds: it does the same wherever they stand. -/
def Mirrors {α : Type} (calls : Nat) (computation : Evaluating α) : Prop :=
  ∀ table other, (∀ offset < calls, table.ahead offset = other.ahead offset) →
    ∃ result after otherAfter, computation.Gives table result after ∧
      computation.Gives other result otherAfter ∧
      ∀ value, result = .ok value → Matching calls table other after otherAfter

namespace Mirrors

variable {α β : Type} {calls more : Nat}

theorem ofResult (result : Except Error α) : Mirrors 0 (Stateful.ofResult result) :=
  fun table other _ => ⟨result, table, other, gives_ofResult _ _, gives_ofResult _ _,
    fun _ _ => .refl table other⟩

theorem pure (value : α) : Mirrors 0 (Pure.pure value) :=
  ofResult (.ok value)

theorem throw (error : Error) : Mirrors calls (MonadExcept.throw error : Evaluating α) :=
  fun table other _ => ⟨.error error, table, other, gives_throw _ _, gives_throw _ _,
    fun _ h => nomatch h⟩

theorem ofReporting {computation : Reporting α} (h : computation.Settles) :
    Mirrors 0 (Stateful.ofReporting computation) := by
  obtain ⟨result, h⟩ := h
  exact fun table other _ => ⟨result, table, other, gives_ofReporting h _, gives_ofReporting h _,
    fun _ _ => .refl table other⟩

theorem bind {computation : Evaluating α} {next : α → Evaluating β}
    (hfirst : Mirrors calls computation) (hnext : ∀ value, Mirrors more (next value)) :
    Mirrors (calls + more) (computation >>= next) := by
  intro table other hahead
  obtain ⟨result, middle, otherMiddle, hgives, hother, hmatching⟩ :=
    hfirst table other fun offset hoffset => hahead offset (by omega)
  cases result with
  | error error =>
    exact ⟨.error error, middle, otherMiddle, hgives.bind_error, hother.bind_error,
      fun _ h => nomatch h⟩
  | ok value =>
    have hmatching := hmatching value rfl
    obtain ⟨result, after, otherAfter, hgives', hother', hlater⟩ :=
      hnext value middle otherMiddle fun offset hoffset => by
        rw [hmatching.advances.ahead_eq, hmatching.otherAdvances.ahead_eq,
          hahead (calls + offset) (by omega)]
    exact ⟨result, after, otherAfter, hgives.bind hgives', hother.bind hother',
      fun last hlast => hmatching.trans (hlater last hlast)⟩

theorem mapError {computation : Evaluating α} (h : Mirrors calls computation)
    (change : Error → Error) : Mirrors calls (computation.mapError change) := by
  intro table other hahead
  obtain ⟨result, after, otherAfter, hgives, hother, hmatching⟩ := h table other hahead
  refine ⟨_, after, otherAfter, hgives.mapError change, hother.mapError change, fun value hok => ?_⟩
  cases result with
  | error error => cases hok
  | ok value => exact hmatching value rfl

theorem ofAggregate (function : Aggregate) (arguments : List Value) :
    Mirrors 1 (Evaluating.ofAggregate function arguments) := by
  intro table other hahead
  have hgives := Scope.gives_ofAggregate function arguments table
  have hother := Scope.gives_ofAggregate function arguments other
  rcases call_of_next (hahead 0 Nat.one_pos) function arguments with
    ⟨error, hcall, hotherCall⟩ | ⟨result, accumulator, hcall, hotherCall⟩
  · rw [hcall] at hgives
    rw [hotherCall] at hother
    exact ⟨_, _, _, hgives, hother, fun _ h => nomatch h⟩
  · rw [hcall] at hgives
    rw [hotherCall] at hother
    exact ⟨_, _, _, hgives, hother, fun _ _ => .store⟩

/-- A success makes its calls. -/
theorem advances {computation : Evaluating α} (h : Mirrors calls computation)
    {table after : Aggregates} {value : α} (hgives : computation.Gives table (.ok value) after) :
    Advances calls table after := by
  obtain ⟨result, found, _, hfound, -, hmatching⟩ := h table table fun _ _ => rfl
  obtain ⟨rfl, rfl⟩ := hfound.unique hgives
  exact (hmatching value rfl).advances

/-- A success is the same wherever the accumulators of its calls stand. -/
theorem matching {computation : Evaluating α} (h : Mirrors calls computation)
    {table other after : Aggregates} {value : α}
    (hgives : computation.Gives table (.ok value) after)
    (hahead : ∀ offset < calls, table.ahead offset = other.ahead offset) :
    ∃ otherAfter, computation.Gives other (.ok value) otherAfter ∧
      Matching calls table other after otherAfter := by
  obtain ⟨result, found, otherAfter, hfound, hother, hmatching⟩ := h table other hahead
  obtain ⟨rfl, rfl⟩ := hfound.unique hgives
  exact ⟨otherAfter, hother, hmatching value rfl⟩

end Mirrors

/-- Evaluations mirror each other in two places, with as many calls as they have sites. -/
def sitedMirrors : Sited fun _ => Evaluating.ofAggregate where
  holds sites computation := Mirrors sites.length computation
  pure := Mirrors.pure
  throw := Mirrors.throw
  bind hfirst hnext := List.length_append ▸ hfirst.bind hnext
  warns policy warning := Mirrors.ofReporting (Reporting.settles_raise policy warning)
  calls _ := Mirrors.ofAggregate

variable (modules : String → Option String)

theorem exists_mirrors_evaluateAt {expr : Expr} (h : expr.conditionalAggregates = []) :
    ∃ calls, ∀ scope : Scope, scope.Binds modules → ∀ location,
      Mirrors calls (scope.evaluateAt location expr) := by
  obtain ⟨sites, hsites⟩ := sitedMirrors.exists_holds_evaluateWith modules expr
    (Expr.conditionalAggregates_eq_nil_iff.mp h)
  exact ⟨sites.length, fun scope binds _ => (hsites scope binds).mapError _⟩

namespace Plan

theorem exists_mirrors_project {items : List PlanItem}
    (h : ∀ expr ∈ itemExpressions items, expr.conditionalAggregates = []) :
    ∃ calls, ∀ scope : Scope, scope.Binds modules → ∀ position,
      Mirrors calls (project scope position items) := by
  induction items with
  | nil => exact ⟨0, fun _ _ _ => Mirrors.pure _⟩
  | cons item rest ih =>
    cases item with
    | star =>
      obtain ⟨calls, hrest⟩ := ih h
      exact ⟨calls, fun scope binds position => (hrest scope binds _).bind fun _ => Mirrors.pure _⟩
    | expression expr =>
      obtain ⟨hexpr, hrest⟩ := List.forall_mem_cons.mp h
      obtain ⟨own, hexpr⟩ := exists_mirrors_evaluateAt modules hexpr
      obtain ⟨calls, hrest⟩ := ih hrest
      exact ⟨own + calls, fun scope binds position => (hexpr scope binds _).bind fun _ =>
        (hrest scope binds _).bind fun _ => Mirrors.pure _⟩

theorem exists_mirrors_sortKeys {keys : List PlanKey}
    (h : ∀ expr ∈ keyExpressions keys, expr.conditionalAggregates = []) :
    ∃ calls, ∀ scope : Scope, scope.Binds modules → ∀ projected position,
      Mirrors calls (sortKeys scope projected position keys) := by
  induction keys with
  | nil => exact ⟨0, fun _ _ _ _ => Mirrors.pure _⟩
  | cons key rest ih =>
    cases key with
    | expression expr =>
      obtain ⟨hexpr, hrest⟩ := List.forall_mem_cons.mp h
      obtain ⟨own, hexpr⟩ := exists_mirrors_evaluateAt modules hexpr
      obtain ⟨calls, hrest⟩ := ih hrest
      exact ⟨own + calls, fun scope binds projected position => (hexpr scope binds _).bind fun _ =>
        (hrest scope binds _ _).bind fun _ => Mirrors.pure _⟩
    | outputColumn index =>
      obtain ⟨calls, hrest⟩ := ih h
      refine ⟨calls, fun scope binds projected position => ?_⟩
      unfold sortKeys
      split
      · exact (hrest scope binds _ _).bind fun _ => Mirrors.pure _
      · exact Mirrors.throw _

end Plan

end StreamQuery
