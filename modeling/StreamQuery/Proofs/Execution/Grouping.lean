import StreamQuery.Proofs.Aggregate.Slots
import StreamQuery.Proofs.Execution.Row

/-!
# A row in its group

Whether a row is kept, and in which group, depends on its values alone when `WHERE` and `GROUP BY`
call no aggregates and nothing looks at row numbers. What the row selects then depends only on the
accumulators of its group.
-/

namespace StreamQuery

open Stateful

/-- An expression that does not mention the numbers of rows. -/
def Expr.IgnoresRowNumbers (expr : Expr) : Prop :=
  ∀ part ∈ expr.subexpressions,
    part ≠ .variable "row_number" ∧ part ≠ .variable "input_row_number"

/-! ### Scopes of one row -/

namespace Scope

variable {related : Aggregates → Aggregates → Prop} {scope other : Scope}

/-- Two scopes that differ at most in the numbers of their rows. -/
structure SameRow (scope other : Scope) : Prop where
  session : scope.session = other.session
  values : scope.values = other.values
  names : scope.names = other.names

theorem SameRow.resolve (h : SameRow scope other) {name : String} (hrow : name ≠ "row_number")
    (hinput : name ≠ "input_row_number") : scope.resolve name = other.resolve name := by
  unfold Scope.resolve
  rw [h.session, h.values, h.names]
  split
  case h_5 => exact absurd rfl hrow
  case h_6 => exact absurd rfl hinput
  all_goals simp only

/-- A relation of accumulators that every aggregate call keeps, with the same result. -/
def KeptByCalls (related : Aggregates → Aggregates → Prop) : Prop :=
  ∀ function arguments table other, related table other →
    (table.call function arguments).1 = (other.call function arguments).1 ∧
      related (table.call function arguments).2 (other.call function arguments).2

theorem agree_evaluate (h : SameRow scope other) {expr : Expr} (hrows : expr.IgnoresRowNumbers)
    (hcalls : KeptByCalls related ∨ expr.CallsNoAggregate) :
    Agree related (scope.evaluate expr) (other.evaluate expr) := by
  refine (Congruence.succeeding related).relates_evaluateWith (alike_succeeding h.session h.values)
    expr fun part hpart => ⟨?_, ?_⟩
  · rintro name rfl
    obtain ⟨hrow, hinput⟩ := hrows _ hpart
    exact h.resolve (fun heq => hrow (heq ▸ rfl)) fun heq => hinput (heq ▸ rfl)
  · intro name function arguments hcall hfunction
    rcases hcalls with hkept | hquiet
    · exact agree_ofAggregate (hkept function arguments)
    · have hname := Expr.callsNoAggregate_iff.mp hquiet part hpart name hcall
      rw [Aggregate.isName, hfunction] at hname
      cases hname

theorem agree_evaluateAt (h : SameRow scope other) (location : Location) {expr : Expr}
    (hrows : expr.IgnoresRowNumbers) (hcalls : KeptByCalls related ∨ expr.CallsNoAggregate) :
    Agree related (scope.evaluateAt location expr) (other.evaluateAt location expr) :=
  (agree_evaluate h hrows hcalls).mapError _ _

theorem agree_evaluateEach (h : SameRow scope other) (clause : Clause) (position : Nat)
    {exprs : List Expr} (hrows : ∀ expr ∈ exprs, expr.IgnoresRowNumbers)
    (hcalls : ∀ expr ∈ exprs, expr.CallsNoAggregate) :
    Agree related (scope.evaluateEach clause position exprs)
      (other.evaluateEach clause position exprs) :=
  (Congruence.succeeding related).relates_evaluateEach (fun expr hexpr location =>
    agree_evaluateAt h location (hrows expr hexpr) (.inr (hcalls expr hexpr))) clause position

end Scope

namespace Plan

variable {related : Aggregates → Aggregates → Prop} {scope other : Scope}

/-- A plan that mentions no row numbers, and calls no aggregates where they are refused: in
`WHERE` and in `GROUP BY`. -/
structure GroupsByValues (plan : Plan) : Prop where
  condition_calls : ∀ expr ∈ plan.condition, expr.CallsNoAggregate
  groupBy_calls : ∀ expr ∈ plan.groupBy, expr.CallsNoAggregate
  condition_rows : ∀ expr ∈ plan.condition, expr.IgnoresRowNumbers
  groupBy_rows : ∀ expr ∈ plan.groupBy, expr.IgnoresRowNumbers
  items_rows : ∀ expr ∈ itemExpressions plan.items, expr.IgnoresRowNumbers

/-- A plan that does no more than group rows, by their values. -/
structure Separates (plan : Plan) : Prop extends plan.GroupsByValues where
  explode : plan.explode = none
  orderBy : plan.orderBy = []
  groupBy : plan.groupBy ≠ []

theorem agree_keeps {plan : Plan} (hplan : plan.Separates) (h : Scope.SameRow scope other) :
    Agree related (plan.keeps scope) (plan.keeps other) :=
  (Congruence.succeeding related).relates_keeps fun expr hexpr location =>
    Scope.agree_evaluateAt h location (hplan.condition_rows expr hexpr)
      (.inr (hplan.condition_calls expr hexpr))

theorem agree_project (h : Scope.SameRow scope other) (hkept : Scope.KeptByCalls related)
    (position : Nat) {items : List PlanItem}
    (hrows : ∀ expr ∈ itemExpressions items, expr.IgnoresRowNumbers) :
    Agree related (project scope position items) (project other position items) :=
  (Congruence.succeeding related).relates_project h.values (fun expr hexpr location =>
    Scope.agree_evaluateAt h location (hrows expr hexpr) (.inl hkept)) position

/-! ### What becomes of a row -/

/-- What becomes of a row before anything is selected: it fails, is dropped, or goes to the group
with a key. -/
inductive Verdict where
  | fails
  | drops
  | groups (key : String)

/-- What `WHERE` and `GROUP BY` make of a row. -/
def verdict (plan : Plan) (scope : Scope) : Verdict :=
  match ((plan.keeps scope).outcome {} []).1.1 with
  | .error _ => .fails
  | .ok false => .drops
  | .ok true =>
    match ((scope.evaluateEach .groupBy 1 plan.groupBy).outcome {} []).1.1 with
    | .error _ => .fails
    | .ok values => .groups (tupleKey values)

end Plan

namespace Stateful

variable {α : Type} {first second : Evaluating α}

/-- A computation that does not look at the accumulators succeeds on all of them or on none. -/
theorem gives_of_agree (h : ∀ related : Aggregates → Aggregates → Prop, Agree related first second)
    {value : α} (hvalue : (first.outcome {} []).1.1 = .ok value) (table : Aggregates) :
    second.Gives table (.ok value) table := by
  rcases h (fun left right => left = {} ∧ right = table) {} table ⟨rfl, rfl⟩ with
    ⟨other, after, last, hfirst, hsecond, rfl, rfl⟩ | ⟨error, _, after, _, hfirst, _⟩
  · rw [hfirst.outcome_eq] at hvalue
    obtain rfl := Except.ok.inj hvalue
    exact hsecond
  · rw [hfirst.outcome_eq] at hvalue
    cases hvalue

theorem fails_of_agree (h : ∀ related : Aggregates → Aggregates → Prop, Agree related first second)
    {error : Error} (herror : (first.outcome {} []).1.1 = .error error) (table : Aggregates) :
    ∃ error after, second.Gives table (.error error) after := by
  rcases h (fun _ _ => True) {} table trivial with
    ⟨other, after, last, hfirst, -⟩ | ⟨_, other, _, after, _, hsecond⟩
  · rw [hfirst.outcome_eq] at herror
    cases herror
  · exact ⟨other, after, hsecond⟩

end Stateful

namespace Plan

variable {plan : Plan} {scope other : Scope}

theorem gives_of_drops (hplan : plan.Separates) (h : Scope.SameRow scope other)
    (hverdict : plan.verdict scope = .drops) (table : Aggregates) :
    (plan.keeps other).Gives table (.ok false) table := by
  refine gives_of_agree (fun _ => agree_keeps hplan h) ?_ table
  unfold verdict at hverdict
  split at hverdict
  · cases hverdict
  · assumption
  · split at hverdict <;> cases hverdict

theorem keeps_of_groups (hplan : plan.Separates) (h : Scope.SameRow scope other) {key : String}
    (hverdict : plan.verdict scope = .groups key) (table : Aggregates) :
    (plan.keeps other).Gives table (.ok true) table := by
  refine gives_of_agree (fun _ => agree_keeps hplan h) ?_ table
  unfold verdict at hverdict
  split at hverdict
  · cases hverdict
  · cases hverdict
  · assumption

theorem startGroup_of_groups (hplan : plan.Separates) (h : Scope.SameRow scope other)
    {key : String} (hverdict : plan.verdict scope = .groups key) (table : Aggregates) :
    (plan.startGroup other).Gives table (.ok key) (table.startRow key) := by
  have hagree (related : Aggregates → Aggregates → Prop) :
      Agree related (scope.evaluateEach .groupBy 1 plan.groupBy)
        (other.evaluateEach .groupBy 1 plan.groupBy) :=
    Scope.agree_evaluateEach h _ _ hplan.groupBy_rows hplan.groupBy_calls
  have hgroups : ¬ plan.groupBy.isEmpty = true := by
    simpa [List.isEmpty_iff] using hplan.groupBy
  unfold verdict at hverdict
  split at hverdict
  · cases hverdict
  · cases hverdict
  · split at hverdict
    · cases hverdict
    · next values hvalues =>
      obtain rfl := Verdict.groups.inj hverdict
      rw [startGroup, if_neg hgroups]
      exact (gives_of_agree hagree hvalues table).bind ((gives_modify _ _).bind (gives_pure _ _))

/-- A row that fails does so in `WHERE`, or after `WHERE` in `GROUP BY`, on all accumulators. -/
theorem fails_of_fails (hplan : plan.Separates) (hverdict : plan.verdict scope = .fails) :
    (∀ other table, Scope.SameRow scope other →
      ∃ error after, (plan.keeps other).Gives table (.error error) after) ∨
    ∀ other table, Scope.SameRow scope other → (plan.keeps other).Gives table (.ok true) table ∧
      ∃ error after, (plan.startGroup other).Gives table (.error error) after := by
  have hgroups : ¬ plan.groupBy.isEmpty = true := by
    simpa [List.isEmpty_iff] using hplan.groupBy
  unfold verdict at hverdict
  split at hverdict
  · next error herror =>
    exact .inl fun other table h => fails_of_agree (fun _ => agree_keeps hplan h) herror table
  · cases hverdict
  · next htrue =>
    split at hverdict
    · next error herror =>
      refine .inr fun other table h =>
        ⟨gives_of_agree (fun _ => agree_keeps hplan h) htrue table, ?_⟩
      obtain ⟨raised, after, hfails⟩ := fails_of_agree (fun _ =>
        Scope.agree_evaluateEach h _ _ hplan.groupBy_rows hplan.groupBy_calls) herror table
      rw [startGroup, if_neg hgroups]
      exact ⟨raised, after, hfails.bind_error⟩
    · cases hverdict

/-- What a row selects in a group does not depend on the numbers of the row. -/
theorem project_sameRow (hplan : plan.Separates) (h : Scope.SameRow scope other) :
    Agree Eq (project scope 1 plan.items) (project other 1 plan.items) :=
  agree_project h (fun _ _ _ _ heq => heq ▸ ⟨rfl, rfl⟩) 1 hplan.items_rows

/-- What a row selects only depends on the accumulators of its group. -/
theorem project_matches (hplan : plan.Separates) (scope : Scope) (key : String) :
    Agree (Aggregates.Matches key) (project scope 1 plan.items) (project scope 1 plan.items) :=
  agree_project ⟨rfl, rfl, rfl⟩ (fun function arguments _ _ h => h.call function arguments) 1
    hplan.items_rows

/-- What a row selects leaves the accumulators of all other groups alone. -/
theorem project_leaves (hplan : plan.Separates) (scope : Scope) (key : String)
    (slots : Array Accumulator) :
    Agree (fun table other => table = other ∧ Aggregates.Leaves key slots table)
      (project scope 1 plan.items) (project scope 1 plan.items) := by
  refine agree_project ⟨rfl, rfl, rfl⟩ ?_ 1 hplan.items_rows
  rintro function arguments table _ ⟨rfl, h⟩
  exact ⟨rfl, rfl, h.call function arguments⟩

end Plan

end StreamQuery
