import StreamQuery.Execution.Row
import StreamQuery.Proofs.Evaluation.Relation

/-!
# The evaluation of a row

The record of a row comes from evaluating its `SELECT` list and then its `ORDER BY` expressions, in
order. What is evaluated on a row has one result, and two evaluations of rows are related as soon as
those of the expressions of the clauses are. An expression that calls no aggregates has one value on
a row, whatever was accumulated before, and leaves the accumulators alone.
-/

namespace StreamQuery

open Stateful

/-! ### The expressions of a record -/

namespace Plan

/-- The expressions of a `SELECT` list. -/
def itemExpressions : List PlanItem → List Expr
  | [] => []
  | .star :: rest => itemExpressions rest
  | .expression expr :: rest => expr :: itemExpressions rest

/-- The expressions of an `ORDER BY` clause. -/
def keyExpressions : List PlanKey → List Expr
  | [] => []
  | .outputColumn _ :: rest => keyExpressions rest
  | .expression expr :: rest => expr :: keyExpressions rest

/-- The expressions that are evaluated for the record of a row once its group is known: the
`SELECT` list, then the `ORDER BY` clause. -/
def rowExpressions (plan : Plan) : List Expr :=
  itemExpressions plan.items ++ keyExpressions plan.orderBy

end Plan

/-! ### Two evaluations of a row -/

/-- Two scopes of one row of the input. -/
structure Scope.SameInput (scope other : Scope) : Prop where
  values : scope.values = other.values
  names : scope.names = other.names
  inputRowNumber : scope.inputRowNumber = other.inputRowNumber

theorem Scope.SameInput.assignEach {scope other : Scope} (h : scope.SameInput other) (target : Expr)
    (items : List Value) : scope.assignEach target items = other.assignEach target items := by
  induction items with
  | nil => rfl
  | cons item rest ih =>
    simp only [Scope.assignEach]
    rw [ih, h.names, h.values, h.inputRowNumber]

namespace Congruence

/-- The values of an expression are related, whatever clause it stands in. -/
def Evaluates (relation : Congruence Aggregates Aggregates) (scope other : Scope) (expr : Expr) :
    Prop :=
  ∀ location, relation.relates (scope.evaluateAt location expr) (other.evaluateAt location expr)

variable (relation : Congruence Aggregates Aggregates) {scope other : Scope} {plan : Plan}

theorem relates_evaluateEach {exprs : List Expr}
    (h : ∀ expr ∈ exprs, relation.Evaluates scope other expr) (clause : Clause) (position : Nat) :
    relation.relates (scope.evaluateEach clause position exprs)
      (other.evaluateEach clause position exprs) := by
  induction exprs generalizing position with
  | nil => exact relation.pure _
  | cons expr rest ih =>
    obtain ⟨hexpr, hrest⟩ := List.forall_mem_cons.mp h
    exact relation.bind (hexpr _) fun _ => relation.bind (ih hrest _) fun _ => relation.pure _

theorem relates_explode (hsame : scope.SameInput other) {target : Expr}
    (h : relation.Evaluates scope other target) :
    relation.relates (scope.explode target) (other.explode target) := by
  refine relation.bind (h _) fun value => ?_
  cases value with
  | null => exact relation.pure _
  | list items =>
    simp only [hsame.assignEach target items]
    exact relation.relates_ofResult _
  | _ =>
    simp only [hsame.inputRowNumber, hsame.values]
    exact relation.throw _

theorem relates_spread (hsame : scope.SameInput other)
    (h : ∀ expr ∈ plan.explode, relation.Evaluates scope other expr) :
    relation.relates (plan.spread scope) (plan.spread other) := by
  unfold Plan.spread
  cases hexplode : plan.explode with
  | none =>
    simp only [hsame.values]
    exact relation.pure _
  | some target => exact relation.relates_explode hsame (h target hexplode)

theorem relates_keeps (h : ∀ expr ∈ plan.condition, relation.Evaluates scope other expr) :
    relation.relates (plan.keeps scope) (plan.keeps other) := by
  unfold Plan.keeps
  cases hcondition : plan.condition with
  | none => exact relation.pure _
  | some condition => exact relation.bind (h condition hcondition _) fun _ => relation.pure _

theorem relates_startGroup (h : ∀ expr ∈ plan.groupBy, relation.Evaluates scope other expr)
    (hstart : ∀ key, relation.relates (modify (Aggregates.startRow key) : Evaluating PUnit)
      (modify (Aggregates.startRow key) : Evaluating PUnit)) :
    relation.relates (plan.startGroup scope) (plan.startGroup other) := by
  unfold Plan.startGroup
  split
  · exact relation.pure _
  · exact relation.bind (relation.relates_evaluateEach h _ _) fun _ =>
      relation.bind (hstart _) fun _ => relation.pure _

theorem relates_project (hvalues : scope.values = other.values) {items : List PlanItem}
    (h : ∀ expr ∈ Plan.itemExpressions items, relation.Evaluates scope other expr)
    (position : Nat) :
    relation.relates (Plan.project scope position items) (Plan.project other position items) := by
  induction items generalizing position with
  | nil => exact relation.pure _
  | cons item rest ih =>
    cases item with
    | star =>
      simp only [Plan.project, hvalues]
      exact relation.bind (ih h _) fun _ => relation.pure _
    | expression expr =>
      obtain ⟨hexpr, hrest⟩ := List.forall_mem_cons.mp h
      exact relation.bind (hexpr _) fun _ => relation.bind (ih hrest _) fun _ => relation.pure _

theorem relates_sortKeys (hsame : scope.SameInput other) {keys : List PlanKey}
    (h : ∀ expr ∈ Plan.keyExpressions keys, relation.Evaluates scope other expr)
    (projected : List Value) (position : Nat) :
    relation.relates (Plan.sortKeys scope projected position keys)
      (Plan.sortKeys other projected position keys) := by
  induction keys generalizing position with
  | nil => exact relation.pure _
  | cons key rest ih =>
    cases key with
    | expression expr =>
      obtain ⟨hexpr, hrest⟩ := List.forall_mem_cons.mp h
      exact relation.bind (hexpr _) fun _ => relation.bind (ih hrest _) fun _ => relation.pure _
    | outputColumn index =>
      unfold Plan.sortKeys
      cases projected[index]? with
      | some value => exact relation.bind (ih h _) fun _ => relation.pure _
      | none =>
        simp only [hsame.inputRowNumber, hsame.values]
        exact relation.throw _

theorem relates_record (hsame : scope.SameInput other)
    (hgroup : ∀ expr ∈ plan.groupBy, relation.Evaluates scope other expr)
    (hstart : ∀ key, relation.relates (modify (Aggregates.startRow key) : Evaluating PUnit)
      (modify (Aggregates.startRow key) : Evaluating PUnit))
    (hrow : ∀ expr ∈ plan.rowExpressions, relation.Evaluates scope other expr) :
    relation.relates (plan.record scope) (plan.record other) := by
  obtain ⟨hitems, hkeys⟩ := List.forall_mem_append.mp hrow
  refine relation.bind (relation.relates_startGroup hgroup hstart) fun _ => ?_
  refine relation.bind (relation.relates_project hsame.values hitems 1) fun values => ?_
  exact relation.bind (relation.relates_sortKeys hsame hkeys values 1) fun _ => relation.pure _

end Congruence

/-! ### Results -/

theorem Scope.SameInput.refl (scope : Scope) : scope.SameInput scope :=
  ⟨rfl, rfl, rfl⟩

namespace Scope

theorem evaluates_self (scope : Scope) (expr : Expr) :
    (Congruence.succeeding Eq).Evaluates scope scope expr :=
  fun _ => (scope.agree_evaluate_self expr).mapError _ _

theorem evaluateAt_settles (scope : Scope) (location : Location) (expr : Expr) :
    (scope.evaluateAt location expr).Settles :=
  Agree.settles (scope.evaluates_self expr location)

/-- A value does not depend on the clause that it is evaluated for. -/
theorem gives_evaluateAt_ok {scope : Scope} {expr : Expr} {location : Location}
    {table after : Aggregates} {value : Value}
    (h : (scope.evaluateAt location expr).Gives table (.ok value) after) (other : Location) :
    (scope.evaluateAt other expr).Gives table (.ok value) after :=
  (h.of_mapError (scope.evaluate_settles expr)).mapError _

theorem evaluateEach_settles (scope : Scope) (clause : Clause) (position : Nat)
    (exprs : List Expr) : (scope.evaluateEach clause position exprs).Settles :=
  Agree.settles ((Congruence.succeeding Eq).relates_evaluateEach
    (fun expr _ => scope.evaluates_self expr) _ _)

end Scope

namespace Plan

variable (plan : Plan) (scope : Scope)

theorem spread_settles : (plan.spread scope).Settles :=
  Agree.settles ((Congruence.succeeding Eq).relates_spread (.refl scope)
    fun expr _ => scope.evaluates_self expr)

theorem keeps_settles : (plan.keeps scope).Settles :=
  Agree.settles ((Congruence.succeeding Eq).relates_keeps fun expr _ => scope.evaluates_self expr)

theorem agree_startRow (key : String) :
    Agree Eq (modify (Aggregates.startRow key) : Evaluating PUnit)
      (modify (Aggregates.startRow key) : Evaluating PUnit) :=
  agree_modify fun _ _ => congrArg _

theorem startGroup_settles : (plan.startGroup scope).Settles :=
  Agree.settles ((Congruence.succeeding Eq).relates_startGroup
    (fun expr _ => scope.evaluates_self expr) agree_startRow)

theorem project_settles (position : Nat) (items : List PlanItem) :
    (project scope position items).Settles :=
  Agree.settles ((Congruence.succeeding Eq).relates_project rfl
    (fun expr _ => scope.evaluates_self expr) _)

theorem sortKeys_settles (projected : List Value) (position : Nat) (keys : List PlanKey) :
    (sortKeys scope projected position keys).Settles :=
  Agree.settles ((Congruence.succeeding Eq).relates_sortKeys (.refl scope)
    (fun expr _ => scope.evaluates_self expr) _ _)

theorem record_settles : (plan.record scope).Settles :=
  Agree.settles ((Congruence.succeeding Eq).relates_record (.refl scope)
    (fun expr _ => scope.evaluates_self expr) agree_startRow
    fun expr _ => scope.evaluates_self expr)

end Plan

/-! ### Lists in two parts -/

namespace Plan

theorem project_append (scope : Scope) (position : Nat) (items more : List PlanItem) :
    project scope position (items ++ more) = (do
      let values ← project scope position items
      return values ++ (← project scope (position + items.length) more)) := by
  induction items generalizing position with
  | nil => simp [project]
  | cons item rest ih =>
    have hposition : position + 1 + rest.length = position + (item :: rest).length := by
      simp only [List.length_cons]
      omega
    cases item <;>
      simp only [List.cons_append, project, ih, hposition, bind_assoc, pure_bind, List.append_assoc]

theorem sortKeys_append (scope : Scope) (projected : List Value) (position : Nat)
    (keys more : List PlanKey) :
    sortKeys scope projected position (keys ++ more) = (do
      let values ← sortKeys scope projected position keys
      return values ++ (← sortKeys scope projected (position + keys.length) more)) := by
  induction keys generalizing position with
  | nil => simp [sortKeys]
  | cons key rest ih =>
    have hposition : position + 1 + rest.length = position + (key :: rest).length := by
      simp only [List.length_cons]
      omega
    cases key with
    | expression expr =>
      simp only [List.cons_append, sortKeys, ih, hposition, bind_assoc, pure_bind]
    | outputColumn index =>
      simp only [List.cons_append, sortKeys, ih, hposition]
      cases projected[index]? with
      | some value => simp only [bind_assoc, pure_bind, List.cons_append]
      | none => rfl

theorem itemExpressions_append (items more : List PlanItem) :
    itemExpressions (items ++ more) = itemExpressions items ++ itemExpressions more := by
  induction items with
  | nil => rfl
  | cons item rest ih => cases item <;> simp [itemExpressions, ih]

theorem keyExpressions_append (keys more : List PlanKey) :
    keyExpressions (keys ++ more) = keyExpressions keys ++ keyExpressions more := by
  induction keys with
  | nil => rfl
  | cons key rest ih => cases key <;> simp [keyExpressions, ih]

end Plan

/-! ### The values of a record -/

namespace Scope

/-- The values of expressions. -/
def valuesOf (scope : Scope) (exprs : List Expr) : Evaluating (List Value) :=
  scope.evaluateAll (fun _ => Evaluating.ofAggregate) exprs

theorem valuesOf_settles (scope : Scope) (exprs : List Expr) : (scope.valuesOf exprs).Settles := by
  induction exprs with
  | nil => exact settles_pure _
  | cons expr rest ih =>
    exact Settles.bind (scope.evaluate_settles expr) fun _ =>
      Settles.bind ih fun _ => settles_pure _

theorem valuesOf_cons {scope : Scope} {location : Location} {expr : Expr} {rest : List Expr}
    {table middle after : Aggregates} {value : Value} {values : List Value}
    (hexpr : (scope.evaluateAt location expr).Gives table (.ok value) middle)
    (hrest : (scope.valuesOf rest).Gives middle (.ok values) after) :
    (scope.valuesOf (expr :: rest)).Gives table (.ok (value :: values)) after :=
  Gives.bind (hexpr.of_mapError (scope.evaluate_settles expr))
    (hrest.bind (gives_pure (value :: values) after))

/-- An expression that is evaluated at its place, before others are. -/
theorem valuesOf_of_evaluateAt {scope : Scope} {location : Location} {expr : Expr}
    {rest : List Expr} {others : Evaluating (List Value)} {table after : Aggregates}
    {values : List Value} (hsettles : others.Settles)
    (hothers : ∀ {middle values}, others.Gives middle (.ok values) after →
      ∃ evaluated, (scope.valuesOf rest).Gives middle (.ok evaluated) after)
    (h : (do
      let value ← scope.evaluateAt location expr
      return value :: (← others)).Gives table (.ok values) after) :
    ∃ evaluated, (scope.valuesOf (expr :: rest)).Gives table (.ok evaluated) after := by
  obtain ⟨value, _, hexpr, hnext⟩ := h.of_bind (scope.evaluateAt_settles _ expr)
    fun _ => hsettles.bind fun _ => settles_pure _
  obtain ⟨_, _, hrest, hlast⟩ := hnext.of_bind hsettles fun _ => settles_pure _
  obtain ⟨_, rfl⟩ := hlast.unique (gives_pure _ _)
  obtain ⟨evaluated, hevaluated⟩ := hothers hrest
  exact ⟨value :: evaluated, valuesOf_cons hexpr hevaluated⟩

theorem valuesOf_append {scope : Scope} {exprs rest : List Expr}
    {table middle after : Aggregates} {values others : List Value}
    (hexprs : (scope.valuesOf exprs).Gives table (.ok values) middle)
    (hrest : (scope.valuesOf rest).Gives middle (.ok others) after) :
    (scope.valuesOf (exprs ++ rest)).Gives table (.ok (values ++ others)) after := by
  induction exprs generalizing table values with
  | nil =>
    obtain ⟨hvalues, rfl⟩ := hexprs.unique (gives_pure _ _)
    obtain rfl := Except.ok.inj hvalues
    exact hrest
  | cons expr tail ih =>
    obtain ⟨value, first, hexpr, hnext⟩ := hexprs.of_bind (scope.evaluate_settles expr)
      fun _ => (scope.valuesOf_settles tail).bind fun _ => settles_pure _
    obtain ⟨tailValues, last, htail, hlast⟩ :=
      hnext.of_bind (scope.valuesOf_settles tail) fun _ => settles_pure _
    obtain ⟨hvalues, rfl⟩ := hlast.unique (gives_pure _ _)
    obtain rfl := Except.ok.inj hvalues
    exact Gives.bind hexpr (Gives.bind (ih htail) (gives_pure _ _))

end Scope

namespace Plan

theorem valuesOf_of_project {scope : Scope} {items : List PlanItem} {position : Nat}
    {table after : Aggregates} {values : List Value}
    (h : (project scope position items).Gives table (.ok values) after) :
    ∃ evaluated, (scope.valuesOf (itemExpressions items)).Gives table (.ok evaluated) after := by
  induction items generalizing position table values with
  | nil => exact ⟨[], by obtain ⟨_, rfl⟩ := h.unique (gives_pure _ _); exact gives_pure _ _⟩
  | cons item rest ih =>
    cases item with
    | star =>
      obtain ⟨_, middle, hrest, hlast⟩ :=
        h.of_bind (project_settles scope _ rest) fun _ => settles_pure _
      obtain ⟨_, rfl⟩ := hlast.unique (gives_pure _ _)
      exact ih hrest
    | expression expr => exact Scope.valuesOf_of_evaluateAt (project_settles scope _ rest) ih h

theorem valuesOf_of_sortKeys {scope : Scope} {projected : List Value} {keys : List PlanKey}
    {position : Nat} {table after : Aggregates} {values : List Value}
    (h : (sortKeys scope projected position keys).Gives table (.ok values) after) :
    ∃ evaluated, (scope.valuesOf (keyExpressions keys)).Gives table (.ok evaluated) after := by
  induction keys generalizing position table values with
  | nil => exact ⟨[], by obtain ⟨_, rfl⟩ := h.unique (gives_pure _ _); exact gives_pure _ _⟩
  | cons key rest ih =>
    cases key with
    | expression expr => exact Scope.valuesOf_of_evaluateAt (sortKeys_settles scope _ _ rest) ih h
    | outputColumn index =>
      unfold sortKeys at h
      split at h
      · obtain ⟨_, last, hrest, hlast⟩ :=
          h.of_bind (sortKeys_settles scope _ _ rest) fun _ => settles_pure _
        obtain ⟨_, rfl⟩ := hlast.unique (gives_pure _ _)
        exact ih hrest
      · cases (h.unique (gives_throw _ _)).1

/-- The record of a row starts its group and evaluates the expressions of the row in order. -/
theorem valuesOf_of_record {plan : Plan} {scope : Scope} {table after : Aggregates}
    {record : OutputRecord} (h : (plan.record scope).Gives table (.ok record) after) :
    ∃ started evaluated, (plan.startGroup scope).Gives table (.ok record.groupKey) started ∧
      (scope.valuesOf plan.rowExpressions).Gives started (.ok evaluated) after := by
  have hkeys (values : List Value) := sortKeys_settles scope values 1 plan.orderBy
  obtain ⟨key, started, hstart, hnext⟩ := h.of_bind (plan.startGroup_settles scope)
    fun _ => (project_settles scope 1 _).bind fun values => (hkeys values).bind fun _ =>
      settles_pure _
  obtain ⟨values, middle, hproject, hnext⟩ := hnext.of_bind (project_settles scope 1 _)
    fun values => (hkeys values).bind fun _ => settles_pure _
  obtain ⟨_, last, hsort, hlast⟩ := hnext.of_bind (hkeys values) fun _ => settles_pure _
  obtain ⟨hrecord, rfl⟩ := hlast.unique (gives_pure _ _)
  obtain rfl := Except.ok.inj hrecord
  obtain ⟨_, hitems⟩ := valuesOf_of_project hproject
  obtain ⟨_, hkeys⟩ := valuesOf_of_sortKeys hsort
  exact ⟨started, _, hstart, Scope.valuesOf_append hitems hkeys⟩

/-- In a query that groups, the values of the grouping expressions start the group of a row. -/
theorem startRow_of_startGroup {plan : Plan} {scope : Scope} {table started : Aggregates}
    {key : String} (hgroups : plan.groupBy ≠ [])
    (h : (plan.startGroup scope).Gives table (.ok key) started) :
    ∃ values middle, (scope.evaluateEach .groupBy 1 plan.groupBy).Gives table (.ok values) middle ∧
      key = tupleKey values ∧ started = middle.startRow key := by
  unfold startGroup at h
  rw [if_neg (by simpa [List.isEmpty_iff] using hgroups)] at h
  obtain ⟨values, middle, hvalues, hnext⟩ := h.of_bind (scope.evaluateEach_settles _ _ _)
    fun _ => (settles_modify _).bind fun _ => settles_pure _
  obtain ⟨hkey, rfl⟩ := hnext.unique ((gives_modify _ _).bind (gives_pure _ _))
  obtain rfl := Except.ok.inj hkey
  exact ⟨values, middle, hvalues, rfl, rfl⟩

/-- A query that does not group leaves the accumulators alone before the record of a row. -/
theorem eq_of_startGroup {plan : Plan} {scope : Scope} {table started : Aggregates}
    {key : String} (hgroups : plan.groupBy = [])
    (h : (plan.startGroup scope).Gives table (.ok key) started) : started = table := by
  unfold startGroup at h
  rw [if_pos (by simp [hgroups])] at h
  exact (h.unique (gives_pure _ _)).2

end Plan

/-! ### Evaluations that accumulators do not matter to -/

/-- A computation that neither depends on accumulators nor, if it succeeds, changes them. -/
def Stateful.Indifferent {α : Type} (computation : Evaluating α) : Prop :=
  ∀ related : Aggregates → Aggregates → Prop, Agree related computation computation

namespace Stateful.Indifferent

variable {α β : Type} {computation : Evaluating α}

theorem mapError (h : computation.Indifferent) (change : Error → Error) :
    (computation.mapError change).Indifferent :=
  fun related => (h related).mapError change change

/-- A success is the same on all accumulators, which it leaves as they are. -/
theorem gives (h : computation.Indifferent) {table after : Aggregates} {value : α}
    (hgives : computation.Gives table (.ok value) after) :
    after = table ∧ ∀ other, computation.Gives other (.ok value) other := by
  have hother (other : Aggregates) :
      computation.Gives table (.ok value) table ∧ computation.Gives other (.ok value) other := by
    rcases h (fun first second => first = table ∧ second = other) table other ⟨rfl, rfl⟩ with
      ⟨found, last, otherLast, hfirst, hsecond, rfl, rfl⟩ | ⟨error, _, last, _, hfirst, _⟩
    · obtain rfl := Except.ok.inj (hgives.unique hfirst).1
      exact ⟨hfirst, hsecond⟩
    · cases (hgives.unique hfirst).1
  exact ⟨(hgives.unique (hother table).1).2, fun other => (hother other).2⟩

end Stateful.Indifferent

namespace Scope

variable {scope : Scope} {expr : Expr}

theorem agree_of_callsNoAggregate (h : expr.CallsNoAggregate)
    (related : Aggregates → Aggregates → Prop) :
    Agree related (scope.evaluate expr) (scope.evaluate expr) :=
  (Congruence.succeeding related).relates_evaluateWith (alike_succeeding rfl rfl) expr
    fun part hpart => admits_of_noAggregateCall _ scope (Expr.callsNoAggregate_iff.mp h part hpart)

theorem evaluateAt_indifferent (h : expr.CallsNoAggregate) (location : Location) :
    (scope.evaluateAt location expr).Indifferent :=
  Indifferent.mapError (agree_of_callsNoAggregate h) _

/-- In two clauses an expression without aggregates has the same value on a row. -/
theorem gives_evaluateAt_of_callsNoAggregate (h : expr.CallsNoAggregate) {location : Location}
    {table after : Aggregates} {value : Value}
    (hgives : (scope.evaluateAt location expr).Gives table (.ok value) after)
    (other : Location) (otherTable : Aggregates) :
    (scope.evaluateAt other expr).Gives otherTable (.ok value) otherTable :=
  ((evaluateAt_indifferent h other).gives (gives_evaluateAt_ok hgives other)).2 otherTable

end Scope

namespace Plan

variable {plan : Plan}

theorem keeps_indifferent (h : ∀ expr ∈ plan.condition, expr.CallsNoAggregate) (scope : Scope) :
    (plan.keeps scope).Indifferent := fun related =>
  (Congruence.succeeding related).relates_keeps fun expr hexpr location =>
    Scope.evaluateAt_indifferent (h expr hexpr) location related

theorem spread_indifferent (h : ∀ expr ∈ plan.explode, expr.CallsNoAggregate) (scope : Scope) :
    (plan.spread scope).Indifferent := fun related =>
  (Congruence.succeeding related).relates_spread (.refl scope) fun expr hexpr location =>
    Scope.evaluateAt_indifferent (h expr hexpr) location related

end Plan

end StreamQuery
