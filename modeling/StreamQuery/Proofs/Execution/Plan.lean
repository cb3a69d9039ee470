import StreamQuery.Proofs.Computation

/-!
# The plan of a query

Compiling the clauses of a query has one result, whatever was warned about before. A plan has the
shape of its query: it spreads, groups and orders rows when the query does.
-/

namespace StreamQuery

open Reporting

namespace Expr

/-! ### Raising what parsing warns about -/

/-- The warnings of expressions. -/
def warnings (exprs : List Expr) : List Warning :=
  (exprs.flatMap conditionalAggregates).map .conditionalAggregate

theorem warnings_singleton (expr : Expr) :
    warnings [expr] = expr.conditionalAggregates.map .conditionalAggregate := by
  simp [warnings]

theorem warnings_eq_nil_iff {exprs : List Expr} :
    warnings exprs = [] ↔ ∀ expr ∈ exprs, expr.conditionalAggregates = [] := by
  simp [warnings]

/-- What a text is parsed to, with the warnings about it raised. -/
def raising {α : Type} (policy : WarningPolicy) (about : α → List Warning) :
    Except SyntaxFault α → Reporting α
  | .error fault => throw (.syntaxFault fault)
  | .ok value => do
    raiseAll policy (about value)
    return value

theorem compile_eq (policy : WarningPolicy) (text : String) :
    compile policy text = raising policy (fun expr => warnings [expr]) (parse text) := by
  simp only [warnings_singleton]
  unfold compile
  cases parse text <;> rfl

theorem compileList_eq (policy : WarningPolicy) (text : String) :
    compileList policy text = raising policy warnings (parseList text) := by
  unfold compileList
  cases parseList text <;> rfl

theorem settles_raising {α : Type} (policy : WarningPolicy) (about : α → List Warning)
    (parsed : Except SyntaxFault α) : (raising policy about parsed).Settles := by
  cases parsed with
  | error fault => exact settles_throw _
  | ok value => exact (settles_raiseAll _ _).bind fun _ => settles_pure _

theorem compile_settles (policy : WarningPolicy) (text : String) :
    (compile policy text).Settles :=
  compile_eq policy text ▸ settles_raising policy _ _

theorem compileList_settles (policy : WarningPolicy) (text : String) :
    (compileList policy text).Settles :=
  compileList_eq policy text ▸ settles_raising policy _ _

end Expr

namespace Plan

variable (policy : WarningPolicy) (clause : Clause)

theorem compileAt_settles (location : Location) (text : String) :
    (compileAt policy location text).Settles := by
  refine (Expr.compile_settles policy text).attempt.bind fun result => ?_
  cases result with
  | ok expr => exact settles_pure _
  | error error => exact settles_throw _

theorem compileEach_settles (items : List (Nat × String)) :
    (compileEach policy clause items).Settles := by
  induction items with
  | nil => exact settles_pure _
  | cons item rest ih =>
    exact (compileAt_settles policy _ _).bind fun _ => ih.bind fun _ => settles_pure _

theorem compileList_settles (items : List (Nat × String)) :
    (compileList policy clause items).Settles := by
  unfold compileList
  split
  · exact settles_pure _
  · refine (Expr.compileList_settles policy _).attempt.bind fun result => ?_
    cases result with
    | ok exprs =>
      dsimp only
      split
      · exact settles_pure _
      · exact compileEach_settles policy clause items
    | error error => exact (compileEach_settles policy clause items).bind fun _ => settles_throw _

theorem compileOptional_settles (prepare : String → String) (text : Option String) :
    (compileOptional policy clause prepare text).Settles := by
  cases text with
  | none => exact settles_pure _
  | some text => exact (compileAt_settles policy _ _).bind fun _ => settles_pure _

theorem compileClause_settles (prepare : String → String) (texts : List (Option String)) :
    (compileClause policy clause prepare texts).Settles :=
  compileList_settles policy clause _

theorem ofQuery_settles (query : Query) (bindings : ColumnBindings) :
    (Plan.ofQuery policy query bindings).Settles := by
  refine (compileClause_settles policy _ _ _).bind fun _ => ?_
  refine (compileOptional_settles policy _ _ _).bind fun _ => ?_
  refine (compileOptional_settles policy _ _ _).bind fun _ => ?_
  refine (compileClause_settles policy _ _ _).bind fun _ => ?_
  exact (compileClause_settles policy _ _ _).bind fun _ => settles_pure _

/-! ### The shape of a plan -/

theorem length_compileEach {items : List (Nat × String)} {exprs : List Expr}
    (h : (compileEach policy clause items).Gives (.ok exprs)) : exprs.length = items.length := by
  induction items generalizing exprs with
  | nil =>
    obtain rfl := Except.ok.inj (h.unique (gives_pure _))
    rfl
  | cons item rest ih =>
    obtain ⟨expr, -, hnext⟩ := h.of_bind (compileAt_settles policy _ _)
      fun _ => (compileEach_settles policy clause rest).bind fun _ => settles_pure _
    obtain ⟨others, hothers, hlast⟩ :=
      hnext.of_bind (compileEach_settles policy clause rest) fun _ => settles_pure _
    obtain rfl := Except.ok.inj (hlast.unique (gives_pure _))
    simp [ih hothers]

theorem length_compileList {items : List (Nat × String)} {exprs : List Expr}
    (h : (compileList policy clause items).Gives (.ok exprs)) : exprs.length = items.length := by
  have heach := compileEach_settles policy clause items
  unfold compileList at h
  split at h
  · next hempty =>
    obtain rfl := Except.ok.inj (h.unique (gives_pure _))
    rw [List.isEmpty_iff.mp hempty]
    rfl
  · obtain ⟨result, -, hnext⟩ := h.of_bind (Expr.compileList_settles policy _).attempt
      fun result => by
        cases result with
        | ok exprs =>
          dsimp only
          split
          · exact settles_pure _
          · exact heach
        | error error => exact heach.bind fun _ => settles_throw _
    cases result with
    | ok compiled =>
      dsimp only at hnext
      split at hnext
      · next hlength =>
        obtain rfl := Except.ok.inj (hnext.unique (gives_pure _))
        exact hlength
      · exact length_compileEach policy clause hnext
    | error error =>
      obtain ⟨_, -, hthrow⟩ := hnext.of_bind heach fun _ => settles_throw _
      cases hthrow.unique (gives_throw _)

theorem length_numbered (position : Nat) (texts : List String) :
    (numbered position (texts.map some)).length = texts.length := by
  induction texts generalizing position with
  | nil => rfl
  | cons text rest ih => simp [numbered, ih]

/-- The parts of a plan come from compiling the clauses of its query. -/
theorem parts_of_ofQuery {query : Query} {bindings : ColumnBindings} {plan : Plan}
    (h : (Plan.ofQuery policy query bindings).Gives (.ok plan)) :
    ∃ items orders,
      (compileClause policy .select (bindings.prepare query.literals)
        (query.selection.items.map itemText?)).Gives (.ok items) ∧
      plan.items = fillItems query.selection.items items ∧
      (compileOptional policy .explode (bindings.prepare query.literals) query.explode).Gives
        (.ok plan.explode) ∧
      (compileClause policy .groupBy (bindings.prepare query.literals)
        (query.groupBy.map some)).Gives (.ok plan.groupBy) ∧
      plan.orderBy = fillKeys query.orderBy orders := by
  have hclause := compileClause_settles policy
  have hoptional := compileOptional_settles policy
  obtain ⟨items, hitems, h⟩ := h.of_bind (hclause _ _ _) fun _ => (hoptional _ _ _).bind fun _ =>
    (hoptional _ _ _).bind fun _ => (hclause _ _ _).bind fun _ => (hclause _ _ _).bind fun _ =>
      settles_pure _
  obtain ⟨target, htarget, h⟩ := h.of_bind (hoptional _ _ _) fun _ =>
    (hoptional _ _ _).bind fun _ => (hclause _ _ _).bind fun _ => (hclause _ _ _).bind fun _ =>
      settles_pure _
  obtain ⟨condition, -, h⟩ := h.of_bind (hoptional _ _ _) fun _ =>
    (hclause _ _ _).bind fun _ => (hclause _ _ _).bind fun _ => settles_pure _
  obtain ⟨keys, hkeys, h⟩ := h.of_bind (hclause _ _ _) fun _ => (hclause _ _ _).bind fun _ =>
    settles_pure _
  obtain ⟨orders, -, h⟩ := h.of_bind (hclause _ _ _) fun _ => settles_pure _
  obtain rfl := Except.ok.inj (h.unique (gives_pure _))
  exact ⟨items, orders, hitems, rfl, htarget, hkeys, rfl⟩

/-- The plan of a query that groups its rows and neither spreads nor orders them. -/
theorem shape_of_ofQuery {query : Query} {bindings : ColumnBindings} {plan : Plan}
    (hgroups : query.groups = true) (hexplode : query.explode = none)
    (horder : query.orderBy = []) (h : (Plan.ofQuery policy query bindings).Gives (.ok plan)) :
    plan.explode = none ∧ plan.groupBy ≠ [] ∧ plan.orderBy = [] := by
  obtain ⟨items, orders, -, -, htarget, hkeys, hplan⟩ := parts_of_ofQuery policy h
  refine ⟨?_, ?_, ?_⟩
  · rw [hexplode] at htarget
    exact Except.ok.inj (htarget.unique (gives_pure _))
  · have hlength := length_compileList policy _ hkeys
    rw [List.length_map, length_numbered] at hlength
    intro hnil
    rw [hnil] at hlength
    have hnone : query.groupBy = [] := List.length_eq_zero_iff.mp hlength.symm
    simp [Query.groups, hnone] at hgroups
  · rw [hplan, horder]
    rfl

end Plan

end StreamQuery
