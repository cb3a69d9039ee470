import StreamQuery.Proofs.Execution.Row

/-!
# The number of a row in its expressions

Every evaluation of `row_number` on a row gives one number: an expression has the meaning that it has
with this number written in the place of the word, whatever number the row has then. A module that is
imported under the name keeps it where its constants and functions are asked for.
-/

namespace StreamQuery

namespace Expr

/-- Whether an expression is the number of the row, or a module of that name. -/
def isRowNumber : Expr → Bool
  | .variable name => name == "row_number"
  | _ => false

mutual

/-- An expression with a number in the place of `row_number`. Where the name stands for a module it
stays in front of a constant or a function of the module. -/
def atRow (aliased : Bool) (number : Nat) : Expr → Expr
  | .literal value => .literal value
  | .variable name => if name == "row_number" then .literal (.ofNat number) else .variable name
  | .column index => .column index
  | .field base name =>
    .field (if aliased && base.isRowNumber then base else atRow aliased number base) name
  | .item base index => .item (atRow aliased number base) (atRow aliased number index)
  | .slice base start stop =>
    .slice (atRow aliased number base) (atRowOption aliased number start)
      (atRowOption aliased number stop)
  | .binary left op right => .binary (atRow aliased number left) op (atRow aliased number right)
  | .unary op operand => .unary op (atRow aliased number operand)
  | .isNull operand negated => .isNull (atRow aliased number operand) negated
  | .object entries => .object (atRowPairs aliased number entries)
  | .list items => .list (atRowAll aliased number items)
  | .call name arguments => .call name (atRowAll aliased number arguments)
  | .method receiver name arguments =>
    .method (if aliased && receiver.isRowNumber then receiver else atRow aliased number receiver) name
      (atRowAll aliased number arguments)
  | .ternary condition whenTrue whenFalse =>
    .ternary (atRow aliased number condition) (atRow aliased number whenTrue)
      (atRow aliased number whenFalse)
  | .case operand branches otherwise =>
    .case (atRowOption aliased number operand) (atRowPairs aliased number branches)
      (atRowOption aliased number otherwise)
termination_by structural expr => expr

/-- An expression that may be absent, with a number in the place of `row_number`. -/
def atRowOption (aliased : Bool) (number : Nat) : Option Expr → Option Expr
  | none => none
  | some expr => some (atRow aliased number expr)
termination_by structural expr => expr

/-- Expressions with a number in the place of `row_number`. -/
def atRowAll (aliased : Bool) (number : Nat) : List Expr → List Expr
  | [] => []
  | expr :: rest => atRow aliased number expr :: atRowAll aliased number rest
termination_by structural exprs => exprs

/-- Pairs of expressions with a number in the place of `row_number`. -/
def atRowPairs (aliased : Bool) (number : Nat) : List (Expr × Expr) → List (Expr × Expr)
  | [] => []
  | (first, second) :: rest =>
    (atRow aliased number first, atRow aliased number second) :: atRowPairs aliased number rest
termination_by structural pairs => pairs

end

end Expr

/-- Whether a module is imported under the name `row_number`. -/
def Session.aliasesRowNumber (session : Session) : Bool :=
  (session.module? "row_number").isSome

namespace Scope

/-- The scope of a row with a number. -/
def numbered (number : Nat) (scope : Scope) : Scope :=
  { scope with rowNumber := number }

theorem resolve_numbered {name : String} (h : name ≠ "row_number") (number : Nat) (scope : Scope) :
    (scope.numbered number).resolve name = scope.resolve name := by
  unfold resolve numbered
  split
  case h_5 => exact absurd rfl h
  all_goals simp only

variable {number : Nat} {scope : Scope}

open StreamQuery.Expr

/-- The name of the number is put in front of a constant or a function of a module only. -/
theorem isRowNumber_cases (scope : Scope) (base : Expr) :
    (base = .variable "row_number" ∧ scope.session.aliasesRowNumber = true ∧
        ∃ module, scope.moduleOf? base = some module) ∨
      (base = .variable "row_number" ∧ scope.session.aliasesRowNumber = false ∧
        scope.moduleOf? base = none) ∨ base.isRowNumber = false := by
  cases base with
  | «variable» name =>
    by_cases hname : name = "row_number"
    · subst hname
      cases hmodule : scope.session.module? "row_number" with
      | none => exact .inr (.inl ⟨rfl, by simp [Session.aliasesRowNumber, hmodule], hmodule⟩)
      | some module =>
        exact .inl ⟨rfl, by simp [Session.aliasesRowNumber, hmodule], module, hmodule⟩
    · exact .inr (.inr (by simpa [isRowNumber] using hname))
  | _ => exact .inr (.inr rfl)

/-- What stands in front of a constant or a function names the same module with the number in its
place, and no module only if the number is in its place. -/
theorem moduleOf?_atRow (scope : Scope) (other number : Nat) (base : Expr) :
    let aliased := scope.session.aliasesRowNumber
    let base' := if aliased && base.isRowNumber then base else base.atRow aliased number
    (scope.numbered other).moduleOf? base' = scope.moduleOf? base ∧
      (scope.moduleOf? base = none → base' = base.atRow aliased number) := by
  intro aliased base'
  rcases scope.isRowNumber_cases base with ⟨rfl, haliased, module, hmodule⟩ |
    ⟨rfl, haliased, hmodule⟩ | hbase
  · have hbase' : base' = .variable "row_number" := by simp [base', aliased, haliased, isRowNumber]
    rw [hbase']
    exact ⟨rfl, fun h => by rw [h] at hmodule; cases hmodule⟩
  · have hbase' : base' = (Expr.variable "row_number").atRow aliased number := by
      simp [base', aliased, haliased]
    rw [hbase']
    exact ⟨hmodule.symm, fun _ => rfl⟩
  · have hbase' : base' = base.atRow aliased number := by simp [base', hbase]
    refine ⟨?_, fun _ => hbase'⟩
    rw [hbase']
    cases base with
    | «variable» name =>
      have hname : (name == "row_number") = false := hbase
      rw [atRow, hname]
      rfl
    | _ => rfl

variable {σ : Type} (handler : Aggregate → List Value → Stateful σ Value) (scope : Scope) (other : Nat)

mutual

/-- An expression evaluates on a row as it does with the number of the row in the place of
`row_number`, whatever number the row has then. -/
theorem evaluateWith_atRow : ∀ expr : Expr,
    (scope.numbered other).evaluateWith (fun _ => handler)
        (expr.atRow scope.session.aliasesRowNumber scope.rowNumber) =
      scope.evaluateWith (fun _ => handler) expr
  | .literal value => rfl
  | .column index => rfl
  | .variable name => by
    by_cases hname : name = "row_number"
    · subst hname
      rfl
    · simp only [atRow, beq_iff_eq, if_neg hname, evaluateWith, resolve_numbered hname]
  | .field base name => by
    obtain ⟨hmodule, hbase⟩ := scope.moduleOf?_atRow other scope.rowNumber base
    simp only [atRow, evaluateWith, hmodule]
    cases hnone : scope.moduleOf? base with
    | some module => rfl
    | none => simp only [hbase hnone, evaluateWith_atRow base]
  | .item base index => by
    simp only [atRow, evaluateWith, evaluateWith_atRow base, evaluateWith_atRow index]
  | .slice base start stop => by
    simp only [atRow, evaluateWith, evaluateWith_atRow base, evaluateOption_atRow start,
      evaluateOption_atRow stop]
  | .binary left op right => by
    simp only [atRow, evaluateWith, evaluateWith_atRow left, evaluateWith_atRow right]
  | .unary op operand => by simp only [atRow, evaluateWith, evaluateWith_atRow operand]
  | .isNull operand negated => by simp only [atRow, evaluateWith, evaluateWith_atRow operand]
  | .object entries => by simp only [atRow, evaluateWith, evaluateEntries_atRow entries]
  | .list items => by simp only [atRow, evaluateWith, evaluateAll_atRow items]
  | .call name arguments => by
    simp only [atRow, evaluateWith, evaluateAll_atRow arguments]
    rfl
  | .method receiver name arguments => by
    obtain ⟨hmodule, hreceiver⟩ := scope.moduleOf?_atRow other scope.rowNumber receiver
    simp only [atRow, evaluateWith, hmodule, evaluateAll_atRow arguments]
    cases hnone : scope.moduleOf? receiver with
    | some module => rfl
    | none =>
      simp only [hreceiver hnone, evaluateWith_atRow receiver]
      rfl
  | .ternary condition whenTrue whenFalse => by
    simp only [atRow, evaluateWith, evaluateWith_atRow condition, evaluateWith_atRow whenTrue,
      evaluateWith_atRow whenFalse]
  | .case none branches otherwise => by
    simp only [atRow, atRowOption, evaluateWith, evaluateBranches_atRow none branches,
      evaluateOption_atRow otherwise]
  | .case (some operand) branches otherwise => by
    have hbranches := fun value => evaluateBranches_atRow (some value) branches
    simp only [atRow, atRowOption, evaluateWith, evaluateWith_atRow operand, hbranches,
      evaluateOption_atRow otherwise]
termination_by structural expr => expr

theorem evaluateOption_atRow : ∀ expr : Option Expr,
    (scope.numbered other).evaluateOption (fun _ => handler)
        (atRowOption scope.session.aliasesRowNumber scope.rowNumber expr) =
      scope.evaluateOption (fun _ => handler) expr
  | none => rfl
  | some expr => evaluateWith_atRow expr
termination_by structural expr => expr

theorem evaluateAll_atRow : ∀ exprs : List Expr,
    (scope.numbered other).evaluateAll (fun _ => handler)
        (atRowAll scope.session.aliasesRowNumber scope.rowNumber exprs) =
      scope.evaluateAll (fun _ => handler) exprs
  | [] => rfl
  | expr :: rest => by
    simp only [atRowAll, evaluateAll, evaluateWith_atRow expr, evaluateAll_atRow rest]
termination_by structural exprs => exprs

theorem evaluateEntries_atRow : ∀ entries : List (Expr × Expr),
    (scope.numbered other).evaluateEntries (fun _ => handler)
        (atRowPairs scope.session.aliasesRowNumber scope.rowNumber entries) =
      scope.evaluateEntries (fun _ => handler) entries
  | [] => rfl
  | (key, expr) :: rest => by
    simp only [atRowPairs, evaluateEntries, evaluateWith_atRow key, evaluateWith_atRow expr,
      evaluateEntries_atRow rest]
termination_by structural entries => entries

theorem evaluateBranches_atRow (operand : Option Value) : ∀ branches : List (Expr × Expr),
    (scope.numbered other).evaluateBranches (fun _ => handler) operand
        (atRowPairs scope.session.aliasesRowNumber scope.rowNumber branches) =
      scope.evaluateBranches (fun _ => handler) operand branches
  | [] => rfl
  | (condition, result) :: rest => by
    simp only [atRowPairs, evaluateBranches, evaluateWith_atRow condition, evaluateWith_atRow result,
      evaluateBranches_atRow operand rest]
termination_by structural branches => branches

end

theorem evaluateAt_atRow (location : Location) (expr : Expr) :
    (scope.numbered other).evaluateAt location
        (expr.atRow scope.session.aliasesRowNumber scope.rowNumber) =
      scope.evaluateAt location expr := by
  have hexpr := evaluateWith_atRow Evaluating.ofAggregate scope other expr
  change (scope.numbered other).evaluate _ = scope.evaluate _ at hexpr
  rw [evaluateAt, evaluateAt, hexpr]
  rfl

end Scope

/-! ### Plans -/

/-- An item of `SELECT` with a number in the place of `row_number`. -/
def PlanItem.atRow (aliased : Bool) (number : Nat) : PlanItem → PlanItem
  | .star => .star
  | .expression expr => .expression (expr.atRow aliased number)

/-- A key of `ORDER BY` with a number in the place of `row_number`. -/
def PlanKey.atRow (aliased : Bool) (number : Nat) : PlanKey → PlanKey
  | .outputColumn index => .outputColumn index
  | .expression expr => .expression (expr.atRow aliased number)

namespace Plan

/-- A plan with numbers in the place of `row_number`: one in the condition, and one in the grouping
expressions, the items and the keys. -/
def atRow (aliased : Bool) (inCondition inRow : Nat) (plan : Plan) : Plan where
  items := plan.items.map (PlanItem.atRow aliased inRow)
  explode := plan.explode
  condition := plan.condition.map (Expr.atRow aliased inCondition)
  groupBy := plan.groupBy.map (Expr.atRow aliased inRow)
  orderBy := plan.orderBy.map (PlanKey.atRow aliased inRow)

variable (plan : Plan) (scope : Scope) (other : Nat)

theorem keeps_atRow (inRow : Nat) :
    (plan.atRow scope.session.aliasesRowNumber scope.rowNumber inRow).keeps (scope.numbered other) =
      plan.keeps scope := by
  unfold keeps
  cases hcondition : plan.condition with
  | none => simp only [atRow, hcondition, Option.map_none]
  | some condition =>
    simp only [atRow, hcondition, Option.map_some, Scope.evaluateAt_atRow]

theorem evaluateEach_atRow (clause : Clause) (exprs : List Expr) (position : Nat) :
    (scope.numbered other).evaluateEach clause position
        (exprs.map (Expr.atRow scope.session.aliasesRowNumber scope.rowNumber)) =
      scope.evaluateEach clause position exprs := by
  induction exprs generalizing position with
  | nil => rfl
  | cons expr rest ih =>
    simp only [List.map_cons, Scope.evaluateEach, Scope.evaluateAt_atRow, ih]

theorem startGroup_atRow (inCondition : Nat) :
    (plan.atRow scope.session.aliasesRowNumber inCondition scope.rowNumber).startGroup
        (scope.numbered other) = plan.startGroup scope := by
  simp only [startGroup, atRow, List.isEmpty_map, evaluateEach_atRow]

theorem project_atRow (items : List PlanItem) (position : Nat) :
    project (scope.numbered other) position
        (items.map (PlanItem.atRow scope.session.aliasesRowNumber scope.rowNumber)) =
      project scope position items := by
  induction items generalizing position with
  | nil => rfl
  | cons item rest ih =>
    cases item with
    | star =>
      simp only [List.map_cons, PlanItem.atRow, project, ih]
      rfl
    | expression expr =>
      simp only [List.map_cons, PlanItem.atRow, project, Scope.evaluateAt_atRow, ih]

theorem sortKeys_atRow (projected : List Value) (keys : List PlanKey) (position : Nat) :
    sortKeys (scope.numbered other) projected position
        (keys.map (PlanKey.atRow scope.session.aliasesRowNumber scope.rowNumber)) =
      sortKeys scope projected position keys := by
  induction keys generalizing position with
  | nil => rfl
  | cons key rest ih =>
    cases key with
    | outputColumn index =>
      simp only [List.map_cons, PlanKey.atRow, sortKeys, ih]
      rfl
    | expression expr =>
      simp only [List.map_cons, PlanKey.atRow, sortKeys, Scope.evaluateAt_atRow, ih]

theorem record_atRow (inCondition : Nat) :
    (plan.atRow scope.session.aliasesRowNumber inCondition scope.rowNumber).record
        (scope.numbered other) = plan.record scope := by
  rw [record, record, startGroup_atRow]
  simp only [atRow, project_atRow, sortKeys_atRow]

end Plan

/-! ### Expressions without the number -/

/-- One computation. -/
def Congruence.same (σ : Type) : Congruence σ σ where
  relates := Eq
  pure _ := rfl
  throw _ := rfl
  bind hfirst hnext := by rw [hfirst, funext hnext]

theorem Scope.alike_numbered (scope : Scope) (other : Nat) :
    (Congruence.same Aggregates).Alike (scope.numbered other) scope where
  values := rfl
  modules _ := rfl
  clock := rfl
  warns _ := rfl

/-- An expression without `row_number` does not depend on the number. -/
theorem Scope.evaluateAt_numbered (scope : Scope) (other : Nat) (location : Location) {expr : Expr}
    (h : .variable "row_number" ∉ expr.subexpressions) :
    (scope.numbered other).evaluateAt location expr = scope.evaluateAt location expr := by
  have hexpr : (scope.numbered other).evaluate expr = scope.evaluate expr := by
    refine (Congruence.same Aggregates).relates_evaluateWith (scope.alike_numbered other) expr
      fun part hpart => ⟨?_, fun _ _ _ _ _ => rfl⟩
    rintro name rfl
    exact resolve_numbered (fun heq => h (heq ▸ hpart)) other scope
  rw [evaluateAt, evaluateAt, hexpr]
  rfl

theorem Plan.keeps_numbered (plan : Plan) (scope : Scope) (other : Nat)
    (h : ∀ condition ∈ plan.condition, .variable "row_number" ∉ condition.subexpressions) :
    plan.keeps (scope.numbered other) = plan.keeps scope :=
  (Congruence.same Aggregates).relates_keeps fun condition hcondition location =>
    scope.evaluateAt_numbered other location (h condition hcondition)

end StreamQuery
