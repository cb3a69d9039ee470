import StreamQuery.Proofs.Aggregate.Slots
import StreamQuery.Proofs.Computation

/-!
# Two evaluations of one expression

An expression is evaluated twice, on two rows or with two ways to carry out its aggregate calls. A
relation that composing computations keeps relates the two evaluations as soon as it relates what
the expression looks up and calls.
-/

namespace StreamQuery

open Stateful

/-- A relation of computations that composing them keeps. -/
structure Congruence (σ τ : Type) where
  relates : ∀ {α : Type}, Stateful σ α → Stateful τ α → Prop
  pure : ∀ {α : Type} (value : α), relates (Pure.pure value) (Pure.pure value)
  throw : ∀ {α : Type} (error : Error), relates (α := α) (MonadExcept.throw error)
    (MonadExcept.throw error)
  bind : ∀ {α β : Type} {left : Stateful σ α} {right : Stateful τ α}
    {leftNext : α → Stateful σ β} {rightNext : α → Stateful τ β}, relates left right →
    (∀ value, relates (leftNext value) (rightNext value)) →
    relates (left >>= leftNext) (right >>= rightNext)

namespace Congruence

variable {σ τ : Type} (relation : Congruence σ τ)

/-- Two scopes in which everything but names has the same meaning. -/
structure Alike (scope other : Scope) : Prop where
  values : scope.values = other.values
  modules : ∀ name, scope.session.module? name = other.session.module? name
  clock : scope.session.clock = other.session.clock
  warns : ∀ warning, relation.relates
    (ofReporting (raise scope.session.policy warning))
    (ofReporting (raise other.session.policy warning))

/-- The relation holds of what an expression itself looks up or calls. -/
def Admits (handler : AggregateHandler σ) (otherHandler : AggregateHandler τ)
    (scope other : Scope) (expr : Expr) : Prop :=
  (∀ name, expr = .variable name → scope.resolve name = other.resolve name) ∧
    ∀ name function arguments, expr.ownCall? = some name →
      Aggregate.ofName? name = some function →
      relation.relates (handler expr function arguments) (otherHandler expr function arguments)

theorem relates_ofResult {α : Type} (result : Except Error α) :
    relation.relates (Stateful.ofResult result) (Stateful.ofResult result) := by
  cases result with
  | ok value => exact relation.pure value
  | error error => exact relation.throw error

variable {handler : AggregateHandler σ} {otherHandler : AggregateHandler τ} {scope other : Scope}

theorem relates_ofNoted {relation} (alike : Alike relation scope other)
    (result : Except Error Noted) :
    relation.relates (Stateful.ofNoted (σ := σ) scope.session.policy result)
      (Stateful.ofNoted (σ := τ) other.session.policy result) := by
  refine relation.bind (relation.relates_ofResult result) fun noted => ?_
  cases noted.warning with
  | none => exact relation.pure _
  | some warning => exact relation.bind (alike.warns warning) fun _ => relation.pure _

theorem moduleOf?_eq (alike : Alike relation scope other) (expr : Expr) :
    scope.moduleOf? expr = other.moduleOf? expr := by
  cases expr <;> first | rfl | exact alike.modules _

theorem relates_callFunction (alike : Alike relation scope other) {call : Expr} {name : String}
    (hcall : call.ownCall? = some name)
    (admits : relation.Admits handler otherHandler scope other call) (arguments : List Value) :
    relation.relates (scope.callFunction handler call name arguments)
      (other.callFunction otherHandler call name arguments) := by
  unfold Scope.callFunction
  cases hfunction : Aggregate.ofName? name with
  | none => exact relates_ofNoted alike _
  | some function => exact admits.2 name function arguments hcall hfunction

/-! ### The forms of expressions -/

section Forms

variable {base left right otherBase otherLeft otherRight : Expr}

theorem relates_field {name : String} (hmodule : scope.moduleOf? base = other.moduleOf? otherBase)
    (hbase : relation.relates (scope.evaluateWith handler base)
      (other.evaluateWith otherHandler otherBase)) :
    relation.relates (scope.evaluateWith handler (.field base name))
      (other.evaluateWith otherHandler (.field otherBase name)) := by
  simp only [Scope.evaluateWith, hmodule]
  cases other.moduleOf? otherBase with
  | some module => exact relation.relates_ofResult _
  | none => exact relation.bind hbase fun _ => relation.relates_ofResult _

/-- Whether an operator evaluates its right operand depends on the value of the left one only. -/
theorem relates_binary (op : BinaryOp)
    (hleft : relation.relates (scope.evaluateWith handler left)
      (other.evaluateWith otherHandler otherLeft))
    (hright : relation.relates (scope.evaluateWith handler right)
      (other.evaluateWith otherHandler otherRight)) :
    relation.relates (scope.evaluateWith handler (.binary left op right))
      (other.evaluateWith otherHandler (.binary otherLeft op otherRight)) := by
  refine relation.bind hleft fun value => ?_
  cases op
  case conjunction =>
    dsimp only
    split
    · exact relation.pure _
    · exact relation.bind hright fun _ => relation.pure _
  case disjunction =>
    dsimp only
    split
    · exact relation.pure _
    · exact relation.bind hright fun _ => relation.pure _
  case coalesce =>
    dsimp only
    split
    · exact relation.pure _
    · exact hright
  all_goals exact relation.bind hright fun _ => relation.relates_ofResult _

theorem relates_method {name otherName : String} {arguments otherArguments : List Expr}
    (hmodule : scope.moduleOf? base = other.moduleOf? otherBase)
    (hbase : relation.relates (scope.evaluateWith handler base)
      (other.evaluateWith otherHandler otherBase))
    (harguments : relation.relates (scope.evaluateAll handler arguments)
      (other.evaluateAll otherHandler otherArguments))
    (hmember : ∀ module values, relation.relates
      (Stateful.ofResult (Module.call scope.session.clock module name values))
      (Stateful.ofResult (Module.call other.session.clock module otherName values)))
    (hcall : ∀ values, relation.relates
      (scope.callFunction handler (.method base name arguments) name values)
      (other.callFunction otherHandler (.method otherBase otherName otherArguments) otherName
        values)) :
    relation.relates (scope.evaluateWith handler (.method base name arguments))
      (other.evaluateWith otherHandler (.method otherBase otherName otherArguments)) := by
  simp only [Scope.evaluateWith, hmodule]
  cases other.moduleOf? otherBase with
  | some module => exact relation.bind harguments fun _ => hmember module _
  | none => exact relation.bind hbase fun _ => relation.bind harguments fun _ => hcall _

/-- The result of a branch that was chosen, or else of the default. -/
theorem relates_chosen {left : Stateful σ (Option Value)} {right : Stateful τ (Option Value)}
    {otherwise : Stateful σ Value} {otherDefault : Stateful τ Value}
    (hchosen : relation.relates left right) (hdefault : relation.relates otherwise otherDefault) :
    relation.relates
      (left >>= fun
        | some value => Pure.pure value
        | none => otherwise)
      (right >>= fun
        | some value => Pure.pure value
        | none => otherDefault) := by
  refine relation.bind hchosen fun chosen => ?_
  cases chosen with
  | some value => exact relation.pure value
  | none => exact hdefault

end Forms

open StreamQuery.Expr in
mutual

/-- Two evaluations of an expression are related as soon as what it looks up and calls is. -/
theorem relates_evaluateWith (alike : Alike relation scope other) : ∀ expr : Expr,
    (∀ part ∈ expr.subexpressions, relation.Admits handler otherHandler scope other part) →
    relation.relates (scope.evaluateWith handler expr) (other.evaluateWith otherHandler expr)
  | .literal value, _ => relation.pure value
  | .column index, _ => by
    simp only [Scope.evaluateWith, alike.values]
    exact relation.pure _
  | .variable name, admits => by
    have hname := (admits _ (by simp [subexpressions])).1 name rfl
    simp only [Scope.evaluateWith, hname]
    exact relation.relates_ofResult _
  | .field base name, admits => by
    simp only [subexpressions, List.forall_mem_cons] at admits
    exact relation.relates_field (relation.moduleOf?_eq alike base)
      (relates_evaluateWith alike base admits.2)
  | .item base index, admits => by
    simp only [subexpressions, List.forall_mem_cons, List.forall_mem_append] at admits
    obtain ⟨_, hbase, hindex⟩ := admits
    refine relation.bind (relates_evaluateWith alike base hbase) fun _ => ?_
    refine relation.bind (relates_evaluateWith alike index hindex) fun _ => ?_
    exact relation.relates_ofResult _
  | .slice base start stop, admits => by
    simp only [subexpressions, List.forall_mem_cons, List.forall_mem_append] at admits
    obtain ⟨_, ⟨hbase, hstart⟩, hstop⟩ := admits
    refine relation.bind (relates_evaluateWith alike base hbase) fun _ => ?_
    refine relation.bind (relates_evaluateOption alike start hstart) fun _ => ?_
    refine relation.bind (relates_evaluateOption alike stop hstop) fun _ => ?_
    exact relation.relates_ofResult _
  | .binary left op right, admits => by
    simp only [subexpressions, List.forall_mem_cons, List.forall_mem_append] at admits
    obtain ⟨_, hleft, hright⟩ := admits
    exact relation.relates_binary op (relates_evaluateWith alike left hleft)
      (relates_evaluateWith alike right hright)
  | .unary op operand, admits => by
    simp only [subexpressions, List.forall_mem_cons] at admits
    exact relation.bind (relates_evaluateWith alike operand admits.2) fun _ =>
      relation.relates_ofResult _
  | .isNull operand negated, admits => by
    simp only [subexpressions, List.forall_mem_cons] at admits
    exact relation.bind (relates_evaluateWith alike operand admits.2) fun _ => relation.pure _
  | .object entries, admits => by
    simp only [subexpressions, List.forall_mem_cons] at admits
    exact relation.bind (relates_evaluateEntries alike entries admits.2) fun _ => relation.pure _
  | .list items, admits => by
    simp only [subexpressions, List.forall_mem_cons] at admits
    exact relation.bind (relates_evaluateAll alike items admits.2) fun _ => relation.pure _
  | .call name arguments, admits => by
    simp only [subexpressions, List.forall_mem_cons] at admits
    exact relation.bind (relates_evaluateAll alike arguments admits.2) fun _ =>
      relation.relates_callFunction alike rfl admits.1 _
  | .method receiver name arguments, admits => by
    simp only [subexpressions, List.forall_mem_cons, List.forall_mem_append] at admits
    obtain ⟨hown, hreceiver, harguments⟩ := admits
    refine relation.relates_method (relation.moduleOf?_eq alike receiver)
      (relates_evaluateWith alike receiver hreceiver)
      (relates_evaluateAll alike arguments harguments) (fun module values => ?_) fun values => ?_
    · rw [alike.clock]
      exact relation.relates_ofResult _
    · exact relation.relates_callFunction alike rfl hown values
  | .ternary condition whenTrue whenFalse, admits => by
    simp only [subexpressions, List.forall_mem_cons, List.forall_mem_append] at admits
    obtain ⟨_, ⟨hcondition, htrue⟩, hfalse⟩ := admits
    refine relation.bind (relates_evaluateWith alike condition hcondition) fun value => ?_
    split
    · exact relates_evaluateWith alike whenTrue htrue
    · exact relates_evaluateWith alike whenFalse hfalse
  | .case none branches otherwise, admits => by
    simp only [subexpressions, List.forall_mem_cons, List.forall_mem_append] at admits
    obtain ⟨_, ⟨_, hbranches⟩, hotherwise⟩ := admits
    exact relation.relates_chosen (relates_evaluateBranches alike none branches hbranches)
      (relates_evaluateOption alike otherwise hotherwise)
  | .case (some operand) branches otherwise, admits => by
    simp only [subexpressions, optionSubexpressions, List.forall_mem_cons,
      List.forall_mem_append] at admits
    obtain ⟨_, ⟨hoperand, hbranches⟩, hotherwise⟩ := admits
    refine relation.bind (relates_evaluateWith alike operand hoperand) fun value => ?_
    exact relation.relates_chosen (relates_evaluateBranches alike (some value) branches hbranches)
      (relates_evaluateOption alike otherwise hotherwise)
termination_by structural expr => expr

theorem relates_evaluateOption (alike : Alike relation scope other) : ∀ expr : Option Expr,
    (∀ part ∈ optionSubexpressions expr,
      relation.Admits handler otherHandler scope other part) →
    relation.relates (scope.evaluateOption handler expr) (other.evaluateOption otherHandler expr)
  | none, _ => relation.pure _
  | some expr, admits => relates_evaluateWith alike expr admits
termination_by structural expr => expr

theorem relates_evaluateAll (alike : Alike relation scope other) : ∀ exprs : List Expr,
    (∀ part ∈ listSubexpressions exprs, relation.Admits handler otherHandler scope other part) →
    relation.relates (scope.evaluateAll handler exprs) (other.evaluateAll otherHandler exprs)
  | [], _ => relation.pure _
  | expr :: rest, admits => by
    simp only [listSubexpressions, List.forall_mem_append] at admits
    refine relation.bind (relates_evaluateWith alike expr admits.1) fun _ => ?_
    exact relation.bind (relates_evaluateAll alike rest admits.2) fun _ => relation.pure _
termination_by structural exprs => exprs

theorem relates_evaluateEntries (alike : Alike relation scope other) :
    ∀ entries : List (Expr × Expr),
    (∀ part ∈ pairSubexpressions entries,
      relation.Admits handler otherHandler scope other part) →
    relation.relates (scope.evaluateEntries handler entries)
      (other.evaluateEntries otherHandler entries)
  | [], _ => relation.pure _
  | (key, expr) :: rest, admits => by
    simp only [pairSubexpressions, List.forall_mem_append] at admits
    obtain ⟨⟨hkey, hexpr⟩, hrest⟩ := admits
    refine relation.bind (relates_evaluateWith alike key hkey) fun _ => ?_
    refine relation.bind (relates_evaluateWith alike expr hexpr) fun _ => ?_
    exact relation.bind (relates_evaluateEntries alike rest hrest) fun _ => relation.pure _
termination_by structural entries => entries

theorem relates_evaluateBranches (alike : Alike relation scope other) (operand : Option Value) :
    ∀ branches : List (Expr × Expr),
    (∀ part ∈ pairSubexpressions branches,
      relation.Admits handler otherHandler scope other part) →
    relation.relates (scope.evaluateBranches handler operand branches)
      (other.evaluateBranches otherHandler operand branches)
  | [], _ => relation.pure _
  | (condition, result) :: rest, admits => by
    simp only [pairSubexpressions, List.forall_mem_append] at admits
    obtain ⟨⟨hcondition, hresult⟩, hrest⟩ := admits
    refine relation.bind (relates_evaluateWith alike condition hcondition) fun value => ?_
    split
    · exact relation.bind (relates_evaluateWith alike result hresult) fun _ => relation.pure _
    · exact relates_evaluateBranches alike operand rest hrest
termination_by structural branches => branches

end

end Congruence

/-! ### Succeeding alike -/

namespace Stateful

variable {σ τ α β : Type} {related : σ → τ → Prop}

/-- From related states two computations succeed with the same value and leave related states, or
both fail. -/
def Agree (related : σ → τ → Prop) (left : Stateful σ α) (right : Stateful τ α) : Prop :=
  ∀ state other, related state other →
    (∃ value after otherAfter, left.Gives state (.ok value) after ∧
      right.Gives other (.ok value) otherAfter ∧ related after otherAfter) ∨
    ∃ error otherError after otherAfter, left.Gives state (.error error) after ∧
      right.Gives other (.error otherError) otherAfter

theorem agree_pure (value : α) :
    Agree related (pure value : Stateful σ α) (pure value : Stateful τ α) :=
  fun state other h => .inl ⟨value, state, other, gives_pure _ _, gives_pure _ _, h⟩

theorem agree_throw (error otherError : Error) :
    Agree related (throw error : Stateful σ α) (throw otherError : Stateful τ α) :=
  fun state other _ =>
    .inr ⟨error, otherError, state, other, gives_throw _ _, gives_throw _ _⟩

theorem agree_modify {change : σ → σ} {otherChange : τ → τ}
    (h : ∀ state other, related state other → related (change state) (otherChange other)) :
    Agree related (modify change : Stateful σ PUnit) (modify otherChange : Stateful τ PUnit) :=
  fun state other hrelated => .inl ⟨⟨⟩, change state, otherChange other, gives_modify _ _,
    gives_modify _ _, h state other hrelated⟩

theorem Agree.bind {left : Stateful σ α} {right : Stateful τ α} {leftNext : α → Stateful σ β}
    {rightNext : α → Stateful τ β} (hfirst : Agree related left right)
    (hnext : ∀ value, Agree related (leftNext value) (rightNext value)) :
    Agree related (left >>= leftNext) (right >>= rightNext) := by
  intro state other h
  rcases hfirst state other h with ⟨value, middle, otherMiddle, hleft, hright, hmiddle⟩ | failed
  · rcases hnext value middle otherMiddle hmiddle with
      ⟨result, after, otherAfter, hleft', hright', hafter⟩ | failed
    · exact .inl ⟨result, after, otherAfter, hleft.bind hleft', hright.bind hright', hafter⟩
    · obtain ⟨error, otherError, after, otherAfter, hleft', hright'⟩ := failed
      exact .inr ⟨error, otherError, after, otherAfter, hleft.bind hleft', hright.bind hright'⟩
  · obtain ⟨error, otherError, after, otherAfter, hleft, hright⟩ := failed
    exact .inr ⟨error, otherError, after, otherAfter, hleft.bind_error, hright.bind_error⟩

theorem Agree.mapError {left : Stateful σ α} {right : Stateful τ α}
    (h : Agree related left right) (change otherChange : Error → Error) :
    Agree related (left.mapError change) (right.mapError otherChange) := by
  intro state other hrelated
  rcases h state other hrelated with ⟨value, after, otherAfter, hleft, hright, hafter⟩ | failed
  · exact .inl ⟨value, after, otherAfter, hleft.mapError _, hright.mapError _, hafter⟩
  · obtain ⟨error, otherError, after, otherAfter, hleft, hright⟩ := failed
    exact .inr ⟨_, _, after, otherAfter, hleft.mapError _, hright.mapError _⟩

theorem agree_ofReporting {computation : Reporting α} (h : computation.Settles) :
    Agree related (ofReporting computation : Stateful σ α)
      (ofReporting computation : Stateful τ α) := by
  intro state other hrelated
  obtain ⟨result, h⟩ := h
  cases result with
  | ok value =>
      exact .inl ⟨value, state, other, gives_ofReporting h _, gives_ofReporting h _, hrelated⟩
  | error error =>
      exact .inr ⟨error, error, state, other, gives_ofReporting h _, gives_ofReporting h _⟩

/-- A computation that agrees with itself has one result. -/
theorem Agree.settles {computation : Stateful σ α} (h : Agree Eq computation computation) :
    computation.Settles := by
  intro state
  rcases h state state rfl with ⟨_, after, _, h, _⟩ | ⟨_, _, after, _, h, _⟩
  · exact ⟨_, after, h⟩
  · exact ⟨_, after, h⟩

end Stateful

/-- Succeeding alike is kept by composition. -/
def Congruence.succeeding {σ τ : Type} (related : σ → τ → Prop) : Congruence σ τ where
  relates := Agree related
  pure := agree_pure
  throw error := agree_throw error error
  bind := Agree.bind

namespace Scope

theorem gives_ofAggregate (function : Aggregate) (arguments : List Value) (table : Aggregates) :
    (Evaluating.ofAggregate function arguments).Gives table (table.call function arguments).1
      (table.call function arguments).2 :=
  ⟨[], fun _ => rfl⟩

theorem gives_column (scope : Scope) (index : Nat) (table : Aggregates) :
    (scope.evaluate (.column index)).Gives table (.ok ((scope.values[index]?).getD .null)) table :=
  gives_pure _ _

/-- A count of a value that calls no aggregates itself. -/
theorem gives_count (scope : Scope) {argument : Expr} {value : Value} {table : Aggregates}
    (h : (scope.evaluate argument).Gives table (.ok value) table) :
    (scope.evaluate (.call "count_agg" [argument])).Gives table (.ok (table.countWith value))
      (table.store (.running (table.countWith value))) := by
  have hname : Aggregate.ofName? "count_agg" = some .count := by decide
  have hcall : scope.callFunction (fun _ => Evaluating.ofAggregate)
      (.call "count_agg" [argument]) "count_agg" [value] =
        Evaluating.ofAggregate .count [value] := by
    simp only [callFunction, hname]
  have hvalues : (scope.evaluateAll (fun _ => Evaluating.ofAggregate) [argument]).Gives table
      (.ok [value]) table := h.bind ((gives_pure _ _).bind (gives_pure _ _))
  have hcount := gives_ofAggregate .count [value] table
  rw [← hcall, Aggregates.call_count] at hcount
  exact hvalues.bind hcount

/-- Scopes that differ in nothing but names of columns and numbers of rows are alike. -/
theorem alike_succeeding {σ τ : Type} {related : σ → τ → Prop} {scope other : Scope}
    (hsession : scope.session = other.session) (hvalues : scope.values = other.values) :
    (Congruence.succeeding related).Alike scope other where
  values := hvalues
  modules name := by rw [hsession]
  clock := by rw [hsession]
  warns warning := by
    rw [hsession]
    exact agree_ofReporting (Reporting.settles_raise _ _)

theorem agree_ofAggregate {related : Aggregates → Aggregates → Prop} {function : Aggregate}
    {arguments : List Value}
    (h : ∀ table other, related table other →
      (table.call function arguments).1 = (other.call function arguments).1 ∧
        related (table.call function arguments).2 (other.call function arguments).2) :
    Agree related (Evaluating.ofAggregate function arguments)
      (Evaluating.ofAggregate function arguments) := by
  intro table other hrelated
  obtain ⟨hresult, hafter⟩ := h table other hrelated
  have hleft := gives_ofAggregate function arguments table
  have hright := gives_ofAggregate function arguments other
  rw [← hresult] at hright
  cases hcall : (table.call function arguments).1 with
  | ok value =>
      rw [hcall] at hleft hright
      exact .inl ⟨value, _, _, hleft, hright, hafter⟩
  | error error =>
      rw [hcall] at hleft hright
      exact .inr ⟨error, error, _, _, hleft, hright⟩

theorem agree_evaluate_self (scope : Scope) (expr : Expr) :
    Agree Eq (scope.evaluate expr) (scope.evaluate expr) := by
  refine (Congruence.succeeding Eq).relates_evaluateWith (alike_succeeding rfl rfl) expr
    fun part _ => ?_
  exact ⟨fun _ _ => rfl, fun _ _ _ _ _ => agree_ofAggregate fun _ _ h => h ▸ ⟨rfl, rfl⟩⟩

theorem evaluate_settles (scope : Scope) (expr : Expr) : (scope.evaluate expr).Settles :=
  Agree.settles (scope.agree_evaluate_self expr)

end Scope

/-! ### Evaluation without aggregate calls -/

/-- A computation that leaves every state as it is if it succeeds. -/
def Stateful.Quiet {σ α : Type} (computation : Stateful σ α) : Prop :=
  ∀ state, (∃ value, computation.Gives state (.ok value) state) ∨
    ∃ error after, computation.Gives state (.error error) after

theorem Stateful.quiet_of_agree {σ α : Type} {computation : Stateful σ α}
    (h : ∀ state, Agree (fun first second => first = state ∧ second = state) computation
      computation) : computation.Quiet := by
  intro state
  rcases h state state state ⟨rfl, rfl⟩ with ⟨value, after, _, hgives, _, rfl, _⟩ | failed
  · exact .inl ⟨value, hgives⟩
  · obtain ⟨error, _, after, _, hgives, _⟩ := failed
    exact .inr ⟨error, after, hgives⟩

namespace Expr

/-- An expression is no call of an aggregate itself. -/
def NoAggregateCall (expr : Expr) : Prop :=
  ∀ name, expr.ownCall? = some name → Aggregate.isName name = false

/-- No function that is called at any depth is an aggregate. -/
def CallsNoAggregate (expr : Expr) : Prop :=
  ∀ name ∈ expr.calledFunctions, Aggregate.isName name = false

theorem callsNoAggregate_iff {expr : Expr} :
    expr.CallsNoAggregate ↔ ∀ part ∈ expr.subexpressions, part.NoAggregateCall := by
  simp only [CallsNoAggregate, NoAggregateCall, calledFunctions, List.mem_filterMap]
  exact ⟨fun h part hpart name hname => h name ⟨part, hpart, hname⟩,
    fun h name ⟨part, hpart, hname⟩ => h part hpart name hname⟩

end Expr

namespace Scope

variable {σ : Type} (handler : AggregateHandler σ) (scope : Scope)

theorem admits_of_noAggregateCall {related : σ → σ → Prop} {part : Expr}
    (h : part.NoAggregateCall) :
    (Congruence.succeeding related).Admits handler handler scope scope part := by
  refine ⟨fun _ _ => rfl, fun name function arguments hcall hfunction => ?_⟩
  have hname := h name hcall
  rw [Aggregate.isName, hfunction] at hname
  cases hname

/-- An evaluation that calls no aggregates leaves the state alone, whoever would carry them
out. -/
theorem quiet_evaluateWith {expr : Expr} (h : expr.CallsNoAggregate) :
    (scope.evaluateWith handler expr).Quiet :=
  quiet_of_agree fun _ => (Congruence.succeeding _).relates_evaluateWith (alike_succeeding rfl rfl)
    expr fun part hpart =>
      admits_of_noAggregateCall handler scope (Expr.callsNoAggregate_iff.mp h part hpart)

end Scope

end StreamQuery
