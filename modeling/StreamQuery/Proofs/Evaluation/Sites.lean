import StreamQuery.Proofs.Evaluation.Relation

/-!
# Sites of aggregate calls

When no part of an expression that is evaluated for some rows only calls an aggregate, all its
evaluations make the aggregate calls of the same sites in the same order. A property of computations
that goes with the sites of their calls, and that composing computations keeps, then holds of its
evaluations on all rows.
-/

namespace StreamQuery

open Stateful

namespace Expr

/-- The parts of an expression that it evaluates for some rows only call no aggregates. -/
def BranchesCallNone (expr : Expr) : Prop :=
  ∀ branch ∈ expr.ownBranches, branch.CallsNoAggregate

theorem conditionalAggregates_eq_nil_iff {expr : Expr} :
    expr.conditionalAggregates = [] ↔ ∀ part ∈ expr.subexpressions, part.BranchesCallNone := by
  simp only [conditionalAggregates, conditionalBranches, List.filterMap_eq_nil_iff,
    List.find?_eq_none, List.mem_flatMap, Bool.not_eq_true, BranchesCallNone, CallsNoAggregate]
  constructor
  · intro h part hpart branch hbranch
    exact h branch ⟨part, hpart, hbranch⟩
  · rintro h branch ⟨part, hpart, hbranch⟩
    exact h part hpart branch hbranch

theorem mem_listSubexpressions {part : Expr} {exprs : List Expr} :
    part ∈ listSubexpressions exprs ↔ ∃ expr ∈ exprs, part ∈ expr.subexpressions := by
  induction exprs with
  | nil => simp [listSubexpressions]
  | cons expr rest ih => simp [listSubexpressions, ih]

theorem mem_pairSubexpressions {part : Expr} {branches : List (Expr × Expr)} :
    part ∈ pairSubexpressions branches ↔
      ∃ branch ∈ laterBranches branches, part ∈ branch.subexpressions := by
  induction branches with
  | nil => simp [pairSubexpressions, laterBranches]
  | cons branch rest ih => simp [pairSubexpressions, laterBranches, ih]

end Expr

/-- A scope in which names stand for certain modules. -/
def Scope.Binds (scope : Scope) (modules : String → Option String) : Prop :=
  ∀ name, scope.session.module? name = modules name

theorem Scope.Binds.exists_moduleOf? (modules : String → Option String) (expr : Expr) :
    ∃ module, ∀ scope : Scope, scope.Binds modules → scope.moduleOf? expr = module := by
  rcases expr with _ | name
  case «variable» => exact ⟨modules name, fun _ binds => binds name⟩
  all_goals exact ⟨none, fun _ _ => rfl⟩

/-- Properties of computations that go with the sites of their aggregate calls: composing
computations keeps them, and puts the sites of the first computation before those of the next. -/
structure Sited {σ : Type} (handler : AggregateHandler σ) where
  holds : ∀ {α : Type}, List Expr → Stateful σ α → Prop
  pure : ∀ {α : Type} (value : α), holds [] (Pure.pure value)
  throw : ∀ {α : Type} (error : Error), holds (α := α) [] (MonadExcept.throw error)
  bind : ∀ {α β : Type} {sites later : List Expr} {computation : Stateful σ α}
    {next : α → Stateful σ β}, holds sites computation → (∀ value, holds later (next value)) →
    holds (sites ++ later) (computation >>= next)
  warns : ∀ policy warning, holds [] (ofReporting (raise policy warning))
  calls : ∀ call function arguments, holds [call] (handler call function arguments)

namespace Sited

variable {σ : Type} {handler : AggregateHandler σ} (sited : Sited handler)

/-- Going on without calls makes no further calls. -/
theorem bind_nil {α β : Type} {sites : List Expr} {computation : Stateful σ α}
    {next : α → Stateful σ β} (hfirst : sited.holds sites computation)
    (hnext : ∀ value, sited.holds [] (next value)) : sited.holds sites (computation >>= next) := by
  simpa only [List.append_nil] using sited.bind hfirst hnext

theorem ofResult {α : Type} (result : Except Error α) :
    sited.holds [] (Stateful.ofResult result) := by
  cases result with
  | ok value => exact sited.pure value
  | error error => exact sited.throw error

/-! ### Evaluation without calls -/

/-- What is kept by computations that make no calls. -/
def uncalled : Congruence σ σ where
  relates left _ := sited.holds [] left
  pure := sited.pure
  throw := sited.throw
  bind hfirst hnext := sited.bind_nil hfirst hnext

theorem alike_uncalled (scope : Scope) : sited.uncalled.Alike scope scope where
  values := rfl
  modules _ := rfl
  clock := rfl
  warns := sited.warns scope.session.policy

theorem admits_uncalled (scope : Scope) {part : Expr} (h : part.NoAggregateCall) :
    sited.uncalled.Admits handler handler scope scope part := by
  refine ⟨fun _ _ => rfl, fun name function arguments hcall hfunction => ?_⟩
  have hname := h name hcall
  rw [Aggregate.isName, hfunction] at hname
  cases hname

theorem holds_evaluateWith_nil (scope : Scope) {expr : Expr} (h : expr.CallsNoAggregate) :
    sited.holds [] (scope.evaluateWith handler expr) :=
  sited.uncalled.relates_evaluateWith (sited.alike_uncalled scope) expr fun part hpart =>
    sited.admits_uncalled scope (Expr.callsNoAggregate_iff.mp h part hpart)

theorem holds_evaluateOption_nil (scope : Scope) {expr : Option Expr}
    (h : ∀ given ∈ expr, given.CallsNoAggregate) :
    sited.holds [] (scope.evaluateOption handler expr) := by
  cases expr with
  | none => exact sited.pure _
  | some expr => exact sited.holds_evaluateWith_nil scope (h expr rfl)

theorem holds_evaluateBranches_nil (scope : Scope) {branches : List (Expr × Expr)}
    (h : ∀ branch ∈ Expr.laterBranches branches, branch.CallsNoAggregate)
    (operand : Option Value) :
    sited.holds [] (scope.evaluateBranches handler operand branches) := by
  have hparts : ∀ part ∈ Expr.pairSubexpressions branches,
      sited.uncalled.Admits handler handler scope scope part := fun part hpart => by
    obtain ⟨branch, hbranch, hpart⟩ := Expr.mem_pairSubexpressions.mp hpart
    exact sited.admits_uncalled scope (Expr.callsNoAggregate_iff.mp (h branch hbranch) part hpart)
  exact sited.uncalled.relates_evaluateBranches (sited.alike_uncalled scope) operand branches hparts

/-! ### Evaluation -/

theorem exists_holds_callFunction (call : Expr) (name : String) :
    ∃ sites, ∀ (scope : Scope) (arguments : List Value),
      sited.holds sites (scope.callFunction handler call name arguments) := by
  unfold Scope.callFunction
  cases Aggregate.ofName? name with
  | some function => exact ⟨[call], fun scope arguments => sited.calls call function _⟩
  | none =>
    refine ⟨[], fun scope arguments => sited.bind_nil (sited.ofResult _) fun noted => ?_⟩
    cases noted.warning with
    | none => exact sited.pure _
    | some warning => exact sited.bind_nil (sited.warns _ warning) fun _ => sited.pure _

variable (modules : String → Option String)

open StreamQuery.Expr

/-! ### The forms of expressions -/

section Forms

/-- All scopes make the calls of the same sites. -/
def Regular {α : Type} (computation : Scope → Stateful σ α) : Prop :=
  ∃ sites, ∀ scope : Scope, scope.Binds modules → sited.holds sites (computation scope)

variable {sited} {modules} {base left right condition whenTrue whenFalse : Expr}

theorem regular_field (name : String)
    (hbase : sited.Regular modules fun scope => scope.evaluateWith handler base) :
    sited.Regular modules fun scope => scope.evaluateWith handler (.field base name) := by
  obtain ⟨module, hmodule⟩ := Scope.Binds.exists_moduleOf? modules base
  obtain ⟨sites, hbase⟩ := hbase
  cases module with
  | some module =>
    refine ⟨[], fun scope binds => ?_⟩
    simp only [Scope.evaluateWith, hmodule scope binds]
    exact sited.ofResult _
  | none =>
    refine ⟨sites, fun scope binds => ?_⟩
    simp only [Scope.evaluateWith, hmodule scope binds]
    exact sited.bind_nil (hbase scope binds) fun _ => sited.ofResult _

/-- The right operand of a short-circuit operator makes no calls, so skipping it changes nothing. -/
theorem regular_binary (op : BinaryOp) (hown : (Expr.binary left op right).BranchesCallNone)
    (hleft : sited.Regular modules fun scope => scope.evaluateWith handler left)
    (hright : sited.Regular modules fun scope => scope.evaluateWith handler right) :
    sited.Regular modules fun scope => scope.evaluateWith handler (.binary left op right) := by
  obtain ⟨leftSites, hleft⟩ := hleft
  obtain ⟨rightSites, hright⟩ := hright
  have hskipped (hright : right ∈ (Expr.binary left op right).ownBranches) (scope : Scope) :
      sited.holds [] (scope.evaluateWith handler right) :=
    sited.holds_evaluateWith_nil scope (hown right hright)
  cases op
  case conjunction =>
    refine ⟨leftSites, fun scope binds => sited.bind_nil (hleft scope binds) fun value => ?_⟩
    dsimp only
    split
    · exact sited.pure _
    · exact sited.bind_nil (hskipped (by simp [ownBranches]) scope) fun _ => sited.pure _
  case disjunction =>
    refine ⟨leftSites, fun scope binds => sited.bind_nil (hleft scope binds) fun value => ?_⟩
    dsimp only
    split
    · exact sited.pure _
    · exact sited.bind_nil (hskipped (by simp [ownBranches]) scope) fun _ => sited.pure _
  case coalesce =>
    refine ⟨leftSites, fun scope binds => sited.bind_nil (hleft scope binds) fun value => ?_⟩
    dsimp only
    split
    · exact sited.pure _
    · exact hskipped (by simp [ownBranches]) scope
  all_goals exact ⟨leftSites ++ rightSites, fun scope binds =>
    sited.bind (hleft scope binds) fun _ =>
      sited.bind_nil (hright scope binds) fun _ => sited.ofResult _⟩

theorem regular_method (name : String) {arguments : List Expr}
    (hbase : sited.Regular modules fun scope => scope.evaluateWith handler base)
    (harguments : sited.Regular modules fun scope => scope.evaluateAll handler arguments) :
    sited.Regular modules fun scope =>
      scope.evaluateWith handler (.method base name arguments) := by
  obtain ⟨module, hmodule⟩ := Scope.Binds.exists_moduleOf? modules base
  obtain ⟨first, hbase⟩ := hbase
  obtain ⟨sites, harguments⟩ := harguments
  obtain ⟨own, hcall⟩ := sited.exists_holds_callFunction (.method base name arguments) name
  cases module with
  | some module =>
    refine ⟨sites, fun scope binds => ?_⟩
    simp only [Scope.evaluateWith, hmodule scope binds]
    exact sited.bind_nil (harguments scope binds) fun _ => sited.ofResult _
  | none =>
    refine ⟨first ++ (sites ++ own), fun scope binds => ?_⟩
    simp only [Scope.evaluateWith, hmodule scope binds]
    exact sited.bind (hbase scope binds) fun _ =>
      sited.bind (harguments scope binds) fun _ => hcall scope _

/-- Only the condition may call aggregates, and it is always evaluated. -/
theorem regular_ternary (hown : (Expr.ternary condition whenTrue whenFalse).BranchesCallNone)
    (hcondition : sited.Regular modules fun scope => scope.evaluateWith handler condition) :
    sited.Regular modules fun scope =>
      scope.evaluateWith handler (.ternary condition whenTrue whenFalse) := by
  obtain ⟨sites, hcondition⟩ := hcondition
  refine ⟨sites, fun scope binds => sited.bind_nil (hcondition scope binds) fun value => ?_⟩
  split
  · exact sited.holds_evaluateWith_nil scope (hown whenTrue (by simp [ownBranches]))
  · exact sited.holds_evaluateWith_nil scope (hown whenFalse (by simp [ownBranches]))

/-- The result of a branch that was chosen, or else of a default without calls. -/
theorem holds_chosen {sites : List Expr} {branches : Stateful σ (Option Value)}
    {otherwise : Stateful σ Value} (hbranches : sited.holds sites branches)
    (hdefault : sited.holds [] otherwise) :
    sited.holds sites
      (branches >>= fun
        | some value => Pure.pure value
        | none => otherwise) := by
  refine sited.bind_nil hbranches fun chosen => ?_
  cases chosen with
  | some value => exact sited.pure value
  | none => exact hdefault

end Forms

/-! ### Expressions -/

mutual

/-- All evaluations of an expression make the calls of the same sites, if the parts that are
evaluated for some rows only call no aggregates. -/
theorem exists_holds_evaluateWith : ∀ expr : Expr,
    (∀ part ∈ expr.subexpressions, part.BranchesCallNone) →
    ∃ sites, ∀ scope : Scope, scope.Binds modules →
      sited.holds sites (scope.evaluateWith handler expr)
  | .literal value, _ => ⟨[], fun _ _ => sited.pure value⟩
  | .column index, _ => ⟨[], fun _ _ => sited.pure _⟩
  | .variable name, _ => ⟨[], fun _ _ => sited.ofResult _⟩
  | .field base name, h => by
    simp only [subexpressions, List.forall_mem_cons] at h
    exact regular_field name (exists_holds_evaluateWith base h.2)
  | .item base index, h => by
    simp only [subexpressions, List.forall_mem_cons, List.forall_mem_append] at h
    obtain ⟨_, hbase, hindex⟩ := h
    obtain ⟨baseSites, hbase⟩ := exists_holds_evaluateWith base hbase
    obtain ⟨indexSites, hindex⟩ := exists_holds_evaluateWith index hindex
    exact ⟨baseSites ++ indexSites, fun scope binds => sited.bind (hbase scope binds) fun _ =>
      sited.bind_nil (hindex scope binds) fun _ => sited.ofResult _⟩
  | .slice base start stop, h => by
    simp only [subexpressions, List.forall_mem_cons, List.forall_mem_append] at h
    obtain ⟨_, ⟨hbase, hstart⟩, hstop⟩ := h
    obtain ⟨baseSites, hbase⟩ := exists_holds_evaluateWith base hbase
    obtain ⟨startSites, hstart⟩ := exists_holds_evaluateOption start hstart
    obtain ⟨stopSites, hstop⟩ := exists_holds_evaluateOption stop hstop
    exact ⟨baseSites ++ (startSites ++ stopSites), fun scope binds =>
      sited.bind (hbase scope binds) fun _ => sited.bind (hstart scope binds) fun _ =>
        sited.bind_nil (hstop scope binds) fun _ => sited.ofResult _⟩
  | .binary left op right, h => by
    simp only [subexpressions, List.forall_mem_cons, List.forall_mem_append] at h
    obtain ⟨hown, hleft, hright⟩ := h
    exact regular_binary op hown (exists_holds_evaluateWith left hleft)
      (exists_holds_evaluateWith right hright)
  | .unary op operand, h => by
    simp only [subexpressions, List.forall_mem_cons] at h
    obtain ⟨sites, hoperand⟩ := exists_holds_evaluateWith operand h.2
    exact ⟨sites, fun scope binds =>
      sited.bind_nil (hoperand scope binds) fun _ => sited.ofResult _⟩
  | .isNull operand negated, h => by
    simp only [subexpressions, List.forall_mem_cons] at h
    obtain ⟨sites, hoperand⟩ := exists_holds_evaluateWith operand h.2
    exact ⟨sites, fun scope binds => sited.bind_nil (hoperand scope binds) fun _ => sited.pure _⟩
  | .object entries, h => by
    simp only [subexpressions, List.forall_mem_cons] at h
    obtain ⟨sites, hentries⟩ := exists_holds_evaluateEntries entries h.2
    exact ⟨sites, fun scope binds => sited.bind_nil (hentries scope binds) fun _ => sited.pure _⟩
  | .list items, h => by
    simp only [subexpressions, List.forall_mem_cons] at h
    obtain ⟨sites, hitems⟩ := exists_holds_evaluateAll items h.2
    exact ⟨sites, fun scope binds => sited.bind_nil (hitems scope binds) fun _ => sited.pure _⟩
  | .call name arguments, h => by
    simp only [subexpressions, List.forall_mem_cons] at h
    obtain ⟨sites, harguments⟩ := exists_holds_evaluateAll arguments h.2
    obtain ⟨own, hcall⟩ := sited.exists_holds_callFunction (.call name arguments) name
    exact ⟨sites ++ own, fun scope binds =>
      sited.bind (harguments scope binds) fun _ => hcall scope _⟩
  | .method receiver name arguments, h => by
    simp only [subexpressions, List.forall_mem_cons, List.forall_mem_append] at h
    obtain ⟨_, hreceiver, harguments⟩ := h
    exact regular_method name (exists_holds_evaluateWith receiver hreceiver)
      (exists_holds_evaluateAll arguments harguments)
  | .ternary condition whenTrue whenFalse, h => by
    simp only [subexpressions, List.forall_mem_cons, List.forall_mem_append] at h
    obtain ⟨hown, ⟨hcondition, _⟩, _⟩ := h
    exact regular_ternary hown (exists_holds_evaluateWith condition hcondition)
  | .case none branches otherwise, h => by
    simp only [subexpressions, List.forall_mem_cons, List.forall_mem_append] at h
    obtain ⟨hown, ⟨_, hbranches⟩, _⟩ := h
    simp only [BranchesCallNone, ownBranches, List.forall_mem_append, Option.mem_toList] at hown
    obtain ⟨sites, hbranches⟩ := exists_holds_evaluateBranches branches hbranches hown.1
    exact ⟨sites, fun scope binds => holds_chosen (hbranches scope binds none)
      (sited.holds_evaluateOption_nil scope hown.2)⟩
  | .case (some operand) branches otherwise, h => by
    simp only [subexpressions, optionSubexpressions, List.forall_mem_cons,
      List.forall_mem_append] at h
    obtain ⟨hown, ⟨hoperand, hbranches⟩, _⟩ := h
    simp only [BranchesCallNone, ownBranches, List.forall_mem_append, Option.mem_toList] at hown
    obtain ⟨first, hoperand⟩ := exists_holds_evaluateWith operand hoperand
    obtain ⟨sites, hbranches⟩ := exists_holds_evaluateBranches branches hbranches hown.1
    exact ⟨first ++ sites, fun scope binds => sited.bind (hoperand scope binds) fun value =>
      holds_chosen (hbranches scope binds (some value))
        (sited.holds_evaluateOption_nil scope hown.2)⟩
termination_by structural expr => expr

theorem exists_holds_evaluateOption : ∀ expr : Option Expr,
    (∀ part ∈ optionSubexpressions expr, part.BranchesCallNone) →
    ∃ sites, ∀ scope : Scope, scope.Binds modules →
      sited.holds sites (scope.evaluateOption handler expr)
  | none, _ => ⟨[], fun _ _ => sited.pure _⟩
  | some expr, h => exists_holds_evaluateWith expr h
termination_by structural expr => expr

theorem exists_holds_evaluateAll : ∀ exprs : List Expr,
    (∀ part ∈ listSubexpressions exprs, part.BranchesCallNone) →
    ∃ sites, ∀ scope : Scope, scope.Binds modules →
      sited.holds sites (scope.evaluateAll handler exprs)
  | [], _ => ⟨[], fun _ _ => sited.pure _⟩
  | expr :: rest, h => by
    simp only [listSubexpressions, List.forall_mem_append] at h
    obtain ⟨first, hexpr⟩ := exists_holds_evaluateWith expr h.1
    obtain ⟨sites, hrest⟩ := exists_holds_evaluateAll rest h.2
    exact ⟨first ++ sites, fun scope binds => sited.bind (hexpr scope binds) fun _ =>
      sited.bind_nil (hrest scope binds) fun _ => sited.pure _⟩
termination_by structural exprs => exprs

theorem exists_holds_evaluateEntries : ∀ entries : List (Expr × Expr),
    (∀ part ∈ pairSubexpressions entries, part.BranchesCallNone) →
    ∃ sites, ∀ scope : Scope, scope.Binds modules →
      sited.holds sites (scope.evaluateEntries handler entries)
  | [], _ => ⟨[], fun _ _ => sited.pure _⟩
  | (key, expr) :: rest, h => by
    simp only [pairSubexpressions, List.forall_mem_append] at h
    obtain ⟨⟨hkey, hexpr⟩, hrest⟩ := h
    obtain ⟨first, hkey⟩ := exists_holds_evaluateWith key hkey
    obtain ⟨second, hexpr⟩ := exists_holds_evaluateWith expr hexpr
    obtain ⟨sites, hrest⟩ := exists_holds_evaluateEntries rest hrest
    exact ⟨first ++ (second ++ sites), fun scope binds => sited.bind (hkey scope binds) fun _ =>
      sited.bind (hexpr scope binds) fun _ =>
        sited.bind_nil (hrest scope binds) fun _ => sited.pure _⟩
termination_by structural entries => entries

theorem exists_holds_evaluateBranches : ∀ branches : List (Expr × Expr),
    (∀ part ∈ pairSubexpressions branches, part.BranchesCallNone) →
    (∀ branch ∈ (laterBranches branches).drop 1, branch.CallsNoAggregate) →
    ∃ sites, ∀ scope : Scope, scope.Binds modules → ∀ operand,
      sited.holds sites (scope.evaluateBranches handler operand branches)
  | [], _, _ => ⟨[], fun _ _ _ => sited.pure _⟩
  | (condition, result) :: rest, h, hlater => by
    simp only [pairSubexpressions, List.forall_mem_append] at h
    simp only [laterBranches, List.drop_succ_cons, List.drop_zero, List.forall_mem_cons] at hlater
    obtain ⟨sites, hcondition⟩ := exists_holds_evaluateWith condition h.1.1
    refine ⟨sites, fun scope binds operand =>
      sited.bind_nil (hcondition scope binds) fun value => ?_⟩
    split
    · exact sited.bind_nil (sited.holds_evaluateWith_nil scope hlater.1) fun _ => sited.pure _
    · exact sited.holds_evaluateBranches_nil scope hlater.2 operand
termination_by structural branches => branches

end

end Sited

end StreamQuery
