import StreamQuery.Evaluation.Assignment
import StreamQuery.Proofs.Agreement
import StreamQuery.Proofs.Evaluation.Relation
import StreamQuery.Proofs.Unicode.Letters

/-!
# Names of functions in lower case

The names of the functions that an expression calls may be written in any case of their letters.
Expressions that are the same in lower case have the same values, name the same places, and the
calls of aggregates in them that are made for some rows only are the same.
-/

namespace StreamQuery

open Unicode Stateful

namespace Expr

/-- A name with the letters of ASCII in lower case. -/
def loweredName (name : String) : String :=
  String.ofList (name.toList.map Char.toLower)

mutual

/-- An expression with the names of the functions that it calls in lower case. -/
def lowered : Expr → Expr
  | .literal value => .literal value
  | .variable name => .variable name
  | .column index => .column index
  | .field base name => .field base.lowered name
  | .item base index => .item base.lowered index.lowered
  | .slice base start stop => .slice base.lowered (loweredOption start) (loweredOption stop)
  | .binary left op right => .binary left.lowered op right.lowered
  | .unary op operand => .unary op operand.lowered
  | .isNull operand negated => .isNull operand.lowered negated
  | .object entries => .object (loweredPairs entries)
  | .list items => .list (loweredAll items)
  | .call name arguments => .call (loweredName name) (loweredAll arguments)
  | .method receiver name arguments =>
    .method receiver.lowered (loweredName name) (loweredAll arguments)
  | .ternary condition whenTrue whenFalse =>
    .ternary condition.lowered whenTrue.lowered whenFalse.lowered
  | .case operand branches otherwise =>
    .case (loweredOption operand) (loweredPairs branches) (loweredOption otherwise)
termination_by structural expr => expr

/-- An expression that may be absent, with the names of functions in lower case. -/
def loweredOption : Option Expr → Option Expr
  | none => none
  | some expr => some expr.lowered
termination_by structural expr => expr

/-- Expressions with the names of functions in lower case. -/
def loweredAll : List Expr → List Expr
  | [] => []
  | expr :: rest => expr.lowered :: loweredAll rest
termination_by structural exprs => exprs

/-- Pairs of expressions with the names of functions in lower case. -/
def loweredPairs : List (Expr × Expr) → List (Expr × Expr)
  | [] => []
  | (first, second) :: rest => (first.lowered, second.lowered) :: loweredPairs rest
termination_by structural pairs => pairs

end

theorem sameLetters_loweredName (name : String) :
    SameLetters (loweredName name).toList name.toList := by
  rw [loweredName, String.toList_ofList]
  exact (SameLetters.map_toLower name.toList).symm

theorem loweredName_eq_iff {name other : String} :
    loweredName name = loweredName other ↔ SameLetters name.toList other.toList := by
  rw [loweredName, loweredName, String.ofList_inj]
  rfl

example : loweredName "Count_AGG" = "count_agg" := by decide +kernel

/-- Two expressions that are the same but for the case of the names of functions. -/
def SameCalls (expr other : Expr) : Prop :=
  expr.lowered = other.lowered

namespace SameCalls

variable {left leftOther right rightOther third thirdOther : Expr} {es others : List Expr}
  {pairs otherPairs : List (Expr × Expr)} {name other : String}

theorem field (h : left.SameCalls leftOther) (name : String) :
    (Expr.field left name).SameCalls (.field leftOther name) :=
  congrArg (Expr.field · name) h

theorem slice {start stop otherStart otherStop : Option Expr} (h : left.SameCalls leftOther)
    (hstart : loweredOption start = loweredOption otherStart)
    (hstop : loweredOption stop = loweredOption otherStop) :
    (Expr.slice left start stop).SameCalls (.slice leftOther otherStart otherStop) := by
  change Expr.slice left.lowered (loweredOption start) (loweredOption stop) =
    Expr.slice leftOther.lowered (loweredOption otherStart) (loweredOption otherStop)
  rw [h, hstart, hstop]

theorem binary (hleft : left.SameCalls leftOther) (op : BinaryOp)
    (hright : right.SameCalls rightOther) :
    (Expr.binary left op right).SameCalls (.binary leftOther op rightOther) :=
  congrArg₂ (Expr.binary · op ·) hleft hright

theorem unary (op : UnaryOp) (h : left.SameCalls leftOther) :
    (Expr.unary op left).SameCalls (.unary op leftOther) :=
  congrArg (Expr.unary op) h

theorem isNull (h : left.SameCalls leftOther) (negated : Bool) :
    (Expr.isNull left negated).SameCalls (.isNull leftOther negated) :=
  congrArg (Expr.isNull · negated) h

theorem object (h : loweredPairs pairs = loweredPairs otherPairs) :
    (Expr.object pairs).SameCalls (.object otherPairs) :=
  congrArg Expr.object h

theorem list (h : loweredAll es = loweredAll others) : (Expr.list es).SameCalls (.list others) :=
  congrArg Expr.list h

theorem call (hname : SameLetters name.toList other.toList)
    (h : loweredAll es = loweredAll others) : (Expr.call name es).SameCalls (.call other others) :=
  congrArg₂ Expr.call (loweredName_eq_iff.mpr hname) h

theorem method (hleft : left.SameCalls leftOther) (hname : SameLetters name.toList other.toList)
    (h : loweredAll es = loweredAll others) :
    (Expr.method left name es).SameCalls (.method leftOther other others) := by
  change Expr.method left.lowered (loweredName name) (loweredAll es) =
    Expr.method leftOther.lowered (loweredName other) (loweredAll others)
  rw [hleft, loweredName_eq_iff.mpr hname, h]

theorem ternary (hleft : left.SameCalls leftOther) (hright : right.SameCalls rightOther)
    (hthird : third.SameCalls thirdOther) :
    (Expr.ternary left right third).SameCalls (.ternary leftOther rightOther thirdOther) := by
  change Expr.ternary left.lowered right.lowered third.lowered =
    Expr.ternary leftOther.lowered rightOther.lowered thirdOther.lowered
  rw [hleft, hright, hthird]

theorem case {operand otherOperand last otherLast : Option Expr}
    (hoperand : loweredOption operand = loweredOption otherOperand)
    (h : loweredPairs pairs = loweredPairs otherPairs)
    (hlast : loweredOption last = loweredOption otherLast) :
    (Expr.case operand pairs last).SameCalls (.case otherOperand otherPairs otherLast) := by
  change Expr.case (loweredOption operand) (loweredPairs pairs) (loweredOption last) =
    Expr.case (loweredOption otherOperand) (loweredPairs otherPairs) (loweredOption otherLast)
  rw [hoperand, h, hlast]

end SameCalls

end Expr

/-! ### Looking names up -/

section Names

variable {name other : String}

theorem Aggregate.ofName?_eq (h : SameLetters name.toList other.toList) :
    ofName? name = ofName? other :=
  find?_toLower (by decide) h

theorem Aggregate.isName_eq (h : SameLetters name.toList other.toList) :
    isName name = isName other := by
  rw [isName, isName, ofName?_eq h]

/-- Two results are the same value, or both are errors. -/
abbrev SameResult {α : Type} (result other : Except Error α) : Prop :=
  Alike (fun _ _ => True) Eq result other

theorem Builtin.sameResult_call (h : SameLetters name.toList other.toList)
    (arguments : List Value) : SameResult (call name arguments) (call other arguments) := by
  have hfind : ofName? (toLower name) = ofName? (toLower other) := find?_toLower (by decide) h
  rw [call, call, hfind]
  cases ofName? (toLower other) with
  | none => exact .error trivial
  | some => exact .refl (fun _ => trivial) _

theorem Module.takesNull_eq (h : SameLetters name.toList other.toList) (module : String) :
    takesNull module (toLower name) = takesNull module (toLower other) := by
  have hdumps : (toLower name == DocumentFunction.dumps.name) =
      (toLower other == DocumentFunction.dumps.name) := by
    rw [Bool.eq_iff_iff, beq_iff_eq, beq_iff_eq]
    have hname : DocumentFunction.dumps.name = toLower name ↔
        DocumentFunction.dumps.name = toLower other := eq_toLower_iff (by decide) h
    exact eq_comm.trans (hname.trans eq_comm)
  rw [takesNull, takesNull, hdumps]

theorem Module.function?_eq (h : SameLetters name.toList other.toList)
    (clock : Calendar.DateTime) (module : Module) :
    module.function? clock (toLower name) = module.function? clock (toLower other) := by
  cases module with
  | math => exact congrArg (Option.map _) (find?_toLower (by decide) h)
  | patterns => exact congrArg (Option.map _) (find?_toLower (by decide) h)
  | json => exact congrArg (Option.map _) (find?_toLower (by decide) h)
  | datetime => exact congrArg (Option.map _) (find?_toLower (by decide) h)

theorem Module.sameResult_call (h : SameLetters name.toList other.toList)
    (clock : Calendar.DateTime) (module : String) (arguments : List Value) :
    SameResult (call clock module name arguments) (call clock module other arguments) := by
  simp only [call, takesNull_eq h, function?_eq h]
  split
  · exact .ok rfl
  · cases ofName? module with
    | none => exact .error trivial
    | some found =>
      dsimp only
      cases found.function? clock (toLower other) with
      | none => exact .error trivial
      | some apply => exact .refl (fun _ => trivial) _

end Names

/-! ### Values -/

namespace Stateful

variable {σ α : Type} {left middle right : Stateful σ α}

theorem Agree.symm (h : Agree Eq left right) : Agree Eq right left := by
  rintro state _ rfl
  rcases h state state rfl with ⟨value, after, otherAfter, hleft, hright, rfl⟩ |
    ⟨error, otherError, after, otherAfter, hleft, hright⟩
  · exact .inl ⟨value, after, after, hright, hleft, rfl⟩
  · exact .inr ⟨otherError, error, otherAfter, after, hright, hleft⟩

theorem Agree.trans (h : Agree Eq left middle) (hright : Agree Eq middle right) :
    Agree Eq left right := by
  rintro state _ rfl
  rcases h state state rfl with ⟨value, after, _, hleft, hmiddle, rfl⟩ |
    ⟨error, otherError, after, otherAfter, hleft, hmiddle⟩
  · rcases hright state state rfl with ⟨other, last, _, hsame, hright, rfl⟩ |
      ⟨_, _, _, _, hsame, -⟩
    · obtain ⟨heq, rfl⟩ := hmiddle.unique hsame
      obtain rfl := Except.ok.inj heq
      exact .inl ⟨value, after, after, hleft, hright, rfl⟩
    · cases (hmiddle.unique hsame).1
  · rcases hright state state rfl with ⟨_, _, _, hsame, -⟩ |
      ⟨_, lastError, _, last, -, hright⟩
    · cases (hmiddle.unique hsame).1
    · exact .inr ⟨error, lastError, after, last, hleft, hright⟩

end Stateful

namespace Scope

section Results

variable {α : Type} {result other : Except Error α}

theorem agree_ofResult (h : SameResult result other) :
    Agree Eq (.ofResult result : Evaluating α) (.ofResult other) := by
  cases h with
  | ok hvalue => exact hvalue ▸ agree_pure _
  | error => exact agree_throw _ _

theorem agree_ofNoted (policy : WarningPolicy) {result other : Except Error Noted}
    (h : SameResult result other) :
    Agree Eq (.ofNoted policy result : Evaluating Value) (.ofNoted policy other) := by
  refine (agree_ofResult h).bind fun noted => ?_
  cases noted.warning with
  | none => exact agree_pure _
  | some warning =>
    exact (agree_ofReporting (Reporting.settles_raise _ _)).bind fun _ => agree_pure _

end Results

variable (scope : Scope)

theorem agree_callFunction {name other : String} (h : SameLetters name.toList other.toList)
    (call otherCall : Expr) (arguments : List Value) :
    Agree Eq (scope.callFunction (fun _ => Evaluating.ofAggregate) call name arguments)
      (scope.callFunction (fun _ => Evaluating.ofAggregate) otherCall other arguments) := by
  rw [callFunction, callFunction, Aggregate.ofName?_eq h]
  cases Aggregate.ofName? other with
  | none => exact agree_ofNoted _ (Builtin.sameResult_call h arguments)
  | some function => exact agree_ofAggregate fun _ _ heq => heq ▸ ⟨rfl, rfl⟩

theorem moduleOf?_lowered (expr : Expr) : scope.moduleOf? expr.lowered = scope.moduleOf? expr := by
  cases expr <;> rfl

open StreamQuery.Expr in
mutual

/-- An expression has the value that it has with its functions in lower case. -/
theorem agree_lowered : ∀ expr : Expr,
    Agree Eq (scope.evaluateWith (fun _ => Evaluating.ofAggregate) expr.lowered)
      (scope.evaluateWith (fun _ => Evaluating.ofAggregate) expr)
  | .literal value => agree_pure value
  | .column index => agree_pure _
  | .variable name => agree_ofResult (.refl (fun _ => trivial) _)
  | .field base name =>
    (Congruence.succeeding Eq).relates_field (scope.moduleOf?_lowered base) (agree_lowered base)
  | .item base index =>
    (agree_lowered base).bind fun _ => (agree_lowered index).bind fun _ =>
      agree_ofResult (.refl (fun _ => trivial) _)
  | .slice base start stop =>
    (agree_lowered base).bind fun _ => (agree_loweredOption start).bind fun _ =>
      (agree_loweredOption stop).bind fun _ => agree_ofResult (.refl (fun _ => trivial) _)
  | .binary left op right =>
    (Congruence.succeeding Eq).relates_binary op (agree_lowered left) (agree_lowered right)
  | .unary op operand =>
    (agree_lowered operand).bind fun _ => agree_ofResult (.refl (fun _ => trivial) _)
  | .isNull operand negated => (agree_lowered operand).bind fun _ => agree_pure _
  | .object entries => (agree_loweredPairs entries).bind fun _ => agree_pure _
  | .list items => (agree_loweredAll items).bind fun _ => agree_pure _
  | .call name arguments =>
    (agree_loweredAll arguments).bind fun _ =>
      scope.agree_callFunction (sameLetters_loweredName name) _ _ _
  | .method receiver name arguments => by
    have hname := sameLetters_loweredName name
    refine (Congruence.succeeding Eq).relates_method (scope.moduleOf?_lowered receiver)
      (agree_lowered receiver) (agree_loweredAll arguments) (fun module values => ?_) fun values => ?_
    · exact agree_ofResult (Module.sameResult_call hname _ module values)
    · exact scope.agree_callFunction hname _ _ values
  | .ternary condition whenTrue whenFalse => by
    refine (agree_lowered condition).bind fun value => ?_
    split
    · exact agree_lowered whenTrue
    · exact agree_lowered whenFalse
  | .case none branches otherwise =>
    (Congruence.succeeding Eq).relates_chosen (agree_loweredBranches none branches)
      (agree_loweredOption otherwise)
  | .case (some operand) branches otherwise =>
    (agree_lowered operand).bind fun value =>
      (Congruence.succeeding Eq).relates_chosen (agree_loweredBranches (some value) branches)
        (agree_loweredOption otherwise)
termination_by structural expr => expr

theorem agree_loweredOption : ∀ expr : Option Expr,
    Agree Eq (scope.evaluateOption (fun _ => Evaluating.ofAggregate) (loweredOption expr))
      (scope.evaluateOption (fun _ => Evaluating.ofAggregate) expr)
  | none => agree_pure _
  | some expr => agree_lowered expr
termination_by structural expr => expr

theorem agree_loweredAll : ∀ exprs : List Expr,
    Agree Eq (scope.evaluateAll (fun _ => Evaluating.ofAggregate) (loweredAll exprs))
      (scope.evaluateAll (fun _ => Evaluating.ofAggregate) exprs)
  | [] => agree_pure _
  | expr :: rest =>
    (agree_lowered expr).bind fun _ => (agree_loweredAll rest).bind fun _ => agree_pure _
termination_by structural exprs => exprs

theorem agree_loweredPairs : ∀ entries : List (Expr × Expr),
    Agree Eq (scope.evaluateEntries (fun _ => Evaluating.ofAggregate) (loweredPairs entries))
      (scope.evaluateEntries (fun _ => Evaluating.ofAggregate) entries)
  | [] => agree_pure _
  | (key, expr) :: rest =>
    (agree_lowered key).bind fun _ => (agree_lowered expr).bind fun _ =>
      (agree_loweredPairs rest).bind fun _ => agree_pure _
termination_by structural entries => entries

theorem agree_loweredBranches (operand : Option Value) : ∀ branches : List (Expr × Expr),
    Agree Eq
      (scope.evaluateBranches (fun _ => Evaluating.ofAggregate) operand (loweredPairs branches))
      (scope.evaluateBranches (fun _ => Evaluating.ofAggregate) operand branches)
  | [] => agree_pure _
  | (condition, result) :: rest => by
    refine (agree_lowered condition).bind fun value => ?_
    split
    · exact (agree_lowered result).bind fun _ => agree_pure _
    · exact agree_loweredBranches operand rest
termination_by structural branches => branches

end

/-- Expressions that are the same but for the case of functions have the same values. -/
theorem agree_evaluate_of_sameCalls {expr other : Expr} (h : expr.SameCalls other) :
    Agree Eq (scope.evaluate expr) (scope.evaluate other) := by
  have hexpr := scope.agree_lowered expr
  rw [h] at hexpr
  exact hexpr.symm.trans (scope.agree_lowered other)

end Scope

/-! ### Places -/

namespace Assignment

theorem key?_lowered (expr : Expr) : key? expr.lowered = key? expr := by
  cases expr <;> rfl

/-- An expression names the place that it names with its functions in lower case. -/
theorem path?_lowered : ∀ expr : Expr, path? expr.lowered = path? expr
  | .field base name => by simp only [Expr.lowered, path?, path?_lowered base]
  | .item base index => by simp only [Expr.lowered, path?, key?_lowered, path?_lowered base]
  | .literal _ => rfl
  | .variable _ => rfl
  | .column _ => rfl
  | .slice .. => rfl
  | .binary .. => rfl
  | .unary .. => rfl
  | .isNull .. => rfl
  | .object _ => rfl
  | .list _ => rfl
  | .call .. => rfl
  | .method .. => rfl
  | .ternary .. => rfl
  | .case .. => rfl
termination_by structural expr => expr

theorem assign_eq {target other : Expr} (h : target.SameCalls other) :
    assign target = assign other := by
  have hpath : path? target = path? other := by
    rw [← path?_lowered, h, path?_lowered]
  funext names values new
  rw [assign, assign, hpath]

end Assignment

/-! ### Aggregates in branches -/

namespace Expr

theorem loweredOption_eq (expr : Option Expr) : loweredOption expr = expr.map lowered := by
  cases expr <;> rfl

mutual

theorem subexpressions_lowered : ∀ expr : Expr,
    expr.lowered.subexpressions = expr.subexpressions.map lowered
  | .literal value => rfl
  | .variable name => rfl
  | .column index => rfl
  | .field base name => by
    simp only [lowered, subexpressions, subexpressions_lowered base, List.map_cons]
  | .item base index => by
    simp only [lowered, subexpressions, subexpressions_lowered base, subexpressions_lowered index,
      List.map_cons, List.map_append]
  | .slice base start stop => by
    simp only [lowered, subexpressions, subexpressions_lowered base,
      optionSubexpressions_lowered start, optionSubexpressions_lowered stop, List.map_cons,
      List.map_append]
  | .binary left op right => by
    simp only [lowered, subexpressions, subexpressions_lowered left, subexpressions_lowered right,
      List.map_cons, List.map_append]
  | .unary op operand => by
    simp only [lowered, subexpressions, subexpressions_lowered operand, List.map_cons]
  | .isNull operand negated => by
    simp only [lowered, subexpressions, subexpressions_lowered operand, List.map_cons]
  | .object entries => by
    simp only [lowered, subexpressions, pairSubexpressions_lowered entries, List.map_cons]
  | .list items => by
    simp only [lowered, subexpressions, listSubexpressions_lowered items, List.map_cons]
  | .call name arguments => by
    simp only [lowered, subexpressions, listSubexpressions_lowered arguments, List.map_cons]
  | .method receiver name arguments => by
    simp only [lowered, subexpressions, subexpressions_lowered receiver,
      listSubexpressions_lowered arguments, List.map_cons, List.map_append]
  | .ternary condition whenTrue whenFalse => by
    simp only [lowered, subexpressions, subexpressions_lowered condition,
      subexpressions_lowered whenTrue, subexpressions_lowered whenFalse, List.map_cons,
      List.map_append]
  | .case operand branches otherwise => by
    simp only [lowered, subexpressions, optionSubexpressions_lowered operand,
      pairSubexpressions_lowered branches, optionSubexpressions_lowered otherwise, List.map_cons,
      List.map_append]
termination_by structural expr => expr

theorem optionSubexpressions_lowered : ∀ expr : Option Expr,
    optionSubexpressions (loweredOption expr) = (optionSubexpressions expr).map lowered
  | none => rfl
  | some expr => subexpressions_lowered expr
termination_by structural expr => expr

theorem listSubexpressions_lowered : ∀ exprs : List Expr,
    listSubexpressions (loweredAll exprs) = (listSubexpressions exprs).map lowered
  | [] => rfl
  | expr :: rest => by
    simp only [loweredAll, listSubexpressions, subexpressions_lowered expr,
      listSubexpressions_lowered rest, List.map_append]
termination_by structural exprs => exprs

theorem pairSubexpressions_lowered : ∀ pairs : List (Expr × Expr),
    pairSubexpressions (loweredPairs pairs) = (pairSubexpressions pairs).map lowered
  | [] => rfl
  | (first, second) :: rest => by
    simp only [loweredPairs, pairSubexpressions, subexpressions_lowered first,
      subexpressions_lowered second, pairSubexpressions_lowered rest, List.map_append]
termination_by structural pairs => pairs

end

theorem ownBranches_lowered (expr : Expr) :
    expr.lowered.ownBranches = expr.ownBranches.map lowered := by
  have hlater : ∀ branches : List (Expr × Expr),
      laterBranches (loweredPairs branches) = (laterBranches branches).map lowered := by
    intro branches
    induction branches with
    | nil => rfl
    | cons branch rest ih => rw [loweredPairs, laterBranches, ih]; rfl
  cases expr with
  | binary left op right => cases op <;> rfl
  | case operand branches otherwise =>
    rw [lowered, ownBranches, ownBranches, hlater, List.map_append, List.map_drop, loweredOption_eq]
    cases otherwise <;> rfl
  | _ => rfl

theorem ownCall?_lowered (expr : Expr) : expr.lowered.ownCall? = expr.ownCall?.map loweredName := by
  cases expr <;> rfl

/-- The calls of aggregates that are made for some rows only, with the names in lower case. -/
theorem conditionalAggregates_lowered (expr : Expr) :
    expr.lowered.conditionalAggregates = expr.conditionalAggregates.map loweredName := by
  have hcalled : ∀ branch : Expr,
      branch.lowered.calledFunctions = branch.calledFunctions.map loweredName := by
    intro branch
    rw [calledFunctions, calledFunctions, subexpressions_lowered, List.filterMap_map,
      List.map_filterMap]
    exact congrArg (List.filterMap · _) (funext ownCall?_lowered)
  have hbranches : expr.lowered.conditionalBranches = expr.conditionalBranches.map lowered := by
    rw [conditionalBranches, conditionalBranches, subexpressions_lowered, List.flatMap_map,
      List.map_flatMap]
    exact congrArg (List.flatMap · _) (funext ownBranches_lowered)
  have hfind : ∀ names : List String, (names.map loweredName).find? Aggregate.isName =
      (names.find? Aggregate.isName).map loweredName := by
    intro names
    induction names with
    | nil => rfl
    | cons name rest ih =>
      have hname : Aggregate.isName (loweredName name) = Aggregate.isName name :=
        Aggregate.isName_eq (sameLetters_loweredName name)
      rw [List.map_cons, List.find?_cons, List.find?_cons, hname, ih]
      split <;> rfl
  rw [conditionalAggregates, conditionalAggregates, hbranches]
  induction expr.conditionalBranches with
  | nil => rfl
  | cons branch rest ih =>
    rw [List.map_cons, List.filterMap_cons, List.filterMap_cons, hcalled, hfind, ih]
    cases branch.calledFunctions.find? Aggregate.isName <;> rfl

/-- As many calls of aggregates are made for some rows only. -/
theorem SameCalls.length_conditionalAggregates {expr other : Expr} (h : expr.SameCalls other) :
    expr.conditionalAggregates.length = other.conditionalAggregates.length := by
  have hmap := congrArg conditionalAggregates h
  rw [conditionalAggregates_lowered, conditionalAggregates_lowered] at hmap
  simpa using congrArg List.length hmap

end Expr

end StreamQuery
