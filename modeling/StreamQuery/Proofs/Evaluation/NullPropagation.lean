import StreamQuery.Proofs.Evaluation.Sites

/-!
# Null through strict operators

An expression of columns and constants under strict operators becomes null as soon as one of its
columns does. A bound of a slice is the exception: null there counts as no bound, so that a column in
a bound makes the slice null only if it is in the sliced expression too.
-/

namespace StreamQuery

/-- Whether a binary operator evaluates both operands and gives null for a null operand. -/
def BinaryOp.isStrict : BinaryOp → Bool
  | .member | .notMember | .conjunction | .disjunction | .coalesce => false
  | _ => true

namespace Expr

/-- A constant: a literal, or a list or an object of constants. -/
inductive Constant : Expr → Prop where
  | literal (value : Value) : Constant (.literal value)
  | list {items : List Expr} (h : ∀ item ∈ items, Constant item) : Constant (.list items)
  | object {entries : List (Expr × Expr)} (hkeys : ∀ entry ∈ entries, Constant entry.1)
    (hvalues : ∀ entry ∈ entries, Constant entry.2) : Constant (.object entries)

/-- An expression of columns and constants under strict operators. -/
inductive Strict : Expr → Prop where
  | constant {expr : Expr} (h : Constant expr) : Strict expr
  | column (index : Nat) : Strict (.column index)
  | unary (op : UnaryOp) {operand : Expr} (h : Strict operand) : Strict (.unary op operand)
  | binary {op : BinaryOp} {left right : Expr} (hop : op.isStrict = true) (hleft : Strict left)
    (hright : Strict right) : Strict (.binary left op right)
  | item {base index : Expr} (hbase : Strict base) (hindex : Strict index) :
    Strict (.item base index)
  | slice {base : Expr} {start stop : Option Expr} (hbase : Strict base)
    (hstart : ∀ bound, start = some bound → Strict bound)
    (hstop : ∀ bound, stop = some bound → Strict bound) : Strict (.slice base start stop)

/-- Whether a column occurs in an expression. -/
def Mentions (index : Nat) (expr : Expr) : Prop :=
  .column index ∈ expr.subexpressions

/-- Whether a column that occurs in a bound of a slice always occurs in the sliced expression too. -/
def BoundsCovered (index : Nat) (expr : Expr) : Prop :=
  ∀ base start stop, .slice base start stop ∈ expr.subexpressions →
    .column index ∈ optionSubexpressions start ++ optionSubexpressions stop → Mentions index base

variable {index : Nat}

theorem not_mem_pairSubexpressions {part : Expr} {entries : List (Expr × Expr)}
    (h : ∀ entry ∈ entries, part ∉ entry.1.subexpressions ∧ part ∉ entry.2.subexpressions) :
    part ∉ pairSubexpressions entries := by
  induction entries with
  | nil => simp [pairSubexpressions]
  | cons entry entries ih =>
    obtain ⟨hentry, hrest⟩ := List.forall_mem_cons.mp h
    simp [pairSubexpressions, hentry, ih hrest]

theorem Constant.not_mentions {expr : Expr} (h : Constant expr) : ¬ Mentions index expr := by
  induction h with
  | literal value => simp [Mentions, subexpressions]
  | list _ ih =>
    simp only [Mentions, subexpressions, List.mem_cons, reduceCtorEq, false_or,
      mem_listSubexpressions, not_exists, not_and]
    exact ih
  | object _ _ ihkeys ihvalues =>
    simp only [Mentions, subexpressions, List.mem_cons, reduceCtorEq, false_or]
    exact not_mem_pairSubexpressions fun entry h => ⟨ihkeys entry h, ihvalues entry h⟩

theorem BoundsCovered.of_subset {expr part : Expr} (h : BoundsCovered index expr)
    (hsubset : part.subexpressions ⊆ expr.subexpressions) : BoundsCovered index part :=
  fun base start stop hslice => h base start stop (hsubset hslice)

end Expr

/-! ### Operators on null -/

namespace Value

theorem applyBinary_strict {op : BinaryOp} (hop : op.isStrict = true) (left right : Value) :
    applyBinary op left right =
      if left.isNull || right.isNull then .ok .null else applyStrict op left right := by
  cases op <;> first | rfl | cases hop

theorem item_null (base : Value) : item base .null = .ok .null := by
  cases base <;> rfl

/-- A bound that a slice takes may be null as well. -/
theorem slice_null {base start stop value : Value} (h : slice base start stop = .ok value)
    {start' stop' : Value} (hstart : start' = .null ∨ start' = start)
    (hstop : stop' = .null ∨ stop' = stop) : slice .null start' stop' = .ok .null := by
  obtain ⟨first, hfirst, h⟩ := ok_of_bind h
  obtain ⟨last, hlast, h⟩ := ok_of_bind h
  have hfirst' : ∃ first', bound start' = .ok first' := by
    rcases hstart with rfl | rfl
    · exact ⟨none, rfl⟩
    · exact ⟨first, hfirst⟩
  have hlast' : ∃ last', bound stop' = .ok last' := by
    rcases hstop with rfl | rfl
    · exact ⟨none, rfl⟩
    · exact ⟨last, hlast⟩
  obtain ⟨first', hfirst'⟩ := hfirst'
  obtain ⟨last', hlast'⟩ := hlast'
  rw [slice, hfirst', hlast']
  rfl

end Value

namespace Scope

open Stateful StreamQuery.Expr

variable {index : Nat} {scope : Scope}

/-- The scope of a row in which a column is null. -/
def without (index : Nat) (scope : Scope) : Scope :=
  { scope with values := scope.values.set index .null }

theorem evaluateAll_congr {σ : Type} {handler : AggregateHandler σ} {other : Scope}
    {items : List Expr}
    (h : ∀ item ∈ items, other.evaluateWith handler item = scope.evaluateWith handler item) :
    other.evaluateAll handler items = scope.evaluateAll handler items := by
  induction items with
  | nil => rfl
  | cons item items ih =>
    obtain ⟨hitem, hrest⟩ := List.forall_mem_cons.mp h
    simp only [evaluateAll, hitem, ih hrest]

theorem evaluateEntries_congr {σ : Type} {handler : AggregateHandler σ} {other : Scope}
    {entries : List (Expr × Expr)}
    (hkeys : ∀ entry ∈ entries,
      other.evaluateWith handler entry.1 = scope.evaluateWith handler entry.1)
    (hvalues : ∀ entry ∈ entries,
      other.evaluateWith handler entry.2 = scope.evaluateWith handler entry.2) :
    other.evaluateEntries handler entries = scope.evaluateEntries handler entries := by
  induction entries with
  | nil => rfl
  | cons entry entries ih =>
    obtain ⟨hkey, hkeys⟩ := List.forall_mem_cons.mp hkeys
    obtain ⟨hvalue, hvalues⟩ := List.forall_mem_cons.mp hvalues
    simp only [evaluateEntries, hkey, hvalue, ih hkeys hvalues]

theorem evaluate_without_constant {expr : Expr} (h : Constant expr) :
    (scope.without index).evaluate expr = scope.evaluate expr := by
  unfold evaluate
  induction h with
  | literal value => rfl
  | list _ ih => simp only [evaluateWith, evaluateAll_congr ih]
  | object _ _ ihkeys ihvalues => simp only [evaluateWith, evaluateEntries_congr ihkeys ihvalues]

theorem value_without (scope : Scope) (index column : Nat) :
    ((scope.without index).values[column]?).getD .null =
      if column = index then .null else (scope.values[column]?).getD .null := by
  by_cases hcolumn : column = index
  · rw [without, hcolumn, List.getElem?_set_self', if_pos rfl]
    cases scope.values[index]? <;> rfl
  · rw [without, List.getElem?_set_ne (Ne.symm hcolumn), if_neg hcolumn]

/-- What an expression evaluates to on the row without a column, next to its value on the row itself:
null if the expression mentions the column, else the same. -/
def Blanked (index : Nat) (expr : Expr) (value blanked : Value) : Prop :=
  (Mentions index expr → blanked = .null) ∧ (¬ Mentions index expr → blanked = value)

theorem Blanked.eq_or {expr : Expr} {value blanked : Value}
    (h : Blanked index expr value blanked) : blanked = .null ∨ blanked = value := by
  by_cases hmentions : Mentions index expr
  · exact .inl (h.1 hmentions)
  · exact .inr (h.2 hmentions)

/-- An operator that gives null for a null operand on either side. -/
theorem Blanked.apply {expr left right : Expr} {first second first' second' value : Value}
    {operate : Value → Value → Except Error Value}
    (hmentions : Mentions index expr ↔ Mentions index left ∨ Mentions index right)
    (hnull : ∀ value, operate .null value = .ok .null ∧ operate value .null = .ok .null)
    (hleft : Blanked index left first first') (hright : Blanked index right second second')
    (hvalue : operate first second = .ok value) :
    ∃ blanked, operate first' second' = .ok blanked ∧ Blanked index expr value blanked := by
  by_cases hl : Mentions index left
  · refine ⟨.null, ?_, fun _ => rfl, fun h => absurd (hmentions.mpr (.inl hl)) h⟩
    rw [hleft.1 hl, (hnull _).1]
  · by_cases hr : Mentions index right
    · refine ⟨.null, ?_, fun _ => rfl, fun h => absurd (hmentions.mpr (.inr hr)) h⟩
      rw [hright.1 hr, (hnull _).2]
    · refine ⟨value, ?_, fun h => ((hmentions.mp h).elim hl hr).elim, fun _ => rfl⟩
      rw [hleft.2 hl, hright.2 hr, hvalue]

theorem evaluateOption_settles (scope : Scope) (bound : Option Expr) :
    (scope.evaluateOption (fun _ => Evaluating.ofAggregate) bound).Settles := by
  cases bound with
  | none => exact settles_pure _
  | some expr => exact scope.evaluate_settles expr

/-- Whether an expression that has a value on a row has one on the row without a column: null if it
mentions the column, else the same. -/
def PassesNull (scope : Scope) (index : Nat) (expr : Expr) : Prop :=
  ∀ {state after : Aggregates} {value : Value}, (scope.evaluate expr).Gives state (.ok value) after →
    ∃ blanked, ((scope.without index).evaluate expr).Gives state (.ok blanked) after ∧
      Blanked index expr value blanked

theorem passesNull_column (scope : Scope) (index column : Nat) :
    PassesNull scope index (.column column) := by
  intro state after value hvalue
  obtain ⟨hvalue, hafter⟩ := hvalue.unique (gives_pure _ state)
  obtain rfl := Except.ok.inj hvalue
  obtain rfl := hafter
  refine ⟨_, gives_pure _ after, fun hmentions => ?_, fun hmentions => ?_⟩
  · simp only [Mentions, subexpressions, List.mem_singleton, Expr.column.injEq] at hmentions
    rw [value_without, if_pos hmentions.symm]
  · simp only [Mentions, subexpressions, List.mem_singleton, Expr.column.injEq] at hmentions
    rw [value_without, if_neg (Ne.symm hmentions)]

theorem passesNull_constant {expr : Expr} (h : Constant expr) : PassesNull scope index expr := by
  intro state after value hvalue
  have hsame : (scope.without index).evaluate expr = scope.evaluate expr :=
    evaluate_without_constant h
  exact ⟨value, hsame ▸ hvalue, fun hmentions => absurd hmentions h.not_mentions, fun _ => rfl⟩

theorem passesNull_unary {op : UnaryOp} {operand : Expr} (h : PassesNull scope index operand) :
    PassesNull scope index (.unary op operand) := by
  intro state after value hvalue
  obtain ⟨found, middle, hfound, hvalue⟩ :=
    hvalue.of_bind (scope.evaluate_settles operand) fun _ => settles_ofResult _
  obtain ⟨hresult, hafter⟩ := hvalue.unique (gives_ofResult _ middle)
  obtain rfl := hafter
  obtain ⟨found', hfound', hblanked⟩ := h hfound
  have hmentions : Mentions index (.unary op operand) ↔ Mentions index operand := by
    simp [Mentions, subexpressions]
  by_cases hoperand : Mentions index operand
  · have hnull : Value.applyUnary op found' = .ok .null := by
      rw [hblanked.1 hoperand]
      rfl
    exact ⟨.null, hfound'.bind (hnull ▸ gives_ofResult _ _), fun _ => rfl,
      fun h => absurd (hmentions.mpr hoperand) h⟩
  · obtain rfl := hblanked.2 hoperand
    exact ⟨value, hfound'.bind (hresult ▸ gives_ofResult _ _),
      fun h => absurd (hmentions.mp h) hoperand, fun _ => rfl⟩

/-- An operator that gives null for a null operand on either side. -/
theorem passesNull_pair {left right expr : Expr} (operate : Value → Value → Except Error Value)
    (heval : ∀ scope : Scope, scope.evaluate expr = do
      let first ← scope.evaluate left
      .ofResult (operate first (← scope.evaluate right)))
    (hmentions : Mentions index expr ↔ Mentions index left ∨ Mentions index right)
    (hnull : ∀ value, operate .null value = .ok .null ∧ operate value .null = .ok .null)
    (hleft : PassesNull scope index left) (hright : PassesNull scope index right) :
    PassesNull scope index expr := by
  intro state after value hvalue
  rw [heval] at hvalue ⊢
  have hsettles (first : Value) : (do
      Stateful.ofResult (operate first (← scope.evaluate right)) : Evaluating Value).Settles :=
    (scope.evaluate_settles right).bind fun _ => settles_ofResult _
  obtain ⟨first, middle, hfirst, hvalue⟩ :=
    hvalue.of_bind (scope.evaluate_settles left) hsettles
  obtain ⟨second, last, hsecond, hvalue⟩ :=
    hvalue.of_bind (scope.evaluate_settles right) fun _ => settles_ofResult _
  obtain ⟨hresult, hafter⟩ := hvalue.unique (gives_ofResult _ last)
  obtain rfl := hafter
  obtain ⟨first', hfirst', hblanked⟩ := hleft hfirst
  obtain ⟨second', hsecond', hblanked'⟩ := hright hsecond
  obtain ⟨blanked, hresult', hblanked⟩ :=
    Blanked.apply hmentions hnull hblanked hblanked' hresult.symm
  exact ⟨blanked, hfirst'.bind (hsecond'.bind (hresult' ▸ gives_ofResult _ _)), hblanked⟩

theorem passesNull_binary {op : BinaryOp} {left right : Expr} (hop : op.isStrict = true)
    (hleft : PassesNull scope index left) (hright : PassesNull scope index right) :
    PassesNull scope index (.binary left op right) := by
  refine passesNull_pair (Value.applyBinary op) (fun scope => ?_) ?_ (fun value => ?_) hleft hright
  · cases op <;> first | rfl | cases hop
  · simp [Mentions, subexpressions]
  · rw [Value.applyBinary_strict hop, Value.applyBinary_strict hop]
    simp [Value.isNull]

theorem passesNull_item {base key : Expr} (hbase : PassesNull scope index base)
    (hkey : PassesNull scope index key) : PassesNull scope index (.item base key) :=
  passesNull_pair Value.item (fun _ => rfl) (by simp [Mentions, subexpressions])
    (fun value => ⟨rfl, Value.item_null value⟩) hbase hkey

/-- The bound of a slice on the row without a column: null or the bound it was. -/
theorem evaluateOption_without {bound : Option Expr}
    (h : ∀ expr, bound = some expr → PassesNull scope index expr)
    {state after : Aggregates} {value : Value}
    (hvalue : (scope.evaluateOption (fun _ => Evaluating.ofAggregate) bound).Gives state
      (.ok value) after) :
    ∃ blanked, ((scope.without index).evaluateOption (fun _ => Evaluating.ofAggregate) bound).Gives
        state (.ok blanked) after ∧
      (blanked = .null ∨ blanked = value) ∧
      (.column index ∉ optionSubexpressions bound → blanked = value) := by
  cases bound with
  | none => exact ⟨value, hvalue, .inr rfl, fun _ => rfl⟩
  | some expr =>
    obtain ⟨blanked, hgives, hblanked⟩ := h expr rfl hvalue
    exact ⟨blanked, hgives, hblanked.eq_or, hblanked.2⟩

theorem passesNull_slice {base : Expr} {start stop : Option Expr}
    (hcovered : BoundsCovered index (.slice base start stop)) (hbase : PassesNull scope index base)
    (hstart : ∀ bound, start = some bound → PassesNull scope index bound)
    (hstop : ∀ bound, stop = some bound → PassesNull scope index bound) :
    PassesNull scope index (.slice base start stop) := by
  intro state after value hvalue
  have hsettles (sliced start : Value) : (do
      let stop ← scope.evaluateOption (fun _ => Evaluating.ofAggregate) stop
      Stateful.ofResult (sliced.slice start stop) : Evaluating Value).Settles :=
    (scope.evaluateOption_settles stop).bind fun _ => settles_ofResult _
  obtain ⟨sliced, middle, hsliced, hvalue⟩ := hvalue.of_bind (scope.evaluate_settles base)
    fun sliced => (scope.evaluateOption_settles start).bind (hsettles sliced)
  obtain ⟨first, later, hfirst, hvalue⟩ :=
    hvalue.of_bind (scope.evaluateOption_settles start) (hsettles sliced)
  obtain ⟨last, final, hlast, hvalue⟩ :=
    hvalue.of_bind (scope.evaluateOption_settles stop) fun _ => settles_ofResult _
  obtain ⟨hresult, hafter⟩ := hvalue.unique (gives_ofResult _ final)
  obtain rfl := hafter
  obtain ⟨sliced', hsliced', hblanked⟩ := hbase hsliced
  obtain ⟨first', hfirst', hfirstor, hfirsteq⟩ := evaluateOption_without hstart hfirst
  obtain ⟨last', hlast', hlastor, hlasteq⟩ := evaluateOption_without hstop hlast
  have hgives {blanked : Value} (h : sliced'.slice first' last' = .ok blanked) :
      ((scope.without index).evaluate (.slice base start stop)).Gives state (.ok blanked) after :=
    hsliced'.bind (hfirst'.bind (hlast'.bind (h ▸ gives_ofResult _ _)))
  have hbounds : .column index ∈ optionSubexpressions start ++ optionSubexpressions stop →
      Mentions index base := hcovered base start stop List.mem_cons_self
  by_cases hmentions : Mentions index base
  · refine ⟨.null, hgives ?_, fun _ => rfl, fun h => absurd ?_ h⟩
    · rw [hblanked.1 hmentions]
      exact Value.slice_null hresult.symm hfirstor hlastor
    · simp [Mentions, subexpressions, show Expr.column index ∈ base.subexpressions from hmentions]
  · -- The column is in no bound either.
    have hnone := mt hbounds hmentions
    rw [List.mem_append, not_or] at hnone
    refine ⟨value, hgives ?_, fun h => absurd h ?_, fun _ => rfl⟩
    · rw [hblanked.2 hmentions, hfirsteq hnone.1, hlasteq hnone.2, hresult]
    · simpa [Mentions, subexpressions, hnone] using hmentions

theorem passesNull_of_strict {expr : Expr} (h : Strict expr) (hcovered : BoundsCovered index expr) :
    PassesNull scope index expr := by
  induction h with
  | constant h => exact passesNull_constant h
  | column column => exact passesNull_column scope index column
  | unary op h ih => exact passesNull_unary (ih (hcovered.of_subset (by simp [subexpressions])))
  | binary hop _ _ ihleft ihright =>
    exact passesNull_binary hop (ihleft (hcovered.of_subset (by simp [subexpressions])))
      (ihright (hcovered.of_subset (by simp [subexpressions])))
  | item _ _ ihbase ihindex =>
    exact passesNull_item (ihbase (hcovered.of_subset (by simp [subexpressions])))
      (ihindex (hcovered.of_subset (by simp [subexpressions])))
  | slice _ _ _ ihbase ihstart ihstop =>
    refine passesNull_slice hcovered (ihbase (hcovered.of_subset (by simp [subexpressions])))
      (fun bound h => ihstart bound h (hcovered.of_subset fun part hpart => ?_))
      (fun bound h => ihstop bound h (hcovered.of_subset fun part hpart => ?_))
    all_goals
      subst h
      simp [subexpressions, optionSubexpressions, hpart]

/-- An expression of columns and constants under strict operators that has a value on a row has one
on the row with a column it mentions made null, and it is null, if no slice has the column in a bound
only. -/
theorem null_propagates {expr : Expr} (h : Strict expr) (hmentions : Mentions index expr)
    (hcovered : BoundsCovered index expr) {state after : Aggregates} {value : Value}
    (hvalue : (scope.evaluate expr).Gives state (.ok value) after) :
    ((scope.without index).evaluate expr).Gives state (.ok .null) after := by
  obtain ⟨blanked, hgives, hblanked⟩ := passesNull_of_strict h hcovered hvalue
  obtain rfl := hblanked.1 hmentions
  exact hgives

/-- `col1[col2:] + "!"` is `"bc!"` on the row `["abc", 1]`, and null without its first column. -/
theorem null_propagates_of_sliced :
    let expr : Expr := .binary (.slice (.column 0) (some (.column 1)) none) .add (.literal (.str "!"))
    let scope : Scope := { values := [.str "abc", .ofNat 1] }
    Strict expr ∧ Mentions 0 expr ∧ BoundsCovered 0 expr ∧
      (scope.evaluate expr).Gives default (.ok (.str "bc!")) default ∧
      ((scope.without 0).evaluate expr).Gives default (.ok .null) default := by
  intro expr scope
  have hstrict : Strict expr := .binary rfl (.slice (.column 0)
    (fun bound h => by cases h; exact .column 1) nofun) (.constant (.literal _))
  have hmentions : Mentions 0 expr := by simp [expr, Mentions, subexpressions]
  have hcovered : BoundsCovered 0 expr := by
    intro base start stop hslice
    obtain ⟨rfl, rfl, rfl⟩ : base = .column 0 ∧ start = some (.column 1) ∧ stop = none := by
      simpa [expr, subexpressions, optionSubexpressions] using hslice
    simp [optionSubexpressions, subexpressions]
  have hvalue : (scope.evaluate expr).Gives default (.ok (.str "bc!")) default := ⟨[], fun _ => rfl⟩
  exact ⟨hstrict, hmentions, hcovered, hvalue, null_propagates hstrict hmentions hcovered hvalue⟩

/-- A column that is in a bound of a slice only does not make it null: `[1, 2, 3][col1:2]` is `[2]` on
the row `[1]` and `[1, 2]` once the column is null. -/
theorem null_bound_is_no_bound :
    let expr : Expr := .slice (.list [.literal (.ofNat 1), .literal (.ofNat 2), .literal (.ofNat 3)])
      (some (.column 0)) (some (.literal (.ofNat 2)))
    let scope : Scope := { values := [.ofNat 1] }
    Strict expr ∧ Mentions 0 expr ∧
      (scope.evaluate expr).Gives default (.ok (.list [.ofNat 2])) default ∧
      ((scope.without 0).evaluate expr).Gives default (.ok (.list [.ofNat 1, .ofNat 2])) default ∧
      ¬ ∃ after, ((scope.without 0).evaluate expr).Gives default (.ok .null) after := by
  intro expr scope
  have hblank : ((scope.without 0).evaluate expr).Gives default
      (.ok (.list [.ofNat 1, .ofNat 2])) default := ⟨[], fun _ => rfl⟩
  refine ⟨?_, by simp [expr, Mentions, subexpressions, optionSubexpressions], ⟨[], fun _ => rfl⟩,
    hblank, ?_⟩
  · refine .slice (.constant (.list ?_)) (fun bound h => by cases h; exact .column 0)
      (fun bound h => by cases h; exact .constant (.literal _))
    simp only [List.forall_mem_cons, List.not_mem_nil, false_imp_iff, implies_true, and_true]
    exact ⟨.literal _, .literal _, .literal _⟩
  · rintro ⟨after, hnull⟩
    cases (hnull.unique hblank).1

end Scope

end StreamQuery
