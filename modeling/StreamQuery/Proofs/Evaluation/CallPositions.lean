import StreamQuery.Proofs.Evaluation.Sites
import StreamQuery.Proofs.Execution.Plan
import StreamQuery.Proofs.Execution.Row

/-!
# Positions of aggregate calls

An evaluation is recorded: every aggregate call with its position. When no part of an expression
that is evaluated for some rows only calls an aggregate, the recorded calls are the same on all
rows and stand at consecutive positions.
-/

namespace StreamQuery

open Stateful

/-- The accumulators, and the aggregate calls so far with their positions. -/
abbrev Recorded := Aggregates × List (Expr × Nat)

/-- Carries out an aggregate call and records it. -/
def recording : AggregateHandler Recorded := fun call function arguments =>
  ExceptT.mk fun recorded => pure
    ((recorded.1.call function arguments).1,
      (recorded.1.call function arguments).2, recorded.2 ++ [(call, recorded.1.position)])

namespace Scope

/-- The aggregate calls of an evaluation, in order. -/
def callsOf (scope : Scope) (expr : Expr) (table : Aggregates) : List (Expr × Nat) :=
  ((scope.evaluateWith recording expr).outcome (table, []) []).1.2.2

/-- The aggregate calls of the evaluation of expressions one after the other, in order. -/
def callsOfAll (scope : Scope) (exprs : List Expr) (table : Aggregates) : List (Expr × Nat) :=
  ((scope.evaluateAll recording exprs).outcome (table, []) []).1.2.2

end Scope

/-! ### Recording changes nothing -/

theorem agree_recording (call : Expr) (function : Aggregate) (arguments : List Value) :
    Agree (fun (recorded : Recorded) table => recorded.1 = table)
      (recording call function arguments) (Evaluating.ofAggregate function arguments) := by
  rintro ⟨table, calls⟩ _ rfl
  have hplain := Scope.gives_ofAggregate function arguments table
  have hrecorded : (recording call function arguments).Gives (table, calls)
      (table.call function arguments).1
      ((table.call function arguments).2, calls ++ [(call, table.position)]) :=
    ⟨[], fun _ => rfl⟩
  cases hcall : (table.call function arguments).1 with
  | ok value =>
    rw [hcall] at hplain hrecorded
    exact .inl ⟨value, _, _, hrecorded, hplain, rfl⟩
  | error error =>
    rw [hcall] at hplain hrecorded
    exact .inr ⟨error, error, _, _, hrecorded, hplain⟩

theorem Scope.admits_recording (scope : Scope) (part : Expr) :
    (Congruence.succeeding fun (recorded : Recorded) table => recorded.1 = table).Admits recording
      (fun _ => Evaluating.ofAggregate) scope scope part :=
  ⟨fun _ _ => rfl, fun _ function arguments _ _ => agree_recording part function arguments⟩

/-- Recorded evaluation gives the values and the accumulators of evaluation. -/
theorem Scope.agree_evaluateWith_recording (scope : Scope) (expr : Expr) :
    Agree (fun (recorded : Recorded) table => recorded.1 = table)
      (scope.evaluateWith recording expr) (scope.evaluate expr) :=
  (Congruence.succeeding _).relates_evaluateWith (alike_succeeding rfl rfl) expr
    fun part _ => scope.admits_recording part

/-! ### Consecutive calls -/

/-- A computation that makes the calls of some sites, in order and at consecutive positions, if it
succeeds. -/
def Performs {α : Type} (sites : List Expr) (computation : Stateful Recorded α) : Prop :=
  ∀ state, (∃ value after, computation.Gives state (.ok value) after ∧
      after.1.position = state.1.position + sites.length ∧
      after.2 = state.2 ++ sites.zipIdx state.1.position) ∨
    ∃ error after, computation.Gives state (.error error) after

namespace Performs

variable {α β : Type}

theorem of_quiet {computation : Stateful Recorded α} (h : computation.Quiet) :
    Performs [] computation := by
  intro state
  rcases h state with ⟨value, h⟩ | failed
  · exact .inl ⟨value, state, h, rfl, (List.append_nil _).symm⟩
  · exact .inr failed

theorem pure (value : α) : Performs [] (Pure.pure value : Stateful Recorded α) :=
  of_quiet fun state => .inl ⟨value, gives_pure value state⟩

theorem bind {sites later : List Expr} {computation : Stateful Recorded α}
    {next : α → Stateful Recorded β} (hfirst : Performs sites computation)
    (hnext : ∀ value, Performs later (next value)) :
    Performs (sites ++ later) (computation >>= next) := by
  intro state
  rcases hfirst state with ⟨value, middle, hgives, hposition, hcalls⟩ | ⟨error, after, hgives⟩
  · rcases hnext value middle with
      ⟨result, after, hgives', hposition', hcalls'⟩ | ⟨error, after, hgives'⟩
    · refine .inl ⟨result, after, hgives.bind hgives', ?_, ?_⟩
      · rw [hposition', hposition, List.length_append, Nat.add_assoc]
      · rw [hcalls', hcalls, hposition, List.zipIdx_append, List.append_assoc]
    · exact .inr ⟨error, after, hgives.bind hgives'⟩
  · exact .inr ⟨error, after, hgives.bind_error⟩

/-- What a performing computation gives when it succeeds. -/
theorem of_gives {sites : List Expr} {computation : Stateful Recorded α} {state after : Recorded}
    {value : α} (h : Performs sites computation)
    (hgives : computation.Gives state (.ok value) after) :
    after.1.position = state.1.position + sites.length ∧
      after.2 = state.2 ++ sites.zipIdx state.1.position := by
  rcases h state with ⟨_, _, hgives', hafter⟩ | ⟨_, _, hgives'⟩
  · obtain ⟨_, rfl⟩ := hgives.unique hgives'
    exact hafter
  · cases (hgives.unique hgives').1

end Performs

theorem Aggregates.position_call {function : Aggregate} {arguments : List Value}
    {table : Aggregates} {value : Value} (h : (table.call function arguments).1 = .ok value) :
    (table.call function arguments).2.position = table.position + 1 := by
  unfold Aggregates.call at h ⊢
  cases hstep : function.step arguments with
  | error error => simp only [hstep] at h; cases h
  | ok step =>
    simp only [hstep] at h ⊢
    cases hnext : step table.next with
    | error error => simp only [hnext] at h; cases h
    | ok next => rfl

theorem performs_recording (call : Expr) (function : Aggregate) (arguments : List Value) :
    Performs [call] (recording call function arguments) := by
  rintro ⟨table, calls⟩
  have hrecorded : (recording call function arguments).Gives (table, calls)
      (table.call function arguments).1
      ((table.call function arguments).2, calls ++ [(call, table.position)]) :=
    ⟨[], fun _ => rfl⟩
  cases hcall : (table.call function arguments).1 with
  | ok value =>
    rw [hcall] at hrecorded
    exact .inl ⟨value, _, hrecorded, Aggregates.position_call hcall, rfl⟩
  | error error =>
    rw [hcall] at hrecorded
    exact .inr ⟨error, _, hrecorded⟩

/-! ### Calls that do not depend on the row -/

/-- The sites of the calls that a recorded computation makes. -/
def sitedPerforms : Sited recording where
  holds := Performs
  pure := Performs.pure
  throw error := Performs.of_quiet fun state => .inr ⟨error, state, gives_throw error state⟩
  bind := Performs.bind
  warns policy warning := by
    obtain ⟨raised, h⟩ := Reporting.settles_raise policy warning
    refine Performs.of_quiet fun state => ?_
    cases raised with
    | ok value => exact .inl ⟨value, gives_ofReporting h state⟩
    | error error => exact .inr ⟨error, state, gives_ofReporting h state⟩
  calls := performs_recording

/-- All evaluations of an expression make the calls of the same sites, if the parts that are
evaluated for some rows only call no aggregates. -/
theorem exists_performs_evaluateWith (modules : String → Option String) (expr : Expr)
    (h : ∀ part ∈ expr.subexpressions, part.BranchesCallNone) :
    ∃ sites, ∀ scope : Scope, scope.Binds modules →
      Performs sites (scope.evaluateWith recording expr) :=
  sitedPerforms.exists_holds_evaluateWith modules expr h

theorem exists_performs_evaluateAll (modules : String → Option String) (exprs : List Expr)
    (h : ∀ part ∈ Expr.listSubexpressions exprs, part.BranchesCallNone) :
    ∃ sites, ∀ scope : Scope, scope.Binds modules →
      Performs sites (scope.evaluateAll recording exprs) :=
  sitedPerforms.exists_holds_evaluateAll modules exprs h

/-! ### Positions on every row -/

theorem Scope.agree_evaluateAll_recording (scope : Scope) (exprs : List Expr) :
    Agree (fun (recorded : Recorded) table => recorded.1 = table)
      (scope.evaluateAll recording exprs) (scope.valuesOf exprs) :=
  (Congruence.succeeding _).relates_evaluateAll (alike_succeeding rfl rfl) exprs
    fun part _ => scope.admits_recording part

/-- A success is also one of the recorded computation, which makes the calls of its sites. -/
theorem Performs.recorded_calls {α : Type} {sites : List Expr} {recorded : Stateful Recorded α}
    {computation : Evaluating α} {table after : Aggregates} {value : α}
    (hperforms : Performs sites recorded)
    (hagree : Agree (fun (recorded : Recorded) table => recorded.1 = table) recorded computation)
    (h : computation.Gives table (.ok value) after) :
    (recorded.outcome (table, []) []).1.2.2 = sites.zipIdx table.position ∧
      after.position = table.position + sites.length := by
  rcases hagree (table, []) table rfl with
    ⟨other, ⟨last, calls⟩, _, hrecorded, hgives, rfl⟩ | failed
  · obtain ⟨_, rfl⟩ := h.unique hgives
    obtain ⟨hposition, hcalls⟩ := hperforms.of_gives hrecorded
    obtain ⟨raised, hrecorded⟩ := hrecorded
    rw [hrecorded []]
    exact ⟨hcalls, hposition⟩
  · obtain ⟨_, _, _, _, _, hgives⟩ := failed
    cases (h.unique hgives).1

/-- The aggregate calls of the record of a row, once its group was started. -/
def Plan.callsOf (plan : Plan) (scope : Scope) (table : Aggregates) : List (Expr × Nat) :=
  scope.callsOfAll plan.rowExpressions ((plan.startGroup scope).outcome table []).1.2

/-- All rows make the aggregate calls of the same sites, from a position that depends on the start
of their groups only. -/
theorem Plan.exists_callsOf (plan : Plan) (modules : String → Option String)
    (hsilent : ∀ expr ∈ plan.rowExpressions, expr.conditionalAggregates = []) :
    ∃ sites : List Expr, ∀ (scope : Scope) (table after : Aggregates) (record : OutputRecord),
      scope.Binds modules → (plan.record scope).Gives table (.ok record) after →
      ∃ start, plan.callsOf scope table = sites.zipIdx start ∧
        after.position = start + sites.length ∧
        (plan.groupBy ≠ [] → start = 0) ∧ (plan.groupBy = [] → start = table.position) := by
  have hparts : ∀ part ∈ Expr.listSubexpressions plan.rowExpressions, part.BranchesCallNone := by
    intro part hpart
    obtain ⟨expr, hexpr, hpart⟩ := Expr.mem_listSubexpressions.mp hpart
    exact Expr.conditionalAggregates_eq_nil_iff.mp (hsilent expr hexpr) part hpart
  obtain ⟨sites, hsites⟩ := exists_performs_evaluateAll modules plan.rowExpressions hparts
  refine ⟨sites, fun scope table after record binds h => ?_⟩
  obtain ⟨started, values, hstart, hvalues⟩ := Plan.valuesOf_of_record h
  obtain ⟨hcalls, hposition⟩ := (hsites scope binds).recorded_calls
    (scope.agree_evaluateAll_recording _) hvalues
  refine ⟨started.position, ?_, hposition, fun hgroups => ?_, fun hgroups => ?_⟩
  · obtain ⟨raised, hstart⟩ := hstart
    rw [Plan.callsOf, hstart []]
    exact hcalls
  · obtain ⟨_, _, _, _, rfl⟩ := startRow_of_startGroup hgroups hstart
    rfl
  · rw [eq_of_startGroup hgroups hstart]

/-- Two scopes with the same variables and the same imports. -/
def Scope.Shares (scope other : Scope) : Prop :=
  scope.session.vars = other.session.vars ∧ scope.session.imports = other.session.imports

theorem Scope.Shares.binds {scope other : Scope} (h : scope.Shares other) :
    scope.Binds other.session.module? := by
  intro name
  simp only [Session.module?, h.1, h.2]

/-- The rows of every group counted, once in its columns and once to order the groups. -/
def Plan.counting : Plan where
  items := [.star, .expression (.call "count_agg" [.column 1])]
  explode := none
  condition := none
  groupBy := [.column 0]
  orderBy := [.expression (.call "count_agg" [.column 0])]

theorem Plan.counting_gives (scope : Scope) (table : Aggregates) :
    ∃ record after, (Plan.counting.record scope).Gives table (.ok record) after := by
  let key := tupleKey [(scope.values[0]?).getD .null]
  have hstart : (Plan.counting.startGroup scope).Gives table (.ok key) (table.startRow key) :=
    ⟨[], fun _ => rfl⟩
  have hcount (index : Nat) (table : Aggregates) : ∃ count after,
      (scope.evaluate (.call "count_agg" [.column index])).Gives table (.ok count) after :=
    ⟨_, _, scope.gives_count (scope.gives_column index table)⟩
  obtain ⟨count, middle, hfirst⟩ := hcount 1 (table.startRow key)
  have hcounted : (project scope 2 [.expression (.call "count_agg" [.column 1])]).Gives
      (table.startRow key) (.ok [count]) middle :=
    (hfirst.mapError _).bind ((gives_pure _ _).bind (gives_pure _ _))
  have hvalues : (project scope 1 Plan.counting.items).Gives (table.startRow key)
      (.ok (scope.values ++ [count])) middle := hcounted.bind (gives_pure _ _)
  obtain ⟨order, after, horder⟩ := hcount 0 middle
  have hkeys : (sortKeys scope (scope.values ++ [count]) 1 Plan.counting.orderBy).Gives middle
      (.ok [order]) after :=
    (horder.mapError _).bind ((gives_pure _ _).bind (gives_pure _ _))
  exact ⟨_, _, hstart.bind (hvalues.bind (hkeys.bind (gives_pure _ _)))⟩

theorem zipIdx_eq_iff {sites : List Expr} {start other : Nat} :
    sites.zipIdx start = sites.zipIdx other ↔ start = other ∨ sites = [] := by
  cases sites with
  | nil => simp
  | cons site rest =>
    constructor
    · intro h
      rw [List.zipIdx_cons, List.zipIdx_cons] at h
      exact .inl (Prod.mk.inj (List.cons.inj h).1).2
    · rintro (rfl | h)
      · rfl
      · cases h

/-- Where nothing that is evaluated for some rows only calls an aggregate, all rows make the same
aggregate calls. The calls of a `SELECT` list and its `ORDER BY` expressions get the same positions
on two rows exactly if rows start their groups, or both rows begin at the same position, or there
are no calls. -/
theorem call_positions_stable (scope other : Scope) (hshares : scope.Shares other)
    (table otherTable after otherAfter : Aggregates) :
    (∀ (expr : Expr) (value otherValue : Value), expr.conditionalAggregates = [] →
      (scope.evaluate expr).Gives table (.ok value) after →
      (other.evaluate expr).Gives otherTable (.ok otherValue) otherAfter →
      (scope.callsOf expr table).map (·.1) = (other.callsOf expr otherTable).map (·.1) ∧
        after.position = table.position + (scope.callsOf expr table).length ∧
        otherAfter.position = otherTable.position + (other.callsOf expr otherTable).length ∧
        (expr.CallsNoAggregate → scope.callsOf expr table = [])) ∧
    ∀ (plan : Plan) (record otherRecord : OutputRecord),
      (∀ expr ∈ plan.rowExpressions, expr.conditionalAggregates = []) →
      (plan.record scope).Gives table (.ok record) after →
      (plan.record other).Gives otherTable (.ok otherRecord) otherAfter →
      (plan.callsOf scope table).map (·.1) = (plan.callsOf other otherTable).map (·.1) ∧
        (plan.callsOf scope table = plan.callsOf other otherTable ↔
          plan.groupBy ≠ [] ∨ table.position = otherTable.position ∨
            plan.callsOf scope table = []) ∧
        (plan.groupBy ≠ [] →
          (plan.callsOf scope table).map (·.2) = List.range after.position ∧
            after.position = otherAfter.position) := by
  constructor
  · intro expr value otherValue hsilent h hother
    -- The calls are those of the same sites, from the position at which each row begins.
    obtain ⟨sites, hsites⟩ := exists_performs_evaluateWith other.session.module? expr
      (Expr.conditionalAggregates_eq_nil_iff.mp hsilent)
    obtain ⟨hcalls, hposition⟩ :=
      (hsites scope hshares.binds).recorded_calls (scope.agree_evaluateWith_recording expr) h
    obtain ⟨hotherCalls, hotherPosition⟩ :=
      (hsites other fun _ => rfl).recorded_calls (other.agree_evaluateWith_recording expr) hother
    change scope.callsOf expr table = _ at hcalls
    change other.callsOf expr otherTable = _ at hotherCalls
    refine ⟨?_, ?_, ?_, fun hnone => ?_⟩
    · rw [hcalls, hotherCalls, List.zipIdx_map_fst, List.zipIdx_map_fst]
    · rw [hcalls, List.length_zipIdx, hposition]
    · rw [hotherCalls, List.length_zipIdx, hotherPosition]
    · exact ((Performs.of_quiet (Scope.quiet_evaluateWith recording scope hnone)).recorded_calls
        (scope.agree_evaluateWith_recording expr) h).1
  · intro plan record otherRecord hsilent h hother
    obtain ⟨sites, hsites⟩ := plan.exists_callsOf other.session.module? hsilent
    -- Rows that start their groups begin at the first position, other rows where they are.
    obtain ⟨start, hcalls, hposition, hgrouped, hplain⟩ :=
      hsites scope table after record hshares.binds h
    obtain ⟨otherStart, hotherCalls, hotherPosition, hotherGrouped, hotherPlain⟩ :=
      hsites other otherTable otherAfter otherRecord (fun _ => rfl) hother
    rw [hcalls, hotherCalls, hposition, hotherPosition]
    refine ⟨?_, ?_, fun hgroups => ?_⟩
    · rw [List.zipIdx_map_fst, List.zipIdx_map_fst]
    · rw [zipIdx_eq_iff, List.zipIdx_eq_nil_iff]
      by_cases hgroups : plan.groupBy = []
      · rw [hplain hgroups, hotherPlain hgroups]
        simp [hgroups]
      · rw [hgrouped hgroups, hotherGrouped hgroups]
        simp [hgroups]
    · rw [hgrouped hgroups, hotherGrouped hgroups, Nat.zero_add, List.range_eq_range']
      exact ⟨List.zipIdx_map_snd 0 sites, rfl⟩

/-- Two rows of a plan that counts in its columns and in its order keys. -/
theorem call_positions_stable_of_counting :
    let call : Expr := .call "count_agg" [.column 1]
    let scope : Scope := { values := [.str "a", .null] }
    let other : Scope := { values := [.str "b", .bool true], rowNumber := 7 }
    (call.conditionalAggregates = [] ∧
      (∀ expr ∈ Plan.counting.rowExpressions, expr.conditionalAggregates = []) ∧
      scope.Shares other ∧ Plan.counting.groupBy ≠ []) ∧
    (∃ value otherValue after otherAfter,
      (scope.evaluate call).Gives {} (.ok value) after ∧
      (other.evaluate call).Gives {} (.ok otherValue) otherAfter ∧
      (scope.callsOf call {}).map (·.1) = (other.callsOf call {}).map (·.1)) ∧
    ∃ record otherRecord after otherAfter,
      (Plan.counting.record scope).Gives {} (.ok record) after ∧
      (Plan.counting.record other).Gives {} (.ok otherRecord) otherAfter ∧
      Plan.counting.callsOf scope {} = Plan.counting.callsOf other {} ∧
      after.position = otherAfter.position := by
  intro call scope other
  have hsilent : ∀ expr ∈ Plan.counting.rowExpressions, expr.conditionalAggregates = [] := by
    intro expr hexpr
    simp only [Plan.rowExpressions, Plan.counting, Plan.itemExpressions, Plan.keyExpressions,
      List.cons_append, List.nil_append, List.mem_cons, List.not_mem_nil, or_false] at hexpr
    rcases hexpr with rfl | rfl <;> rfl
  have hshares : scope.Shares other := ⟨rfl, rfl⟩
  have hgroups : Plan.counting.groupBy ≠ [] := List.cons_ne_nil _ _
  have h := scope.gives_count (scope.gives_column 1 {})
  have hother := other.gives_count (other.gives_column 1 {})
  obtain ⟨record, last, hrecord⟩ := Plan.counting_gives scope {}
  obtain ⟨otherRecord, otherLast, hotherRecord⟩ := Plan.counting_gives other {}
  obtain ⟨hcalls, -, -, -⟩ := (call_positions_stable scope other hshares {} {} _ _).1 call _ _ rfl
    h hother
  obtain ⟨-, hpositions, hlast⟩ := (call_positions_stable scope other hshares {} {} last
    otherLast).2 Plan.counting record otherRecord hsilent hrecord hotherRecord
  exact ⟨⟨rfl, hsilent, hshares, hgroups⟩, ⟨_, _, _, _, h, hother, hcalls⟩,
    ⟨_, _, _, _, hrecord, hotherRecord, hpositions.mpr (.inl hgroups), (hlast hgroups).2⟩⟩

/-- A query whose call of an aggregate was read as part of a literal: `->` takes the literal and the
letters around it for one name. Its text seems to call no aggregates, so that it has no groups. -/
def Query.hidingCall : Query where
  imports := []
  selection :=
    { items := [.column "n" "[NULL['x__aaaaaaaaaaaa__x']]"], distinct := false, partials := false }
  source := none
  explode := none
  condition := none
  groupBy := []
  orderBy := []
  limit := none
  offset := 0
  target := .format ⟨"memory", [], []⟩
  literals := [("__aaaaaaaaaaaa__".toList, ⟨'\'', "], count_agg(TRUE), NULL[".toList⟩)]

/-- The plan of the query, in which the call is one. -/
def Plan.hidingCall : Plan where
  items := [.expression (.list [.field (.literal .null) "x",
    .call "count_agg" [.literal (.bool true)], .field (.literal .null) "x"])]
  explode := none
  condition := none
  groupBy := []
  orderBy := []

/-- Whether compiling gave the plan of the query. -/
def Plan.isHidingCall : Except Error Plan → Bool
  | .ok ⟨[.expression (.list [.field (.literal .null) "x",
      .call "count_agg" [.literal (.bool true)], .field (.literal .null) "x"])],
      none, none, [], []⟩ => true
  | _ => false

theorem Plan.eq_of_isHidingCall {result : Except Error Plan} (h : isHidingCall result = true) :
    result = .ok hidingCall := by
  unfold isHidingCall at h
  split at h
  · rfl
  · cases h

theorem Plan.gives_hidingCall :
    (Plan.ofQuery .report .hidingCall (ColumnBindings.ofDeclared 1 [])).Gives
      (.ok Plan.hidingCall) := by
  have hplan := (Plan.ofQuery_settles .report .hidingCall (ColumnBindings.ofDeclared 1 [])).gives
  have hcompiled : isHidingCall ((Plan.ofQuery .report .hidingCall
      (ColumnBindings.ofDeclared 1 [])).run.run []).1 = true := by
    decide +kernel
  rwa [eq_of_isHidingCall hcompiled] at hplan

theorem Plan.gives_record_of_isOk {plan : Plan} {scope : Scope} {table : Aggregates}
    (h : ((plan.record scope).outcome table []).1.1.isOk = true) :
    ∃ record, (plan.record scope).Gives table (.ok record)
      ((plan.record scope).outcome table []).1.2 := by
  have hgives := (plan.record_settles scope).gives table
  obtain ⟨record, hresult⟩ := exists_of_isOk h
  exact ⟨record, hresult ▸ hgives⟩

/-- Without groups the position of one call goes on from row to row. -/
theorem call_positions_shift :
    let first : Scope := { values := [.bool true] }
    let second : Scope := { values := [.bool false] }
    (Query.aggregatesIn "SELECT [NULL->x__aaaaaaaaaaaa__x] AS n".toList = [] ∧
      Shorthand.expand "[NULL->x__aaaaaaaaaaaa__x]".toList =
        "[NULL['x__aaaaaaaaaaaa__x']]".toList ∧
      (Plan.ofQuery .report .hidingCall (ColumnBindings.ofDeclared 1 [])).Gives
        (.ok Plan.hidingCall)) ∧
    (∀ expr ∈ Plan.hidingCall.rowExpressions, expr.conditionalAggregates = []) ∧
    first.Shares second ∧
    ∃ record otherRecord middle last,
      (Plan.hidingCall.record first).Gives {} (.ok record) middle ∧
      (Plan.hidingCall.record second).Gives middle (.ok otherRecord) last ∧
      (Plan.hidingCall.callsOf first {}).map (·.2) = [0] ∧
      (Plan.hidingCall.callsOf second middle).map (·.2) = [1] := by
  intro first second
  -- The second row starts from the accumulators of the first one: nothing resets the position.
  obtain ⟨record, hrecord⟩ : ∃ record, (Plan.hidingCall.record first).Gives {} (.ok record)
      ((Plan.hidingCall.record first).outcome {} []).1.2 :=
    Plan.gives_record_of_isOk (by decide)
  obtain ⟨otherRecord, hotherRecord⟩ := Plan.gives_record_of_isOk
    (show ((Plan.hidingCall.record second).outcome
      ((Plan.hidingCall.record first).outcome {} []).1.2 []).1.1.isOk = true by decide)
  exact ⟨⟨by decide, by decide, Plan.gives_hidingCall⟩, by decide,
    ⟨rfl, rfl⟩, record, otherRecord, _, _, hrecord, hotherRecord, by decide,
    by decide⟩

end StreamQuery
