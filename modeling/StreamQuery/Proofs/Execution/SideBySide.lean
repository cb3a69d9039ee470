import StreamQuery.Proofs.Execution.Folding
import StreamQuery.Proofs.Execution.Repeating

/-!
# Runs under two orders

Two runs of a query that differ in the keys to order by go on side by side, as long as the records
of every row are the same and both orders sort them alike: they hand the same events to their
writers.
-/

namespace StreamQuery

open Stateful Reporting

/-! ### Outputs under two orders -/

/-- The same query with other keys to order by. -/
def Query.orderedBy (query : Query) (orderBy : List OrderKey) : Query :=
  { query with orderBy := orderBy }

/-- The same job with other keys to order by. -/
def Job.orderedBy (job : Job) (orderBy : List OrderKey) : Job :=
  { job with query := job.query.orderedBy orderBy }

theorem sortFrom_congr {key other : OrderKey} (h : ∀ a b, key.order a b = other.order a b)
    (keys more : List OrderKey) (index : Nat) (records : List OutputRecord) :
    sortFrom index (keys ++ key :: more) records =
      sortFrom index (keys ++ other :: more) records := by
  induction keys generalizing index with
  | nil =>
    have hadmits : key.admits index = other.admits index := by
      funext a b
      rw [OrderKey.admits, OrderKey.admits, h]
    rw [List.nil_append, List.nil_append, sortFrom, sortFrom, hadmits]
  | cons first rest ih => rw [List.cons_append, List.cons_append, sortFrom, sortFrom, ih]

namespace Output

/-- The same output with other keys to order by. -/
def orderedBy (output : Output) (orderBy : List OrderKey) : Output :=
  { output with orderBy := orderBy }

theorem handle_orderedBy (output : Output) (orderBy : List OrderKey) (record : OutputRecord) :
    (output.orderedBy orderBy).handle record =
      ((output.handle record).1, (output.handle record).2.orderedBy orderBy) := by
  obtain ⟨window, keys, kept⟩ := output
  rcases kept with _ | seen | ⟨_ | seen, latest⟩ | records
  all_goals simp only [handle, orderedBy, release]
  all_goals split <;> rfl

theorem orderBy_handle (output : Output) (record : OutputRecord) :
    (output.handle record).2.orderBy = output.orderBy := by
  obtain ⟨window, keys, kept⟩ := output
  rcases kept with _ | seen | ⟨_ | seen, latest⟩ | records
  all_goals simp only [handle, release]
  all_goals split <;> rfl

theorem finish_orderedBy {output : Output} {others : List OrderKey}
    (h : ∀ records, sortRecords others records = sortRecords output.orderBy records) :
    (output.orderedBy others).finish = (output.finish.1, output.finish.2.orderedBy others) := by
  have hrecords : (output.orderedBy others).records = output.records := by
    obtain ⟨window, keys, kept⟩ := output
    cases kept with
    | nothing => rfl
    | keys seen => rfl
    | rows seen latest => exact h _
    | groups records => exact h _
  rw [finish, hrecords]
  rfl

theorem ofQuery_orderedBy {query : Query} {others : List OrderKey}
    (h : others.isEmpty = query.orderBy.isEmpty) :
    ofQuery (query.orderedBy others) = (ofQuery query).orderedBy others := by
  change ofQuery { query with orderBy := others } = _
  simp only [ofQuery, orderedBy, h]
  rfl

end Output

/-! ### One step side by side -/

/-- Two runs side by side: their accumulators are related, the right one has other keys to order by,
and all else is the same. -/
def Beside {σ : Type} (related : Aggregates → Aggregates → Prop) (keys others : List OrderKey)
    (state other : RunState σ) : Prop :=
  state.output.orderBy = keys ∧ ∃ table, related state.aggregates table ∧
    other = { state with aggregates := table, output := state.output.orderedBy others }

/-- Two states with the same writer. -/
def SameWriter {σ : Type} (state other : RunState σ) : Prop :=
  other.writer = state.writer

theorem Beside.mono {σ : Type} {related weaker : Aggregates → Aggregates → Prop}
    {keys others : List OrderKey} {state other : RunState σ}
    (h : Beside related keys others state other)
    (hmono : ∀ table other, related table other → weaker table other) :
    Beside weaker keys others state other :=
  ⟨h.1, h.2.imp fun table found => ⟨hmono _ table found.1, found.2⟩⟩

theorem Beside.sameWriter {σ : Type} {related : Aggregates → Aggregates → Prop}
    {keys others : List OrderKey} {state other : RunState σ}
    (h : Beside related keys others state other) : SameWriter state other := by
  obtain ⟨-, table, -, rfl⟩ := h
  rfl

namespace Job

section Beside

variable {σ α β : Type} {related : Aggregates → Aggregates → Prop} {keys others : List OrderKey}
  {final : β → RunState σ → RunState σ → Prop}

theorem inStep_seeing {left right : RunState σ → Evaluating α}
    {next otherNext : α → Running σ β}
    (h : ∀ state table, InStep related (left state)
      (right { state with aggregates := table, output := state.output.orderedBy others })
      (fun _ => related) fun _ _ => True)
    (hnext : ∀ value, InStep (Beside related keys others) (next value) (otherNext value) final
      SameWriter) :
    InStep (Beside related keys others)
      (MonadState.get >>= fun seen => evaluating (left seen) >>= next)
      (MonadState.get >>= fun seen => evaluating (right seen) >>= otherNext) final SameWriter := by
  refine inStep_get fun seen other hseen => ?_
  obtain ⟨hkeys, table, hrelated, rfl⟩ := hseen
  refine (inStep_evaluating (h seen table) ?_ ?_ ?_).bind hnext
  · rintro _ _ ⟨rfl, rfl⟩
    exact hrelated
  · rintro _ _ ⟨rfl, rfl⟩ value last otherLast hlast
    exact ⟨hkeys, otherLast, hlast, rfl⟩
  · rintro _ _ ⟨rfl, rfl⟩ last otherLast _
    rfl

theorem inStep_change {change : RunState σ → RunState σ}
    (h : ∀ state table, change { state with
        aggregates := table, output := state.output.orderedBy others } =
      { change state with aggregates := table, output := (change state).output.orderedBy others })
    (hsame : ∀ state, (change state).aggregates = state.aggregates ∧
      (change state).output.orderBy = state.output.orderBy) :
    InStep (Beside related keys others) (modify change) (modify change)
      (fun _ => Beside related keys others) SameWriter := by
  refine inStep_modify ?_
  rintro state _ ⟨hkeys, table, hrelated, rfl⟩
  exact ⟨(hsame state).2.trans hkeys, table, (hsame state).1 ▸ hrelated, h state table⟩

theorem gives_write_event (writer : Writer σ) (event : Event) (state : RunState σ) :
    (write writer event).Gives state (writer event state.writer).1
      { state with writer := (writer event state.writer).2 } := by
  refine (gives_get state).bind ?_
  rcases writer event state.writer with ⟨result, written⟩
  refine (gives_set state _).bind ?_
  cases result with
  | ok => exact gives_pure _ _
  | error error => exact gives_throw _ _

theorem inStep_write (writer : Writer σ) (event : Event) :
    InStep (Beside related keys others) (write writer event) (write writer event)
      (fun _ => Beside related keys others) SameWriter := by
  rintro state _ ⟨hkeys, table, hrelated, rfl⟩
  refine ⟨_, _, _, gives_write_event writer event state, gives_write_event writer event _, ?_⟩
  cases (writer event state.writer).1 with
  | ok => exact ⟨hkeys, table, hrelated, rfl⟩
  | error error => rfl

theorem inStep_writeRows (writer : Writer σ) (rows : List (List Value)) :
    InStep (Beside related keys others) (writeRows writer rows) (writeRows writer rows)
      (fun _ => Beside related keys others) SameWriter := by
  induction rows with
  | nil => exact inStep_pure fun _ _ => id
  | cons values rest ih => exact (inStep_write writer _).bind fun _ => ih

/-- Both runs take the same record. -/
theorem inStep_take (job : Job) (pull : Pull) {next otherNext : InputRecord → Running σ β}
    (hnext : ∀ record, pull.result = .ok record →
      InStep (Beside related keys others) (next record) (otherNext record) final SameWriter) :
    InStep (Beside related keys others) (job.take pull >>= next) (job.take pull >>= otherNext) final
      SameWriter := by
  rintro state _ ⟨hkeys, table, hrelated, rfl⟩
  rcases job.take_cases pull with ⟨error, htake⟩ | ⟨record, hrecord, htake⟩
  · exact ⟨_, _, _, (htake _).bind_error, (htake _).bind_error, rfl⟩
  · obtain ⟨result, last, otherLast, hgives, hother, hlast⟩ :=
      hnext record hrecord { state with pulled := state.pulled + 1 } _
        ⟨hkeys, table, hrelated, rfl⟩
    exact ⟨result, last, otherLast, (htake _).bind hgives, (htake _).bind hother, hlast⟩

theorem inStep_set {before : RunState σ → RunState σ → Prop} {seen : RunState σ}
    {table : Aggregates} {output : Output} (hrelated : related seen.aggregates table)
    (hkeys : output.orderBy = keys) :
    InStep before (set { seen with output := output } : Running σ PUnit)
      (set { seen with aggregates := table, output := output.orderedBy others })
      (fun _ => Beside related keys others) SameWriter :=
  fun _ _ _ => ⟨.ok ⟨⟩, _, _, gives_set _ _, gives_set _ _, hkeys, table, hrelated, rfl⟩

/-- A record that both runs hand to their outputs. -/
theorem inStep_hand (writer : Writer σ) (record : OutputRecord) :
    let hand : Running σ Bool := do
      let state ← get
      let (rows, output) := state.output.handle record
      set { state with output := output }
      writeRows writer rows
      return output.isFull
    InStep (Beside related keys others) hand hand (fun _ => Beside related keys others)
      SameWriter := by
  refine inStep_get fun seen other hseen => ?_
  obtain ⟨hkeys, table, hrelated, rfl⟩ := hseen
  dsimp only
  rw [Output.handle_orderedBy]
  refine (inStep_set hrelated ((Output.orderBy_handle _ _).trans hkeys)).bind fun _ => ?_
  exact (inStep_writeRows writer _).bind fun _ => inStep_pure fun _ _ => id

end Beside

/-! ### Rows side by side -/

section Rows

variable {σ : Type} {related : Aggregates → Aggregates → Prop} {keys others : List OrderKey}
  (job : Job) (writer : Writer σ) (plan : Plan) (planKeys : List PlanKey)
  (hcalls : Scope.KeptByCalls related)
  (hrecord : ∀ scope : Scope, scope.Binds job.session.module? →
    InStep related (plan.record scope) ((plan.orderedBy planKeys).record scope) (fun _ => related)
      fun _ _ => True)
include hcalls hrecord

theorem inStep_handleRow (names : List String) (values : List Value) :
    InStep (Beside related keys others) (job.handleRow writer plan names values)
      ((job.orderedBy others).handleRow writer (plan.orderedBy planKeys) names values)
      (fun _ => Beside related keys others) SameWriter := by
  refine inStep_seeing (fun state _ => (Congruence.inStep _).relates_keeps fun expr _ =>
    Scope.evaluates_inStep hcalls _ expr) fun kept => ?_
  cases kept with
  | false => exact inStep_pure fun _ _ => id
  | true =>
    refine InStep.bind (inStep_change ?_ ?_) fun _ => inStep_seeing ?_ fun record =>
      inStep_hand writer record
    · exact fun _ _ => rfl
    · exact fun _ => ⟨rfl, rfl⟩
    · exact fun state _ => hrecord _ fun _ => rfl

theorem inStep_handleRows (names : List String) (rows : List (List Value)) :
    InStep (Beside related keys others) (job.handleRows writer plan names rows)
      ((job.orderedBy others).handleRows writer (plan.orderedBy planKeys) names rows)
      (fun _ => Beside related keys others) SameWriter := by
  induction rows with
  | nil => exact inStep_pure fun _ _ => id
  | cons values rest ih =>
    refine (inStep_handleRow job writer plan planKeys hcalls hrecord names values).bind fun full => ?_
    cases full with
    | true => exact inStep_pure fun _ _ => id
    | false => exact ih

theorem inStep_handleInput (names : List String) (values : List Value) :
    InStep (Beside related keys others) (job.handleInput writer plan names values)
      ((job.orderedBy others).handleInput writer (plan.orderedBy planKeys) names values)
      (fun _ => Beside related keys others) SameWriter := by
  refine InStep.bind (inStep_change ?_ ?_) fun _ => inStep_seeing ?_ fun rows =>
    inStep_handleRows job writer plan planKeys hcalls hrecord names rows
  · exact fun _ _ => rfl
  · exact fun _ => ⟨rfl, rfl⟩
  · exact fun state _ => (Congruence.inStep _).relates_spread (.refl _) fun expr _ =>
      Scope.evaluates_inStep hcalls _ expr

theorem inStep_consumeRows (names : List String) (source : Source) :
    InStep (Beside related keys others) (job.consumeRows writer plan names source)
      ((job.orderedBy others).consumeRows writer (plan.orderedBy planKeys) names source)
      (fun _ => Beside related keys others) SameWriter := by
  induction source with
  | nil => exact inStep_pure fun _ _ => id
  | cons pull rest ih =>
    refine inStep_take job pull fun record _ => ?_
    cases record with
    | header columns => exact ih
    | row values =>
      refine (inStep_handleInput job writer plan planKeys hcalls hrecord names values).bind
        fun full => ?_
      cases full with
      | true => exact inStep_pure fun _ _ => id
      | false => exact ih

end Rows

/-! ### Runs side by side -/

/-- Under its own keys and under other ones a job compiles to two plans that make the same records of
all rows side by side, or to neither. -/
def CompilesBeside (job : Job) (others : List OrderKey) (bindings : ColumnBindings) : Prop :=
  (∃ error, (Plan.ofQuery job.policy job.query bindings).Gives (.error error) ∧
    (Plan.ofQuery job.policy (job.query.orderedBy others) bindings).Gives (.error error)) ∨
  ∃ (plan : Plan) (planKeys : List PlanKey) (related : Aggregates → Aggregates → Prop),
    (Plan.ofQuery job.policy job.query bindings).Gives (.ok plan) ∧
    (Plan.ofQuery job.policy (job.query.orderedBy others) bindings).Gives
      (.ok (plan.orderedBy planKeys)) ∧
    related {} {} ∧ Scope.KeptByCalls related ∧
    ∀ scope : Scope, scope.Binds job.session.module? →
      InStep related (plan.record scope) ((plan.orderedBy planKeys).record scope) (fun _ => related)
        fun _ _ => True

section Run

variable {σ : Type} {keys others : List OrderKey} (job : Job) (writer : Writer σ)

/-- What is left of a run when its first row is there: the query is compiled for the columns of the
row. -/
def planned (declared names : List String) (values : List Value) (rest : Source) :
    Running σ Unit := do
  let bindings := ColumnBindings.ofDeclared values.length declared
  let plan ← Stateful.ofReporting (Plan.ofQuery job.policy job.query bindings)
  if ← job.handleInput writer plan names values then return ()
  else job.consumeRows writer plan names rest

theorem inStep_planned (declared names : List String) (values : List Value) (rest : Source)
    (hcompiles : job.CompilesBeside others (ColumnBindings.ofDeclared values.length declared)) :
    InStep (Beside (fun table other => table = {} ∧ other = {}) keys others)
      (job.planned writer declared names values rest)
      ((job.orderedBy others).planned writer declared names values rest)
      (fun _ => Beside (fun _ _ => True) keys others) SameWriter := by
  rcases hcompiles with ⟨error, hplan, hotherPlan⟩ |
    ⟨plan, planKeys, related, hplan, hotherPlan, hinitial, hcalls, hrecord⟩
  · exact inStep_ofReporting_error hplan hotherPlan fun _ _ h => h.sameWriter
  · -- No call was made yet, so the tables are empty when the relation is chosen.
    have hbefore (table other : Aggregates) (h : table = {} ∧ other = {}) : related table other :=
      h.1 ▸ h.2 ▸ hinitial
    refine inStep_ofReporting_ok hplan hotherPlan (.of_before ?_ fun _ _ h => h.mono hbefore)
    refine (inStep_handleInput job writer plan planKeys hcalls hrecord names values).bind
      fun full => ?_
    cases full with
    | true => exact inStep_pure fun _ _ h => h.mono fun _ _ _ => trivial
    | false =>
      exact (inStep_consumeRows job writer plan planKeys hcalls hrecord names rest).weaken
        fun _ _ _ h => h.mono fun _ _ _ => trivial

theorem inStep_consume (declared : List String) (source : Source)
    (hcompiles : job.CompilesBeside others
      (ColumnBindings.ofDeclared source.width (namesOf declared source.leading))) :
    InStep (Beside (fun table other => table = {} ∧ other = {}) keys others)
      (job.consume writer declared source) ((job.orderedBy others).consume writer declared source)
      (fun _ => Beside (fun _ _ => True) keys others) SameWriter := by
  induction source generalizing declared with
  | nil => exact (inStep_write writer _).weaken fun _ _ _ h => h.mono fun _ _ _ => trivial
  | cons pull rest ih =>
    refine inStep_take job pull fun record hrecord => ?_
    cases record with
    | header names =>
      obtain ⟨hwidth, hnames⟩ := columns_of_header hrecord declared rest
      rw [hwidth, hnames] at hcompiles
      exact ih names hcompiles
    | row values =>
      obtain ⟨hwidth, hnames⟩ := columns_of_row hrecord declared rest
      rw [hwidth, hnames] at hcompiles
      refine (inStep_write writer _).bind fun _ => inStep_get fun seen other hseen => ?_
      have hpinned (state next : RunState σ) (h : state = seen ∧ next = other) :
          Beside (fun table other => table = {} ∧ other = {}) keys others state next :=
        h.1 ▸ h.2 ▸ hseen
      have hplanned := (inStep_planned job writer declared (columnNames declared values.length)
        values rest hcompiles).of_before hpinned
      obtain ⟨hkeys, table, -, rfl⟩ := hseen
      by_cases hdone : seen.output.isDone = true
      · have hother : (seen.output.orderedBy others).isDone = true := hdone
        rw [if_pos hdone, if_pos hother]
        refine inStep_pure ?_
        rintro _ _ ⟨rfl, rfl⟩
        exact ⟨hkeys, table, trivial, rfl⟩
      · have hother : ¬(seen.output.orderedBy others).isDone = true := hdone
        rw [if_neg hdone, if_neg hother]
        exact hplanned

theorem inStep_runAll (source : Source)
    (hsorts : ∀ records, sortRecords others records = sortRecords keys records)
    (hcompiles : job.CompilesBeside others
      (ColumnBindings.ofDeclared source.width (namesOf [] source.leading))) :
    InStep (Beside (fun table other => table = {} ∧ other = {}) keys others)
      (job.runAll writer source) ((job.orderedBy others).runAll writer source)
      (fun _ => SameWriter) SameWriter := by
  refine (inStep_consume job writer [] source hcompiles).bind fun _ =>
    inStep_get fun seen other hseen => ?_
  obtain ⟨hkeys, table, -, rfl⟩ := hseen
  dsimp only
  rw [Output.finish_orderedBy fun records => hkeys ▸ hsorts records]
  have hset := fun before => @inStep_set σ (fun _ _ => True) keys others before seen table
    seen.output.finish.2 trivial hkeys
  refine (hset _).bind fun _ => ?_
  refine (inStep_writeRows writer _).bind fun _ => (inStep_write writer _).bind fun _ =>
    inStep_get ?_
  rintro last _ ⟨-, _, -, rfl⟩
  refine inStep_pure ?_
  rintro _ _ ⟨rfl, rfl⟩
  rfl

end Run

end Job

end StreamQuery
