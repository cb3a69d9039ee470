import StreamQuery.Execution.Run
import StreamQuery.Proofs.Evaluation.RowNumber
import StreamQuery.Proofs.Execution.Pipeline

/-!
# The numbers of the rows of a run

The rows that a run looks at are listed in order, each with the state of the run before it. The number
that the condition sees on a row counts the earlier rows that were kept; all other clauses see one
more.
-/

namespace StreamQuery

open Stateful

/-- A row that a run looks at: the plan and the names of the columns, its values, and the state and
the warnings of the run before it. -/
structure Visit (σ : Type) where
  plan : Plan
  names : List String
  values : List Value
  state : RunState σ
  raised : List Warning

/-- Whether a result is a yes. -/
def granted : Except Error Bool → Bool
  | .ok answer => answer
  | .error _ => false

namespace Visit

variable {σ : Type}

/-- What the expressions of the row see if its number is the given one. -/
def scopeAt (job : Job) (number : Nat) (visit : Visit σ) : Scope :=
  (job.scope visit.names visit.values visit.state).numbered number

/-- Whether the row passes the condition. -/
def passes (job : Job) (visit : Visit σ) : Bool :=
  granted ((visit.plan.keeps (job.scope visit.names visit.values visit.state)).outcome
    visit.state.aggregates visit.raised).1.1

end Visit

namespace Job

variable {σ : Type} (job : Job) (writer : Writer σ)

/-! ### The rows of a run -/

/-- What follows a step of a run that succeeds. -/
def following {α β : Type} (step : Running σ α) (state : RunState σ) (raised : List Warning)
    (next : α → RunState σ → List Warning → List β) : List β :=
  match step.outcome state raised with
  | ((.ok value, later), raised) => next value later raised
  | ((.error _, _), _) => []

/-- The rows that are looked at until no more are wanted. -/
def visitRows (plan : Plan) (names : List String) :
    List (List Value) → RunState σ → List Warning → List (Visit σ)
  | [], _, _ => []
  | values :: rest, state, raised =>
    ⟨plan, names, values, state, raised⟩ ::
      following (job.handleRow writer plan names values) state raised fun full later raised =>
        if full then [] else visitRows plan names rest later raised

/-- Counts a row of the input and spreads it. -/
def spreadInput (plan : Plan) (names : List String) (values : List Value) :
    Running σ (List (List Value)) := do
  modify fun state => { state with inputRowNumber := state.inputRowNumber + 1 }
  evaluating (plan.spread (job.scope names values (← get)))

/-- The rows that are looked at for a row of the input. -/
def visitInput (plan : Plan) (names : List String) (values : List Value) (state : RunState σ)
    (raised : List Warning) : List (Visit σ) :=
  following (job.spreadInput plan names values) state raised (job.visitRows writer plan names)

/-- The rows that are looked at for a row of the input, and those that come later. -/
def visitThen (plan : Plan) (names : List String) (values : List Value)
    (later : RunState σ → List Warning → List (Visit σ)) (state : RunState σ)
    (raised : List Warning) : List (Visit σ) :=
  job.visitInput writer plan names values state raised ++
    following (job.handleInput writer plan names values) state raised fun full state raised =>
      if full then [] else later state raised

/-- The rows that are looked at after the first row of the input. -/
def visitRest (plan : Plan) (names : List String) :
    Source → RunState σ → List Warning → List (Visit σ)
  | [], _, _ => []
  | pull :: rest, state, raised =>
    following (job.take pull) state raised fun
      | .header _ => visitRest plan names rest
      | .row values => job.visitThen writer plan names values (visitRest plan names rest)

/-- Writes the header and plans the query for its columns, unless no rows are wanted. -/
def begin (declared : List String) (values : List Value) : Running σ (Option Plan) := do
  job.writeHeader writer (columnNames declared values.length)
  if (← get).output.isDone then return none
  else
    return some (← Stateful.ofReporting
      (Plan.ofQuery job.policy job.query (ColumnBindings.ofDeclared values.length declared)))

/-- The rows that are looked at from the beginning, where `declared` are the names of the last
header. -/
def visitFrom (declared : List String) : Source → RunState σ → List Warning → List (Visit σ)
  | [], _, _ => []
  | pull :: rest, state, raised =>
    following (job.take pull) state raised fun
      | .header names => visitFrom names rest
      | .row values => fun state raised =>
        following (job.begin writer declared values) state raised fun
          | none => fun _ _ => []
          | some plan => job.visitThen writer plan (columnNames declared values.length) values
            (job.visitRest writer plan (columnNames declared values.length) rest)

/-- The rows that a run looks at, in order. -/
def visits (start : σ) (source : Source) : List (Visit σ) :=
  job.visitFrom writer [] source (job.initial start) []

/-! ### One row -/

/-- What becomes of a row, given what decides whether it is kept and what makes its record. -/
def handleWith (keeps : Evaluating Bool) (record : Evaluating OutputRecord) : Running σ Bool := do
  let kept ← evaluating keeps
  if !kept then return false
  else
    modify fun state => { state with rowNumber := state.rowNumber + 1 }
    let record ← evaluating record
    let state ← get
    let (rows, output) := state.output.handle record
    set { state with output := output }
    writeRows writer rows
    return output.isFull

theorem outcome_evaluating {α : Type} (computation : Evaluating α) (state : RunState σ)
    (raised : List Warning) :
    (evaluating computation).outcome state raised =
      (((computation.outcome state.aggregates raised).1.1,
        { state with aggregates := (computation.outcome state.aggregates raised).1.2 }),
        (computation.outcome state.aggregates raised).2) :=
  rfl

theorem outcome_get_bind {α : Type} (next : RunState σ → Running σ α) (state : RunState σ)
    (raised : List Warning) :
    (get >>= next).outcome state raised = (next state).outcome state raised :=
  rfl

theorem outcome_modify_bind {α : Type} (change : RunState σ → RunState σ)
    (next : PUnit → Running σ α) (state : RunState σ) (raised : List Warning) :
    (modify change >>= next).outcome state raised = (next ⟨⟩).outcome (change state) raised :=
  rfl

/-- The condition sees the number of the state before the row, all else the number after it. -/
theorem outcome_handleRow (visit : Visit σ) :
    (job.handleRow writer visit.plan visit.names visit.values).outcome visit.state visit.raised =
      (handleWith writer (visit.plan.keeps (visit.scopeAt job visit.state.rowNumber))
        (visit.plan.record (visit.scopeAt job (visit.state.rowNumber + 1)))).outcome visit.state
          visit.raised := by
  have hkeeps : visit.scopeAt job visit.state.rowNumber =
      job.scope visit.names visit.values visit.state := rfl
  have hrecord (table : Aggregates) : visit.scopeAt job (visit.state.rowNumber + 1) =
      job.scope visit.names visit.values
        { visit.state with aggregates := table, rowNumber := visit.state.rowNumber + 1 } := rfl
  rw [handleRow, handleWith, outcome_get_bind, outcome_bind, outcome_bind, hkeeps]
  rw [outcome_evaluating]
  rcases (visit.plan.keeps (job.scope visit.names visit.values visit.state)).outcome
    visit.state.aggregates visit.raised with ⟨⟨error | kept, table⟩, raised⟩
  · simp only
  · cases kept with
    | false => simp only [Bool.not_false, if_true]
    | true =>
      simp only [Bool.not_true, Bool.false_eq_true, if_false, outcome_modify_bind, outcome_get_bind,
        hrecord table]

/-! ### The number of the row -/

/-- Whether steps leave the number of the row as it is. -/
def KeepsNumber {α : Type} (steps : Running σ α) : Prop :=
  ∀ state raised, (steps.outcome state raised).1.2.rowNumber = state.rowNumber

section KeepsNumber

variable {α β : Type}

theorem keepsNumber_pure (value : α) : KeepsNumber (σ := σ) (pure value) :=
  fun _ _ => rfl

theorem KeepsNumber.bind {steps : Running σ α} {next : α → Running σ β} (h : KeepsNumber steps)
    (hnext : ∀ value, KeepsNumber (next value)) : KeepsNumber (steps >>= next) := by
  intro state raised
  have hsteps := h state raised
  rw [outcome_bind]
  revert hsteps
  rcases steps.outcome state raised with ⟨⟨_ | value, later⟩, raised⟩
  · exact id
  · exact fun hsteps => (hnext value later raised).trans hsteps

theorem keepsNumber_evaluating (computation : Evaluating α) :
    KeepsNumber (σ := σ) (evaluating computation) :=
  fun _ _ => rfl

theorem keepsNumber_ofReporting (computation : Reporting α) :
    KeepsNumber (σ := σ) (Stateful.ofReporting computation) :=
  fun _ _ => rfl

theorem keepsNumber_get {next : RunState σ → Running σ α} (h : ∀ state, KeepsNumber (next state)) :
    KeepsNumber (get >>= next) := by
  intro state raised
  rw [outcome_get_bind]
  exact h state state raised

theorem keepsNumber_modify {change : RunState σ → RunState σ}
    (h : ∀ state, (change state).rowNumber = state.rowNumber) :
    KeepsNumber (modify change : Running σ PUnit) :=
  fun state _ => h state

theorem keepsNumber_write (event : Event) : KeepsNumber (write writer event) := by
  intro state raised
  rw [write, outcome_get_bind]
  rcases writer event state.writer with ⟨_ | _, written⟩ <;> rfl

theorem keepsNumber_writeRows (rows : List (List Value)) : KeepsNumber (writeRows writer rows) := by
  induction rows with
  | nil => exact fun _ _ => rfl
  | cons values rest ih => exact (keepsNumber_write writer (.row values)).bind fun _ => ih

theorem keepsNumber_take (pull : Pull) : KeepsNumber (σ := σ) (job.take pull) := by
  refine (keepsNumber_ofReporting _).bind fun _ => ?_
  cases pull.result with
  | ok record => exact (keepsNumber_modify fun _ => rfl).bind fun _ => keepsNumber_pure record
  | error error => exact fun _ _ => rfl

theorem keepsNumber_spreadInput (plan : Plan) (names : List String) (values : List Value) :
    KeepsNumber (σ := σ) (job.spreadInput plan names values) := by
  refine (keepsNumber_modify (by exact fun _ => rfl)).bind fun _ => keepsNumber_get fun state => ?_
  exact keepsNumber_evaluating _

theorem keepsNumber_begin (declared : List String) (values : List Value) :
    KeepsNumber (job.begin writer declared values) := by
  refine (keepsNumber_write writer _).bind fun _ => keepsNumber_get fun state => ?_
  split
  · exact keepsNumber_pure none
  · exact (keepsNumber_ofReporting _).bind fun _ => keepsNumber_pure _

/-- Handing a record to the output. -/
theorem keepsNumber_hand (record : OutputRecord) :
    KeepsNumber (do
      let state ← get
      let (rows, output) := state.output.handle record
      set { state with output := output }
      writeRows writer rows
      return output.isFull) := by
  intro state raised
  rw [outcome_get_bind]
  exact ((keepsNumber_writeRows writer _).bind fun _ => keepsNumber_pure _)
    { state with output := (state.output.handle record).2 } raised

end KeepsNumber

/-- A row adds one to the number if it passes the condition, and else nothing. -/
theorem rowNumber_handleRow (visit : Visit σ) :
    ((job.handleRow writer visit.plan visit.names visit.values).outcome visit.state
      visit.raised).1.2.rowNumber = visit.state.rowNumber + (visit.passes job).toNat := by
  rw [outcome_handleRow, handleWith, outcome_bind, outcome_evaluating]
  change _ = _ + (granted ((visit.plan.keeps (visit.scopeAt job
    visit.state.rowNumber)).outcome visit.state.aggregates visit.raised).1.1).toNat
  rcases (visit.plan.keeps (visit.scopeAt job visit.state.rowNumber)).outcome
    visit.state.aggregates visit.raised with ⟨⟨error | kept, table⟩, raised⟩
  · rfl
  · cases kept with
    | false => rfl
    | true =>
      simp only [Bool.not_true, Bool.false_eq_true, if_false, outcome_modify_bind]
      exact ((keepsNumber_evaluating _).bind fun record => keepsNumber_hand writer record) _ _

/-! ### Counting -/

/-- Rows looked at one after the other: from a number on, each row that passes the condition makes
the number of the next ones greater by one, up to a last number. -/
inductive Counted (job : Job) : Nat → List (Visit σ) → Nat → Prop where
  | nil (number : Nat) : Counted job number [] number
  | cons {visit : Visit σ} {rest : List (Visit σ)} {last : Nat}
    (h : Counted job (visit.state.rowNumber + (visit.passes job).toNat) rest last) :
    Counted job visit.state.rowNumber (visit :: rest) last

section Counted

variable {job} {first middle last : Nat} {visits others : List (Visit σ)}

theorem Counted.append (h : Counted job first visits middle)
    (hothers : Counted job middle others last) : Counted job first (visits ++ others) last := by
  induction h with
  | nil => exact hothers
  | cons _ ih => exact .cons (ih hothers)

theorem countP_passes_cons (visit : Visit σ) (rest : List (Visit σ)) :
    (visit :: rest).countP (·.passes job) =
      (visit.passes job).toNat + rest.countP (·.passes job) := by
  rw [List.countP_cons, Nat.add_comm]
  cases visit.passes job <;> rfl

theorem Counted.last_eq (h : Counted job first visits last) :
    last = first + visits.countP (·.passes job) := by
  induction h with
  | nil => rfl
  | @cons visit rest last _ ih =>
    rw [ih, countP_passes_cons, Nat.add_assoc]

/-- The number before a row is the first one and the number of the earlier rows that passed. -/
theorem Counted.rowNumber_eq (h : Counted job first visits last) {index : Nat} {visit : Visit σ}
    (hvisit : visits[index]? = some visit) :
    visit.state.rowNumber = first + (visits.take index).countP (·.passes job) := by
  induction h generalizing index with
  | nil => cases hvisit
  | @cons earlier rest last _ ih =>
    cases index with
    | zero =>
      obtain rfl := Option.some.inj hvisit
      rfl
    | succ index =>
      rw [ih hvisit, List.take_succ_cons, countP_passes_cons, Nat.add_assoc]

/-- Rows of a step and rows of what follows it. -/
theorem Counted.following {α β : Type} {step : Running σ α} {state : RunState σ}
    {raised : List Warning} {next : α → Running σ β}
    {visitsNext : α → RunState σ → List Warning → List (Visit σ)}
    (hstep : Counted job state.rowNumber visits (step.outcome state raised).1.2.rowNumber)
    (hnext : ∀ value later raised, Counted job later.rowNumber (visitsNext value later raised)
      ((next value).outcome later raised).1.2.rowNumber) :
    Counted job state.rowNumber (visits ++ Job.following step state raised visitsNext)
      ((step >>= next).outcome state raised).1.2.rowNumber := by
  rw [outcome_bind, Job.following]
  revert hstep
  rcases step.outcome state raised with ⟨⟨error | value, later⟩, raised⟩
  · rw [List.append_nil]
    exact id
  · exact fun hstep => hstep.append (hnext value later raised)

/-- A step that looks at no rows, and what follows it. -/
theorem KeepsNumber.counted {α β : Type} {step : Running σ α} {state : RunState σ}
    {raised : List Warning} {next : α → Running σ β}
    {visitsNext : α → RunState σ → List Warning → List (Visit σ)} (hstep : KeepsNumber step)
    (hnext : ∀ value later raised, Counted job later.rowNumber (visitsNext value later raised)
      ((next value).outcome later raised).1.2.rowNumber) :
    Counted job state.rowNumber (Job.following step state raised visitsNext)
      ((step >>= next).outcome state raised).1.2.rowNumber := by
  have hnone : Counted job state.rowNumber ([] : List (Visit σ))
      (step.outcome state raised).1.2.rowNumber := by
    rw [hstep state raised]
    exact .nil _
  exact hnone.following hnext

end Counted

variable (plan : Plan) (names : List String) (state : RunState σ) (raised : List Warning)

theorem counted_handleRows (rows : List (List Value)) :
    Counted job state.rowNumber (job.visitRows writer plan names rows state raised)
      ((job.handleRows writer plan names rows).outcome state raised).1.2.rowNumber := by
  induction rows generalizing state raised with
  | nil => exact .nil _
  | cons values rest ih =>
    let visit : Visit σ := ⟨plan, names, values, state, raised⟩
    have hrow : Counted job visit.state.rowNumber [visit]
        ((job.handleRow writer visit.plan visit.names visit.values).outcome visit.state
          visit.raised).1.2.rowNumber := by
      rw [job.rowNumber_handleRow writer visit]
      exact .cons (.nil _)
    refine hrow.following fun full later raised => ?_
    cases full with
    | true => exact .nil _
    | false => exact ih later raised

theorem counted_handleInput (values : List Value) :
    Counted job state.rowNumber (job.visitInput writer plan names values state raised)
      ((job.handleInput writer plan names values).outcome state raised).1.2.rowNumber :=
  (job.keepsNumber_spreadInput plan names values).counted fun rows later raised =>
    job.counted_handleRows writer plan names later raised rows

/-- A row of the input and what comes later. -/
theorem counted_then (values : List Value) {next : Running σ Unit}
    {later : RunState σ → List Warning → List (Visit σ)}
    (h : ∀ state raised, Counted job state.rowNumber (later state raised)
      (next.outcome state raised).1.2.rowNumber) :
    Counted job state.rowNumber (job.visitThen writer plan names values later state raised)
      ((do if ← job.handleInput writer plan names values then return () else next).outcome state
        raised).1.2.rowNumber := by
  refine (job.counted_handleInput writer plan names state raised values).following
    fun full last raised => ?_
  cases full with
  | true => exact .nil _
  | false => exact h last raised

theorem counted_consumeRows (source : Source) :
    Counted job state.rowNumber (job.visitRest writer plan names source state raised)
      ((job.consumeRows writer plan names source).outcome state raised).1.2.rowNumber := by
  induction source generalizing state raised with
  | nil => exact .nil _
  | cons pull rest ih =>
    refine (job.keepsNumber_take pull).counted fun record later raised => ?_
    cases record with
    | header declared => exact ih later raised
    | row values => exact job.counted_then writer plan names later raised values ih

/-- The first row of the input: what is done before it is spread, and the rest of the run. -/
theorem begin_bind (declared : List String) (values : List Value) (next : Plan → Running σ Unit) :
    (do
      let names := columnNames declared values.length
      job.writeHeader writer names
      if (← get).output.isDone then return ()
      else
        let bindings := ColumnBindings.ofDeclared values.length declared
        next (← Stateful.ofReporting (Plan.ofQuery job.policy job.query bindings))) =
      job.begin writer declared values >>= fun plan? => plan?.elim (pure ()) next := by
  simp only [begin, bind_assoc]
  refine bind_congr fun _ => bind_congr fun state => ?_
  split <;> simp only [pure_bind, bind_assoc, Option.elim]

theorem counted_consume (declared : List String) (source : Source) :
    Counted job state.rowNumber (job.visitFrom writer declared source state raised)
      ((job.consume writer declared source).outcome state raised).1.2.rowNumber := by
  induction source generalizing declared state raised with
  | nil =>
    rw [consume, writeHeader, keepsNumber_write]
    exact .nil _
  | cons pull rest ih =>
    refine (job.keepsNumber_take pull).counted fun record later raised => ?_
    cases record with
    | header names => exact ih later raised names
    | row values =>
      have hbegin := job.begin_bind writer declared values fun plan => do
        if ← job.handleInput writer plan (columnNames declared values.length) values then return ()
        else job.consumeRows writer plan (columnNames declared values.length) rest
      refine (congrArg (fun steps : Running σ Unit => Counted job later.rowNumber _
        (steps.outcome later raised).1.2.rowNumber) hbegin).mpr ?_
      refine (job.keepsNumber_begin writer declared values).counted fun plan? later raised => ?_
      cases plan? with
      | none => exact .nil _
      | some plan =>
        exact job.counted_then writer plan _ later raised values fun state raised =>
          job.counted_consumeRows writer plan _ state raised rest

/-- After the rows of the source nothing is counted. -/
theorem rowNumber_runAll (source : Source) :
    ((job.runAll writer source).outcome state raised).1.2.rowNumber =
      ((job.consume writer [] source).outcome state raised).1.2.rowNumber := by
  rw [runAll, outcome_bind]
  rcases (job.consume writer [] source).outcome state raised with ⟨⟨error | value, later⟩, raised⟩
  · rfl
  · dsimp only
    rw [outcome_get_bind]
    exact (KeepsNumber.bind (keepsNumber_writeRows writer _) fun _ =>
      (keepsNumber_write writer .flush).bind fun _ => keepsNumber_get fun _ => keepsNumber_pure _)
        { later with output := later.output.finish.2 } raised

/-- The number of a run at its end counts the rows that passed the condition. -/
theorem counted_run (start : σ) (source : Source) :
    Counted job 0 (job.visits writer start source)
      (job.run writer start source).2.1.rowNumber := by
  have hcounted := job.counted_consume writer (job.initial start) [] [] source
  rw [← job.rowNumber_runAll writer] at hcounted
  exact hcounted

end Job

/-! ### What the clauses see -/

/-- What becomes of a row is what becomes of it with one number in the place of `row_number` in the
condition and one in the place of it in the other clauses, whatever number the row has then. -/
def Visit.ReadsNumbers {σ : Type} (job : Job) (writer : Writer σ) (inCondition inRow : Nat)
    (visit : Visit σ) : Prop :=
  let plan := visit.plan.atRow job.session.aliasesRowNumber inCondition inRow
  ∀ number other,
    (job.handleRow writer visit.plan visit.names visit.values).outcome visit.state visit.raised =
      (Job.handleWith writer (plan.keeps (visit.scopeAt job number))
        (plan.record (visit.scopeAt job other))).outcome visit.state visit.raised

section Reads

variable {σ : Type} (job : Job) (writer : Writer σ) (visit : Visit σ)

theorem Visit.readsNumbers :
    visit.ReadsNumbers job writer visit.state.rowNumber (visit.state.rowNumber + 1) := by
  intro number other
  have hkeeps := visit.plan.keeps_atRow (visit.scopeAt job visit.state.rowNumber) number
    (visit.state.rowNumber + 1)
  have hrecord := visit.plan.record_atRow (visit.scopeAt job (visit.state.rowNumber + 1)) other
    visit.state.rowNumber
  rw [job.outcome_handleRow writer visit, ← hkeeps, ← hrecord]
  rfl

/-- A condition without `row_number` reads every number. -/
theorem Visit.readsNumbers_of_condition (h : ∀ condition ∈ visit.plan.condition,
    .variable "row_number" ∉ condition.subexpressions) (number : Nat) :
    visit.ReadsNumbers job writer number (visit.state.rowNumber + 1) := by
  intro first other
  have hkeeps := visit.plan.keeps_atRow (visit.scopeAt job number) first
    (visit.state.rowNumber + 1)
  have hrecord := visit.plan.record_atRow (visit.scopeAt job (visit.state.rowNumber + 1)) other
    number
  have hnumber := visit.plan.keeps_numbered (visit.scopeAt job visit.state.rowNumber) number h
  change visit.plan.keeps (visit.scopeAt job number) = _ at hnumber
  rw [job.outcome_handleRow writer visit, ← hnumber, ← hkeeps, ← hrecord]
  rfl

end Reads

/-- For every query and input, each row that a run looks at, be it kept or not, reads as `row_number`
one number in all its clauses but the condition: one more than the number of earlier rows that passed
the condition. The condition reads the number of these rows itself. A condition without `row_number`
makes no difference. At the end of the run the number is that of all rows that passed. -/
theorem row_number_counts {σ : Type} (job : Job) (writer : Writer σ) (start : σ) (source : Source) :
    let visits := job.visits writer start source
    (job.run writer start source).2.1.rowNumber = visits.countP (·.passes job) ∧
    ∀ index visit, visits[index]? = some visit →
      let earlier := (visits.take index).countP (·.passes job)
      visit.ReadsNumbers job writer earlier (earlier + 1) ∧
      ((∀ condition ∈ visit.plan.condition, .variable "row_number" ∉ condition.subexpressions) →
        visit.ReadsNumbers job writer (earlier + 1) (earlier + 1)) := by
  intro visits
  have hcounted := job.counted_run writer start source
  refine ⟨by rw [hcounted.last_eq, Nat.zero_add], fun index visit hvisit => ?_⟩
  intro earlier
  have hnumber : visit.state.rowNumber = earlier := by
    rw [hcounted.rowNumber_eq hvisit, Nat.zero_add]
  rw [← hnumber]
  exact ⟨visit.readsNumbers job writer,
    fun hcondition => visit.readsNumbers_of_condition job writer hcondition _⟩

/-- A query for the numbers of the rows under a condition. -/
def Job.numbersWhere (condition : String) : Job where
  query := { Query.selectAll none 0 with
    selection :=
      { items := [.column "n" "row_number"], distinct := false, partials := false }
    condition := some condition }

/-- Whether the condition of a plan compares a column. -/
def Plan.comparesColumn (plan : Plan) : Bool :=
  match plan.condition with
  | some (.binary (.column _) _ (.literal _)) => true
  | _ => false

theorem Plan.condition_of_comparesColumn {plan : Plan} (h : plan.comparesColumn = true) :
    ∀ condition ∈ plan.condition, .variable "row_number" ∉ condition.subexpressions := by
  unfold comparesColumn at h
  split at h
  · next heq =>
    rw [heq]
    rintro condition ⟨⟩
    simp [Expr.subexpressions]
  · cases h

/-- The third of three rows of which the first one was kept: its number is 2. -/
theorem row_number_counts_of_third :
    let job := Job.numbersWhere "col1 == 1"
    let source := Source.ofRows [[.ofInt 1], [.ofInt 2], [.ofInt 1]]
    ∃ visit, (job.visits Writer.recorder [] source)[2]? = some visit ∧
      ((job.visits Writer.recorder [] source).take 2).countP (·.passes job) = 1 ∧
      visit.ReadsNumbers job Writer.recorder 1 2 ∧ visit.ReadsNumbers job Writer.recorder 2 2 := by
  intro job source
  have hthird : (job.visits Writer.recorder [] source)[2]?.any (·.plan.comparesColumn) = true := by
    decide +kernel
  have hearlier : ((job.visits Writer.recorder [] source).take 2).countP (·.passes job) = 1 := by
    decide +kernel
  cases hvisit : (job.visits Writer.recorder [] source)[2]? with
  | none =>
    rw [hvisit] at hthird
    cases hthird
  | some visit =>
    rw [hvisit] at hthird
    obtain ⟨hreads, hall⟩ := (row_number_counts job Writer.recorder [] source).2 2 visit hvisit
    rw [hearlier] at hreads hall
    exact ⟨visit, rfl, hearlier, hreads, hall (Plan.condition_of_comparesColumn hthird)⟩

/-- Under the condition `row_number <= 1` two rows are kept. The second one, whose number is 2 in all
other clauses, passes the condition with the number 1. -/
theorem row_number_not_one_number :
    let job := Job.numbersWhere "row_number <= 1"
    let source := Source.ofRows [[.ofInt 1], [.ofInt 2]]
    ∃ visit, (job.visits Writer.recorder [] source)[1]? = some visit ∧
      ((job.visits Writer.recorder [] source).take 1).countP (·.passes job) = 1 ∧
      visit.passes job = true ∧ ¬ visit.ReadsNumbers job Writer.recorder 2 2 := by
  intro job source
  have hearlier : ((job.visits Writer.recorder [] source).take 1).countP (·.passes job) = 1 := by
    decide +kernel
  -- With 2 in the place of `row_number` the row does not pass, and its number stays 1.
  have hsecond : (job.visits Writer.recorder [] source)[1]?.any (fun visit =>
      let plan := visit.plan.atRow job.session.aliasesRowNumber 2 2
      visit.passes job && visit.state.rowNumber == 1 &&
        ((Job.handleWith Writer.recorder (plan.keeps (visit.scopeAt job 0))
          (plan.record (visit.scopeAt job 0))).outcome visit.state visit.raised).1.2.rowNumber == 1) =
        true := by
    decide +kernel
  cases hvisit : (job.visits Writer.recorder [] source)[1]? with
  | none =>
    rw [hvisit] at hsecond
    cases hsecond
  | some visit =>
    rw [hvisit] at hsecond
    simp only [Option.any_some, Bool.and_eq_true, beq_iff_eq] at hsecond
    obtain ⟨⟨hpasses, hbefore⟩, hafter⟩ := hsecond
    refine ⟨visit, rfl, hearlier, hpasses, fun hreads => ?_⟩
    have hnumber := job.rowNumber_handleRow Writer.recorder visit
    rw [hreads 0 0, hafter, hbefore, hpasses] at hnumber
    cases hnumber

end StreamQuery
