import StreamQuery.Execution.Run
import StreamQuery.Proofs.Execution.Pipeline
import StreamQuery.Proofs.Execution.Plan
import StreamQuery.Proofs.Execution.Row

/-!
# The records of a run

What a query means on a source is said by a run that only collects records: it has no output, no
limit and no writer. A run that writes follows it. It writes what the pipeline makes of the
collected records, and ends when no more rows are wanted.
-/

namespace StreamQuery

open Stateful

/-! ### Collecting -/

/-- Steps of a run that collects its records, the latest first. -/
abbrev Collecting := Running (List OutputRecord)

namespace Job

/-- Collects the record of a row if it is kept. -/
def collectRow (job : Job) (plan : Plan) (names : List String) (values : List Value) :
    Collecting Unit := do
  let kept ← evaluating (plan.keeps (job.scope names values (← get)))
  if !kept then return ()
  else
    modify fun state => { state with rowNumber := state.rowNumber + 1 }
    let record ← evaluating (plan.record (job.scope names values (← get)))
    modify fun state => { state with writer := record :: state.writer }

/-- Collects the records of rows. -/
def collectRows (job : Job) (plan : Plan) (names : List String) :
    List (List Value) → Collecting Unit
  | [] => pure ()
  | values :: rest => do
    job.collectRow plan names values
    job.collectRows plan names rest

/-- Collects the records of all rows that a row of the input is spread into. -/
def collectInput (job : Job) (plan : Plan) (names : List String) (values : List Value) :
    Collecting Unit := do
  modify fun state => { state with inputRowNumber := state.inputRowNumber + 1 }
  let rows ← evaluating (plan.spread (job.scope names values (← get)))
  job.collectRows plan names rows

/-- Collects the records of a source after its first row. -/
def collectRest (job : Job) (plan : Plan) (names : List String) : Source → Collecting Unit
  | [] => pure ()
  | pull :: rest => do
    match ← job.take pull with
    | .header _ => job.collectRest plan names rest
    | .row values =>
      job.collectInput plan names values
      job.collectRest plan names rest

/-- Collects the records of a source, where `declared` are the names of the last header. -/
def collect (job : Job) (declared : List String) : Source → Collecting Unit
  | [] => pure ()
  | pull :: rest => do
    match ← job.take pull with
    | .header names => job.collect names rest
    | .row values =>
      let names := columnNames declared values.length
      let bindings := ColumnBindings.ofDeclared values.length declared
      let plan ← Stateful.ofReporting (Plan.ofQuery job.policy job.query bindings)
      job.collectInput plan names values
      job.collectRest plan names rest

/-- How collecting all records of a source ends. -/
def collected (job : Job) (source : Source) : Except Error Unit × RunState (List OutputRecord) :=
  ((job.collect [] source).outcome (job.initial []) []).1

/-- The records of a source, in order: those of all rows if none of them fails, or else those
before the failure. -/
def recordsOf (job : Job) (source : Source) : List OutputRecord :=
  (job.collected source).2.writer.reverse

/-- The names of the columns of a source: those of its first row under the last header before it,
or of that header alone. -/
def namesOf (declared : List String) : Source → List String
  | [] => declared
  | pull :: rest =>
    match pull.result with
    | .ok (.header names) => namesOf names rest
    | .ok (.row values) => columnNames declared values.length
    | .error _ => namesOf declared rest

/-- The header that a run writes for columns of the input. -/
def headerOf (job : Job) (names : List String) : Event :=
  .header (outputColumns job.query.selection.items names)

end Job

/-! ### Following -/

/-- The same run, with another output and another writer. -/
def RunState.withOutput {σ τ : Type} (state : RunState σ) (output : Output) (writer : τ) :
    RunState τ where
  aggregates := state.aggregates
  rowNumber := state.rowNumber
  inputRowNumber := state.inputRowNumber
  pulled := state.pulled
  output := output
  writer := writer

@[simp] theorem RunState.output_withOutput {σ τ : Type} (state : RunState σ) (output : Output)
    (writer : τ) : (state.withOutput output writer).output = output := rfl

/-- The events after rows were written, the latest first. -/
def recorded (rows : List (List Value)) (events : List Event) : List Event :=
  (rows.map Event.row).reverse ++ events

theorem recorded_append (rows others : List (List Value)) (events : List Event) :
    recorded (rows ++ others) events = recorded others (recorded rows events) := by
  simp [recorded]

/-- A run that writes follows a run that collects: it ends with `stop` as soon as the records
collected so far fill its output, whatever the source holds later, and else goes on with `go` or
fails likewise. `start` are the events before, `shown` those without the rows of the records, and
`pulls` bounds the number of records taken. -/
inductive Follows {β : Type} (state : RunState (List OutputRecord)) (output : Output)
    (start shown : List Event) (pulls : Nat) (collecting : Collecting Unit)
    (running : Source → Running (List Event) β) (stop go : β) : Prop
  | stops (result : Except Error Unit) (after : RunState (List OutputRecord))
      (records : List OutputRecord) (last : RunState (List Event))
      (hcollecting : collecting.Gives state result after)
      (hrecords : after.writer = records.reverse ++ state.writer)
      (hdone : (output.feed records).2.isDone = true)
      (hrunning : ∀ later, (running later).Gives (state.withOutput output start) (.ok stop) last)
      (houtput : last.output = (output.feed records).2)
      (hevents : last.writer = recorded (output.feed records).1 shown)
      (hpulled : last.pulled ≤ state.pulled + pulls)
  | continues (after : RunState (List OutputRecord)) (records : List OutputRecord)
      (hcollecting : collecting.Gives state (.ok ()) after)
      (hrecords : after.writer = records.reverse ++ state.writer)
      (hopen : (output.feed records).2.isDone = false)
      (hrunning : (running []).Gives (state.withOutput output start) (.ok go)
        (after.withOutput (output.feed records).2 (recorded (output.feed records).1 shown)))
      (hpulled : after.pulled ≤ state.pulled + pulls)
  | fails (error : Error) (after : RunState (List OutputRecord)) (records : List OutputRecord)
      (last : RunState (List Event))
      (hcollecting : collecting.Gives state (.error error) after)
      (hrecords : after.writer = records.reverse ++ state.writer)
      (hopen : (output.feed records).2.isDone = false)
      (hrunning : (running []).Gives (state.withOutput output start) (.error error) last)

/-- A step that is the same with and without an output, and neither takes nor collects
anything. -/
def Shares {α : Type} (state : RunState (List OutputRecord)) (output : Output)
    (events : List Event) (collecting : Collecting α) (running : Running (List Event) α) : Prop :=
  ∃ result after, collecting.Gives state result after ∧
    running.Gives (state.withOutput output events) result (after.withOutput output events) ∧
    after.writer = state.writer ∧ after.pulled = state.pulled

namespace Follows

variable {α β : Type} {state : RunState (List OutputRecord)} {output : Output}
  {start shown events : List Event} {pulls : Nat} {stop go : β}

theorem pure (hopen : output.isDone = false) (pulls : Nat) :
    Follows state output shown shown pulls (Pure.pure ()) (fun _ => Pure.pure go) stop go :=
  .continues state [] (gives_pure _ _) rfl hopen (gives_pure _ _) (Nat.le_add_right _ _)

theorem get {collecting : RunState (List OutputRecord) → Collecting Unit}
    {running : RunState (List Event) → Source → Running (List Event) β}
    (h : Follows state output start shown pulls (collecting state)
      (running (state.withOutput output start)) stop go) :
    Follows state output start shown pulls (MonadState.get >>= collecting)
      (fun later => MonadState.get >>= fun seen => running seen later) stop go := by
  cases h with
  | stops result after records last hcollecting hrecords hdone hrunning houtput hevents hpulled =>
    exact .stops result after records last ((gives_get _).bind hcollecting) hrecords hdone
      (fun later => (gives_get _).bind (hrunning later)) houtput hevents hpulled
  | continues after records hcollecting hrecords hopen hrunning hpulled =>
    exact .continues after records ((gives_get _).bind hcollecting) hrecords hopen
      ((gives_get _).bind hrunning) hpulled
  | fails error after records last hcollecting hrecords hopen hrunning =>
    exact .fails error after records last ((gives_get _).bind hcollecting) hrecords hopen
      ((gives_get _).bind hrunning)

/-- A step of the writing run alone. -/
theorem run_step {collecting : Collecting Unit} {step : Running (List Event) α} {value : α}
    {running : α → Source → Running (List Event) β}
    (hstep : step.Gives (state.withOutput output start) (.ok value)
      (state.withOutput output events))
    (h : Follows state output events shown pulls collecting (running value) stop go) :
    Follows state output start shown pulls collecting
      (fun later => step >>= fun value => running value later) stop go := by
  cases h with
  | stops result after records last hcollecting hrecords hdone hrunning houtput hevents hpulled =>
    exact .stops result after records last hcollecting hrecords hdone
      (fun later => hstep.bind (hrunning later)) houtput hevents hpulled
  | continues after records hcollecting hrecords hopen hrunning hpulled =>
    exact .continues after records hcollecting hrecords hopen (hstep.bind hrunning) hpulled
  | fails error after records last hcollecting hrecords hopen hrunning =>
    exact .fails error after records last hcollecting hrecords hopen (hstep.bind hrunning)

/-- A step that both runs share. -/
theorem step {first : Collecting α} {runningFirst : Running (List Event) α}
    {collecting : α → Collecting Unit} {running : α → Source → Running (List Event) β}
    (hopen : output.isDone = false) (hfirst : Shares state output start first runningFirst)
    (hnext : ∀ value middle, Follows middle output start shown pulls (collecting value)
      (running value) stop go) :
    Follows state output start shown pulls (first >>= collecting)
      (fun later => runningFirst >>= fun value => running value later) stop go := by
  obtain ⟨result, middle, hcollecting, hrunning, hwriter, hpulled⟩ := hfirst
  cases result with
  | error error =>
    exact .fails error middle [] _ hcollecting.bind_error hwriter hopen hrunning.bind_error
  | ok value =>
    cases hnext value middle with
    | stops result after records last hcollecting' hrecords hdone hrunning' houtput hevents hlast =>
      exact .stops result after records last (hcollecting.bind hcollecting')
        (hwriter ▸ hrecords) hdone (fun later => hrunning.bind (hrunning' later)) houtput hevents
        (hpulled ▸ hlast)
    | continues after records hcollecting' hrecords hopen' hrunning' hafter =>
      exact .continues after records (hcollecting.bind hcollecting') (hwriter ▸ hrecords) hopen'
        (hrunning.bind hrunning') (hpulled ▸ hafter)
    | fails error after records last hcollecting' hrecords hopen' hrunning' =>
      exact .fails error after records last (hcollecting.bind hcollecting')
        (hwriter ▸ hrecords) hopen' (hrunning.bind hrunning')

theorem collects {collecting : Collecting Unit} {running : Source → Running (List Event) β}
    (h : Follows state output start shown pulls collecting running stop go) :
    ∃ (result : Except Error Unit) (after : RunState (List OutputRecord))
      (records : List OutputRecord), collecting.Gives state result after ∧
        after.writer = records.reverse ++ state.writer := by
  cases h with
  | stops result after records _ hcollecting hrecords => exact ⟨_, _, _, hcollecting, hrecords⟩
  | continues after records hcollecting hrecords => exact ⟨_, _, _, hcollecting, hrecords⟩
  | fails error after records _ hcollecting hrecords => exact ⟨_, _, _, hcollecting, hrecords⟩

/-- One stretch of a run after the other. -/
theorem seq {first next : Collecting Unit} {runningFirst : Running (List Event) Bool}
    {running : Source → Running (List Event) β} (hprompt : output.Prompt)
    (hopen : output.isDone = false)
    (hfirst : Follows state output start shown 0 first (fun _ => runningFirst) true false)
    (hnext : ∀ (middle : RunState (List OutputRecord)) (later : Output) (events : List Event),
      later.Prompt → later.isDone = false →
      Follows middle later events events pulls next running stop go) :
    Follows state output start shown pulls (first >>= fun _ => next)
      (fun later => runningFirst >>= fun full => if full then Pure.pure stop else running later)
      stop go := by
  cases hfirst with
  | stops result middle records last hcollecting hrecords hdone hrunning houtput hevents hlast =>
    have hstop (later : Source) :
        (runningFirst >>= fun full => if full then Pure.pure stop else running later).Gives
          (state.withOutput output start) (.ok stop) last :=
      (hrunning later).bind (gives_pure stop last)
    cases result with
    | error error =>
      exact .stops (.error error) middle records last hcollecting.bind_error hrecords hdone hstop
        houtput hevents (by omega)
    | ok value =>
      -- What is collected later does not reach the output, which is done.
      obtain ⟨result, after, others, hnext, hothers⟩ :=
        (hnext middle output [] hprompt hopen).collects
      have hfeed : output.feed (records ++ others) = output.feed records := by
        rw [hprompt.feed_append, Output.feed_of_isDone hdone, List.append_nil]
      refine .stops result after (records ++ others) last (hcollecting.bind hnext) ?_ ?_ hstop
        ?_ ?_ (by omega)
      · rw [hothers, hrecords, List.reverse_append, List.append_assoc]
      · rwa [hfeed]
      · rwa [hfeed]
      · rwa [hfeed]
  | continues middle records hcollecting hrecords hgoing hrunning hmiddle =>
    -- The second stretch starts with the output that the first one left.
    have hfeed (others : List OutputRecord) := hprompt.feed_append records others
    cases hnext middle _ (recorded (output.feed records).1 shown) (hprompt.feed records)
        hgoing with
    | stops result after others last hcollecting' hothers hdone hrunning' houtput hevents hlast =>
      refine .stops result after (records ++ others) last (hcollecting.bind hcollecting') ?_ ?_
        (fun later => hrunning.bind (hrunning' later)) ?_ ?_ (Nat.le_trans hlast ?_)
      · rw [hothers, hrecords, List.reverse_append, List.append_assoc]
      · rwa [hfeed]
      · rwa [hfeed]
      · rwa [hfeed, recorded_append]
      · omega
    | continues after others hcollecting' hothers hopen' hrunning' hafter =>
      refine .continues after (records ++ others) (hcollecting.bind hcollecting') ?_ ?_ ?_
        (by omega)
      · rw [hothers, hrecords, List.reverse_append, List.append_assoc]
      · rwa [hfeed]
      · rw [hfeed, recorded_append]
        exact hrunning.bind hrunning'
    | fails error after others last hcollecting' hothers hopen' hrunning' =>
      refine .fails error after (records ++ others) last (hcollecting.bind hcollecting') ?_ ?_
        (hrunning.bind hrunning')
      · rw [hothers, hrecords, List.reverse_append, List.append_assoc]
      · rwa [hfeed]
  | fails error middle records last hcollecting hrecords hgoing hrunning =>
    exact .fails error middle records last hcollecting.bind_error hrecords hgoing
      hrunning.bind_error

end Follows

/-- Taking a record fails whatever the run, or gives the record. -/
theorem Job.take_cases (job : Job) (pull : Pull) :
    (∃ error, ∀ {σ : Type} (state : RunState σ),
      (job.take pull).Gives state (.error error) state) ∨
    ∃ record, pull.result = .ok record ∧ ∀ {σ : Type} (state : RunState σ),
      (job.take pull).Gives state (.ok record) { state with pulled := state.pulled + 1 } := by
  obtain ⟨warnings, result⟩ := pull
  obtain ⟨raised, hraised⟩ := Reporting.settles_raiseAll job.policy warnings
  cases raised with
  | error error => exact .inl ⟨error, fun _ => (gives_ofReporting hraised _).bind_error⟩
  | ok done =>
    cases result with
    | error error =>
      exact .inl ⟨error, fun _ => (gives_ofReporting hraised _).bind (gives_throw _ _)⟩
    | ok record =>
      exact .inr ⟨record, rfl, fun _ =>
        (gives_ofReporting hraised _).bind ((gives_modify _ _).bind (gives_pure _ _))⟩

/-- Both runs take the same record. -/
theorem Follows.take {β : Type} {state : RunState (List OutputRecord)} {output : Output}
    {start shown : List Event} {pulls : Nat} {stop go : β} {job : Job} {pull : Pull}
    {collecting : InputRecord → Collecting Unit}
    {running : InputRecord → Source → Running (List Event) β} (hopen : output.isDone = false)
    (hnext : ∀ record, pull.result = .ok record →
      Follows { state with pulled := state.pulled + 1 } output start shown pulls
        (collecting record) (running record) stop go) :
    Follows state output start shown (pulls + 1) (job.take pull >>= collecting)
      (fun later => job.take pull >>= fun record => running record later) stop go := by
  rcases job.take_cases pull with ⟨error, htake⟩ | ⟨record, hresult, htake⟩
  · exact .fails error state [] _ (htake state).bind_error rfl hopen (htake _).bind_error
  · cases hnext record hresult with
    | stops result after records last hcollecting hrecords hdone hrunning houtput hevents hlast =>
      exact .stops result after records last ((htake state).bind hcollecting) hrecords hdone
        (fun later => (htake _).bind (hrunning later)) houtput hevents
        (by simp only at hlast; omega)
    | continues after records hcollecting hrecords hopen hrunning hafter =>
      exact .continues after records ((htake state).bind hcollecting) hrecords hopen
        ((htake _).bind hrunning) (by simp only at hafter; omega)
    | fails error after records last hcollecting hrecords hopen hrunning =>
      exact .fails error after records last ((htake state).bind hcollecting) hrecords hopen
        ((htake _).bind hrunning)

/-! ### Steps that both runs share -/

section Shares

variable {α : Type} (state : RunState (List OutputRecord)) (output : Output) (events : List Event)

theorem shares_evaluating {computation : Evaluating α} (h : computation.Settles) :
    Shares state output events (Job.evaluating computation) (Job.evaluating computation) := by
  obtain ⟨result, after, h⟩ := h state.aggregates
  exact ⟨result, _, Gives.onPart h, Gives.onPart h, rfl, rfl⟩

theorem shares_ofReporting {computation : Reporting α} (h : computation.Settles) :
    Shares state output events (ofReporting computation) (ofReporting computation) := by
  obtain ⟨result, h⟩ := h
  exact ⟨result, state, gives_ofReporting h _, gives_ofReporting h _, rfl, rfl⟩

end Shares

/-! ### A run follows its records -/

namespace Job

variable (job : Job) {state : RunState (List OutputRecord)} {output : Output}
  {events : List Event}

theorem gives_write {σ : Type} (state : RunState σ) (output : Output)
    (events : List Event) (event : Event) :
    (write Writer.recorder event).Gives (state.withOutput output events) (.ok ())
      (state.withOutput output (event :: events)) :=
  ⟨[], fun _ => rfl⟩

theorem gives_writeRows {σ : Type} (state : RunState σ) (output : Output) (events : List Event)
    (rows : List (List Value)) :
    (writeRows Writer.recorder rows).Gives (state.withOutput output events) (.ok ())
      (state.withOutput output (recorded rows events)) := by
  induction rows generalizing events with
  | nil => exact gives_pure _ _
  | cons values rest ih =>
    have hrest := ih (.row values :: events)
    rw [show recorded rest (.row values :: events) = recorded (values :: rest) events by
      simp [recorded]] at hrest
    exact (gives_write state output events (.row values)).bind hrest

/-- Collecting a record is followed by handing it to the output. -/
theorem follows_record (hprompt : output.Prompt) (hopen : output.isDone = false)
    (record : OutputRecord) :
    Follows state output events events 0
      (modify fun state => { state with writer := record :: state.writer })
      (fun _ => do
        let state ← get
        let (rows, output) := state.output.handle record
        set { state with output := output }
        writeRows Writer.recorder rows
        return output.isFull) true false := by
  have hfeed : output.feed [record] = output.handle record := by
    rw [hprompt.feed_cons hopen]
    simp [Output.feed]
  have hfull : (output.handle record).2.isFull = (output.handle record).2.isDone :=
    hprompt.handle record
  have hrun : (do
      let state ← get
      let (rows, output) := state.output.handle record
      set { state with output := output }
      writeRows Writer.recorder rows
      return output.isFull : Running (List Event) Bool).Gives (state.withOutput output events)
      (.ok (output.handle record).2.isDone)
      (state.withOutput (output.handle record).2 (recorded (output.handle record).1 events)) := by
    rw [← hfull]
    exact (gives_get _).bind ((gives_set _ _).bind
      ((gives_writeRows state _ events _).bind (gives_pure _ _)))
  -- Being prompt, the output says that it is full exactly when it is done.
  by_cases hdone : (output.handle record).2.isDone = true
  · rw [hdone] at hrun
    exact .stops (.ok ()) _ [record] _ (gives_modify _ _) rfl (hfeed ▸ hdone) (fun _ => hrun)
      (by rw [hfeed]; rfl) (by rw [hfeed]; rfl) (Nat.le_refl _)
  · rw [Bool.eq_false_iff.mpr hdone] at hrun
    exact .continues _ [record] (gives_modify _ _) rfl (hfeed ▸ Bool.eq_false_iff.mpr hdone)
      (by rw [hfeed]; exact hrun) (Nat.le_refl _)

variable (plan : Plan) (names : List String)

theorem follows_handleRow (hprompt : output.Prompt) (hopen : output.isDone = false)
    (values : List Value) :
    Follows state output events events 0 (job.collectRow plan names values)
      (fun _ => job.handleRow Writer.recorder plan names values) true false := by
  refine Follows.get (Follows.step hopen
    (shares_evaluating state output events (plan.keeps_settles _)) fun kept middle => ?_)
  cases kept with
  | false => exact Follows.pure hopen 0
  | true =>
    refine Follows.step hopen
      ⟨_, _, gives_modify _ _, gives_modify _ _, rfl, rfl⟩ fun _ counted => ?_
    refine Follows.get (Follows.step hopen
      (shares_evaluating counted output events (plan.record_settles _)) fun record last => ?_)
    exact follows_record hprompt hopen record

theorem follows_handleRows (hprompt : output.Prompt) (hopen : output.isDone = false)
    (rows : List (List Value)) :
    Follows state output events events 0 (job.collectRows plan names rows)
      (fun _ => job.handleRows Writer.recorder plan names rows) true false := by
  induction rows generalizing state output events with
  | nil => exact Follows.pure hopen 0
  | cons values rest ih =>
    exact Follows.seq hprompt hopen
      (job.follows_handleRow plan names hprompt hopen values)
      fun _ _ _ hprompt hopen => ih hprompt hopen

theorem follows_handleInput (hprompt : output.Prompt) (hopen : output.isDone = false)
    (values : List Value) :
    Follows state output events events 0 (job.collectInput plan names values)
      (fun _ => job.handleInput Writer.recorder plan names values) true false := by
  refine Follows.step hopen
    ⟨_, _, gives_modify _ _, gives_modify _ _, rfl, rfl⟩ fun _ counted => ?_
  refine Follows.get (Follows.step hopen
    (shares_evaluating counted output events (plan.spread_settles _)) fun rows middle => ?_)
  exact job.follows_handleRows plan names hprompt hopen rows

theorem follows_consumeRows (hprompt : output.Prompt) (hopen : output.isDone = false)
    (source : Source) :
    Follows state output events events source.length (job.collectRest plan names source)
      (fun later => job.consumeRows Writer.recorder plan names (source ++ later)) () () := by
  induction source generalizing state output events with
  | nil =>
    exact .continues state [] (gives_pure _ _) rfl hopen (gives_pure _ _) (Nat.le_refl _)
  | cons pull rest ih =>
    refine Follows.take hopen fun record _ => ?_
    cases record with
    | header => exact ih hprompt hopen
    | row values =>
      exact Follows.seq hprompt hopen (job.follows_handleInput plan names hprompt hopen values)
        fun _ _ _ hprompt hopen => ih hprompt hopen

/-- A run follows its records from the beginning, after its header. -/
theorem follows_consume (hprompt : output.Prompt) (hopen : output.isDone = false)
    (declared : List String) (source : Source) :
    Follows state output events (job.headerOf (namesOf declared source) :: events) source.length
      (job.collect declared source)
      (fun later => job.consume Writer.recorder declared (source ++ later)) () () := by
  induction source generalizing state declared with
  | nil =>
    exact .continues state [] (gives_pure _ _) rfl hopen (gives_write state output events _)
      (Nat.le_refl _)
  | cons pull rest ih =>
    refine Follows.take hopen fun record hresult => ?_
    cases record with
    | header columns =>
      rw [show namesOf declared (pull :: rest) = namesOf columns rest by simp [namesOf, hresult]]
      exact ih columns
    | row values =>
      rw [show namesOf declared (pull :: rest) = columnNames declared values.length by
        simp [namesOf, hresult]]
      -- The header goes out first, and only then the clauses are compiled.
      refine Follows.run_step (gives_write _ output events _) ?_
      refine Follows.run_step (gives_get _) ?_
      simp only [RunState.output_withOutput, hopen, if_neg Bool.false_ne_true]
      refine Follows.step hopen
        (shares_ofReporting _ output _ (Plan.ofQuery_settles _ _ _)) fun plan middle => ?_
      exact Follows.seq hprompt hopen (job.follows_handleInput plan _ hprompt hopen values)
        fun _ _ _ hprompt hopen => job.follows_consumeRows plan _ hprompt hopen rest

/-! ### How a run ends -/

/-- The rows that the records of a source mean. -/
def rowsOf (source : Source) : List (List Value) :=
  job.query.rowsOf (job.recordsOf source)

/-- Whether the records of a source reach the limit while they are handled. -/
def fills (source : Source) : Bool :=
  ((Output.ofQuery job.query).feed (job.recordsOf source)).2.isDone

/-- What a run left that wrote the rows of a source. -/
structure Delivers (source : Source) (stats : Stats) (last : RunState (List Event)) : Prop where
  events : last.writer.reverse =
    job.headerOf (namesOf [] source) :: (job.rowsOf source).map .row ++ [.flush]
  rowsOut : stats.rowsOut = (job.rowsOf source).length
  pulled : last.pulled ≤ source.length

/-- The statistics of a run whose source ended in a state. -/
def statsOf (last : RunState (List Event)) : Stats :=
  ⟨last.inputRowNumber, last.output.finish.2.window.written⟩

/-- The state of a run after its end. -/
def ended (last : RunState (List Event)) : RunState (List Event) :=
  last.withOutput last.output.finish.2 (.flush :: recorded last.output.finish.1 last.writer)

theorem gives_runAll {source : Source} {last : RunState (List Event)}
    (h : (job.consume Writer.recorder [] source).Gives (job.initial []) (.ok ()) last) :
    (job.runAll Writer.recorder source).Gives (job.initial []) (.ok (statsOf last))
      (ended last) :=
  h.bind ((gives_get _).bind ((gives_set _ _).bind ((gives_writeRows last _ _ _).bind
    ((gives_write last _ _ _).bind ((gives_get _).bind (gives_pure _ _))))))

theorem delivers_ended {source : Source} {last : RunState (List Event)}
    (houtput : last.output = ((Output.ofQuery job.query).feed (job.recordsOf source)).2)
    (hevents : last.writer = recorded ((Output.ofQuery job.query).feed (job.recordsOf source)).1
      [job.headerOf (namesOf [] source)])
    (hpulled : last.pulled ≤ source.length) :
    job.Delivers source (statsOf last) (ended last) := by
  have hrows := Output.rows_of_feed job.query (job.recordsOf source)
  have hwrote := ((Output.ofQuery job.query).feed_wrote (job.recordsOf source)).append
    (Output.finish_wrote _)
  rw [hrows, ← houtput] at hwrote
  rw [← houtput] at hrows
  refine ⟨?_, hwrote.2.trans (Nat.zero_add _), hpulled⟩
  change (Event.flush :: recorded last.output.finish.1 last.writer).reverse = _
  rw [hevents, ← recorded_append, hrows]
  simp [recorded, rowsOf]

theorem collected_of_gives {source : Source} {result : Except Error Unit}
    {after : RunState (List OutputRecord)} {records : List OutputRecord}
    (hcollecting : (job.collect [] source).Gives (job.initial []) result after)
    (hrecords : after.writer = records.reverse ++ (job.initial []).writer) :
    (job.collected source).1 = result ∧ job.recordsOf source = records := by
  obtain ⟨raised, hcollecting⟩ := hcollecting
  have hcollected : job.collected source = (result, after) := by
    rw [collected, hcollecting]
  refine ⟨by rw [hcollected], ?_⟩
  rw [recordsOf, hcollected, hrecords]
  simp [initial]

theorem run_of_gives {σ : Type} {writer : Writer σ} {before : σ} {source : Source}
    {result : Except Error Stats} {last : RunState σ}
    (h : (job.runAll writer source).Gives (job.initial before) result last) :
    (job.run writer before source).1 = result ∧ (job.run writer before source).2.1 = last := by
  obtain ⟨raised, h⟩ := h
  have hrun := h []
  unfold outcome at hrun
  rw [run, start, hrun]
  exact ⟨rfl, rfl⟩

theorem fills_eq_false (h : job.query.limit = none) (source : Source) :
    job.fills source = false := by
  have hwrote := (Output.ofQuery job.query).feed_wrote (job.recordsOf source)
  have hnone : ((Output.ofQuery job.query).feed (job.recordsOf source)).2.window.limit = none :=
    hwrote.1.trans h
  simp [fills, Output.isDone, Window.isDone, hnone]

variable {job} (hlimit : job.query.limit ≠ some 0) {source : Source}
include hlimit

theorem follows_start (source : Source) :
    Follows (job.initial []) (Output.ofQuery job.query) [] [job.headerOf (namesOf [] source)]
      source.length (job.collect [] source)
      (fun later => job.consume Writer.recorder [] (source ++ later)) () () :=
  job.follows_consume (Output.ofQuery_prompt hlimit) (Output.ofQuery_open hlimit) [] source

/-- A run whose records fill its output ends at once and delivers the rows, whatever else the source
holds. -/
theorem delivers_of_fills (hfills : job.fills source = true) :
    ∃ stats last, job.Delivers source stats last ∧ ∀ later,
      (job.runAll Writer.recorder (source ++ later)).Gives (job.initial []) (.ok stats) last := by
  cases follows_start hlimit source with
  | stops result after records last hcollecting hrecords hdone hrunning houtput hevents hpulled =>
    obtain ⟨-, rfl⟩ := job.collected_of_gives hcollecting hrecords
    exact ⟨_, _, job.delivers_ended houtput hevents
        (Nat.le_trans hpulled (Nat.le_of_eq (Nat.zero_add _))),
      fun later => job.gives_runAll (hrunning later)⟩
  | continues after records hcollecting hrecords hgoing =>
    obtain ⟨-, rfl⟩ := job.collected_of_gives hcollecting hrecords
    rw [fills, hgoing] at hfills
    cases hfills
  | fails error after records last hcollecting hrecords hgoing =>
    obtain ⟨-, rfl⟩ := job.collected_of_gives hcollecting hrecords
    rw [fills, hgoing] at hfills
    cases hfills

/-- A run on a source whose records can all be collected delivers the rows. -/
theorem delivers_of_collected (hcollected : (job.collected source).1 = .ok ()) :
    ∃ stats last, job.Delivers source stats last ∧
      (job.runAll Writer.recorder source).Gives (job.initial []) (.ok stats) last := by
  cases follows_start hlimit source with
  | stops result after records last hcollecting hrecords hdone =>
    obtain ⟨-, rfl⟩ := job.collected_of_gives hcollecting hrecords
    obtain ⟨stats, last, hdelivers, hrun⟩ := delivers_of_fills hlimit hdone
    exact ⟨stats, last, hdelivers, by simpa using hrun []⟩
  | continues after records hcollecting hrecords hgoing hrunning hpulled =>
    obtain ⟨-, rfl⟩ := job.collected_of_gives hcollecting hrecords
    rw [List.append_nil] at hrunning
    exact ⟨_, _, job.delivers_ended rfl rfl (Nat.le_trans hpulled (Nat.le_of_eq (Nat.zero_add _))),
      job.gives_runAll hrunning⟩
  | fails error after records last hcollecting hrecords =>
    obtain ⟨hfailed, -⟩ := job.collected_of_gives hcollecting hrecords
    rw [hcollected] at hfailed
    cases hfailed

/-- A run that succeeds was filled, or its records can all be collected. -/
theorem collected_of_run {stats : Stats}
    (hrun : (job.run Writer.recorder [] source).1 = .ok stats) :
    job.fills source = true ∨ (job.collected source).1 = .ok () := by
  cases follows_start hlimit source with
  | stops result after records last hcollecting hrecords hdone =>
    obtain ⟨-, rfl⟩ := job.collected_of_gives hcollecting hrecords
    exact .inl hdone
  | continues after records hcollecting hrecords =>
    exact .inr (job.collected_of_gives hcollecting hrecords).1
  | fails error after records last hcollecting hrecords hgoing hrunning =>
    rw [List.append_nil] at hrunning
    obtain ⟨hfailed, -⟩ := job.run_of_gives hrunning.bind_error
    cases hrun.symm.trans hfailed

end Job

end StreamQuery

/-!
## Streaming runs

A query that neither groups nor orders its rows writes them as they come. It writes exactly the
window of its rows, and reads no further than the record that completes the window.
-/

namespace StreamQuery

namespace Job

/-- The rows of a source, in order: those of all its records, or under `DISTINCT` the first one of
every tuple. -/
def selected (job : Job) (source : Source) : List (List Value) :=
  (job.query.consolidate (job.recordsOf source)).map (·.values)

/-- Whether the rows of a source complete the window of the query. -/
def Completes (job : Job) (source : Source) : Prop :=
  ∃ limit, job.query.limit = some limit ∧
    job.query.offset + limit ≤ (job.selected source).length

variable {job : Job} (horder : job.query.orderBy = [])
include horder

theorem rowsOf_eq_window (source : Source) :
    job.rowsOf source = job.query.window (job.selected source) := by
  rw [rowsOf, Query.rowsOf, horder]
  rfl

variable (hgroups : job.query.groups = false) (hlimit : job.query.limit ≠ some 0)
include hgroups hlimit

/-- A streaming run is ended by its output when its rows complete the window. -/
theorem fills_iff_completes (source : Source) : job.fills source = true ↔ job.Completes source := by
  have hrows := Output.rows_of_feed job.query (job.recordsOf source)
  have hwrote := (Output.ofQuery job.query).feed_wrote (job.recordsOf source)
  -- Such an output keeps nothing back, so what it wrote so far is the whole window.
  rw [Output.finish, Output.records_of_feed hgroups horder, Window.drain, List.append_nil] at hrows
  rw [hrows] at hwrote
  have hwritten := hwrote.2.trans (Nat.zero_add _)
  change _ = (job.rowsOf source).length at hwritten
  rw [rowsOf_eq_window horder] at hwritten
  have hquery : ((Output.ofQuery job.query).feed (job.recordsOf source)).2.window.limit =
    job.query.limit := hwrote.1
  rw [fills, Output.isDone, Window.isDone_iff, hwritten, hquery]
  refine exists_congr fun limit => and_congr_right fun heq => ?_
  have hpositive : limit ≠ 0 := fun hzero => hlimit (hzero ▸ heq)
  simp only [Query.window, heq, upTo, List.length_take, List.length_drop]
  omega

end Job

/-- A streaming run writes its header, then the window of its rows, then one flush. Once the window
is complete it takes no further record: whatever the source holds later changes nothing. -/
theorem streaming_window (job : Job) (source : Source) (hgroups : job.query.groups = false)
    (horder : job.query.orderBy = []) (hlimit : job.query.limit ≠ some 0) :
    ((job.collected source).1 = .ok () ∨ job.Completes source →
      ∃ stats, (job.run Writer.recorder [] source).1 = .ok stats ∧
        (job.run Writer.recorder [] source).2.1.writer.reverse =
          job.headerOf (Job.namesOf [] source) ::
            (job.query.window (job.selected source)).map .row ++ [.flush] ∧
        stats.rowsOut = (job.query.window (job.selected source)).length) ∧
    (job.Completes source → ∀ later,
      (job.run Writer.recorder [] (source ++ later)).1 = (job.run Writer.recorder [] source).1 ∧
      (job.run Writer.recorder [] (source ++ later)).2.1 =
        (job.run Writer.recorder [] source).2.1 ∧
      (job.run Writer.recorder [] (source ++ later)).2.1.pulled ≤ source.length) := by
  have hfills := Job.fills_iff_completes horder hgroups hlimit source
  have hrows := Job.rowsOf_eq_window horder source
  constructor
  · intro hends
    have hdelivered : ∃ stats last, job.Delivers source stats last ∧
        (job.runAll Writer.recorder source).Gives (job.initial []) (.ok stats) last := by
      rcases hends with hcollected | hcompletes
      · exact Job.delivers_of_collected hlimit hcollected
      · obtain ⟨stats, last, hdelivers, hrun⟩ :=
          Job.delivers_of_fills hlimit (hfills.mpr hcompletes)
        exact ⟨stats, last, hdelivers, by simpa using hrun []⟩
    obtain ⟨stats, last, hdelivers, hgives⟩ := hdelivered
    obtain ⟨hresult, hlast⟩ := job.run_of_gives hgives
    refine ⟨stats, hresult, ?_, ?_⟩
    · rw [hlast, hdelivers.events, hrows]
    · rw [hdelivers.rowsOut, hrows]
  · intro hcompletes later
    obtain ⟨stats, last, hdelivers, hrun⟩ := Job.delivers_of_fills hlimit (hfills.mpr hcompletes)
    obtain ⟨hresult, hlast⟩ := job.run_of_gives (hrun later)
    obtain ⟨hresult', hlast'⟩ := job.run_of_gives (by simpa using hrun [])
    exact ⟨hresult.trans hresult'.symm, hlast.trans hlast'.symm, hlast ▸ hdelivers.pulled⟩

/-- A run that writes the second row of its source. -/
def Job.secondRow : Job := { query := Query.selectAll (some 1) 1 }

/-- Two rows of one column. -/
def Source.twoRows : Source := .ofRows [[.bool false], [.bool true]]

/-- A record that cannot be taken. -/
def Pull.failing : Pull := ⟨[], .error (.eval (.undefinedName "x"))⟩

theorem streaming_window_of_second_row :
    (Job.secondRow.query.groups = false ∧ Job.secondRow.query.orderBy = [] ∧
      Job.secondRow.query.limit ≠ some 0 ∧ Job.secondRow.Completes Source.twoRows) ∧
    ∃ stats,
      (Job.secondRow.run Writer.recorder [] (Source.twoRows ++ [.failing])).1 = .ok stats ∧
      (Job.secondRow.run Writer.recorder [] (Source.twoRows ++ [.failing])).2.1.writer.reverse =
        [.header ["col1"], .row [.bool true], .flush] ∧
      stats.rowsOut = 1 := by
  have hselected : Job.secondRow.selected Source.twoRows = [[.bool false], [.bool true]] := rfl
  have hcompletes : Job.secondRow.Completes Source.twoRows := ⟨1, rfl, by rw [hselected]; decide⟩
  have hlimit : Job.secondRow.query.limit ≠ some 0 := by decide
  have hheader : Job.secondRow.headerOf (Job.namesOf [] Source.twoRows) = .header ["col1"] := by cbv
  obtain ⟨hruns, hstops⟩ := streaming_window Job.secondRow Source.twoRows rfl rfl hlimit
  obtain ⟨stats, hresult, hevents, hrows⟩ := hruns (.inr hcompletes)
  obtain ⟨hsame, hstate, -⟩ := hstops hcompletes [.failing]
  rw [hselected] at hevents hrows
  rw [hheader] at hevents
  refine ⟨⟨rfl, rfl, hlimit, hcompletes⟩, stats, hsame.trans hresult, ?_, hrows⟩
  rw [hstate]
  exact hevents

end StreamQuery
