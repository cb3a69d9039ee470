import StreamQuery.Proofs.Execution.Collecting

/-!
# Where the rows of a run come from

A run hands its writer a header and then rows. Each row is made of a row of the source: that row is
spread, and the items of `SELECT` are evaluated on one of the rows that this gives. The output only
keeps rows back or drops them, and a writer can do no more than end the run.
-/

namespace StreamQuery

open Stateful

/-! ### Records that an output keeps -/

theorem mem_insertEntry {α : Type} {key : String} {value : α} {entries : List (String × α)}
    {entry : String × α} (h : entry ∈ insertEntry key value entries) :
    entry = (key, value) ∨ entry ∈ entries := by
  induction entries with
  | nil => exact .inl (List.mem_singleton.mp h)
  | cons first rest ih =>
    unfold insertEntry at h
    split at h
    · exact (List.mem_cons.mp h).imp_right (List.mem_cons_of_mem _)
    · rcases List.mem_cons.mp h with rfl | h
      · exact .inr List.mem_cons_self
      · exact (ih h).imp_right (List.mem_cons_of_mem _)

theorem sortFrom_perm (index : Nat) (keys : List OrderKey) (records : List OutputRecord) :
    (sortFrom index keys records).Perm records := by
  induction keys generalizing index with
  | nil => exact .refl _
  | cons key rest ih => exact (List.mergeSort_perm _ _).trans (ih _)

theorem Window.eq_of_mem_pass {window : Window} {values row : List Value}
    (h : row ∈ (window.pass values).1) : row = values := by
  unfold pass at h
  split at h
  · cases h
  · exact List.mem_singleton.mp h

theorem Window.exists_of_mem_drain {window : Window} {records : List OutputRecord}
    {row : List Value} (h : row ∈ (window.drain records).1) :
    ∃ record ∈ records, row = record.values := by
  induction records generalizing window with
  | nil => cases h
  | cons record rest ih =>
    unfold drain at h
    split at h
    · cases h
    · rcases List.mem_append.mp h with h | h
      · exact ⟨record, List.mem_cons_self, eq_of_mem_pass h⟩
      · obtain ⟨other, hother, hrow⟩ := ih h
        exact ⟨other, List.mem_cons_of_mem _ hother, hrow⟩

namespace Output

/-- The records that are kept back. -/
def held (output : Output) : List OutputRecord :=
  match output.kept with
  | .nothing => []
  | .keys _ => []
  | .rows _ latest => latest
  | .groups records => records.map (·.2)

/-- The rows that are kept back have a property. -/
def Holds (property : List Value → Prop) (output : Output) : Prop :=
  ∀ record ∈ output.held, property record.values

variable {property : List Value → Prop} {output : Output}

theorem holds_ofQuery (property : List Value → Prop) (query : Query) :
    (ofQuery query).Holds property := by
  have hnone : (ofQuery query).held = [] := by
    unfold ofQuery held
    dsimp only
    split_ifs <;> rfl
  intro record hrecord
  rw [hnone] at hrecord
  cases hrecord

theorem mem_held_of_mem_records {record : OutputRecord} (h : record ∈ output.records) :
    record ∈ output.held := by
  obtain ⟨window, orderBy, kept⟩ := output
  cases kept with
  | nothing => cases h
  | keys seen => cases h
  | rows seen latest => exact List.mem_reverse.mp ((sortFrom_perm _ _ _).mem_iff.mp h)
  | groups entries => exact (sortFrom_perm _ _ _).mem_iff.mp h

theorem held_handle {record other : OutputRecord} (h : other ∈ (output.handle record).2.held) :
    other = record ∨ other ∈ output.held := by
  obtain ⟨window, orderBy, kept⟩ := output
  rcases kept with _ | seen | ⟨_ | seen, latest⟩ | entries
  · cases h
  · by_cases hseen : seen.contains (tupleKey record.values) = true <;>
      simp [handle, hseen, release, held] at h
  · exact List.mem_cons.mp h
  · by_cases hseen : seen.contains (tupleKey record.values) = true
    · simp only [handle, hseen, if_true] at h
      exact .inr h
    · simp only [handle, hseen, if_neg Bool.false_ne_true] at h
      exact List.mem_cons.mp h
  · obtain ⟨entry, hentry, rfl⟩ := List.mem_map.mp h
    rcases mem_insertEntry hentry with rfl | hentry
    · exact .inl rfl
    · exact .inr (List.mem_map_of_mem hentry)

theorem Holds.handle {record : OutputRecord} (h : output.Holds property)
    (hrecord : property record.values) : (output.handle record).2.Holds property := by
  intro other hother
  rcases held_handle hother with rfl | hother
  · exact hrecord
  · exact h other hother

theorem eq_of_mem_handle {record : OutputRecord} {row : List Value}
    (h : row ∈ (output.handle record).1) : row = record.values := by
  rcases output.handle_cases record with ⟨hrows, -⟩ | ⟨hrows, -⟩
  · rw [hrows] at h
    cases h
  · exact Window.eq_of_mem_pass (hrows ▸ h)

theorem Holds.of_mem_finish (h : output.Holds property) {row : List Value}
    (hrow : row ∈ output.finish.1) : property row := by
  obtain ⟨record, hrecord, rfl⟩ := Window.exists_of_mem_drain hrow
  exact h record (mem_held_of_mem_records hrecord)

end Output

/-! ### The row that a record comes from -/

theorem Plan.project_of_record {plan : Plan} {scope : Scope} {table after : Aggregates}
    {record : OutputRecord} (h : (plan.record scope).Gives table (.ok record) after) :
    ∃ started middle, (project scope 1 plan.items).Gives started (.ok record.values) middle := by
  have hkeys (values : List Value) := sortKeys_settles scope values 1 plan.orderBy
  obtain ⟨key, started, -, hnext⟩ := h.of_bind (plan.startGroup_settles scope)
    fun _ => (project_settles scope 1 _).bind fun values => (hkeys values).bind fun _ =>
      settles_pure _
  obtain ⟨values, middle, hproject, hnext⟩ := hnext.of_bind (project_settles scope 1 _)
    fun values => (hkeys values).bind fun _ => settles_pure _
  obtain ⟨_, last, -, hlast⟩ := hnext.of_bind (hkeys values) fun _ => settles_pure _
  obtain rfl := Except.ok.inj (hlast.unique (gives_pure _ _)).1
  exact ⟨started, middle, hproject⟩

/-- A writer that also keeps all events handed to it, be they refused or not, the latest first. -/
def Writer.noting {σ : Type} (writer : Writer σ) : Writer (List Event × σ) :=
  fun event (events, state) =>
    let (result, after) := writer event state
    (result, event :: events, after)

namespace Job

/-- How a row of the output is made of a row of a source whose columns have names: by a plan of the
query, in the scope of one of the rows that the row is spread into, and from a table of
accumulators on. -/
structure Makes (job : Job) (source : Source) (names : List String) (input : List Value)
    (plan : Plan) (scope : Scope) (table : Aggregates) (values : List Value) : Prop where
  taken : ∃ pull ∈ source, pull.result = .ok (.row input)
  planned : ∃ bindings, (Plan.ofQuery job.policy job.query bindings).Gives (.ok plan)
  spread : ∃ (state : RunState Unit) (rows : List (List Value)) (before after : Aggregates),
    (plan.spread (job.scope names input state)).Gives before (.ok rows) after ∧
      scope.values ∈ rows
  sees : ∃ state : RunState Unit, scope = job.scope names scope.values state
  projected : ∃ after, (Plan.project scope 1 plan.items).Gives table (.ok values) after

/-- A row that a run may write. -/
def MayWrite (job : Job) (source : Source) (names : List String) (values : List Value) : Prop :=
  ∃ input plan scope table, job.Makes source names input plan scope table values

/-! ### What a run preserves -/

/-- The events after a header, the latest first: rows with a property, and flushes. -/
def RowsAfter (header : Event) (property : List Value → Prop) (events : List Event) : Prop :=
  ∃ later, events = later ++ [header] ∧
    ∀ event ∈ later, event = .flush ∨ ∃ values, event = .row values ∧ property values

theorem RowsAfter.cons {header event : Event} {property : List Value → Prop} {events : List Event}
    (h : RowsAfter header property events)
    (hevent : event = .flush ∨ ∃ values, event = .row values ∧ property values) :
    RowsAfter header property (event :: events) := by
  obtain ⟨later, rfl, hlater⟩ := h
  exact ⟨event :: later, rfl, List.forall_mem_cons.mpr ⟨hevent, hlater⟩⟩

section Going

variable {σ α β : Type}

/-- The rows that a run wrote after its header, and those that it keeps back, have a property. -/
def Going (header : Event) (property : List Value → Prop)
    (state : RunState (List Event × σ)) : Prop :=
  state.output.Holds property ∧ RowsAfter header property state.writer.1

/-- Steps of a run after its header, which only write and keep back rows with a property. -/
def Keeps (header : Event) (property : List Value → Prop)
    (steps : Running (List Event × σ) α) : Prop :=
  Ensures (Going header property) steps (fun _ => Going header property) (Going header property)

variable {header : Event} {property : List Value → Prop}

theorem keeps_pure (value : α) :
    Keeps (σ := σ) header property (pure value) :=
  ensures_pure fun _ => id

theorem Keeps.bind {steps : Running (List Event × σ) α} {next : α → Running (List Event × σ) β}
    (h : Keeps header property steps) (hnext : ∀ value, Keeps header property (next value)) :
    Keeps header property (steps >>= next) :=
  Ensures.bind h hnext

/-- What holds whatever the accumulators are is kept by evaluating. -/
theorem ensures_evaluating_bind {before failed : RunState σ → Prop} {final : β → RunState σ → Prop}
    {computation : Evaluating α} {next : α → Running σ β} (hsettles : computation.Settles)
    (hbefore : ∀ state table, before state → before { state with aggregates := table })
    (hfailed : ∀ state, before state → failed state)
    (hnext : ∀ value table after, computation.Gives table (.ok value) after →
      Ensures before (next value) final failed) :
    Ensures before (evaluating computation >>= next) final failed := by
  intro state warned hstate
  obtain ⟨result, table, hgives⟩ := hsettles state.aggregates
  obtain ⟨raised, houtcome⟩ :
      (evaluating computation).Gives state result { state with aggregates := table } :=
    Gives.onPart hgives
  rw [outcome_bind, houtcome]
  cases result with
  | ok value => exact hnext value _ table hgives _ _ (hbefore state table hstate)
  | error error => exact hfailed _ (hbefore state table hstate)

theorem ensures_ofReporting_bind {before failed : RunState σ → Prop}
    {final : β → RunState σ → Prop} {computation : Reporting α} {next : α → Running σ β}
    (hsettles : computation.Settles) (hfailed : ∀ state, before state → failed state)
    (hnext : ∀ value, computation.Gives (.ok value) → Ensures before (next value) final failed) :
    Ensures before (Stateful.ofReporting computation >>= next) final failed := by
  intro state warned hstate
  obtain ⟨result, hgives⟩ := hsettles
  obtain ⟨raised, houtcome⟩ := gives_ofReporting hgives state
  rw [outcome_bind, houtcome]
  cases result with
  | ok value => exact hnext value hgives state _ hstate
  | error error => exact hfailed state hstate

theorem Keeps.evaluating_bind {computation : Evaluating α} {next : α → Running (List Event × σ) β}
    (hsettles : computation.Settles)
    (hnext : ∀ value table after, computation.Gives table (.ok value) after →
      Keeps header property (next value)) :
    Keeps header property (evaluating computation >>= next) :=
  ensures_evaluating_bind hsettles (fun _ _ => id) (fun _ => id) hnext

theorem Keeps.ofReporting_bind {computation : Reporting α}
    {next : α → Running (List Event × σ) β} (hsettles : computation.Settles)
    (hnext : ∀ value, computation.Gives (.ok value) → Keeps header property (next value)) :
    Keeps header property (Stateful.ofReporting computation >>= next) :=
  ensures_ofReporting_bind hsettles (fun _ => id) hnext

theorem ensures_take {before : RunState σ → Prop} (job : Job) (pull : Pull)
    (h : ∀ state, before state → ∀ pulled, before { state with pulled := pulled }) :
    Ensures before (job.take pull)
      (fun record state => pull.result = .ok record ∧ before state) before := by
  intro state warned hstate
  rcases job.take_cases pull with ⟨error, htake⟩ | ⟨record, hresult, htake⟩
  · rw [(htake state).outcome_eq]
    exact hstate
  · rw [(htake state).outcome_eq]
    exact ⟨hresult, h state hstate _⟩

/-- What is known of a state before a record is taken is known after it. -/
theorem ensures_take_bind {β : Type} {before : RunState σ → Prop} {after : β → RunState σ → Prop}
    {failed : RunState σ → Prop} {job : Job} {pull : Pull} {next : InputRecord → Running σ β}
    (hkept : ∀ state, before state → ∀ pulled, before { state with pulled := pulled })
    (hfailed : ∀ state, before state → failed state)
    (hnext : ∀ record, pull.result = .ok record → Ensures before (next record) after failed) :
    Ensures before (job.take pull >>= next) after failed :=
  ((ensures_take job pull hkept).or_failed hfailed).bind fun record =>
    ensures_of_and fun hrecord => hnext record hrecord

variable (writer : Writer σ)

/-- An event that is handed to the writer is noted, whether the writer refuses it or not. -/
theorem ensures_write {before after : RunState (List Event × σ) → Prop} (event : Event)
    (h : ∀ state, before state → ∀ written,
      after { state with writer := (event :: state.writer.1, written) }) :
    Ensures before (write writer.noting event) (fun _ => after) after := by
  refine ensures_get fun seen hseen => ?_
  have hset : Ensures before (set { seen with
      writer := (event :: seen.writer.1, (writer event seen.writer.2).2) }) (fun _ => after)
      after :=
    ensures_set (h seen hseen _)
  refine hset.bind fun _ => ?_
  split
  · exact ensures_pure fun _ => id
  · exact ensures_throw fun _ => id

theorem keeps_write {event : Event}
    (h : event = .flush ∨ ∃ values, event = .row values ∧ property values) :
    Keeps header property (write writer.noting event) :=
  ensures_write writer event fun _ hstate _ => ⟨hstate.1, hstate.2.cons h⟩

theorem keeps_writeRows {rows : List (List Value)} (h : ∀ values ∈ rows, property values) :
    Keeps header property (writeRows writer.noting rows) := by
  induction rows with
  | nil => exact keeps_pure ()
  | cons values rest ih =>
    obtain ⟨hvalues, hrest⟩ := List.forall_mem_cons.mp h
    exact (keeps_write writer (.inr ⟨values, rfl, hvalues⟩)).bind fun _ => ih hrest

/-- A record with the property is handed to the output. -/
theorem keeps_record {record : OutputRecord} (h : property record.values) :
    Keeps header property (do
      let state ← get
      let (rows, output) := state.output.handle record
      set { state with output := output }
      writeRows writer.noting rows
      return output.isFull) := by
  refine ensures_get fun seen hseen => ?_
  have hset : Keeps header property (set { seen with output := (seen.output.handle record).2 }) :=
    ensures_set ⟨hseen.1.handle h, hseen.2⟩
  refine hset.bind fun _ => (keeps_writeRows writer fun row hrow => ?_).bind
    fun _ => keeps_pure _
  rw [Output.eq_of_mem_handle hrow]
  exact h

variable (job : Job) {plan : Plan} {names : List String}

theorem keeps_handleRow {values : List Value}
    (h : ∀ (state : RunState Unit) table record after,
      (plan.record (job.scope names values state)).Gives table (.ok record) after →
        property record.values) :
    Keeps header property (job.handleRow writer.noting plan names values) := by
  refine ensures_get fun seen _ => ?_
  refine Keeps.evaluating_bind (plan.keeps_settles _) fun kept _ _ _ => ?_
  cases kept with
  | false => exact keeps_pure false
  | true =>
    have hcount : Keeps header property (modify fun state : RunState (List Event × σ) =>
        { state with rowNumber := state.rowNumber + 1 }) := ensures_modify fun _ => id
    refine hcount.bind fun _ => ensures_get fun counted _ => ?_
    refine Keeps.evaluating_bind (plan.record_settles _) fun record table after hrecord => ?_
    exact keeps_record writer (h (counted.withOutput counted.output ()) table record after hrecord)

theorem keeps_handleRows {rows : List (List Value)}
    (h : ∀ values ∈ rows, ∀ (state : RunState Unit) table record after,
      (plan.record (job.scope names values state)).Gives table (.ok record) after →
        property record.values) :
    Keeps header property (job.handleRows writer.noting plan names rows) := by
  induction rows with
  | nil => exact keeps_pure false
  | cons values rest ih =>
    obtain ⟨hvalues, hrest⟩ := List.forall_mem_cons.mp h
    refine (keeps_handleRow writer job hvalues).bind fun full => ?_
    cases full with
    | false => exact ih hrest
    | true => exact keeps_pure true

variable {job} {source : Source}
  (hplan : ∃ bindings, (Plan.ofQuery job.policy job.query bindings).Gives (.ok plan))
include hplan

/-- The rows that a row of the source is spread into make rows that a run may write. -/
theorem keeps_handleInput {input : List Value}
    (htaken : ∃ pull ∈ source, pull.result = .ok (.row input)) :
    Keeps header (job.MayWrite source names)
      (job.handleInput writer.noting plan names input) := by
  have hcount : Keeps header (job.MayWrite source names)
      (modify fun state : RunState (List Event × σ) =>
        { state with inputRowNumber := state.inputRowNumber + 1 }) := ensures_modify fun _ => id
  refine hcount.bind fun _ => ensures_get fun seen _ => ?_
  refine Keeps.evaluating_bind (plan.spread_settles _) fun rows before spread hrows => ?_
  refine keeps_handleRows writer job fun values hvalues state table record after hrecord => ?_
  obtain ⟨started, middle, hproject⟩ := Plan.project_of_record hrecord
  exact ⟨input, plan, job.scope names values state, started, htaken, hplan,
    ⟨seen.withOutput seen.output (), rows, before, spread, hrows, hvalues⟩, ⟨state, rfl⟩,
    ⟨middle, hproject⟩⟩

theorem keeps_consumeRows {rest : Source} (hrest : ∀ pull ∈ rest, pull ∈ source) :
    Keeps header (job.MayWrite source names) (job.consumeRows writer.noting plan names rest) := by
  induction rest with
  | nil => exact keeps_pure ()
  | cons pull rest ih =>
    obtain ⟨hpull, hrest⟩ := List.forall_mem_cons.mp hrest
    refine ensures_take_bind (fun _ hstate _ => hstate) (fun _ => id) fun record hrecord => ?_
    cases record with
    | header columns => exact ih hrest
    | row input =>
      refine (keeps_handleInput writer hplan ⟨pull, hpull, hrecord⟩).bind fun full => ?_
      cases full with
      | false => exact ih hrest
      | true => exact keeps_pure ()

omit hplan

/-! ### Before the header -/

/-- No event was handed to the writer, and the rows that are kept back have a property. -/
def Fresh (property : List Value → Prop) (state : RunState (List Event × σ)) : Prop :=
  state.output.Holds property ∧ state.writer.1 = []

/-- The events of a run are none, or a header and what comes after it. -/
def Begun (header : Event) (property : List Value → Prop)
    (state : RunState (List Event × σ)) : Prop :=
  state.writer.1 = [] ∨ RowsAfter header property state.writer.1

theorem ensures_begun {before : RunState (List Event × σ) → Prop}
    {steps : Running (List Event × σ) α}
    (h : Ensures before steps (fun _ => Going header property) (Going header property)) :
    Ensures before steps (fun _ => Going header property) (Begun header property) :=
  h.or_failed fun _ hstate => .inr hstate.2

theorem ensures_writeHeader (job : Job) (names : List String) :
    Ensures (Fresh property) (job.writeHeader writer.noting names)
      (fun _ => Going (job.headerOf names) property) (Going (job.headerOf names) property) := by
  refine ensures_write writer (job.headerOf names) fun state hstate written =>
    ⟨hstate.1, [], ?_, fun _ hevent => absurd hevent List.not_mem_nil⟩
  rw [hstate.2]
  rfl

theorem ensures_consume {rest : Source} (hrest : ∀ pull ∈ rest, pull ∈ source)
    {declared : List String} (hnames : namesOf declared rest = names) :
    Ensures (Fresh (job.MayWrite source names)) (job.consume writer.noting declared rest)
      (fun _ => Going (job.headerOf names) (job.MayWrite source names))
      (Begun (job.headerOf names) (job.MayWrite source names)) := by
  induction rest generalizing declared with
  | nil =>
    obtain rfl := hnames
    exact ensures_begun (ensures_writeHeader writer job declared)
  | cons pull rest ih =>
    obtain ⟨hpull, hrest⟩ := List.forall_mem_cons.mp hrest
    refine ensures_take_bind (fun _ hstate _ => hstate) (fun _ hstate => .inl hstate.2)
      fun record hrecord => ?_
    cases record with
    | header columns => exact ih hrest (by rw [← hnames, namesOf, hrecord])
    | row input =>
      obtain rfl : columnNames declared input.length = names := by
        rw [← hnames, namesOf, hrecord]
      refine ensures_begun ((ensures_writeHeader writer job _).bind fun _ => ?_)
      refine ensures_get fun seen _ => ?_
      split
      · exact keeps_pure ()
      · refine Keeps.ofReporting_bind (Plan.ofQuery_settles _ _ _) fun plan hplan => ?_
        refine (keeps_handleInput writer ⟨_, hplan⟩ ⟨pull, hpull, hrecord⟩).bind
          fun full => ?_
        cases full with
        | false => exact keeps_consumeRows writer ⟨_, hplan⟩ hrest
        | true => exact keeps_pure ()

theorem ensures_runAll (job : Job) (source : Source) :
    Ensures (Fresh (job.MayWrite source (namesOf [] source))) (job.runAll writer.noting source)
      (fun _ => Going (job.headerOf (namesOf [] source)) (job.MayWrite source (namesOf [] source)))
      (Begun (job.headerOf (namesOf [] source)) (job.MayWrite source (namesOf [] source))) := by
  refine (ensures_consume writer (fun _ => id) rfl).bind fun _ => ensures_begun ?_
  refine ensures_get fun seen hseen => ?_
  have hset : Keeps (job.headerOf (namesOf [] source)) (job.MayWrite source (namesOf [] source))
      (set { seen with output := seen.output.finish.2 }) := ensures_set hseen
  refine hset.bind fun _ => ?_
  refine (keeps_writeRows writer fun row hrow => hseen.1.of_mem_finish hrow).bind fun _ => ?_
  exact (keeps_write writer (.inl rfl)).bind fun _ => ensures_get fun _ _ => keeps_pure _

end Going

/-- The events that a run hands to its writer: none if it fails before its header, or else the header
and then rows that it may write, and flushes. -/
theorem events_of_run {σ : Type} (job : Job) (writer : Writer σ) (start : σ) (source : Source) :
    (job.run writer.noting ([], start) source).2.1.writer.1.reverse = [] ∨
      ∃ later, (job.run writer.noting ([], start) source).2.1.writer.1.reverse =
        job.headerOf (namesOf [] source) :: later ∧
        ∀ event ∈ later, event = .flush ∨
          ∃ values, event = .row values ∧ job.MayWrite source (namesOf [] source) values := by
  have hrun := ensures_runAll writer job source (job.initial ([], start)) []
    ⟨Output.holds_ofQuery _ _, rfl⟩
  have hbegun : Begun (job.headerOf (namesOf [] source)) (job.MayWrite source (namesOf [] source))
      (job.run writer.noting ([], start) source).2.1 := by
    change Begun _ _ ((job.runAll writer.noting source).outcome (job.initial ([], start)) []).1.2
    revert hrun
    rcases (job.runAll writer.noting source).outcome (job.initial ([], start)) [] with
      ⟨⟨_ | _, last⟩, _⟩
    · exact id
    · exact fun hlast => .inr hlast.2
  rcases hbegun with hnone | ⟨later, hevents, hlater⟩
  · exact .inl (by rw [hnone]; rfl)
  · refine .inr ⟨later.reverse, ?_, fun event hevent => hlater event (List.mem_reverse.mp hevent)⟩
    rw [hevents, List.reverse_append]
    rfl

end Job

end StreamQuery
