import StreamQuery.Proofs.Execution.Interleaving
import StreamQuery.Proofs.Execution.Origin

/-!
# Runs that keep one record of every group

A run that groups its rows and shows no running values writes nothing but its header until its source
ends. Meanwhile it keeps one record of every group, and then writes some of these records: those that
the window of the query leaves.
-/

namespace StreamQuery

open Stateful

/-! ### Records that are kept back -/

/-- An output keeps records with a property, one of every group. -/
def Output.Consolidates (property : OutputRecord → Prop) (output : Output) : Prop :=
  ∃ entries, output.kept = .groups entries ∧ (keysOf entries).Nodup ∧
    ∀ entry ∈ entries, entry.2.groupKey = entry.1 ∧ property entry.2

theorem nodup_insertEntry {α : Type} {entries : List (String × α)} (h : (keysOf entries).Nodup)
    (key : String) (value : α) : (keysOf (insertEntry key value entries)).Nodup := by
  by_cases hkey : key ∈ keysOf entries
  · rwa [keysOf_insertEntry_of_mem hkey]
  · rw [keysOf_insertEntry_of_not_mem hkey]
    refine List.nodup_append.mpr ⟨h, by simp, fun other hother found hfound => ?_⟩
    rw [List.mem_singleton.mp hfound]
    exact fun heq => hkey (heq ▸ hother)

namespace Output

variable {property : OutputRecord → Prop} {output : Output}

theorem consolidates_ofQuery (property : OutputRecord → Prop) {query : Query}
    (hgroups : query.groups = true) (hpartials : query.selection.partials = false) :
    (ofQuery query).Consolidates property := by
  refine ⟨[], ?_, List.nodup_nil, fun _ hentry => absurd hentry List.not_mem_nil⟩
  simp [ofQuery, hgroups, hpartials]

/-- A record replaces the one of its group, and no row leaves. -/
theorem Consolidates.handle {record : OutputRecord} (h : output.Consolidates property)
    (hrecord : property record) :
    (output.handle record).1 = [] ∧ (output.handle record).2.Consolidates property := by
  obtain ⟨window, orderBy, kept⟩ := output
  obtain ⟨entries, rfl, hnodup, hentries⟩ := h
  refine ⟨rfl, _, rfl, nodup_insertEntry hnodup _ _, fun entry hentry => ?_⟩
  rcases mem_insertEntry hentry with rfl | hentry
  · exact ⟨rfl, hrecord⟩
  · exact hentries entry hentry

theorem upTo_sublist {α : Type} (limit : Option Nat) (items : List α) :
    (upTo limit items).Sublist items := by
  cases limit with
  | none => exact .refl _
  | some limit => exact List.take_sublist _ _

/-- At the end rows leave that belong to different groups. -/
theorem Consolidates.finish (h : output.Consolidates property) :
    ∃ records : List OutputRecord, output.finish.1 = records.map (·.values) ∧
      (records.map (·.groupKey)).Nodup ∧ ∀ record ∈ records, property record := by
  obtain ⟨window, orderBy, kept⟩ := output
  obtain ⟨entries, rfl, hnodup, hentries⟩ := h
  let sorted := sortRecords orderBy (entries.map (·.2))
  have hsorted : sorted.Perm (entries.map (·.2)) := sortFrom_perm _ _ _
  have hrows := (upTo_sublist (window.limit.map (· - window.written))
    ((sorted.map (·.values)).drop window.toSkip)).trans (List.drop_sublist _ _)
  rw [← Window.drain_rows] at hrows
  obtain ⟨records, hrecords, hvalues⟩ := List.sublist_map_iff.mp hrows
  have hkeys : (entries.map (·.2)).map (·.groupKey) = keysOf entries := by
    rw [List.map_map]
    exact List.map_congr_left fun entry hentry => (hentries entry hentry).1
  refine ⟨records, hvalues, ?_, fun record hrecord => ?_⟩
  · exact ((hsorted.map _).nodup_iff.mpr (hkeys ▸ hnodup)).sublist (hrecords.map _)
  · obtain ⟨entry, hentry, rfl⟩ := List.mem_map.mp (hsorted.mem_iff.mp (hrecords.subset hrecord))
    exact (hentries entry hentry).2

end Output

/-! ### The records of a run -/

namespace Job

/-- How a record of a run comes about: its plan evaluates it on one of the rows that a row of the
source is spread into. -/
structure Records (job : Job) (source : Source) (input : List Value) (plan : Plan) (scope : Scope)
    (record : OutputRecord) : Prop where
  taken : ∃ pull ∈ source, pull.result = .ok (.row input)
  planned : (job.layout source).plan = .ok plan
  spread : ∃ (state : RunState Unit) (rows : List (List Value)) (before after : Aggregates),
    (plan.spread (job.scope (namesOf [] source) input state)).Gives before (.ok rows) after ∧
      scope.values ∈ rows
  sees : ∃ state : RunState Unit, scope = job.scope (namesOf [] source) scope.values state
  recorded : ∃ table after, (plan.record scope).Gives table (.ok record) after

/-- A record that a run may keep. -/
def MayKeep (job : Job) (source : Source) (record : OutputRecord) : Prop :=
  ∃ input plan scope, job.Records source input plan scope record

/-- A run keeps records with a property, one of every group, and wrote some events. -/
def Holding (property : OutputRecord → Prop) (events : List Event)
    (state : RunState (List Event)) : Prop :=
  state.output.Consolidates property ∧ state.writer = events

section Holding

variable {σ α β : Type} {property : OutputRecord → Prop} {events : List Event}

/-- Steps that write nothing and only keep records with a property. -/
def HoldsOn (property : OutputRecord → Prop) (events : List Event)
    (steps : Running (List Event) α) : Prop :=
  Ensures (Holding property events) steps (fun _ => Holding property events) fun _ => True

theorem holdsOn_pure (value : α) : HoldsOn property events (pure value) :=
  ensures_pure fun _ => id

theorem HoldsOn.bind {steps : Running (List Event) α} {next : α → Running (List Event) β}
    (h : HoldsOn property events steps) (hnext : ∀ value, HoldsOn property events (next value)) :
    HoldsOn property events (steps >>= next) :=
  Ensures.bind h hnext

theorem holdsOn_record {record : OutputRecord} (h : property record) :
    HoldsOn property events (do
      let state ← get
      let (rows, output) := state.output.handle record
      set { state with output := output }
      writeRows Writer.recorder rows
      return output.isFull) := by
  refine ensures_get fun seen hseen => ?_
  obtain ⟨hrows, houtput⟩ := hseen.1.handle h
  have hset : HoldsOn property events (set { seen with output := (seen.output.handle record).2 }) :=
    ensures_set ⟨houtput, hseen.2⟩
  refine hset.bind fun _ => HoldsOn.bind ?_ fun _ => holdsOn_pure _
  change HoldsOn property events (writeRows Writer.recorder (seen.output.handle record).1)
  rw [hrows]
  exact holdsOn_pure ()

variable (job : Job) {plan : Plan} {names : List String}

theorem holdsOn_handleRow {values : List Value}
    (h : ∀ (state : RunState Unit) table record after,
      (plan.record (job.scope names values state)).Gives table (.ok record) after →
        property record) :
    HoldsOn property events (job.handleRow Writer.recorder plan names values) := by
  refine ensures_get fun seen _ => ?_
  refine ensures_evaluating_bind (plan.keeps_settles _) (fun _ _ => id) (fun _ _ => trivial)
    fun kept _ _ _ => ?_
  cases kept with
  | false => exact holdsOn_pure false
  | true =>
    have hcount : HoldsOn property events (modify fun state : RunState (List Event) =>
        { state with rowNumber := state.rowNumber + 1 }) := ensures_modify fun _ => id
    refine hcount.bind fun _ => ensures_get fun counted _ => ?_
    refine ensures_evaluating_bind (plan.record_settles _) (fun _ _ => id) (fun _ _ => trivial)
      fun record table after hrecord => ?_
    exact holdsOn_record (h (counted.withOutput counted.output ()) table record after hrecord)

theorem holdsOn_handleRows {rows : List (List Value)}
    (h : ∀ values ∈ rows, ∀ (state : RunState Unit) table record after,
      (plan.record (job.scope names values state)).Gives table (.ok record) after →
        property record) :
    HoldsOn property events (job.handleRows Writer.recorder plan names rows) := by
  induction rows with
  | nil => exact holdsOn_pure false
  | cons values rest ih =>
    obtain ⟨hvalues, hrest⟩ := List.forall_mem_cons.mp h
    refine (holdsOn_handleRow job hvalues).bind fun full => ?_
    cases full with
    | false => exact ih hrest
    | true => exact holdsOn_pure true

variable {job} {source : Source} (hplan : (job.layout source).plan = .ok plan)
include hplan

theorem holdsOn_handleInput {input : List Value}
    (htaken : ∃ pull ∈ source, pull.result = .ok (.row input)) :
    HoldsOn (job.MayKeep source) events
      (job.handleInput Writer.recorder plan (namesOf [] source) input) := by
  have hcount : HoldsOn (job.MayKeep source) events (modify fun state : RunState (List Event) =>
      { state with inputRowNumber := state.inputRowNumber + 1 }) := ensures_modify fun _ => id
  refine hcount.bind fun _ => ensures_get fun seen _ => ?_
  refine ensures_evaluating_bind (plan.spread_settles _) (fun _ _ => id) (fun _ _ => trivial)
    fun rows before after hspread => ?_
  refine holdsOn_handleRows job fun values hvalues state table record last hrecord => ?_
  exact ⟨input, plan, job.scope (namesOf [] source) values state, htaken, hplan,
    ⟨seen.withOutput seen.output (), rows, before, after, hspread, hvalues⟩, ⟨state, rfl⟩,
    ⟨table, last, hrecord⟩⟩

theorem holdsOn_consumeRows {rest : Source} (hrest : ∀ pull ∈ rest, pull ∈ source) :
    HoldsOn (job.MayKeep source) events
      (job.consumeRows Writer.recorder plan (namesOf [] source) rest) := by
  induction rest with
  | nil => exact holdsOn_pure ()
  | cons pull rest ih =>
    obtain ⟨hpull, hrest⟩ := List.forall_mem_cons.mp hrest
    refine ensures_take_bind (fun _ hstate _ => hstate) (fun _ _ => trivial) fun record hrecord => ?_
    cases record with
    | header columns => exact ih hrest
    | row input =>
      refine (holdsOn_handleInput hplan ⟨pull, hpull, hrecord⟩).bind fun full => ?_
      cases full with
      | false => exact ih hrest
      | true => exact holdsOn_pure ()

omit hplan

/-- A run is given the layout of its source from its first row on. -/
theorem ensures_consume_holding {rest : Source} (hrest : ∀ pull ∈ rest, pull ∈ source)
    {declared : List String} (hnames : namesOf declared rest = namesOf [] source)
    (hlayout : job.layoutFor (namesOf declared rest.leading) rest.width = job.layout source) :
    Ensures (Holding (job.MayKeep source) []) (job.consume Writer.recorder declared rest)
      (fun _ => Holding (job.MayKeep source) [job.headerOf (namesOf [] source)])
      fun _ => True := by
  have hheader : Ensures (Holding (job.MayKeep source) [])
      (job.writeHeader Writer.recorder (namesOf [] source))
      (fun _ => Holding (job.MayKeep source) [job.headerOf (namesOf [] source)])
      fun _ => True := by
    refine ensures_get fun seen hseen => ?_
    have hset : Ensures (Holding (job.MayKeep source) [])
        (set { seen with writer := job.headerOf (namesOf [] source) :: seen.writer })
        (fun _ => Holding (job.MayKeep source) [job.headerOf (namesOf [] source)])
        fun _ => True := ensures_set ⟨hseen.1, by rw [hseen.2]⟩
    exact hset.bind fun _ => ensures_pure fun _ => id
  induction rest generalizing declared with
  | nil =>
    obtain rfl : declared = namesOf [] source := hnames
    exact hheader
  | cons pull rest ih =>
    obtain ⟨hpull, hrest⟩ := List.forall_mem_cons.mp hrest
    refine ensures_take_bind (fun _ hstate _ => hstate) (fun _ _ => trivial) fun record hrecord => ?_
    cases record with
    | header columns =>
      obtain ⟨hwidth, hcolumns⟩ := columns_of_header hrecord declared rest
      rw [hwidth, hcolumns] at hlayout
      exact ih hrest (by rw [← hnames, namesOf, hrecord]) hlayout
    | row input =>
      -- The first row settles the layout, and the header is written before the query is compiled.
      have hinput : columnNames declared input.length = namesOf [] source := by
        rw [← hnames, namesOf, hrecord]
      obtain ⟨hwidth, hcolumns⟩ := columns_of_row hrecord declared rest
      rw [hwidth, hcolumns] at hlayout
      simp only [hinput]
      refine hheader.bind fun _ => ensures_get fun seen _ => ?_
      split
      · exact holdsOn_pure ()
      · refine ensures_ofReporting_bind (Plan.ofQuery_settles _ _ _) (fun _ _ => trivial)
          fun plan hgives => ?_
        have hplan : (job.layout source).plan = .ok plan :=
          hlayout ▸ (job.gives_layoutFor declared input.length).unique hgives
        refine (holdsOn_handleInput hplan ⟨pull, hpull, hrecord⟩).bind fun full => ?_
        cases full with
        | false => exact holdsOn_consumeRows hplan hrest
        | true => exact holdsOn_pure ()

/-- What a run does after its source ended. -/
def closing (writer : Writer σ) : Running σ Stats := do
  let state ← get
  let (rows, output) := state.output.finish
  set { state with output := output }
  writeRows writer rows
  write writer .flush
  let state ← get
  return ⟨state.inputRowNumber, state.output.window.written⟩

theorem gives_closing (state : RunState (List Event)) :
    (closing Writer.recorder).Gives state (.ok (statsOf state)) (ended state) :=
  (gives_get _).bind ((gives_set _ _).bind ((gives_writeRows state _ _ _).bind
    ((gives_write state _ _ _).bind ((gives_get _).bind (gives_pure _ _)))))

/-- The events of a run that wrote rows of records with a property, of which no two belong to one
group. -/
def WroteGroups (property : OutputRecord → Prop) (header : Event) (events : List Event) : Prop :=
  ∃ records : List OutputRecord,
    events.reverse = header :: (records.map (·.values)).map .row ++ [.flush] ∧
      (records.map (·.groupKey)).Nodup ∧ ∀ record ∈ records, property record

theorem ensures_closing (header : Event) :
    Ensures (Holding property [header]) (closing Writer.recorder)
      (fun _ state => WroteGroups property header state.writer) fun _ => True := by
  intro state warned hstate
  rw [(gives_closing state).outcome_eq]
  obtain ⟨records, hrows, hnodup, hrecords⟩ := hstate.1.finish
  refine ⟨records, ?_, hnodup, hrecords⟩
  change (Event.flush :: recorded state.output.finish.1 state.writer).reverse = _
  rw [hstate.2, hrows]
  simp [recorded]

theorem ensures_runAll_holding (job : Job) (source : Source) :
    Ensures (Holding (job.MayKeep source) []) (job.runAll Writer.recorder source)
      (fun _ state =>
        WroteGroups (job.MayKeep source) (job.headerOf (namesOf [] source)) state.writer)
      fun _ => True :=
  (ensures_consume_holding (fun _ => id) rfl rfl).bind fun _ => ensures_closing _

end Holding

/-- A run that groups its rows and shows no running values writes rows of records that belong to
different groups. -/
theorem writes_records {job : Job} {source : Source} (hgroups : job.query.groups = true)
    (hpartials : job.query.selection.partials = false)
    (hrun : ∃ stats, (job.run Writer.recorder [] source).1 = .ok stats) :
    ∃ records : List OutputRecord,
      job.Writes source (job.headerOf (namesOf [] source)) (records.map (·.values)) ∧
      (records.map (·.groupKey)).Nodup ∧ ∀ record ∈ records, job.MayKeep source record := by
  obtain ⟨stats, hrun⟩ := hrun
  have hends := ensures_runAll_holding job source (job.initial []) []
    ⟨Output.consolidates_ofQuery _ hgroups hpartials, rfl⟩
  have hwrote : WroteGroups (job.MayKeep source) (job.headerOf (namesOf [] source))
      (job.run Writer.recorder [] source).2.1.writer := by
    change ((job.runAll Writer.recorder source).outcome (job.initial []) []).1.1 = _ at hrun
    change WroteGroups _ _ ((job.runAll Writer.recorder source).outcome (job.initial []) []).1.2.writer
    revert hends hrun
    rcases (job.runAll Writer.recorder source).outcome (job.initial []) [] with
      ⟨⟨_ | _, last⟩, _⟩
    · exact fun _ hrun => nomatch hrun
    · exact fun hends _ => hends
  obtain ⟨records, hevents, hnodup, hrecords⟩ := hwrote
  exact ⟨records, ⟨stats, hrun, hevents⟩, hnodup, hrecords⟩

end Job

end StreamQuery
