import StreamQuery.Proofs.Execution.Collecting
import StreamQuery.Proofs.Execution.Grouping

/-!
# The records of a grouping query as a fold

The first row of a source fixes the columns and the plan. From there on the records of a query that
groups its rows are a fold over the source: every row adds at most one record, and changes the
accumulators of its group.
-/

namespace StreamQuery

open Stateful

/-! ### Sources and their columns -/

/-- The row that a record holds. -/
def Pull.row? (pull : Pull) : Option (List Value) :=
  match pull.result with
  | .ok (.row values) => some values
  | _ => none

namespace Source

/-- The records before the first row. -/
def leading (source : Source) : Source :=
  source.takeWhile (·.row?.isNone)

/-- The records from the first row on. -/
def body (source : Source) : Source :=
  source.dropWhile (·.row?.isNone)

/-- The number of columns of the first row. -/
def width (source : Source) : Nat :=
  ((source.findSome? Pull.row?).map List.length).getD 0

end Source

/-- What the first row of a source fixes: the names of the columns, and the plan. -/
structure Layout where
  names : List String
  plan : Except Error Plan

namespace Job

/-- The layout of a number of columns under a header. -/
def layoutFor (job : Job) (declared : List String) (width : Nat) : Layout where
  names := columnNames declared width
  plan := ((Plan.ofQuery job.policy job.query
    (ColumnBindings.ofDeclared width declared)).run.run []).1

theorem gives_layoutFor (job : Job) (declared : List String) (width : Nat) :
    (Plan.ofQuery job.policy job.query (ColumnBindings.ofDeclared width declared)).Gives
      (job.layoutFor declared width).plan :=
  (Plan.ofQuery_settles _ _ _).gives

/-- The layout of a source. -/
def layout (job : Job) (source : Source) : Layout :=
  job.layoutFor (namesOf [] source.leading) source.width

/-- A header takes the place of the header before it. -/
theorem columns_of_header {pull : Pull} {names : List String}
    (h : pull.result = .ok (.header names)) (declared : List String) (rest : Source) :
    Source.width (pull :: rest) = rest.width ∧
      namesOf declared (Source.leading (pull :: rest)) = namesOf names rest.leading := by
  have hnone : pull.row? = none := by simp [Pull.row?, h]
  simp [Source.width, Source.leading, hnone, namesOf, h]

/-- The first row has the columns of the header before it. -/
theorem columns_of_row {pull : Pull} {values : List Value} (h : pull.result = .ok (.row values))
    (declared : List String) (rest : Source) :
    Source.width (pull :: rest) = values.length ∧
      namesOf declared (Source.leading (pull :: rest)) = declared := by
  have hsome : pull.row? = some values := by simp [Pull.row?, h]
  simp [Source.width, Source.leading, hsome, namesOf]

/-- What expressions see on a row if they do not look at row numbers. -/
def rowScope (job : Job) (names : List String) (values : List Value) : Scope :=
  { session := job.session, values := values, names := names }

/-- The group of a record: that of its row, if `WHERE` keeps it. -/
def groupOf (job : Job) (layout : Layout) (pull : Pull) : Option String :=
  match layout.plan, pull.row? with
  | .ok plan, some values =>
    match plan.verdict (job.rowScope layout.names values) with
    | .groups key => some key
    | _ => none
  | _, _ => none

end Job

/-! ### Records as a fold -/

/-- The accumulators and the records so far, the latest first. -/
abbrev Progress := Aggregates × List OutputRecord

/-- What a row adds to the records so far, if it does not fail. -/
def Plan.absorb (plan : Plan) (scope : Scope) (progress : Progress) : Option Progress :=
  match plan.verdict scope with
  | .fails => none
  | .drops => some progress
  | .groups key =>
    match ((project scope 1 plan.items).outcome (progress.1.startRow key) []).1 with
    | (.ok values, table) => some (table, ⟨values, [], key⟩ :: progress.2)
    | (.error _, _) => none

/-- A collecting run ends with certain accumulators and records, or fails. -/
def Ends (computation : Collecting Unit) (state : RunState (List OutputRecord)) :
    Option Progress → Prop
  | some progress =>
    ∃ after, computation.Gives state (.ok ()) after ∧ (after.aggregates, after.writer) = progress
  | none => ∃ error after, computation.Gives state (.error error) after

/-- A first step that neither collects nor looks at anything. -/
theorem Ends.after {α : Type} {first : Collecting α} {next : α → Collecting Unit}
    {state middle : RunState (List OutputRecord)} {value : α} {end? : Option Progress}
    (hfirst : first.Gives state (.ok value) middle) (hnext : Ends (next value) middle end?) :
    Ends (first >>= next) state end? := by
  cases end? with
  | none =>
    obtain ⟨error, after, hnext⟩ := hnext
    exact ⟨error, after, hfirst.bind hnext⟩
  | some progress =>
    obtain ⟨after, hnext, hafter⟩ := hnext
    exact ⟨after, hfirst.bind hnext, hafter⟩

theorem Ends.bind {first next : Collecting Unit} {state : RunState (List OutputRecord)}
    {end? : Option Progress} {go : Progress → Option Progress} (hfirst : Ends first state end?)
    (hnext : ∀ after, Ends next after (go (after.aggregates, after.writer))) :
    Ends (first >>= fun _ => next) state (end?.bind go) := by
  cases end? with
  | none =>
    obtain ⟨error, after, hfirst⟩ := hfirst
    exact ⟨error, after, hfirst.bind_error⟩
  | some progress =>
    obtain ⟨middle, hfirst, rfl⟩ := hfirst
    exact Ends.after hfirst (hnext middle)

namespace Job

variable (job : Job)

theorem gives_evaluating {α : Type} {computation : Evaluating α} {table : Aggregates}
    {result : Except Error α} (state : RunState (List OutputRecord))
    (h : computation.Gives state.aggregates result table) :
    (evaluating computation : Collecting α).Gives state result
      { state with aggregates := table } :=
  Gives.onPart h

/-- A row that `WHERE` keeps is counted before its record is evaluated and collected. -/
theorem gives_collectRow_of_kept {plan : Plan} {names : List String} {values : List Value}
    {state : RunState (List OutputRecord)} {kept table : Aggregates} {record : OutputRecord}
    (hkeeps : (plan.keeps (job.scope names values state)).Gives state.aggregates (.ok true) kept)
    (hrecord : (plan.record (job.scope names values
      { state with rowNumber := state.rowNumber + 1 })).Gives kept (.ok record) table) :
    (job.collectRow plan names values).Gives state (.ok ())
      { state with
        rowNumber := state.rowNumber + 1
        aggregates := table
        writer := record :: state.writer } :=
  (gives_get _).bind ((gives_evaluating state hkeeps).bind ((gives_modify _ _).bind
    ((gives_get _).bind ((gives_evaluating { state with
      rowNumber := state.rowNumber + 1, aggregates := kept } hrecord).bind (gives_modify _ _)))))

theorem gives_collectRow_of_dropped {plan : Plan} {names : List String} {values : List Value}
    {state : RunState (List OutputRecord)} {table : Aggregates}
    (hkeeps : (plan.keeps (job.scope names values state)).Gives state.aggregates (.ok false)
      table) :
    (job.collectRow plan names values).Gives state (.ok ()) { state with aggregates := table } :=
  (gives_get _).bind ((gives_evaluating state hkeeps).bind (gives_pure _ _))

theorem collectRow_ends {plan : Plan} (hplan : plan.Separates) (names : List String)
    (values : List Value) (state : RunState (List OutputRecord)) :
    Ends (job.collectRow plan names values) state
      (plan.absorb (job.rowScope names values) (state.aggregates, state.writer)) := by
  have hsame (state : RunState (List OutputRecord)) :
      Scope.SameRow (job.rowScope names values) (job.scope names values state) :=
    ⟨rfl, rfl, rfl⟩
  let counted : RunState (List OutputRecord) := { state with rowNumber := state.rowNumber + 1 }
  have hfailed {error : Error} {table : Aggregates}
      (hkeeps : (plan.keeps (job.scope names values state)).Gives state.aggregates (.ok true)
        state.aggregates)
      (hrecord : (plan.record (job.scope names values counted)).Gives state.aggregates
        (.error error) table) : Ends (job.collectRow plan names values) state none :=
    ⟨error, _, (gives_get _).bind ((gives_evaluating state hkeeps).bind ((gives_modify _ _).bind
      ((gives_get _).bind (gives_evaluating counted hrecord).bind_error)))⟩
  unfold Plan.absorb
  cases hverdict : plan.verdict (job.rowScope names values) with
  | fails =>
    -- A row fails in its condition, or after it was counted.
    rcases Plan.fails_of_fails hplan hverdict with hfails | hfails
    · obtain ⟨error, after, hkeeps⟩ := hfails _ state.aggregates (hsame state)
      exact ⟨error, _, (gives_get _).bind (gives_evaluating state hkeeps).bind_error⟩
    · obtain ⟨hkeeps, -⟩ := hfails _ state.aggregates (hsame state)
      obtain ⟨-, error, after, hstart⟩ := hfails _ state.aggregates (hsame counted)
      exact hfailed hkeeps hstart.bind_error
  | drops =>
    have hkeeps := Plan.gives_of_drops hplan (hsame state) hverdict state.aggregates
    exact ⟨_, job.gives_collectRow_of_dropped hkeeps, rfl⟩
  | groups key =>
    have hkeeps := Plan.keeps_of_groups hplan (hsame state) hverdict state.aggregates
    have hstart := Plan.startGroup_of_groups hplan (hsame counted) hverdict state.aggregates
    obtain ⟨result, table, hproject⟩ :=
      Plan.project_settles (job.rowScope names values) 1 plan.items (state.aggregates.startRow key)
    dsimp only
    rw [hproject.outcome_eq]
    -- The items do not depend on the number of the row.
    rcases Plan.project_sameRow hplan (hsame counted) _ _ rfl with
      ⟨selected, after, _, hleft, hright, rfl⟩ | ⟨error, other, after, last, hleft, hright⟩
    · obtain ⟨rfl, rfl⟩ := hproject.unique hleft
      have hrecord : (plan.record (job.scope names values counted)).Gives state.aggregates
          (.ok ⟨selected, [], key⟩) table := by
        refine hstart.bind (hright.bind ?_)
        rw [hplan.orderBy]
        exact (gives_pure _ _).bind (gives_pure _ _)
      exact ⟨_, job.gives_collectRow_of_kept hkeeps hrecord, rfl⟩
    · obtain ⟨rfl, rfl⟩ := hproject.unique hleft
      exact hfailed hkeeps (hstart.bind hright.bind_error)

theorem gives_spread {plan : Plan} (hexplode : plan.explode = none) (scope : Scope)
    (table : Aggregates) : (plan.spread scope).Gives table (.ok [scope.values]) table := by
  rw [Plan.spread, hexplode]
  exact gives_pure _ _

theorem collectInput_ends {plan : Plan} (hplan : plan.Separates) (names : List String)
    (values : List Value) (state : RunState (List OutputRecord)) :
    Ends (job.collectInput plan names values) state
      (plan.absorb (job.rowScope names values) (state.aggregates, state.writer)) := by
  let counted : RunState (List OutputRecord) :=
    { state with inputRowNumber := state.inputRowNumber + 1 }
  have hspread := gives_spread hplan.explode (job.scope names values counted) counted.aggregates
  refine Ends.after (gives_modify _ state) (Ends.after (gives_get counted)
    (Ends.after (gives_evaluating counted hspread) ?_))
  have hrow : Ends (job.collectRow plan names values >>= fun _ => pure ()) counted
      ((plan.absorb (job.rowScope names values) (state.aggregates, state.writer)).bind some) :=
    Ends.bind (job.collectRow_ends hplan names values counted)
      fun after => ⟨after, gives_pure _ _, rfl⟩
  rwa [Option.bind_fun_some] at hrow

theorem gives_collectInput {plan : Plan} (hexplode : plan.explode = none) {names : List String}
    {values : List Value} {state after : RunState (List OutputRecord)}
    (hrow : (job.collectRow plan names values).Gives
      { state with inputRowNumber := state.inputRowNumber + 1 } (.ok ()) after) :
    (job.collectInput plan names values).Gives state (.ok ()) after := by
  let counted : RunState (List OutputRecord) :=
    { state with inputRowNumber := state.inputRowNumber + 1 }
  have hspread := gives_spread hexplode (job.scope names values counted) counted.aggregates
  exact (gives_modify _ state).bind ((gives_get counted).bind
    ((gives_evaluating counted hspread).bind (hrow.bind (gives_pure _ _))))

/-- Whether taking a record succeeds. -/
def takes (pull : Pull) : Bool :=
  ((job.take pull).outcome (job.initial ()) []).1.1.isOk

theorem takes_cases (pull : Pull) :
    (job.takes pull = false ∧ ∃ error, ∀ state : RunState (List OutputRecord),
      (job.take pull).Gives state (.error error) state) ∨
    job.takes pull = true ∧ ∃ record, pull.result = .ok record ∧
      ∀ state : RunState (List OutputRecord),
        (job.take pull).Gives state (.ok record) { state with pulled := state.pulled + 1 } := by
  rcases job.take_cases pull with ⟨error, htake⟩ | ⟨record, hresult, htake⟩
  · exact .inl ⟨by rw [takes, (htake _).outcome_eq]; rfl, error, fun state => htake state⟩
  · exact .inr ⟨by rw [takes, (htake _).outcome_eq]; rfl, record, hresult, fun state => htake state⟩

/-- What a record adds to the records so far, if it does not fail. -/
def absorb (layout : Layout) (progress : Progress) (pull : Pull) : Option Progress :=
  if job.takes pull then
    match pull.row? with
    | none => some progress
    | some values =>
      match layout.plan with
      | .error _ => none
      | .ok plan => plan.absorb (job.rowScope layout.names values) progress
  else none

theorem collectRest_ends {layout : Layout} {plan : Plan} (hlayout : layout.plan = .ok plan)
    (hplan : plan.Separates) (source : Source) (state : RunState (List OutputRecord)) :
    Ends (job.collectRest plan layout.names source) state
      (source.foldlM (job.absorb layout) (state.aggregates, state.writer)) := by
  induction source generalizing state with
  | nil => exact ⟨state, gives_pure _ _, rfl⟩
  | cons pull rest ih =>
    rw [List.foldlM_cons, absorb]
    rcases job.takes_cases pull with ⟨htakes, error, htake⟩ | ⟨htakes, record, hresult, htake⟩
    · rw [if_neg (Bool.eq_false_iff.mp htakes)]
      exact ⟨error, _, (htake state).bind_error⟩
    · rw [if_pos htakes]
      refine Ends.after (htake state) ?_
      cases record with
      | header names =>
        simp only [Pull.row?, hresult]
        exact ih _
      | row values =>
        simp only [Pull.row?, hresult, hlayout]
        exact Ends.bind (job.collectInput_ends hplan layout.names values _) ih

/-- Collecting the records of a source folds it, once its leading records are taken. -/
theorem collect_ends (declared : List String) (leading body : Source) (width : Nat)
    (hleading : ∀ pull ∈ leading, pull.row? = none)
    (hbody : ∀ pull ∈ body.head?, ∃ values, pull.row? = some values ∧ values.length = width)
    (hplans : ∀ plan, (job.layoutFor (namesOf declared leading) width).plan = .ok plan →
      plan.Separates) (state : RunState (List OutputRecord)) :
    Ends (job.collect declared (leading ++ body)) state
      (if leading.all job.takes then
        body.foldlM (job.absorb (job.layoutFor (namesOf declared leading) width))
          (state.aggregates, state.writer)
      else none) := by
  induction leading generalizing declared state with
  | nil =>
    cases body with
    | nil => exact ⟨state, gives_pure _ _, rfl⟩
    | cons pull rest =>
      -- The first row fixes the layout under which it and all later rows are absorbed.
      obtain ⟨values, hrow, rfl⟩ := hbody pull rfl
      rw [List.all_nil, if_pos rfl, List.foldlM_cons, absorb]
      rcases job.takes_cases pull with ⟨htakes, error, htake⟩ | ⟨htakes, record, hresult, htake⟩
      · rw [if_neg (Bool.eq_false_iff.mp htakes)]
        exact ⟨error, _, (htake state).bind_error⟩
      · rw [if_pos htakes, hrow]
        obtain rfl : record = .row values := by
          cases record <;> simp_all [Pull.row?]
        refine Ends.after (htake state) ?_
        have hcompiled := job.gives_layoutFor declared values.length
        change ∀ plan, (job.layoutFor declared values.length).plan = .ok plan → _ at hplans
        change Ends _ _ ((match (job.layoutFor declared values.length).plan with
          | .error _ => none
          | .ok plan => plan.absorb _ _) >>= _)
        cases hlayout : (job.layoutFor declared values.length).plan with
        | error error =>
          rw [hlayout] at hcompiled
          exact ⟨error, _, (gives_ofReporting hcompiled _).bind_error⟩
        | ok plan =>
          rw [hlayout] at hcompiled
          refine Ends.after (gives_ofReporting hcompiled _) ?_
          exact Ends.bind (job.collectInput_ends (hplans plan hlayout) _ values _)
            (job.collectRest_ends hlayout (hplans plan hlayout) rest)
  | cons pull rest ih =>
    rw [List.forall_mem_cons] at hleading
    rw [List.cons_append, List.all_cons]
    rcases job.takes_cases pull with ⟨htakes, error, htake⟩ | ⟨htakes, record, hresult, htake⟩
    · rw [htakes, Bool.false_and, if_neg Bool.false_ne_true]
      exact ⟨error, _, (htake state).bind_error⟩
    · rw [htakes, Bool.true_and]
      refine Ends.after (htake state) ?_
      cases record with
      | row values => simp [Pull.row?, hresult] at hleading
      | header names =>
        -- A header names the columns of the pulls after it.
        have hnames : namesOf declared (pull :: rest) = namesOf names rest := by
          simp [namesOf, hresult]
        rw [hnames] at hplans ⊢
        exact ih names hleading.2 hplans _

end Job

end StreamQuery
