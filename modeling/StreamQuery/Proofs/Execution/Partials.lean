import StreamQuery.Proofs.Evaluation.Assignment
import StreamQuery.Proofs.Execution.Interleaving
import StreamQuery.Proofs.Execution.InStep

/-!
# Running values of groups

A query that aggregates and shows its running values writes one row for every eligible row: each is
made of that row and the ones before it, since nothing but the record of an eligible row changes the
accumulators. Without running values the same query writes the last of these rows of every group.
-/

namespace StreamQuery

open Stateful

/-! ### Spreading -/

/-- An expression that names a place calls nothing. -/
theorem Expr.callsNoAggregate_of_path? {expr : Expr} {found : Assignment.Root × List Value}
    (h : Assignment.path? expr = some found) : expr.CallsNoAggregate := by
  rw [Expr.callsNoAggregate_iff]
  fun_induction Assignment.path? expr generalizing found with
  | case1 index => simp [subexpressions, NoAggregateCall, ownCall?]
  | case2 => simp [subexpressions, NoAggregateCall, ownCall?]
  | case3 base name ih =>
    obtain ⟨inner, hinner, -⟩ := Option.map_eq_some_iff.mp h
    simpa [subexpressions, NoAggregateCall, ownCall?] using ih hinner
  | case4 base index key root keys hpath hkey ih =>
    have hindex : ∀ part ∈ index.subexpressions, part.NoAggregateCall := by
      unfold Assignment.key? at hkey
      split at hkey <;> simp [subexpressions, NoAggregateCall, ownCall?]
      cases hkey
    simp only [subexpressions, List.forall_mem_cons, List.forall_mem_append]
    exact ⟨by simp [NoAggregateCall, ownCall?], ih hpath, hindex⟩
  | case5 => cases h
  | case6 => cases h

theorem Scope.assignEach_of_path? {scope : Scope} {target : Expr} {items : List Value}
    {rows : List (List Value)} (hpath : Assignment.path? target = none)
    (h : scope.assignEach target items = .ok rows) : rows = [] := by
  cases items with
  | nil =>
    cases h
    rfl
  | cons item rest =>
    simp only [assignEach, Assignment.assign, hpath] at h
    cases h

/-- An expression that names no place spreads no row. -/
theorem Plan.eq_nil_of_spread {plan : Plan} {scope : Scope} {target : Expr}
    {table after : Aggregates} {rows : List (List Value)} (hexplode : plan.explode = some target)
    (hpath : Assignment.path? target = none)
    (h : (plan.spread scope).Gives table (.ok rows) after) : rows = [] := by
  rw [spread, hexplode] at h
  obtain ⟨value, middle, -, h⟩ := h.of_bind (scope.evaluateAt_settles _ target) fun value => by
    cases value
    case null => exact settles_pure _
    case list items => exact settles_ofResult _
    all_goals exact settles_throw _
  cases value
  case null => exact Except.ok.inj (h.unique (gives_pure _ _)).1
  case list items =>
    exact Scope.assignEach_of_path? hpath (h.unique (gives_ofResult _ _)).1.symm
  all_goals cases (h.unique (gives_throw _ _)).1

/-! ### Eligible rows -/

/-- The records of rows, evaluated one right after the other. -/
def Plan.recordEach (plan : Plan) : List Scope → Evaluating (List OutputRecord)
  | [] => pure []
  | scope :: rest => do
    let record ← plan.record scope
    return record :: (← plan.recordEach rest)

namespace Job

/-- What expressions see on a row with its numbers. -/
def numberedScope (job : Job) (names : List String) (input count : Nat) (values : List Value) :
    Scope :=
  { job.rowScope names values with rowNumber := count, inputRowNumber := input }

/-- The rows that `WHERE` keeps among those that a row of the input is spread into, where `count`
rows were kept before. -/
def eligibleAmong (job : Job) (plan : Plan) (names : List String) (input count : Nat) :
    List (List Value) → List Scope
  | [] => []
  | values :: rest =>
    match ((plan.keeps (job.numberedScope names input count values)).outcome {} []).1.1 with
    | .ok true =>
      job.numberedScope names input (count + 1) values ::
        job.eligibleAmong plan names input (count + 1) rest
    | _ => job.eligibleAmong plan names input count rest

/-- The eligible rows that a row of the input is spread into. -/
def eligibleOf (job : Job) (plan : Plan) (names : List String) (input count : Nat)
    (values : List Value) : List Scope :=
  match ((plan.spread (job.numberedScope names input count values)).outcome {} []).1.1 with
  | .ok rows => job.eligibleAmong plan names input count rows
  | .error _ => []

/-- The eligible rows of a source, after `input` rows of which `count` rows were kept. -/
def eligibleFrom (job : Job) (plan : Plan) (names : List String) (input count : Nat) :
    Source → List Scope
  | [] => []
  | pull :: rest =>
    match pull.row? with
    | none => job.eligibleFrom plan names input count rest
    | some values =>
      let found := job.eligibleOf plan names (input + 1) count values
      found ++ job.eligibleFrom plan names (input + 1) (count + found.length) rest

/-- The eligible rows of a source under a layout. -/
def eligibleUnder (job : Job) (layout : Layout) (source : Source) : List Scope :=
  match layout.plan with
  | .ok plan => job.eligibleFrom plan layout.names 0 0 source
  | .error _ => []

/-- The eligible rows of a source. -/
def eligible (job : Job) (source : Source) : List Scope :=
  job.eligibleUnder (job.layout source) source

end Job

/-! ### Collecting eligible rows -/

theorem Plan.recordEach_settles (plan : Plan) (scopes : List Scope) :
    (plan.recordEach scopes).Settles := by
  induction scopes with
  | nil => exact settles_pure _
  | cons scope rest ih =>
    exact (plan.record_settles scope).bind fun _ => ih.bind fun _ => settles_pure _

theorem Plan.gives_recordEach_cons {plan : Plan} {scope : Scope} {rest : List Scope}
    {table after : Aggregates} {records : List OutputRecord}
    (h : (plan.recordEach (scope :: rest)).Gives table (.ok records) after) :
    ∃ record middle others, (plan.record scope).Gives table (.ok record) middle ∧
      (plan.recordEach rest).Gives middle (.ok others) after ∧ records = record :: others := by
  obtain ⟨record, middle, hrecord, hnext⟩ := h.of_bind (plan.record_settles scope)
    fun _ => (plan.recordEach_settles rest).bind fun _ => settles_pure _
  obtain ⟨others, last, hothers, hlast⟩ :=
    hnext.of_bind (plan.recordEach_settles rest) fun _ => settles_pure _
  obtain ⟨hrecords, rfl⟩ := hlast.unique (gives_pure _ _)
  exact ⟨record, middle, others, hrecord, hothers, Except.ok.inj hrecords⟩

theorem Plan.eq_nil_of_recordEach {plan : Plan} {table after : Aggregates}
    {records : List OutputRecord} (h : (plan.recordEach []).Gives table (.ok records) after) :
    records = [] ∧ after = table := by
  obtain ⟨hrecords, rfl⟩ := h.unique (gives_pure _ _)
  exact ⟨Except.ok.inj hrecords, rfl⟩

theorem Plan.gives_recordEach_append {plan : Plan} {scopes others : List Scope}
    {table middle after : Aggregates} {records more : List OutputRecord}
    (h : (plan.recordEach scopes).Gives table (.ok records) middle)
    (hothers : (plan.recordEach others).Gives middle (.ok more) after) :
    (plan.recordEach (scopes ++ others)).Gives table (.ok (records ++ more)) after := by
  induction scopes generalizing table records with
  | nil =>
    obtain ⟨rfl, rfl⟩ := eq_nil_of_recordEach h
    exact hothers
  | cons scope rest ih =>
    obtain ⟨record, first, found, hrecord, hfound, rfl⟩ := gives_recordEach_cons h
    exact hrecord.bind ((ih hfound).bind (gives_pure _ _))

theorem Plan.length_recordEach {plan : Plan} {scopes : List Scope} {table after : Aggregates}
    {records : List OutputRecord} (h : (plan.recordEach scopes).Gives table (.ok records) after) :
    records.length = scopes.length := by
  induction scopes generalizing table records with
  | nil => rw [(eq_nil_of_recordEach h).1, List.length_nil, List.length_nil]
  | cons scope rest ih =>
    obtain ⟨record, first, found, -, hfound, rfl⟩ := gives_recordEach_cons h
    rw [List.length_cons, List.length_cons, ih hfound]

/-- The first records are those of the first rows. -/
theorem Plan.gives_recordEach_take {plan : Plan} {scopes : List Scope} {table after : Aggregates}
    {records : List OutputRecord} (h : (plan.recordEach scopes).Gives table (.ok records) after)
    (count : Nat) :
    ∃ middle, (plan.recordEach (scopes.take count)).Gives table (.ok (records.take count))
      middle := by
  induction scopes generalizing table records count with
  | nil =>
    obtain ⟨rfl, rfl⟩ := eq_nil_of_recordEach h
    exact ⟨after, by simpa using h⟩
  | cons scope rest ih =>
    obtain ⟨record, first, found, hrecord, hfound, rfl⟩ := gives_recordEach_cons h
    cases count with
    | zero => exact ⟨table, gives_pure _ _⟩
    | succ count =>
      obtain ⟨middle, hmiddle⟩ := ih hfound count
      exact ⟨middle, hrecord.bind (hmiddle.bind (gives_pure _ _))⟩

/-- Whether rows are spread, if at all, by an expression that names a place. -/
def Plan.Spreads (plan : Plan) : Prop :=
  ∀ target ∈ plan.explode, Assignment.path? target ≠ none

/-- Whether accumulators are those of a run. Where nothing can be spread there are no records, and
it does not matter. -/
def Plan.Tied (plan : Plan) (table other : Aggregates) : Prop :=
  plan.Spreads → table = other

/-- A stretch of a collecting run takes rows of the input and adds the records of eligible rows,
which alone change the accumulators. -/
structure Adds (plan : Plan) (inputs : Nat) (scopes : List Scope)
    (state after : RunState (List OutputRecord)) : Prop where
  inputRowNumber : after.inputRowNumber = state.inputRowNumber + inputs
  rowNumber : after.rowNumber = state.rowNumber + scopes.length
  records : ∀ table, plan.Tied table state.aggregates → ∃ records last,
    (plan.recordEach scopes).Gives table (.ok records) last ∧
      plan.Tied last after.aggregates ∧ after.writer = records.reverse ++ state.writer

namespace Adds

variable {plan : Plan} {inputs others : Nat} {scopes more : List Scope}
  {state middle after : RunState (List OutputRecord)}

theorem nil (plan : Plan) (state : RunState (List OutputRecord)) : Adds plan 0 [] state state where
  inputRowNumber := rfl
  rowNumber := rfl
  records table htied := ⟨[], table, gives_pure _ _, htied, rfl⟩

theorem append (h : Adds plan inputs scopes state middle) (hmore : Adds plan others more middle after) :
    Adds plan (inputs + others) (scopes ++ more) state after where
  inputRowNumber := by rw [hmore.inputRowNumber, h.inputRowNumber, Nat.add_assoc]
  rowNumber := by rw [hmore.rowNumber, h.rowNumber, List.length_append, Nat.add_assoc]
  records table htied := by
    obtain ⟨records, last, hrecords, hlast, hwriter⟩ := h.records table htied
    obtain ⟨found, final, hfound, hfinal, hothers⟩ := hmore.records last hlast
    refine ⟨records ++ found, final, Plan.gives_recordEach_append hrecords hfound, hfinal, ?_⟩
    rw [hothers, hwriter, List.reverse_append, List.append_assoc]

end Adds

namespace Job

variable {job : Job} {plan : Plan}

/-- If a stretch of a collecting run does not fail, it adds the records of eligible rows. -/
def Collects (plan : Plan) (state : RunState (List OutputRecord)) (computation : Collecting Unit)
    (inputs : Nat) (scopes : List Scope) : Prop :=
  ∃ result after, computation.Gives state result after ∧
    (result = .ok () → Adds plan inputs scopes state after)

theorem collects_of_gives {computation : Collecting Unit} {state after : RunState (List OutputRecord)}
    {inputs : Nat} {scopes : List Scope} (hgives : computation.Gives state (.ok ()) after)
    (h : Adds plan inputs scopes state after) : Collects plan state computation inputs scopes :=
  ⟨_, _, hgives, fun _ => h⟩

theorem collects_of_fails {computation : Collecting Unit} {state after : RunState (List OutputRecord)}
    {error : Error} {inputs : Nat} {scopes : List Scope}
    (hgives : computation.Gives state (.error error) after) :
    Collects plan state computation inputs scopes :=
  ⟨_, _, hgives, fun h => nomatch h⟩

theorem Collects.after {α : Type} {first : Collecting α} {next : α → Collecting Unit}
    {state middle : RunState (List OutputRecord)} {value : α} {inputs others : Nat}
    {scopes more : List Scope} (hgives : first.Gives state (.ok value) middle)
    (h : Adds plan inputs scopes state middle) (hnext : Collects plan middle (next value) others more) :
    Collects plan state (first >>= next) (inputs + others) (scopes ++ more) := by
  obtain ⟨result, last, hlast, hadds⟩ := hnext
  exact ⟨result, last, hgives.bind hlast, fun hok => h.append (hadds hok)⟩

theorem Collects.get {next : RunState (List OutputRecord) → Collecting Unit}
    {state : RunState (List OutputRecord)} {inputs : Nat} {scopes : List Scope}
    (h : Collects plan state (next state) inputs scopes) :
    Collects plan state (MonadState.get >>= next) inputs scopes := by
  obtain ⟨result, last, hlast, hadds⟩ := h
  exact ⟨result, last, (gives_get state).bind hlast, hadds⟩

theorem Collects.bind {first next : Collecting Unit} {state : RunState (List OutputRecord)}
    {inputs others : Nat} {scopes more : List Scope} (h : Collects plan state first inputs scopes)
    (hnext : ∀ middle, Adds plan inputs scopes state middle →
      Collects plan middle next others more) :
    Collects plan state (first >>= fun _ => next) (inputs + others) (scopes ++ more) := by
  obtain ⟨result, middle, hgives, hadds⟩ := h
  cases result with
  | error error => exact collects_of_fails hgives.bind_error
  | ok value => exact Collects.after hgives (hadds rfl) (hnext middle (hadds rfl))

theorem collects_row (hspreads : plan.Spreads)
    (hcondition : ∀ expr ∈ plan.condition, expr.CallsNoAggregate) (names : List String)
    (values : List Value) (state : RunState (List OutputRecord)) :
    Collects plan state (job.collectRow plan names values) 0
      (job.eligibleAmong plan names state.inputRowNumber state.rowNumber [values]) := by
  let scope := job.scope names values state
  let counted : RunState (List OutputRecord) := { state with rowNumber := state.rowNumber + 1 }
  obtain ⟨kept, table, hkeeps⟩ := plan.keeps_settles scope state.aggregates
  cases kept with
  | error error =>
    exact collects_of_fails ((gives_get _).bind (gives_evaluating state hkeeps).bind_error)
  | ok kept =>
    obtain ⟨rfl, halone⟩ := (Plan.keeps_indifferent hcondition scope).gives hkeeps
    -- The condition has the same value with these accumulators as with none.
    have hverdict : ((plan.keeps (job.numberedScope names state.inputRowNumber state.rowNumber
        values)).outcome {} []).1.1 = .ok kept := by
      rw [show job.numberedScope names state.inputRowNumber state.rowNumber values = scope from rfl,
        (halone {}).outcome_eq]
    cases kept with
    | false =>
      refine collects_of_gives (job.gives_collectRow_of_dropped hkeeps) ?_
      simp only [eligibleAmong, hverdict]
      exact .nil plan state
    | true =>
      obtain ⟨result, last, hrecord⟩ := plan.record_settles (job.scope names values counted)
        state.aggregates
      cases result with
      | error error =>
        exact collects_of_fails ((gives_get _).bind ((gives_evaluating state hkeeps).bind
          ((gives_modify _ _).bind ((gives_get _).bind
            (gives_evaluating counted hrecord).bind_error))))
      | ok record =>
        refine collects_of_gives (job.gives_collectRow_of_kept hkeeps hrecord) ?_
        simp only [eligibleAmong, hverdict]
        refine ⟨rfl, rfl, fun other htied => ?_⟩
        obtain rfl := htied hspreads
        exact ⟨[record], last, hrecord.bind (gives_pure _ _), fun _ => rfl, rfl⟩

theorem eligibleAmong_cons (job : Job) (plan : Plan) (names : List String) (input count : Nat)
    (values : List Value) (rest : List (List Value)) :
    job.eligibleAmong plan names input count (values :: rest) =
      job.eligibleAmong plan names input count [values] ++
        job.eligibleAmong plan names input
          (count + (job.eligibleAmong plan names input count [values]).length) rest := by
  simp only [eligibleAmong]
  split <;> rfl

theorem collects_rows (hspreads : plan.Spreads)
    (hcondition : ∀ expr ∈ plan.condition, expr.CallsNoAggregate) (names : List String)
    (rows : List (List Value)) (state : RunState (List OutputRecord)) :
    Collects plan state (job.collectRows plan names rows) 0
      (job.eligibleAmong plan names state.inputRowNumber state.rowNumber rows) := by
  induction rows generalizing state with
  | nil => exact collects_of_gives (gives_pure _ _) (.nil plan state)
  | cons values rest ih =>
    rw [eligibleAmong_cons, ← Nat.zero_add 0]
    refine (collects_row hspreads hcondition names values state).bind fun middle hmiddle => ?_
    have hrest := ih middle
    rwa [hmiddle.inputRowNumber, hmiddle.rowNumber] at hrest

/-- A row of the input adds the records of the eligible rows that it is spread into. -/
theorem collects_input (hcondition : ∀ expr ∈ plan.condition, expr.CallsNoAggregate)
    (names : List String) (values : List Value) (state : RunState (List OutputRecord)) :
    Collects plan state (job.collectInput plan names values) 1
      (job.eligibleOf plan names (state.inputRowNumber + 1) state.rowNumber values) := by
  let counted : RunState (List OutputRecord) :=
    { state with inputRowNumber := state.inputRowNumber + 1 }
  let scope := job.scope names values counted
  have hscope : job.numberedScope names (state.inputRowNumber + 1) state.rowNumber values = scope :=
    rfl
  unfold eligibleOf
  rw [hscope]
  obtain ⟨result, table, hspread⟩ := plan.spread_settles scope state.aggregates
  cases result with
  | error error =>
    exact collects_of_fails ((gives_modify _ state).bind ((gives_get counted).bind
      (gives_evaluating counted hspread).bind_error))
  | ok rows =>
    -- Counting the row and spreading it add no records.
    have hstart {scopes : List Scope}
        (hspread : Adds plan 0 [] counted { counted with aggregates := table })
        (hrows : Collects plan { counted with aggregates := table }
          (job.collectRows plan names rows) 0 scopes) :
        Collects plan state (job.collectInput plan names values) 1 scopes := by
      have hcounted : Adds plan 1 [] state counted :=
        ⟨rfl, rfl, fun other htied => ⟨[], other, gives_pure _ _, htied, rfl⟩⟩
      have hspreading := Collects.after (gives_evaluating counted ‹_›) hspread hrows
      change Collects plan state _ (1 + (0 + 0)) ([] ++ ([] ++ scopes))
      exact Collects.after (gives_modify _ state) hcounted (Collects.get hspreading)
    by_cases hspreads : plan.Spreads
    · -- An expression that names a place calls no aggregates.
      have hquiet : ∀ expr ∈ plan.explode, expr.CallsNoAggregate := by
        intro expr hexpr
        obtain ⟨found, hfound⟩ := Option.ne_none_iff_exists'.mp (hspreads expr hexpr)
        exact Expr.callsNoAggregate_of_path? hfound
      obtain ⟨rfl, halone⟩ := (Plan.spread_indifferent hquiet scope).gives hspread
      rw [(halone {}).outcome_eq]
      exact hstart (.nil plan counted) (collects_rows hspreads hcondition names rows counted)
    · obtain ⟨target, hexplode, hpath⟩ : ∃ target, plan.explode = some target ∧
          Assignment.path? target = none := by
        simpa [Plan.Spreads] using hspreads
      obtain rfl := Plan.eq_nil_of_spread hexplode hpath hspread
      have hnone : (match ((plan.spread scope).outcome {} []).1.1 with
          | .ok rows => job.eligibleAmong plan names (state.inputRowNumber + 1) state.rowNumber rows
          | .error _ => []) = [] := by
        obtain ⟨alone, last, halone⟩ := plan.spread_settles scope {}
        rw [halone.outcome_eq]
        cases alone with
        | error error => rfl
        | ok rows => rw [Plan.eq_nil_of_spread hexplode hpath halone]; rfl
      rw [hnone]
      exact hstart ⟨rfl, rfl, fun other _ =>
        ⟨[], other, gives_pure _ _, fun h => absurd h hspreads, rfl⟩⟩
        (collects_of_gives (gives_pure _ _) (.nil plan _))

/-! ### Whole sources -/

theorem eligibleFrom_of_row?_eq_none {pull : Pull} (h : pull.row? = none) (plan : Plan)
    (names : List String) (input count : Nat) (rest : Source) :
    job.eligibleFrom plan names input count (pull :: rest) =
      job.eligibleFrom plan names input count rest := by
  simp only [eligibleFrom, h]

/-- A row and the records after it. -/
theorem collects_row_rest (hcondition : ∀ expr ∈ plan.condition, expr.CallsNoAggregate)
    {names : List String} {pull : Pull} {values : List Value} {rest : Source}
    (hrow : pull.row? = some values)
    (hrest : ∀ middle : RunState (List OutputRecord), ∃ inputs,
      Collects plan middle (job.collectRest plan names rest) inputs
        (job.eligibleFrom plan names middle.inputRowNumber middle.rowNumber rest))
    (state : RunState (List OutputRecord)) :
    ∃ inputs, Collects plan state
      (job.collectInput plan names values >>= fun _ => job.collectRest plan names rest) inputs
      (job.eligibleFrom plan names state.inputRowNumber state.rowNumber (pull :: rest)) := by
  obtain ⟨result, middle, hgives, hadds⟩ :=
    collects_input hcondition names values state
  cases result with
  | error error => exact ⟨0, collects_of_fails hgives.bind_error⟩
  | ok value =>
    obtain ⟨inputs, hlater⟩ := hrest middle
    rw [(hadds rfl).inputRowNumber, (hadds rfl).rowNumber] at hlater
    simp only [eligibleFrom, hrow]
    exact ⟨1 + inputs, Collects.after hgives (hadds rfl) hlater⟩

theorem adds_taken (plan : Plan) (state : RunState (List OutputRecord)) :
    Adds plan 0 [] state { state with pulled := state.pulled + 1 } :=
  ⟨rfl, rfl, fun other htied => ⟨[], other, gives_pure _ _, htied, rfl⟩⟩

/-- The records of a source after its first row. -/
theorem collects_rest (hcondition : ∀ expr ∈ plan.condition, expr.CallsNoAggregate)
    (names : List String) (source : Source) (state : RunState (List OutputRecord)) :
    ∃ inputs, Collects plan state (job.collectRest plan names source) inputs
      (job.eligibleFrom plan names state.inputRowNumber state.rowNumber source) := by
  induction source generalizing state with
  | nil => exact ⟨0, collects_of_gives (gives_pure _ _) (.nil plan state)⟩
  | cons pull rest ih =>
    rcases job.take_cases pull with ⟨error, htake⟩ | ⟨record, hresult, htake⟩
    · exact ⟨0, collects_of_fails (htake state).bind_error⟩
    · have htaken := adds_taken plan state
      cases record with
      | header columns =>
        obtain ⟨inputs, hrest⟩ := ih { state with pulled := state.pulled + 1 }
        rw [eligibleFrom_of_row?_eq_none (by simp [Pull.row?, hresult])]
        exact ⟨0 + inputs, Collects.after (htake state) htaken hrest⟩
      | row values =>
        have hrow : pull.row? = some values := by simp [Pull.row?, hresult]
        obtain ⟨inputs, hrest⟩ := collects_row_rest hcondition hrow ih
          { state with pulled := state.pulled + 1 }
        exact ⟨0 + inputs, Collects.after (htake state) htaken hrest⟩

/-- Records are those of the eligible rows of a source, evaluated one right after the other. -/
structure RecordsEligible (job : Job) (layout : Layout) (source : Source)
    (records : List OutputRecord) : Prop where
  length : records.length = (job.eligibleUnder layout source).length
  evaluated : ∀ plan, layout.plan = .ok plan → ∃ last,
    (plan.recordEach (job.eligibleUnder layout source)).Gives {} (.ok records) last

theorem eligibleUnder_of_row?_eq_none {pull : Pull} (h : pull.row? = none) (layout : Layout)
    (rest : Source) : job.eligibleUnder layout (pull :: rest) = job.eligibleUnder layout rest := by
  unfold eligibleUnder
  cases layout.plan with
  | ok plan => exact eligibleFrom_of_row?_eq_none h ..
  | error error => rfl

theorem recordsEligible_nil (job : Job) (layout : Layout) : job.RecordsEligible layout [] [] := by
  have hnone : job.eligibleUnder layout [] = [] := by
    unfold eligibleUnder
    cases layout.plan <;> rfl
  exact ⟨by rw [hnone]; rfl, fun plan _ => ⟨{}, hnone ▸ gives_pure _ _⟩⟩

/-- If collecting a source does not fail, it gives the records of the eligible rows. -/
theorem collects_source (declared : List String) (source : Source)
    (state : RunState (List OutputRecord)) (hinput : state.inputRowNumber = 0)
    (hcount : state.rowNumber = 0) (haggregates : state.aggregates = {})
    (hcondition : ∀ plan,
      (job.layoutFor (namesOf declared source.leading) source.width).plan = .ok plan →
        ∀ expr ∈ plan.condition, expr.CallsNoAggregate) :
    ∃ result after, (job.collect declared source).Gives state result after ∧
      (result = .ok () → ∃ records, after.writer = records.reverse ++ state.writer ∧
        job.RecordsEligible (job.layoutFor (namesOf declared source.leading) source.width) source
          records) := by
  induction source generalizing declared state with
  | nil => exact ⟨_, _, gives_pure _ _, fun _ => ⟨[], rfl, recordsEligible_nil job _⟩⟩
  | cons pull rest ih =>
    rcases job.take_cases pull with ⟨error, htake⟩ | ⟨record, hresult, htake⟩
    · exact ⟨_, _, (htake state).bind_error, fun h => nomatch h⟩
    · let taken : RunState (List OutputRecord) := { state with pulled := state.pulled + 1 }
      cases record with
      | header columns =>
        -- A header names the columns of the rows after it.
        have hnone : pull.row? = none := by simp [Pull.row?, hresult]
        obtain ⟨hwidth, hnames⟩ := columns_of_header hresult declared rest
        rw [hwidth, hnames] at hcondition ⊢
        obtain ⟨result, after, hgives, hrecords⟩ :=
          ih columns taken hinput hcount haggregates hcondition
        refine ⟨result, after, (htake state).bind hgives, fun hok => ?_⟩
        obtain ⟨records, hwriter, hlength, hevaluated⟩ := hrecords hok
        exact ⟨records, hwriter, by rwa [eligibleUnder_of_row?_eq_none hnone],
          by simpa only [eligibleUnder_of_row?_eq_none hnone] using hevaluated⟩
      | row values =>
        -- The first row, with whose number of columns the query is compiled.
        have hsome : pull.row? = some values := by simp [Pull.row?, hresult]
        obtain ⟨hwidth, hnames⟩ := columns_of_row hresult declared rest
        rw [hwidth, hnames] at hcondition ⊢
        have hcompiled := job.gives_layoutFor declared values.length
        cases hlayout : (job.layoutFor declared values.length).plan with
        | error error =>
          rw [hlayout] at hcompiled
          exact ⟨_, _, (htake state).bind (gives_ofReporting hcompiled _).bind_error,
            fun h => nomatch h⟩
        | ok plan =>
          rw [hlayout] at hcompiled
          obtain ⟨inputs, result, after, hgives, hadds⟩ := collects_row_rest
            (hcondition plan hlayout) hsome (collects_rest (hcondition plan hlayout)
              (columnNames declared values.length) rest) taken
          refine ⟨result, after, (htake state).bind ((gives_ofReporting hcompiled _).bind hgives),
            fun hok => ?_⟩
          obtain ⟨records, last, hrecords, -, hwriter⟩ :=
            (hadds hok).records {} fun _ => haggregates.symm
          have heligible : job.eligibleUnder (job.layoutFor declared values.length) (pull :: rest) =
              job.eligibleFrom plan (columnNames declared values.length) taken.inputRowNumber
                taken.rowNumber (pull :: rest) := by
            unfold eligibleUnder
            rw [hlayout, show taken.inputRowNumber = 0 from hinput,
              show taken.rowNumber = 0 from hcount]
            rfl
          rw [← heligible] at hrecords
          refine ⟨records, hwriter, plan.length_recordEach hrecords, fun other hother => ?_⟩
          obtain rfl := Except.ok.inj (hlayout.symm.trans hother)
          exact ⟨last, hrecords⟩

/-! ### The same query with and without running values -/

/-- The same run with or without `PARTIALS`. -/
def withPartials (job : Job) (partials : Bool) : Job :=
  { job with query := { job.query with
      selection := { job.query.selection with partials := partials } } }

/-- Two states of collecting runs that differ in their outputs alone. -/
def SameRun (state other : RunState (List OutputRecord)) : Prop :=
  ∃ output, other = { state with output := output }

theorem inStep_evaluating_sameRun {α : Type} {computation : Evaluating α}
    (h : computation.Settles) : InStep SameRun (evaluating computation) (evaluating computation)
      (fun _ => SameRun) fun _ _ => True := by
  rintro state _ ⟨output, rfl⟩
  obtain ⟨result, table, hgives⟩ := h state.aggregates
  refine ⟨result, _, _, gives_evaluating state hgives,
    gives_evaluating { state with output := output } hgives, ?_⟩
  cases result with
  | ok value => exact ⟨output, rfl⟩
  | error error => trivial

theorem inStep_take_sameRun (job : Job) (pull : Pull) :
    InStep SameRun (job.take pull) (job.take pull) (fun _ => SameRun) fun _ _ => True := by
  rintro state _ ⟨output, rfl⟩
  rcases job.take_cases pull with ⟨error, htake⟩ | ⟨record, -, htake⟩
  · exact ⟨_, _, _, htake _, htake _, trivial⟩
  · exact ⟨_, _, _, htake _, htake _, output, rfl⟩

theorem inStep_modify_sameRun {change : RunState (List OutputRecord) → RunState (List OutputRecord)}
    (h : ∀ state output, change { state with output := output } =
      { change state with output := output }) :
    InStep SameRun (modify change) (modify change) (fun _ => SameRun) fun _ _ => True := by
  refine inStep_modify ?_
  rintro state _ ⟨output, rfl⟩
  exact ⟨output, h state output⟩

/-- A step that looks at its state only to evaluate something that does not depend on the output. -/
theorem inStep_get_evaluating {α : Type}
    (computation : RunState (List OutputRecord) → Evaluating α)
    (hsettles : ∀ state, (computation state).Settles)
    (hsame : ∀ state output, computation { state with output := output } = computation state)
    {next : α → Collecting Unit} {otherNext : α → Collecting Unit}
    (hnext : ∀ value, InStep SameRun (next value) (otherNext value) (fun _ => SameRun)
      fun _ _ => True) :
    InStep SameRun (MonadState.get >>= fun seen => evaluating (computation seen) >>= next)
      (MonadState.get >>= fun seen => evaluating (computation seen) >>= otherNext)
      (fun _ => SameRun) fun _ _ => True := by
  refine inStep_get fun seen other hseen => ?_
  obtain ⟨output, rfl⟩ := hseen
  rw [hsame seen output]
  refine ((inStep_evaluating_sameRun (hsettles seen)).of_before ?_).bind hnext
  rintro _ _ ⟨rfl, rfl⟩
  exact ⟨output, rfl⟩

section SameRun

variable (job : Job) (partials : Bool) (plan : Plan) (names : List String)

theorem inStep_collectRow (values : List Value) :
    InStep SameRun (job.collectRow plan names values)
      ((job.withPartials partials).collectRow plan names values) (fun _ => SameRun)
      fun _ _ => True := by
  refine inStep_get_evaluating (fun seen => plan.keeps (job.scope names values seen))
    (fun _ => plan.keeps_settles _) (fun _ _ => rfl) fun kept => ?_
  cases kept with
  | false => exact inStep_pure fun _ _ => id
  | true =>
    refine (inStep_modify_sameRun fun _ _ => rfl).bind fun _ => ?_
    exact inStep_get_evaluating (fun seen => plan.record (job.scope names values seen))
      (fun _ => plan.record_settles _) (fun _ _ => rfl) fun record =>
        inStep_modify_sameRun fun _ _ => rfl

theorem inStep_collectRows (rows : List (List Value)) :
    InStep SameRun (job.collectRows plan names rows)
      ((job.withPartials partials).collectRows plan names rows) (fun _ => SameRun)
      fun _ _ => True := by
  induction rows with
  | nil => exact inStep_pure fun _ _ => id
  | cons values rest ih => exact (inStep_collectRow job partials plan names values).bind fun _ => ih

theorem inStep_collectInput (values : List Value) :
    InStep SameRun (job.collectInput plan names values)
      ((job.withPartials partials).collectInput plan names values) (fun _ => SameRun)
      fun _ _ => True := by
  refine (inStep_modify_sameRun fun _ _ => rfl).bind fun _ => ?_
  exact inStep_get_evaluating (fun seen => plan.spread (job.scope names values seen))
    (fun _ => plan.spread_settles _) (fun _ _ => rfl) fun rows =>
      inStep_collectRows job partials plan names rows

theorem inStep_collectRest (source : Source) :
    InStep SameRun (job.collectRest plan names source)
      ((job.withPartials partials).collectRest plan names source) (fun _ => SameRun)
      fun _ _ => True := by
  induction source with
  | nil => exact inStep_pure fun _ _ => id
  | cons pull rest ih =>
    refine (inStep_take_sameRun job pull).bind fun record => ?_
    cases record with
    | header columns => exact ih
    | row values => exact (inStep_collectInput job partials plan names values).bind fun _ => ih

/-- Running values make no difference to the records of a source. -/
theorem inStep_collect (declared : List String) (source : Source) :
    InStep SameRun (job.collect declared source)
      ((job.withPartials partials).collect declared source) (fun _ => SameRun)
      fun _ _ => True := by
  induction source generalizing declared with
  | nil => exact inStep_pure fun _ _ => id
  | cons pull rest ih =>
    refine (inStep_take_sameRun job pull).bind fun record => ?_
    cases record with
    | header columns => exact ih columns
    | row values =>
      have hplan : InStep SameRun
          (ofReporting (Plan.ofQuery job.policy job.query
            (ColumnBindings.ofDeclared values.length declared)))
          (ofReporting (Plan.ofQuery job.policy job.query
            (ColumnBindings.ofDeclared values.length declared)))
          (fun _ => SameRun) fun _ _ => True :=
        inStep_ofReporting (Plan.ofQuery_settles _ _ _) (fun _ _ _ _ => id) fun _ _ _ => trivial
      refine hplan.bind fun plan => ?_
      exact (inStep_collectInput job partials plan _ values).bind fun _ =>
        inStep_collectRest job partials plan _ rest

end SameRun

variable {source : Source}

theorem collected_withPartials (partials : Bool) (hcollected : (job.collected source).1 = .ok ()) :
    ((job.withPartials partials).collected source).1 = .ok () ∧
      (job.withPartials partials).recordsOf source = job.recordsOf source := by
  obtain ⟨result, after, other, hgives, hother, hsame⟩ :=
    inStep_collect job partials [] source (job.initial []) ((job.withPartials partials).initial [])
      ⟨_, rfl⟩
  have hresult : result = .ok () := by rwa [collected, hgives.outcome_eq] at hcollected
  subst hresult
  obtain ⟨output, rfl⟩ := hsame
  unfold recordsOf collected
  rw [hgives.outcome_eq, hother.outcome_eq]
  exact ⟨rfl, rfl⟩

end Job

/-- A query that aggregates and neither tells rows apart nor orders or cuts them. -/
structure Query.Aggregates (query : Query) : Prop where
  groups : query.groups = true
  distinct : query.selection.distinct = false
  orderBy : query.orderBy = []
  limit : query.limit = none
  offset : query.offset = 0

namespace Job

variable {job : Job} {source : Source}

theorem rowsOf_withPartials (hquery : job.query.Aggregates) (source : Source) :
    (job.withPartials true).rowsOf source =
        ((job.withPartials true).recordsOf source).map (·.values) ∧
      (job.withPartials false).rowsOf source =
        (lastOfEach OutputRecord.groupKey ((job.withPartials false).recordsOf source)).map
          (·.values) := by
  have hgroups : job.query.groupBy.isEmpty = false := by
    simpa [Query.groups] using hquery.groups
  simp [rowsOf, Query.rowsOf, Query.window, Query.consolidate, Query.groups, withPartials, hgroups,
    hquery.distinct, hquery.orderBy, hquery.limit, hquery.offset, upTo, sortRecords, sortFrom]

theorem collected_of_unlimited (hlimit : job.query.limit = none) {stats : Stats}
    (hrun : (job.run Writer.recorder [] source).1 = .ok stats) :
    (job.collected source).1 = .ok () := by
  rcases collected_of_run (by simp [hlimit]) hrun with hfills | hcollected
  · rw [job.fills_eq_false hlimit] at hfills
    cases hfills
  · exact hcollected

theorem recordsEligible_of_collected (hcollected : (job.collected source).1 = .ok ())
    (hcondition : ∀ plan, (job.layout source).plan = .ok plan →
      ∀ expr ∈ plan.condition, expr.CallsNoAggregate) :
    job.RecordsEligible (job.layout source) source (job.recordsOf source) := by
  obtain ⟨result, after, hgives, hrecords⟩ :=
    collects_source [] source (job.initial []) rfl rfl rfl hcondition
  have hcollect : job.collected source = (result, after) := hgives.outcome_eq []
  rw [hcollect] at hcollected
  obtain ⟨records, hwriter, heligible⟩ := hrecords hcollected
  have heq : job.recordsOf source = records := by
    rw [recordsOf, hcollect, hwriter]
    simp [initial]
  exact heq ▸ heligible

/-- The records of the first eligible rows do not depend on the rows after them. -/
theorem RecordsEligible.take_eq {layout : Layout} {other : Source}
    {records others : List OutputRecord} (h : job.RecordsEligible layout source records)
    (hothers : job.RecordsEligible layout other others) {count : Nat}
    (hsame : (job.eligibleUnder layout other).take count =
      (job.eligibleUnder layout source).take count) :
    others.take count = records.take count := by
  cases hlayout : layout.plan with
  | error error =>
    have hnone (source : Source) : job.eligibleUnder layout source = [] := by
      rw [eligibleUnder, hlayout]
    rw [List.length_eq_zero_iff.mp (by rw [h.length, hnone]; rfl : records.length = 0),
      List.length_eq_zero_iff.mp (by rw [hothers.length, hnone]; rfl : others.length = 0)]
  | ok plan =>
    obtain ⟨last, hrecords⟩ := h.evaluated plan hlayout
    obtain ⟨otherLast, hotherRecords⟩ := hothers.evaluated plan hlayout
    obtain ⟨middle, htaken⟩ := Plan.gives_recordEach_take hrecords count
    obtain ⟨otherMiddle, hotherTaken⟩ := Plan.gives_recordEach_take hotherRecords count
    rw [hsame] at hotherTaken
    exact Except.ok.inj (hotherTaken.unique htaken).1

end Job

/-- A query that aggregates writes, with running values, one row for each of its records, and
without them the last of these rows of every group, the groups in the order of their first rows. If
`WHERE` calls no aggregates there is one record for every eligible row, and the records of any number
of rows are made of these rows alone: they are the same in all runs with the same columns. -/
theorem partials_agree (job : Job) (source : Source) (hquery : job.query.Aggregates)
    (hrun : ∃ stats, (job.run Writer.recorder [] source).1 = .ok stats) :
    ∃ records : List OutputRecord,
      (job.withPartials true).Writes source (job.headerOf (Job.namesOf [] source))
        (records.map (·.values)) ∧
      (job.withPartials false).Writes source (job.headerOf (Job.namesOf [] source))
        ((lastOfEach OutputRecord.groupKey records).map (·.values)) ∧
      ((∀ plan, (job.layout source).plan = .ok plan →
          ∀ expr ∈ plan.condition, expr.CallsNoAggregate) →
        job.RecordsEligible (job.layout source) source records ∧
        ∀ other header rows count, job.layout other = job.layout source →
          (job.withPartials true).Writes other header rows →
          (job.eligible other).take count = (job.eligible source).take count →
          rows.take count = (records.map (·.values)).take count) := by
  obtain ⟨stats, hrun⟩ := hrun
  have hcollected := Job.collected_of_unlimited hquery.limit hrun
  have hlimit (partials : Bool) : (job.withPartials partials).query.limit ≠ some 0 := by
    change job.query.limit ≠ some 0
    simp [hquery.limit]
  have hwrites (partials : Bool) :=
    Job.writes_of_collected (hlimit partials) (Job.collected_withPartials partials hcollected).1
  have hrecords (partials : Bool) := (Job.collected_withPartials partials hcollected).2
  refine ⟨job.recordsOf source, ?_, ?_, fun hcondition => ?_⟩
  · have htrue := hwrites true
    rwa [(Job.rowsOf_withPartials hquery source).1, hrecords true] at htrue
  · have hfalse := hwrites false
    rwa [(Job.rowsOf_withPartials hquery source).2, hrecords false] at hfalse
  · have heligible := Job.recordsEligible_of_collected hcollected hcondition
    refine ⟨heligible, fun other header rows count hlayout hother hsame => ?_⟩
    obtain ⟨otherStats, hotherRun, -⟩ := id hother
    have hotherCollected := Job.collected_of_unlimited
      (show (job.withPartials true).query.limit = none from hquery.limit) hotherRun
    obtain ⟨hcollectedOther, hsameRecords⟩ : (job.collected other).1 = .ok () ∧
        job.recordsOf other = (job.withPartials true).recordsOf other :=
      Job.collected_withPartials job.query.selection.partials hotherCollected
    have hrows := hother.unique (Job.writes_of_collected (hlimit true) hotherCollected)
    rw [(Job.rowsOf_withPartials hquery other).1, ← hsameRecords] at hrows
    have hotherEligible := Job.recordsEligible_of_collected hcollectedOther (hlayout ▸ hcondition)
    rw [Job.eligible, Job.eligible, hlayout] at hsame
    rw [hlayout] at hotherEligible
    rw [hrows, ← List.map_take, ← List.map_take, heligible.take_eq hotherEligible hsame]

/-- Counting the rows of groups: of the three running counts the last one of every group is written
without running values, and the first needs no row after it. -/
theorem partials_agree_of_counting :
    Job.countingByFirst.query.Aggregates ∧
    ∃ records : List OutputRecord, records.length = 3 ∧
      (Job.countingByFirst.withPartials true).Writes .surrounding (.header ["n"])
        (records.map (·.values)) ∧
      (Job.countingByFirst.withPartials false).Writes .surrounding (.header ["n"])
        ((lastOfEach OutputRecord.groupKey records).map (·.values)) ∧
      ∀ header rows, (Job.countingByFirst.withPartials true).Writes
        (.ofRows [[.bool true, .null]]) header rows →
          rows.take 1 = (records.map (·.values)).take 1 := by
  have hquery : Job.countingByFirst.query.Aggregates := ⟨rfl, rfl, rfl, rfl, rfl⟩
  have hheader : Job.countingByFirst.headerOf (Job.namesOf [] .surrounding) = .header ["n"] := rfl
  have hlayout : Job.countingByFirst.layout (.ofRows [[.bool true, .null]]) =
      Job.countingByFirst.layout .surrounding := rfl
  have hplan : (Job.countingByFirst.layout .surrounding).plan = .ok Plan.countingByFirst :=
    Plan.eq_of_isCountingByFirst (by decide +kernel)
  obtain ⟨records, hpartials, hlast, hrows⟩ :=
    partials_agree Job.countingByFirst .surrounding hquery Job.countingByFirst_runs
  obtain ⟨heligible, hfirst⟩ := hrows fun plan hplan =>
    (Job.groupsByValues_countingByFirst hplan).condition_calls
  rw [hheader] at hpartials hlast
  refine ⟨hquery, records, ?_, hpartials, hlast, fun header rows hwrites => ?_⟩
  · rw [heligible.length, Job.eligibleUnder, hplan]
    rfl
  · refine hfirst _ header rows 1 hlayout hwrites ?_
    rw [Job.eligible, Job.eligible, hlayout, Job.eligibleUnder, Job.eligibleUnder, hplan]
    rfl

/-! ### An aggregate in `WHERE` -/

/-- A query that counts some of its rows, and whose `WHERE` counts other rows aside: its call of an
aggregate was read as part of a literal. -/
def Query.countingAside : Query :=
  { Query.selectAll none 0 with
    selection :=
      { items := [.column "n" "count_agg(TRUE) if col1 else 0"]
        distinct := false
        partials := true }
    condition := some "col2 or col3 and \x7bx: FALSE\x7d['x__aaaaaaaaaaaa__']"
    groupBy := [Query.overallGroup]
    literals := [("__aaaaaaaaaaaa__".toList, ⟨'\'', " if count_agg(TRUE) < 9 else ".toList⟩)] }

/-- The part of the condition that counts: false, or null where it counted nine rows. -/
def Expr.countingAside : Expr :=
  .item (.object [(.literal (.str "x"), .literal (.bool false))])
    (.ternary (.binary (.call "count_agg" [.literal (.bool true)]) .less (.literal (.ofNat 9)))
      (.literal (.str "x")) (.literal (.str "")))

/-- The plan of the query, in which the call is one. -/
def Plan.countingAside : Plan where
  items := [.expression (.ternary (.column 0) (.call "count_agg" [.literal (.bool true)])
    (.literal (.ofNat 0)))]
  explode := none
  condition := some (.binary (.column 1) .disjunction
    (.binary (.column 2) .conjunction .countingAside))
  groupBy := [.literal (.str "_OVERALL_")]
  orderBy := []

/-- Whether compiling gave the plan of the query. -/
def Plan.isCountingAside : Except Error Plan → Bool
  | .ok ⟨[.expression (.ternary (.column 0) (.call "count_agg" [.literal (.bool true)])
        (.literal (.int ⟨0, _, _⟩)))], none,
      some (.binary (.column 1) .disjunction (.binary (.column 2) .conjunction
        (.item (.object [(.literal (.str "x"), .literal (.bool false))])
          (.ternary (.binary (.call "count_agg" [.literal (.bool true)]) .less
            (.literal (.int ⟨9, _, _⟩))) (.literal (.str "x")) (.literal (.str "")))))),
      [.literal (.str "_OVERALL_")], []⟩ => true
  | _ => false

theorem Plan.eq_of_isCountingAside {result : Except Error Plan}
    (h : isCountingAside result = true) : result = .ok countingAside := by
  unfold isCountingAside at h
  split at h
  · rfl
  · cases h

/-- A run of the query. -/
def Job.countingAside : Job := { query := .countingAside }

theorem Plan.gives_countingAside :
    (Plan.ofQuery .report .countingAside (ColumnBindings.ofDeclared 3 [])).Gives
      (.ok Plan.countingAside) := by
  have hplan :=
    (Plan.ofQuery_settles .report .countingAside (ColumnBindings.ofDeclared 3 [])).gives
  have hcompiled : isCountingAside ((Plan.ofQuery .report .countingAside
      (ColumnBindings.ofDeclared 3 [])).run.run []).1 = true := by
    decide +kernel
  rwa [eq_of_isCountingAside hcompiled] at hplan

namespace Job

/-- The key of the only group. -/
def asideKey : String :=
  tupleKey [.str "_OVERALL_"]

/-- The accumulators after a row in the middle, which `WHERE` counts aside or not. -/
def setAside (counts : Bool) (table : Aggregates) : Aggregates :=
  if counts then table.store (.running (table.countWith (.bool true))) else table

theorem keeps_countingAside_of_second (first third : Bool) (scope : Scope)
    (hvalues : scope.values = [.bool first, .bool true, .bool third]) (table : Aggregates) :
    (Plan.countingAside.keeps scope).Gives table (.ok true) table := by
  obtain ⟨session, values, names, rowNumber, inputRowNumber⟩ := scope
  subst hvalues
  exact ⟨[], fun _ => rfl⟩

/-- A row that is not eligible, whether it is counted aside or not. -/
theorem keeps_countingAside (counts : Bool) (scope : Scope) {table : Aggregates}
    (hvalues : scope.values = [.bool false, .bool false, .bool counts])
    (hless : Value.applyBinary .less (table.countWith (.bool true)) (.ofNat 9) =
      .ok (.bool true)) :
    (Plan.countingAside.keeps scope).Gives table (.ok false) (setAside counts table) := by
  obtain ⟨session, values, names, rowNumber, inputRowNumber⟩ := scope
  subst hvalues
  cases counts with
  | false => exact ⟨[], fun _ => rfl⟩
  | true =>
    let scope : Scope :=
      ⟨session, [.bool false, .bool false, .bool true], names, rowNumber, inputRowNumber⟩
    have haside : (scope.evaluate .countingAside).Gives table (.ok (.bool false))
        (setAside true table) :=
      scope.gives_hiddenMember false hless
    have hthird : (scope.evaluate (.binary (.column 2) .conjunction .countingAside)).Gives table
        (.ok (.bool false)) (setAside true table) :=
      (scope.gives_column 2 table).bind (haside.bind (gives_pure (Value.bool false) _))
    have hwhole : (scope.evaluate (.binary (.column 1) .disjunction
        (.binary (.column 2) .conjunction .countingAside))).Gives table (.ok (.bool false))
          (setAside true table) :=
      (scope.gives_column 1 table).bind (hthird.bind (gives_pure (Value.bool false) _))
    exact (hwhole.mapError _).bind (gives_pure _ _)

theorem record_countingAside_of_first (scope : Scope)
    (hvalues : scope.values = [.bool false, .bool true, .bool false]) (table : Aggregates) :
    (Plan.countingAside.record scope).Gives table (.ok ⟨[.ofNat 0], [], asideKey⟩)
      (table.startRow asideKey) := by
  obtain ⟨session, values, names, rowNumber, inputRowNumber⟩ := scope
  subst hvalues
  exact ⟨[], fun _ => rfl⟩

theorem record_countingAside_of_last (scope : Scope)
    (hvalues : scope.values = [.bool true, .bool true, .bool false]) (table : Aggregates) :
    ∃ after, (Plan.countingAside.record scope).Gives table
      (.ok ⟨[(table.startRow asideKey).countWith (.bool true)], [], asideKey⟩) after := by
  obtain ⟨session, values, names, rowNumber, inputRowNumber⟩ := scope
  subst hvalues
  let scope : Scope :=
    ⟨session, [.bool true, .bool true, .bool false], names, rowNumber, inputRowNumber⟩
  have hstart : (Plan.countingAside.startGroup scope).Gives table (.ok asideKey)
      (table.startRow asideKey) := ⟨[], fun _ => rfl⟩
  have hvalue : (scope.evaluate (.literal (.bool true))).Gives (table.startRow asideKey)
      (.ok (.bool true)) (table.startRow asideKey) := gives_pure _ _
  let count := (table.startRow asideKey).countWith (.bool true)
  have hcount : (scope.evaluate (.ternary (.column 0) (.call "count_agg" [.literal (.bool true)])
      (.literal (.ofNat 0)))).Gives (table.startRow asideKey) (.ok count)
        ((table.startRow asideKey).store (.running count)) :=
    (scope.gives_column 0 _).bind (scope.gives_count hvalue)
  have hproject : (Plan.project scope 1 Plan.countingAside.items).Gives (table.startRow asideKey)
      (.ok [count]) ((table.startRow asideKey).store (.running count)) :=
    (hcount.mapError _).bind ((gives_pure _ _).bind (gives_pure _ _))
  exact ⟨_, hstart.bind (hproject.bind ((gives_pure _ _).bind (gives_pure _ _)))⟩

/-- The records of a source: a row that counts alone, one that is not eligible, and one that takes
up the count. -/
def aside (counts : Bool) : Source :=
  .ofRows [[.bool false, .bool true, .bool false], [.bool false, .bool false, .bool counts],
    [.bool true, .bool true, .bool false]]

/-- The accumulators at the last row of such a source. -/
def asideTable (counts : Bool) : Aggregates :=
  (setAside counts (({} : Aggregates).startRow asideKey)).startRow asideKey

theorem less_aside : Value.applyBinary .less
    ((({} : Aggregates).startRow asideKey).countWith (.bool true)) (.ofNat 9) =
      .ok (.bool true) := by
  have hnext : (({} : Aggregates).startRow asideKey).next = .empty := by
    simp [Aggregates.next, Aggregates.present, Aggregates.startRow]
  rw [Aggregates.countWith, hnext]
  rfl

theorem countWith_asideTable (counts : Bool) :
    (asideTable counts).countWith (.bool true) = .ofNat (if counts then 2 else 1) := by
  have hfirst : (({} : Aggregates).startRow asideKey).next = .empty := by
    simp [Aggregates.next, Aggregates.present, Aggregates.startRow]
  have hnext : (asideTable counts).next = if counts then .running (.ofNat 1) else .empty := by
    cases counts
    · simp [asideTable, setAside, Aggregates.next, Aggregates.present, Aggregates.startRow]
    · have hcount : (({} : Aggregates).startRow asideKey).countWith (.bool true) = .ofNat 1 := by
        rw [Aggregates.countWith, hfirst]
        rfl
      rw [asideTable, setAside, if_pos rfl, hcount]
      simp [Aggregates.next, Aggregates.present, Aggregates.store, Aggregates.startRow]
  rw [Aggregates.countWith, hnext]
  cases counts <;> rfl

theorem collectInput_countingAside_of_first (names : List String)
    (state : RunState (List OutputRecord)) :
    (countingAside.collectInput .countingAside names [.bool false, .bool true, .bool false]).Gives
      state (.ok ())
      { state with
        inputRowNumber := state.inputRowNumber + 1
        rowNumber := state.rowNumber + 1
        aggregates := state.aggregates.startRow asideKey
        writer := ⟨[.ofNat 0], [], asideKey⟩ :: state.writer } :=
  gives_collectInput _ rfl (gives_collectRow_of_kept _
    (keeps_countingAside_of_second false false _ rfl _) (record_countingAside_of_first _ rfl _))

theorem collectInput_countingAside_of_middle (counts : Bool) (names : List String)
    (state : RunState (List OutputRecord))
    (hless : Value.applyBinary .less (state.aggregates.countWith (.bool true)) (.ofNat 9) =
      .ok (.bool true)) :
    (countingAside.collectInput .countingAside names
      [.bool false, .bool false, .bool counts]).Gives state (.ok ())
      { state with
        inputRowNumber := state.inputRowNumber + 1
        aggregates := setAside counts state.aggregates } :=
  gives_collectInput _ rfl (gives_collectRow_of_dropped _ (keeps_countingAside counts _ rfl hless))

theorem collectInput_countingAside_of_last {count : Value} (names : List String)
    (state : RunState (List OutputRecord))
    (hcount : (state.aggregates.startRow asideKey).countWith (.bool true) = count) :
    ∃ last, (countingAside.collectInput .countingAside names
      [.bool true, .bool true, .bool false]).Gives state (.ok ()) last ∧
        last.writer = ⟨[count], [], asideKey⟩ :: state.writer := by
  subst hcount
  obtain ⟨table, hrecord⟩ := record_countingAside_of_last
    (countingAside.scope names [.bool true, .bool true, .bool false]
      { state with
        inputRowNumber := state.inputRowNumber + 1
        rowNumber := state.rowNumber + 1 }) rfl state.aggregates
  exact ⟨_, gives_collectInput _ rfl (gives_collectRow_of_kept _
    (keeps_countingAside_of_second true false _ rfl _) hrecord), rfl⟩

theorem collect_countingAside (counts : Bool) :
    ∃ last, (countingAside.collect [] (aside counts)).Gives (countingAside.initial []) (.ok ()) last ∧
      last.writer = [⟨[.ofNat (if counts then 2 else 1)], [], asideKey⟩,
        ⟨[.ofNat 0], [], asideKey⟩] := by
  let names := columnNames [] 3
  let start : RunState (List OutputRecord) := countingAside.initial []
  have hfirst := collectInput_countingAside_of_first names { start with pulled := 1 }
  have hmiddle := collectInput_countingAside_of_middle counts names
    { start with
      pulled := 2
      inputRowNumber := 1
      rowNumber := 1
      aggregates := start.aggregates.startRow asideKey
      writer := [⟨[.ofNat 0], [], asideKey⟩] } less_aside
  obtain ⟨last, hlast, hwriter⟩ := collectInput_countingAside_of_last names
    { start with
      pulled := 3
      inputRowNumber := 2
      rowNumber := 1
      aggregates := setAside counts (start.aggregates.startRow asideKey)
      writer := [⟨[.ofNat 0], [], asideKey⟩] } (countWith_asideTable counts)
  refine ⟨last, ?_, hwriter⟩
  exact (gives_take _ _ _).bind ((gives_ofReporting Plan.gives_countingAside _).bind
    (hfirst.bind ((gives_take _ _ _).bind (hmiddle.bind ((gives_take _ _ _).bind
      (hlast.bind (gives_pure _ _)))))))

theorem aggregates_countingAside : countingAside.query.Aggregates :=
  ⟨rfl, rfl, rfl, rfl, rfl⟩

theorem writes_countingAside (counts : Bool) :
    countingAside.Writes (aside counts) (.header ["n"])
      [[.ofNat 0], [.ofNat (if counts then 2 else 1)]] := by
  obtain ⟨last, hcollect, hwriter⟩ := collect_countingAside counts
  have hlast : last.writer = last.writer.reverse.reverse ++
      (countingAside.initial ([] : List OutputRecord)).writer := by
    simp [initial]
  obtain ⟨hcollected, hrecords⟩ := countingAside.collected_of_gives hcollect hlast
  have hwrites := writes_of_collected (by decide) hcollected
  rw [hwriter] at hrecords
  have hrows := (rowsOf_withPartials aggregates_countingAside (aside counts)).1
  rw [show countingAside.withPartials true = countingAside from rfl, hrecords] at hrows
  rwa [hrows] at hwrites

theorem eligibleOf_countingAside_of_middle (counts : Bool) (names : List String)
    (input count : Nat) :
    countingAside.eligibleOf .countingAside names input count
      [.bool false, .bool false, .bool counts] = [] := by
  have hless : Value.applyBinary .less (({} : Aggregates).countWith (.bool true)) (.ofNat 9) =
      .ok (.bool true) := by
    rw [countWith_initial]
    rfl
  have hspread := gives_spread (show Plan.countingAside.explode = none from rfl)
    (countingAside.numberedScope names input count [.bool false, .bool false, .bool counts]) {}
  have hkeeps := keeps_countingAside counts
    (countingAside.numberedScope names input count [.bool false, .bool false, .bool counts]) rfl
    hless
  rw [eligibleOf, hspread.outcome_eq]
  simp only [eligibleAmong]
  rw [show (countingAside.numberedScope names input count
    [.bool false, .bool false, .bool counts]).values =
      [.bool false, .bool false, .bool counts] from rfl, hkeeps.outcome_eq]

/-- What is counted aside makes no difference to the rows that are eligible. -/
theorem eligible_aside (counts : Bool) :
    countingAside.eligible (aside counts) = countingAside.eligible (aside false) := by
  have hlayout : countingAside.layout (aside counts) = countingAside.layout (aside false) := rfl
  have hplan : (countingAside.layout (aside false)).plan = .ok .countingAside :=
    Plan.eq_of_isCountingAside (by decide +kernel)
  rw [eligible, eligible, hlayout, eligibleUnder, eligibleUnder, hplan]
  simp only [aside, Source.ofRows, Source.ofRecords, List.map_cons, List.map_nil, eligibleFrom,
    Pull.row?, eligibleOf_countingAside_of_middle]

end Job

/-- A call of an aggregate that `WHERE` reads as part of a literal counts rows that are not eligible,
and a running value takes up the count: the rows of two runs differ, although the eligible rows are
the same. -/
theorem partials_take_up_count :
    (Query.aggregatesIn "col2 or col3 and {x: FALSE}->x__aaaaaaaaaaaa__".toList = [] ∧
      Shorthand.expand "col2 or col3 and {x: FALSE}->x__aaaaaaaaaaaa__".toList =
        "col2 or col3 and {x: FALSE}['x__aaaaaaaaaaaa__']".toList) ∧
    Job.countingAside.query.Aggregates ∧
    Job.countingAside.eligible (Job.aside true) = Job.countingAside.eligible (Job.aside false) ∧
    Job.countingAside.Writes (Job.aside true) (.header ["n"]) [[.ofNat 0], [.ofNat 2]] ∧
    Job.countingAside.Writes (Job.aside false) (.header ["n"]) [[.ofNat 0], [.ofNat 1]] :=
  ⟨⟨by decide, by decide⟩, Job.aggregates_countingAside, Job.eligible_aside true,
    Job.writes_countingAside true, Job.writes_countingAside false⟩

end StreamQuery
