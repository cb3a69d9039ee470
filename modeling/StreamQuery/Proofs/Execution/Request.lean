import StreamQuery.Proofs.Execution.Failing

/-!
# A query from its text to its end

A query is read, compiled and run. One trace tells how that goes for every writer, and how it goes
where warnings are errors: the same up to the first warning.
-/

namespace StreamQuery

open Reporting

/-- What is seen of a query that was run. -/
structure Seen (σ : Type) where
  result : Except Error Stats
  writer : σ
  pulled : Nat
  warnings : List Warning

/-- What is seen of a run that went as a trace tells. -/
def Played.seen {σ : Type} (played : Played σ) (result : Except Error Stats) : Seen σ where
  result := played.ending result
  writer := played.writer
  pulled := played.pulled
  warnings := played.warnings

/-- The aggregate that a warning is about. -/
def Warning.aggregate? : Warning → Option String
  | .conditionalAggregate name => some name
  | _ => none

theorem Warning.eq_of_aggregate? {warnings : List Warning} {name : String}
    (h : warnings.map aggregate? = [some name]) : warnings = [.conditionalAggregate name] := by
  obtain ⟨warning, rfl, hname⟩ := List.map_eq_singleton_iff.mp h
  cases warning with
  | conditionalAggregate found => rw [Option.some.inj hname]
  | _ => cases hname

/-- Whether a result is an expression that does not compile. -/
def Error.endsCompiling {α : Type} : Except Error α → Bool
  | .error (.compile _ _ _) => true
  | _ => false

theorem Error.eq_of_endsCompiling {α : Type} {result : Except Error α}
    (h : endsCompiling result = true) :
    ∃ location text cause, result = .error (.compile location text cause) := by
  unfold endsCompiling at h
  split at h
  · exact ⟨_, _, _, rfl⟩
  · cases h

/-- A query to be read and run, with the placeholders of its literals. -/
structure Request where
  name : Nat → List Char
  defaultTarget : String
  text : String
  vars : List (String × Value) := []
  clock : Calendar.DateTime := ⟨⟨1970, 1, 1⟩, 0, 0⟩
  source : Source

namespace Request

variable {σ : Type}

/-- The query of a request, and the warnings of reading it. -/
def query (request : Request) (policy : WarningPolicy) : Except Error Query × List Warning :=
  (Query.parseWith request.name policy request.defaultTarget request.text).start

/-- What is seen of a request with a writer. -/
def seen (request : Request) (policy : WarningPolicy) (writer : Writer σ) (start : σ) : Seen σ :=
  match request.query policy with
  | (.error error, warnings) => ⟨.error error, start, 0, warnings⟩
  | (.ok query, warnings) =>
    let job : Job := ⟨query, request.vars, policy, request.clock⟩
    let (result, state, later) := job.run writer start request.source
    ⟨result, state.writer, state.pulled, warnings ++ later⟩

/-- In every clause of its query that is a list of expressions, and for all columns, each item is an
expression by itself if the clause warns. -/
def Separable (request : Request) : Prop :=
  ∀ query, (request.query .report).1 = .ok query → query.Separable

theorem query_eq (request : Request) {policy : WarningPolicy} {result : Except Error Query}
    {raised : List Warning}
    (h : ∀ before, (Query.parseWith request.name policy request.defaultTarget request.text).run.run
      before = (result, raised.reverse ++ before)) : request.query policy = (result, raised) := by
  unfold query Reporting.start
  rw [h []]
  simp

/-- A request that cannot be read. -/
theorem seen_error {request : Request} {policy : WarningPolicy} {error : Error}
    {raised : List Warning} (h : request.query policy = (.error error, raised))
    (writer : Writer σ) (start : σ) :
    request.seen policy writer start =
      (Happening.play writer (raised.map .warned) start).seen (.error error) := by
  rw [seen, h, Happening.play_warned]
  rfl

/-- A request whose run goes as a trace tells. -/
theorem seen_ok {request : Request} {policy : WarningPolicy} {query : Query}
    {raised : List Warning} {trace : List Happening} {result : Except Error Stats}
    {after : RunState Unit} (h : request.query policy = (.ok query, raised))
    (hshows : Job.Shows
      (fun _ writer _ =>
        Job.runAll ⟨query, request.vars, policy, request.clock⟩ writer request.source)
      (Job.initial ⟨query, request.vars, policy, request.clock⟩ ()) trace result after)
    (writer : Writer σ) (start : σ) :
    request.seen policy writer start =
      (Happening.play writer (raised.map .warned ++ trace) start).seen result := by
  obtain ⟨last, houtcome, hpulled, -⟩ := hshows σ writer start []
  have hrun : Job.run ⟨query, request.vars, policy, request.clock⟩ writer start request.source =
      ((Happening.play writer trace start).ending result,
        last.withWriter (Happening.play writer trace start).writer,
        (Happening.play writer trace start).warnings) := by
    have hstart : ∀ (computation : Running σ Stats) (state : RunState σ), computation.start state =
        ((computation.outcome state []).1.1, (computation.outcome state []).1.2,
          (computation.outcome state []).2.reverse) := fun _ _ => rfl
    have houtcome : (Job.runAll ⟨query, request.vars, policy, request.clock⟩ writer
        request.source).outcome (Job.initial _ start) [] = _ := houtcome
    rw [Job.run, hstart, houtcome]
    simp
  rw [seen, h, Happening.play_append, Happening.play_warned]
  simp only [hrun, Played.andThen, Played.seen, Played.ending]
  simp [RunState.withWriter, hpulled, Job.initial]

/-- One trace tells how a request is carried out where warnings are reported, and up to its first
warning how it is where they are errors. -/
theorem exists_trace (request : Request) :
    ∃ trace result,
      (∀ (σ : Type) (writer : Writer σ) (start : σ),
        request.seen .report writer start = (Happening.play writer trace start).seen result) ∧
      (Happening.Silent trace ∧ (∀ (σ : Type) (writer : Writer σ) (start : σ),
        request.seen .fail writer start = (Happening.play writer trace start).seen result) ∨
      ∃ before first later error, trace = before ++ .warned first :: later ∧
        Happening.Silent before ∧ (request.Separable → error = .warning first) ∧
        ∀ (σ : Type) (writer : Writer σ) (start : σ), request.seen .fail writer start =
          (Happening.play writer before start).seen (.error error)) := by
  -- Reading the query may raise warnings of its own, which come before those of the run.
  obtain ⟨read, raised, hreport, hfail⟩ : Cuts request.Separable _ _ :=
    Query.cuts_parseWith request.name request.defaultTarget request.text
  have hreport := request.query_eq hreport
  have hwarned : ∀ first rest, raised = first :: rest → ∃ error,
      (request.Separable → error = .warning first) ∧
      ∀ (σ : Type) (writer : Writer σ) (start : σ), request.seen .fail writer start =
        (Happening.play writer [] start).seen (.error error) := by
    rintro first rest rfl
    obtain ⟨error, herror, hfail⟩ := hfail
    exact ⟨error, herror, fun σ => seen_error (@query_eq request .fail _ [] hfail)⟩
  cases read with
  | error error =>
    refine ⟨raised.map .warned, .error error, fun σ => seen_error hreport, ?_⟩
    cases raised with
    | nil => exact .inl ⟨Happening.silent_nil, fun σ => seen_error (@query_eq request .fail _ [] hfail)⟩
    | cons first rest =>
      obtain ⟨caught, hcaught, hseen⟩ := hwarned first rest rfl
      exact .inr ⟨[], first, rest.map .warned, caught, rfl, Happening.silent_nil, hcaught, hseen⟩
  | ok query =>
    -- If it raises none, it is the first warning of the run, if any, that ends the run.
    obtain ⟨trace, result, after, hfull, hcut⟩ :=
      @Job.cuts_runAll ⟨query, request.vars, .report, request.clock⟩ rfl request.source
        (Job.initial ⟨query, request.vars, .report, request.clock⟩ ())
    have hseparable : request.Separable → query.Separable := fun h => h query (by rw [hreport])
    refine ⟨raised.map .warned ++ trace, result, fun σ => seen_ok hreport hfull, ?_⟩
    cases raised with
    | cons first rest =>
      obtain ⟨caught, hcaught, hseen⟩ := hwarned first rest rfl
      exact .inr ⟨[], first, rest.map .warned ++ trace, caught, rfl, Happening.silent_nil, hcaught,
        hseen⟩
    | nil =>
      have hfail := @query_eq request .fail _ [] hfail
      rcases hcut with ⟨hsilent, hcut⟩ |
        ⟨before, first, later, error, reached, rfl, hsilent, herror, hcut⟩
      · exact .inl ⟨hsilent, fun σ => seen_ok hfail hcut⟩
      · exact .inr ⟨before, first, later, error, rfl, hsilent, fun h => herror (hseparable h),
          fun σ => seen_ok hfail hcut⟩

/-- A request for one row, with numbered placeholders. -/
def ofSelect (text : List Char) : Request where
  name := Placeholder.ofNumber
  defaultTarget := "memory"
  text := String.ofList text
  source := .ofRows [[.null]]

/-- A query of nothing but items that call aggregates. -/
def aggregating (items : List SelectItem) : Query where
  imports := []
  selection := ⟨items, false, false⟩
  source := none
  explode := none
  condition := none
  groupBy := [Query.overallGroup]
  orderBy := []
  limit := none
  offset := 0
  target := .format ⟨"memory", [], []⟩
  literals := []

theorem query_ofSelect {text : List Char} {columns : List SelectItem} (items : String)
    (hextract : LiteralTable.extract Placeholder.ofNumber text = .ok (text, []))
    (hclauses : QueryStructure.ofText text = .ok [(.select, items)])
    (hitems : items.isEmpty = false)
    (hselection : Selection.ofText [] items.toList = ⟨columns, false, false⟩)
    (haggregates : (Query.aggregatesIn text).isEmpty = false) (policy : WarningPolicy) :
    (ofSelect text).query policy = (.ok (aggregating columns), []) := by
  have hselect : QueryStructure.nonEmpty? [(.select, items)] .select = some items := by
    simp [QueryStructure.nonEmpty?, QueryStructure.get?, hitems]
  have hother : ∀ clause, clause ≠ .select →
      QueryStructure.nonEmpty? [(.select, items)] clause = none := by
    intro clause hne
    simp [QueryStructure.nonEmpty?, QueryStructure.get?, beq_false_of_ne hne.symm]
  rw [query, ofSelect, Query.parseWith_ok (by rwa [String.toList_ofList]) hclauses]
  simp only [Query.ofStructure, hselect, hother .imports (by decide), hother .source (by decide),
    hother .condition (by decide), hother .orderBy (by decide), hother .groupBy (by decide),
    hother .explode (by decide), hother .limit (by decide), hother .offset (by decide),
    hother .target (by decide), Query.optional, pure_bind, Option.getD_some, hselection,
    Option.getD_none, haggregates]
  rfl

/-- Items whose brackets are their own, of a query of nothing else. -/
theorem separable_aggregating {columns : List SelectItem}
    (hself : ∀ bindings : ColumnBindings, ∀ item ∈ columns.filterMap Plan.itemText?,
      Expr.SelfContained (bindings.prepare [] item).toList) : (aggregating columns).Separable := by
  intro texts htexts bindings
  simp only [Query.listedTexts, aggregating, List.mem_cons, List.not_mem_nil, or_false,
    List.filterMap_nil] at htexts
  rcases htexts with rfl | rfl | rfl
  · refine Expr.separable_of_selfContained fun text htext => ?_
    obtain ⟨item, hitem, rfl⟩ := List.mem_map.mp htext
    exact hself bindings item hitem
  · -- The constant is a literal, in which nothing is bound.
    have hfragments : Fragment.ofText Query.overallGroup.toList =
        [.quoted Query.overallGroup.toList] := by decide
    have hprepared : bindings.prepare [] Query.overallGroup = Query.overallGroup := by
      rw [ColumnBindings.prepare, ColumnBindings.bind, hfragments]
      simp only [ColumnBindings.bindFragments, Fragment.text]
      decide
    have hparses : (Expr.parse Query.overallGroup).isOk = true := by decide +kernel
    rintro exprs - - text htext
    obtain rfl : text = Query.overallGroup := by simpa [aggregating, hprepared] using htext
    exact exists_of_isOk hparses
  · exact Expr.separable_of_selfContained fun text htext => absurd htext List.not_mem_nil

/-- Treating warnings as errors only cuts a run short. One trace tells for every writer how a query
is read and run where warnings are reported. If no warning is seen, the same is seen where warnings
are errors. Else the run goes as the trace tells up to its first warning and fails there: with that
warning, if in every clause that warns each item is an expression by itself. -/
theorem failing_cuts_short (request : Request) :
    ∃ trace result,
      (∀ (σ : Type) (writer : Writer σ) (start : σ),
        request.seen .report writer start = (Happening.play writer trace start).seen result) ∧
      ∀ (σ : Type) (writer : Writer σ) (start : σ),
        ((request.seen .report writer start).warnings = [] →
          request.seen .fail writer start = request.seen .report writer start) ∧
        ∀ first rest, (request.seen .report writer start).warnings = first :: rest →
          ∃ before later error, trace = before ++ .warned first :: later ∧
            Happening.Silent before ∧ (request.Separable → error = .warning first) ∧
            request.seen .fail writer start =
              ⟨.error error, (Happening.play writer before start).writer,
                (Happening.play writer before start).pulled, []⟩ := by
  obtain ⟨trace, result, hreport, hfail⟩ := request.exists_trace
  refine ⟨trace, result, hreport, fun σ writer start => ?_⟩
  rw [hreport]
  rcases hfail with ⟨hsilent, hfail⟩ | ⟨before, first, later, error, rfl, hsilent, herror, hfail⟩
  · have hnone := hsilent.warnings_eq_nil writer start
    exact ⟨fun _ => hfail σ writer start, fun _ _ hwarned => by
      rw [Played.seen, hnone] at hwarned
      cases hwarned⟩
  · have hnone := hsilent.warnings_eq_nil writer start
    rw [Happening.play_append, Played.andThen, hfail]
    cases hrefusal : (Happening.play writer before start).refusal with
    | some refused =>
      -- The writer ends the run before the warning.
      refine ⟨fun _ => by simp [Played.seen, Played.ending, hrefusal], fun _ _ hwarned => ?_⟩
      simp only [Played.seen, hnone] at hwarned
      cases hwarned
    | none =>
      refine ⟨fun hwarned => ?_, fun found rest hwarned => ?_⟩
      · simp [Played.seen, Happening.play, Happening.playOne, Played.andThen] at hwarned
      · simp only [Played.seen, Happening.play, Happening.playOne, Played.andThen, hnone,
          List.nil_append, List.cons_append, List.cons.injEq] at hwarned
        obtain ⟨rfl, -⟩ := hwarned
        exact ⟨before, later, error, rfl, hsilent, herror, by
          simp [Played.seen, Played.ending, hrefusal, hnone]⟩

/-- A query that warns in its only item. -/
theorem failing_cuts_short_of_conditional :
    (ofSelect "SELECT count_agg(1)if(TRUE)else(1)".toList).Separable ∧
    ((ofSelect "SELECT count_agg(1)if(TRUE)else(1)".toList).seen .report Writer.recorder
      []).warnings = [.conditionalAggregate "count_agg"] ∧
    ((ofSelect "SELECT count_agg(1)if(TRUE)else(1)".toList).seen .fail Writer.recorder
      []).result = .error (.warning (.conditionalAggregate "count_agg")) := by
  have hselection : Selection.ofText [] "count_agg(1)if(TRUE)else(1)".toList =
      ⟨[.column "count_agg_1_if_TRUE_else_1" "count_agg(1)if(TRUE)else(1)"], false, false⟩ := by
    rw [Selection.ofText_of_plain [] (by decide) (by decide)]
    decide
  have hextract : LiteralTable.extract Placeholder.ofNumber
      "SELECT count_agg(1)if(TRUE)else(1)".toList =
        .ok ("SELECT count_agg(1)if(TRUE)else(1)".toList, []) :=
    eq_ok_of_toOption (by decide +kernel)
  have hquery := @query_ofSelect "SELECT count_agg(1)if(TRUE)else(1)".toList _
    "count_agg(1)if(TRUE)else(1)" hextract
    (eq_ok_of_toOption (by decide)) rfl hselection (by decide) .report
  have hseparable : (ofSelect "SELECT count_agg(1)if(TRUE)else(1)".toList).Separable := by
    intro query h
    rw [hquery] at h
    obtain rfl := Except.ok.inj h
    have hdot : '.' ∉ "count_agg(1)if(TRUE)else(1)".toList := by decide
    have hdash : '-' ∉ "count_agg(1)if(TRUE)else(1)".toList := by decide
    have hnested : Item.Nested
        (Selection.withoutModifiers "count_agg(1)if(TRUE)else(1)".toList) := by
      rw [Selection.withoutModifiers_of_plain (by decide) (by decide)]
      decide
    have hself := Selection.selfContained_expressions Placeholder.isWhole_ofNumber hextract
      ⟨by decide, fun _ _ h => absurd (h.subset List.mem_cons_self) hdot,
        fun _ _ h => absurd (h.subset List.mem_cons_self) hdash⟩ hnested
    rw [hselection] at hself
    exact separable_aggregating hself
  have hwarnings : ((ofSelect "SELECT count_agg(1)if(TRUE)else(1)".toList).seen .report
      Writer.recorder []).warnings = [.conditionalAggregate "count_agg"] := by
    have hnames : ((ofSelect "SELECT count_agg(1)if(TRUE)else(1)".toList).seen .report
        Writer.recorder []).warnings.map Warning.aggregate? = [some "count_agg"] := by
      rw [seen, hquery]
      decide +kernel
    exact Warning.eq_of_aggregate? hnames
  refine ⟨hseparable, hwarnings, ?_⟩
  obtain ⟨trace, result, -, hfail⟩ :=
    failing_cuts_short (ofSelect "SELECT count_agg(1)if(TRUE)else(1)".toList)
  obtain ⟨before, later, error, -, -, herror, hseen⟩ :=
    (hfail _ Writer.recorder []).2 _ _ hwarnings
  rw [hseen, herror hseparable]

/-- Two items that are expressions only in one go. Their warning is caught when it is an error, and
what fails is the first item by itself. -/
theorem failing_not_cut_short :
    ((ofSelect "SELECT (count_agg(1)if(TRUE)else(1) AS x),2),3".toList).seen .report
      Writer.recorder []).warnings = [.conditionalAggregate "count_agg"] ∧
    ∃ location text cause,
      ((ofSelect "SELECT (count_agg(1)if(TRUE)else(1) AS x),2),3".toList).seen .fail
        Writer.recorder []).result = .error (.compile location text cause) := by
  have hfirst : Selection.item [] "(count_agg(1)if(TRUE)else(1) AS x)".toList =
      .column "x)" "(count_agg(1)if(TRUE)else(1)" := by
    have hnamed := @Selection.item_named [] "(count_agg(1)if(TRUE)else(1)".toList ['x', ')']
      (by decide) (by decide)
    exact hnamed.trans (by decide)
  have hsecond : Selection.item [] "2),3".toList = .column "_2_3" "2),3" := by decide
  have hsplit : Item.split "(count_agg(1)if(TRUE)else(1) AS x),2),3".toList =
      ["(count_agg(1)if(TRUE)else(1) AS x)".toList, "2),3".toList] := by decide
  have hselection : Selection.ofText [] "(count_agg(1)if(TRUE)else(1) AS x),2),3".toList =
      ⟨[.column "x)" "(count_agg(1)if(TRUE)else(1)", .column "_2_3" "2),3"], false, false⟩ := by
    rw [Selection.ofText_of_plain [] (by decide) (by decide), hsplit, List.map_cons, List.map_cons,
      hfirst, hsecond, List.map_nil]
  have hquery := @query_ofSelect "SELECT (count_agg(1)if(TRUE)else(1) AS x),2),3".toList _
    "(count_agg(1)if(TRUE)else(1) AS x),2),3" (eq_ok_of_toOption (by decide +kernel))
    (eq_ok_of_toOption (by decide)) rfl hselection (by decide)
  constructor
  · have hnames : ((ofSelect "SELECT (count_agg(1)if(TRUE)else(1) AS x),2),3".toList).seen .report
        Writer.recorder []).warnings.map Warning.aggregate? = [some "count_agg"] := by
      rw [seen, hquery]
      decide +kernel
    exact Warning.eq_of_aggregate? hnames
  · have hcompile : Error.endsCompiling ((ofSelect
        "SELECT (count_agg(1)if(TRUE)else(1) AS x),2),3".toList).seen .fail
        Writer.recorder []).result = true := by
      rw [seen, hquery]
      decide +kernel
    exact Error.eq_of_endsCompiling hcompile

end Request

end StreamQuery
