import StreamQuery.Execution.Files
import StreamQuery.Proofs.Execution.Collecting
import StreamQuery.Proofs.Execution.RecasedRuns
import StreamQuery.Proofs.Execution.Request
import StreamQuery.Proofs.Query.RecasedTexts

/-!
# Outcomes of recased queries

Functions are called in any case of the letters of their names: writing a name in another case
changes nothing of how a query is read and run but the names of columns that have no other name.
The counts of `*` are the exception, whose names are only known in lower case.
-/

namespace StreamQuery

open Unicode Reporting

/-! ### Outputs -/

theorem OrderKey.Recased.admits_eq {key other : OrderKey} (h : key.Recased other) (index : Nat) :
    other.admits index = key.admits index := by
  obtain ⟨target, descending, nulls⟩ := key
  obtain ⟨otherTarget, otherDescending, otherNulls⟩ := other
  obtain ⟨-, rfl, rfl⟩ := h
  rfl

/-- Recased keys sort alike. -/
theorem sortFrom_recased {keys others : List OrderKey}
    (h : List.Forall₂ OrderKey.Recased keys others) (index : Nat) (records : List OutputRecord) :
    sortFrom index others records = sortFrom index keys records := by
  induction h generalizing index with
  | nil => rfl
  | cons hkey _ ih => rw [sortFrom, sortFrom, ih, hkey.admits_eq]

theorem Output.ofQuery_recased {query other : Query} (h : query.Recased other) :
    ofQuery other = (ofQuery query).orderedBy other.orderBy := by
  have hgroups : other.groups = query.groups := by
    rw [Query.groups, Query.groups, Query.isEmpty_eq h.groupBy]
  simp only [ofQuery, orderedBy, hgroups, Query.isEmpty_eq h.orderBy, h.limit, h.offset,
    h.distinct, h.partials]

/-! ### Constants -/

namespace Reporting

variable {α β γ : Type}

/-- Computations that agree have the same outcome from the same state. -/
theorem sameOutcome_of_agree {σ : Type} {left right : Stateful σ α}
    (h : Stateful.Agree Eq left right) (start : σ) :
    SameOutcome Eq (ExceptT.mk do return (← left.run.run start).1 : Reporting α)
      (ExceptT.mk do return (← right.run.run start).1) := by
  have hgives : ∀ {computation : Stateful σ α} {result : Except Error α} {after : σ},
      computation.Gives start result after →
        Reporting.Gives (ExceptT.mk do return (← computation.run.run start).1) result := by
    rintro computation result after ⟨raised, hgives⟩
    refine ⟨raised, fun before => ?_⟩
    have hbefore := hgives before
    unfold Stateful.outcome at hbefore
    change StateT.run (_ >>= _) before = _
    rw [StateT.run_bind, hbefore]
    rfl
  rcases h start start rfl with ⟨value, _, _, hleft, hright, -⟩ | ⟨_, _, _, _, hleft, hright⟩
  · exact ⟨_, _, hgives hleft, hgives hright, .ok rfl⟩
  · exact ⟨_, _, hgives hleft, hgives hright, .error trivial⟩

theorem sameOutcome_mapM {related : α → β → Prop} {f : α → Reporting γ} {g : β → Reporting γ}
    {items : List α} {others : List β} (h : List.Forall₂ related items others)
    (heach : ∀ item ∈ items, ∀ other, related item other → SameOutcome Eq (f item) (g other)) :
    SameOutcome Eq (items.mapM f) (others.mapM g) := by
  induction h with
  | nil => exact sameOutcome_pure rfl
  | cons hitem _ ih =>
    obtain ⟨hfirst, hrest⟩ := List.forall_mem_cons.mp heach
    rw [List.mapM_cons, List.mapM_cons]
    refine (hfirst _ hitem).bind ?_
    rintro first _ rfl
    refine (ih hrest).bind ?_
    rintro rest _ rfl
    exact sameOutcome_pure rfl

end Reporting

namespace Job

variable (job : Job) {other : Query} (h : job.query.Recased other) (hready : job.query.Ready)
include h hready

theorem sameOutcome_constant (clause : Clause) {text spelling : String}
    (hsame : SameExpression text spelling) (hreadable : job.query.literals.Readable text) :
    SameOutcome Eq (job.constant clause text)
      (({ job with query := other } : Job).constant clause spelling) := by
  have hrenamed := ColumnBindings.renamed_prepare hready.whole hready.proper hreadable hsame []
  rw [constant, constant, job.session_withQuery h.imports.symm]
  dsimp only
  rw [← h.literals]
  refine (Plan.sameOutcome_compileAt job.policy _ _ hrenamed).bind fun expr _ hcalls => ?_
  exact sameOutcome_of_agree (Scope.agree_evaluateAt_of_sameCalls _ ⟨clause, none⟩ hcalls) {}

/-- The rows of an expression in `FROM`. -/
theorem sameOutcome_source? :
    SameOutcome Eq job.source? ({ job with query := other } : Job).source? := by
  have hreadable := hready.readable
  have hsource := h.source
  rw [source?, source?]
  dsimp only
  generalize hquery : job.query.source = target, other.source = otherTarget at hsource
  cases hsource with
  | none => exact sameOutcome_pure rfl
  | some htarget =>
    cases htarget with
    | format => exact sameOutcome_pure rfl
    | expression hsame =>
      refine (job.sameOutcome_constant h hready .source hsame (hreadable _ ?_)).bind ?_
      · simp [Query.expressions, hquery, Target.expressions]
      · rintro value _ rfl
        exact sameOutcome_pure rfl

/-- The arguments of a call of a format. -/
theorem sameOutcome_arguments (clause : Clause) (defaults : List (String × Value))
    {call otherCall : FormatCall} (hcall : call.Recased otherCall)
    (hreadable : ∀ text ∈ (Target.format call).expressions, job.query.literals.Readable text) :
    SameOutcome Eq (job.arguments clause defaults call)
      (({ job with query := other } : Job).arguments clause defaults otherCall) := by
  rw [Target.expressions, List.forall_mem_append] at hreadable
  refine (sameOutcome_mapM hcall.arguments fun text htext _ hsame =>
    job.sameOutcome_constant h hready clause hsame (hreadable.1 text htext)).bind ?_
  rintro positional _ rfl
  refine (sameOutcome_mapM hcall.options ?_).bind ?_
  · rintro ⟨name, text⟩ hentry ⟨_, spelling⟩ ⟨rfl, hsame⟩
    refine (job.sameOutcome_constant h hready clause hsame
      (hreadable.2 text (List.mem_map_of_mem hentry))).bind ?_
    rintro value _ rfl
    exact sameOutcome_pure rfl
  · rintro options _ rfl
    exact sameOutcome_pure rfl

/-- Runs from the same source, whose writers take their events alike. -/
theorem alike_run {σ : Type} {related : σ → σ → Prop} (writer : Writer σ)
    (hwriter : writer.TakesAlike related job.query.selection.items other.selection.items)
    {start otherStart : σ} (hstart : related start otherStart) (source : Source) :
    Alike (fun _ _ => True) Eq (job.run writer start source).1
        (({ job with query := other } : Job).run writer otherStart source).1 ∧
      ∀ stats, (job.run writer start source).1 = .ok stats →
        related (job.run writer start source).2.1.writer
          (({ job with query := other } : Job).run writer otherStart source).2.1.writer := by
  have hstates : Alongside related job.query.orderBy other.orderBy (job.initial start)
      (({ job with query := other } : Job).initial otherStart) := by
    refine ⟨rfl, otherStart, hstart, ?_⟩
    rw [initial, initial, Output.ofQuery_recased h]
  rcases job.agree_runAll h hready writer hwriter source (fun records =>
    sortFrom_recased h.orderBy 0 records) _ _ hstates with
    ⟨stats, last, otherLast, hgives, hother, hlast⟩ | ⟨_, _, _, _, hgives, hother⟩
  · obtain ⟨hresult, hstate⟩ := job.run_of_gives hgives
    obtain ⟨hotherResult, hotherState⟩ := ({ job with query := other } : Job).run_of_gives hother
    obtain ⟨-, written, hwritten, rfl⟩ := hlast
    rw [hresult, hstate, hotherResult, hotherState]
    exact ⟨.ok rfl, fun _ _ => hwritten⟩
  · obtain ⟨hresult, -⟩ := job.run_of_gives hgives
    obtain ⟨hotherResult, -⟩ := ({ job with query := other } : Job).run_of_gives hother
    rw [hresult, hotherResult]
    exact ⟨.error trivial, fun _ hstats => by cases hstats⟩

end Job

/-! ### Reading and running -/

/-- The row of an event. -/
def Event.row? : Event → Option (List Value)
  | .header _ => none
  | .row values => some values
  | .flush => none

/-- A writer that keeps all events sees the same rows. -/
theorem Writer.takesAlike_recorder (items others : List SelectItem) :
    Writer.recorder.TakesAlike
      (fun events found => events.filterMap Event.row? = found.filterMap Event.row?) items
      others where
  row values _ _ h := .taken (congrArg (values :: ·) h)
  flush _ _ h := .taken h
  header _ _ _ h := .taken h

/-- Two queries are run alike: they are the same but for the spelling of what they call, their
sources and the arguments of their formats are the same, and from the same source they have the
same statistics and write the same rows, or both fail. -/
structure Query.RunsAlike (policy : WarningPolicy) (query other : Query) : Prop where
  recased : query.Recased other
  sources : ∀ vars clock, SameOutcome Eq (Job.source? ⟨query, vars, policy, clock⟩)
    (Job.source? ⟨other, vars, policy, clock⟩)
  arguments : ∀ vars clock clause defaults call otherCall,
    query.source = some (.format call) ∧ other.source = some (.format otherCall) ∨
      query.target = .format call ∧ other.target = .format otherCall →
    SameOutcome Eq (Job.arguments ⟨query, vars, policy, clock⟩ clause defaults call)
      (Job.arguments ⟨other, vars, policy, clock⟩ clause defaults otherCall)
  runs : ∀ vars clock (σ : Type) (writer : Writer σ) (related : σ → σ → Prop) start otherStart
    source, writer.TakesAlike related query.selection.items other.selection.items →
    related start otherStart →
    Alike (fun _ _ => True) Eq (Job.run ⟨query, vars, policy, clock⟩ writer start source).1
        (Job.run ⟨other, vars, policy, clock⟩ writer otherStart source).1 ∧
      ∀ stats, (Job.run ⟨query, vars, policy, clock⟩ writer start source).1 = .ok stats →
        related (Job.run ⟨query, vars, policy, clock⟩ writer start source).2.1.writer
          (Job.run ⟨other, vars, policy, clock⟩ writer otherStart source).2.1.writer
  rows : ∀ vars clock source stats,
    (Job.run ⟨query, vars, policy, clock⟩ Writer.recorder [] source).1 = .ok stats →
    (Job.run ⟨query, vars, policy, clock⟩ Writer.recorder [] source).2.1.writer.filterMap
        Event.row? =
      (Job.run ⟨other, vars, policy, clock⟩ Writer.recorder [] source).2.1.writer.filterMap
        Event.row?

namespace Query

theorem Recased.runsAlike {query other : Query} (h : query.Recased other) (hready : query.Ready)
    (policy : WarningPolicy) : query.RunsAlike policy other where
  recased := h
  sources vars clock := Job.sameOutcome_source? ⟨query, vars, policy, clock⟩ h hready
  arguments vars clock clause defaults call otherCall hcalls := by
    have hreadable := hready.readable
    simp only [expressions, List.mem_append, or_imp, forall_and] at hreadable
    obtain ⟨⟨-, hsource⟩, htarget⟩ := hreadable
    rcases hcalls with ⟨hquery, hother⟩ | ⟨hquery, hother⟩
    · have hrecased := h.source
      rw [hquery, hother] at hrecased
      obtain ⟨⟨hcall⟩⟩ := hrecased
      exact Job.sameOutcome_arguments ⟨query, vars, policy, clock⟩ h hready clause defaults hcall
        fun text htext => hsource text (by simpa [hquery] using htext)
    · have hrecased := h.target
      rw [hquery, hother] at hrecased
      obtain ⟨hcall⟩ := hrecased
      exact Job.sameOutcome_arguments ⟨query, vars, policy, clock⟩ h hready clause defaults hcall
        fun text htext => htarget text (hquery ▸ htext)
  runs vars clock σ writer related start otherStart source hwriter hstart :=
    Job.alike_run ⟨query, vars, policy, clock⟩ h hready writer hwriter hstart source
  rows vars clock source stats hstats :=
    (Job.alike_run ⟨query, vars, policy, clock⟩ h hready Writer.recorder
      (Writer.takesAlike_recorder _ _) rfl source).2 stats hstats

/-- Function names are case-insensitive, except those of counts of `*`. A query and the same query
with another spelling of a function that it calls are read to queries that are the same but for the
spelling of what they call and the names of columns that have no other name, or neither is read.
They are run alike, unless shorthand takes a literal for a part of a name. -/
theorem names_fold_case {text other : List Char} (h : RecasedText text other)
    {name : Nat → List Char} (hnames : ∀ index, Placeholder.isWhole (name index) = true)
    (policy : WarningPolicy) (defaultTarget : String) :
    Agree (fun _ _ => True) Query.Recased
        (parseWith name policy defaultTarget (String.ofList text))
        (parseWith name policy defaultTarget (String.ofList other)) ∧
      ∀ rewritten table, LiteralTable.extract name text = .ok (rewritten, table) →
        table.Fits text → LiteralTable.takesLiteral text = false →
        Agree (fun _ _ => True) (RunsAlike policy)
          (parseWith name policy defaultTarget (String.ofList text))
          (parseWith name policy defaultTarget (String.ofList other)) := by
  have hagree := agree_parseWith_recased h hnames policy defaultTarget
  refine ⟨hagree, fun rewritten table hextract hfits htakes => ?_⟩
  have hproper := LiteralTable.proper_of_extract hextract
  refine hagree.mono_of_yields (yields_parseWith hextract hfits htakes policy defaultTarget)
    fun query otherQuery hrecased hquery => ?_
  obtain ⟨rfl, hreadable⟩ := hquery
  exact hrecased.runsAlike ⟨hfits.whole, hproper, hreadable⟩ policy

/-- A count behind a literal whose parenthesis stands behind a comment with a star. -/
theorem names_fold_case_of_count :
    ∃ text other rewritten table, RecasedText text other ∧
      (∀ index, Placeholder.isWhole (Placeholder.ofNumber index) = true) ∧
      LiteralTable.extract Placeholder.ofNumber text = .ok (rewritten, table) ∧
      table.Fits text ∧ LiteralTable.takesLiteral text = false ∧
      ((parseWith Placeholder.ofNumber .report "JSON" (String.ofList text)).run.run []).1.isOk =
        true ∧
      Agree (fun _ _ => True) (RunsAlike .report)
        (parseWith Placeholder.ofNumber .report "JSON" (String.ofList text))
        (parseWith Placeholder.ofNumber .report "JSON" (String.ofList other)) := by
  have hscan : Piece.scan "SELECT 'b'.upper(), count_agg # of (*)\n (col1) AS m".toList =
      .ok (Piece.plains "SELECT ".toList ++ [.literal ⟨'\'', ['b']⟩] ++
        Piece.plains ".upper(), ".toList ++ Piece.plains "count_agg".toList ++
        Piece.plains " # of (*)\n (col1) AS m".toList) :=
    eq_ok_of_toOption (by decide +kernel)
  obtain ⟨htext, hscanned⟩ := Piece.textOf_of_scan hscan
  have hname : SameFunction "count_agg".toList "Count_AGG".toList :=
    ⟨by decide, by decide⟩
  have hcalled : Piece.CalledBetween
      (Piece.plains "SELECT ".toList ++ [.literal ⟨'\'', ['b']⟩] ++
        Piece.plains ".upper(), ".toList) "count_agg".toList
      (Piece.plains " # of (*)\n (col1) AS m".toList) :=
    ⟨by decide, by decide, by decide,
      fun _ _ => by unfold TakesStar; decide⟩
  have hrecased := RecasedText.called hscanned hname hcalled
  rw [htext] at hrecased
  have hextract : LiteralTable.extract Placeholder.ofNumber
      "SELECT 'b'.upper(), count_agg # of (*)\n (col1) AS m".toList =
        .ok ("SELECT __aaaaaaaaaaaa__.upper(), count_agg # of (*)\n (col1) AS m".toList,
          [("__aaaaaaaaaaaa__".toList, ⟨'\'', ['b']⟩)]) :=
    eq_ok_of_toOption (by decide +kernel)
  refine ⟨_, _, _, _, hrecased, Placeholder.isWhole_ofNumber, hextract, ?fits, ?takes,
    by decide +kernel, (names_fold_case hrecased Placeholder.isWhole_ofNumber .report "JSON").2 _ _
      hextract ?fits ?takes⟩
  all_goals decide +kernel

end Query

/-- A request to count the rows of an input by a function of a name. -/
def Request.counting (name : List Char) : Request where
  name := Placeholder.ofNumber
  defaultTarget := "JSON"
  text := String.ofList ("SELECT ".toList ++ name ++ "(*) AS n".toList)
  source := .ofRows [[.bool true], [.bool false]]

/-- Counts of `*` are only known in lower case: another case of the letters of the name is an error
of the whole query. -/
theorem names_not_fold_case :
    ∃ name spelling, SameFunction name spelling ∧
      ((Request.counting name).seen .report Writer.recorder []).result.toOption = some ⟨2, 1⟩ ∧
      ((Request.counting spelling).seen .report Writer.recorder []).result.isOk = false :=
  ⟨"count_agg".toList, "COUNT_AGG".toList,
    ⟨by decide +kernel, by decide +kernel⟩, by decide +kernel,
    by decide +kernel⟩

end StreamQuery
