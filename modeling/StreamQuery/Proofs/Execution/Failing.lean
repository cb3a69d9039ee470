import StreamQuery.Proofs.Execution.Compiling
import StreamQuery.Proofs.Execution.Happening
import StreamQuery.Proofs.Execution.Row

/-!
# Warnings as errors

Where warnings are errors, a query does what it does where they are reported, until the first
warning; then it fails with that warning. Nothing on the way catches it: not the attempt to compile
a clause in one go, and not the errors that tell where an expression failed.
-/

namespace StreamQuery

open Reporting

/-! ### Compiling -/

namespace Expr

/-- If texts, joined, are expressions that call aggregates for some rows only, each text is an
expression by itself. -/
def Separable (texts : List String) : Prop :=
  ∀ exprs, parseList (", ".intercalate texts) = .ok exprs →
    exprs.flatMap conditionalAggregates ≠ [] → ∀ text ∈ texts, ∃ expr, parse text = .ok expr

theorem separable_of_selfContained {texts : List String}
    (h : ∀ text ∈ texts, SelfContained text.toList) : Separable texts := by
  intro exprs hparse _ text htext
  exact exists_of_forall₂ ((parseList_intercalate (List.ne_nil_of_mem htext) h).mp hparse) text htext

section Raising

variable {α : Type} {about : α → List Warning}

theorem cuts_raising (holds : Prop) (parsed : Except SyntaxFault α) :
    Cuts holds (raising .report about parsed) (raising .fail about parsed) := by
  cases parsed with
  | error fault => exact cuts_throw _
  | ok value => exact (cuts_raiseAll _).bind fun _ => cuts_pure value

theorem run_raising_report (value : α) (before : List Warning) :
    (raising .report about (.ok value)).run.run before =
      (.ok value, (about value).reverse ++ before) := by
  unfold raising
  dsimp only
  rw [run_bind, run_raiseAll_report]
  rfl

theorem run_raising_fail (value : α) (before : List Warning) :
    (raising .fail about (.ok value)).run.run before =
      match about value with
      | [] => (.ok value, before)
      | first :: _ => (.error (.warning first), before) := by
  unfold raising
  dsimp only
  rw [run_bind, run_raiseAll_fail]
  cases about value <;> rfl

end Raising

theorem cuts_compile (holds : Prop) (text : String) :
    Cuts holds (compile .report text) (compile .fail text) := by
  rw [compile_eq, compile_eq]
  exact cuts_raising holds _

theorem run_compileList_report {text : String} {exprs : List Expr} (h : parseList text = .ok exprs)
    (before : List Warning) :
    (compileList .report text).run.run before = (.ok exprs, (warnings exprs).reverse ++ before) := by
  rw [compileList_eq, h]
  exact run_raising_report exprs before

theorem run_compileList_fail {text : String} {exprs : List Expr} (h : parseList text = .ok exprs)
    (before : List Warning) :
    (compileList .fail text).run.run before =
      match warnings exprs with
      | [] => (.ok exprs, before)
      | first :: _ => (.error (.warning first), before) := by
  rw [compileList_eq, h]
  exact run_raising_fail exprs before

theorem run_compile_fail {text : String} {expr : Expr} (h : parse text = .ok expr)
    (before : List Warning) :
    (compile .fail text).run.run before =
      match warnings [expr] with
      | [] => (.ok expr, before)
      | first :: _ => (.error (.warning first), before) := by
  rw [compile_eq, h]
  exact run_raising_fail expr before

end Expr

namespace Plan

variable {holds : Prop} {clause : Clause} {items : List (Nat × String)}

theorem run_compileAt (policy : WarningPolicy) (location : Location) (text : String)
    (before : List Warning) :
    (compileAt policy location text).run.run before =
      (((Expr.compile policy text).run.run before).1.mapError (compileError location text),
        ((Expr.compile policy text).run.run before).2) := by
  unfold compileAt
  rw [run_bind, run_attempt]
  dsimp only
  cases ((Expr.compile policy text).run.run before).1 <;> rfl

theorem cuts_compileAt (location : Location) (text : String) :
    Cuts holds (compileAt .report location text) (compileAt .fail location text) :=
  (Expr.cuts_compile holds text).rethrow (fun _ => rfl) (run_compileAt _ _ _) (run_compileAt _ _ _)

theorem cuts_compileEach (clause : Clause) (items : List (Nat × String)) :
    Cuts holds (compileEach .report clause items) (compileEach .fail clause items) := by
  induction items with
  | nil => exact cuts_pure []
  | cons item rest ih =>
    exact (cuts_compileAt _ _).bind fun _ => ih.bind fun _ => cuts_pure _

/-- Items that are expressions, compiled one by one where warnings are errors. -/
theorem run_compileEach_fail {exprs : List Expr}
    (h : List.Forall₂ (fun item expr => Expr.parse item.2 = .ok expr) items exprs)
    (before : List Warning) :
    (compileEach .fail clause items).run.run before =
      match Expr.warnings exprs with
      | [] => (.ok exprs, before)
      | first :: _ => (.error (.warning first), before) := by
  induction h with
  | nil => rfl
  | @cons item expr rest exprs hitem _ ih =>
    have hsplit : Expr.warnings (expr :: exprs) = Expr.warnings [expr] ++ Expr.warnings exprs := by
      simp [Expr.warnings]
    rw [hsplit]
    unfold compileEach
    rw [run_bind, run_compileAt, Expr.run_compile_fail hitem]
    cases Expr.warnings [expr] with
    | cons first more => rfl
    | nil =>
      dsimp only [Except.mapError, List.nil_append]
      rw [run_bind, ih]
      cases Expr.warnings exprs <;> rfl

theorem run_compileList (policy : WarningPolicy) (hne : items ≠ []) (before : List Warning) :
    (compileList policy clause items).run.run before =
      match (Expr.compileList policy (", ".intercalate (items.map (·.2)))).run.run before with
      | (.ok exprs, raised) =>
        (if exprs.length = items.length then pure exprs
          else compileEach policy clause items).run.run raised
      | (.error error, raised) =>
        (compileEach policy clause items >>= fun _ => throw (compileError ⟨clause, none⟩
          (", ".intercalate (items.map (·.2))) error)).run.run raised := by
  unfold compileList
  rw [if_neg (by simpa using hne), run_bind, run_attempt]
  rcases (Expr.compileList policy _).run.run before with ⟨_ | _, _⟩ <;> rfl

/-- Items that warn in one go are the expressions found there, so one by one they fail with the
first warning. -/
theorem run_compileEach_of_separable (hseparable : Expr.Separable (items.map (·.2)))
    (hne : items ≠ []) {exprs : List Expr} {first : Warning} {rest : List Warning}
    (hjoined : Expr.parseList (", ".intercalate (items.map (·.2))) = .ok exprs)
    (hwarns : Expr.warnings exprs = first :: rest) (before : List Warning) :
    (compileEach .fail clause items).run.run before = (.error (.warning first), before) := by
  have hwarned : exprs.flatMap Expr.conditionalAggregates ≠ [] := by
    rintro hnil
    simp [Expr.warnings, hnil] at hwarns
  have hitems : ∀ item ∈ items, ∃ expr, Expr.parse item.2 = .ok expr := fun item hitem =>
    hseparable exprs hjoined hwarned item.2 (List.mem_map_of_mem hitem)
  choose! parsed hparsed using hitems
  have hothers : List.Forall₂ (fun item expr => Expr.parse item.2 = .ok expr) items
      (items.map parsed) :=
    List.forall₂_map_right_iff.mpr (List.forall₂_same.mpr hparsed)
  have hsame := Expr.parseList_of_each (by simpa using hne)
    (List.forall₂_map_left_iff.mpr hothers)
  obtain rfl := Except.ok.inj (hjoined.symm.trans hsame)
  rw [run_compileEach_fail hothers, hwarns]

/-- A clause is compiled in one go where warnings are errors as it is where they are reported, given
that its items are expressions by themselves if they warn. Else the warning is caught, and a part of
an item may be what fails. -/
theorem cuts_compileList (hseparable : holds → Expr.Separable (items.map (·.2))) :
    Cuts holds (compileList .report clause items) (compileList .fail clause items) := by
  rcases eq_or_ne items [] with rfl | hne
  · exact cuts_pure []
  have heach := @cuts_compileEach holds clause items
  cases hjoined : Expr.parseList (", ".intercalate (items.map (·.2))) with
  | error fault =>
    -- The joined text is no list of expressions, so that the items are compiled one by one.
    have hjoint : ∀ policy before,
        (Expr.compileList policy (", ".intercalate (items.map (·.2)))).run.run before =
          (.error (.syntaxFault fault), before) := by
      intro policy before
      rw [Expr.compileList_eq, hjoined]
      rfl
    have hthrow := heach.bind fun _ => @cuts_throw (List Expr) holds
      (compileError ⟨clause, none⟩ (", ".intercalate (items.map (·.2))) (.syntaxFault fault))
    refine hthrow.of_run (fun before => ?_) fun before => ?_
    all_goals rw [run_compileList _ hne, hjoint]
  | ok exprs =>
    have hnext : Cuts holds
        (if exprs.length = items.length then pure exprs else compileEach .report clause items)
        (if exprs.length = items.length then pure exprs else compileEach .fail clause items) := by
      split
      · exact cuts_pure exprs
      · exact heach
    cases hwarns : Expr.warnings exprs with
    | nil =>
      refine hnext.of_run (fun before => ?_) fun before => ?_
      · rw [run_compileList _ hne, Expr.run_compileList_report hjoined, hwarns]
        rfl
      · rw [run_compileList _ hne, Expr.run_compileList_fail hjoined, hwarns]
    | cons first rest =>
      -- Where warnings are reported, they are raised before the items are counted.
      obtain ⟨result, raised, hnext, -⟩ := hnext
      refine ⟨result, first :: rest ++ raised, fun before => ?_, ?_⟩
      · rw [run_compileList _ hne, Expr.run_compileList_report hjoined, hwarns]
        simp only [hnext, List.reverse_append, List.append_assoc]
      -- Where they are errors, the first of them is caught like any other error.
      · have hcaught : ∀ before, (compileList .fail clause items).run.run before =
            (compileEach .fail clause items >>= fun _ => throw (.warning first)).run.run before :=
          fun before => by
            rw [run_compileList _ hne, Expr.run_compileList_fail hjoined, hwarns]
            rfl
        obtain ⟨found, hfound⟩ := heach.run_cut
        cases found with
        | ok exprs =>
          exact ⟨.warning first, fun _ => rfl, fun before => by rw [hcaught, run_bind, hfound]; rfl⟩
        | error error =>
          refine ⟨error, fun h => ?_, fun before => by rw [hcaught, run_bind, hfound]⟩
          have hagain := @run_compileEach_of_separable clause _ (hseparable h) hne _ _ _ hjoined hwarns []
          exact Except.error.inj (congrArg Prod.fst ((hfound []).symm.trans hagain))

theorem cuts_compileClause {prepare : String → String} {texts : List (Option String)}
    (hseparable : holds → Expr.Separable ((texts.filterMap id).map prepare)) :
    Cuts holds (compileClause .report clause prepare texts)
      (compileClause .fail clause prepare texts) := by
  refine cuts_compileList fun h => ?_
  have hprepared := hseparable h
  rw [← map_numbered 1 texts, List.map_map] at hprepared
  rwa [List.map_map]

theorem cuts_compileOptional (clause : Clause) (prepare : String → String) (text : Option String) :
    Cuts holds (compileOptional .report clause prepare text)
      (compileOptional .fail clause prepare text) := by
  cases text with
  | none => exact cuts_pure none
  | some text => exact (cuts_compileAt _ _).map some

end Plan

namespace Query

/-- The texts of the clauses that are lists of expressions. -/
def listedTexts (query : Query) : List (List String) :=
  [query.selection.items.filterMap Plan.itemText?, query.groupBy,
    query.orderBy.filterMap Plan.keyText?]

/-- In every clause that is a list of expressions, and for all columns, each item is an expression
by itself if the clause warns. -/
def Separable (query : Query) : Prop :=
  ∀ texts ∈ query.listedTexts, ∀ bindings : ColumnBindings,
    Expr.Separable (texts.map (bindings.prepare query.literals))

end Query

theorem Plan.cuts_ofQuery (query : Query) (bindings : ColumnBindings) :
    Cuts query.Separable (ofQuery .report query bindings) (ofQuery .fail query bindings) := by
  have hclause : ∀ clause (texts : List (Option String)), texts.filterMap id ∈ query.listedTexts →
      Cuts query.Separable
        (compileClause .report clause (bindings.prepare query.literals) texts)
        (compileClause .fail clause (bindings.prepare query.literals) texts) :=
    fun clause texts htexts => cuts_compileClause fun h => h _ htexts bindings
  refine (hclause .select _ (by simp [Query.listedTexts, List.filterMap_map])).bind fun items => ?_
  refine (cuts_compileOptional _ _ _).bind fun explode => ?_
  refine (cuts_compileOptional _ _ _).bind fun condition => ?_
  refine (hclause .groupBy _ (by simp [Query.listedTexts, List.filterMap_map])).bind
    fun groupBy => ?_
  refine (hclause .orderBy _ (by simp [Query.listedTexts, List.filterMap_map])).bind
    fun orderBy => ?_
  exact cuts_pure _

/-! ### Reading a query -/

namespace Query

variable {holds : Prop}

theorem cuts_optional {α : Type} (text : Option String) {read : List Char → Reporting α}
    (h : ∀ text, Cuts holds (read text) (read text)) :
    Cuts holds (optional text read) (optional text read) := by
  cases text with
  | none => exact cuts_pure none
  | some text => exact (h _).map some

/-- Reading a query only raises one warning, and catches none. -/
theorem cuts_ofStructure (defaultTarget : String) (rewritten : List Char) (literals : LiteralTable)
    (clauses : QueryStructure) :
    Cuts holds (ofStructure .report defaultTarget rewritten literals clauses)
      (ofStructure .fail defaultTarget rewritten literals clauses) := by
  unfold ofStructure
  refine (cuts_optional _ fun _ => cuts_certain _).bind fun imports => ?_
  refine (cuts_optional _ fun _ => (cuts_certain _).bind fun _ => cuts_pure _).bind
    fun source => ?_
  refine (cuts_optional _ fun _ => (cuts_certain _).bind fun _ => cuts_pure _).bind
    fun condition => ?_
  refine (cuts_optional _ fun _ => cuts_certain _).bind fun orderBy => ?_
  dsimp only
  cases clauses.nonEmpty? .groupBy with
  | some text =>
    dsimp only
    refine (cuts_certain _).bind fun groupBy => ?_
    split
    · exact (cuts_throw _).bind fun _ => cuts_pure _
    · exact cuts_pure _
  | none =>
    dsimp only
    split
    · refine (cuts_pure _).bind fun groupBy => ?_
      split
      · exact (cuts_throw _).bind fun _ => cuts_pure _
      · exact cuts_pure _
    · split
      · refine (cuts_raise _).bind fun _ => (cuts_pure _).bind fun groupBy => ?_
        split
        · exact (cuts_throw _).bind fun _ => cuts_pure _
        · exact cuts_pure _
      · refine (cuts_pure _).bind fun groupBy => ?_
        split
        · exact (cuts_throw _).bind fun _ => cuts_pure _
        · exact cuts_pure _

theorem cuts_parseWith (name : Nat → List Char) (defaultTarget text : String) :
    Cuts holds (parseWith name .report defaultTarget text)
      (parseWith name .fail defaultTarget text) :=
  (cuts_certain _).bind fun _ => (cuts_certain _).bind fun _ => cuts_ofStructure _ _ _ _

end Query

/-! ### Rows -/

theorem Scope.sameInput_failing (scope : Scope) : scope.SameInput scope.failing :=
  ⟨rfl, rfl, rfl⟩

section Rows

variable {scope : Scope} (hpolicy : scope.session.policy = .report)
include hpolicy

theorem Scope.evaluates_failing (expr : Expr) :
    (Congruence.cutting Aggregates).Evaluates scope scope.failing expr :=
  fun _ => (cuts_evaluate hpolicy expr).mapError fun _ => rfl

namespace Plan

theorem cuts_spread (plan : Plan) :
    Stateful.Cuts (plan.spread scope) (plan.spread scope.failing) :=
  (Congruence.cutting Aggregates).relates_spread scope.sameInput_failing
    fun expr _ => Scope.evaluates_failing hpolicy expr

theorem cuts_keeps (plan : Plan) :
    Stateful.Cuts (plan.keeps scope) (plan.keeps scope.failing) :=
  (Congruence.cutting Aggregates).relates_keeps fun expr _ => Scope.evaluates_failing hpolicy expr

theorem cuts_record (plan : Plan) :
    Stateful.Cuts (plan.record scope) (plan.record scope.failing) :=
  (Congruence.cutting Aggregates).relates_record scope.sameInput_failing
    (fun expr _ => Scope.evaluates_failing hpolicy expr) (fun _ => Stateful.cuts_modify _)
    fun expr _ => Scope.evaluates_failing hpolicy expr

end Plan

end Rows

/-! ### Steps of a run -/

namespace Job

variable {holds : Prop} {job : Job}

/-- The same job where warnings are errors. -/
def failing (job : Job) : Job :=
  { job with policy := .fail }

theorem cuts_writeRows (rows : List (List Value)) :
    Cuts holds (fun _ writer => writeRows writer rows) fun _ writer => writeRows writer rows := by
  induction rows with
  | nil => exact cuts_pure ()
  | cons values rest ih => exact (cuts_write _).bind fun _ => ih

section Report

variable (hpolicy : job.policy = .report)
include hpolicy

theorem cuts_take (pull : Pull) :
    Cuts holds (fun _ _ => job.take pull) fun _ _ => job.failing.take pull := by
  have hraise : Reporting.Cuts holds (raiseAll job.policy pull.warnings)
      (raiseAll job.failing.policy pull.warnings) := hpolicy ▸ Reporting.cuts_raiseAll _
  unfold take
  cases pull.result with
  | ok record =>
    exact (cuts_ofReporting hraise).bind fun _ => cuts_counting.bind fun _ => cuts_pure record
  | error error => exact (cuts_ofReporting hraise).bind fun _ => cuts_throw error

theorem cuts_handleRow (plan : Plan) (names : List String) (values : List Value) :
    Cuts holds (fun _ writer => job.handleRow writer plan names values)
      fun _ writer => job.failing.handleRow writer plan names values := by
  have hscope : ∀ state : RunState Unit,
      (job.scope names values state).session.policy = .report := fun _ => hpolicy
  refine fun state => CutsAt.get ?_
  simp only [scope_withWriter]
  refine (cuts_evaluating (Plan.cuts_keeps (hscope state) plan) state).bind fun kept => ?_
  cases kept with
  | false => exact cuts_pure false
  | true =>
    refine (cuts_modify (fun _ _ _ => rfl) fun _ => rfl).bind fun _ state => CutsAt.get ?_
    simp only [scope_withWriter]
    refine (cuts_evaluating (Plan.cuts_record (hscope state) plan) state).bind fun record state =>
      CutsAt.get ?_
    simp only [RunState.output_withWriter]
    rcases state.output.handle record with ⟨rows, output⟩
    refine (@cutsAt_set _ state { state with output := output } rfl).bind fun _ => ?_
    exact (cuts_writeRows rows).bind fun _ => cuts_pure output.isFull

theorem cuts_handleRows (plan : Plan) (names : List String) (rows : List (List Value)) :
    Cuts holds (fun _ writer => job.handleRows writer plan names rows)
      fun _ writer => job.failing.handleRows writer plan names rows := by
  induction rows with
  | nil => exact cuts_pure false
  | cons values rest ih =>
    refine (cuts_handleRow hpolicy plan names values).bind fun full => ?_
    cases full with
    | false => exact ih
    | true => exact cuts_pure true

theorem cuts_handleInput (plan : Plan) (names : List String) (values : List Value) :
    Cuts holds (fun _ writer => job.handleInput writer plan names values)
      fun _ writer => job.failing.handleInput writer plan names values := by
  refine (cuts_modify (fun _ _ _ => rfl) fun _ => rfl).bind fun _ state => CutsAt.get ?_
  simp only [scope_withWriter]
  have hscope : (job.scope names values state).session.policy = .report := hpolicy
  exact (cuts_evaluating (Plan.cuts_spread hscope plan) state).bind fun rows =>
    cuts_handleRows hpolicy plan names rows

theorem cuts_consumeRows (plan : Plan) (names : List String) (source : Source) :
    Cuts holds (fun _ writer => job.consumeRows writer plan names source)
      fun _ writer => job.failing.consumeRows writer plan names source := by
  induction source with
  | nil => exact cuts_pure ()
  | cons pull rest ih =>
    refine (cuts_take hpolicy pull).bind fun record => ?_
    cases record with
    | header _ => exact ih
    | row values =>
      refine (cuts_handleInput hpolicy plan names values).bind fun full => ?_
      cases full with
      | false => exact ih
      | true => exact cuts_pure ()

theorem cuts_consume (declared : List String) (source : Source) :
    Cuts job.query.Separable (fun _ writer => job.consume writer declared source)
      fun _ writer => job.failing.consume writer declared source := by
  induction source generalizing declared with
  | nil => exact cuts_write _
  | cons pull rest ih =>
    refine (cuts_take hpolicy pull).bind fun record => ?_
    cases record with
    | header names => exact ih names
    | row values =>
      refine (cuts_write _).bind fun _ state => CutsAt.get ?_
      simp only [RunState.output_withWriter]
      by_cases hdone : state.output.isDone = true
      · simp only [hdone, ↓reduceIte]
        exact cuts_pure () state
      · simp only [hdone]
        have hplan : Reporting.Cuts job.query.Separable
            (Plan.ofQuery job.policy job.query (.ofDeclared values.length declared))
            (Plan.ofQuery job.failing.policy job.query (.ofDeclared values.length declared)) :=
          hpolicy ▸ Plan.cuts_ofQuery _ _
        refine (cuts_ofReporting hplan state).bind fun plan => ?_
        refine (cuts_handleInput hpolicy plan _ values).bind fun full => ?_
        cases full with
        | false => exact cuts_consumeRows hpolicy plan _ rest
        | true => exact cuts_pure ()

/-- A run is cut short at its first warning. -/
theorem cuts_runAll (source : Source) :
    Cuts job.query.Separable (fun _ writer => job.runAll writer source)
      fun _ writer => job.failing.runAll writer source := by
  refine (cuts_consume hpolicy [] source).bind fun _ state => CutsAt.get ?_
  simp only [RunState.output_withWriter]
  rcases state.output.finish with ⟨rows, output⟩
  refine (@cutsAt_set _ state { state with output := output } rfl).bind fun _ => ?_
  refine (cuts_writeRows rows).bind fun _ => (cuts_write _).bind fun _ state => CutsAt.get ?_
  simp only [RunState.output_withWriter, RunState.inputRowNumber_withWriter]
  exact cuts_pure _ state

end Report

end Job

end StreamQuery
