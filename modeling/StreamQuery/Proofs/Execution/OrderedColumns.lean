import StreamQuery.Proofs.Execution.Compiling
import StreamQuery.Proofs.Execution.Interleaving
import StreamQuery.Proofs.Execution.SideBySide

/-!
# Ordering by numbered columns

A number in `ORDER BY` stands for an output column: a run with the number and one with the
expression of the column write the same rows, or fail alike. This takes expressions that close only
brackets they have opened, as one more of them may else change what the others compile to.
-/

namespace StreamQuery

open Stateful Reporting

/-! ### One more key among those of a clause -/

namespace Plan

section Insert

variable {policy : WarningPolicy} (clause : Clause)

theorem numbered_append (position : Nat) (texts more : List (Option String)) :
    numbered position (texts ++ more) =
      numbered position texts ++ numbered (position + texts.length) more := by
  induction texts generalizing position with
  | nil => rfl
  | cons text rest ih =>
    have hposition : position + 1 + rest.length = position + (text :: rest).length := by
      simp only [List.length_cons]
      omega
    cases text <;> simp only [List.cons_append, numbered, ih, hposition]

theorem compileEach_append (items more : List (Nat × String)) :
    compileEach policy clause (items ++ more) = (do
      let exprs ← compileEach policy clause items
      return exprs ++ (← compileEach policy clause more)) := by
  induction items with
  | nil => simp [compileEach]
  | cons item rest ih =>
    simp only [List.cons_append, compileEach, ih, bind_assoc, pure_bind]

/-- One more item that compiles makes no difference to the others. -/
theorem compileEach_insert (items more : List (Nat × String)) {item : Nat × String} {expr : Expr}
    (hexpr : (Expr.compile policy item.2).Gives (.ok expr)) :
    (∃ error, (compileEach policy clause (items ++ more)).Gives (.error error) ∧
      (compileEach policy clause (items ++ item :: more)).Gives (.error error)) ∨
    ∃ exprs others, exprs.length = items.length ∧
      (compileEach policy clause (items ++ more)).Gives (.ok (exprs ++ others)) ∧
      (compileEach policy clause (items ++ item :: more)).Gives (.ok (exprs ++ expr :: others)) := by
  have hitem : (compileAt policy ⟨clause, some item.1⟩ item.2).Gives (.ok expr) :=
    compileAt_ok_iff.mpr hexpr
  rw [compileEach_append, compileEach_append]
  obtain ⟨first, hfirst⟩ := compileEach_settles policy clause items
  cases first with
  | error error => exact .inl ⟨error, hfirst.bind_error, hfirst.bind_error⟩
  | ok exprs =>
    obtain ⟨second, hsecond⟩ := compileEach_settles policy clause more
    cases second with
    | error error =>
      exact .inl ⟨error, hfirst.bind hsecond.bind_error,
        hfirst.bind (hitem.bind hsecond.bind_error).bind_error⟩
    | ok others =>
      have hmore : (compileEach policy clause (item :: more)).Gives (.ok (expr :: others)) :=
        hitem.bind (hsecond.bind (gives_pure _))
      exact .inr ⟨exprs, others, length_compileEach policy clause hfirst,
        hfirst.bind (hsecond.bind (gives_pure _)), hfirst.bind (hmore.bind (gives_pure _))⟩

/-- One more text that compiles makes no difference to the other texts of a clause. -/
theorem compileClause_insert {prepare : String → String} {texts more : List (Option String)}
    {text : String} {expr : Expr}
    (hself : ∀ other ∈ (texts ++ some text :: more).filterMap id,
      Expr.SelfContained (prepare other).toList)
    (hexpr : (Expr.compile policy (prepare text)).Gives (.ok expr)) :
    (∃ error, (compileClause policy clause prepare (texts ++ none :: more)).Gives (.error error) ∧
      (compileClause policy clause prepare (texts ++ some text :: more)).Gives (.error error)) ∨
    ∃ exprs others, exprs.length = (texts.filterMap id).length ∧
      (compileClause policy clause prepare (texts ++ none :: more)).Gives (.ok (exprs ++ others)) ∧
      (compileClause policy clause prepare (texts ++ some text :: more)).Gives
        (.ok (exprs ++ expr :: others)) := by
  have hother : ∀ other ∈ (texts ++ none :: more).filterMap id,
      Expr.SelfContained (prepare other).toList := fun other hmem => hself other <| by
    simp only [List.filterMap_append, List.filterMap_cons, id, List.mem_append] at hmem ⊢
    exact hmem.imp id (List.mem_cons_of_mem _)
  have hlength := congrArg List.length (map_numbered 1 texts)
  rw [List.length_map] at hlength
  have hone := selfContained_numbered hself
  have hnone := selfContained_numbered hother
  unfold compileClause
  rw [numbered_append, List.map_append] at hone hnone ⊢
  rw [numbered_append, List.map_append]
  simp only [numbered, List.map_cons] at hone hnone ⊢
  have hitem : (Expr.compile policy (1 + texts.length, prepare text).2).Gives (.ok expr) := hexpr
  rcases compileEach_insert clause _ _ hitem with
    ⟨error, hwithout, hwith⟩ | ⟨exprs, others, hexprs, hwithout, hwith⟩
  · exact .inl ⟨error, gives_compileList hnone hwithout, gives_compileList hone hwith⟩
  · refine .inr ⟨exprs, others, ?_, gives_compileList hnone hwithout, gives_compileList hone hwith⟩
    rw [hexprs, List.length_map, hlength]

end Insert

theorem fillKeys_append {keys more : List OrderKey} {exprs others : List Expr}
    (h : exprs.length = (keys.filterMap keyText?).length) :
    fillKeys (keys ++ more) (exprs ++ others) = fillKeys keys exprs ++ fillKeys more others := by
  induction keys generalizing exprs with
  | nil =>
    obtain rfl := List.length_eq_zero_iff.mp h
    rfl
  | cons key rest ih =>
    obtain ⟨target, descending, nulls⟩ := key
    cases target with
    | outputColumn index => exact congrArg (PlanKey.outputColumn index :: ·) (ih h)
    | expression text =>
      cases exprs with
      | nil => cases h
      | cons expr exprs => exact congrArg (PlanKey.expression expr :: ·) (ih (Nat.succ.inj h))

end Plan

/-- No expression of `SELECT` or `ORDER BY` can be taken together with another one: they close only
brackets that they have opened, and have commas only inside of brackets. -/
structure Query.OrderSelfContained (query : Query) (bindings : ColumnBindings) : Prop where
  items : ∀ text ∈ query.selection.items.filterMap Plan.itemText?,
    Expr.SelfContained (bindings.prepare query.literals text).toList
  orderBy : ∀ text ∈ query.orderBy.filterMap Plan.keyText?,
    Expr.SelfContained (bindings.prepare query.literals text).toList

/-- So it is with the text of an item among the keys. -/
theorem Query.OrderSelfContained.spelled {query : Query} {bindings : ColumnBindings}
    {keys more : List OrderKey} {index : Nat} {name text : String} {descending : Bool}
    {nulls : Option NullPlace} (hself : query.OrderSelfContained bindings)
    (horder : query.orderBy = keys ++ ⟨.outputColumn index, descending, nulls⟩ :: more)
    (hitem : query.selection.items[index]? = some (.column name text)) :
    ∀ found ∈ (keys.map Plan.keyText? ++ some text :: more.map Plan.keyText?).filterMap id,
      Expr.SelfContained (bindings.prepare query.literals found).toList := by
  have hkeys := hself.orderBy
  have htext : text ∈ query.selection.items.filterMap Plan.itemText? :=
    List.mem_filterMap.mpr ⟨_, List.mem_of_getElem? hitem, rfl⟩
  rw [horder] at hkeys
  simp only [List.filterMap_append, List.filterMap_cons, List.filterMap_map, id, Plan.keyText?,
    List.forall_mem_append, List.forall_mem_cons] at hkeys ⊢
  exact ⟨hkeys.1, hself.items text htext, hkeys.2⟩

namespace Plan

/-- The keys of a query are compiled when all its other expressions are. -/
theorem ofQuery_eq (policy : WarningPolicy) (query : Query) (bindings : ColumnBindings) :
    ofQuery policy query bindings = (do
      let plan ← ofQuery policy (query.orderedBy []) bindings
      let exprs ← compileClause policy .orderBy (bindings.prepare query.literals)
        (query.orderBy.map keyText?)
      return plan.orderedBy (fillKeys query.orderBy exprs)) := by
  simp only [ofQuery, Query.orderedBy, orderedBy, bind_assoc, pure_bind, List.map_nil]
  rfl

/-- A key with the text of an item compiles to the expression of the item, and makes no difference to
the other keys. -/
theorem ofQuery_orderedBy {policy : WarningPolicy} {query : Query} {bindings : ColumnBindings}
    {keys more : List OrderKey} {index : Nat} {name text : String} {descending : Bool}
    {nulls : Option NullPlace}
    (horder : query.orderBy = keys ++ ⟨.outputColumn index, descending, nulls⟩ :: more)
    (hitem : query.selection.items[index]? = some (.column name text))
    (hself : query.OrderSelfContained bindings) :
    let other := query.orderedBy (keys ++ ⟨.expression text, descending, nulls⟩ :: more)
    (∃ error, (ofQuery policy query bindings).Gives (.error error) ∧
      (ofQuery policy other bindings).Gives (.error error)) ∨
    ∃ plan otherPlan, (ofQuery policy query bindings).Gives (.ok plan) ∧
      (ofQuery policy other bindings).Gives (.ok otherPlan) ∧ plan.Spells index otherPlan := by
  intro other
  rw [ofQuery_eq policy query, ofQuery_eq policy other]
  change (∃ error, _ ∧ (ofQuery policy (query.orderedBy []) bindings >>= _).Gives _) ∨
    ∃ plan otherPlan, _ ∧ (ofQuery policy (query.orderedBy []) bindings >>= _).Gives _ ∧ _
  obtain ⟨first, hfirst⟩ := ofQuery_settles policy (query.orderedBy []) bindings
  cases first with
  | error error => exact .inl ⟨error, hfirst.bind_error, hfirst.bind_error⟩
  | ok plan =>
    -- The item was compiled before the keys are.
    obtain ⟨expr, hexpr, hcompile⟩ := getElem?_items hfirst hself.items hitem
    have hnumber : query.orderBy.map keyText? = keys.map keyText? ++ none :: more.map keyText? := by
      rw [horder, List.map_append]
      rfl
    have hspelled : other.orderBy.map keyText? =
        keys.map keyText? ++ some text :: more.map keyText? := List.map_append
    rcases compileClause_insert .orderBy (hself.spelled horder hitem) hcompile with
      ⟨error, hwithout, hwith⟩ | ⟨exprs, others, hlength, hwithout, hwith⟩
    · rw [← hnumber] at hwithout
      rw [← hspelled] at hwith
      exact .inl ⟨error, hfirst.bind hwithout.bind_error, hfirst.bind hwith.bind_error⟩
    · rw [← hnumber] at hwithout
      rw [← hspelled] at hwith
      rw [List.filterMap_map] at hlength
      refine .inr ⟨_, _, hfirst.bind (hwithout.bind (gives_pure _)),
        hfirst.bind (hwith.bind (gives_pure _)), ?_⟩
      have hkeys : fillKeys other.orderBy (exprs ++ expr :: others) =
          fillKeys keys exprs ++ .expression expr :: fillKeys more others :=
        fillKeys_append hlength
      rw [hkeys, horder, fillKeys_append hlength]
      exact plan.spells_orderedBy hexpr (fillKeys keys exprs) (fillKeys more others)

end Plan

/-- Ordering by a number is ordering by the output column with that number. A key that refers to an
existing output column, which no star stands before, may be replaced by the text of the item: the
run ends with the same result and has handed the same events to its writer, with any accumulators
and groups. Nothing that is evaluated for some rows only calls an aggregate, and the expressions of
`SELECT` and `ORDER BY` close only brackets that they have opened. -/
theorem order_by_column_number {σ : Type} (job : Job) (writer : Writer σ) (before : σ)
    (source : Source) (keys more : List OrderKey) (index : Nat) (name text : String)
    (descending : Bool) (nulls : Option NullPlace)
    (horder : job.query.orderBy = keys ++ ⟨.outputColumn index, descending, nulls⟩ :: more)
    (hitem : job.query.selection.items[index]? = some (.column name text))
    (hstars : .star ∉ job.query.selection.items.take index)
    (hself : job.query.OrderSelfContained
      (ColumnBindings.ofDeclared source.width (Job.namesOf [] source.leading)))
    (hsilent : ∀ plan, (job.layout source).plan = .ok plan →
      ∀ expr ∈ plan.rowExpressions, expr.conditionalAggregates = []) :
    let other := job.orderedBy (keys ++ ⟨.expression text, descending, nulls⟩ :: more)
    (other.run writer before source).1 = (job.run writer before source).1 ∧
      (other.run writer before source).2.1.writer = (job.run writer before source).2.1.writer := by
  intro other
  have hcompiles : job.CompilesBeside (keys ++ ⟨.expression text, descending, nulls⟩ :: more)
      (ColumnBindings.ofDeclared source.width (Job.namesOf [] source.leading)) := by
    -- Neither query compiles, or the plans differ in one key, which spells the column.
    rcases Plan.ofQuery_orderedBy horder hitem hself with
      failed | ⟨plan, otherPlan, hplan, hother, hspells⟩
    · exact .inl failed
    · have hsilent := hsilent plan ((job.gives_layoutFor _ _).unique hplan)
      obtain ⟨related, hinitial, hcalls, hrecord⟩ := hspells.exists_inStep_record
        (Plan.fits_of_ofQuery hplan) hstars hsilent job.session.module?
      obtain ⟨_, expr, _, planKeys, planMore, -, -, -, rfl⟩ := id hspells
      exact .inr ⟨plan, _, related, hplan, hother, hinitial, hcalls, hrecord⟩
  have hsorts (records : List OutputRecord) :
      sortRecords (keys ++ ⟨.expression text, descending, nulls⟩ :: more) records =
        sortRecords job.query.orderBy records := by
    rw [horder]
    refine sortFrom_congr ?_ keys more 0 records
    exact fun _ _ => rfl
  have hempty : (keys ++ ⟨.expression text, descending, nulls⟩ :: more).isEmpty =
      job.query.orderBy.isEmpty := by
    rw [horder]
    cases keys <;> rfl
  have hinitial : other.initial before = { job.initial before with
      output := (Output.ofQuery job.query).orderedBy
        (keys ++ ⟨.expression text, descending, nulls⟩ :: more) } := by
    rw [← Output.ofQuery_orderedBy hempty]
    rfl
  obtain ⟨result, last, otherLast, hgives, hother, hlast⟩ :=
    Job.inStep_runAll job writer source hsorts hcompiles (job.initial before) (other.initial before)
      ⟨rfl, {}, ⟨rfl, rfl⟩, hinitial⟩
  obtain ⟨hresult, hstate⟩ := job.run_of_gives hgives
  obtain ⟨hotherResult, hotherState⟩ := other.run_of_gives hother
  rw [hresult, hstate, hotherResult, hotherState]
  refine ⟨rfl, ?_⟩
  cases result with
  | ok => exact hlast
  | error => exact hlast

/-- A run that orders groups by what it counts in them. -/
def Job.orderingByCount : Job :=
  Job.countingByFirst.orderedBy [⟨.outputColumn 0, true, none⟩]

/-- Whether all expressions of the rows under a plan call aggregates on every row or on none. -/
def Plan.isSilent : Except Error Plan → Bool
  | .ok plan => plan.rowExpressions.all (·.conditionalAggregates.isEmpty)
  | .error _ => true

theorem Plan.silent_of_isSilent {result : Except Error Plan} (h : isSilent result = true)
    {plan : Plan} (hplan : result = .ok plan) :
    ∀ expr ∈ plan.rowExpressions, expr.conditionalAggregates = [] := by
  subst hplan
  simpa [isSilent] using h

/-- Two groups that are ordered by the number of their values. -/
theorem order_by_column_number_of_count :
    let other := Job.orderingByCount.orderedBy [⟨.expression "count_agg(col2)", true, none⟩]
    (Job.orderingByCount.query.orderBy = [⟨.outputColumn 0, true, none⟩] ∧
      Job.orderingByCount.query.selection.items = [.column "n" "count_agg(col2)"]) ∧
    (Job.orderingByCount.collected .surrounding).1 = .ok () ∧
    (other.run Writer.recorder [] .surrounding).1 =
      (Job.orderingByCount.run Writer.recorder [] .surrounding).1 ∧
    (other.run Writer.recorder [] .surrounding).2.1.writer =
      (Job.orderingByCount.run Writer.recorder [] .surrounding).2.1.writer := by
  intro other
  have hitem : Expr.SelfContained
      (ColumnBindings.prepare (ColumnBindings.ofDeclared 2 []) [] "count_agg(col2)").toList :=
    Expr.selfContained_of_plain (by decide) (show _ = some 0 by decide)
  have hself : Job.orderingByCount.query.OrderSelfContained (ColumnBindings.ofDeclared
      Source.surrounding.width (Job.namesOf [] Source.surrounding.leading)) := by
    refine ⟨fun text htext => ?_, fun text htext => nomatch htext⟩
    obtain rfl := List.mem_singleton.mp htext
    exact hitem
  have hsilent : Plan.isSilent (Job.orderingByCount.layout .surrounding).plan = true := by
    decide +kernel
  refine ⟨⟨rfl, rfl⟩, eq_ok_of_toOption (by decide +kernel), ?_⟩
  exact order_by_column_number Job.orderingByCount Writer.recorder [] .surrounding [] [] 0 "n"
    "count_agg(col2)" true none rfl rfl (by decide) hself fun plan hplan =>
      Plan.silent_of_isSilent hsilent hplan

/-! ### A bracket that is left open -/

theorem Item.splitLastKeyword?_of_short {keyword text : List Char}
    (h : text.length ≤ keyword.length) : splitLastKeyword? keyword text = none := by
  simp [splitLastKeyword?, Nat.sub_eq_zero_of_le h]

theorem OrderKey.listOfText_one :
    listOfText "1".toList = .ok [⟨.outputColumn 0, false, none⟩] := by
  have hsplit : Item.split "1".toList = ["1".toList] := by decide
  have htrim : Text.trimEnd Unicode.isWhitespace "1".toList = "1".toList := by decide
  have hnumber : Item.columnNumber? .orderBy "1".toList = .ok (some 0) :=
    eq_ok_of_toOption (by decide)
  have hshort (keyword : String) (h : 1 ≤ keyword.toList.length) :
      Item.splitLastKeyword? keyword.toList "1".toList = none :=
    Item.splitLastKeyword?_of_short h
  have hkey : ofText "1".toList = .ok ⟨.outputColumn 0, false, none⟩ := by
    simp only [ofText, htrim, splitNulls, splitDirection, hshort "FIRST" (by decide),
      hshort "LAST" (by decide), hshort "DESC" (by decide), hshort "ASC" (by decide),
      Option.or_none, hnumber]
    rfl
  rw [listOfText, hsplit, List.mapM_cons, hkey, List.mapM_nil]
  rfl

/-- A query whose first item leaves a bracket open that its second item closes. -/
def Query.openItem : Query :=
  { Query.selectAll none 0 with
    selection :=
      { items := [.column "x)" "(1", .column "_2_3" "2),3"], distinct := false, partials := false }
    orderBy := [⟨.outputColumn 0, false, none⟩] }

theorem Query.parse_openItem :
    (Query.parse .report "memory" "SELECT (1 AS x),2),3 ORDER BY 1").Gives (.ok .openItem) := by
  have hextract : LiteralTable.extract
      (Placeholder.fresh "SELECT (1 AS x),2),3 ORDER BY 1".toList)
      "SELECT (1 AS x),2),3 ORDER BY 1".toList =
        .ok ("SELECT (1 AS x),2),3 ORDER BY 1".toList, []) :=
    eq_ok_of_toOption (by decide +kernel)
  have hclauses : QueryStructure.ofText "SELECT (1 AS x),2),3 ORDER BY 1".toList =
      .ok [(.select, "(1 AS x),2),3"), (.orderBy, "1")] := eq_ok_of_toOption (by decide)
  have hclause (clause : Clause) : QueryStructure.nonEmpty?
      [(.select, "(1 AS x),2),3"), (.orderBy, "1")] clause =
        match clause with
        | .select => some "(1 AS x),2),3"
        | .orderBy => some "1"
        | _ => none := by
    cases clause <;> decide
  have hplain : aggregatesIn "SELECT (1 AS x),2),3 ORDER BY 1".toList = [] := by decide
  rw [parse, parseWith_ok hextract hclauses]
  simp only [ofStructure, hclause, optional, pure_bind, Option.getD_some, Plan.ofText_open,
    OrderKey.listOfText_one, hplain]
  exact Reporting.gives_pure openItem

/-- With the text of its item in the place of the number the key does not compile. -/
theorem order_by_column_number_not_of_open :
    let job : Job := { query := .openItem }
    let other := job.orderedBy [⟨.expression "(1", false, none⟩]
    let source := Source.ofRows [[.ofInt 1]]
    (Query.parse .report "memory" "SELECT (1 AS x),2),3 ORDER BY 1").Gives (.ok job.query) ∧
    (∀ plan, (job.layout source).plan = .ok plan →
      ∀ expr ∈ plan.rowExpressions, expr.conditionalAggregates = []) ∧
    (∃ stats, (job.run Writer.recorder [] source).1 = .ok stats) ∧
    ∃ error, (other.run Writer.recorder [] source).1 = .error error := by
  intro job other source
  have hsilent : Plan.isSilent (job.layout source).plan = true := by decide +kernel
  have hfails : (other.run Writer.recorder [] source).1.isOk = false := by decide +kernel
  obtain ⟨stats, hrun, -⟩ := Job.writes_of_collected (show job.query.limit ≠ some 0 by decide)
    (show (job.collected source).1 = .ok () from eq_ok_of_toOption (by decide +kernel))
  refine ⟨Query.parse_openItem, fun plan hplan => Plan.silent_of_isSilent hsilent hplan,
    ⟨stats, hrun⟩, ?_⟩
  cases hresult : (other.run Writer.recorder [] source).1 with
  | ok stats =>
    rw [hresult] at hfails
    cases hfails
  | error error => exact ⟨error, rfl⟩

end StreamQuery
