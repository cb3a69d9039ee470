import StreamQuery.Proofs.Execution.Alignment
import StreamQuery.Proofs.Execution.Consolidating
import StreamQuery.Proofs.Query.Numbering

/-!
# Grouping by numbered items

A number in `GROUP BY` groups rows by the values of an item of `SELECT`: on every row the item has
the value that the row is grouped by. It is the value of the output column with that number unless a
star stands before the item, which makes columns of its own.
-/

namespace StreamQuery

open Stateful

/-! ### Numbered items in a plan -/

/-- The expressions of `SELECT` and `GROUP BY` close only brackets that they have opened. -/
structure Query.SelfContained (query : Query) (bindings : ColumnBindings) : Prop where
  items : ∀ text ∈ query.selection.items.filterMap Plan.itemText?,
    Expr.SelfContained (bindings.prepare query.literals text).toList
  groupBy : ∀ text ∈ query.groupBy,
    Expr.SelfContained (bindings.prepare query.literals text).toList

namespace Plan

/-- A numbered item and the key that numbers it compile to one expression. -/
theorem copied_of_ofQuery {policy : WarningPolicy} {query : Query} {bindings : ColumnBindings}
    {plan : Plan} (hplan : (Plan.ofQuery policy query bindings).Gives (.ok plan))
    (hself : query.SelfContained bindings) {numbers : List (Option Nat)}
    (hcopies : query.Copies numbers) {j index : Nat} (hnumber : numbers[j]? = some (some index)) :
    ∃ expr, plan.items[index]? = some (.expression expr) ∧ plan.groupBy[j]? = some expr := by
  obtain ⟨_, _, -, -, -, hkeys, -⟩ := parts_of_ofQuery policy hplan
  obtain ⟨name, text, hitem, hkey⟩ := hcopies.copied j index hnumber
  obtain ⟨expr, hexpr, hcompile⟩ := getElem?_items hplan hself.items hitem
  have hkeyTexts : (query.groupBy.map some).filterMap id = query.groupBy := by simp
  have hkeyExprs := compiles_of_compileClause (hkeyTexts.symm ▸ hself.groupBy) hkeys
  rw [hkeyTexts] at hkeyExprs
  obtain ⟨other, hother, hotherCompile⟩ := exists_of_forall₂_getElem? hkeyExprs hkey
  obtain rfl := Except.ok.inj (hcompile.unique hotherCompile)
  exact ⟨expr, hexpr, hother⟩

theorem length_groupBy {policy : WarningPolicy} {query : Query} {bindings : ColumnBindings}
    {plan : Plan} (hplan : (Plan.ofQuery policy query bindings).Gives (.ok plan)) :
    plan.groupBy.length = query.groupBy.length := by
  obtain ⟨items, orders, -, -, -, hkeys, -⟩ := parts_of_ofQuery policy hplan
  have hlength := length_compileList policy _ hkeys
  rwa [List.length_map, length_numbered] at hlength

end Plan

/-! ### The group of a row -/

theorem Scope.length_of_evaluateEach {scope : Scope} {clause : Clause} {exprs : List Expr}
    {position : Nat} {table after : Aggregates} {values : List Value}
    (h : (scope.evaluateEach clause position exprs).Gives table (.ok values) after) :
    values.length = exprs.length := by
  induction exprs generalizing position table after values with
  | nil =>
    obtain rfl := Except.ok.inj (h.unique (gives_pure _ _)).1
    rfl
  | cons expr rest ih =>
    obtain ⟨value, middle, -, hnext⟩ := h.of_bind (scope.evaluateAt_settles _ expr)
      fun _ => (scope.evaluateEach_settles _ _ _).bind fun _ => settles_pure _
    obtain ⟨found, last, hfound, hlast⟩ :=
      hnext.of_bind (scope.evaluateEach_settles _ _ _) fun _ => settles_pure _
    obtain rfl := Except.ok.inj (hlast.unique (gives_pure _ _)).1
    rw [List.length_cons, List.length_cons, ih hfound]

/-- Each of several values is that of an expression. -/
theorem Scope.value_of_evaluateEach {scope : Scope} {clause : Clause} {exprs : List Expr}
    {position : Nat} {table after : Aggregates} {values : List Value}
    (h : (scope.evaluateEach clause position exprs).Gives table (.ok values) after) {j : Nat}
    {expr : Expr} (hexpr : exprs[j]? = some expr) :
    ∃ value location before last, values[j]? = some value ∧
      (scope.evaluateAt location expr).Gives before (.ok value) last := by
  induction exprs generalizing position table after values j with
  | nil => cases hexpr
  | cons first rest ih =>
    obtain ⟨value, middle, hvalue, hnext⟩ := h.of_bind (scope.evaluateAt_settles _ first)
      fun _ => (scope.evaluateEach_settles _ _ _).bind fun _ => settles_pure _
    obtain ⟨found, last, hfound, hlast⟩ :=
      hnext.of_bind (scope.evaluateEach_settles _ _ _) fun _ => settles_pure _
    obtain rfl := Except.ok.inj (hlast.unique (gives_pure _ _)).1
    cases j with
    | zero =>
      obtain rfl := Option.some.inj hexpr
      exact ⟨value, _, table, middle, rfl, hvalue⟩
    | succ j =>
      rw [List.getElem?_cons_succ] at hexpr ⊢
      exact ih hfound hexpr

/-- A record has the key of the values that its row is grouped by, and then its own values. -/
theorem Plan.parts_of_record {plan : Plan} (hgroups : plan.groupBy ≠ []) {scope : Scope}
    {table after : Aggregates} {record : OutputRecord}
    (h : (plan.record scope).Gives table (.ok record) after) :
    ∃ keys middle last, (scope.evaluateEach .groupBy 1 plan.groupBy).Gives table (.ok keys) middle ∧
      record.groupKey = tupleKey keys ∧
      (project scope 1 plan.items).Gives (middle.startRow (tupleKey keys)) (.ok record.values)
        last := by
  have hsort (values : List Value) := sortKeys_settles scope values 1 plan.orderBy
  obtain ⟨key, started, hstart, hnext⟩ := h.of_bind (plan.startGroup_settles scope)
    fun _ => (project_settles scope 1 _).bind fun values => (hsort values).bind fun _ =>
      settles_pure _
  obtain ⟨values, last, hproject, hnext⟩ := hnext.of_bind (project_settles scope 1 _)
    fun values => (hsort values).bind fun _ => settles_pure _
  obtain ⟨_, _, -, hlast⟩ := hnext.of_bind (hsort values) fun _ => settles_pure _
  obtain rfl := Except.ok.inj (hlast.unique (gives_pure _ _)).1
  rw [startGroup, if_neg (by simpa using hgroups)] at hstart
  obtain ⟨keys, middle, hkeys, hnext⟩ := hstart.of_bind (scope.evaluateEach_settles _ _ _)
    fun _ => (settles_modify _).bind fun _ => settles_pure _
  obtain ⟨hkey, rfl⟩ := hnext.unique ((gives_modify _ _).bind (gives_pure _ _))
  obtain rfl := Except.ok.inj hkey
  exact ⟨keys, middle, last, hkeys, rfl, hproject⟩

namespace Job

/-- A row of a run and the values that it is grouped by: a value that a number stands for is that of
the item with this number. It stands where the name of the item stands in the header, unless a star
before it copies a row of another width; without a star that is the column with the number. -/
def GroupsBy (job : Job) (source : Source) (numbers : List (Option Nat)) (values keys : List Value) :
    Prop :=
  let names := namesOf [] source
  ∃ input plan scope before after,
    job.Makes source names input plan scope (after.startRow (tupleKey keys)) values ∧
    (scope.evaluateEach .groupBy 1 plan.groupBy).Gives before (.ok keys) after ∧
    keys.length = numbers.length ∧
    ∀ j index : Nat, numbers[j]? = some (some index) → ∃ value, keys[j]? = some value ∧
      plan.Selects scope (after.startRow (tupleKey keys)) index value ∧
      (.star ∉ job.query.selection.items.take index → values[index]? = some value) ∧
      (input.length = names.length →
        values[(outputColumns (job.query.selection.items.take index) names).length]? = some value)

/-- A record that a run may keep makes a row that its key groups by the numbered items. -/
theorem groupsBy_of_mayKeep {job : Job} {source : Source} {numbers : List (Option Nat)}
    (hcopies : job.query.Copies numbers) (hnumbers : numbers ≠ [])
    (hself : job.query.SelfContained
      (ColumnBindings.ofDeclared source.width (namesOf [] source.leading)))
    (hcalls : ∀ plan, (job.layout source).plan = .ok plan →
      ∀ expr ∈ plan.groupBy, expr.CallsNoAggregate)
    {record : OutputRecord} (h : job.MayKeep source record) :
    ∃ keys, record.groupKey = tupleKey keys ∧ job.GroupsBy source numbers record.values keys := by
  obtain ⟨input, plan, scope, htaken, hplanned, hspread, hsees, table, last, hrecord⟩ := h
  have hplan := job.gives_layoutFor (namesOf [] source.leading) source.width
  change Reporting.Gives _ (job.layout source).plan at hplan
  rw [hplanned] at hplan
  have hlength := Plan.length_groupBy hplan
  rw [hcopies.length] at hlength
  have hgroups : plan.groupBy ≠ [] := fun hnil => hnumbers (by simpa [hnil] using hlength.symm)
  obtain ⟨keys, after, final, hkeys, hkey, hproject⟩ := Plan.parts_of_record hgroups hrecord
  have hfits := Plan.fits_of_ofQuery hplan
  obtain ⟨state, rows, _, _, hrows, hscope⟩ := id hspread
  have hinput : scope.values.length = input.length := Plan.length_of_spread hrows _ hscope
  refine ⟨keys, hkey, input, plan, scope, table, after,
    ⟨htaken, ⟨_, hplan⟩, hspread, hsees, final, hproject⟩, hkeys,
    (Scope.length_of_evaluateEach hkeys).trans hlength, fun j index hnumber => ?_⟩
  obtain ⟨expr, hitem, hexpr⟩ := Plan.copied_of_ofQuery hplan hself hcopies hnumber
  obtain ⟨name, text, hselected, -⟩ := hcopies.copied j index hnumber
  obtain ⟨hindex, hget⟩ := List.getElem?_eq_some_iff.mp hselected
  have hsplit := List.take_append_drop index job.query.selection.items
  rw [List.drop_eq_getElem_cons hindex, hget] at hsplit
  obtain ⟨value, hselects, hvalue⟩ := Plan.selects_of_project (hsplit ▸ hfits) hproject
  have htake : (job.query.selection.items.take index).length = index :=
    List.length_take_of_le hindex.le
  rw [htake] at hselects
  -- The item is evaluated on the row that the key was evaluated on.
  obtain ⟨found, location, before, middle, hfound, hgives⟩ := Scope.value_of_evaluateEach hkeys hexpr
  obtain ⟨other, _, started, ended, hother, -, hotherGives⟩ := id hselects
  obtain rfl : expr = other := by cases hitem.symm.trans hother; rfl
  have hsame := Scope.gives_evaluateAt_of_callsNoAggregate
    (hcalls plan hplanned expr (List.mem_of_getElem? hexpr)) hgives ⟨.select, some (index + 1)⟩
    started
  obtain rfl := Except.ok.inj (hotherGives.unique hsame).1
  refine ⟨value, hfound, hselects, fun hstar => ?_, fun hwidth => ?_⟩
  · rwa [outputWidth_of_not_mem hstar, htake] at hvalue
  · rwa [length_outputColumns, ← hwidth, ← hinput]

/-- The values of a row at the places of the items that numbers stand for. -/
def numberedValues (job : Job) (source : Source) (numbers : List (Option Nat))
    (values : List Value) : List (Option Value) :=
  numbers.map fun number => number.bind fun index =>
    values[(outputColumns (job.query.selection.items.take index) (namesOf [] source)).length]?

/-- No star stands before the items that numbers stand for, or else every row of the source is as
wide as the columns of the input. -/
def Places (job : Job) (source : Source) (numbers : List (Option Nat)) : Prop :=
  (∀ index, some index ∈ numbers → .star ∉ job.query.selection.items.take index) ∨
    ∀ pull ∈ source, ∀ input, pull.result = .ok (.row input) →
      input.length = (namesOf [] source).length

/-- Where all keys are numbers, the values of the items are those that a row is grouped by. -/
theorem numberedValues_eq {job : Job} {source : Source} {numbers : List (Option Nat)}
    (hcopies : job.query.Copies numbers) (hall : ∀ number ∈ numbers, number ≠ none)
    (hplaces : job.Places source numbers) {values keys : List Value}
    (h : job.GroupsBy source numbers values keys) :
    job.numberedValues source numbers values = keys.map some := by
  obtain ⟨input, plan, scope, before, after, hmakes, -, hlength, hvalues⟩ := h
  obtain ⟨pull, hpull, hresult⟩ := hmakes.taken
  refine List.ext_getElem? fun j => ?_
  rw [numberedValues, List.getElem?_map, List.getElem?_map]
  cases hnumber : numbers[j]? with
  | none =>
    rw [List.getElem?_eq_none (hlength ▸ List.getElem?_eq_none_iff.mp hnumber)]
    rfl
  | some number =>
    obtain ⟨index, rfl⟩ := Option.ne_none_iff_exists'.mp (hall _ (List.mem_of_getElem? hnumber))
    obtain ⟨value, hkey, -, hplace, hwide⟩ := hvalues j index hnumber
    have hvalue : values[(outputColumns (job.query.selection.items.take index)
        (namesOf [] source)).length]? = some value := by
      rcases hplaces with hstars | hwidths
      · have hstar := hstars index (List.mem_of_getElem? hnumber)
        obtain ⟨name, text, hitem, -⟩ := hcopies.copied j index hnumber
        obtain ⟨hindex, -⟩ := List.getElem?_eq_some_iff.mp hitem
        rw [length_outputColumns, outputWidth_of_not_mem hstar, List.length_take_of_le hindex.le]
        exact hplace hstar
      · exact hwide (hwidths pull hpull input hresult)
    rw [hkey, Option.map_some, Option.map_some, Option.bind_some, hvalue]

end Job

/-- A number in `GROUP BY` groups by the item of `SELECT` with this number. The rows that a run
writes belong to different groups; on each of them a numbered item has the value that the row is
grouped by; and if all keys are numbers, the rows differ in the numbered items. The expressions of
`SELECT` and `GROUP BY` close only brackets that they have opened, and `GROUP BY` calls no
aggregates. -/
theorem groups_by_numbered_items {policy : WarningPolicy} {defaultTarget text : String} {job : Job}
    (hparse : (Query.parse policy defaultTarget text).Gives (.ok job.query))
    (hnumbers : ∃ index, some index ∈ Query.groupNumbers text)
    (hpartials : job.query.selection.partials = false) {source : Source}
    (hrun : ∃ stats, (job.run Writer.recorder [] source).1 = .ok stats)
    (hself : job.query.SelfContained
      (ColumnBindings.ofDeclared source.width (Job.namesOf [] source.leading)))
    (hcalls : ∀ plan, (job.layout source).plan = .ok plan →
      ∀ expr ∈ plan.groupBy, expr.CallsNoAggregate) :
    ∃ rows keys, job.Writes source (job.headerOf (Job.namesOf [] source)) rows ∧
      (keys.map tupleKey).Nodup ∧
      List.Forall₂ (job.GroupsBy source (Query.groupNumbers text)) rows keys ∧
      ((∀ number ∈ Query.groupNumbers text, number ≠ none) →
        job.Places source (Query.groupNumbers text) →
        (rows.map (job.numberedValues source (Query.groupNumbers text))).Nodup) := by
  obtain ⟨index, hindex⟩ := hnumbers
  have hne : Query.groupNumbers text ≠ [] := List.ne_nil_of_mem hindex
  have hcopies := Query.copies_of_parse hparse hne
  have hgroups : job.query.groups = true := by
    have hlength := hcopies.length
    rw [Query.groups, Bool.not_eq_true', List.isEmpty_eq_false_iff]
    exact fun hnil => hne (List.length_eq_zero_iff.mp (by rw [← hlength, hnil]; rfl))
  obtain ⟨records, hwrites, hnodup, hrecords⟩ := Job.writes_records hgroups hpartials hrun
  have hmade := fun record hrecord =>
    Job.groupsBy_of_mayKeep hcopies hne hself hcalls (hrecords record hrecord)
  choose! keysOf hkeys hgroupsBy using hmade
  have hgroupKeys : records.map (·.groupKey) = (records.map keysOf).map tupleKey := by
    rw [List.map_map]
    exact List.map_congr_left hkeys
  have hrows : List.Forall₂ (job.GroupsBy source (Query.groupNumbers text))
      (records.map (·.values)) (records.map keysOf) := by
    rw [List.forall₂_map_left_iff, List.forall₂_map_right_iff, List.forall₂_same]
    exact hgroupsBy
  rw [hgroupKeys] at hnodup
  refine ⟨_, records.map keysOf, hwrites, hnodup, hrows, fun hall hplaces => ?_⟩
  have hvalues : (records.map (·.values)).map (job.numberedValues source (Query.groupNumbers text)) =
      (records.map keysOf).map (List.map some) := by
    rw [List.map_map, List.map_map]
    exact List.map_congr_left fun record hrecord =>
      Job.numberedValues_eq hcopies hall hplaces (hgroupsBy record hrecord)
  rw [hvalues]
  exact (List.Nodup.of_map _ hnodup).map (List.map_injective_iff.mpr (Option.some_injective _))

/-! ### A star before a numbered item -/

/-- A query whose second item is the third column of its output over two columns. -/
def Query.numbered : Query :=
  { Query.selectAll none 0 with
    selection :=
      { items := [.star, .column "col1_2" "col1%2"], distinct := false, partials := false }
    groupBy := ["col1%2"] }

theorem Query.parse_numbered :
    (Query.parse .report "memory" "SELECT *,col1%2 GROUP BY 2").Gives (.ok .numbered) := by
  have hextract : LiteralTable.extract (Placeholder.fresh "SELECT *,col1%2 GROUP BY 2".toList)
      "SELECT *,col1%2 GROUP BY 2".toList = .ok ("SELECT *,col1%2 GROUP BY 2".toList, []) :=
    eq_ok_of_toOption (by decide +kernel)
  have hclauses : QueryStructure.ofText "SELECT *,col1%2 GROUP BY 2".toList =
      .ok [(.select, "*,col1%2"), (.groupBy, "2")] := eq_ok_of_toOption (by decide)
  have hselection : Selection.ofText [] "*,col1%2".toList =
      ⟨[.star, .column "col1_2" "col1%2"], false, false⟩ := by
    rw [Selection.ofText_of_plain [] (by decide) (by decide)]
    decide
  have hgroupBy : parseGroupBy [.star, .column "col1_2" "col1%2"] "2".toList = .ok ["col1%2"] :=
    eq_ok_of_toOption (by decide)
  have hclause (clause : Clause) : QueryStructure.nonEmpty?
      [(.select, "*,col1%2"), (.groupBy, "2")] clause =
        match clause with
        | .select => some "*,col1%2"
        | .groupBy => some "2"
        | _ => none := by
    cases clause <;> decide
  rw [parse, parseWith_ok hextract hclauses]
  simp only [ofStructure, hclause, optional, pure_bind, Option.getD_some, hselection, hgroupBy]
  exact Reporting.gives_pure numbered

/-- A run of the query. -/
def Job.numbered : Job := { query := .numbered }

/-- Rows that differ in the first column. -/
def Source.differingFirst : Source :=
  .ofRows [[.ofInt 1, .ofInt 5], [.ofInt 2, .ofInt 5]]

theorem Job.writes_numbered :
    Job.numbered.Writes .differingFirst (.header ["col1", "col2", "col1_2"])
      [[.ofInt 1, .ofInt 5, .ofInt 1], [.ofInt 2, .ofInt 5, .ofInt 0]] := by
  obtain ⟨⟨⟩, hcollected⟩ := exists_of_isOk
    (show (Job.numbered.collected .differingFirst).1.isOk = true by decide +kernel)
  have hwrites := Job.writes_of_collected (show Job.numbered.query.limit ≠ some 0 by decide)
    hcollected
  have hrows : Job.numbered.rowsOf .differingFirst =
      [[.ofInt 1, .ofInt 5, .ofInt 1], [.ofInt 2, .ofInt 5, .ofInt 0]] :=
    List.map_injective_iff.mpr (fun _ _ => eq_of_tupleKey) (by decide +kernel)
  rwa [hrows] at hwrites

theorem Query.selfContained_numbered :
    Query.numbered.SelfContained (ColumnBindings.ofDeclared Source.differingFirst.width
      (Job.namesOf [] Source.differingFirst.leading)) := by
  have hitem : Expr.SelfContained
      (ColumnBindings.prepare (ColumnBindings.ofDeclared 2 []) [] "col1%2").toList :=
    Expr.selfContained_of_plain (by decide) (show _ = some 0 by decide)
  constructor
  all_goals
    intro text htext
    obtain rfl := List.mem_singleton.mp htext
    exact hitem

/-- Whether a plan groups by a remainder, which calls nothing. -/
def Plan.groupsByRemainder : Except Error Plan → Bool
  | .ok ⟨_, _, _, [.binary (.column _) .modulus (.literal _)], _⟩ => true
  | _ => false

theorem Job.callsNoAggregate_numbered {plan : Plan}
    (h : (Job.numbered.layout .differingFirst).plan = .ok plan) :
    ∀ expr ∈ plan.groupBy, expr.CallsNoAggregate := by
  have hgroups : Plan.groupsByRemainder (Job.numbered.layout .differingFirst).plan = true := by
    decide +kernel
  rw [h] at hgroups
  unfold Plan.groupsByRemainder at hgroups
  split at hgroups
  · next heq =>
    cases heq
    simp [Expr.CallsNoAggregate, Expr.calledFunctions, Expr.subexpressions, Expr.ownCall?]
  · cases hgroups

/-- The rows differ in the item that is numbered, which is behind the columns of the star. -/
theorem groups_by_numbered_items_of_star :
    (Query.parse .report "memory" "SELECT *,col1%2 GROUP BY 2").Gives (.ok Job.numbered.query) ∧
    (Job.numbered.numberedValues .differingFirst [some 1] [.ofInt 1, .ofInt 5, .ofInt 1] =
        [some (.ofInt 1)]) ∧
    ∃ keys, (keys.map tupleKey).Nodup ∧
      List.Forall₂ (Job.numbered.GroupsBy .differingFirst [some 1])
        [[.ofInt 1, .ofInt 5, .ofInt 1], [.ofInt 2, .ofInt 5, .ofInt 0]] keys ∧
      ([[.ofInt 1, .ofInt 5, .ofInt 1], [.ofInt 2, .ofInt 5, .ofInt 0]].map
        (Job.numbered.numberedValues .differingFirst [some 1])).Nodup := by
  have hnumbers : Query.groupNumbers "SELECT *,col1%2 GROUP BY 2" = [some 1] := by decide +kernel
  obtain ⟨stats, hrun, -⟩ := id Job.writes_numbered
  obtain ⟨rows, keys, hwrites, hnodup, hrows, hdiffer⟩ :=
    @groups_by_numbered_items .report "memory" _ Job.numbered Query.parse_numbered
      ⟨1, by rw [hnumbers]; exact List.mem_singleton_self _⟩ rfl .differingFirst ⟨stats, hrun⟩
      Query.selfContained_numbered fun _ h => Job.callsNoAggregate_numbered h
  rw [hnumbers] at hrows hdiffer
  obtain rfl := Job.Writes.unique hwrites Job.writes_numbered
  refine ⟨Query.parse_numbered, rfl, keys, hnodup, hrows, hdiffer (by simp) (.inr ?_)⟩
  intro pull hpull input hresult
  simp only [Source.differingFirst, Source.ofRows, Source.ofRecords, List.map_cons, List.map_nil,
    List.mem_cons, List.not_mem_nil, or_false] at hpull
  rcases hpull with rfl | rfl <;> (cases hresult; rfl)

/-- Rows that are grouped by the second item of `SELECT` may agree in the second column. -/
theorem group_number_is_no_column :
    (Query.parse .report "memory" "SELECT *,col1%2 GROUP BY 2").Gives (.ok Job.numbered.query) ∧
    Query.groupNumbers "SELECT *,col1%2 GROUP BY 2" = [some 1] ∧
    ∃ rows, Job.numbered.Writes .differingFirst (.header ["col1", "col2", "col1_2"]) rows ∧
      rows.map (·[1]?) = [some (.ofInt 5), some (.ofInt 5)] :=
  ⟨Query.parse_numbered, by decide +kernel, _, Job.writes_numbered, rfl⟩

end StreamQuery
