import Mathlib.Order.Monotone.Basic
import StreamQuery.Proofs.Execution.Compiling
import StreamQuery.Proofs.Execution.Origin
import StreamQuery.Proofs.Json.Texts

/-!
# Rows and their header

The header of a run comes from the first row of the source, while a star in `SELECT` stands for the
values of the row at hand. So rows are aligned with the header exactly where no star is or the row
is as wide as the first one.
-/

namespace StreamQuery

open Stateful

/-! ### Widths -/

/-- The number of values that items of `SELECT` make of a row. -/
def outputWidth (items : List SelectItem) (width : Nat) : Nat :=
  (items.map fun
    | .star => width
    | .column _ _ => 1).sum

theorem length_outputColumns (items : List SelectItem) (names : List String) :
    (outputColumns items names).length = outputWidth items names.length := by
  unfold outputColumns outputWidth
  rw [List.length_flatMap]
  refine congrArg List.sum (List.map_congr_left fun item _ => ?_)
  cases item <;> rfl

theorem outputColumns_append (before rest : List SelectItem) (names : List String) :
    outputColumns (before ++ rest) names = outputColumns before names ++ outputColumns rest names :=
  List.flatMap_append

theorem outputWidth_of_not_mem {items : List SelectItem} (h : .star ∉ items) (width : Nat) :
    outputWidth items width = items.length := by
  induction items with
  | nil => rfl
  | cons item rest ih =>
    simp only [List.mem_cons, not_or] at h
    cases item with
    | star => exact absurd rfl h.1
    | column name text =>
      have hwidth := ih h.2
      simp only [outputWidth, List.map_cons, List.sum_cons, List.length_cons] at hwidth ⊢
      omega

theorem outputWidth_mono (items : List SelectItem) : Monotone (outputWidth items) := by
  intro width wider h
  induction items with
  | nil => exact le_rfl
  | cons item rest ih =>
    cases item with
    | star => exact Nat.add_le_add h ih
    | column name text => exact Nat.add_le_add_left ih 1

theorem outputWidth_strictMono {items : List SelectItem} (h : .star ∈ items) :
    StrictMono (outputWidth items) := by
  intro width wider hlt
  obtain ⟨before, rest, rfl⟩ := List.append_of_mem h
  have hbefore := outputWidth_mono before hlt.le
  have hrest := outputWidth_mono rest hlt.le
  simp only [outputWidth, List.map_append, List.map_cons, List.sum_append, List.sum_cons]
    at hbefore hrest ⊢
  omega

/-- Items make rows of one width out of rows of two widths only without a star. -/
theorem outputWidth_eq_iff {items : List SelectItem} {width other : Nat} :
    outputWidth items width = outputWidth items other ↔ .star ∉ items ∨ width = other := by
  by_cases hstar : SelectItem.star ∈ items
  · simp [hstar, (outputWidth_strictMono hstar).injective.eq_iff]
  · simp [hstar, outputWidth_of_not_mem hstar]

/-! ### Rows that a row is spread into -/

theorem Assignment.length_assign (target : Expr) (names : List String) (values : List Value)
    (new : Value) : (assign target names values new).2.length = values.length := by
  unfold assign
  split
  · rfl
  · split
    · rfl
    · split
      · rfl
      · exact List.length_set

theorem Scope.length_of_assignEach {scope : Scope} {target : Expr} {items : List Value}
    {rows : List (List Value)} (h : scope.assignEach target items = .ok rows) :
    ∀ row ∈ rows, row.length = scope.values.length := by
  induction items generalizing rows with
  | nil =>
    cases h
    exact fun _ hrow => absurd hrow List.not_mem_nil
  | cons item rest ih =>
    unfold assignEach at h
    have hlength := Assignment.length_assign target scope.names scope.values item
    split at h
    next values hassign =>
      obtain ⟨others, hothers, h⟩ := ok_of_bind h
      cases h
      rw [hassign] at hlength
      exact List.forall_mem_cons.mpr ⟨hlength, ih hothers⟩
    next => cases h

namespace Plan

/-- A row is spread into rows that are as wide as itself. -/
theorem length_of_spread {plan : Plan} {scope : Scope} {before after : Aggregates}
    {rows : List (List Value)} (h : (plan.spread scope).Gives before (.ok rows) after) :
    ∀ row ∈ rows, row.length = scope.values.length := by
  unfold spread at h
  split at h
  case h_2 =>
    obtain rfl := Except.ok.inj (h.unique (gives_pure _ _)).1
    exact fun row hrow => congrArg List.length (List.mem_singleton.mp hrow)
  case h_1 target _ =>
    have hsettles := scope.evaluateAt_settles ⟨.explode, none⟩ target
    obtain ⟨value, middle, -, h⟩ := h.of_bind hsettles fun value => by
      cases value
      case null => exact settles_pure _
      case list items => exact settles_ofResult _
      all_goals exact settles_throw _
    cases value
    case null =>
      obtain rfl := Except.ok.inj (h.unique (gives_pure _ _)).1
      exact fun _ hrow => absurd hrow List.not_mem_nil
    case list items =>
      exact Scope.length_of_assignEach (h.unique (gives_ofResult _ _)).1.symm
    all_goals exact nomatch (h.unique (gives_throw _ _)).1

/-! ### The values of items -/

/-- A compiled item that belongs to an item of `SELECT`. -/
inductive Fits : PlanItem → SelectItem → Prop
  | star : Fits .star .star
  | column (name text : String) (expr : Expr) : Fits (.expression expr) (.column name text)

theorem fits_fillItems {items : List SelectItem} {exprs : List Expr}
    (h : exprs.length = (items.filterMap itemText?).length) :
    List.Forall₂ Fits (fillItems items exprs) items := by
  induction items generalizing exprs with
  | nil => exact .nil
  | cons item rest ih =>
    cases item with
    | star => exact .cons .star (ih h)
    | column name text =>
      cases exprs with
      | nil => cases h
      | cons expr others => exact .cons (.column name text expr) (ih (Nat.succ.inj h))

/-- An item that is an expression has the expression of its text in the plan. -/
theorem getElem?_fillItems {related : String → Expr → Prop} {items : List SelectItem}
    {exprs : List Expr} (h : List.Forall₂ related (items.filterMap itemText?) exprs) {index : Nat}
    {name text : String} (hitem : items[index]? = some (.column name text)) :
    ∃ expr, (fillItems items exprs)[index]? = some (.expression expr) ∧ related text expr := by
  induction items generalizing exprs index with
  | nil => cases hitem
  | cons item rest ih =>
    cases item with
    | star =>
      cases index with
      | zero => cases hitem
      | succ index => exact ih h hitem
    | column otherName other =>
      obtain ⟨expr, others, hexpr, hothers, rfl⟩ := List.forall₂_cons_left_iff.mp h
      cases index with
      | zero =>
        cases hitem
        exact ⟨expr, rfl, hexpr⟩
      | succ index => exact ih hothers hitem

/-- An item that is an expression stands in the plan as what its text compiles to. -/
theorem getElem?_items {policy : WarningPolicy} {query : Query} {bindings : ColumnBindings}
    {plan : Plan} (hplan : (Plan.ofQuery policy query bindings).Gives (.ok plan))
    (hself : ∀ text ∈ query.selection.items.filterMap itemText?,
      Expr.SelfContained (bindings.prepare query.literals text).toList)
    {index : Nat} {name text : String}
    (hitem : query.selection.items[index]? = some (.column name text)) :
    ∃ expr, plan.items[index]? = some (.expression expr) ∧
      (Expr.compile policy (bindings.prepare query.literals text)).Gives (.ok expr) := by
  obtain ⟨exprs, _, hitems, hfilled, -⟩ := parts_of_ofQuery policy hplan
  have htexts : (query.selection.items.map itemText?).filterMap id =
      query.selection.items.filterMap itemText? := by
    rw [List.filterMap_map]
    rfl
  have hexprs := compiles_of_compileClause (htexts.symm ▸ hself) hitems
  rw [htexts] at hexprs
  rw [hfilled]
  exact getElem?_fillItems hexprs hitem

/-- The items of a plan are those of its query. -/
theorem fits_of_ofQuery {policy : WarningPolicy} {query : Query} {bindings : ColumnBindings}
    {plan : Plan} (h : (Plan.ofQuery policy query bindings).Gives (.ok plan)) :
    List.Forall₂ Fits plan.items query.selection.items := by
  obtain ⟨items, _, hitems, hplan, -⟩ := parts_of_ofQuery policy h
  rw [hplan]
  refine fits_fillItems ?_
  have hlength := length_compileList policy _ hitems
  have hcount := congrArg List.length (map_numbered 1 (query.selection.items.map itemText?))
  rw [List.length_map] at hlength hcount
  rw [hlength, hcount, List.filterMap_map]
  rfl

/-- The items before others give the values before theirs. -/
theorem gives_of_project_append {scope : Scope} {before rest : List PlanItem} {position : Nat}
    {table after : Aggregates} {values : List Value}
    (h : (project scope position (before ++ rest)).Gives table (.ok values) after) :
    ∃ earlier middle later, (project scope position before).Gives table (.ok earlier) middle ∧
      (project scope (position + before.length) rest).Gives middle (.ok later) after ∧
      values = earlier ++ later := by
  rw [project_append] at h
  obtain ⟨earlier, middle, hearlier, hnext⟩ := h.of_bind (project_settles scope _ _)
    fun _ => (project_settles scope _ _).bind fun _ => settles_pure _
  obtain ⟨later, _, hlater, hlast⟩ :=
    hnext.of_bind (project_settles scope _ _) fun _ => settles_pure _
  obtain ⟨hvalues, rfl⟩ := hlast.unique (gives_pure _ _)
  exact ⟨earlier, middle, later, hearlier, hlater, Except.ok.inj hvalues⟩

theorem length_of_project {scope : Scope} {items : List PlanItem} {selected : List SelectItem}
    (hfits : List.Forall₂ Fits items selected) {position : Nat} {table after : Aggregates}
    {values : List Value} (h : (project scope position items).Gives table (.ok values) after) :
    values.length = outputWidth selected scope.values.length := by
  induction hfits generalizing position table values with
  | nil =>
    obtain rfl := Except.ok.inj (h.unique (gives_pure _ _)).1
    rfl
  | @cons item selected items others hitem _ ih =>
    cases hitem with
    | star =>
      obtain ⟨found, last, hfound, hlast⟩ :=
        h.of_bind (project_settles scope _ _) fun _ => settles_pure _
      obtain ⟨hvalues, rfl⟩ := hlast.unique (gives_pure _ _)
      obtain rfl := Except.ok.inj hvalues
      rw [List.length_append, ih hfound]
      rfl
    | column name text expr =>
      obtain ⟨value, started, hvalue, hnext⟩ := h.of_bind (scope.evaluateAt_settles _ expr)
        fun _ => (project_settles scope _ _).bind fun _ => settles_pure _
      obtain ⟨found, last, hfound, hlast⟩ :=
        hnext.of_bind (project_settles scope _ _) fun _ => settles_pure _
      obtain ⟨hvalues, rfl⟩ := hlast.unique (gives_pure _ _)
      obtain rfl := Except.ok.inj hvalues
      rw [List.length_cons, ih hfound, Nat.add_comm]
      rfl

/-- The value of an item of `SELECT` on a row: that of its expression, which is evaluated after the
items before it. -/
def Selects (plan : Plan) (scope : Scope) (table : Aggregates) (index : Nat) (value : Value) :
    Prop :=
  ∃ expr earlier middle last, plan.items[index]? = some (.expression expr) ∧
    (project scope 1 (plan.items.take index)).Gives table (.ok earlier) middle ∧
    (scope.evaluateAt ⟨.select, some (index + 1)⟩ expr).Gives middle (.ok value) last

/-- The value of an item stands behind those of the items before it. -/
theorem selects_of_project {plan : Plan} {scope : Scope} {table after : Aggregates}
    {values : List Value} {before rest : List SelectItem} {name text : String}
    (hfits : List.Forall₂ Fits plan.items (before ++ .column name text :: rest))
    (h : (project scope 1 plan.items).Gives table (.ok values) after) :
    ∃ value, plan.Selects scope table before.length value ∧
      values[outputWidth before scope.values.length]? = some value := by
  have hbefore := List.forall₂_take_append _ _ _ hfits
  have hrest := List.forall₂_drop_append _ _ _ hfits
  have hsplit := List.take_append_drop before.length plan.items
  cases hitems : plan.items.drop before.length with
  | nil => rw [hitems] at hrest; cases hrest
  | cons item others =>
    rw [hitems] at hrest hsplit
    obtain ⟨hitem, -⟩ := List.forall₂_cons.mp hrest
    cases hitem with
    | column _ _ expr =>
      rw [← hsplit] at h
      obtain ⟨earlier, middle, later, hearlier, hlater, rfl⟩ := gives_of_project_append h
      obtain ⟨value, last, hvalue, hnext⟩ := hlater.of_bind (scope.evaluateAt_settles _ expr)
        fun _ => (project_settles scope _ _).bind fun _ => settles_pure _
      obtain ⟨found, _, -, hlast⟩ :=
        hnext.of_bind (project_settles scope _ _) fun _ => settles_pure _
      obtain rfl := Except.ok.inj (hlast.unique (gives_pure _ _)).1
      have hlength := length_of_project hbefore hearlier
      have hcount : (plan.items.take before.length).length = before.length :=
        hbefore.length_eq
      refine ⟨value, ⟨expr, earlier, middle, last, ?_, hearlier, ?_⟩, ?_⟩
      · rw [← hsplit, List.getElem?_append_right hcount.le, hcount, Nat.sub_self]
        rfl
      · rwa [hcount, Nat.add_comm] at hvalue
      · rw [← hlength, List.getElem?_append_right le_rfl, Nat.sub_self]
        rfl

end Plan

/-- Whatever the writer, a run hands it a header of the output columns, then rows and flushes; or
nothing at all if it fails before. Each row is made of a row of the source. It has as many values as
the header exactly if no star is selected or the row of the source is as wide as the columns of the
input. An item that no star stands before, or any item for a row of that width, has its value at
the place of its name. -/
theorem rows_aligned {σ : Type} (job : Job) (writer : Writer σ) (start : σ) (source : Source) :
    let names := Job.namesOf [] source
    let columns := outputColumns job.query.selection.items names
    let events := (job.run writer.noting ([], start) source).2.1.writer.1.reverse
    events = [] ∨ ∃ later, events = .header columns :: later ∧
      ∀ event ∈ later, event = .flush ∨
        ∃ input plan scope table values, event = .row values ∧
          job.Makes source names input plan scope table values ∧
          (values.length = columns.length ↔
            .star ∉ job.query.selection.items ∨ input.length = names.length) ∧
          ∀ before name text rest, job.query.selection.items = before ++ .column name text :: rest →
            (.star ∉ before ∨ input.length = names.length) →
              columns[(outputColumns before names).length]? = some name ∧
              ∃ value, plan.Selects scope table before.length value ∧
                values[(outputColumns before names).length]? = some value := by
  intro names columns events
  refine (job.events_of_run writer start source).imp_right fun ⟨later, hevents, hlater⟩ =>
    ⟨later, hevents, fun event hevent => (hlater event hevent).imp_right ?_⟩
  rintro ⟨values, rfl, input, plan, scope, table, hmakes⟩
  obtain ⟨bindings, hplan⟩ := hmakes.planned
  obtain ⟨state, rows, _, _, hspread, hscope⟩ := hmakes.spread
  obtain ⟨_, hprojected⟩ := hmakes.projected
  have hfits := Plan.fits_of_ofQuery hplan
  have hinput : scope.values.length = input.length := Plan.length_of_spread hspread _ hscope
  refine ⟨input, plan, scope, table, values, rfl, hmakes, ?_, ?_⟩
  · rw [Plan.length_of_project hfits hprojected, length_outputColumns, hinput]
    exact outputWidth_eq_iff
  · intro before name text rest hitems hwidth
    rw [hitems] at hfits
    obtain ⟨value, hselects, hvalue⟩ := Plan.selects_of_project hfits hprojected
    have hplace : outputWidth before scope.values.length = (outputColumns before names).length := by
      rw [length_outputColumns, hinput]
      exact outputWidth_eq_iff.mpr hwidth
    refine ⟨?_, value, hselects, hplace ▸ hvalue⟩
    change (outputColumns job.query.selection.items names)[_]? = _
    rw [hitems, outputColumns_append, List.getElem?_append_right le_rfl, Nat.sub_self]
    rfl

/-- A query for all columns and one more. -/
def Job.starred : Job where
  query := { Query.selectAll none 0 with
    selection := { items := [.star, .column "x" "7"], distinct := false, partials := false } }

/-- A row after a wider one is shorter than the header, and its last value stands under the name of
a column of the input. -/
theorem rows_not_aligned :
    let source := Source.ofRows [[.ofInt 1, .ofInt 2], [.ofInt 3]]
    let table := Writer.collected (Job.starred.run Writer.collector {} source).2.1.writer
    table.columns = ["col1", "col2", "x"] ∧
      table.rows = [[.ofInt 1, .ofInt 2, .ofInt 7], [.ofInt 3, .ofInt 7]] := by
  refine ⟨by decide +kernel, List.map_injective_iff.mpr (fun _ _ => eq_of_tupleKey) ?_⟩
  decide +kernel

end StreamQuery
