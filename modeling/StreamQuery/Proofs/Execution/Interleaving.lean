import Mathlib.Data.List.TakeWhile
import StreamQuery.Proofs.Execution.Groups

/-!
# Interleaved groups

Runs of one grouping query on sources that interleave the same records of every group. Each of them
gives every group the row that a run on the records of the group alone gives it, and the groups come
in the order in which they appear first. An aggregate called in `WHERE` or `GROUP BY` would spoil
this: at that point the accumulators are still those of the group of the row before.
-/

namespace StreamQuery

open Stateful

/-- A query that does no more than group its rows. -/
structure Query.GroupsOnly (query : Query) : Prop where
  groups : query.groups = true
  partials : query.selection.partials = false
  explode : query.explode = none
  orderBy : query.orderBy = []
  limit : query.limit = none
  offset : query.offset = 0

/-! ### Sources -/

namespace Source

theorem leading_append_body (source : Source) : source.leading ++ source.body = source :=
  List.takeWhile_append_dropWhile

theorem row?_of_mem_leading {source : Source} {pull : Pull} (h : pull ∈ source.leading) :
    pull.row? = none := by
  simpa using List.mem_takeWhile_imp h

theorem mem_of_mem_body {source : Source} {pull : Pull} (h : pull ∈ source.body) :
    pull ∈ source :=
  List.dropWhile_subset _ h

theorem row?_of_head?_body {source : Source} {pull : Pull} (h : pull ∈ source.body.head?) :
    pull.row?.isSome = true := by
  have hhead := List.head?_dropWhile_not (fun pull : Pull => pull.row?.isNone) source
  rw [body, Option.mem_def] at h
  rw [h] at hhead
  simpa using hhead

end Source

namespace Job

/-- The records of a source that belong to one group, after the records before the first row. -/
def ofGroup (job : Job) (source : Source) (key : String) : Source :=
  source.leading ++
    source.filter fun pull => job.groupOf (job.layout source) pull == some key

/-- The groups of records in the order in which they appear first, under the layout of a source. -/
def groupKeys (job : Job) (source records : Source) : List String :=
  (records.filterMap (job.groupOf (job.layout source))).eraseDups

/-- A source with the records of another one in another order, which is the same order within each
group. -/
structure Interleaves (job : Job) (source other : Source) : Prop where
  leading : other.leading = source.leading
  body : other.body.Perm source.body
  group : ∀ key : String,
    (other.body.filter fun pull => job.groupOf (job.layout source) pull == some key) =
      source.body.filter fun pull => job.groupOf (job.layout source) pull == some key

theorem Interleaves.refl (job : Job) (source : Source) : job.Interleaves source source :=
  ⟨rfl, .refl _, fun _ => rfl⟩

/-- A run on a source succeeds and writes a header, rows and one flush. -/
def Writes (job : Job) (source : Source) (header : Event) (rows : List (List Value)) : Prop :=
  ∃ stats, (job.run Writer.recorder [] source).1 = .ok stats ∧
    (job.run Writer.recorder [] source).2.1.writer.reverse = header :: rows.map .row ++ [.flush]

theorem Writes.unique {job : Job} {source : Source} {header otherHeader : Event}
    {rows others : List (List Value)}
    (h : job.Writes source header rows) (hother : job.Writes source otherHeader others) :
    rows = others := by
  obtain ⟨_, -, hevents⟩ := h
  obtain ⟨_, -, hothers⟩ := hother
  have heq := (List.cons.inj (hevents.symm.trans hothers)).2
  exact List.map_injective_iff.mpr (fun _ _ => Event.row.inj) (List.append_cancel_right heq)

theorem rowsOf_eq_lastOfEach {job : Job} (hquery : job.query.GroupsOnly) (source : Source) :
    job.rowsOf source =
      (lastOfEach OutputRecord.groupKey (job.recordsOf source)).map (·.values) := by
  simp [rowsOf, Query.rowsOf, Query.window, Query.consolidate, hquery.groups, hquery.partials,
    hquery.orderBy, hquery.limit, hquery.offset, upTo, sortRecords, sortFrom]

/-- A run whose records can all be collected writes the rows that they mean. -/
theorem writes_of_collected {job : Job} (hlimit : job.query.limit ≠ some 0) {source : Source}
    (hcollected : (job.collected source).1 = .ok ()) :
    job.Writes source (job.headerOf (namesOf [] source)) (job.rowsOf source) := by
  obtain ⟨stats, state, hdelivers, hgives⟩ := delivers_of_collected hlimit hcollected
  obtain ⟨hresult, hstate⟩ := job.run_of_gives hgives
  refine ⟨stats, hresult, ?_⟩
  rw [hstate, hdelivers.events]

/-- A run whose records can all be collected writes the last one of every group. -/
theorem writes_of_collect {job : Job} (hquery : job.query.GroupsOnly) {source : Source}
    {last : RunState (List OutputRecord)}
    (hcollect : (job.collect [] source).Gives (job.initial []) (.ok ()) last) :
    job.Writes source (job.headerOf (namesOf [] source))
      ((lastOfEach OutputRecord.groupKey last.writer.reverse).map (·.values)) := by
  have hwriter : last.writer =
      last.writer.reverse.reverse ++ (job.initial ([] : List OutputRecord)).writer := by
    simp [initial]
  obtain ⟨hcollected, hrecords⟩ := job.collected_of_gives hcollect hwriter
  have hwrites := writes_of_collected (by simp [hquery.limit]) hcollected
  rwa [rowsOf_eq_lastOfEach hquery, hrecords] at hwrites

theorem namesOf_append (declared : List String) (leading body : Source) (width : Nat)
    (hleading : ∀ pull ∈ leading, pull.row? = none)
    (hbody : ∀ pull ∈ body.head?, ∃ values, pull.row? = some values ∧ values.length = width) :
    namesOf declared (leading ++ body) =
      if body.isEmpty then namesOf declared leading
      else columnNames (namesOf declared leading) width := by
  induction leading generalizing declared with
  | nil =>
    cases body with
    | nil => rfl
    | cons pull rest =>
      obtain ⟨values, hrow, rfl⟩ := hbody pull rfl
      unfold Pull.row? at hrow
      split at hrow
      · next hresult =>
        obtain rfl := Option.some.inj hrow
        simp [namesOf, hresult]
      · cases hrow
  | cons pull rest ih =>
    rw [List.forall_mem_cons] at hleading
    unfold Pull.row? at hleading
    cases hresult : pull.result with
    | error error => simpa [namesOf, hresult] using ih declared hleading.2
    | ok record =>
      cases record with
      | row values => simp [hresult] at hleading
      | header names => simpa [namesOf, hresult] using ih names hleading.2

section Runs

variable {job : Job} (hquery : job.query.GroupsOnly) {width : Nat} {leading body : Source}
  (hleading : ∀ pull ∈ leading, pull.row? = none)
  (hbody : ∀ pull ∈ body.head?, ∃ values, pull.row? = some values ∧ values.length = width)
  (hplans : ∀ plan, (job.layoutFor (namesOf [] leading) width).plan = .ok plan →
    plan.Separates)
include hleading hbody hplans

/-- Collecting the records of a run is the fold of its body. -/
theorem collect_folds :
    Ends (job.collect [] (leading ++ body)) (job.initial [])
      (if leading.all job.takes then
        body.foldlM (job.absorb (job.layoutFor (namesOf [] leading) width)) ({}, [])
      else none) :=
  job.collect_ends [] leading body width hleading hbody hplans (job.initial [])

include hquery

/-- A run on a source that can be folded writes one row for every group. -/
theorem writes_of_fold {after : Progress} (htakes : leading.all job.takes = true)
    (hfold : body.foldlM (job.absorb (job.layoutFor (namesOf [] leading) width)) ({}, []) =
      some after) :
    job.Writes (leading ++ body) (job.headerOf (namesOf [] (leading ++ body)))
      (((body.filterMap (job.groupOf (job.layoutFor (namesOf [] leading) width))).eraseDups).map
        (rowIn after.2)) := by
  have hends := job.collect_folds hleading hbody hplans
  rw [if_pos htakes, hfold] at hends
  obtain ⟨last, hcollect, rfl⟩ := hends
  have hwrites := writes_of_collect hquery hcollect
  have hkeys := groupKeys_of_fold hfold
  rw [lastOfEach_reverse, hkeys] at hwrites
  simpa using hwrites

/-- A run that succeeds could be folded. -/
theorem fold_of_run {stats : Stats}
    (hrun : (job.run Writer.recorder [] (leading ++ body)).1 = .ok stats) :
    leading.all job.takes = true ∧ ∃ after,
      body.foldlM (job.absorb (job.layoutFor (namesOf [] leading) width)) ({}, []) =
        some after := by
  have hlimit : job.query.limit ≠ some 0 := by simp [hquery.limit]
  have hcollected : (job.collected (leading ++ body)).1 = .ok () := by
    rcases collected_of_run hlimit hrun with hfills | hcollected
    · rw [job.fills_eq_false hquery.limit] at hfills
      cases hfills
    · exact hcollected
  have hends := job.collect_folds hleading hbody hplans
  cases hfold : (if leading.all job.takes then
      body.foldlM (job.absorb (job.layoutFor (namesOf [] leading) width)) ({}, [])
    else none) with
  | none =>
    rw [hfold] at hends
    obtain ⟨error, after, hfails⟩ := hends
    rw [collected, hfails.outcome_eq] at hcollected
    cases hcollected
  | some after =>
    obtain ⟨htakes, hfold⟩ := Option.ite_none_right_eq_some.mp hfold
    exact ⟨htakes, after, hfold⟩

end Runs

theorem groupOf_eq_none {job : Job} {layout : Layout} {pull : Pull} (h : pull.row? = none) :
    job.groupOf layout pull = none := by
  unfold groupOf
  rw [h]
  cases layout.plan <;> rfl

theorem row?_of_groupOf {job : Job} {layout : Layout} {pull : Pull} {key : String}
    (h : job.groupOf layout pull = some key) : pull.row?.isSome = true := by
  rw [Option.isSome_iff_ne_none]
  intro hnone
  rw [groupOf_eq_none hnone] at h
  cases h

theorem groupKeys_eq_body (job : Job) (source records : Source) :
    job.groupKeys source records =
      (records.body.filterMap (job.groupOf (job.layout source))).eraseDups := by
  have hleading : records.leading.filterMap (job.groupOf (job.layout source)) = [] :=
    List.filterMap_eq_nil_iff.mpr fun pull hpull =>
      groupOf_eq_none (Source.row?_of_mem_leading hpull)
  have hrecords := congrArg (List.filterMap (job.groupOf (job.layout source)))
    records.leading_append_body
  rw [List.filterMap_append, hleading, List.nil_append] at hrecords
  rw [groupKeys, hrecords]

theorem ofGroup_eq_body (job : Job) (source : Source) (key : String) :
    job.ofGroup source key = source.leading ++
      source.body.filter fun pull => job.groupOf (job.layout source) pull == some key := by
  have hleading : (source.leading.filter fun pull =>
      job.groupOf (job.layout source) pull == some key) = [] := by
    refine List.filter_eq_nil_iff.mpr fun pull hpull => ?_
    simp [groupOf_eq_none (Source.row?_of_mem_leading hpull)]
  have hsource := congrArg
    (List.filter fun pull => job.groupOf (job.layout source) pull == some key)
    source.leading_append_body
  rw [List.filter_append, hleading, List.nil_append] at hsource
  rw [ofGroup, hsource]

/-- The records of one group alone have that group only. -/
theorem eraseDups_groupOf {job : Job} {layout : Layout} {key : String} {records : Source}
    (h : key ∈ records.filterMap (job.groupOf layout)) :
    ((records.filter fun pull => job.groupOf layout pull == some key).filterMap
      (job.groupOf layout)).eraseDups = [key] := by
  have hall : ∀ group ∈ (records.filter fun pull => job.groupOf layout pull == some key).filterMap
      (job.groupOf layout), group = key := by
    intro group hgroup
    obtain ⟨pull, hpull, hgroup⟩ := List.mem_filterMap.mp hgroup
    have hkey := (List.mem_filter.mp hpull).2
    rw [hgroup] at hkey
    simpa using hkey
  have hmem : key ∈ (records.filter fun pull => job.groupOf layout pull == some key).filterMap
      (job.groupOf layout) := by
    obtain ⟨pull, hpull, hgroup⟩ := List.mem_filterMap.mp h
    exact List.mem_filterMap.mpr ⟨pull, List.mem_filter.mpr ⟨hpull, by simp [hgroup]⟩, hgroup⟩
  generalize (records.filter fun pull => job.groupOf layout pull == some key).filterMap
    (job.groupOf layout) = groups at hall hmem
  cases groups with
  | nil => cases hmem
  | cons group rest =>
    rw [List.forall_mem_cons] at hall
    obtain ⟨rfl, hrest⟩ := hall
    have hnone : (rest.filter fun other => !other == group) = [] :=
      List.filter_eq_nil_iff.mpr fun other hother => by simp [hrest other hother]
    rw [List.eraseDups_cons, hnone, List.eraseDups_nil]

section Parts

variable {job : Job} (hquery : job.query.GroupsOnly) {source : Source}
  (hplans : ∀ plan, (job.layout source).plan = .ok plan → plan.Separates)
  (hwidth : ∀ pull ∈ source, ∀ values, pull.row? = some values → values.length = source.width)
include hwidth

/-- The first record of a part of a source is a row with as many columns as all others. -/
theorem row_of_part {records : Source} (hmem : ∀ pull ∈ records, pull ∈ source.body)
    (hrow : ∀ pull ∈ records.head?, pull.row?.isSome = true) :
    ∀ pull ∈ records.head?, ∃ values, pull.row? = some values ∧ values.length = source.width := by
  intro pull hpull
  obtain ⟨values, hvalues⟩ := Option.isSome_iff_exists.mp (hrow pull hpull)
  have hsource := Source.mem_of_mem_body (hmem pull (List.mem_of_mem_head? hpull))
  exact ⟨values, hvalues, hwidth pull hsource values hvalues⟩

theorem row_of_body :
    ∀ pull ∈ source.body.head?, ∃ values, pull.row? = some values ∧
      values.length = source.width :=
  row_of_part hwidth (fun _ hpull => hpull) fun _ hpull => Source.row?_of_head?_body hpull

/-- A part of a source that is not empty, unless the whole is, has the columns of the whole. -/
theorem namesOf_part {records : Source} (hmem : ∀ pull ∈ records, pull ∈ source.body)
    (hrow : ∀ pull ∈ records.head?, pull.row?.isSome = true)
    (hempty : records = [] → source.body = []) :
    namesOf [] (source.leading ++ records) = namesOf [] source := by
  have hleading (pull : Pull) (hpull : pull ∈ source.leading) := Source.row?_of_mem_leading hpull
  have hpart := namesOf_append [] source.leading records source.width hleading
    (row_of_part hwidth hmem hrow)
  have hwhole := namesOf_append [] source.leading source.body source.width hleading
    (row_of_body hwidth)
  rw [source.leading_append_body] at hwhole
  rw [hpart, hwhole]
  cases records with
  | nil => rw [hempty rfl]
  | cons pull rest =>
    cases hbody : source.body with
    | nil =>
      have hpull := hmem pull List.mem_cons_self
      rw [hbody] at hpull
      cases hpull
    | cons first others => rfl

include hquery hplans

/-- A run on a part of a source that can be folded writes one row for every group of the part. -/
theorem writes_of_part {records : Source} {after : Progress}
    (hmem : ∀ pull ∈ records, pull ∈ source.body)
    (hrow : ∀ pull ∈ records.head?, pull.row?.isSome = true)
    (hempty : records = [] → source.body = []) (htakes : source.leading.all job.takes = true)
    (hfold : records.foldlM (job.absorb (job.layout source)) ({}, []) = some after) :
    job.Writes (source.leading ++ records) (job.headerOf (namesOf [] source))
      ((records.filterMap (job.groupOf (job.layout source))).eraseDups.map (rowIn after.2)) := by
  have hleading (pull : Pull) (hpull : pull ∈ source.leading) := Source.row?_of_mem_leading hpull
  have hwrites := writes_of_fold hquery hleading (row_of_part hwidth hmem hrow) hplans htakes hfold
  rwa [namesOf_part hwidth hmem hrow hempty] at hwrites

variable {after : Progress} (htakes : source.leading.all job.takes = true)
  (hfold : source.body.foldlM (job.absorb (job.layout source)) ({}, []) = some after)
include htakes hfold

/-- A run on the records of one group writes the row that the group has among all records. -/
theorem writes_ofGroup {key : String} (hkey : key ∈ job.groupKeys source source) :
    job.Writes (job.ofGroup source key) (job.headerOf (namesOf [] source))
      [rowIn after.2 key] := by
  rw [groupKeys_eq_body, List.mem_eraseDups] at hkey
  obtain ⟨alone, halone, hagrees⟩ := fold_of_group hplans hfold (.refl key _)
  have hrow : ∀ pull ∈ (source.body.filter fun pull =>
      job.groupOf (job.layout source) pull == some key).head?, pull.row?.isSome = true := by
    intro pull hpull
    exact row?_of_groupOf (eq_of_beq (List.mem_filter.mp (List.mem_of_mem_head? hpull)).2)
  have hnonempty : (source.body.filter fun pull =>
      job.groupOf (job.layout source) pull == some key) ≠ [] := by
    obtain ⟨pull, hpull, hgroup⟩ := List.mem_filterMap.mp hkey
    exact List.ne_nil_of_mem (List.mem_filter.mpr ⟨hpull, beq_iff_eq.mpr hgroup⟩)
  have hwrites := writes_of_part hquery hplans hwidth
    (fun _ hpull => (List.mem_filter.mp hpull).1) hrow (fun hnone => absurd hnone hnonempty) htakes
    halone
  rwa [eraseDups_groupOf hkey, List.map_singleton, ← hagrees.rowIn_eq,
    ← job.ofGroup_eq_body source key] at hwrites

/-- A run on the records in another order writes the same row for every group. -/
theorem writes_of_interleaves {other : Source} (hother : job.Interleaves source other) :
    job.Writes other (job.headerOf (namesOf [] source))
      ((job.groupKeys source other).map (rowIn after.2)) := by
  have hmem (pull : Pull) (hpull : pull ∈ other.body) : pull ∈ source.body :=
    hother.body.mem_iff.mp hpull
  have hempty (hnone : other.body = []) : source.body = [] :=
    List.nil_perm.mp (hnone ▸ hother.body)
  -- The records of each group are absorbed alone as among all records of the source, and the
  -- records of no group everywhere.
  obtain ⟨last, hlast⟩ : ∃ last, other.body.foldlM (job.absorb (job.layout source)) ({}, []) =
      some last := by
    refine fold_of_groups hplans
      (fun pull hpull => drops_of_fold hfold pull (hmem pull hpull)) fun key => ?_
    obtain ⟨alone, halone, -⟩ := fold_of_group hplans hfold (.refl key _)
    rw [← hother.group key] at halone
    exact ⟨_, alone, .refl key _, halone⟩
  have hrows : rowIn last.2 = rowIn after.2 := by
    funext key
    exact rowIn_of_fold hplans (hother.group key) hfold hlast
  have hwrites := writes_of_part hquery hplans hwidth hmem
    (fun _ hpull => Source.row?_of_head?_body hpull) hempty htakes hlast
  rwa [hrows, ← hother.leading, other.leading_append_body, ← job.groupKeys_eq_body source other]
    at hwrites

end Parts

/-- The plan of a query that only groups does not do more if it groups by values. -/
theorem separates_of_groupsByValues {job : Job} (hquery : job.query.GroupsOnly) {source : Source}
    (hplan : ∀ plan, (job.layout source).plan = .ok plan → plan.GroupsByValues) :
    ∀ plan, (job.layout source).plan = .ok plan → plan.Separates := by
  intro plan hlayout
  have hcompiled := job.gives_layoutFor (namesOf [] source.leading) source.width
  change Reporting.Gives _ (job.layout source).plan at hcompiled
  rw [hlayout] at hcompiled
  obtain ⟨hexplode, hgroupBy, horderBy⟩ := Plan.shape_of_ofQuery job.policy hquery.groups
    hquery.explode hquery.orderBy hcompiled
  exact ⟨hplan plan hlayout, hexplode, horderBy, hgroupBy⟩

end Job

/-- Groups do not interfere, if `WHERE` and `GROUP BY` call no aggregates: a run that groups its
rows gives every group the row of a run on the records of the group alone, and so does a run on the
records in any other order that keeps those of each group in order. The groups come in the order of
their first records. -/
theorem groups_do_not_interfere (job : Job) (source : Source) (hquery : job.query.GroupsOnly)
    (hplan : ∀ plan, (job.layout source).plan = .ok plan → plan.GroupsByValues)
    (hwidth : ∀ pull ∈ source, ∀ values, pull.row? = some values →
      values.length = source.width)
    (hrun : ∃ stats, (job.run Writer.recorder [] source).1 = .ok stats) :
    ∃ rowOf : String → List Value,
      job.Writes source (job.headerOf (Job.namesOf [] source))
        ((job.groupKeys source source).map rowOf) ∧
      (∀ key ∈ job.groupKeys source source,
        job.Writes (job.ofGroup source key) (job.headerOf (Job.namesOf [] source)) [rowOf key]) ∧
      ∀ other, job.Interleaves source other →
        job.Writes other (job.headerOf (Job.namesOf [] source))
          ((job.groupKeys source other).map rowOf) := by
  obtain ⟨stats, hrun⟩ := hrun
  have hplans := Job.separates_of_groupsByValues hquery hplan
  rw [← source.leading_append_body] at hrun
  obtain ⟨htakes, after, hfold⟩ := Job.fold_of_run hquery
    (fun _ hpull => Source.row?_of_mem_leading hpull) (Job.row_of_body hwidth) hplans hrun
  refine ⟨rowIn after.2, ?_, fun key hkey => ?_, fun other hother => ?_⟩
  · exact Job.writes_of_interleaves hquery hplans hwidth htakes hfold (.refl job source)
  · exact Job.writes_ofGroup hquery hplans hwidth htakes hfold hkey
  · exact Job.writes_of_interleaves hquery hplans hwidth htakes hfold hother

/-- A run that counts the values of the second column in every group of the first one. -/
def Job.countingByFirst : Job where
  query := { Query.selectAll none 0 with
    selection := { items := [.column "n" "count_agg(col2)"], distinct := false, partials := false }
    groupBy := ["col1"] }

/-- The rows of two groups, those of the first group around that of the second one. -/
def Source.surrounding : Source :=
  .ofRows [[.bool true, .null], [.bool false, .bool true], [.bool true, .bool true]]

/-- The rows of two groups, that of the second group in front. -/
def Source.leadingSecond : Source :=
  .ofRows [[.bool false, .bool true], [.bool true, .null], [.bool true, .bool true]]

/-- The plan of the run. -/
def Plan.countingByFirst : Plan where
  items := [.expression (.call "count_agg" [.column 1])]
  explode := none
  condition := none
  groupBy := [.column 0]
  orderBy := []

/-- Whether compiling gave the plan of the run. -/
def Plan.isCountingByFirst : Except Error Plan → Bool
  | .ok ⟨[.expression (.call "count_agg" [.column 1])], none, none, [.column 0], []⟩ => true
  | _ => false

theorem Plan.eq_of_isCountingByFirst {result : Except Error Plan}
    (h : isCountingByFirst result = true) : result = .ok countingByFirst := by
  unfold isCountingByFirst at h
  split at h
  · rfl
  · cases h

/-- What the run of the counting query over the two groups comes to. -/
theorem Job.countingByFirst_computes :
    Plan.isCountingByFirst (countingByFirst.layout .surrounding).plan = true ∧
    (countingByFirst.run Writer.recorder [] .surrounding).1.isOk = true ∧
    countingByFirst.groupOf (countingByFirst.layout .surrounding)
      ⟨[], .ok (.row [.bool true, .null])⟩ = some "[true]" ∧
    countingByFirst.groupOf (countingByFirst.layout .surrounding)
      ⟨[], .ok (.row [.bool false, .bool true])⟩ = some "[false]" ∧
    countingByFirst.groupKeys .surrounding .surrounding = ["[true]", "[false]"] ∧
    countingByFirst.groupKeys .surrounding .leadingSecond = ["[false]", "[true]"] := by
  decide +kernel

theorem Job.interleaves_leadingSecond :
    Job.countingByFirst.Interleaves .surrounding .leadingSecond where
  leading := rfl
  body := List.Perm.swap _ _ _
  group key := by
    obtain ⟨-, -, hfirst, hsecond, -, -⟩ := countingByFirst_computes
    change List.filter _ ([⟨[], _⟩, ⟨[], _⟩, ⟨[], _⟩] : Source) =
      List.filter _ ([⟨[], _⟩, ⟨[], _⟩, ⟨[], _⟩] : Source)
    by_cases hkey : key = "[true]"
    · subst hkey
      simp [hfirst, hsecond]
    · simp [List.filter_cons, hfirst, Ne.symm hkey]

theorem Plan.groupsByValues_countingByFirst : Plan.countingByFirst.GroupsByValues := by
  constructor <;> simp [countingByFirst, Expr.IgnoresRowNumbers, Expr.CallsNoAggregate,
    itemExpressions, Expr.calledFunctions, Expr.subexpressions, Expr.listSubexpressions,
    Expr.ownCall?]

theorem Job.groupsByValues_countingByFirst {plan : Plan}
    (h : (Job.countingByFirst.layout .surrounding).plan = .ok plan) : plan.GroupsByValues := by
  have hcompiled := Plan.eq_of_isCountingByFirst Job.countingByFirst_computes.1
  obtain rfl := Except.ok.inj (h.symm.trans hcompiled)
  exact Plan.groupsByValues_countingByFirst

theorem Job.countingByFirst_runs :
    ∃ stats, (Job.countingByFirst.run Writer.recorder [] .surrounding).1 = .ok stats :=
  exists_of_isOk Job.countingByFirst_computes.2.1

/-- Two groups that are counted alone, one around the other and one after the other. -/
theorem groups_do_not_interfere_of_counting :
    Job.countingByFirst.query.GroupsOnly ∧
    ∃ rowOf : String → List Value,
      Job.countingByFirst.Writes .surrounding (.header ["n"]) [rowOf "[true]", rowOf "[false]"] ∧
      Job.countingByFirst.Writes (Job.countingByFirst.ofGroup .surrounding "[true]")
        (.header ["n"]) [rowOf "[true]"] ∧
      Job.countingByFirst.Writes .leadingSecond (.header ["n"])
        [rowOf "[false]", rowOf "[true]"] := by
  have hquery : Job.countingByFirst.query.GroupsOnly := ⟨rfl, rfl, rfl, rfl, rfl, rfl⟩
  have hwidth : ∀ pull ∈ Source.surrounding, ∀ values, pull.row? = some values →
      values.length = Source.surrounding.width := by
    simp [Source.surrounding, Source.ofRows, Source.ofRecords, Source.width, Pull.row?]
  have hheader : Job.countingByFirst.headerOf (Job.namesOf [] .surrounding) = .header ["n"] := rfl
  obtain ⟨-, -, -, -, hkeys, hother⟩ := Job.countingByFirst_computes
  obtain ⟨rowOf, hwhole, hgroup, hinterleaved⟩ :=
    groups_do_not_interfere Job.countingByFirst .surrounding hquery
      (fun _ h => Job.groupsByValues_countingByFirst h) hwidth Job.countingByFirst_runs
  have hsecond := hinterleaved _ Job.interleaves_leadingSecond
  rw [hheader, hkeys] at hwhole
  rw [hheader, hother] at hsecond
  rw [hheader, hkeys] at hgroup
  exact ⟨hquery, rowOf, hwhole, hgroup _ List.mem_cons_self, hsecond⟩

/-! ### An aggregate in `WHERE` -/

/-- A query whose call of an aggregate was read as part of a literal, so that its `WHERE` passes for
one without aggregates. -/
def Query.hidingCondition : Query :=
  { Query.selectAll none 0 with
    condition := some "\x7bx: TRUE\x7d['x__aaaaaaaaaaaa__']"
    groupBy := ["col1"]
    literals := [("__aaaaaaaaaaaa__".toList, ⟨'\'', " if count_agg(TRUE) < 2 else ".toList⟩)] }

/-- The condition of the plan of the query: true as long as the count is less than two. -/
def Expr.hidingCondition : Expr :=
  .item (.object [(.literal (.str "x"), .literal (.bool true))])
    (.ternary (.binary (.call "count_agg" [.literal (.bool true)]) .less (.literal (.ofNat 2)))
      (.literal (.str "x")) (.literal (.str "")))

/-- The plan of the query, in which the call is one. -/
def Plan.hidingCondition : Plan where
  items := [.star]
  explode := none
  condition := some .hidingCondition
  groupBy := [.column 0]
  orderBy := []

/-- Whether compiling gave the plan of the query. -/
def Plan.isHidingCondition : Except Error Plan → Bool
  | .ok ⟨[.star], none,
      some (.item (.object [(.literal (.str "x"), .literal (.bool true))])
        (.ternary (.binary (.call "count_agg" [.literal (.bool true)]) .less
          (.literal (.int ⟨2, _, _⟩))) (.literal (.str "x")) (.literal (.str "")))),
      [.column 0], []⟩ => true
  | _ => false

theorem Plan.eq_of_isHidingCondition {result : Except Error Plan}
    (h : isHidingCondition result = true) : result = .ok hidingCondition := by
  unfold isHidingCondition at h
  split at h
  · rfl
  · cases h

theorem Plan.gives_hidingCondition :
    (Plan.ofQuery .report .hidingCondition (ColumnBindings.ofDeclared 1 [])).Gives
      (.ok Plan.hidingCondition) := by
  have hplan :=
    (Plan.ofQuery_settles .report .hidingCondition (ColumnBindings.ofDeclared 1 [])).gives
  have hcompiled : isHidingCondition ((Plan.ofQuery .report .hidingCondition
      (ColumnBindings.ofDeclared 1 [])).run.run []).1 = true := by
    decide +kernel
  rwa [eq_of_isHidingCondition hcompiled] at hplan

/-- A member that is there while a count stays below a limit, and hidden from then on. -/
theorem Scope.gives_hiddenMember (scope : Scope) (member : Bool) {limit : Nat} {table : Aggregates}
    {kept : Bool}
    (hless : Value.applyBinary .less (table.countWith (.bool true)) (.ofNat limit) =
      .ok (.bool kept)) :
    (scope.evaluate (.item (.object [(.literal (.str "x"), .literal (.bool member))])
      (.ternary (.binary (.call "count_agg" [.literal (.bool true)]) .less
        (.literal (.ofNat limit))) (.literal (.str "x")) (.literal (.str ""))))).Gives table
        (.ok (if kept then .bool member else .null))
        (table.store (.running (table.countWith (.bool true)))) := by
  have hvalue : (scope.evaluate (.literal (.bool true))).Gives table (.ok (.bool true)) table :=
    gives_pure _ _
  have hcount : (scope.evaluate (.binary (.call "count_agg" [.literal (.bool true)]) .less
      (.literal (.ofNat limit)))).Gives table (.ok (.bool kept))
        (table.store (.running (table.countWith (.bool true)))) := by
    refine (scope.gives_count hvalue).bind ((gives_pure _ _).bind ?_)
    rw [hless]
    exact gives_ofResult _ _
  have hbase : (scope.evaluate (.object [(.literal (.str "x"), .literal (.bool member))])).Gives
      table (.ok (.object [("x", .bool member)])) table :=
    ⟨[], fun _ => rfl⟩
  have hkey : (scope.evaluate (.ternary (.binary (.call "count_agg" [.literal (.bool true)]) .less
      (.literal (.ofNat limit))) (.literal (.str "x")) (.literal (.str "")))).Gives table
        (.ok (.str (if kept then "x" else "")))
        (table.store (.running (table.countWith (.bool true)))) := by
    refine hcount.bind ?_
    cases kept <;> exact gives_pure _ _
  refine hbase.bind (hkey.bind ?_)
  cases kept <;> exact gives_ofResult (.ok _) _

theorem Plan.keeps_hidingCondition (scope : Scope) {table : Aggregates} {kept : Bool}
    (hless : Value.applyBinary .less (table.countWith (.bool true)) (.ofNat 2) =
      .ok (.bool kept)) :
    (Plan.hidingCondition.keeps scope).Gives table (.ok kept)
      (table.store (.running (table.countWith (.bool true)))) := by
  have htruthy : (if kept then Value.bool true else .null).truthy = kept := by
    cases kept <;> rfl
  rw [← htruthy]
  exact ((scope.gives_hiddenMember true hless).mapError _).bind (gives_pure _ _)

theorem Plan.record_hidingCondition (scope : Scope) (value : Value) (table : Aggregates)
    (hvalues : scope.values = [value]) :
    (Plan.hidingCondition.record scope).Gives table (.ok ⟨[value], [], tupleKey [value]⟩)
      (table.startRow (tupleKey [value])) := by
  obtain ⟨session, values, names, rowNumber, inputRowNumber⟩ := scope
  subst hvalues
  exact ⟨[], fun _ => rfl⟩

namespace Job

/-- A run of the query. -/
def hidingCondition : Job := { query := .hidingCondition }

/-- The accumulators after a row was counted in `WHERE` and then started in its group. -/
def countedIn (key : String) (table : Aggregates) : Aggregates :=
  (table.store (.running (table.countWith (.bool true)))).startRow key

theorem collectInput_hidingCondition_of_kept {names : List String} (value : Value)
    {table : Aggregates} {state : RunState (List OutputRecord)} (htable : state.aggregates = table)
    (hless : Value.applyBinary .less (table.countWith (.bool true)) (.ofNat 2) =
      .ok (.bool true)) :
    (hidingCondition.collectInput .hidingCondition names [value]).Gives state (.ok ())
      { state with
        inputRowNumber := state.inputRowNumber + 1
        rowNumber := state.rowNumber + 1
        aggregates := countedIn (tupleKey [value]) table
        writer := ⟨[value], [], tupleKey [value]⟩ :: state.writer } := by
  subst htable
  exact gives_collectInput _ rfl (gives_collectRow_of_kept _ (Plan.keeps_hidingCondition _ hless)
    (Plan.record_hidingCondition _ value _ rfl))

theorem collectInput_hidingCondition_of_dropped {names : List String} (value : Value)
    {table : Aggregates} {state : RunState (List OutputRecord)} (htable : state.aggregates = table)
    (hless : Value.applyBinary .less (table.countWith (.bool true)) (.ofNat 2) =
      .ok (.bool false)) :
    (hidingCondition.collectInput .hidingCondition names [value]).Gives state (.ok ())
      { state with
        inputRowNumber := state.inputRowNumber + 1
        aggregates := table.store (.running (table.countWith (.bool true))) } := by
  subst htable
  exact gives_collectInput _ rfl (gives_collectRow_of_dropped _
    (Plan.keeps_hidingCondition _ hless))

theorem countWith_initial : ({} : Aggregates).countWith (.bool true) = .ofNat 1 := by
  have hnext : ({} : Aggregates).next = .empty := by
    simp [Aggregates.next, Aggregates.present]
  rw [Aggregates.countWith, hnext]
  rfl

theorem countWith_second : (countedIn "[true]" {}).countWith (.bool true) = .ofNat 1 := by
  have hnext : (countedIn "[true]" {}).next = .empty := by
    simp [countedIn, Aggregates.next, Aggregates.present, Aggregates.store, Aggregates.startRow,
      Std.HashMap.getD_insert]
  rw [Aggregates.countWith, hnext]
  rfl

theorem countWith_third :
    (countedIn "[true]" (countedIn "[true]" {})).countWith (.bool true) = .ofNat 2 := by
  have hnext : (countedIn "[true]" (countedIn "[true]" {})).next = .running (.ofNat 1) := by
    rw [countedIn, countWith_second]
    simp [countedIn, Aggregates.next, Aggregates.present, Aggregates.store, Aggregates.startRow,
      Std.HashMap.getD_insert]
  rw [Aggregates.countWith, hnext]
  rfl

theorem gives_take (job : Job) (values : List Value) (state : RunState (List OutputRecord)) :
    (job.take ⟨[], .ok (.row values)⟩).Gives state (.ok (.row values))
      { state with pulled := state.pulled + 1 } :=
  ⟨[], fun _ => rfl⟩

theorem collect_hidingCondition_of_first {value : Value} {rest : Source}
    {middle last : RunState (List OutputRecord)}
    (hinput : (hidingCondition.collectInput .hidingCondition ["col1"] [value]).Gives
      { hidingCondition.initial [] with pulled := 1 } (.ok ()) middle)
    (hrest : (hidingCondition.collectRest .hidingCondition ["col1"] rest).Gives middle (.ok ())
      last) :
    (hidingCondition.collect [] (⟨[], .ok (.row [value])⟩ :: rest)).Gives
      (hidingCondition.initial []) (.ok ()) last :=
  (hidingCondition.gives_take [value] _).bind
    ((gives_ofReporting Plan.gives_hidingCondition _).bind (hinput.bind hrest))

theorem collectRest_hidingCondition_of_next {value : Value} {rest : Source}
    {state middle last : RunState (List OutputRecord)}
    (hinput : (hidingCondition.collectInput .hidingCondition ["col1"] [value]).Gives
      { state with pulled := state.pulled + 1 } (.ok ()) middle)
    (hrest : (hidingCondition.collectRest .hidingCondition ["col1"] rest).Gives middle (.ok ())
      last) :
    (hidingCondition.collectRest .hidingCondition ["col1"] (⟨[], .ok (.row [value])⟩ :: rest)).Gives
      state (.ok ()) last :=
  (hidingCondition.gives_take [value] _).bind (hinput.bind hrest)

theorem collectRest_hidingCondition_of_end (names : List String)
    (state : RunState (List OutputRecord)) :
    (hidingCondition.collectRest .hidingCondition names []).Gives state (.ok ()) state :=
  gives_pure _ _

end Job

/-- An aggregate in `WHERE` counts on in the group of the row before, so that the row of a group can
be lost among the rows of another one. -/
theorem groups_interfere_in_condition :
    (Query.aggregatesIn "\x7bx: TRUE\x7d->x__aaaaaaaaaaaa__".toList = [] ∧
      Shorthand.expand "\x7bx: TRUE\x7d->x__aaaaaaaaaaaa__".toList =
        "\x7bx: TRUE\x7d['x__aaaaaaaaaaaa__']".toList) ∧
    Job.hidingCondition.query.GroupsOnly ∧
    Job.hidingCondition.Writes (.ofRows [[.bool true], [.bool true], [.bool false]])
      (.header ["col1"]) [[.bool true]] ∧
    Job.hidingCondition.Writes (.ofRows [[.bool false]]) (.header ["col1"]) [[.bool false]] := by
  have hquery : Job.hidingCondition.query.GroupsOnly := ⟨rfl, rfl, rfl, rfl, rfl, rfl⟩
  -- The two rows of the first group count to two, which the row of the second group then compares.
  have hfirst : Value.applyBinary .less (({} : Aggregates).countWith (.bool true)) (.ofNat 2) =
      .ok (.bool true) := by
    rw [Job.countWith_initial]
    rfl
  have hsecond : Value.applyBinary .less
      ((Job.countedIn "[true]" {}).countWith (.bool true)) (.ofNat 2) = .ok (.bool true) := by
    rw [Job.countWith_second]
    rfl
  have hthird : Value.applyBinary .less
      ((Job.countedIn "[true]" (Job.countedIn "[true]" {})).countWith (.bool true)) (.ofNat 2) =
        .ok (.bool false) := by
    rw [Job.countWith_third]
    rfl
  refine ⟨⟨by decide, by decide⟩, hquery, ?_, ?_⟩
  · exact Job.writes_of_collect hquery (Job.collect_hidingCondition_of_first
      (Job.collectInput_hidingCondition_of_kept (.bool true) rfl hfirst)
      (Job.collectRest_hidingCondition_of_next
        (Job.collectInput_hidingCondition_of_kept (.bool true) rfl hsecond)
        (Job.collectRest_hidingCondition_of_next
          (Job.collectInput_hidingCondition_of_dropped (.bool false) rfl hthird)
          (Job.collectRest_hidingCondition_of_end _ _))))
  · exact Job.writes_of_collect hquery (Job.collect_hidingCondition_of_first
      (Job.collectInput_hidingCondition_of_kept (.bool false) rfl hfirst)
      (Job.collectRest_hidingCondition_of_end _ _))

end StreamQuery
