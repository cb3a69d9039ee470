import Mathlib.Data.List.Basic
import StreamQuery.Execution.Output
import StreamQuery.Proofs.Value.Entries

/-!
# One pipeline for all outputs

Whatever an output keeps of its rows, the rows that it writes are those of one pipeline: records
are consolidated, ordered, and cut to the window of the query. An output counts the rows it wrote
and never goes beyond the limit.
-/

namespace StreamQuery

/-! ### The pipeline -/

/-- The first record of every key, in order. -/
def firstOfEach (key : OutputRecord → String) (records : List OutputRecord) :
    List OutputRecord :=
  records.eraseDupsBy fun later earlier => key later == key earlier

/-- The last record of every key, at the place of the first one. -/
def lastOfEach (key : OutputRecord → String) (records : List OutputRecord) : List OutputRecord :=
  (records.map key).eraseDups.filterMap fun value =>
    (records.filter (key · == value)).getLast?

/-- As many items as a limit allows. -/
def upTo {α : Type} : Option Nat → List α → List α
  | none, items => items
  | some limit, items => items.take limit

namespace Query

/-- The records that stand for all records of a query: the last one of every group, or every
distinct one, or all of them. -/
def consolidate (query : Query) (records : List OutputRecord) : List OutputRecord :=
  if query.groups && !query.selection.partials then
    lastOfEach OutputRecord.groupKey records
  else if query.selection.distinct then
    firstOfEach (fun record => tupleKey record.values) records
  else records

/-- The rows that `OFFSET` and `LIMIT` leave. -/
def window {α : Type} (query : Query) (rows : List α) : List α :=
  upTo query.limit (rows.drop query.offset)

/-- The rows that the records of a query mean. -/
def rowsOf (query : Query) (records : List OutputRecord) : List (List Value) :=
  query.window ((sortRecords query.orderBy (query.consolidate records)).map (·.values))

end Query

namespace Output

/-- Hands records to an output until the limit is reached or no more rows are wanted; the rows
written. -/
def feed (output : Output) : List OutputRecord → List (List Value) × Output
  | [] => ([], output)
  | record :: rest =>
    if output.isDone then ([], output)
    else
      let (rows, output) := output.handle record
      if output.isFull then (rows, output)
      else
        let (others, output) := output.feed rest
        (rows ++ others, output)

end Output

/-- The query that selects all columns of the rows in a window. -/
def Query.selectAll (limit : Option Nat) (offset : Nat) : Query where
  imports := []
  selection := { items := [.star], distinct := false, partials := false }
  source := none
  explode := none
  condition := none
  groupBy := []
  orderBy := []
  limit := limit
  offset := offset
  target := .format ⟨"memory", [], []⟩
  literals := []

/-! ### Counting rows -/

namespace Window

/-- A window after more rows were written. -/
def Wrote (window : Window) (rows : List (List Value)) (after : Window) : Prop :=
  after.limit = window.limit ∧ after.written = window.written + rows.length

theorem wrote_nil (window : Window) : window.Wrote [] window :=
  ⟨rfl, rfl⟩

theorem Wrote.append {window middle after : Window} {rows others : List (List Value)}
    (hfirst : window.Wrote rows middle) (hnext : middle.Wrote others after) :
    window.Wrote (rows ++ others) after := by
  refine ⟨hnext.1.trans hfirst.1, ?_⟩
  rw [hnext.2, hfirst.2, List.length_append, Nat.add_assoc]

theorem pass_wrote (window : Window) (values : List Value) :
    window.Wrote (window.pass values).1 (window.pass values).2 := by
  unfold pass
  split <;> exact ⟨rfl, rfl⟩

/-- A window that wrote no more rows than its limit. -/
def Within (window : Window) : Prop :=
  ∀ limit ∈ window.limit, window.written ≤ limit

theorem isDone_iff {window : Window} :
    window.isDone = true ↔ ∃ limit, window.limit = some limit ∧ limit ≤ window.written := by
  simp [isDone, Option.any_eq_true]

theorem not_isDone_iff {window : Window} :
    window.isDone = false ↔ ∀ limit ∈ window.limit, window.written < limit := by
  rw [← Bool.not_eq_true, isDone_iff]
  simp [Option.mem_def]

/-- A limit that is reached stays reached. -/
theorem Wrote.isDone {window after : Window} {rows : List (List Value)}
    (h : window.Wrote rows after) (hdone : window.isDone = true) : after.isDone = true := by
  obtain ⟨limit, hlimit, hwritten⟩ := isDone_iff.mp hdone
  exact isDone_iff.mpr ⟨limit, h.1.trans hlimit, h.2 ▸ Nat.le_add_right_of_le hwritten⟩

/-- Before the limit is reached, one more row may be written. -/
theorem Wrote.within {window after : Window} {rows : List (List Value)}
    (h : window.Wrote rows after) (hrows : rows.length ≤ 1) (hdone : window.isDone = false) :
    after.Within := by
  intro limit hlimit
  have hwritten := not_isDone_iff.mp hdone limit (h.1 ▸ hlimit)
  have := h.2
  omega

theorem length_pass_le (window : Window) (values : List Value) :
    (window.pass values).1.length ≤ 1 := by
  unfold pass
  split <;> simp

theorem drain_wrote (window : Window) (records : List OutputRecord) :
    window.Wrote (window.drain records).1 (window.drain records).2 := by
  induction records generalizing window with
  | nil => exact window.wrote_nil
  | cons record rest ih =>
    unfold drain
    split
    · exact window.wrote_nil
    · exact (window.pass_wrote record.values).append (ih _)

theorem drain_within {window : Window} (h : window.Within) (records : List OutputRecord) :
    (window.drain records).2.Within := by
  induction records generalizing window with
  | nil => exact h
  | cons record rest ih =>
    unfold drain
    split
    · exact h
    · next hdone =>
      have hnext : (window.pass record.values).2.Within :=
        (window.pass_wrote record.values).within (window.length_pass_le record.values)
          (Bool.eq_false_iff.mpr hdone)
      exact ih hnext

theorem drain_of_isDone {window : Window} (h : window.isDone = true)
    (records : List OutputRecord) : window.drain records = ([], window) := by
  cases records with
  | nil => rfl
  | cons record rest => exact if_pos h

/-- Draining skips the first rows and stops at the limit. -/
theorem drain_rows (window : Window) (records : List OutputRecord) :
    (window.drain records).1 =
      upTo (window.limit.map (· - window.written))
        ((records.map (·.values)).drop window.toSkip) := by
  induction records generalizing window with
  | nil => cases window.limit <;> simp [drain, upTo]
  | cons record rest ih =>
    obtain ⟨limit, toSkip, written⟩ := window
    unfold drain
    by_cases hdone : (Window.mk limit toSkip written).isDone = true
    · obtain ⟨bound, rfl, hbound⟩ := isDone_iff.mp hdone
      rw [if_pos hdone]
      have hnone : bound - written = 0 := Nat.sub_eq_zero_of_le hbound
      simp [upTo, hnone]
    · rw [if_neg hdone]
      cases toSkip with
      | succ skip => simpa [pass] using ih _
      | zero =>
        have hbound := not_isDone_iff.mp (Bool.eq_false_iff.mpr hdone)
        simp only [pass, ih, List.drop_zero, List.map_cons]
        cases limit with
        | none => rfl
        | some bound =>
          have hsucc : bound - written = bound - (written + 1) + 1 := by
            have := hbound bound rfl
            simp only at this
            omega
          simp [upTo, hsucc]

end Window

namespace Output

/-- A row that is handled is kept back, or passes the window. -/
theorem handle_cases (output : Output) (record : OutputRecord) :
    ((output.handle record).1 = [] ∧ (output.handle record).2.window = output.window) ∨
      ((output.handle record).1 = (output.window.pass record.values).1 ∧
        (output.handle record).2.window = (output.window.pass record.values).2) := by
  unfold handle
  dsimp only
  split
  · exact .inr ⟨rfl, rfl⟩
  · split
    · exact .inl ⟨rfl, rfl⟩
    · exact .inr ⟨rfl, rfl⟩
  · exact .inl ⟨rfl, rfl⟩
  · split <;> exact .inl ⟨rfl, rfl⟩
  · exact .inl ⟨rfl, rfl⟩

theorem handle_wrote (output : Output) (record : OutputRecord) :
    output.window.Wrote (output.handle record).1 (output.handle record).2.window := by
  rcases output.handle_cases record with ⟨hrows, hwindow⟩ | ⟨hrows, hwindow⟩
  · rw [hrows, hwindow]
    exact output.window.wrote_nil
  · rw [hrows, hwindow]
    exact output.window.pass_wrote record.values

theorem length_handle_le (output : Output) (record : OutputRecord) :
    (output.handle record).1.length ≤ 1 := by
  rcases output.handle_cases record with ⟨hrows, _⟩ | ⟨hrows, _⟩
  · simp [hrows]
  · rw [hrows]
    exact output.window.length_pass_le record.values

theorem finish_wrote (output : Output) :
    output.window.Wrote output.finish.1 output.finish.2.window :=
  output.window.drain_wrote output.records

theorem feed_wrote (output : Output) (records : List OutputRecord) :
    output.window.Wrote (output.feed records).1 (output.feed records).2.window := by
  induction records generalizing output with
  | nil => exact output.window.wrote_nil
  | cons record rest ih =>
    unfold feed
    split
    · exact output.window.wrote_nil
    · have hfirst := output.handle_wrote record
      dsimp only
      split
      · exact hfirst
      · exact hfirst.append (ih _)

theorem feed_within {output : Output} (h : output.window.Within) (records : List OutputRecord) :
    (output.feed records).2.window.Within := by
  induction records generalizing output with
  | nil => exact h
  | cons record rest ih =>
    unfold feed
    split
    · exact h
    · next hdone =>
      have hnext : (output.handle record).2.window.Within :=
        (output.handle_wrote record).within (output.length_handle_le record)
          (Bool.eq_false_iff.mpr hdone)
      dsimp only
      split
      · exact hnext
      · exact ih hnext

/-! ### Outputs that stop at once -/

/-- An output that wants no more rows as soon as its limit is reached. -/
def Prompt (output : Output) : Prop :=
  output.isFull = output.isDone

theorem ofQuery_open {query : Query} (h : query.limit ≠ some 0) :
    (ofQuery query).isDone = false := by
  refine Window.not_isDone_iff.mpr fun limit hlimit => Nat.pos_of_ne_zero ?_
  rintro rfl
  exact h hlimit

theorem ofQuery_prompt {query : Query} (h : query.limit ≠ some 0) : (ofQuery query).Prompt := by
  have hopen := ofQuery_open h
  unfold Prompt
  rw [hopen]
  unfold isFull
  split
  · exact hopen
  · exact hopen
  · rfl
  · rfl

theorem Prompt.handle {output : Output} (h : output.Prompt) (record : OutputRecord) :
    (output.handle record).2.Prompt := by
  obtain ⟨window, orderBy, kept⟩ := output
  rcases kept with _ | seen | ⟨_ | seen, latest⟩ | entries
  · rfl
  · by_cases hseen : seen.contains (tupleKey record.values) = true <;>
      simp [Prompt, Output.handle, hseen, release, isFull]
  · exact h
  · by_cases hseen : seen.contains (tupleKey record.values) = true
    · simpa [Prompt, Output.handle, hseen] using h
    · simpa [Prompt, Output.handle, hseen, isFull, isDone] using h
  · exact h

theorem feed_of_isDone {output : Output} (h : output.isDone = true)
    (records : List OutputRecord) : output.feed records = ([], output) := by
  cases records with
  | nil => rfl
  | cons record rest => exact if_pos h

theorem Prompt.feed_cons {output : Output} (h : output.Prompt) (hopen : output.isDone = false)
    (record : OutputRecord) (rest : List OutputRecord) :
    output.feed (record :: rest) =
      ((output.handle record).1 ++ ((output.handle record).2.feed rest).1,
        ((output.handle record).2.feed rest).2) := by
  rw [feed, if_neg (Bool.eq_false_iff.mp hopen)]
  by_cases hdone : (output.handle record).2.isDone = true
  · have hfull : (output.handle record).2.isFull = true := (h.handle record).trans hdone
    simp [hfull, feed_of_isDone hdone]
  · have hfull : ¬ (output.handle record).2.isFull = true := by
      rwa [show (output.handle record).2.isFull = _ from h.handle record]
    simp [hfull]

theorem Prompt.feed {output : Output} (h : output.Prompt) (records : List OutputRecord) :
    (output.feed records).2.Prompt := by
  induction records generalizing output with
  | nil => exact h
  | cons record rest ih =>
    by_cases hdone : output.isDone = true
    · rw [feed_of_isDone hdone]
      exact h
    · rw [h.feed_cons (Bool.eq_false_iff.mpr hdone)]
      exact ih (h.handle record)

/-- Feeding more records goes on where feeding the first ones ended. -/
theorem Prompt.feed_append {output : Output} (h : output.Prompt)
    (records later : List OutputRecord) :
    output.feed (records ++ later) =
      ((output.feed records).1 ++ ((output.feed records).2.feed later).1,
        ((output.feed records).2.feed later).2) := by
  induction records generalizing output with
  | nil => rfl
  | cons record rest ih =>
    by_cases hdone : output.isDone = true
    · simp [feed_of_isDone hdone]
    · have hopen := Bool.eq_false_iff.mpr hdone
      simp only [List.cons_append, h.feed_cons hopen, ih (h.handle record), List.append_assoc]

/-! ### Strategies that let rows leave at once -/

theorem feed_nothing (window : Window) (orderBy : List OrderKey) (records : List OutputRecord) :
    ({ window := window, orderBy := orderBy, kept := .nothing } : Output).feed records =
      ((window.drain records).1,
        { window := (window.drain records).2, orderBy := orderBy, kept := .nothing }) := by
  induction records generalizing window with
  | nil => rfl
  | cons record rest ih =>
    unfold feed Window.drain
    by_cases hdone : window.isDone = true
    · simp [isDone, hdone]
    · simp only [isDone, hdone, handle, release, isFull]
      -- If this row is the last one wanted, neither side goes on with the rest.
      by_cases hnext : (window.pass record.values).2.isDone = true
      · simp [hnext, Window.drain_of_isDone]
      · simp [hnext, ih]

/-- The records with new keys, each key once. -/
def fresh (seen : Std.HashSet String) (records : List OutputRecord) : List OutputRecord :=
  firstOfEach (fun record => tupleKey record.values)
    (records.filter fun record => !seen.contains (tupleKey record.values))

theorem fresh_cons_of_contains {seen : Std.HashSet String} {record : OutputRecord}
    (h : seen.contains (tupleKey record.values) = true) (rest : List OutputRecord) :
    fresh seen (record :: rest) = fresh seen rest := by
  simp [fresh, h]

theorem fresh_cons {seen : Std.HashSet String} {record : OutputRecord}
    (h : seen.contains (tupleKey record.values) = false) (rest : List OutputRecord) :
    fresh seen (record :: rest) =
      record :: fresh (seen.insert (tupleKey record.values)) rest := by
  -- The keys that are new after this record are the new ones other than its own.
  have hfilter : (rest.filter fun other =>
      !(seen.insert (tupleKey record.values)).contains (tupleKey other.values)) =
      (rest.filter fun other => !seen.contains (tupleKey other.values)).filter
        fun other => (tupleKey other.values == tupleKey record.values) = false := by
    rw [List.filter_filter]
    refine List.filter_congr fun other _ => ?_
    rw [Std.HashSet.contains_insert, Bool.not_or, BEq.comm]
    cases tupleKey other.values == tupleKey record.values <;> rfl
  simp only [fresh, firstOfEach, List.filter_cons, h, hfilter, Bool.not_false, if_true,
    List.eraseDupsBy_cons]

theorem feed_keys (window : Window) (orderBy : List OrderKey) (seen : Std.HashSet String)
    (records : List OutputRecord) :
    ∃ later, ({ window := window, orderBy := orderBy, kept := .keys seen } : Output).feed records =
      ((window.drain (fresh seen records)).1,
        { window := (window.drain (fresh seen records)).2, orderBy := orderBy,
          kept := .keys later }) := by
  induction records generalizing window seen with
  | nil => exact ⟨seen, rfl⟩
  | cons record rest ih =>
    by_cases hdone : window.isDone = true
    · exact ⟨seen, by simp [feed, isDone, hdone, Window.drain_of_isDone]⟩
    · unfold feed
      by_cases hseen : seen.contains (tupleKey record.values) = true
      · obtain ⟨later, hlater⟩ := ih window seen
        exact ⟨later, by
          simp [isDone, hdone, handle, isFull, hseen, fresh_cons_of_contains, hlater]⟩
      · obtain ⟨later, hlater⟩ :=
          ih (window.pass record.values).2 (seen.insert (tupleKey record.values))
        rw [fresh_cons (Bool.eq_false_iff.mpr hseen), Window.drain]
        simp only [isDone, hdone, handle, release, isFull, hseen]
        by_cases hnext : (window.pass record.values).2.isDone = true
        · exact ⟨seen.insert (tupleKey record.values), by simp [hnext, Window.drain_of_isDone]⟩
        · exact ⟨later, by simp [hnext, hlater]⟩

/-! ### Strategies that keep rows back -/

theorem feed_rows {window : Window} (h : window.isDone = false) (orderBy : List OrderKey)
    (latest records : List OutputRecord) :
    ({ window := window, orderBy := orderBy, kept := .rows none latest } : Output).feed records =
      ([], { window := window, orderBy := orderBy,
             kept := .rows none (records.reverse ++ latest) }) := by
  induction records generalizing latest with
  | nil => rfl
  | cons record rest ih => simp [feed, isDone, h, handle, isFull, ih]

theorem feed_distinct_rows {window : Window} (h : window.isDone = false)
    (orderBy : List OrderKey) (seen : Std.HashSet String) (latest records : List OutputRecord) :
    ∃ later, ({ window := window, orderBy := orderBy,
                kept := .rows (some seen) latest } : Output).feed records =
      ([], { window := window, orderBy := orderBy,
             kept := .rows (some later) ((fresh seen records).reverse ++ latest) }) := by
  induction records generalizing seen latest with
  | nil => exact ⟨seen, rfl⟩
  | cons record rest ih =>
    unfold feed
    by_cases hseen : seen.contains (tupleKey record.values) = true
    · obtain ⟨later, hlater⟩ := ih seen latest
      exact ⟨later, by simp [isDone, h, handle, isFull, hseen, fresh_cons_of_contains, hlater]⟩
    · obtain ⟨later, hlater⟩ := ih (seen.insert (tupleKey record.values)) (record :: latest)
      rw [fresh_cons (Bool.eq_false_iff.mpr hseen)]
      exact ⟨later, by simp [isDone, h, handle, isFull, hseen, hlater]⟩

theorem feed_groups {window : Window} (h : window.isDone = false) (orderBy : List OrderKey)
    (entries : List (String × OutputRecord)) (records : List OutputRecord) :
    ({ window := window, orderBy := orderBy, kept := .groups entries } : Output).feed records =
      ([], { window := window, orderBy := orderBy,
             kept := .groups
               (insertEntries entries (records.map fun record => (record.groupKey, record))) }) := by
  induction records generalizing entries with
  | nil => rfl
  | cons record rest ih => simp [feed, isDone, h, handle, isFull, ih, insertEntries]

theorem map_value_groups (records : List OutputRecord) :
    (insertEntries [] (records.map fun record => (record.groupKey, record))).map (·.2) =
      lastOfEach OutputRecord.groupKey records := by
  have hkeys : keysOf (records.map fun record => (record.groupKey, record)) =
      records.map OutputRecord.groupKey := by
    simp [keysOf]
  rw [map_value_insertEntries, hkeys]
  refine List.filterMap_congr fun key _ => ?_
  rw [List.filter_map, List.getLast?_map, Option.map_map]
  exact Option.map_id'

theorem fresh_empty (records : List OutputRecord) :
    fresh {} records = firstOfEach (fun record => tupleKey record.values) records := by
  simp [fresh]

/-! ### The rows of a query -/

theorem Query.drain_window (query : Query) (records : List OutputRecord) :
    (({ limit := query.limit, toSkip := query.offset } : Window).drain records).1 =
      query.window (records.map (·.values)) := by
  rw [Window.drain_rows]
  cases hlimit : query.limit <;> simp [Query.window, hlimit]

/-- Feeding all records and finishing writes the rows of the pipeline. -/
theorem rows_of_feed (query : Query) (records : List OutputRecord) :
    ((ofQuery query).feed records).1 ++ ((ofQuery query).feed records).2.finish.1 =
      query.rowsOf records := by
  by_cases hdone : ({ limit := query.limit, toSkip := query.offset } : Window).isDone = true
  · -- Without room for a single row nothing is fed and nothing is written.
    have hlimit : query.limit = some 0 := by
      obtain ⟨limit, hlimit, hwritten⟩ := Window.isDone_iff.mp hdone
      exact hlimit.trans (congrArg some (Nat.le_zero.mp hwritten))
    have hstart : (ofQuery query).isDone = true := hdone
    rw [feed_of_isDone hstart, finish, Window.drain_of_isDone hstart]
    simp [Query.rowsOf, Query.window, hlimit, upTo]
  · have hopen := Bool.eq_false_iff.mpr hdone
    unfold ofQuery Query.rowsOf Query.consolidate
    by_cases hgroups : (query.groups && !query.selection.partials) = true
    · simp only [if_pos hgroups, feed_groups hopen, finish, Output.records, map_value_groups,
        Query.drain_window, List.nil_append]
    · simp only [if_neg hgroups]
      cases hsort : query.orderBy with
      | nil =>
        by_cases hdistinct : query.selection.distinct = true
        · obtain ⟨later, hfeed⟩ :=
            feed_keys { limit := query.limit, toSkip := query.offset } [] {} records
          simp only [List.isEmpty_nil, Bool.not_true, if_pos hdistinct, if_neg Bool.false_ne_true,
            hfeed, finish, Output.records, Window.drain, List.append_nil, fresh_empty,
            Query.drain_window, sortRecords, sortFrom]
        · simp only [List.isEmpty_nil, Bool.not_true, if_neg hdistinct, if_neg Bool.false_ne_true,
            feed_nothing, finish, Output.records, Window.drain, List.append_nil,
            Query.drain_window, sortRecords, sortFrom]
      | cons key keys =>
        by_cases hdistinct : query.selection.distinct = true
        · obtain ⟨later, hfeed⟩ := feed_distinct_rows hopen (key :: keys) {} [] records
          simp only [List.isEmpty_cons, Bool.not_false, if_true, if_pos hdistinct, hfeed, finish,
            Output.records, List.append_nil, List.reverse_reverse, fresh_empty,
            Query.drain_window, List.nil_append]
        · simp only [List.isEmpty_cons, Bool.not_false, if_true, if_neg hdistinct,
            feed_rows hopen, finish, Output.records, List.append_nil, List.reverse_reverse,
            Query.drain_window, List.nil_append]

/-- An output that neither groups nor orders its rows keeps none of them back. -/
theorem records_of_feed {query : Query} (hgroups : query.groups = false)
    (horder : query.orderBy = []) (records : List OutputRecord) :
    ((ofQuery query).feed records).2.records = [] := by
  unfold ofQuery
  simp only [hgroups, horder, Bool.false_and, if_neg Bool.false_ne_true, List.isEmpty_nil,
    Bool.not_true]
  by_cases hdistinct : query.selection.distinct = true
  · obtain ⟨later, hfeed⟩ :=
      feed_keys { limit := query.limit, toSkip := query.offset } [] {} records
    simp only [if_pos hdistinct, hfeed, Output.records]
  · simp only [if_neg hdistinct, feed_nothing, Output.records]

/-- What an output writes is the window of the ordered and consolidated records. The count of its
rows is right at every moment, never exceeds the limit, and a limit that was reached stays
reached. -/
theorem output_pipeline (query : Query) (records : List OutputRecord) :
    ((ofQuery query).feed records).1 ++ ((ofQuery query).feed records).2.finish.1 =
        query.rowsOf records ∧
      (∀ handled drained : Nat,
        let (rows, output) := (ofQuery query).feed (records.take handled)
        let (others, window) := output.window.drain (output.records.take drained)
        output.window.written = rows.length ∧ window.written = (rows ++ others).length ∧
          ∀ limit ∈ query.limit, output.window.written ≤ limit ∧ window.written ≤ limit) ∧
      (∀ (output : Output) (record : OutputRecord), output.isDone = true →
        (output.handle record).2.isDone = true ∧ output.finish.2.isDone = true) := by
  refine ⟨rows_of_feed query records, fun handled drained => ?_, fun output record hdone => ?_⟩
  · have hfed := (ofQuery query).feed_wrote (records.take handled)
    have hdrained := ((ofQuery query).feed (records.take handled)).2.window.drain_wrote
      (((ofQuery query).feed (records.take handled)).2.records.take drained)
    have hstart : (ofQuery query).window.Within := fun _ _ => Nat.zero_le _
    have hwithin := feed_within hstart (records.take handled)
    have hended := Window.drain_within hwithin
      (((ofQuery query).feed (records.take handled)).2.records.take drained)
    refine ⟨hfed.2.trans (Nat.zero_add _), ?_, fun limit hlimit => ⟨?_, ?_⟩⟩
    · exact (hfed.append hdrained).2.trans (Nat.zero_add _)
    · exact hwithin limit (hfed.1.trans hlimit)
    · exact hended limit ((hfed.append hdrained).1.trans hlimit)
  · exact ⟨(output.handle_wrote record).isDone hdone, output.finish_wrote.isDone hdone⟩

theorem output_pipeline_of_first :
    let query := Query.selectAll (some 1) 1
    let record (n : Nat) : OutputRecord := ⟨[.ofNat n], [], ""⟩
    let (rows, output) := (ofQuery query).feed [record 1, record 2, record 3]
    rows ++ output.finish.1 = [(record 2).values] ∧
      (output.window.written = rows.length ∧ 1 ∈ query.limit ∧ output.window.written ≤ 1) ∧
      output.isDone = true ∧ (output.handle (record 3)).2.isDone = true := by
  intro query record
  obtain ⟨hrows, hcounts, hdone⟩ := output_pipeline query [record 1, record 2, record 3]
  obtain ⟨hwritten, -, hlimit⟩ := hcounts 3 0
  exact ⟨hrows, ⟨hwritten, rfl, (hlimit 1 rfl).1⟩, rfl, (hdone _ (record 3) rfl).1⟩

end Output

end StreamQuery
