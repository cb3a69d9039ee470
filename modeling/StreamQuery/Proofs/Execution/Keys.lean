import StreamQuery.Proofs.Computation
import StreamQuery.Proofs.Execution.Row
import StreamQuery.Proofs.Json.Texts
import StreamQuery.Proofs.Value.Arranged

/-!
# What shares a key

Rows are told apart, grouped and counted by the keys of tuples of values. Only the same tuples share
a key, so nothing is lost by it: distinct rows, groups and collected values are as many as the
tuples. But the language also takes values for equal that differ in the order of object entries, and
these do not share a key unless the entries are sorted.
-/

namespace StreamQuery

open Stateful

/-- Whether a set of keys holds the keys of exactly the tuples that are known. -/
def Tells (seen : Std.HashSet String) (known : List Value → Prop) : Prop :=
  ∀ values, seen.contains (tupleKey values) = true ↔ known values

theorem tells_empty : Tells {} fun _ => False := by
  intro values
  simp

theorem Tells.insert {seen : Std.HashSet String} {known : List Value → Prop} (h : Tells seen known)
    (values : List Value) :
    Tells (seen.insert (tupleKey values)) fun others => others = values ∨ known others := by
  intro others
  rw [Std.HashSet.contains_insert, Bool.or_eq_true, beq_iff_eq, h others]
  refine or_congr_left ⟨fun hkey => (eq_of_tupleKey hkey).symm, ?_⟩
  rintro rfl
  rfl

/-! ### Distinct rows -/

namespace Output

/-- The output of a query after it handled records. -/
def after (query : Query) (records : List OutputRecord) : Output :=
  records.foldl (fun output record => (output.handle record).2) (ofQuery query)

theorem after_concat (query : Query) (records : List OutputRecord) (record : OutputRecord) :
    after query (records ++ [record]) = ((after query records).handle record).2 := by
  rw [after, List.foldl_append]
  rfl

/-- The keys of the rows that were new to an output of distinct rows. -/
def seen? (output : Output) : Option (Std.HashSet String) :=
  match output.kept with
  | .keys seen => some seen
  | .rows seen _ => seen
  | _ => none

theorem handle_of_seen {output : Output} {seen : Std.HashSet String} (h : output.seen? = some seen)
    {record : OutputRecord} (hseen : seen.contains (tupleKey record.values) = true) :
    output.handle record = ([], output) := by
  obtain ⟨window, orderBy, kept⟩ := output
  rcases kept with _ | seen | ⟨_ | seen, latest⟩ | groups <;> cases h
  · simp [handle, hseen]
  · simp [handle, hseen]

theorem seen?_handle {output : Output} {seen : Std.HashSet String} (h : output.seen? = some seen)
    {record : OutputRecord} (hseen : seen.contains (tupleKey record.values) = false) :
    (output.handle record).2.seen? = some (seen.insert (tupleKey record.values)) := by
  obtain ⟨window, orderBy, kept⟩ := output
  rcases kept with _ | seen | ⟨_ | seen, latest⟩ | groups <;> cases h
  · simp [handle, hseen, release, seen?]
  · simp [handle, hseen, seen?]

theorem seen?_ofQuery {query : Query} (hdistinct : query.selection.distinct = true)
    (hgroups : (query.groups && !query.selection.partials) = false) :
    (ofQuery query).seen? = some {} := by
  cases horder : query.orderBy.isEmpty <;> simp only [ofQuery, seen?, hgroups, hdistinct, horder,
    if_true, Bool.false_eq_true, if_false, Bool.not_false, Bool.not_true]

/-- An output of distinct rows knows the rows of the records it handled. -/
theorem tells_after {query : Query} (hdistinct : query.selection.distinct = true)
    (hgroups : (query.groups && !query.selection.partials) = false)
    (records : List OutputRecord) :
    ∃ seen, (after query records).seen? = some seen ∧
      Tells seen fun values => ∃ record ∈ records, record.values = values := by
  induction records using List.reverseRecOn with
  | nil =>
    refine ⟨{}, seen?_ofQuery hdistinct hgroups, fun values => (tells_empty values).trans ?_⟩
    simp
  | append_singleton records record ih =>
    obtain ⟨seen, hseen, htells⟩ := ih
    rw [after_concat]
    cases hnew : seen.contains (tupleKey record.values) with
    | true =>
      rw [handle_of_seen hseen hnew]
      refine ⟨seen, hseen, fun values => (htells values).trans ?_⟩
      obtain ⟨earlier, hmem, heq⟩ := (htells _).mp hnew
      simp only [List.mem_append, List.mem_singleton]
      constructor
      · rintro ⟨found, hfound, rfl⟩
        exact ⟨found, .inl hfound, rfl⟩
      · rintro ⟨found, hfound | rfl, rfl⟩
        · exact ⟨found, hfound, rfl⟩
        · exact ⟨earlier, hmem, heq⟩
    | false =>
      refine ⟨_, seen?_handle hseen hnew, fun values => (htells.insert _ values).trans ?_⟩
      simp only [List.mem_append, List.mem_singleton]
      constructor
      · rintro (rfl | ⟨found, hfound, rfl⟩)
        · exact ⟨record, .inr rfl, rfl⟩
        · exact ⟨found, .inl hfound, rfl⟩
      · rintro ⟨found, hfound | rfl, rfl⟩
        · exact .inr ⟨found, hfound, rfl⟩
        · exact .inl rfl

/-- An output of distinct rows drops a row exactly if it handled an equal one before. -/
theorem handle_eq_self_iff {query : Query} (hdistinct : query.selection.distinct = true)
    (hgroups : (query.groups && !query.selection.partials) = false)
    (records : List OutputRecord) (record : OutputRecord) :
    (after query records).handle record = ([], after query records) ↔
      ∃ earlier ∈ records, earlier.values = record.values := by
  obtain ⟨seen, hseen, htells⟩ := tells_after hdistinct hgroups records
  refine Iff.trans ⟨fun h => ?_, handle_of_seen hseen⟩ (htells record.values)
  · by_contra hnew
    have hlater := seen?_handle hseen (Bool.eq_false_iff.mpr hnew)
    rw [h, hseen, Option.some.injEq] at hlater
    refine hnew ?_
    rw [hlater]
    simp

end Output

/-! ### Groups -/

/-- A row of a query that groups stands in the group of the tuple of its `GROUP BY` values. -/
theorem Plan.tuple_of_startGroup {plan : Plan} (hgroups : plan.groupBy.isEmpty = false)
    {scope : Scope} {table after : Aggregates} {key : String}
    (h : (plan.startGroup scope).Gives table (.ok key) after) :
    ∃ values middle, (scope.evaluateEach .groupBy 1 plan.groupBy).Gives table (.ok values) middle ∧
      tupleKey values = key := by
  unfold startGroup at h
  rw [hgroups, if_neg Bool.false_ne_true] at h
  obtain ⟨values, middle, hvalues, h⟩ := h.of_bind (scope.evaluateEach_settles _ _ _)
    fun _ => (settles_modify _).bind fun _ => settles_pure _
  have hkey := ((gives_modify (Aggregates.startRow (tupleKey values)) middle).bind
    (gives_pure (tupleKey values) _)).unique h
  exact ⟨values, middle, hvalues, Except.ok.inj hkey.1⟩

/-! ### Collected values -/

namespace Accumulator

/-- The accumulator after some steps. A step that fails leaves the accumulator. -/
def after (steps : List Step) : Accumulator :=
  steps.foldl (fun accumulator step =>
    match step accumulator with
    | .ok (_, next) => next
    | .error _ => accumulator) .empty

/-- Whether an accumulator of distinct values holds those that are known, each once. -/
structure Collected (accumulator : Accumulator) (known : Value → Prop) : Prop where
  tells : Tells accumulator.distinctSoFar.1 fun values =>
    ∃ value ∈ accumulator.distinctSoFar.2, [value] = values
  nodup : accumulator.distinctSoFar.2.Nodup
  mem_iff : ∀ value, value ∈ accumulator.distinctSoFar.2 ↔ known value

theorem collected_empty : Collected .empty fun _ => False where
  tells values := (tells_empty values).trans (by simp [distinctSoFar])
  nodup := List.nodup_nil
  mem_iff _ := by simp [distinctSoFar]

/-- Observing a value adds it, unless it is not to be kept. -/
theorem Collected.observe {accumulator : Accumulator} {known : Value → Prop}
    (h : accumulator.Collected known) (keep : Bool) (x : Value) :
    Collected (.distinct (accumulator.observe keep x).1 (accumulator.observe keep x).2)
      fun value => known value ∨ keep = true ∧ value = x := by
  have hnew := h.tells [x]
  simp only [List.cons.injEq, and_true, exists_eq_right] at hnew
  unfold Accumulator.observe
  dsimp only
  by_cases hkeep : (keep && !accumulator.distinctSoFar.1.contains (tupleKey [x])) = true
  · rw [if_pos hkeep]
    rw [Bool.and_eq_true, Bool.not_eq_true', ← Bool.not_eq_true, hnew] at hkeep
    refine ⟨fun values => ?_, List.nodup_cons.mpr ⟨hkeep.2, h.nodup⟩, fun value => ?_⟩
    · refine (h.tells.insert [x] values).trans ?_
      simp only [distinctSoFar, List.mem_cons, exists_eq_or_imp]
      exact or_congr_left eq_comm
    · change value ∈ x :: accumulator.distinctSoFar.2 ↔ _
      rw [List.mem_cons, h.mem_iff]
      simp only [hkeep.1, true_and]
      exact or_comm
  · rw [if_neg hkeep]
    refine ⟨h.tells, h.nodup, fun value => (h.mem_iff value).trans ?_⟩
    rw [Bool.and_eq_true, Bool.not_eq_true', ← Bool.not_eq_true, hnew, h.mem_iff, not_and,
      not_not] at hkeep
    refine ⟨.inl, ?_⟩
    rintro (hknown | ⟨hkept, rfl⟩)
    · exact hknown
    · exact hkeep hkept

theorem after_concat (steps : List Step) (step : Step) :
    after (steps ++ [step]) =
      match step (after steps) with
      | .ok (_, next) => next
      | .error _ => after steps := by
  rw [after, List.foldl_append]
  rfl

/-- Calls of `set_agg` collect the values they are to keep. -/
theorem collected_set (calls : List (Bool × Value)) :
    (after (calls.map fun call => collectDistinct call.1 call.2)).Collected
      fun value => (true, value) ∈ calls := by
  induction calls using List.reverseRecOn with
  | nil => simpa [after] using collected_empty
  | append_singleton calls call ih =>
    rw [List.map_append, List.map_singleton, after_concat]
    have hnext := ih.observe call.1 call.2
    refine ⟨hnext.tells, hnext.nodup, fun value => (hnext.mem_iff value).trans ?_⟩
    rw [List.mem_append, List.mem_singleton, Prod.eq_iff_fst_eq_snd_eq]
    exact or_congr_right (and_congr_left' eq_comm)

/-- Calls of `count_distinct_agg` collect the values that are not null. -/
theorem collected_countDistinct (values : List Value) :
    (after (values.map countDistinct)).Collected
      fun value => value ∈ values ∧ value.isNull = false := by
  induction values using List.reverseRecOn with
  | nil => simpa [after] using collected_empty
  | append_singleton values x ih =>
    rw [List.map_append, List.map_singleton, after_concat]
    have hnext := ih.observe (!x.isNull) x
    refine ⟨hnext.tells, hnext.nodup, fun value => (hnext.mem_iff value).trans ?_⟩
    rw [List.mem_append, List.mem_singleton, or_and_right, Bool.not_eq_true']
    refine or_congr_right ⟨?_, ?_⟩
    · rintro ⟨hnull, rfl⟩
      exact ⟨rfl, hnull⟩
    · rintro ⟨rfl, hnull⟩
      exact ⟨hnull, rfl⟩

end Accumulator

/-! ### Distinct items -/

namespace CollectionFunction

theorem mem_distinct_iff {seen : Std.HashSet String} {known : List Value → Prop}
    (h : Tells seen known) (items : List Value) (x : Value) :
    x ∈ distinct seen items ↔ x ∈ items ∧ ¬ known [x] := by
  induction items generalizing seen known with
  | nil => simp [distinct]
  | cons item rest ih =>
    rw [distinct]
    by_cases hseen : seen.contains (tupleKey [item]) = true
    · rw [if_pos hseen, ih h, List.mem_cons]
      have hknown := (h [item]).mp hseen
      constructor
      · exact fun ⟨hmem, hnew⟩ => ⟨.inr hmem, hnew⟩
      · rintro ⟨rfl | hmem, hnew⟩
        · exact absurd hknown hnew
        · exact ⟨hmem, hnew⟩
    · rw [if_neg hseen, List.mem_cons, ih (h.insert [item]), List.mem_cons]
      have hnew : ¬ known [item] := mt (h [item]).mpr hseen
      simp only [List.cons.injEq, and_true, not_or]
      constructor
      · rintro (rfl | ⟨hmem, -, hx⟩)
        · exact ⟨.inl rfl, hnew⟩
        · exact ⟨.inr hmem, hx⟩
      · rintro ⟨rfl | hmem, hx⟩
        · exact .inl rfl
        · by_cases heq : x = item
          · exact .inl heq
          · exact .inr ⟨hmem, heq, hx⟩

theorem nodup_distinct {seen : Std.HashSet String} {known : List Value → Prop}
    (h : Tells seen known) (items : List Value) : (distinct seen items).Nodup := by
  induction items generalizing seen known with
  | nil => exact List.nodup_nil
  | cons item rest ih =>
    rw [distinct]
    by_cases hseen : seen.contains (tupleKey [item]) = true
    · rw [if_pos hseen]
      exact ih h
    · rw [if_neg hseen]
      refine List.nodup_cons.mpr ⟨fun hmem => ?_, ih (h.insert [item])⟩
      exact ((mem_distinct_iff (h.insert [item]) rest item).mp hmem).2 (.inl rfl)

end CollectionFunction

/-- Only equal tuples of values share a key. So an output of distinct rows drops a row exactly if it
handled an equal one before, rows in one group have the same tuple of `GROUP BY` values, and
`set_agg`, `count_distinct_agg` and `unique` keep every value, once. -/
theorem tupleKey_tells_apart :
    Function.Injective tupleKey ∧
      (∀ (query : Query) (records : List OutputRecord) (record : OutputRecord),
        query.selection.distinct = true → (query.groups && !query.selection.partials) = false →
          ((Output.after query records).handle record = ([], Output.after query records) ↔
            ∃ earlier ∈ records, earlier.values = record.values)) ∧
      (∀ (plan : Plan) (scope other : Scope) (table after otherTable otherAfter : Aggregates)
        (key : String), plan.groupBy.isEmpty = false →
          (plan.startGroup scope).Gives table (.ok key) after →
          (plan.startGroup other).Gives otherTable (.ok key) otherAfter →
          ∃ values middle otherMiddle,
            (scope.evaluateEach .groupBy 1 plan.groupBy).Gives table (.ok values) middle ∧
            (other.evaluateEach .groupBy 1 plan.groupBy).Gives otherTable (.ok values)
              otherMiddle) ∧
      (∀ (calls : List (Bool × Value)) (keep : Bool) (x : Value),
        ∃ (items : List Value) (next : Accumulator),
        Accumulator.collectDistinct keep x
            (Accumulator.after (calls.map fun call => Accumulator.collectDistinct call.1 call.2)) =
          .ok (.list items, next) ∧
        items.Nodup ∧ ∀ value, value ∈ items ↔ (true, value) ∈ calls ++ [(keep, x)]) ∧
      (∀ (values : List Value) (x : Value), ∃ (items : List Value) (next : Accumulator),
        Accumulator.countDistinct x (Accumulator.after (values.map Accumulator.countDistinct)) =
          .ok (.ofNat items.length, next) ∧
        items.Nodup ∧
          ∀ value : Value, value ∈ items ↔ value ∈ values ++ [x] ∧ value.isNull = false) ∧
      ∀ items : List Value, ∃ found,
        CollectionFunction.unique.apply [.list items] = .ok (.list found) ∧
          found.Nodup ∧ ∀ value, value ∈ found ↔ value ∈ items := by
  refine ⟨fun _ _ => eq_of_tupleKey, fun query records record hdistinct hgroups =>
    Output.handle_eq_self_iff hdistinct hgroups records record, ?_, ?_, ?_, ?_⟩
  · intro plan scope other table after otherTable otherAfter key hgroups hfirst hsecond
    obtain ⟨values, middle, hvalues, hkey⟩ := Plan.tuple_of_startGroup hgroups hfirst
    obtain ⟨others, otherMiddle, hothers, hotherKey⟩ := Plan.tuple_of_startGroup hgroups hsecond
    -- Rows in one group have the key of one tuple.
    obtain rfl : values = others := eq_of_tupleKey (hkey.trans hotherKey.symm)
    exact ⟨values, middle, otherMiddle, hvalues, hothers⟩
  · intro calls keep x
    have hcollected := Accumulator.collected_set (calls ++ [(keep, x)])
    rw [List.map_append, List.map_singleton, Accumulator.after_concat] at hcollected
    -- Values are collected in reverse.
    exact ⟨_, _, rfl, List.nodup_reverse.mpr hcollected.nodup,
      fun value => List.mem_reverse.trans (hcollected.mem_iff value)⟩
  · intro values x
    have hcollected := Accumulator.collected_countDistinct (values ++ [x])
    rw [List.map_append, List.map_singleton, Accumulator.after_concat] at hcollected
    exact ⟨_, _, rfl, hcollected.nodup, hcollected.mem_iff⟩
  · exact fun items => ⟨_, rfl, CollectionFunction.nodup_distinct tells_empty items, fun value =>
      (CollectionFunction.mem_distinct_iff tells_empty items value).trans (by simp)⟩

/-! ### Entries in another order -/

/-- What is kept of two values of which each is to be kept once. -/
def KeptOnce (value other : Value) (kept : List Value) : Prop :=
  value = other ∧ kept = [value] ∨ value ≠ other ∧ kept = [value, other]

theorem tupleKey_singleton_iff {value other : Value} :
    tupleKey [value] = tupleKey [other] ↔ value = other := by
  refine ⟨fun h => List.singleton_inj.mp (eq_of_tupleKey h), ?_⟩
  rintro rfl
  rfl

/-- Of two values `unique`, `set_agg` and `count_distinct_agg` keep one if they are the same, and
else both. -/
theorem exists_keptOnce (value other : Value) :
    ∃ kept, KeptOnce value other kept ∧
      CollectionFunction.unique.apply [.list [value, other]] = .ok (.list kept) ∧
      (∃ next, Accumulator.collectDistinct true other
        (Accumulator.after [Accumulator.collectDistinct true value]) = .ok (.list kept, next)) ∧
      ∃ next, Accumulator.countDistinct other
        (Accumulator.after [Accumulator.countDistinct value]) =
          .ok (.ofNat (kept.filter fun item => !item.isNull).length, next) := by
  have hunique : CollectionFunction.unique.apply [.list [value, other]] =
      .ok (.list (CollectionFunction.distinct {} [value, other])) := rfl
  by_cases h : value = other
  · refine ⟨[value], .inl ⟨h, rfl⟩, ?_, ?_, ?_⟩
    · rw [hunique]
      simp [CollectionFunction.distinct, h]
    · simp [Accumulator.after, Accumulator.collectDistinct, Accumulator.observe,
        Accumulator.distinctSoFar, h]
    · cases hnull : other.isNull <;>
        simp [Accumulator.after, Accumulator.countDistinct, Accumulator.observe,
          Accumulator.distinctSoFar, h, hnull]
  · refine ⟨[value, other], .inr ⟨h, rfl⟩, ?_, ?_, ?_⟩
    · simp [hunique, CollectionFunction.distinct, tupleKey_singleton_iff, h]
    · simp [Accumulator.after, Accumulator.collectDistinct, Accumulator.observe,
        Accumulator.distinctSoFar, tupleKey_singleton_iff, h]
    · cases hvalue : value.isNull <;> cases hother : other.isNull <;>
        simp [Accumulator.after, Accumulator.countDistinct, Accumulator.observe,
          Accumulator.distinctSoFar, tupleKey_singleton_iff, h, hvalue, hother]

/-- Values that differ in the order of entries only are equal, but share a key only if they are the
same, and so do distinct rows, groups, `unique`, `set_agg` and `count_distinct_agg` take them for
one value only then. Once their entries are sorted they do share a key. -/
theorem keys_of_rearranged {value other : Value} (hkeyed : value.Keyed)
    (h : value.Rearranged other) :
    value.equal other = true ∧
      (tupleKey [value] = tupleKey [other] ↔ value = other) ∧
      value.Rearranged value.arranged ∧ tupleKey [value.arranged] = tupleKey [other.arranged] ∧
      (∀ (query : Query) (record later : OutputRecord),
        query.selection.distinct = true → (query.groups && !query.selection.partials) = false →
          record.values = [value] → later.values = [other] →
          ((Output.after query [record]).handle later = ([], Output.after query [record]) ↔
            value = other)) ∧
      (∀ (plan : Plan) (scope later : Scope)
        (table middle after laterTable laterMiddle laterAfter : Aggregates) (key laterKey : String),
        plan.groupBy.isEmpty = false →
          (scope.evaluateEach .groupBy 1 plan.groupBy).Gives table (.ok [value]) middle →
          (later.evaluateEach .groupBy 1 plan.groupBy).Gives laterTable (.ok [other]) laterMiddle →
          (plan.startGroup scope).Gives table (.ok key) after →
          (plan.startGroup later).Gives laterTable (.ok laterKey) laterAfter →
          (key = laterKey ↔ value = other)) ∧
      ∃ kept, KeptOnce value other kept ∧
        CollectionFunction.unique.apply [.list [value, other]] = .ok (.list kept) ∧
        (∃ next, Accumulator.collectDistinct true other
          (Accumulator.after [Accumulator.collectDistinct true value]) = .ok (.list kept, next)) ∧
        ∃ next, Accumulator.countDistinct other
          (Accumulator.after [Accumulator.countDistinct value]) =
            .ok (.ofNat (kept.filter fun item => !item.isNull).length, next) := by
  refine ⟨h.equal hkeyed, tupleKey_singleton_iff, hkeyed.rearranged_arranged,
    by rw [h.arranged_eq hkeyed], ?_, ?_, exists_keptOnce value other⟩
  · intro query record later hdistinct hgroups hrecord hlater
    rw [Output.handle_eq_self_iff hdistinct hgroups]
    simp [hrecord, hlater]
  · intro plan scope later table middle after laterTable laterMiddle laterAfter key laterKey hgroups
      hvalue hother hkey hlaterKey
    obtain ⟨values, _, hvalues, rfl⟩ := Plan.tuple_of_startGroup hgroups hkey
    obtain ⟨others, _, hothers, rfl⟩ := Plan.tuple_of_startGroup hgroups hlaterKey
    obtain rfl := Except.ok.inj (hvalues.unique hvalue).1
    obtain rfl := Except.ok.inj (hothers.unique hother).1
    exact tupleKey_singleton_iff

theorem Value.keyed_flags : Value.Keyed (.object [("a", .bool true), ("b", .bool false)]) :=
  .object (by decide) (by simp [Value.Keyed.bool])

theorem Value.rearranged_flags :
    Value.Rearranged (.object [("a", .bool true), ("b", .bool false)])
      (.object [("b", .bool false), ("a", .bool true)]) := by
  refine .object (.swap _ _ _) fun key value other hvalue hother => ?_
  obtain rfl := eq_of_mem_entries (by decide) hvalue
    ((List.Perm.swap _ _ _).mem_iff.mp hother)
  exact .same value

/-- An object with its two entries in both orders is kept twice. -/
theorem keys_of_rearranged_of_flags :
    ∃ value other : Value, value.Keyed ∧ value.Rearranged other ∧ value.equal other = true ∧
      tupleKey [value] ≠ tupleKey [other] ∧
      tupleKey [value.arranged] = tupleKey [other.arranged] ∧
      CollectionFunction.unique.apply [.list [value, other]] = .ok (.list [value, other]) := by
  obtain ⟨hequal, hkey, -, harranged, -, -, kept, hkept, hunique, -⟩ :=
    keys_of_rearranged Value.keyed_flags Value.rearranged_flags
  have hne : Value.object [("a", .bool true), ("b", .bool false)] ≠
      .object [("b", .bool false), ("a", .bool true)] := by simp
  obtain ⟨heq, -⟩ | ⟨-, rfl⟩ := hkept
  · exact absurd heq hne
  · exact ⟨_, _, Value.keyed_flags, Value.rearranged_flags, hequal, mt hkey.mp hne, harranged,
      hunique⟩

/-- Keys are not canonical: values that differ in the order of entries only need not share one. -/
theorem keys_not_canonical :
    ¬ ∀ value other : Value, value.Keyed → value.Rearranged other → value.equal other = true →
      tupleKey [value] = tupleKey [other] := by
  intro h
  have hkey := h _ _ Value.keyed_flags Value.rearranged_flags
    (Value.rearranged_flags.equal Value.keyed_flags)
  exact absurd (tupleKey_singleton_iff.mp hkey) (by simp)

end StreamQuery
