import StreamQuery.Proofs.Evaluation.Mirroring
import StreamQuery.Proofs.Execution.Alignment
import StreamQuery.Proofs.Execution.Grouping
import StreamQuery.Proofs.Execution.InStep

/-!
# Items evaluated again

An `ORDER BY` key that is an output column takes a value that is there already. A key with the
expression of the column evaluates it once more on the same row. Its calls then have accumulators of
their own, which stand for the same calls as those of the item on every row of a group, and so hold
the same.
-/

namespace StreamQuery

open Stateful Aggregates

/-! ### Records in two parts -/

namespace Plan

/-- The record of a row whose group is known. -/
def recordIn (plan : Plan) (scope : Scope) (groupKey : String) : Evaluating OutputRecord := do
  let values ← project scope 1 plan.items
  return ⟨values, ← sortKeys scope values 1 plan.orderBy, groupKey⟩

theorem record_eq (plan : Plan) (scope : Scope) :
    plan.record scope = plan.startGroup scope >>= plan.recordIn scope := rfl

/-- The values of a row, and those of the first keys that it is ordered by. -/
def opening (scope : Scope) (items : List PlanItem) (keys : List PlanKey) :
    Evaluating (List Value × List Value) := do
  let values ← project scope 1 items
  return (values, ← sortKeys scope values 1 keys)

theorem recordIn_eq {plan : Plan} {keys more : List PlanKey} (h : plan.orderBy = keys ++ more)
    (scope : Scope) (groupKey : String) :
    plan.recordIn scope groupKey = (do
      let (values, first) ← opening scope plan.items keys
      let rest ← sortKeys scope values (1 + keys.length) more
      return ⟨values, first ++ rest, groupKey⟩) := by
  simp only [recordIn, opening, h, sortKeys_append, bind_assoc, pure_bind]

/-- The same plan with other keys to order by. -/
def orderedBy (plan : Plan) (orderBy : List PlanKey) : Plan :=
  { plan with orderBy := orderBy }

end Plan

/-! ### One row -/

section Row

variable {scope : Scope} {front back : List PlanItem} {selected : List SelectItem} {expr : Expr}
  {keys more : List PlanKey} {start size backCalls keyCalls moreCalls : Nat}

open Plan

/-- What is evaluated up to the keys before a certain one. -/
theorem mirrors_opening
    (hfront : ∀ position, Mirrors start (project scope position front))
    (hexpr : ∀ location, Mirrors size (scope.evaluateAt location expr))
    (hback : ∀ position, Mirrors backCalls (project scope position back))
    (hkeys : ∀ projected position, Mirrors keyCalls (sortKeys scope projected position keys)) :
    Mirrors (start + (size + (backCalls + keyCalls)))
      (opening scope (front ++ .expression expr :: back) keys) := by
  simp only [opening, project_append, project, bind_assoc, pure_bind]
  refine (hfront _).bind fun earlier => (hexpr _).bind fun value => ?_
  exact (hback _).bind fun later => (hkeys _ _).bind fun sorted => Mirrors.pure _

/-- The parts of what is evaluated up to the keys before a certain one: the value of an item stands
behind those of the items before it. -/
theorem parts_of_opening (hfits : List.Forall₂ Fits front selected) (hstars : .star ∉ selected)
    {table third : Aggregates} {values sorted : List Value}
    (h : (opening scope (front ++ .expression expr :: back) keys).Gives table
      (.ok (values, sorted)) third) :
    ∃ earlier value first second last,
      (project scope 1 front).Gives table (.ok earlier) first ∧
      (scope.evaluateAt ⟨.select, some (1 + front.length)⟩ expr).Gives first (.ok value) second ∧
      (∃ position later, (project scope position back).Gives second (.ok later) last) ∧
      (sortKeys scope values 1 keys).Gives last (.ok sorted) third ∧
      values[front.length]? = some value := by
  obtain ⟨found, last, hproject, hnext⟩ := h.of_bind (project_settles scope _ _)
    fun values => (sortKeys_settles scope values 1 keys).bind fun _ => settles_pure _
  obtain ⟨others, final, hsorted, hlast⟩ :=
    hnext.of_bind (sortKeys_settles scope found 1 keys) fun _ => settles_pure _
  obtain ⟨hpair, rfl⟩ := hlast.unique (gives_pure _ _)
  cases hpair
  obtain ⟨earlier, first, later, hearlier, hrest, rfl⟩ := gives_of_project_append hproject
  obtain ⟨value, second, hvalue, hnext⟩ := hrest.of_bind (scope.evaluateAt_settles _ expr)
    fun _ => (project_settles scope _ _).bind fun _ => settles_pure _
  obtain ⟨behind, _, hbehind, hlast⟩ :=
    hnext.of_bind (project_settles scope _ _) fun _ => settles_pure _
  obtain ⟨hvalues, rfl⟩ := hlast.unique (gives_pure _ _)
  obtain rfl := Except.ok.inj hvalues
  have hlength := length_of_project hfits hearlier
  rw [outputWidth_of_not_mem hstars, ← hfits.length_eq] at hlength
  exact ⟨earlier, value, first, second, _, hearlier, hvalue, ⟨_, _, hbehind⟩, hsorted,
    by simp [← hlength]⟩

theorem gives_sortKeys_column {projected : List Value} {position index : Nat} {value : Value}
    {table after : Aggregates} {result : Except Error (List Value)}
    (hcolumn : projected[index]? = some value)
    (h : (sortKeys scope projected (position + 1) more).Gives table result after) :
    (sortKeys scope projected position (.outputColumn index :: more)).Gives table
      (result.map (value :: ·)) after := by
  simp only [sortKeys, hcolumn]
  exact h.bind_pure

theorem gives_sortKeys_expression {projected : List Value} {position : Nat} {value : Value}
    {table middle after : Aggregates} {result : Except Error (List Value)}
    (hvalue : (scope.evaluateAt ⟨.orderBy, some position⟩ expr).Gives table (.ok value) middle)
    (h : (sortKeys scope projected (position + 1) more).Gives middle result after) :
    (sortKeys scope projected position (.expression expr :: more)).Gives table
      (result.map (value :: ·)) after :=
  hvalue.bind h.bind_pure

/-- The record of a row under a key that is an output column, and under one with the expression of
its item: it is the same, and the calls of the expression are made once more. -/
theorem recordIn_repeats {plan : Plan} (hitems : plan.items = front ++ .expression expr :: back)
    (hfits : List.Forall₂ Fits front selected) (hstars : .star ∉ selected)
    (hfront : ∀ position, Mirrors start (project scope position front))
    (hexpr : ∀ location, Mirrors size (scope.evaluateAt location expr))
    (hback : ∀ position, Mirrors backCalls (project scope position back))
    (hkeys : ∀ projected position, Mirrors keyCalls (sortKeys scope projected position keys))
    (hmore : ∀ projected position, Mirrors moreCalls (sortKeys scope projected position more))
    (groupKey : String) {table other : Aggregates}
    (hdoubled : Doubled start (start + (size + (backCalls + keyCalls))) size table.ahead
      other.ahead) :
    ∃ result last otherLast,
      ((plan.orderedBy (keys ++ .outputColumn front.length :: more)).recordIn scope
        groupKey).Gives table result last ∧
      ((plan.orderedBy (keys ++ .expression expr :: more)).recordIn scope groupKey).Gives other
        result otherLast ∧
      ∀ record, result = .ok record → Repeats start size (start + (size + (backCalls + keyCalls)))
        moreCalls table other last otherLast := by
  rw [recordIn_eq rfl, recordIn_eq rfl]
  simp only [orderedBy, hitems]
  have hopening := mirrors_opening hfront hexpr hback hkeys
  obtain ⟨result, third, otherThird, hgives, hother, hall⟩ := hopening table other
    fun offset hoffset => (hdoubled.before offset hoffset).symm
  rcases result with error | ⟨values, sorted⟩
  · exact ⟨.error error, third, otherThird, hgives.bind_error, hother.bind_error,
      fun _ h => nomatch h⟩
  have hall := hall _ rfl
  obtain ⟨earlier, value, first, second, last, hearlier, hvalue, ⟨_, _, hlater⟩, hsorted,
    hcolumn⟩ := parts_of_opening hfits hstars hgives
  have hstart := (hfront 1).advances hearlier
  have hrest := ((hback _).advances hlater).trans ((hkeys _ _).advances hsorted)
  -- The item is evaluated again where a copy of its accumulators stands.
  have hwindow : ∀ offset < size, first.ahead offset = otherThird.ahead offset :=
    fun offset hoffset => by
      rw [hstart.ahead_eq, hall.otherAdvances.ahead_eq, hdoubled.copy offset hoffset]
  obtain ⟨copied, hagain, hcopy⟩ := (hexpr _).matching hvalue hwindow
  have hagain := Scope.gives_evaluateAt_ok hagain ⟨.orderBy, some (1 + keys.length)⟩
  have hahead : ∀ offset, third.ahead offset = copied.ahead offset := fun offset => by
    rw [hall.advances.ahead_eq, (hall.otherAdvances.trans hcopy.otherAdvances).ahead_eq,
      hdoubled.later]
  obtain ⟨result, final, otherFinal, hgivesMore, hotherMore, hmatching⟩ :=
    hmore values (1 + keys.length + 1) third copied fun offset _ => hahead offset
  refine ⟨_, final, otherFinal, hgives.bind (gives_sortKeys_column hcolumn hgivesMore).bind_pure,
    hother.bind (gives_sortKeys_expression hagain hotherMore).bind_pure, fun record hrecord => ?_⟩
  cases result with
  | error error => cases hrecord
  | ok rest => exact hdoubled.repeats hstart hrest hall hcopy (hmatching rest rfl)

end Row

/-! ### Between rows -/

namespace Aggregates

/-- The accumulators between two rows of a query that groups its rows, where the calls of a window
are made once on the left and twice on the right: every group has a copy of its window on the right,
and behind it the positions are shifted. Before the first row no group has any accumulators. -/
structure Shifted (start size place : Nat) (table other : Aggregates) : Prop where
  doubled : ∀ key, key ≠ "" → Doubled start place size (table.slotAt key) (other.slotAt key)
  present : other = table ∧ table.group = "" ∨
    other.group = table.group ∧ table.group ≠ "" ∧ other.position = table.position + size ∧
      place ≤ table.position

theorem shifted_initial (start size place : Nat) : Shifted start size place {} {} where
  doubled key _ := doubled_of_empty (fun _ => by simp [slotAt, slotsOf])
    fun _ => by simp [slotAt, slotsOf]
  present := .inl ⟨rfl, rfl⟩

namespace Shifted

variable {start size place : Nat} {table other : Aggregates}

theorem next (h : Shifted start size place table other) : table.next = other.next := by
  rcases h.present with ⟨rfl, -⟩ | ⟨hgroup, hne, hposition, hle⟩
  · rfl
  · obtain ⟨offset, hoffset⟩ := Nat.exists_eq_add_of_le hle
    have hlater := (h.doubled _ hne).later offset
    rw [next_eq_slotAt, next_eq_slotAt, hgroup, hposition, hoffset, ← hlater, Nat.add_right_comm]

theorem store (h : Shifted start size place table other) (hplace : start + size ≤ place)
    (accumulator : Accumulator) :
    Shifted start size place (table.store accumulator) (other.store accumulator) := by
  rcases h.present with ⟨rfl, hempty⟩ | ⟨hgroup, hne, hposition, hle⟩
  · refine ⟨fun key hkey => ?_, .inl ⟨rfl, hempty⟩⟩
    have hslots : (other.store accumulator).slotAt key = other.slotAt key := funext fun position =>
      (slotAt_store ..).trans (if_neg fun hhere => hkey (hhere.1.trans hempty))
    rw [hslots]
    exact h.doubled key hkey
  · refine ⟨fun key hkey => ?_, .inr ⟨hgroup, hne, ?_, Nat.le_succ_of_le hle⟩⟩
    · have hdoubled := h.doubled key hkey
      constructor
      · intro offset hoffset
        rw [slotAt_store, slotAt_store, if_neg (by omega), if_neg (by omega),
          hdoubled.before offset hoffset]
      · intro offset hoffset
        rw [slotAt_store, slotAt_store, if_neg (by omega), if_neg (by omega),
          hdoubled.copy offset hoffset]
      · intro offset
        rw [slotAt_store, slotAt_store, hgroup, hposition, hdoubled.later offset]
        refine if_congr (and_congr_right fun _ => ?_) rfl rfl
        omega
    · change other.position + 1 = table.position + 1 + size
      omega

theorem keptByCalls (hplace : start + size ≤ place) :
    Scope.KeptByCalls (Shifted start size place) := by
  intro function arguments table other h
  rcases call_of_next h.next function arguments with
    ⟨error, hcall, hother⟩ | ⟨result, accumulator, hcall, hother⟩
  · rw [hcall, hother]
    exact ⟨rfl, h⟩
  · rw [hcall, hother]
    exact ⟨rfl, h.store hplace accumulator⟩

end Shifted

theorem ahead_startRow (table : Aggregates) (key : String) :
    (table.startRow key).ahead = table.slotAt key :=
  funext fun offset => congrArg (table.slotAt key) (Nat.zero_add offset)

theorem since_startRow (table after : Aggregates) (key : String) :
    (table.startRow key).since after = after.slotAt key :=
  funext fun offset => congrArg (after.slotAt key) (Nat.zero_add offset)

/-- A row leaves the accumulators as it found them in relation. -/
theorem Shifted.of_repeats {start size place more : Nat} {table other after otherAfter : Aggregates}
    {key : String} (h : Shifted start size place table other) (hkey : key ≠ "")
    (hrepeats : Repeats start size place more (table.startRow key) (other.startRow key) after
      otherAfter) : Shifted start size place after otherAfter where
  doubled found hfound := by
    by_cases hsame : found = key
    · rw [hsame, ← since_startRow table after key, ← since_startRow other otherAfter key]
      exact hrepeats.doubled
    · have hleft : after.slotAt found = table.slotAt found := funext fun position =>
        hrepeats.advances.outside found position fun heq => absurd heq hsame
      have hright : otherAfter.slotAt found = other.slotAt found := funext fun position =>
        hrepeats.otherAdvances.outside found position fun heq => absurd heq hsame
      rw [hleft, hright]
      exact h.doubled found hfound
  present := by
    have hgroup : after.group = key := hrepeats.advances.group
    have hotherGroup : otherAfter.group = key := hrepeats.otherAdvances.group
    have hposition : after.position = 0 + (place + more) := hrepeats.advances.position
    have hotherPosition : otherAfter.position = 0 + (place + size + more) :=
      hrepeats.otherAdvances.position
    exact .inr ⟨hotherGroup.trans hgroup.symm, hgroup ▸ hkey, by omega, by omega⟩

/-- Two tables that have no accumulators where the next calls go, as in a query that does not group
its rows, where no position comes again. -/
def Blank (table other : Aggregates) : Prop :=
  (∀ offset, table.ahead offset = .empty) ∧ ∀ offset, other.ahead offset = .empty

theorem Blank.keptByCalls : Scope.KeptByCalls Blank := by
  rintro function arguments table other ⟨htable, hother⟩
  have hnext : table.next = other.next := (htable 0).trans (hother 0).symm
  rcases call_of_next hnext function arguments with
    ⟨error, hcall, hotherCall⟩ | ⟨result, accumulator, hcall, hotherCall⟩
  · rw [hcall, hotherCall]
    exact ⟨rfl, htable, hother⟩
  · rw [hcall, hotherCall]
    refine ⟨rfl, fun offset => ?_, fun offset => ?_⟩
    · rw [(advances_store table accumulator).ahead_eq, htable]
    · rw [(advances_store other accumulator).ahead_eq, hother]

end Aggregates

/-! ### Steps on two tables -/

/-- Ending alike is kept by composition. -/
def Congruence.inStep {σ τ : Type} (related : σ → τ → Prop) : Congruence σ τ where
  relates left right := InStep related left right (fun _ => related) fun _ _ => True
  pure _ := inStep_pure fun _ _ => id
  throw _ := inStep_throw fun _ _ _ => trivial
  bind := InStep.bind

section Steps

variable {related : Aggregates → Aggregates → Prop} (hcalls : Scope.KeptByCalls related)
include hcalls

theorem inStep_ofAggregate (function : Aggregate) (arguments : List Value) :
    (Congruence.inStep related).relates (Evaluating.ofAggregate function arguments)
      (Evaluating.ofAggregate function arguments) := by
  intro table other h
  obtain ⟨hresult, hafter⟩ := hcalls function arguments table other h
  refine ⟨_, _, _, Scope.gives_ofAggregate function arguments table,
    hresult ▸ Scope.gives_ofAggregate function arguments other, ?_⟩
  cases (table.call function arguments).1 with
  | ok value => exact hafter
  | error error => trivial

theorem Scope.evaluates_inStep (scope : Scope) (expr : Expr) :
    (Congruence.inStep related).Evaluates scope scope expr := by
  have alike : (Congruence.inStep related).Alike scope scope :=
    ⟨rfl, fun _ => rfl, rfl, fun _ => inStep_ofReporting (Reporting.settles_raise _ _)
      (fun _ _ _ _ => id) fun _ _ _ => trivial⟩
  intro location
  refine InStep.mapError ((Congruence.inStep related).relates_evaluateWith alike expr
    fun part _ => ⟨fun _ _ => rfl, fun _ function arguments _ _ => ?_⟩) _
  exact inStep_ofAggregate hcalls function arguments

end Steps

/-! ### All rows -/

namespace Plan

/-- A relation of accumulators between rows that rows under a plan keep. All calls keep it. Once the
group of a row is started there is a copy of the window on the right, and calls that keep the copy
lead back to the relation. -/
structure Carries (plan : Plan) (start size place : Nat)
    (related : Aggregates → Aggregates → Prop) : Prop where
  initial : related {} {}
  calls : Scope.KeptByCalls related
  starts : ∀ scope, InStep related (plan.startGroup scope) (plan.startGroup scope)
    (fun _ table other => Doubled start place size table.ahead other.ahead ∧
      ∀ more after otherAfter, Repeats start size place more table other after otherAfter →
        related after otherAfter) fun _ _ => True

theorem tupleKey_ne_empty (values : List Value) : tupleKey values ≠ "" := by
  rw [tupleKey, Value.toJson, ← String.toList_inj.ne, String.toList_ofList]
  simp [Json.text]

theorem carries_shifted {plan : Plan} (hgroups : plan.groupBy ≠ []) {start size place : Nat}
    (hplace : start + size ≤ place) :
    plan.Carries start size place (Shifted start size place) where
  initial := shifted_initial start size place
  calls := Shifted.keptByCalls hplace
  starts scope := by
    unfold startGroup
    rw [if_neg (by simpa using hgroups)]
    have hcalls := Shifted.keptByCalls hplace
    refine InStep.bind ((Congruence.inStep _).relates_evaluateEach
      (fun expr _ => scope.evaluates_inStep hcalls expr) _ _) fun values => ?_
    have hkey := tupleKey_ne_empty values
    refine (inStep_modify fun table other h => ?_).bind fun _ => inStep_pure fun _ _ => id
    refine ⟨?_, fun more after otherAfter => h.of_repeats hkey⟩
    rw [ahead_startRow, ahead_startRow]
    exact h.doubled _ hkey

theorem carries_blank {plan : Plan} (hgroups : plan.groupBy = []) (start size place : Nat) :
    plan.Carries start size place Blank where
  initial := ⟨fun _ => by simp [ahead, since, slotAt, slotsOf],
    fun _ => by simp [ahead, since, slotAt, slotsOf]⟩
  calls := Blank.keptByCalls
  starts scope := by
    unfold startGroup
    rw [if_pos (by simp [hgroups])]
    refine inStep_pure fun table other h => ⟨doubled_of_empty h.1 h.2, ?_⟩
    intro more after otherAfter hrepeats
    exact ⟨fun offset => by rw [hrepeats.advances.ahead_eq, h.1],
      fun offset => by rw [hrepeats.otherAdvances.ahead_eq, h.2]⟩

theorem exists_carries (plan : Plan) {start size place : Nat} (hplace : start + size ≤ place) :
    ∃ related, plan.Carries start size place related := by
  by_cases hgroups : plan.groupBy = []
  · exact ⟨Blank, carries_blank hgroups start size place⟩
  · exact ⟨_, carries_shifted hgroups hplace⟩

/-- A plan with a key that is an output column, and one with the expression of its item. -/
def Spells (index : Nat) (plan other : Plan) : Prop :=
  ∃ front expr back keys more, plan.items = front ++ .expression expr :: back ∧
    front.length = index ∧ plan.orderBy = keys ++ .outputColumn index :: more ∧
    other = plan.orderedBy (keys ++ .expression expr :: more)

theorem spells_orderedBy (plan : Plan) {index : Nat} {expr : Expr}
    (h : plan.items[index]? = some (.expression expr)) (keys more : List PlanKey) :
    (plan.orderedBy (keys ++ .outputColumn index :: more)).Spells index
      (plan.orderedBy (keys ++ .expression expr :: more)) := by
  obtain ⟨hlt, hget⟩ := List.getElem?_eq_some_iff.mp h
  have hsplit := List.take_append_drop index plan.items
  rw [List.drop_eq_getElem_cons hlt, hget] at hsplit
  exact ⟨_, expr, _, keys, more, hsplit.symm, List.length_take_of_le hlt.le, rfl, rfl⟩

/-- The records of rows under a key that is an output column, and under one with the expression of
its item: side by side they are the same, if nothing that is evaluated for some rows only calls an
aggregate. -/
theorem Spells.exists_inStep_record {index : Nat} {plan other : Plan}
    (hspells : plan.Spells index other) {items : List SelectItem}
    (hfits : List.Forall₂ Fits plan.items items) (hstars : .star ∉ items.take index)
    (hsilent : ∀ expr ∈ plan.rowExpressions, expr.conditionalAggregates = [])
    (modules : String → Option String) :
    ∃ related : Aggregates → Aggregates → Prop, related {} {} ∧ Scope.KeptByCalls related ∧
      ∀ scope : Scope, scope.Binds modules →
        InStep related (plan.record scope) (other.record scope) (fun _ => related)
          fun _ _ => True := by
  obtain ⟨front, expr, back, keys, more, hitems, rfl, horder, rfl⟩ := hspells
  have hfits := List.forall₂_take front.length hfits
  rw [hitems, List.take_left] at hfits
  rw [rowExpressions, hitems, horder, itemExpressions_append, keyExpressions_append] at hsilent
  simp only [itemExpressions, keyExpressions, List.forall_mem_append, List.forall_mem_cons]
    at hsilent
  obtain ⟨⟨hfront, hexpr, hback⟩, hkeys, hmore⟩ := hsilent
  obtain ⟨start, hfront⟩ := exists_mirrors_project modules hfront
  obtain ⟨size, hexpr⟩ := exists_mirrors_evaluateAt modules hexpr
  obtain ⟨backCalls, hback⟩ := exists_mirrors_project modules hback
  obtain ⟨keyCalls, hkeys⟩ := exists_mirrors_sortKeys modules hkeys
  obtain ⟨moreCalls, hmore⟩ := exists_mirrors_sortKeys modules hmore
  have hplace : start + size ≤ start + (size + (backCalls + keyCalls)) := by omega
  obtain ⟨related, hcarries⟩ := plan.exists_carries hplace
  refine ⟨related, hcarries.initial, hcarries.calls, fun scope binds => ?_⟩
  rw [record_eq, record_eq]
  refine (hcarries.starts scope).bind fun groupKey => ?_
  rintro table other ⟨hdoubled, hrestores⟩
  obtain ⟨result, last, otherLast, hgives, hother, hrepeats⟩ := recordIn_repeats hitems hfits hstars
    (hfront scope binds) (hexpr scope binds) (hback scope binds) (hkeys scope binds)
    (hmore scope binds) groupKey hdoubled
  rw [← horder] at hgives
  refine ⟨result, last, otherLast, hgives, hother, ?_⟩
  cases result with
  | error error => trivial
  | ok record => exact hrestores _ _ _ (hrepeats record rfl)

end Plan

end StreamQuery
