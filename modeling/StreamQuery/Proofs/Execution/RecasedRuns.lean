import StreamQuery.Proofs.Execution.RecasedPlans
import StreamQuery.Proofs.Execution.SideBySide

/-!
# Runs of recased queries

Runs of two queries that are the same but for the spelling of what they call go on side by side:
they keep the same rows and make the same records of them, or both fail. Their writers see the same
rows, after headers that may tell the spellings apart in the names of columns.
-/

namespace StreamQuery

open Stateful Reporting

/-! ### Rows under two plans -/

namespace Scope

variable (scope : Scope) {expr other : Expr}

theorem agree_evaluateAt_of_sameCalls (location : Location) (h : expr.SameCalls other) :
    Agree Eq (scope.evaluateAt location expr) (scope.evaluateAt location other) :=
  (scope.agree_evaluate_of_sameCalls h).mapError _ _

theorem agree_evaluateEach_of_sameCalls (clause : Clause) (position : Nat) {exprs others : List Expr}
    (h : List.Forall₂ Expr.SameCalls exprs others) :
    Agree Eq (scope.evaluateEach clause position exprs)
      (scope.evaluateEach clause position others) := by
  induction h generalizing position with
  | nil => exact agree_pure _
  | cons hexpr _ ih =>
    exact (scope.agree_evaluateAt_of_sameCalls _ hexpr).bind fun _ => (ih _).bind fun _ => agree_pure _

theorem assignEach_eq (h : expr.SameCalls other) (items : List Value) :
    scope.assignEach expr items = scope.assignEach other items := by
  induction items with
  | nil => rfl
  | cons item rest ih => rw [assignEach, assignEach, Assignment.assign_eq h, ih]

theorem agree_explode (h : expr.SameCalls other) :
    Agree Eq (scope.explode expr) (scope.explode other) := by
  refine (scope.agree_evaluateAt_of_sameCalls _ h).bind fun value => ?_
  cases value with
  | null => exact agree_pure _
  | list items =>
    dsimp only
    rw [scope.assignEach_eq h]
    exact agree_ofResult (.refl (fun _ => trivial) _)
  | _ => exact agree_throw _ _

end Scope

namespace Plan

variable {plan other : Plan} (h : plan.SameCalls other) (scope : Scope)
include h

theorem SameCalls.agree_spread : Agree Eq (plan.spread scope) (other.spread scope) := by
  have hexplode := h.explode
  rw [spread, spread]
  generalize plan.explode = target, other.explode = otherTarget at hexplode
  cases hexplode with
  | none => exact agree_pure _
  | some htarget => exact scope.agree_explode htarget

theorem SameCalls.agree_keeps : Agree Eq (plan.keeps scope) (other.keeps scope) := by
  have hcondition := h.condition
  rw [keeps, keeps]
  generalize plan.condition = condition, other.condition = otherCondition at hcondition
  cases hcondition with
  | none => exact agree_pure _
  | some hexpr => exact (scope.agree_evaluateAt_of_sameCalls _ hexpr).bind fun _ => agree_pure _

theorem SameCalls.agree_startGroup :
    Agree Eq (plan.startGroup scope) (other.startGroup scope) := by
  have hgroupBy := h.groupBy
  have hempty : plan.groupBy.isEmpty = other.groupBy.isEmpty := by
    generalize plan.groupBy = exprs, other.groupBy = others at hgroupBy
    cases hgroupBy <;> rfl
  rw [startGroup, startGroup, hempty]
  split
  · exact agree_pure _
  · refine (scope.agree_evaluateEach_of_sameCalls .groupBy 1 hgroupBy).bind fun values => ?_
    exact (agree_modify fun _ _ heq => congrArg _ heq).bind fun _ => agree_pure _

omit h in
theorem agree_project_of_sameCalls {items others : List PlanItem}
    (h : List.Forall₂ PlanItem.SameCalls items others) (position : Nat) :
    Agree Eq (project scope position items) (project scope position others) := by
  induction h generalizing position with
  | nil => exact agree_pure _
  | cons hitem _ ih =>
    cases hitem with
    | star => exact (ih _).bind fun _ => agree_pure _
    | expression hexpr =>
      exact (scope.agree_evaluateAt_of_sameCalls _ hexpr).bind fun _ => (ih _).bind fun _ => agree_pure _

omit h in
theorem agree_sortKeys_of_sameCalls {keys others : List PlanKey}
    (h : List.Forall₂ PlanKey.SameCalls keys others) (projected : List Value) (position : Nat) :
    Agree Eq (sortKeys scope projected position keys)
      (sortKeys scope projected position others) := by
  induction h generalizing position with
  | nil => exact agree_pure _
  | cons hkey _ ih =>
    cases hkey with
    | expression hexpr =>
      exact (scope.agree_evaluateAt_of_sameCalls _ hexpr).bind fun _ => (ih _).bind fun _ => agree_pure _
    | outputColumn index =>
      rw [sortKeys, sortKeys]
      split
      · exact (ih _).bind fun _ => agree_pure _
      · exact agree_throw _ _

theorem SameCalls.agree_record : Agree Eq (plan.record scope) (other.record scope) := by
  refine (h.agree_startGroup scope).bind fun _ => ?_
  refine (agree_project_of_sameCalls scope h.items 1).bind fun values => ?_
  exact (agree_sortKeys_of_sameCalls scope h.orderBy values 1).bind fun _ => agree_pure _

end Plan

/-! ### Writers -/

/-- What a writer makes of an event in two states: it takes the event in both and leaves related
states, or refuses it in both. -/
inductive Writer.Taken {σ : Type} (related : σ → σ → Prop) :
    Except Error Unit × σ → Except Error Unit × σ → Prop
  | taken {state other : σ} : related state other → Taken related (.ok (), state) (.ok (), other)
  | refused (error otherError : Error) (state other : σ) :
      Taken related (.error error, state) (.error otherError, other)

/-- From related states a writer takes the same rows alike, and also the headers of two lists of
columns for the same input. -/
structure Writer.TakesAlike {σ : Type} (writer : Writer σ) (related : σ → σ → Prop)
    (items others : List SelectItem) : Prop where
  row : ∀ values state other, related state other →
    Taken related (writer (.row values) state) (writer (.row values) other)
  flush : ∀ state other, related state other →
    Taken related (writer .flush state) (writer .flush other)
  header : ∀ names state other, related state other →
    Taken related (writer (.header (outputColumns items names)) state)
      (writer (.header (outputColumns others names)) other)

/-! ### Runs side by side -/

/-- Two runs side by side: their writers are related, the second one has other keys to order by, and
all else is the same. -/
structure Alongside {σ : Type} (related : σ → σ → Prop) (keys others : List OrderKey)
    (state other : RunState σ) : Prop where
  keys : state.output.orderBy = keys
  same : ∃ written, related state.writer written ∧
    other = { state with output := state.output.orderedBy others, writer := written }

namespace Stateful

variable {σ τ α β γ : Type} {related : σ → τ → Prop}

theorem agree_get {next : σ → Stateful σ α} {otherNext : τ → Stateful τ α}
    (h : ∀ seen found, related seen found → Agree related (next seen) (otherNext found)) :
    Agree related (MonadState.get >>= next) (MonadState.get >>= otherNext) := by
  intro state other hrelated
  rcases h state other hrelated state other hrelated with
    ⟨value, last, otherLast, hleft, hright, hlast⟩ | ⟨error, otherError, last, otherLast, hleft,
      hright⟩
  · exact .inl ⟨value, last, otherLast, (gives_get _).bind hleft, (gives_get _).bind hright, hlast⟩
  · exact .inr ⟨error, otherError, last, otherLast, (gives_get _).bind hleft,
      (gives_get _).bind hright⟩

theorem agree_set {new : σ} {otherNew : τ} (h : related new otherNew) :
    Agree related (set new : Stateful σ PUnit) (set otherNew) :=
  fun _ _ _ => .inl ⟨⟨⟩, new, otherNew, gives_set _ _, gives_set _ _, h⟩

/-- Computations without a state with the same outcome go on to computations that agree. -/
theorem agree_ofReporting_bind {values : β → γ → Prop} {computation : Reporting β}
    {other : Reporting γ} {next : β → Stateful σ α} {otherNext : γ → Stateful τ α}
    (h : SameOutcome values computation other)
    (hnext : ∀ value found, values value found → Agree related (next value) (otherNext found)) :
    Agree related (ofReporting computation >>= next) (ofReporting other >>= otherNext) := by
  obtain ⟨_, _, hgives, hother, halike⟩ := h
  intro state otherState hrelated
  cases halike with
  | error =>
    exact .inr ⟨_, _, state, otherState, (gives_ofReporting hgives _).bind_error,
      (gives_ofReporting hother _).bind_error⟩
  | ok hvalues =>
    rcases hnext _ _ hvalues state otherState hrelated with
      ⟨value, last, otherLast, hleft, hright, hlast⟩ | ⟨error, otherError, last, otherLast, hleft,
        hright⟩
    · exact .inl ⟨value, last, otherLast, (gives_ofReporting hgives _).bind hleft,
        (gives_ofReporting hother _).bind hright, hlast⟩
    · exact .inr ⟨error, otherError, last, otherLast, (gives_ofReporting hgives _).bind hleft,
        (gives_ofReporting hother _).bind hright⟩

end Stateful

namespace Job

variable {σ α : Type} {related : σ → σ → Prop} {keys others : List OrderKey}

theorem agree_evaluating {left right : Evaluating α} (h : Agree Eq left right) :
    Agree (Alongside related keys others) (evaluating left) (evaluating right) := by
  rintro state _ ⟨hkeys, written, hwritten, rfl⟩
  rcases h state.aggregates _ rfl with ⟨value, table, _, hleft, hright, rfl⟩ |
    ⟨error, otherError, table, otherTable, hleft, hright⟩
  · exact .inl ⟨value, _, _, Gives.onPart hleft, Gives.onPart hright, hkeys, written, hwritten, rfl⟩
  · exact .inr ⟨error, otherError, _, _, Gives.onPart hleft, Gives.onPart hright⟩

/-- An event that the writer takes alike. -/
theorem agree_write (writer : Writer σ) {event other : Event}
    (h : ∀ state next, related state next →
      Writer.Taken related (writer event state) (writer other next)) :
    Agree (Alongside related keys others) (write writer event) (write writer other) := by
  rintro state _ ⟨hkeys, written, hwritten, rfl⟩
  have htaken := h _ _ hwritten
  have hleft := gives_write_event writer event state
  have hright := gives_write_event writer other
    { state with output := state.output.orderedBy others, writer := written }
  dsimp only at hright
  generalize writer event state.writer = result, writer other written = otherResult at *
  cases htaken with
  | taken hrelated => exact .inl ⟨⟨⟩, _, _, hleft, hright, hkeys, _, hrelated, rfl⟩
  | refused => exact .inr ⟨_, _, _, _, hleft, hright⟩

theorem agree_writeRows (writer : Writer σ)
    (h : ∀ values state next, related state next →
      Writer.Taken related (writer (.row values) state) (writer (.row values) next))
    (rows : List (List Value)) :
    Agree (Alongside related keys others) (writeRows writer rows) (writeRows writer rows) := by
  induction rows with
  | nil => exact agree_pure _
  | cons values rest ih => exact (agree_write writer (h values)).bind fun _ => ih

theorem agree_take (job : Job) (pull : Pull) :
    Agree (Alongside related keys others) (job.take pull) (job.take pull) := by
  refine (agree_ofReporting (settles_raiseAll _ _)).bind fun _ => ?_
  cases pull.result with
  | error error => exact agree_throw _ _
  | ok record =>
    refine (agree_modify ?_).bind fun _ => agree_pure record
    rintro state _ ⟨hkeys, written, hwritten, rfl⟩
    exact ⟨hkeys, written, hwritten, rfl⟩

section Queries

variable (job : Job) {other : Query} (himports : other.imports = job.query.imports)
include himports

theorem session_withQuery : ({ job with query := other } : Job).session = job.session := by
  simp only [session, himports]

theorem scope_withQuery (names : List String) (values : List Value) {seen found : RunState σ}
    (h : Alongside related keys others seen found) :
    ({ job with query := other } : Job).scope names values found = job.scope names values seen := by
  obtain ⟨-, written, -, rfl⟩ := h
  rw [scope, scope, job.session_withQuery himports]

variable (writer : Writer σ)
  (hrow : ∀ values state next, related state next →
    Writer.Taken related (writer (.row values) state) (writer (.row values) next))
  {plan otherPlan : Plan} (hplan : plan.SameCalls otherPlan)
include hrow hplan

theorem agree_handleRow (names : List String) (values : List Value) :
    Agree (Alongside related keys others) (job.handleRow writer plan names values)
      (({ job with query := other } : Job).handleRow writer otherPlan names values) := by
  refine agree_get fun seen found hseen => ?_
  rw [job.scope_withQuery himports names values hseen]
  refine (agree_evaluating (hplan.agree_keeps _)).bind fun kept => ?_
  cases kept with
  | false => exact agree_pure _
  | true =>
    refine (agree_modify ?_).bind fun _ => agree_get fun seen found hseen => ?_
    · rintro state _ ⟨hkeys, written, hwritten, rfl⟩
      exact ⟨hkeys, written, hwritten, rfl⟩
    · rw [job.scope_withQuery himports names values hseen]
      refine (agree_evaluating (hplan.agree_record _)).bind fun record =>
        agree_get fun seen found hseen => ?_
      obtain ⟨hkeys, written, hwritten, rfl⟩ := hseen
      dsimp only
      rw [Output.handle_orderedBy]
      refine (agree_set ⟨?_, written, hwritten, rfl⟩).bind fun _ => ?_
      · exact (agree_writeRows writer hrow _).bind fun _ => agree_pure _
      · exact (Output.orderBy_handle _ _).trans hkeys

theorem agree_handleRows (names : List String) (rows : List (List Value)) :
    Agree (Alongside related keys others) (job.handleRows writer plan names rows)
      (({ job with query := other } : Job).handleRows writer otherPlan names rows) := by
  induction rows with
  | nil => exact agree_pure _
  | cons values rest ih =>
    refine (job.agree_handleRow himports writer hrow hplan names values).bind fun full => ?_
    cases full with
    | true => exact agree_pure _
    | false => exact ih

theorem agree_handleInput (names : List String) (values : List Value) :
    Agree (Alongside related keys others) (job.handleInput writer plan names values)
      (({ job with query := other } : Job).handleInput writer otherPlan names values) := by
  refine (agree_modify ?_).bind fun _ => agree_get fun seen found hseen => ?_
  · rintro state _ ⟨hkeys, written, hwritten, rfl⟩
    exact ⟨hkeys, written, hwritten, rfl⟩
  · rw [job.scope_withQuery himports names values hseen]
    exact (agree_evaluating (hplan.agree_spread _)).bind fun rows =>
      job.agree_handleRows himports writer hrow hplan names rows

theorem agree_consumeRows (names : List String) (source : Source) :
    Agree (Alongside related keys others) (job.consumeRows writer plan names source)
      (({ job with query := other } : Job).consumeRows writer otherPlan names source) := by
  induction source with
  | nil => exact agree_pure _
  | cons pull rest ih =>
    refine (job.agree_take pull).bind fun record => ?_
    cases record with
    | header columns => exact ih
    | row values =>
      refine (job.agree_handleInput himports writer hrow hplan names values).bind fun full => ?_
      cases full with
      | true => exact agree_pure _
      | false => exact ih

end Queries

section Runs

variable (job : Job) {other : Query} (h : job.query.Recased other) (hready : job.query.Ready)
  (writer : Writer σ)
  (hwriter : writer.TakesAlike related job.query.selection.items other.selection.items)
include h hready hwriter

theorem agree_consume (declared : List String) (source : Source) :
    Agree (Alongside related keys others) (job.consume writer declared source)
      (({ job with query := other } : Job).consume writer declared source) := by
  have hheader : ∀ names, Agree (Alongside related keys others) (job.writeHeader writer names)
      (({ job with query := other } : Job).writeHeader writer names) := fun names =>
    agree_write writer (hwriter.header names)
  induction source generalizing declared with
  | nil => exact hheader declared
  | cons pull rest ih =>
    refine (job.agree_take pull).bind fun record => ?_
    cases record with
    | header names => exact ih names
    | row values =>
      refine (hheader _).bind fun _ => agree_get fun seen found hseen => ?_
      have hdone : found.output.isDone = seen.output.isDone := by
        obtain ⟨-, written, -, rfl⟩ := hseen
        rfl
      rw [hdone]
      split
      · exact agree_pure _
      · refine agree_ofReporting_bind (Plan.sameOutcome_ofQuery _ job.policy h hready)
          fun plan otherPlan hplan => ?_
        refine (job.agree_handleInput h.imports.symm writer hwriter.row hplan _ values).bind
          fun full => ?_
        cases full with
        | true => exact agree_pure _
        | false => exact job.agree_consumeRows h.imports.symm writer hwriter.row hplan _ rest

theorem agree_runAll (source : Source)
    (hsorts : ∀ records, sortRecords others records = sortRecords keys records) :
    Agree (Alongside related keys others) (job.runAll writer source)
      (({ job with query := other } : Job).runAll writer source) := by
  refine (job.agree_consume h hready writer hwriter [] source).bind fun _ =>
    agree_get fun seen found hseen => ?_
  obtain ⟨hkeys, written, hwritten, rfl⟩ := hseen
  dsimp only
  rw [Output.finish_orderedBy fun records => hkeys ▸ hsorts records]
  refine (agree_set ⟨hkeys, written, hwritten, rfl⟩).bind fun _ => ?_
  refine (agree_writeRows writer hwriter.row _).bind fun _ =>
    (agree_write writer hwriter.flush).bind fun _ => agree_get fun last found hlast => ?_
  obtain ⟨-, _, -, rfl⟩ := hlast
  exact agree_pure _

end Runs

end Job

end StreamQuery
