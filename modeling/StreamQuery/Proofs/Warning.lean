import StreamQuery.Proofs.Evaluation.Relation

/-!
# Up to the first warning

Where warnings are errors a computation is cut short: it does the same as where they are reported
until the first warning, and fails with that. Composing computations keeps this, as long as nothing
catches the failure.
-/

namespace StreamQuery

variable {σ α β : Type}

/-! ### Computations without a state of their own -/

namespace Reporting

/-- The second computation has the result of the first if that raises no warning, and else fails:
with the first warning, given that something holds. -/
def Cuts (holds : Prop) (full cut : Reporting α) : Prop :=
  ∃ (result : Except Error α) (raised : List Warning),
    (∀ before, full.run.run before = (result, raised.reverse ++ before)) ∧
    match raised with
    | [] => ∀ before, cut.run.run before = (result, before)
    | first :: _ => ∃ error, (holds → error = .warning first) ∧
        ∀ before, cut.run.run before = (.error error, before)

variable {holds : Prop}

theorem cuts_certain (result : Except Error α) :
    Cuts holds (ExceptT.mk (pure result) : Reporting α) (ExceptT.mk (pure result)) :=
  ⟨result, [], fun _ => rfl, fun _ => rfl⟩

theorem cuts_pure (value : α) : Cuts holds (pure value : Reporting α) (pure value) :=
  cuts_certain (.ok value)

theorem cuts_throw (error : Error) : Cuts holds (throw error : Reporting α) (throw error) :=
  cuts_certain (.error error)

/-- Where warnings are errors, none is reported. -/
theorem Cuts.run_cut {full cut : Reporting α} (h : Cuts holds full cut) :
    ∃ result, ∀ before, cut.run.run before = (result, before) := by
  obtain ⟨result, raised, -, hcut⟩ := h
  cases raised with
  | nil => exact ⟨result, hcut⟩
  | cons first rest =>
    obtain ⟨error, -, hcut⟩ := hcut
    exact ⟨.error error, hcut⟩

theorem Cuts.bind {full cut : Reporting α} {fullNext cutNext : α → Reporting β}
    (hfirst : Cuts holds full cut) (hnext : ∀ value, Cuts holds (fullNext value) (cutNext value)) :
    Cuts holds (full >>= fullNext) (cut >>= cutNext) := by
  obtain ⟨result, raised, hfull, hcut⟩ := hfirst
  cases result with
  | error error =>
    refine ⟨.error error, raised, fun before => ?_, ?_⟩
    · rw [run_bind, hfull]
    · cases raised with
      | nil => exact fun before => by rw [run_bind, hcut]
      | cons first rest =>
        obtain ⟨caught, hcaught, hcut⟩ := hcut
        exact ⟨caught, hcaught, fun before => by rw [run_bind, hcut]⟩
  | ok value =>
    obtain ⟨last, later, hfullNext, hcutNext⟩ := hnext value
    refine ⟨last, raised ++ later, fun before => ?_, ?_⟩
    · rw [run_bind, hfull]
      simp only [hfullNext, List.reverse_append, List.append_assoc]
    · cases raised with
      | cons first rest =>
        obtain ⟨caught, hcaught, hcut⟩ := hcut
        exact ⟨caught, hcaught, fun before => by rw [run_bind, hcut]⟩
      | nil =>
        cases later with
        | nil =>
          intro before
          rw [run_bind, hcut]
          exact hcutNext before
        | cons first rest =>
          obtain ⟨caught, hcaught, hcutNext⟩ := hcutNext
          refine ⟨caught, hcaught, fun before => ?_⟩
          rw [run_bind, hcut]
          exact hcutNext before

theorem Cuts.map {full cut : Reporting α} (h : Cuts holds full cut) (change : α → β) :
    Cuts holds (change <$> full) (change <$> cut) := by
  rw [map_eq_pure_bind, map_eq_pure_bind]
  exact h.bind fun value => cuts_pure (change value)

theorem run_attempt (computation : Reporting α) (before : List Warning) :
    computation.attempt.run.run before =
      (.ok (computation.run.run before).1, (computation.run.run before).2) := by
  change (Except.ok <$> computation.run).run before = _
  rw [StateT.run_map]
  rfl

theorem Cuts.of_run {full cut full' cut' : Reporting α} (h : Cuts holds full cut)
    (hfull : ∀ before, full'.run.run before = full.run.run before)
    (hcut : ∀ before, cut'.run.run before = cut.run.run before) : Cuts holds full' cut' := by
  simpa only [Cuts, hfull, hcut] using h

/-- A failure may be caught and thrown again as another one, as long as a warning stays as it
is. -/
theorem Cuts.rethrow {full cut rethrown recut : Reporting α} (h : Cuts holds full cut)
    {change : Error → Error} (hchange : ∀ warning, change (.warning warning) = .warning warning)
    (hfull : ∀ before, rethrown.run.run before =
      ((full.run.run before).1.mapError change, (full.run.run before).2))
    (hcut : ∀ before, recut.run.run before =
      ((cut.run.run before).1.mapError change, (cut.run.run before).2)) :
    Cuts holds rethrown recut := by
  obtain ⟨result, raised, hruns, hcuts⟩ := h
  refine ⟨result.mapError change, raised, fun before => by rw [hfull, hruns], ?_⟩
  cases raised with
  | nil => exact fun before => by rw [hcut, hcuts]
  | cons first rest =>
    obtain ⟨caught, hcaught, hcuts⟩ := hcuts
    exact ⟨change caught, fun h => by rw [hcaught h, hchange], fun before => by
      rw [hcut, hcuts]
      rfl⟩

theorem cuts_raise (warning : Warning) : Cuts holds (raise .report warning) (raise .fail warning) :=
  ⟨.ok (), [warning], fun _ => rfl, .warning warning, fun _ => rfl, fun _ => rfl⟩

theorem run_raiseAll_fail (warnings before : List Warning) :
    (raiseAll .fail warnings).run.run before =
      match warnings with
      | [] => (.ok (), before)
      | first :: _ => (.error (.warning first), before) := by
  cases warnings <;> rfl

theorem run_raiseAll_report (warnings before : List Warning) :
    (raiseAll .report warnings).run.run before = (.ok (), warnings.reverse ++ before) := by
  induction warnings generalizing before with
  | nil => rfl
  | cons warning rest ih =>
    rw [List.reverse_cons, List.append_assoc]
    exact ih (warning :: before)

theorem cuts_raiseAll (warnings : List Warning) :
    Cuts holds (raiseAll .report warnings) (raiseAll .fail warnings) := by
  induction warnings with
  | nil => exact cuts_pure ()
  | cons warning rest ih => exact (cuts_raise warning).bind fun _ => ih

end Reporting

/-! ### Computations with a state -/

namespace Stateful

/-- The second computation leaves the result and the state of the first if that raises no warning,
and else fails with its first warning. -/
def Cuts (full cut : Stateful σ α) : Prop :=
  ∀ state, ∃ (result : Except Error α) (after : σ) (raised : List Warning),
    (∀ before, full.outcome state before = ((result, after), raised.reverse ++ before)) ∧
    match raised with
    | [] => ∀ before, cut.outcome state before = ((result, after), before)
    | first :: _ => ∃ reached, ∀ before,
        cut.outcome state before = ((.error (.warning first), reached), before)

theorem cuts_ofResult (result : Except Error α) :
    Cuts (ofResult result : Stateful σ α) (ofResult result) :=
  fun state => ⟨result, state, [], fun _ => rfl, fun _ => rfl⟩

theorem cuts_pure (value : α) : Cuts (pure value : Stateful σ α) (pure value) :=
  cuts_ofResult (.ok value)

theorem cuts_throw (error : Error) : Cuts (throw error : Stateful σ α) (throw error) :=
  cuts_ofResult (.error error)

theorem cuts_modify (change : σ → σ) :
    Cuts (modify change : Stateful σ PUnit) (modify change) :=
  fun state => ⟨.ok ⟨⟩, change state, [], fun _ => rfl, fun _ => rfl⟩

theorem outcome_ofReporting (computation : Reporting α) (state : σ) (before : List Warning) :
    (ofReporting computation : Stateful σ α).outcome state before =
      (((computation.run.run before).1, state), (computation.run.run before).2) := by
  change StateT.run (StateT.run (StateT.lift computation.run) state) before = _
  rw [StateT.run_lift, StateT.run_bind]
  rfl

theorem cuts_raise (warning : Warning) :
    Cuts (ofReporting (raise .report warning) : Stateful σ Unit)
      (ofReporting (raise .fail warning)) :=
  fun state => ⟨.ok (), state, [warning], fun _ => outcome_ofReporting _ _ _,
    state, fun _ => outcome_ofReporting _ _ _⟩

theorem Cuts.bind {full cut : Stateful σ α} {fullNext cutNext : α → Stateful σ β}
    (hfirst : Cuts full cut) (hnext : ∀ value, Cuts (fullNext value) (cutNext value)) :
    Cuts (full >>= fullNext) (cut >>= cutNext) := by
  intro state
  obtain ⟨result, middle, raised, hfull, hcut⟩ := hfirst state
  cases result with
  | error error =>
    refine ⟨.error error, middle, raised, fun before => ?_, ?_⟩
    · rw [outcome_bind, hfull]
    · cases raised with
      | nil => exact fun before => by rw [outcome_bind, hcut]
      | cons first rest =>
        obtain ⟨reached, hcut⟩ := hcut
        exact ⟨reached, fun before => by rw [outcome_bind, hcut]⟩
  | ok value =>
    obtain ⟨last, after, later, hfullNext, hcutNext⟩ := hnext value middle
    refine ⟨last, after, raised ++ later, fun before => ?_, ?_⟩
    · rw [outcome_bind, hfull]
      simp only [hfullNext, List.reverse_append, List.append_assoc]
    · cases raised with
      | cons first rest =>
        obtain ⟨reached, hcut⟩ := hcut
        exact ⟨reached, fun before => by rw [outcome_bind, hcut]⟩
      | nil =>
        cases later with
        | nil =>
          intro before
          rw [outcome_bind, hcut]
          exact hcutNext before
        | cons first rest =>
          obtain ⟨reached, hcutNext⟩ := hcutNext
          refine ⟨reached, fun before => ?_⟩
          rw [outcome_bind, hcut]
          exact hcutNext before

/-- Changing errors other than warnings. -/
theorem Cuts.mapError {full cut : Stateful σ α} (h : Cuts full cut)
    {change : Error → Error} (hchange : ∀ warning, change (.warning warning) = .warning warning) :
    Cuts (full.mapError change) (cut.mapError change) := by
  have houtcome : ∀ (computation : Stateful σ α) (state : σ) (before : List Warning),
      (computation.mapError change).outcome state before =
        (((computation.outcome state before).1.1.mapError change,
          (computation.outcome state before).1.2), (computation.outcome state before).2) := by
    intro computation state before
    change StateT.run (StateT.run (Except.mapError change <$> computation.run) state) before = _
    rw [StateT.run_map, StateT.run_map]
    rfl
  intro state
  obtain ⟨result, after, raised, hfull, hcut⟩ := h state
  refine ⟨result.mapError change, after, raised, fun before => by rw [houtcome, hfull], ?_⟩
  cases raised with
  | nil => exact fun before => by rw [houtcome, hcut]
  | cons first rest =>
    obtain ⟨reached, hcut⟩ := hcut
    refine ⟨reached, fun before => ?_⟩
    rw [houtcome, hcut]
    change ((Except.error (change (.warning first)), reached), before) = _
    rw [hchange]

end Stateful

/-- Being cut short at the first warning is kept by composition. -/
def Congruence.cutting (σ : Type) : Congruence σ σ where
  relates := Stateful.Cuts
  pure := Stateful.cuts_pure
  throw := Stateful.cuts_throw
  bind := Stateful.Cuts.bind

/-! ### Evaluation -/

/-- The same scope in a run in which warnings are errors. -/
def Scope.failing (scope : Scope) : Scope :=
  { scope with session := { scope.session with policy := .fail } }

/-- An evaluation is cut short at its first warning. -/
theorem Scope.cuts_evaluate {scope : Scope} (hpolicy : scope.session.policy = .report)
    (expr : Expr) : Stateful.Cuts (scope.evaluate expr) (scope.failing.evaluate expr) := by
  have halike : (Congruence.cutting Aggregates).Alike scope scope.failing := {
    values := rfl
    modules := fun _ => rfl
    clock := rfl
    warns := fun warning => hpolicy ▸ Stateful.cuts_raise warning }
  refine (Congruence.cutting Aggregates).relates_evaluateWith halike expr fun part _ => ?_
  refine ⟨fun _ _ => rfl, fun _ function arguments _ _ table => ?_⟩
  exact ⟨_, _, [], fun _ => rfl, fun _ => rfl⟩

end StreamQuery
