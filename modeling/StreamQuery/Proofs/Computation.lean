import StreamQuery.Execution.Plan

/-!
# What computations give

A computation is described by its result and the state it leaves. Warnings that were raised before
it never matter: its own warnings are put in front of them.
-/

namespace StreamQuery

theorem exists_of_isOk {ε α : Type} {result : Except ε α} (h : result.isOk = true) :
    ∃ value, result = .ok value := by
  cases result with
  | ok value => exact ⟨value, rfl⟩
  | error error => cases h

theorem eq_ok_of_toOption {ε α : Type} {result : Except ε α} {value : α}
    (h : result.toOption = some value) : result = .ok value := by
  cases result with
  | error fault => cases h
  | ok found => rw [Option.some.inj h]

theorem ok_of_bind {ε α β : Type} {result : Except ε α} {next : α → Except ε β} {value : β}
    (h : result >>= next = .ok value) : ∃ found, result = .ok found ∧ next found = .ok value := by
  cases result with
  | error error => cases h
  | ok found => exact ⟨found, rfl, h⟩

/-- What is found for the elements of a list is found for one of them. -/
theorem exists_of_mem_mapM {ε α β : Type} {f : α → Except ε β} {items : List α} {values : List β}
    (h : items.mapM f = .ok values) : ∀ value ∈ values, ∃ item ∈ items, f item = .ok value := by
  induction items generalizing values with
  | nil =>
    cases h
    exact fun _ hvalue => absurd hvalue List.not_mem_nil
  | cons item rest ih =>
    rw [List.mapM_cons] at h
    obtain ⟨first, hfirst, h⟩ := ok_of_bind h
    obtain ⟨later, hlater, h⟩ := ok_of_bind h
    cases h
    refine List.forall_mem_cons.mpr ⟨⟨item, List.mem_cons_self, hfirst⟩, fun value hvalue => ?_⟩
    obtain ⟨found, hfound, hvalue⟩ := ih hlater value hvalue
    exact ⟨found, List.mem_cons_of_mem _ hfound, hvalue⟩

/-! ### Computations without a state of their own -/

namespace Reporting

variable {α β : Type}

/-- A computation ends with a result, whatever was warned about before. -/
def Gives (computation : Reporting α) (result : Except Error α) : Prop :=
  ∃ raised : List Warning, ∀ before, computation.run.run before = (result, raised ++ before)

/-- A computation has one result. -/
def Settles (computation : Reporting α) : Prop :=
  ∃ result, computation.Gives result

theorem run_bind (computation : Reporting α) (next : α → Reporting β) (before : List Warning) :
    (computation >>= next).run.run before =
      match computation.run.run before with
      | (.ok value, after) => (next value).run.run after
      | (.error error, after) => (.error error, after) := by
  rw [ExceptT.run_bind, StateT.run_bind]
  rcases computation.run.run before with ⟨_ | _, _⟩ <;> rfl

theorem Gives.unique {computation : Reporting α} {first second : Except Error α}
    (hfirst : computation.Gives first) (hsecond : computation.Gives second) :
    first = second := by
  obtain ⟨_, hfirst⟩ := hfirst
  obtain ⟨_, hsecond⟩ := hsecond
  exact congrArg Prod.fst ((hfirst []).symm.trans (hsecond []))

theorem gives_pure (value : α) : (pure value : Reporting α).Gives (.ok value) :=
  ⟨[], fun _ => rfl⟩

theorem gives_throw (error : Error) : (throw error : Reporting α).Gives (.error error) :=
  ⟨[], fun _ => rfl⟩

theorem Gives.bind {computation : Reporting α} {next : α → Reporting β} {value : α}
    {result : Except Error β} (hfirst : computation.Gives (.ok value))
    (hnext : (next value).Gives result) : (computation >>= next).Gives result := by
  obtain ⟨raised, hfirst⟩ := hfirst
  obtain ⟨later, hnext⟩ := hnext
  refine ⟨later ++ raised, fun before => ?_⟩
  simp only [run_bind, hfirst, hnext, List.append_assoc]

theorem Gives.bind_error {computation : Reporting α} {next : α → Reporting β} {error : Error}
    (hfirst : computation.Gives (.error error)) :
    (computation >>= next).Gives (.error error) := by
  obtain ⟨raised, hfirst⟩ := hfirst
  refine ⟨raised, fun before => ?_⟩
  simp only [run_bind, hfirst]

theorem settles_pure (value : α) : (pure value : Reporting α).Settles :=
  ⟨_, gives_pure value⟩

theorem settles_throw (error : Error) : (throw error : Reporting α).Settles :=
  ⟨_, gives_throw error⟩

theorem Settles.bind {computation : Reporting α} {next : α → Reporting β}
    (hfirst : computation.Settles) (hnext : ∀ value, (next value).Settles) :
    (computation >>= next).Settles := by
  obtain ⟨result, hfirst⟩ := hfirst
  cases result with
  | error error => exact ⟨_, hfirst.bind_error⟩
  | ok value =>
      obtain ⟨result, hnext⟩ := hnext value
      exact ⟨result, hfirst.bind hnext⟩

theorem Settles.attempt {computation : Reporting α} (h : computation.Settles) :
    computation.attempt.Settles := by
  obtain ⟨result, raised, h⟩ := h
  refine ⟨.ok result, raised, fun before => ?_⟩
  change (Except.ok <$> computation.run).run before = _
  rw [StateT.run_map, h]
  rfl

theorem settles_raise (policy : WarningPolicy) (warning : Warning) :
    (raise policy warning).Settles := by
  cases policy with
  | report => exact ⟨.ok (), [warning], fun _ => rfl⟩
  | fail => exact settles_throw _

theorem settles_raiseAll (policy : WarningPolicy) (warnings : List Warning) :
    (raiseAll policy warnings).Settles := by
  induction warnings with
  | nil => exact settles_pure ()
  | cons warning rest ih => exact (settles_raise policy warning).bind fun _ => ih

/-- A computation that succeeds went through a success of its first step. -/
theorem Gives.of_bind {computation : Reporting α} {next : α → Reporting β} {result : β}
    (hfirst : computation.Settles) (hnext : ∀ value, (next value).Settles)
    (h : (computation >>= next).Gives (.ok result)) :
    ∃ value, computation.Gives (.ok value) ∧ (next value).Gives (.ok result) := by
  obtain ⟨first, hfirst⟩ := hfirst
  cases first with
  | error error => cases h.unique hfirst.bind_error
  | ok value =>
      obtain ⟨second, hnext⟩ := hnext value
      obtain rfl := h.unique (hfirst.bind hnext)
      exact ⟨value, hfirst, hnext⟩

/-- Every value that a computation ends with has a property. -/
def Yields (property : α → Prop) (computation : Reporting α) : Prop :=
  ∀ before value, (computation.run.run before).1 = .ok value → property value

theorem yields_pure {property : α → Prop} {value : α} (h : property value) :
    Yields property (pure value) := fun _ _ hvalue => Except.ok.inj hvalue ▸ h

theorem yields_throw (property : α → Prop) (error : Error) : Yields property (throw error) :=
  fun _ _ hvalue => by cases hvalue

theorem yields_true (computation : Reporting α) : Yields (fun _ => True) computation :=
  fun _ _ _ => trivial

theorem Yields.bind {property : α → Prop} {result : β → Prop} {computation : Reporting α}
    {next : α → Reporting β} (h : Yields property computation)
    (hnext : ∀ value, property value → Yields result (next value)) :
    Yields result (computation >>= next) := by
  intro before value hvalue
  rw [run_bind] at hvalue
  have hfound := h before
  revert hvalue hfound
  rcases computation.run.run before with ⟨_ | found, after⟩
  · intro hvalue
    cases hvalue
  · exact fun hvalue hfound => hnext found (hfound found rfl) after value hvalue

/-- A computation that settles gives what it gives when nothing was warned about. -/
theorem Settles.gives {computation : Reporting α} (h : computation.Settles) :
    computation.Gives (computation.run.run []).1 := by
  obtain ⟨result, raised, h⟩ := h
  rw [h []]
  exact ⟨raised, h⟩

end Reporting

/-! ### Computations with a state -/

namespace Stateful

variable {σ τ α β : Type}

/-- The result, the state and the warnings after a computation, the latest warning first. -/
def outcome (computation : Stateful σ α) (state : σ) (before : List Warning) :
    (Except Error α × σ) × List Warning :=
  (computation.run.run state).run before

/-- From a state a computation ends with a result and leaves another state. -/
def Gives (computation : Stateful σ α) (state : σ) (result : Except Error α) (after : σ) : Prop :=
  ∃ raised : List Warning, ∀ before,
    computation.outcome state before = ((result, after), raised ++ before)

/-- From every state a computation has one result. -/
def Settles (computation : Stateful σ α) : Prop :=
  ∀ state, ∃ result after, computation.Gives state result after

theorem outcome_bind (computation : Stateful σ α) (next : α → Stateful σ β) (state : σ)
    (before : List Warning) :
    (computation >>= next).outcome state before =
      match computation.outcome state before with
      | ((.ok value, after), raised) => (next value).outcome after raised
      | ((.error error, after), raised) => ((.error error, after), raised) := by
  unfold outcome
  rw [ExceptT.run_bind, StateT.run_bind, StateT.run_bind]
  rcases (computation.run.run state).run before with ⟨⟨_ | _, _⟩, _⟩ <;> rfl

theorem Gives.unique {computation : Stateful σ α} {state : σ} {first second : Except Error α}
    {after other : σ} (hfirst : computation.Gives state first after)
    (hsecond : computation.Gives state second other) : first = second ∧ after = other := by
  obtain ⟨_, hfirst⟩ := hfirst
  obtain ⟨_, hsecond⟩ := hsecond
  have heq := congrArg Prod.fst ((hfirst []).symm.trans (hsecond []))
  exact ⟨congrArg Prod.fst heq, congrArg Prod.snd heq⟩

theorem Gives.outcome_eq {computation : Stateful σ α} {state after : σ}
    {result : Except Error α} (h : computation.Gives state result after) (before : List Warning) :
    (computation.outcome state before).1 = (result, after) := by
  obtain ⟨raised, h⟩ := h
  rw [h]

/-- A computation that settles gives what it gives when nothing was warned about. -/
theorem Settles.gives {computation : Stateful σ α} (h : computation.Settles) (state : σ) :
    computation.Gives state (computation.outcome state []).1.1
      (computation.outcome state []).1.2 := by
  obtain ⟨result, after, hgives⟩ := h state
  rw [hgives.outcome_eq]
  exact hgives

theorem gives_pure (value : α) (state : σ) :
    (pure value : Stateful σ α).Gives state (.ok value) state :=
  ⟨[], fun _ => rfl⟩

theorem gives_throw (error : Error) (state : σ) :
    (throw error : Stateful σ α).Gives state (.error error) state :=
  ⟨[], fun _ => rfl⟩

theorem gives_ofResult (result : Except Error α) (state : σ) :
    (ofResult result : Stateful σ α).Gives state result state :=
  ⟨[], fun _ => rfl⟩

theorem gives_get (state : σ) : (get : Stateful σ σ).Gives state (.ok state) state :=
  ⟨[], fun _ => rfl⟩

theorem gives_set (state after : σ) : (set after : Stateful σ PUnit).Gives state (.ok ⟨⟩) after :=
  ⟨[], fun _ => rfl⟩

theorem gives_modify (change : σ → σ) (state : σ) :
    (modify change : Stateful σ PUnit).Gives state (.ok ⟨⟩) (change state) :=
  ⟨[], fun _ => rfl⟩

theorem gives_ofReporting {computation : Reporting α} {result : Except Error α}
    (h : computation.Gives result) (state : σ) :
    (ofReporting computation : Stateful σ α).Gives state result state := by
  obtain ⟨raised, h⟩ := h
  refine ⟨raised, fun before => ?_⟩
  change (StateT.run (StateT.run (StateT.lift computation.run) state) before) = _
  rw [StateT.run_lift, StateT.run_bind, h]
  rfl

theorem Gives.bind {computation : Stateful σ α} {next : α → Stateful σ β} {state middle after : σ}
    {value : α} {result : Except Error β} (hfirst : computation.Gives state (.ok value) middle)
    (hnext : (next value).Gives middle result after) :
    (computation >>= next).Gives state result after := by
  obtain ⟨raised, hfirst⟩ := hfirst
  obtain ⟨later, hnext⟩ := hnext
  refine ⟨later ++ raised, fun before => ?_⟩
  simp only [outcome_bind, hfirst, hnext, List.append_assoc]

theorem Gives.bind_error {computation : Stateful σ α} {next : α → Stateful σ β} {state after : σ}
    {error : Error} (hfirst : computation.Gives state (.error error) after) :
    (computation >>= next).Gives state (.error error) after := by
  obtain ⟨raised, hfirst⟩ := hfirst
  refine ⟨raised, fun before => ?_⟩
  simp only [outcome_bind, hfirst]

theorem Gives.bind_pure {computation : Stateful σ α} {state after : σ} {result : Except Error α}
    {change : α → β} (h : computation.Gives state result after) :
    (computation >>= fun value => Pure.pure (change value)).Gives state (result.map change)
      after := by
  cases result with
  | error error => exact h.bind_error
  | ok value => exact h.bind (gives_pure _ _)

theorem Gives.mapError {computation : Stateful σ α} {state after : σ} {result : Except Error α}
    (h : computation.Gives state result after) (change : Error → Error) :
    (computation.mapError change).Gives state (result.mapError change) after := by
  obtain ⟨raised, h⟩ := h
  refine ⟨raised, fun before => ?_⟩
  change StateT.run (StateT.run (Except.mapError change <$> computation.run) state) before = _
  rw [StateT.run_map, StateT.run_map]
  change (fun p : (Except Error α × σ) × List Warning =>
    ((p.1.1.mapError change, p.1.2), p.2)) (computation.outcome state before) = _
  rw [h before]

theorem Gives.onPart {computation : Stateful τ α} {read : σ → τ} {write : τ → σ → σ} {state : σ}
    {result : Except Error α} {part : τ} (h : computation.Gives (read state) result part) :
    (onPart read write computation).Gives state result (write part state) := by
  obtain ⟨raised, h⟩ := h
  refine ⟨raised, fun before => ?_⟩
  change (fun p : (Except Error α × τ) × List Warning =>
    ((p.1.1, write p.1.2 state), p.2)) (computation.outcome (read state) before) = _
  rw [h before]

theorem settles_pure (value : α) : (pure value : Stateful σ α).Settles :=
  fun state => ⟨_, _, gives_pure value state⟩

theorem settles_throw (error : Error) : (throw error : Stateful σ α).Settles :=
  fun state => ⟨_, _, gives_throw error state⟩

theorem settles_ofResult (result : Except Error α) : (ofResult result : Stateful σ α).Settles :=
  fun state => ⟨_, _, gives_ofResult result state⟩

theorem settles_modify (change : σ → σ) : (modify change : Stateful σ PUnit).Settles :=
  fun state => ⟨_, _, gives_modify change state⟩

theorem Settles.bind {computation : Stateful σ α} {next : α → Stateful σ β}
    (hfirst : computation.Settles) (hnext : ∀ value, (next value).Settles) :
    (computation >>= next).Settles := by
  intro state
  obtain ⟨result, middle, hfirst⟩ := hfirst state
  cases result with
  | error error => exact ⟨_, _, hfirst.bind_error⟩
  | ok value =>
      obtain ⟨result, after, hnext⟩ := hnext value middle
      exact ⟨result, after, hfirst.bind hnext⟩

/-- A computation that succeeds went through a success of its first step. -/
theorem Gives.of_bind {computation : Stateful σ α} {next : α → Stateful σ β} {state after : σ}
    {result : β} (hfirst : computation.Settles) (hnext : ∀ value, (next value).Settles)
    (h : (computation >>= next).Gives state (.ok result) after) :
    ∃ value middle, computation.Gives state (.ok value) middle ∧
      (next value).Gives middle (.ok result) after := by
  obtain ⟨first, middle, hfirst⟩ := hfirst state
  cases first with
  | error error => cases (h.unique hfirst.bind_error).1
  | ok value =>
      obtain ⟨second, last, hnext⟩ := hnext value middle
      obtain ⟨rfl, rfl⟩ := h.unique (hfirst.bind hnext)
      exact ⟨value, middle, hfirst, hnext⟩

theorem Gives.of_mapError {computation : Stateful σ α} {change : Error → Error} {state after : σ}
    {value : α} (hsettles : computation.Settles)
    (h : (computation.mapError change).Gives state (.ok value) after) :
    computation.Gives state (.ok value) after := by
  obtain ⟨result, middle, hresult⟩ := hsettles state
  obtain ⟨heq, rfl⟩ := h.unique (hresult.mapError change)
  cases result with
  | error error => cases heq
  | ok other => rwa [← Except.ok.inj heq] at hresult

/-! ### What a computation ensures -/

/-- From states with one property, a computation leaves states with another one: which depends on
its result, and on whether it fails. -/
def Ensures (before : σ → Prop) (computation : Stateful σ α) (after : α → σ → Prop)
    (failed : σ → Prop) : Prop :=
  ∀ state warned, before state →
    match (computation.outcome state warned).1 with
    | (.ok value, last) => after value last
    | (.error _, last) => failed last

section Ensures

variable {before failed : σ → Prop} {after : α → σ → Prop} {final : β → σ → Prop}

theorem ensures_pure {value : α} (h : ∀ state, before state → after value state) :
    Ensures before (pure value) after failed :=
  fun state _ hstate => h state hstate

theorem ensures_throw {error : Error} (h : ∀ state, before state → failed state) :
    Ensures before (throw error) after failed :=
  fun state _ hstate => h state hstate

theorem ensures_set {new : σ} {after : PUnit → σ → Prop} (h : after ⟨⟩ new) :
    Ensures before (set new) after failed :=
  fun _ _ _ => h

theorem ensures_modify {change : σ → σ} {after : PUnit → σ → Prop}
    (h : ∀ state, before state → after ⟨⟩ (change state)) :
    Ensures before (modify change) after failed :=
  fun state _ hstate => h state hstate

theorem Ensures.bind {computation : Stateful σ α} {next : α → Stateful σ β}
    (h : Ensures before computation after failed)
    (hnext : ∀ value, Ensures (after value) (next value) final failed) :
    Ensures before (computation >>= next) final failed := by
  intro state warned hstate
  have hfirst := h state warned hstate
  rw [outcome_bind]
  revert hfirst
  rcases computation.outcome state warned with ⟨⟨_ | value, middle⟩, raised⟩
  · exact id
  · exact hnext value middle raised

theorem ensures_get {next : σ → Stateful σ β}
    (h : ∀ seen, before seen → Ensures before (next seen) final failed) :
    Ensures before (MonadState.get >>= next) final failed :=
  fun state warned hstate => h state hstate state warned hstate

theorem Ensures.or_failed {computation : Stateful σ α} {others : σ → Prop}
    (h : Ensures before computation after failed) (hfailed : ∀ state, failed state → others state) :
    Ensures before computation after others := by
  intro state warned hstate
  have hfirst := h state warned hstate
  revert hfirst
  rcases computation.outcome state warned with ⟨⟨_ | value, last⟩, raised⟩
  · exact hfailed last
  · exact id

/-- What holds whatever the state is a hypothesis. -/
theorem ensures_of_and {holds : Prop} {computation : Stateful σ α}
    (h : holds → Ensures before computation after failed) :
    Ensures (fun state => holds ∧ before state) computation after failed :=
  fun state warned hstate => h hstate.1 state warned hstate.2

end Ensures

end Stateful

end StreamQuery
