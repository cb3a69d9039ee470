import StreamQuery.Execution.Run
import StreamQuery.Proofs.Warning

/-!
# What happens in a run

A run takes records, raises warnings and hands events to its writer, in an order that the writer
has no say in: it may only end the run, by refusing an event. So one trace tells how the run goes
for every writer. Where warnings are errors the trace ends before its first warning.
-/

namespace StreamQuery

open Stateful

/-- What happens in a run: a record is taken, a warning is raised, or an event is handed to the
writer. -/
inductive Happening where
  | taken
  | warned (warning : Warning)
  | wrote (event : Event)

/-- What a trace comes to with a writer: the error with which the writer refused an event, if it
did, its state, the number of records taken and the warnings in order. -/
structure Played (σ : Type) where
  refusal : Option Error
  writer : σ
  pulled : Nat
  warnings : List Warning

namespace Played

variable {σ α : Type}

/-- One trace after another; there is none after a refusal. -/
def andThen (first : Played σ) (next : σ → Played σ) : Played σ :=
  match first.refusal with
  | some _ => first
  | none =>
    let later := next first.writer
    { later with
      pulled := first.pulled + later.pulled
      warnings := first.warnings ++ later.warnings }

theorem andThen_assoc (first : Played σ) (next last : σ → Played σ) :
    (first.andThen next).andThen last = first.andThen fun state => (next state).andThen last := by
  rcases first with ⟨_ | error, writer, pulled, warnings⟩
  · simp only [andThen]
    cases hrefusal : (next writer).refusal <;> simp [hrefusal, Nat.add_assoc]
  · rfl

/-- The result of a run that would end with another one if no event were refused. -/
def ending (played : Played σ) (result : Except Error α) : Except Error α :=
  match played.refusal with
  | none => result
  | some error => .error error

end Played

namespace Happening

variable {σ : Type}

/-- What one step of a trace comes to. -/
def playOne (writer : Writer σ) (state : σ) : Happening → Played σ
  | .taken => ⟨none, state, 1, []⟩
  | .warned warning => ⟨none, state, 0, [warning]⟩
  | .wrote event =>
    match writer event state with
    | (.ok (), after) => ⟨none, after, 0, []⟩
    | (.error error, after) => ⟨some error, after, 0, []⟩

/-- What a trace comes to with a writer. -/
def play (writer : Writer σ) : List Happening → σ → Played σ
  | [], state => ⟨none, state, 0, []⟩
  | step :: rest, state => (playOne writer state step).andThen (play writer rest)

/-- No warning is raised. -/
def Silent (trace : List Happening) : Prop :=
  ∀ warning, .warned warning ∉ trace

theorem silent_nil : Silent [] :=
  fun _ => List.not_mem_nil

theorem Silent.append {trace later : List Happening} (h : Silent trace) (hlater : Silent later) :
    Silent (trace ++ later) :=
  fun warning hmem => (List.mem_append.mp hmem).elim (h warning) (hlater warning)

theorem play_append (writer : Writer σ) (trace later : List Happening) (state : σ) :
    play writer (trace ++ later) state = (play writer trace state).andThen (play writer later) := by
  induction trace generalizing state with
  | nil => simp [play, Played.andThen]
  | cons step rest ih =>
    rw [List.cons_append, play, play, Played.andThen_assoc]
    exact congrArg _ (funext ih)

theorem play_warned (writer : Writer σ) (warnings : List Warning) (state : σ) :
    play writer (warnings.map .warned) state = ⟨none, state, 0, warnings⟩ := by
  induction warnings generalizing state with
  | nil => rfl
  | cons warning rest ih => simp [play, playOne, Played.andThen, ih]

theorem Silent.warnings_eq_nil {trace : List Happening} (h : Silent trace) (writer : Writer σ)
    (state : σ) : (play writer trace state).warnings = [] := by
  induction trace generalizing state with
  | nil => rfl
  | cons step rest ih =>
    have hrest : Silent rest := fun warning hmem => h warning (List.mem_cons_of_mem _ hmem)
    have hstep : (playOne writer state step).warnings = [] := by
      cases step with
      | taken => rfl
      | warned warning => exact absurd List.mem_cons_self (h warning)
      | wrote event =>
        unfold playOne
        dsimp only
        split <;> rfl
    rw [play, Played.andThen]
    split
    · exact hstep
    · simp [hstep, ih hrest]

end Happening

/-! ### Steps of a run -/

/-- The same state, with another writer. -/
def RunState.withWriter {σ τ : Type} (state : RunState σ) (writer : τ) : RunState τ :=
  { state with writer := writer }

@[simp] theorem RunState.output_withWriter {σ τ : Type} (state : RunState σ) (writer : τ) :
    (state.withWriter writer).output = state.output := rfl

@[simp] theorem RunState.inputRowNumber_withWriter {σ τ : Type} (state : RunState σ)
    (writer : τ) : (state.withWriter writer).inputRowNumber = state.inputRowNumber := rfl

namespace Job

@[simp] theorem scope_withWriter {σ τ : Type} (job : Job) (names : List String)
    (values : List Value) (state : RunState σ) (writer : τ) :
    job.scope names values (state.withWriter writer) = job.scope names values state := rfl

variable {α β : Type}

/-- Steps of a run, for every writer. -/
abbrev Writing (α : Type) := ∀ σ : Type, Writer σ → Running σ α

/-- Steps of a run, for every writer and every state that it is in. -/
abbrev WritingFrom (α : Type) := ∀ σ : Type, Writer σ → σ → Running σ α

/-- From a state the steps go as a trace tells, whatever the writer. They end with a result and
leave a state if no event is refused. -/
def Shows (steps : WritingFrom α) (state : RunState Unit) (trace : List Happening)
    (result : Except Error α) (after : RunState Unit) : Prop :=
  ∀ (σ : Type) (writer : Writer σ) (start : σ) (before : List Warning),
    ∃ last : RunState Unit,
      (steps σ writer start).outcome (state.withWriter start) before =
        (((Happening.play writer trace start).ending result,
          last.withWriter (Happening.play writer trace start).writer),
          (Happening.play writer trace start).warnings.reverse ++ before) ∧
      last.pulled = state.pulled + (Happening.play writer trace start).pulled ∧
      ((Happening.play writer trace start).refusal = none → last = after)

section Shows

variable {steps : WritingFrom α} {next : α → Writing β} {state middle after : RunState Unit}
  {trace later : List Happening}

theorem shows_pure (value : α) (state : RunState Unit) :
    Shows (fun _ _ _ => pure value) state [] (.ok value) state :=
  fun _ _ _ _ => ⟨state, rfl, rfl, fun _ => rfl⟩

theorem shows_throw (error : Error) (state : RunState Unit) :
    Shows (α := α) (fun _ _ _ => throw error) state [] (.error error) state :=
  fun _ _ _ _ => ⟨state, rfl, rfl, fun _ => rfl⟩

theorem Shows.bind_error {error : Error} (h : Shows steps state trace (.error error) after) :
    Shows (fun σ writer start => steps σ writer start >>= fun value => next value σ writer) state trace
      (.error error) after := by
  intro σ writer start before
  obtain ⟨last, houtcome, hpulled, hlast⟩ := h σ writer start before
  refine ⟨last, ?_, hpulled, hlast⟩
  rw [outcome_bind, houtcome]
  unfold Played.ending
  cases (Happening.play writer trace start).refusal <;> rfl

theorem Shows.bind {value : α} {result : Except Error β}
    (h : Shows steps state trace (.ok value) middle)
    (hnext : Shows (fun σ writer _ => next value σ writer) middle later result after) :
    Shows (fun σ writer start => steps σ writer start >>= fun value => next value σ writer) state
      (trace ++ later) result after := by
  intro σ writer start before
  obtain ⟨last, houtcome, hpulled, hlast⟩ := h σ writer start before
  simp only [Happening.play_append, Played.andThen]
  cases hrefusal : (Happening.play writer trace start).refusal with
  | some error =>
    refine ⟨last, ?_, hpulled, by simp [hrefusal]⟩
    rw [outcome_bind, houtcome]
    simp only [Played.ending, hrefusal]
  | none =>
    obtain rfl := hlast hrefusal
    obtain ⟨final, hfinal, hmore, hend⟩ := hnext σ writer
      (Happening.play writer trace start).writer
      ((Happening.play writer trace start).warnings.reverse ++ before)
    refine ⟨final, ?_, hmore.trans (by rw [hpulled, Nat.add_assoc]), hend⟩
    rw [outcome_bind, houtcome]
    simp only [Played.ending, hrefusal] at hfinal ⊢
    simp [hfinal]

end Shows

/-- Steps where warnings are reported and steps where they are errors. The second go as the trace of
the first tells, up to its first warning. There they fail: with that warning, given that something
holds. -/
def CutsAt (holds : Prop) (state : RunState Unit) (full cut : WritingFrom α) : Prop :=
  ∃ trace result after, Shows full state trace result after ∧
    (Happening.Silent trace ∧ Shows cut state trace result after ∨
      ∃ before first later error reached, trace = before ++ .warned first :: later ∧
        Happening.Silent before ∧ (holds → error = .warning first) ∧
        Shows cut state before (.error error) reached)

/-- Steps are cut short from every state. -/
def Cuts (holds : Prop) (full cut : Writing α) : Prop :=
  ∀ state, CutsAt holds state (fun σ writer _ => full σ writer) fun σ writer _ => cut σ writer

section Cuts

variable {holds : Prop}

theorem cuts_pure (value : α) : Cuts holds (fun _ _ => pure value) fun _ _ => pure value :=
  fun state => ⟨[], _, _, shows_pure value state, .inl ⟨Happening.silent_nil, shows_pure _ _⟩⟩

theorem cuts_throw (error : Error) :
    Cuts (α := α) holds (fun _ _ => throw error) fun _ _ => throw error :=
  fun state => ⟨[], _, _, shows_throw error state, .inl ⟨Happening.silent_nil, shows_throw _ _⟩⟩

theorem CutsAt.bind {full cut : WritingFrom α} {fullNext cutNext : α → Writing β}
    {state : RunState Unit} (hfirst : CutsAt holds state full cut)
    (hnext : ∀ value, Cuts holds (fullNext value) (cutNext value)) :
    CutsAt holds state
      (fun σ writer start => full σ writer start >>= fun value => fullNext value σ writer)
      fun σ writer start => cut σ writer start >>= fun value => cutNext value σ writer := by
  obtain ⟨trace, result, middle, hfull, hcut⟩ := hfirst
  cases result with
  | error error =>
    refine ⟨trace, .error error, middle, hfull.bind_error, ?_⟩
    rcases hcut with ⟨hsilent, hcut⟩ |
      ⟨before, first, later, caught, reached, htrace, hsilent, hcaught, hcut⟩
    · exact .inl ⟨hsilent, hcut.bind_error⟩
    · exact .inr ⟨before, first, later, caught, reached, htrace, hsilent, hcaught, hcut.bind_error⟩
  | ok value =>
    obtain ⟨more, result, after, hfullNext, hcutNext⟩ := hnext value middle
    refine ⟨trace ++ more, result, after, hfull.bind hfullNext, ?_⟩
    rcases hcut with ⟨hsilent, hcut⟩ |
      ⟨before, first, later, caught, reached, rfl, hsilent, hcaught, hcut⟩
    · rcases hcutNext with ⟨hmore, hcutNext⟩ |
        ⟨before, first, later, caught, reached, rfl, hmore, hcaught, hcutNext⟩
      · exact .inl ⟨hsilent.append hmore, hcut.bind hcutNext⟩
      · exact .inr ⟨trace ++ before, first, later, caught, reached, by simp, hsilent.append hmore,
          hcaught, hcut.bind hcutNext⟩
    · exact .inr ⟨before, first, later ++ more, caught, reached, by simp, hsilent, hcaught,
        hcut.bind_error⟩

theorem Cuts.bind {full cut : Writing α} {fullNext cutNext : α → Writing β}
    (hfirst : Cuts holds full cut) (hnext : ∀ value, Cuts holds (fullNext value) (cutNext value)) :
    Cuts holds (fun σ writer => full σ writer >>= fun value => fullNext value σ writer)
      fun σ writer => cut σ writer >>= fun value => cutNext value σ writer :=
  fun state => (hfirst state).bind hnext

/-- Reading the state. -/
theorem CutsAt.get {full cut : ∀ σ : Type, Writer σ → RunState σ → Running σ α}
    {state : RunState Unit}
    (h : CutsAt holds state (fun σ writer start => full σ writer (state.withWriter start))
      fun σ writer start => cut σ writer (state.withWriter start)) :
    CutsAt holds state (fun σ writer _ => MonadState.get >>= full σ writer)
      fun σ writer _ => MonadState.get >>= cut σ writer :=
  h

/-- Steps that only raise warnings. -/
theorem cutsAt_of_raised {full cut : WritingFrom α} {state after : RunState Unit}
    {result : Except Error α} {raised : List Warning} (hpulled : after.pulled = state.pulled)
    (hfull : ∀ σ writer (start : σ) before, (full σ writer start).outcome (state.withWriter start) before =
      ((result, after.withWriter start), raised.reverse ++ before))
    (hcut : match raised with
      | [] => ∀ σ writer (start : σ) before, (cut σ writer start).outcome (state.withWriter start) before =
          ((result, after.withWriter start), before)
      | first :: _ => ∃ error, ∃ reached : RunState Unit, reached.pulled = state.pulled ∧
          (holds → error = .warning first) ∧ ∀ σ writer (start : σ) before,
            (cut σ writer start).outcome (state.withWriter start) before =
              ((.error error, reached.withWriter start), before)) :
    CutsAt holds state full cut := by
  refine ⟨raised.map .warned, result, after, fun σ writer start before => ?_, ?_⟩
  · rw [Happening.play_warned]
    exact ⟨after, hfull σ writer start before, hpulled, fun _ => rfl⟩
  · cases raised with
    | nil =>
      exact .inl ⟨Happening.silent_nil, fun σ writer start before =>
        ⟨after, hcut σ writer start before, hpulled, fun _ => rfl⟩⟩
    | cons first rest =>
      obtain ⟨caught, reached, hreached, hcaught, hcut⟩ := hcut
      exact .inr ⟨[], first, rest.map .warned, caught, reached, rfl, Happening.silent_nil, hcaught,
        fun σ writer start before =>
          ⟨reached, hcut σ writer start before, hreached, fun _ => rfl⟩⟩

/-- A computation that reads no state. -/
theorem cuts_ofReporting {full cut : Reporting α} (h : Reporting.Cuts holds full cut) :
    Cuts holds (fun _ _ => ofReporting full) fun _ _ => ofReporting cut := by
  obtain ⟨result, raised, hfull, hcut⟩ := h
  intro state
  refine @cutsAt_of_raised _ _ _ _ state state result raised rfl
    (fun σ writer start before => by rw [outcome_ofReporting, hfull]) ?_
  cases raised with
  | nil => exact fun σ writer start before => by rw [outcome_ofReporting, hcut]
  | cons first rest =>
    obtain ⟨caught, hcaught, hcut⟩ := hcut
    exact ⟨caught, state, rfl, hcaught, fun σ writer start before => by
      rw [outcome_ofReporting, hcut]⟩

/-- An evaluation. -/
theorem cuts_evaluating {full cut : Evaluating α} (h : Stateful.Cuts full cut) :
    Cuts holds (fun _ _ => evaluating full) fun _ _ => evaluating cut := by
  have houtcome : ∀ (computation : Evaluating α) (state : RunState Unit) {σ : Type} (start : σ)
      (before : List Warning),
      (evaluating computation).outcome (state.withWriter start) before =
        (((computation.outcome state.aggregates before).1.1,
          RunState.withWriter
            { state with aggregates := (computation.outcome state.aggregates before).1.2 } start),
          (computation.outcome state.aggregates before).2) := fun _ _ _ _ _ => rfl
  intro state
  obtain ⟨result, after, raised, hfull, hcut⟩ := h state.aggregates
  refine @cutsAt_of_raised _ _ _ _ state { state with aggregates := after } result raised rfl
    (fun σ writer start before => by rw [houtcome, hfull]) ?_
  cases raised with
  | nil => exact fun σ writer start before => by rw [houtcome, hcut]
  | cons first rest =>
    obtain ⟨reached, hcut⟩ := hcut
    exact ⟨.warning first, { state with aggregates := reached }, rfl, fun _ => rfl,
      fun σ writer start before => by rw [houtcome, hcut]⟩

/-- A change of the state that the writer has no part in. -/
theorem cuts_modify {change : ∀ σ : Type, RunState σ → RunState σ}
    (hwriter : ∀ (state : RunState Unit) {σ : Type} (start : σ),
      change σ (state.withWriter start) = (change Unit state).withWriter start)
    (hpulled : ∀ state : RunState Unit, (change Unit state).pulled = state.pulled) :
    Cuts holds (fun σ _ => modify (change σ)) fun σ _ => modify (change σ) := by
  have houtcome : ∀ (state : RunState Unit) (σ : Type) (start : σ) (before : List Warning),
      (modify (change σ) : Running σ PUnit).outcome (state.withWriter start) before =
        ((.ok ⟨⟩, (change Unit state).withWriter start), before) := by
    intro state σ start before
    rw [← hwriter]
    rfl
  exact fun state => @cutsAt_of_raised _ _ _ _ state (change Unit state) (.ok ⟨⟩) [] (hpulled state)
    (fun σ _ start before => houtcome state σ start before)
    fun σ _ start before => houtcome state σ start before

/-- Putting a state in place of the one before, for the same writer. -/
theorem cutsAt_set {state after : RunState Unit} (hpulled : after.pulled = state.pulled) :
    CutsAt holds state (fun _ _ start => set (after.withWriter start))
      fun _ _ start => set (after.withWriter start) :=
  @cutsAt_of_raised _ _ _ _ state after (.ok ⟨⟩) [] hpulled (fun _ _ _ _ => rfl)
    fun _ _ _ _ => rfl

/-- Counting a record that is taken. -/
theorem cuts_counting : Cuts holds
    (fun σ _ => modify fun state : RunState σ => { state with pulled := state.pulled + 1 })
    fun σ _ => modify fun state : RunState σ => { state with pulled := state.pulled + 1 } := by
  intro state
  have hshows : Shows
      (fun σ _ _ => modify fun state : RunState σ => { state with pulled := state.pulled + 1 })
      state [.taken] (.ok ⟨⟩) { state with pulled := state.pulled + 1 } :=
    fun _ _ _ _ => ⟨{ state with pulled := state.pulled + 1 }, rfl, rfl, fun _ => rfl⟩
  exact ⟨_, _, _, hshows, .inl ⟨by simp [Happening.Silent], hshows⟩⟩

/-- Writing an event. -/
theorem cuts_write (event : Event) :
    Cuts holds (fun _ writer => write writer event) fun _ writer => write writer event := by
  intro state
  have hshows : Shows (fun _ writer _ => write writer event) state [.wrote event] (.ok ()) state := by
    intro σ writer start before
    have houtcome : (write writer event).outcome (state.withWriter start) before =
        (((writer event start).1, state.withWriter (writer event start).2), before) := by
      have hwriter : (state.withWriter start).writer = start := rfl
      rw [write, outcome_bind]
      change Stateful.outcome _ (state.withWriter start) before = _
      rw [hwriter]
      rcases writer event start with ⟨_ | _, after⟩ <;> rfl
    refine ⟨state, ?_, ?_, fun _ => rfl⟩
    all_goals
      rcases hevent : writer event start with ⟨_ | _, after⟩
      all_goals
        simp [Happening.play, Happening.playOne, Played.andThen, Played.ending, houtcome, hevent]
  exact ⟨_, _, _, hshows, .inl ⟨by simp [Happening.Silent], hshows⟩⟩

end Cuts

end Job

end StreamQuery
