import StreamQuery.Proofs.Computation

/-!
# Two runs side by side

Two results agree if both are values that are related, or both are errors that are. Two
computations agree if their results do and they raise the same warnings; composing computations
that agree gives computations that agree.
-/

namespace StreamQuery

variable {ε δ α β γ κ : Type}

/-- Two results are both values that are related, or both errors that are related. -/
inductive Alike (errors : ε → δ → Prop) (values : α → β → Prop) : Except ε α → Except δ β → Prop
  | ok {value : α} {other : β} : values value other → Alike errors values (.ok value) (.ok other)
  | error {error : ε} {other : δ} : errors error other →
      Alike errors values (.error error) (.error other)

namespace Alike

variable {errors : ε → δ → Prop} {values : α → β → Prop} {results : γ → κ → Prop}

theorem refl {errors : ε → ε → Prop} (herrors : ∀ error, errors error error)
    (result : Except ε α) : Alike errors Eq result result := by
  cases result with
  | ok value => exact .ok rfl
  | error error => exact .error (herrors error)

/-- Results agree if the second one is a related value whenever the first one is a value, and the
other way round. -/
theorem of_ok {result : Except ε α} {other : Except δ β}
    (h : ∀ value, result = .ok value → ∃ found, other = .ok found ∧ values value found)
    (hother : ∀ found, other = .ok found → ∃ value, result = .ok value) :
    Alike (fun _ _ => True) values result other := by
  cases result with
  | ok value =>
    obtain ⟨found, rfl, hvalues⟩ := h value rfl
    exact .ok hvalues
  | error error =>
    cases other with
    | ok found =>
      obtain ⟨_, hvalue⟩ := hother found rfl
      cases hvalue
    | error => exact .error trivial

theorem bind {result : Except ε α} {other : Except δ β} {next : α → Except ε γ}
    {otherNext : β → Except δ κ} (h : Alike errors values result other)
    (hnext : ∀ value other, values value other → Alike errors results (next value)
      (otherNext other)) :
    Alike errors results (result >>= next) (other >>= otherNext) := by
  cases h with
  | ok h => exact hnext _ _ h
  | error h => exact .error h

theorem map {result : Except ε α} {other : Except δ β} {f : α → γ} {g : β → κ}
    (h : Alike errors values result other) (hmap : ∀ a b, values a b → results (f a) (g b)) :
    Alike errors results (result.map f) (other.map g) := by
  cases h with
  | ok h => exact .ok (hmap _ _ h)
  | error h => exact .error h

end Alike

namespace Reporting

/-- Two computations raise the same warnings and have results that agree. -/
def Agree (errors : Error → Error → Prop) (values : α → β → Prop) (computation : Reporting α)
    (other : Reporting β) : Prop :=
  ∀ before, Alike errors values (computation.run.run before).1 (other.run.run before).1 ∧
    (computation.run.run before).2 = (other.run.run before).2

variable {errors : Error → Error → Prop} {values : α → β → Prop} {results : γ → κ → Prop}

theorem Agree.refl (herrors : ∀ error, errors error error) (computation : Reporting α) :
    Agree errors Eq computation computation :=
  fun _ => ⟨.refl herrors _, rfl⟩

theorem agree_pure {value : α} {other : β} (h : values value other) :
    Agree errors values (pure value) (pure other) :=
  fun _ => ⟨.ok h, rfl⟩

theorem agree_throw {error other : Error} (h : errors error other) :
    Agree errors values (throw error) (throw other) :=
  fun _ => ⟨.error h, rfl⟩

theorem Agree.bind {computation : Reporting α} {other : Reporting β} {next : α → Reporting γ}
    {otherNext : β → Reporting κ} (h : Agree errors values computation other)
    (hnext : ∀ value other, values value other → Agree errors results (next value)
      (otherNext other)) :
    Agree errors results (computation >>= next) (other >>= otherNext) := by
  intro before
  obtain ⟨hresult, hafter⟩ := h before
  rw [run_bind, run_bind]
  revert hresult hafter
  rcases computation.run.run before with ⟨result, after⟩
  rcases other.run.run before with ⟨otherResult, otherAfter⟩
  rintro hresult ⟨⟩
  cases hresult with
  | ok hvalue => exact hnext _ _ hvalue after
  | error herror => exact ⟨.error herror, rfl⟩

/-- Related values may be known to have a property of the values of the first computation. -/
theorem Agree.mono_of_yields {others : α → β → Prop} {property : α → Prop}
    {computation : Reporting α} {other : Reporting β} (h : Agree errors values computation other)
    (hproperty : Yields property computation)
    (himp : ∀ value other, values value other → property value → others value other) :
    Agree errors others computation other := by
  intro before
  obtain ⟨hresult, hafter⟩ := h before
  have hvalue := hproperty before
  refine ⟨?_, hafter⟩
  revert hresult hvalue
  generalize (computation.run.run before).1 = result
  generalize (other.run.run before).1 = otherResult
  intro hresult hvalue
  cases hresult with
  | ok hvalues => exact .ok (himp _ _ hvalues (hvalue _ rfl))
  | error herror => exact .error herror

/-- Computations agree that begin in the same way and agree from there on. -/
theorem agree_bind_same {computation : Reporting α} {next : α → Reporting γ}
    {otherNext : α → Reporting κ} (hnext : ∀ value, Agree Eq results (next value)
      (otherNext value)) : Agree Eq results (computation >>= next) (computation >>= otherNext) :=
  (Agree.refl (fun _ => rfl) computation).bind fun value _ h => h ▸ hnext value

end Reporting

end StreamQuery
