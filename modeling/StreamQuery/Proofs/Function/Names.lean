import StreamQuery.Evaluation.Evaluator

/-!
# Names without a function

A name is that of a function if some call without null arguments gets as far as the function. A
plain call by any other name fails. A call into a module sees its null arguments before it looks at
names, and so it fails for certain only where it has none.
-/

namespace StreamQuery

/-- Whether no argument is null. -/
def NullFree (arguments : List Value) : Prop :=
  arguments.any Value.isNull = false

theorem nullFree_nil : NullFree [] := rfl

/-! ### Plain names -/

namespace Builtin

variable {name : String}

/-- The failure of a call by a name that no function has. -/
def undefined (name : String) : Error :=
  .eval (.undefinedName name)

/-- Whether a plain function has a name: some call without null arguments does not fail for it. -/
def IsFunction (name : String) : Prop :=
  ∃ arguments, NullFree arguments ∧ call name arguments ≠ .error (undefined name)

/-- No function says of its own name that it is undefined. -/
theorem apply_nil_ne_undefined (function : Builtin) (name : String) :
    function.apply [] ≠ .error (undefined name) := by
  cases function with
  | conversion function => cases function <;> rintro ⟨⟩
  | text function => cases function <;> rintro ⟨⟩
  | math function => cases function <;> rintro ⟨⟩
  | collection function => cases function <;> rintro ⟨⟩

theorem call_of_ofName?_eq_none (h : ofName? (Unicode.toLower name) = none)
    (arguments : List Value) : call name arguments = .error (undefined name) := by
  rw [call, h]
  rfl

/-- The names of functions are those that are found in lower case. -/
theorem isFunction_iff : IsFunction name ↔ (ofName? (Unicode.toLower name)).isSome := by
  constructor
  · rintro ⟨arguments, -, hcall⟩
    rw [Option.isSome_iff_ne_none]
    exact fun h => hcall (call_of_ofName?_eq_none h arguments)
  · intro h
    obtain ⟨function, hfunction⟩ := Option.isSome_iff_exists.mp h
    refine ⟨[], nullFree_nil, ?_⟩
    rw [call, hfunction]
    simpa using apply_nil_ne_undefined function name

/-- A name that no function has is reported whatever the arguments are. -/
theorem call_of_not_isFunction (h : ¬ IsFunction name) (arguments : List Value) :
    call name arguments = .error (undefined name) :=
  call_of_ofName?_eq_none (by simpa [isFunction_iff] using h) arguments

end Builtin

/-! ### Names in modules -/

namespace Module

variable {clock : Calendar.DateTime} {module name : String}

/-- The failure of a call by a name that no function of a module has. -/
def missing (module name : String) : Error :=
  match ofName? module with
  | none => .moduleNotFound module
  | some _ => .eval (.noAttribute module name)

/-- What a call by its names is carried out with. -/
def implementation? (clock : Calendar.DateTime) (module name : String) :
    Option (List Value → Except Error Value) :=
  (ofName? module).bind (·.function? clock (Unicode.toLower name))

/-- Whether a module has a function of a name: some call without null arguments does not fail for
one of the names. -/
def IsFunction (clock : Calendar.DateTime) (module name : String) : Prop :=
  ∃ arguments, NullFree arguments ∧ call clock module name arguments ≠ .error (missing module name)

/-- Null arguments that are not taken as they are come before the names. -/
theorem call_eq (clock : Calendar.DateTime) (module name : String) (arguments : List Value) :
    call clock module name arguments =
      if !takesNull module (Unicode.toLower name) && arguments.any Value.isNull then .ok .null
      else (implementation? clock module name).elim (.error (missing module name))
        (· arguments) := by
  rw [call, implementation?, missing]
  split
  · rfl
  · cases ofName? module with
    | none => rfl
    | some found =>
      cases hfunction : found.function? clock (Unicode.toLower name) <;> simp [hfunction]

/-- No function of a module says of its own names that they are missing. -/
theorem apply_nil_ne_missing {apply : List Value → Except Error Value}
    (h : implementation? clock module name = some apply) :
    apply [] ≠ .error (missing module name) := by
  obtain ⟨found, hfound, hfunction⟩ := Option.bind_eq_some_iff.mp h
  rw [missing, hfound]
  cases found with
  | math =>
    obtain ⟨function, -, rfl⟩ := Option.map_eq_some_iff.mp hfunction
    cases function <;> rintro ⟨⟩
  | patterns =>
    obtain ⟨function, -, rfl⟩ := Option.map_eq_some_iff.mp hfunction
    cases function <;> rintro ⟨⟩
  | json =>
    obtain ⟨function, -, rfl⟩ := Option.map_eq_some_iff.mp hfunction
    cases function <;> rintro ⟨⟩
  | datetime =>
    obtain ⟨function, -, rfl⟩ := Option.map_eq_some_iff.mp hfunction
    cases function <;> rintro ⟨⟩

/-- What takes null arguments as they are is a function. -/
theorem implementation?_of_takesNull (clock : Calendar.DateTime)
    (h : takesNull module (Unicode.toLower name) = true) :
    (implementation? clock module name).isSome := by
  rw [takesNull, Bool.and_eq_true, beq_iff_eq, beq_iff_eq] at h
  rw [implementation?, h.1, h.2]
  rfl

/-- The names of functions are those that are found. -/
theorem isFunction_iff :
    IsFunction clock module name ↔ (implementation? clock module name).isSome := by
  constructor
  · rintro ⟨arguments, hnull, hcall⟩
    rw [Option.isSome_iff_ne_none]
    intro h
    rw [call_eq, hnull, Bool.and_false, h] at hcall
    exact hcall rfl
  · intro h
    obtain ⟨apply, happly⟩ := Option.isSome_iff_exists.mp h
    refine ⟨[], nullFree_nil, ?_⟩
    rw [call_eq, happly]
    simpa using apply_nil_ne_missing happly

/-- A name that no function of a module has is reported, unless an argument is null. -/
theorem call_of_not_isFunction (h : ¬ IsFunction clock module name) (arguments : List Value) :
    call clock module name arguments =
      if arguments.any Value.isNull then .ok .null else .error (missing module name) := by
  have himplementation : implementation? clock module name = none := by
    simpa [isFunction_iff] using h
  have htakes : takesNull module (Unicode.toLower name) = false := by
    refine Bool.eq_false_iff.mpr fun htakes => ?_
    have hsome := implementation?_of_takesNull clock htakes
    rw [himplementation] at hsome
    cases hsome
  rw [call_eq, htakes, himplementation, Bool.not_false, Bool.true_and, Option.elim_none]

end Module

/-! ### Calls in expressions -/

namespace Scope

variable {σ : Type} {name : String}

/-- The failure of a plain call does not need the values of its arguments. -/
theorem callFunction_of_not_isFunction (hname : ¬ Builtin.IsFunction name)
    (haggregate : Aggregate.ofName? name = none) (handler : AggregateHandler σ) (scope : Scope)
    (call : Expr) (arguments : List Value) :
    scope.callFunction handler call name arguments =
      Stateful.ofResult (.error (Builtin.undefined name)) := by
  rw [callFunction, haggregate]
  dsimp only
  rw [Builtin.call_of_not_isFunction hname]
  rfl

theorem evaluateWith_call_of_not_isFunction (hname : ¬ Builtin.IsFunction name)
    (haggregate : Aggregate.ofName? name = none) (handler : AggregateHandler σ) (scope : Scope)
    (arguments : List Expr) :
    scope.evaluateWith handler (.call name arguments) = (do
      let _ ← scope.evaluateAll handler arguments
      Stateful.ofResult (.error (Builtin.undefined name))) := by
  rw [evaluateWith]
  exact congrArg _ (funext fun values =>
    callFunction_of_not_isFunction hname haggregate handler scope _ values)

theorem evaluateWith_method_of_not_isFunction (hname : ¬ Builtin.IsFunction name)
    (haggregate : Aggregate.ofName? name = none) (handler : AggregateHandler σ) {scope : Scope}
    {receiver : Expr} (hreceiver : scope.moduleOf? receiver = none) (arguments : List Expr) :
    scope.evaluateWith handler (.method receiver name arguments) = (do
      let _ ← scope.evaluateWith handler receiver
      let _ ← scope.evaluateAll handler arguments
      Stateful.ofResult (.error (Builtin.undefined name))) := by
  rw [evaluateWith, hreceiver]
  dsimp only
  exact congrArg _ (funext fun first => congrArg _ (funext fun values =>
    callFunction_of_not_isFunction hname haggregate handler scope _ (first :: values)))

end Scope

/-- A plain call by a name that no function has fails with any arguments, on the first row whose
arguments have values, and so does a call into a module that has no null argument. -/
theorem unknown_names_fail (name : String) :
    (¬ Builtin.IsFunction name →
      (∀ arguments, Builtin.call name arguments = .error (Builtin.undefined name)) ∧
      (Aggregate.ofName? name = none →
        ∀ {σ : Type} (handler : AggregateHandler σ) (scope : Scope) (arguments : List Expr),
          scope.evaluateWith handler (.call name arguments) = (do
            let _ ← scope.evaluateAll handler arguments
            Stateful.ofResult (.error (Builtin.undefined name))) ∧
          ∀ receiver, scope.moduleOf? receiver = none →
            scope.evaluateWith handler (.method receiver name arguments) = (do
              let _ ← scope.evaluateWith handler receiver
              let _ ← scope.evaluateAll handler arguments
              Stateful.ofResult (.error (Builtin.undefined name))))) ∧
    ∀ clock module, ¬ Module.IsFunction clock module name → ∀ arguments, NullFree arguments →
      Module.call clock module name arguments = .error (Module.missing module name) := by
  refine ⟨fun hname => ⟨Builtin.call_of_not_isFunction hname,
    fun haggregate _ handler scope arguments => ⟨?_, fun receiver hreceiver => ?_⟩⟩,
    fun clock module hmodule arguments hnull => ?_⟩
  · exact Scope.evaluateWith_call_of_not_isFunction hname haggregate handler scope arguments
  · exact Scope.evaluateWith_method_of_not_isFunction hname haggregate handler hreceiver arguments
  · rw [Module.call_of_not_isFunction hmodule, hnull]
    rfl

theorem Builtin.not_isFunction_nope : ¬ IsFunction "nope" := by
  have hnone : ofName? (Unicode.toLower "nope") = none := by
    decide +kernel
  rw [isFunction_iff, hnone]
  exact Bool.false_ne_true

theorem Module.not_isFunction_nope (clock : Calendar.DateTime) :
    ¬ IsFunction clock "re" "nope" := by
  have hlower : Unicode.toLower "nope" = "nope" := by
    decide +kernel
  rw [isFunction_iff, implementation?, hlower]
  exact Bool.false_ne_true

/-- A plain call by such a name fails where its argument is null, and a call into a module where
its argument is a number. -/
theorem unknown_names_fail_of_nope :
    Builtin.call "nope" [.null] = .error (Builtin.undefined "nope") ∧
      Module.call ⟨⟨1970, 1, 1⟩, 0, 0⟩ "re" "nope" [.ofInt 1] =
        .error (Module.missing "re" "nope") :=
  ⟨((unknown_names_fail "nope").1 Builtin.not_isFunction_nope).1 [.null],
    (unknown_names_fail "nope").2 _ "re" (Module.not_isFunction_nope _) [.ofInt 1] rfl⟩

/-- With a null argument a call into a module gives null, whether or not its function is there. -/
theorem unknown_name_unreported :
    ¬ ∀ clock module name, ¬ Module.IsFunction clock module name → ∀ arguments,
      ∃ error, Module.call clock module name arguments = .error error := by
  intro h
  obtain ⟨error, herror⟩ :=
    h ⟨⟨1970, 1, 1⟩, 0, 0⟩ "re" "nope" (Module.not_isFunction_nope _) [.null]
  rw [Module.call_of_not_isFunction (Module.not_isFunction_nope _)] at herror
  cases herror

end StreamQuery
