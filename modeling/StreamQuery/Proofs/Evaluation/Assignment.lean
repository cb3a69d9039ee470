import Mathlib.Data.List.Basic
import StreamQuery.Evaluation.Assignment
import StreamQuery.Evaluation.Evaluator
import StreamQuery.Proofs.Computation
import StreamQuery.Proofs.Value.Entries
import StreamQuery.Proofs.Value.Subscripts

/-!
# Reading back what was assigned

Evaluating an expression that names a place looks up its keys one after the other, and assigning
overwrites the place under the same keys. So an expression reads what was assigned to it, unless
the assignment left the row a single object: `row` then means that object.
-/

namespace StreamQuery

open Stateful

namespace Value

/-- Whether a value is an object. -/
def isObject : Value → Bool
  | .object _ => true
  | _ => false

end Value

namespace Assignment

/-- The part of a value under keys, looked up one after the other. -/
def read : List Value → Value → Except Error Value
  | [], value => .ok value
  | key :: keys, value => value.item key >>= read keys

/-- What a path begins with on a row. -/
def Root.value (names : List String) (values : List Value) : Root → Value
  | .column index => (values[index]?).getD .null
  | .row => rowObject names values

/-- Whether a row is the object of its only column. -/
def collapses : List Value → Bool
  | [value] => value.isObject
  | _ => false

/-- Whether an expression names a place by way of `row`. -/
def EntersRow (target : Expr) : Prop :=
  ∃ keys, path? target = some (.row, keys)

/-- The name by which an expression that goes through `row` enters it. -/
def entryName? (target : Expr) : Option String :=
  match path? target with
  | some (.row, .str name :: _) => some name
  | _ => none

/-- The column that holds the place that an expression names. -/
def column? (target : Expr) (names : List String) (values : List Value) : Option Nat :=
  match path? target with
  | none => none
  | some (root, keys) => (place names values root keys).toOption.map (·.1)

/-! ### Values under keys -/

theorem read_append (keys : List Value) (key value : Value) :
    read (keys ++ [key]) value = read keys value >>= fun inner => inner.item key := by
  induction keys generalizing value with
  | nil =>
    change value.item key >>= read [] = value.item key
    cases value.item key <;> rfl
  | cons first rest ih =>
    change value.item first >>= read (rest ++ [key]) =
      (value.item first >>= read rest) >>= fun inner => inner.item key
    cases value.item first with
    | error error => rfl
    | ok inner => exact ih inner

theorem listIndex_eq_counted {length : Nat} {n : BoundedInt} (hsigned : InInt64 n.val) :
    listIndex length (.int n) = Value.counted length n.val :=
  if_pos hsigned

/-- An index inside a list is a signed integer. -/
theorem int_of_listIndex_lt {length : Nat} {key : Value}
    (h : listIndex length key < length) : ∃ n, key = .int n ∧ InInt64 n.val := by
  cases key with
  | int n =>
    by_cases hsigned : InInt64 n.val
    · exact ⟨n, rfl, hsigned⟩
    · simp [listIndex, hsigned] at h
  | _ => simp [listIndex] at h

/-- A part of a list stands at an index inside it. -/
theorem part_list {items : List Value} {key inner : Value} {put : Value → Value}
    (h : part (.list items) key = .ok (inner, put)) :
    ∃ n : BoundedInt, ∃ index < items.length, key = .int n ∧ InInt64 n.val ∧
      Value.counted items.length n.val = index ∧ inner = (items[index]?).getD .null ∧
      put = fun new => .list (items.set index new) := by
  simp only [part] at h
  split at h
  case h_1 => cases h
  case h_2 =>
    split at h
    case isFalse => cases h
    case isTrue hinside =>
      obtain ⟨n, rfl, hsigned⟩ := int_of_listIndex_lt hinside.2
      obtain ⟨rfl, rfl⟩ := Prod.mk.inj (Except.ok.inj h)
      refine ⟨n, _, by omega, rfl, hsigned, ?_, rfl, rfl⟩
      rw [← listIndex_eq_counted hsigned, Int.toNat_of_nonneg hinside.1]

/-- A part of an object stands under a name. -/
theorem part_object {entries : List (String × Value)} {key inner : Value} {put : Value → Value}
    (h : part (.object entries) key = .ok (inner, put)) :
    ∃ name, key = .str name ∧ inner = (lookup? name entries).getD .null ∧
      put = fun new => .object (insertEntry name new entries) := by
  cases key with
  | str name =>
    obtain ⟨rfl, rfl⟩ := Prod.mk.inj (Except.ok.inj h)
    exact ⟨name, rfl, rfl, rfl⟩
  | _ => cases h

/-- The part under a key is what looking up the key gives, also after putting another part
there. -/
theorem item_of_part {target key inner : Value} {put : Value → Value}
    (h : part target key = .ok (inner, put)) :
    target.item key = .ok inner ∧ ∀ new, (put new).item key = .ok new := by
  cases target with
  | object entries =>
    obtain ⟨name, rfl, rfl, rfl⟩ := part_object h
    exact ⟨rfl, fun new => by simp [Value.item_object, lookup?_insertEntry]⟩
  | list items =>
    obtain ⟨n, index, hindex, rfl, hsigned, hposition, rfl, rfl⟩ := part_list h
    have hkey : (Value.int n).asInt64? = some n.val := if_pos hsigned
    refine ⟨?_, fun new => ?_⟩
    · rw [Value.item_list hkey, Value.elementAt?_of_counted hposition]
    · rw [← List.length_set (i := index) (a := new)] at hposition
      rw [Value.item_list hkey, Value.elementAt?_of_counted hposition,
        List.getElem?_set_self hindex, Option.getD_some]
  | _ => cases h

/-- Putting a part into an object or a list leaves it one. -/
theorem isObject_of_part {target key inner : Value} {put : Value → Value}
    (h : part target key = .ok (inner, put)) (new : Value) :
    (put new).isObject = target.isObject := by
  cases target with
  | object entries =>
    obtain ⟨name, rfl, rfl, rfl⟩ := part_object h
    rfl
  | list items =>
    obtain ⟨n, index, -, -, -, -, -, rfl⟩ := part_list h
    rfl
  | _ => cases h

theorem overwrite_cons {new key target result : Value} {keys : List Value}
    (h : overwrite new (key :: keys) target = (none, result)) :
    ∃ inner put written, part target key = .ok (inner, put) ∧
      overwrite new keys inner = (none, written) ∧ result = put written := by
  simp only [overwrite] at h
  split at h
  case h_1 => cases (Prod.mk.inj h).1
  case h_2 inner put hpart =>
    obtain ⟨hnone, rfl⟩ := Prod.mk.inj h
    exact ⟨inner, put, (overwrite new keys inner).2, hpart, Prod.ext hnone rfl, rfl⟩

/-- What was overwritten is read back. -/
theorem read_overwrite {new target result : Value} {keys : List Value}
    (h : overwrite new keys target = (none, result)) : read keys result = .ok new := by
  induction keys generalizing target result with
  | nil =>
    obtain ⟨-, rfl⟩ := Prod.mk.inj h
    rfl
  | cons key keys ih =>
    obtain ⟨inner, put, written, hpart, hwritten, rfl⟩ := overwrite_cons h
    change (put written).item key >>= read keys = _
    rw [(item_of_part hpart).2 written]
    exact ih hwritten

/-- Overwriting inside a value leaves an object an object, and makes none. -/
theorem isObject_of_overwrite {new target result key : Value} {keys : List Value}
    (h : overwrite new (key :: keys) target = (none, result)) :
    result.isObject = target.isObject := by
  obtain ⟨inner, put, written, hpart, -, rfl⟩ := overwrite_cons h
  exact isObject_of_part hpart written

/-! ### Values of paths -/

/-- Whether a path begins with a field of `row` where that is the alias of a module: it then takes
a constant of the module. -/
def entersModule (session : Session) : Expr → Bool
  | .field (.variable name) _ => (session.module? name).isSome
  | .field base _ => entersModule session base
  | .item base _ => entersModule session base
  | _ => false

theorem gives_item {σ : Type} {base : Stateful σ Value} {value : Except Error Value} {state : σ}
    (hbase : base.Gives state value state) (key : Value) :
    (base >>= fun value => (.ofResult (value.item key) : Stateful σ Value)).Gives state
      (value >>= fun value => value.item key) state := by
  cases value with
  | error error => exact hbase.bind_error
  | ok value => exact hbase.bind (gives_ofResult _ state)

theorem key?_literal {index : Expr} {key : Value} (h : key? index = some key) :
    index = .literal key := by
  unfold key? at h
  split at h <;> cases h <;> rfl

/-- A path is evaluated by looking up its keys. -/
theorem gives_of_path {σ : Type} (handler : AggregateHandler σ) (scope : Scope) {target : Expr}
    {root : Root} {keys : List Value} (hpath : path? target = some (root, keys))
    (hmodule : entersModule scope.session target = false) (state : σ) :
    (scope.evaluateWith handler target).Gives state
      (read keys (root.value scope.names scope.values)) state := by
  fun_induction path? target generalizing root keys with
  | case1 index =>
    cases hpath
    exact gives_pure _ state
  | case2 =>
    cases hpath
    exact gives_ofResult _ state
  | case3 base name ih =>
    obtain ⟨⟨baseRoot, baseKeys⟩, hbase, heq⟩ := Option.map_eq_some_iff.mp hpath
    cases heq
    rw [read_append]
    have hplain : scope.moduleOf? base = none ∧ entersModule scope.session base = false := by
      cases base <;> first | exact ⟨rfl, hmodule⟩ | skip
      exact ⟨by simpa [entersModule, Scope.moduleOf?] using hmodule, rfl⟩
    simp only [Scope.evaluateWith, hplain.1]
    exact gives_item (ih hbase hplain.2) _
  | case4 base index key baseRoot baseKeys hbase hkey ih =>
    cases hpath
    obtain rfl := key?_literal hkey
    rw [read_append]
    exact gives_item (ih hbase hmodule) _
  | case5 => cases hpath
  | case6 => cases hpath

/-- Whether a value is null or a float: nothing has parts below it. -/
def IsScalar (value : Value) : Prop :=
  value.kind = .null ∨ value.kind = .float

theorem isScalar_ofFloat (x : Float) : IsScalar (.ofFloat x) := by
  unfold Value.ofFloat
  split
  · exact .inr rfl
  · exact .inl rfl

theorem isScalar_of_item {value key inner : Value} (hvalue : IsScalar value)
    (h : value.item key = .ok inner) : IsScalar inner := by
  cases value with
  | null =>
    cases h
    exact .inl rfl
  | float x =>
    cases key <;> cases h
    exact .inl rfl
  | _ => rcases hvalue with hkind | hkind <;> cases hkind

theorem isScalar_of_constant {module name : String} {value : Value}
    (h : Scope.constant module name = .ok value) : IsScalar value := by
  unfold Scope.constant at h
  split at h
  case h_2 => cases h
  case h_1 found hfound =>
    cases h
    obtain ⟨constants, hconstants, hlookup⟩ := Option.bind_eq_some_iff.mp hfound
    obtain ⟨module, -, rfl⟩ := Option.map_eq_some_iff.mp hconstants
    cases module with
    | math =>
      simp only [Module.constants, MathFunction.constants, lookup?] at hlookup
      split_ifs at hlookup <;> cases hlookup <;> exact isScalar_ofFloat _
    | _ => cases hlookup

/-- A path that begins with a constant of a module never gives a list. -/
theorem gives_of_entersModule {σ : Type} (handler : AggregateHandler σ) (scope : Scope)
    {target : Expr} {root : Root} {keys : List Value} (hpath : path? target = some (root, keys))
    (hmodule : entersModule scope.session target = true) :
    ∃ result : Except Error Value, (∀ value, result = .ok value → IsScalar value) ∧
      ∀ state, (scope.evaluateWith handler target).Gives state result state := by
  have step {base : Expr} (key : Value)
      (h : ∃ result : Except Error Value, (∀ value, result = .ok value → IsScalar value) ∧
        ∀ state, (scope.evaluateWith handler base).Gives state result state) :
      ∃ result : Except Error Value, (∀ value, result = .ok value → IsScalar value) ∧
        ∀ state, (scope.evaluateWith handler base >>= fun value =>
          (.ofResult (value.item key) : Stateful σ Value)).Gives state result state := by
    obtain ⟨result, hscalar, hgives⟩ := h
    refine ⟨_, fun value hvalue => ?_, fun state => gives_item (hgives state) key⟩
    cases result with
    | error error => cases hvalue
    | ok base => exact isScalar_of_item (hscalar base rfl) hvalue
  fun_induction path? target generalizing root keys with
  | case1 => cases hmodule
  | case2 => cases hmodule
  | case3 base name ih =>
    obtain ⟨⟨baseRoot, baseKeys⟩, hbase, -⟩ := Option.map_eq_some_iff.mp hpath
    cases hmoduleOf : scope.moduleOf? base with
    | some module =>
      simp only [Scope.evaluateWith, hmoduleOf]
      exact ⟨_, fun value => isScalar_of_constant, fun state => gives_ofResult _ state⟩
    | none =>
      simp only [Scope.evaluateWith, hmoduleOf]
      refine step _ (ih hbase ?_)
      cases base <;> first | exact hmodule | skip
      rw [entersModule, show scope.session.module? _ = none from hmoduleOf] at hmodule
      cases hmodule
  | case4 base index key baseRoot baseKeys hbase hkey ih =>
    obtain rfl := key?_literal hkey
    exact step _ (ih hbase hmodule)
  | case5 => cases hpath
  | case6 => cases hpath

/-- A path that gives a list begins in the row. -/
theorem entersModule_eq_false {σ : Type} {handler : AggregateHandler σ} {scope : Scope}
    {target : Expr} {root : Root} {keys items : List Value} {state after : σ}
    (hpath : path? target = some (root, keys))
    (hlist : (scope.evaluateWith handler target).Gives state (.ok (.list items)) after) :
    entersModule scope.session target = false := by
  by_contra hmodule
  obtain ⟨result, hscalar, hgives⟩ := gives_of_entersModule handler scope hpath
    (by simpa using hmodule)
  obtain ⟨rfl, -⟩ := hlist.unique (hgives state)
  rcases hscalar _ rfl with hkind | hkind <;> cases hkind

/-! ### Rows as objects -/

theorem eq_of_collapses {values : List Value} (h : collapses values = true) :
    ∃ entries, values = [.object entries] := by
  unfold collapses at h
  split at h
  case h_1 value =>
    cases value with
    | object entries => exact ⟨entries, rfl⟩
    | _ => cases h
  case h_2 => cases h

theorem rowObject_of_not_collapses {names : List String} {values : List Value}
    (h : collapses values = false) :
    rowObject names values = .object (insertEntries [] (names.zip values)) := by
  unfold rowObject
  split
  · cases h
  · rfl

/-- The only entry of a name among the columns. -/
theorem filter_zip_of_findIdx? {α : Type} {names : List String} {values : List α} {name : String}
    {index : Nat} {value : α} (hindex : names.findIdx? (· == name) = some index)
    (honce : (names.take values.length).count name ≤ 1) (hvalue : values[index]? = some value) :
    (names.zip values).filter (·.1 == name) = [(name, value)] := by
  induction names generalizing values index with
  | nil => cases hindex
  | cons first names ih =>
    cases values with
    | nil => cases hvalue
    | cons head values =>
      by_cases hfirst : first = name
      · subst hfirst
        have hzero : index = 0 := by simpa [List.findIdx?_cons] using hindex.symm
        subst hzero
        have hnone : first ∉ names.take values.length := by
          simpa [List.count_eq_zero] using honce
        have hrest : (names.zip values).filter (·.1 == first) = [] := by
          refine List.filter_eq_nil_iff.mpr fun entry hentry heq => hnone ?_
          rw [List.zip_eq_zip_take_min] at hentry
          have := (List.of_mem_zip hentry).1
          rw [beq_iff_eq.mp heq] at this
          exact (List.take_subset_take_left names (Nat.min_le_right _ _)) this
        obtain rfl : head = value := by simpa using hvalue
        simp [hrest]
      · obtain ⟨rest, hrest, rfl⟩ : ∃ rest, names.findIdx? (· == name) = some rest ∧
            rest + 1 = index := by
          simpa [List.findIdx?_cons, hfirst] using hindex
        simpa [hfirst] using ih hrest (by simpa [hfirst] using honce) (by simpa using hvalue)

/-- The row shows a column under a name that no other column has. -/
theorem item_rowObject {names : List String} (values : List Value) {name : String} {index : Nat}
    {value : Value} (hrow : collapses values = false)
    (hindex : names.findIdx? (· == name) = some index)
    (honce : (names.take values.length).count name ≤ 1) (hvalue : values[index]? = some value) :
    (rowObject names values).item (.str name) = .ok value := by
  rw [rowObject_of_not_collapses hrow]
  simp [Value.item_object, lookup?_insertEntries,
    filter_zip_of_findIdx? hindex honce hvalue]

/-! ### Assigned rows -/

theorem assign_cases {target : Expr} {names : List String} {values after : List Value}
    {new : Value} (h : assign target names values new = (none, after)) :
    ∃ root keys column rest value written, path? target = some (root, keys) ∧
      place names values root keys = .ok (column, rest) ∧ values[column]? = some value ∧
      overwrite new rest value = (none, written) ∧ after = values.set column written := by
  unfold assign at h
  split at h
  case h_1 => cases (Prod.mk.inj h).1
  case h_2 root keys hpath =>
    split at h
    case h_1 => cases (Prod.mk.inj h).1
    case h_2 column rest hplace =>
      split at h
      case h_1 => cases (Prod.mk.inj h).1
      case h_2 value hvalue =>
        obtain ⟨hnone, rfl⟩ := Prod.mk.inj h
        exact ⟨root, keys, column, rest, value, _, hpath, hplace, hvalue, Prod.ext hnone rfl,
          rfl⟩

/-- A path through `row` leads into the object of the only column, or names its column. -/
theorem place_row_cases {names : List String} {values keys rest : List Value} {column : Nat}
    (h : place names values .row keys = .ok (column, rest)) :
    (∃ entries, values = [.object entries] ∧ column = 0 ∧ rest = keys) ∨
      collapses values = false ∧ ∃ name, keys = .str name :: rest ∧
        names.findIdx? (· == name) = some column := by
  unfold place at h
  split at h
  case h_1 heq => cases heq
  case h_2 entries _ =>
    cases h
    exact .inl ⟨entries, rfl, rfl, rfl⟩
  case h_3 name keys _ hrow =>
    split at h
    case h_2 => cases h
    case h_1 index hindex =>
      cases h
      refine .inr ⟨?_, name, rfl, hindex⟩
      by_contra hcollapses
      obtain ⟨entries, hentries⟩ := eq_of_collapses (by simpa using hcollapses)
      exact hrow entries hentries
  case h_4 => cases h

/-- A row that is a single object stays one when something in the object is assigned, and what was
assigned is read back from it. -/
theorem read_row_of_object (names : List String) {entries : List (String × Value)}
    {rest items : List Value} {written new : Value}
    (hlist : read rest (.object entries) = .ok (.list items))
    (hwritten : overwrite new rest (.object entries) = (none, written)) :
    read rest (Root.value names ([.object entries].set 0 written) .row) = .ok new := by
  -- What was read is a list, not the row itself: there are keys.
  obtain ⟨key, keys, rfl⟩ : ∃ key keys, rest = key :: keys := by
    cases rest with
    | nil => cases hlist
    | cons key keys => exact ⟨key, keys, rfl⟩
  obtain ⟨entered, rfl⟩ : ∃ entered, written = .object entered := by
    have hobject := isObject_of_overwrite hwritten
    cases written <;> first | exact ⟨_, rfl⟩ | cases hobject
  exact read_overwrite hwritten

/-- What is assigned to a column by its name is read back, unless the row becomes an object. -/
theorem read_row_of_column {names : List String} {values rest : List Value} {name : String}
    {column : Nat} {value written new : Value}
    (hafter : collapses (values.set column written) = false)
    (hindex : names.findIdx? (· == name) = some column)
    (honce : (names.take values.length).count name ≤ 1) (hvalue : values[column]? = some value)
    (hwritten : overwrite new rest value = (none, written)) :
    read (.str name :: rest) (Root.value names (values.set column written) .row) = .ok new := by
  have hcolumn : (values.set column written)[column]? = some written :=
    List.getElem?_set_self (List.getElem?_eq_some_iff.mp hvalue).1
  have hitem := item_rowObject (values.set column written) hafter hindex
    (by simpa only [List.length_set] using honce) hcolumn
  change (rowObject _ _).item (.str name) >>= read rest = _
  rw [hitem]
  exact read_overwrite hwritten

/-- A row that an assignment by name turns into an object is the item itself. -/
theorem object_of_collapses {values : List Value} {value written new : Value} {column : Nat}
    {rest : List Value} (hbefore : collapses values = false)
    (hvalue : values[column]? = some value) (hwritten : overwrite new rest value = (none, written))
    (hafter : collapses (values.set column written) = true) :
    ∃ entries, new = .object entries ∧ rest = [] ∧
      values.set column written = [.object entries] := by
  obtain ⟨entries, hentries⟩ := eq_of_collapses hafter
  obtain ⟨only, rfl⟩ : ∃ only, values = [only] := by
    rw [← List.length_eq_one_iff, ← List.length_set (i := column) (a := written), hentries]
    rfl
  obtain rfl : column = 0 := by
    by_contra hcolumn
    simp [List.getElem?_eq_none, Nat.one_le_iff_ne_zero.mpr hcolumn] at hvalue
  obtain rfl : only = value := by simpa using hvalue
  obtain rfl : written = .object entries := by simpa using hentries
  cases rest with
  | nil =>
    cases hwritten
    exact ⟨entries, rfl, rfl, rfl⟩
  | cons key keys =>
    have hobject := isObject_of_overwrite hwritten
    rw [show only.isObject = false from hbefore] at hobject
    cases hobject

end Assignment

open Assignment

/-- When an item is assigned to a target that gives a list, all columns but the one of the target
stay as they are and the target then gives the item. The exception is a target that goes through
`row` when the item makes the row a single object: `row` is then the item, and the target gives
what the item has under the name of the column. A target that goes through `row` by a name has to
name one column only. -/
theorem explode_reads_back {scope : Scope} {target : Expr} {items values : List Value}
    {item : Value} {table after : Aggregates}
    (hlist : (scope.evaluate target).Gives table (.ok (.list items)) after)
    (honce : ∀ name, entryName? target = some name →
      (scope.names.take scope.values.length).count name ≤ 1)
    (hassign : assign target scope.names scope.values item = (none, values)) :
    (∃ column, column? target scope.names scope.values = some column ∧
      ∀ other, other ≠ column → values[other]? = scope.values[other]?) ∧
    (¬ (EntersRow target ∧ collapses scope.values = false ∧ collapses values = true) →
      ∀ table, ({ scope with values := values }.evaluate target).Gives table (.ok item) table) ∧
    (EntersRow target → collapses scope.values = false → collapses values = true →
      ∃ name entries, entryName? target = some name ∧ item = .object entries ∧
        values = [.object entries] ∧
        ∀ table, ({ scope with values := values }.evaluate target).Gives table
          (.ok ((lookup? name entries).getD .null)) table) := by
  obtain ⟨root, keys, column, rest, value, written, hpath, hplace, hvalue, hwritten, rfl⟩ :=
    assign_cases hassign
  have hmodule := entersModule_eq_false hpath hlist
  have hreads := gives_of_path (fun _ => Evaluating.ofAggregate)
    { scope with values := scope.values.set column written } hpath hmodule
  refine ⟨⟨column, by simp [column?, hpath, hplace, Except.toOption], fun other hother =>
    List.getElem?_set_ne (Ne.symm hother)⟩, ?_⟩
  cases root with
  | column index =>
    obtain ⟨rfl, rfl⟩ : index = column ∧ keys = rest := by simpa [place] using hplace
    refine ⟨fun _ table => ?_, fun ⟨otherKeys, hrow⟩ => ?_⟩
    · have hread : read keys (Root.value scope.names (scope.values.set index written)
          (.column index)) = .ok item := by
        rw [Root.value, List.getElem?_set_self (List.getElem?_eq_some_iff.mp hvalue).1]
        exact read_overwrite hwritten
      exact hread ▸ hreads table
    · rw [hpath] at hrow
      cases hrow
  | row =>
    rcases place_row_cases hplace with ⟨entries, hvalues, rfl, rfl⟩ | ⟨hplain, name, rfl, hindex⟩
    · -- The row was a single object before.
      obtain rfl : value = .object entries := by simpa [hvalues] using hvalue.symm
      have hbefore : read rest (.object entries) = .ok (.list items) := by
        have hgives := gives_of_path (fun _ => Evaluating.ofAggregate) scope hpath hmodule
          table
        rw [Root.value, hvalues] at hgives
        exact (hgives.unique hlist).1
      refine ⟨fun _ table => ?_, fun _ hcollapses => ?_⟩
      · have hread := read_row_of_object scope.names hbefore hwritten
        rw [← hvalues] at hread
        exact hread ▸ hreads table
      · rw [hvalues] at hcollapses
        cases hcollapses
    · -- The column was found by its name.
      have hentry : entryName? target = some name := by simp [entryName?, hpath]
      refine ⟨fun hexception table => ?_, fun _ _ hafter => ?_⟩
      · have hafter : collapses (scope.values.set column written) = false :=
          Bool.eq_false_iff.mpr fun h => hexception ⟨⟨_, hpath⟩, hplain, h⟩
        have hread := read_row_of_column hafter hindex (honce name hentry) hvalue hwritten
        exact hread ▸ hreads table
      · obtain ⟨entries, rfl, rfl, hvalues⟩ :=
          object_of_collapses hplain hvalue hwritten hafter
        refine ⟨name, entries, hentry, rfl, hvalues, fun table => ?_⟩
        have hread : read [.str name] (Root.value scope.names
            (scope.values.set column written) .row) =
              .ok ((lookup? name entries).getD .null) := by
          rw [Root.value, hvalues]
          rfl
        exact hread ▸ hreads table

/-- The second column of a row is read back by its name. -/
theorem explode_reads_back_second :
    let scope : Scope := { names := ["id", "list"], values := [.bool true, .list [.str "x", .null]] }
    let target : Expr := .field (.variable "row") "list"
    let values : List Value := [.bool true, .str "x"]
    ((scope.evaluate target).Gives {} (.ok (.list [.str "x", .null])) {} ∧
      (∀ name, entryName? target = some name →
        (scope.names.take scope.values.length).count name ≤ 1) ∧
      assign target scope.names scope.values (.str "x") = (none, values)) ∧
    (∃ column, column? target scope.names scope.values = some column ∧
      ∀ other, other ≠ column → values[other]? = scope.values[other]?) ∧
    ∀ table, ({ scope with values := values }.evaluate target).Gives table (.ok (.str "x"))
      table := by
  intro scope target values
  have hlist : (scope.evaluate target).Gives {} (.ok (.list [.str "x", .null])) {} :=
    ⟨[], fun _ => rfl⟩
  have honce : ∀ name, entryName? target = some name →
      (scope.names.take scope.values.length).count name ≤ 1 := by
    intro name hname
    obtain rfl : "list" = name := Option.some.inj hname
    decide
  have hassign : assign target scope.names scope.values (.str "x") = (none, values) := rfl
  obtain ⟨hother, hread, -⟩ := explode_reads_back hlist honce hassign
  exact ⟨⟨hlist, honce, hassign⟩, hother, hread fun h => nomatch h.2.2⟩

/-- A target is not always read back. The item of a list of objects makes a row of one column an
object, and the target looks for the name of the column in it; and of two columns of one name the
first is assigned to while the last is read. -/
theorem explode_not_read_back :
    let target : Expr := .field (.variable "row") "a"
    (let scope : Scope := { names := ["a"], values := [.list [.object [("k", .bool true)]]] }
      let item : Value := .object [("k", .bool true)]
      (scope.evaluate target).Gives {} (.ok (.list [item])) {} ∧
      assign target scope.names scope.values item = (none, [item]) ∧
      ∀ table, ({ scope with values := [item] }.evaluate target).Gives table (.ok .null) table) ∧
    (let scope : Scope := { names := ["a", "a"], values := [.null, .list [.str "x", .str "y"]] }
      let values : List Value := [.str "x", .list [.str "x", .str "y"]]
      (scope.evaluate target).Gives {} (.ok (.list [.str "x", .str "y"])) {} ∧
      assign target scope.names scope.values (.str "x") = (none, values) ∧
      ∀ table, ({ scope with values := values }.evaluate target).Gives table
        (.ok (.list [.str "x", .str "y"])) table) :=
  ⟨⟨⟨[], fun _ => rfl⟩, rfl, fun _ => ⟨[], fun _ => rfl⟩⟩,
    ⟨[], fun _ => rfl⟩, rfl, fun _ => ⟨[], fun _ => rfl⟩⟩

end StreamQuery
