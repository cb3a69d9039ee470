import StreamQuery.Proofs.Query.Cutting

/-!
# Column numbers in `GROUP BY`

A number in `GROUP BY` stands for the expression of an item of `SELECT`: it counts the items, and a
star is one of them, whatever number of columns it means.
-/

namespace StreamQuery

/-- What is found for the elements of a list, in order. -/
theorem forall₂_of_mapM {ε α β : Type} {f : α → Except ε β} {items : List α} {values : List β}
    (h : items.mapM f = .ok values) :
    List.Forall₂ (fun item value => f item = .ok value) items values := by
  induction items generalizing values with
  | nil =>
    cases h
    exact .nil
  | cons item rest ih =>
    rw [List.mapM_cons] at h
    obtain ⟨first, hfirst, h⟩ := ok_of_bind h
    obtain ⟨later, hlater, h⟩ := ok_of_bind h
    cases h
    exact .cons hfirst (ih hlater)

theorem exists_of_forall₂_getElem? {α β : Type} {related : α → β → Prop} {items : List α}
    {values : List β} (h : List.Forall₂ related items values) {index : Nat} {item : α}
    (hitem : items[index]? = some item) :
    ∃ value, values[index]? = some value ∧ related item value := by
  obtain ⟨hlength, hget⟩ := List.forall₂_iff_get.mp h
  obtain ⟨hindex, rfl⟩ := List.getElem?_eq_some_iff.mp hitem
  exact ⟨values[index], List.getElem?_eq_getElem (hlength ▸ hindex),
    hget index hindex (hlength ▸ hindex)⟩

namespace Query

/-- The items of `SELECT` that the keys of a `GROUP BY` clause number, counted from zero. A key that
is no number gives none. -/
def numbersIn (text : List Char) : List (Option Nat) :=
  (Item.split text).map fun key => (Item.columnNumber? .groupBy key).toOption.join

/-- The items of `SELECT` that the keys in the `GROUP BY` clause of a query number. -/
def groupNumbers (text : String) : List (Option Nat) :=
  match LiteralTable.extract (Placeholder.fresh text.toList) text.toList with
  | .error _ => []
  | .ok (rewritten, _) =>
    match QueryStructure.ofText rewritten with
    | .error _ => []
    | .ok clauses => match clauses.nonEmpty? .groupBy with
      | some group => numbersIn group.toList
      | none => []

/-- The keys of a query are those of a `GROUP BY` clause with column numbers: a number stands for
the expression of the item that it counts. -/
structure Copies (query : Query) (numbers : List (Option Nat)) : Prop where
  length : query.groupBy.length = numbers.length
  copied : ∀ j index : Nat, numbers[j]? = some (some index) → ∃ name text,
    query.selection.items[index]? = some (.column name text) ∧ query.groupBy[j]? = some text

theorem copied_of_groupItem {items : List SelectItem} {key : List Char} {expression : String}
    {index : Nat} (h : groupItem items key = .ok expression)
    (hnumber : (Item.columnNumber? .groupBy key).toOption.join = some index) :
    ∃ name, items[index]? = some (.column name expression) := by
  unfold groupItem at h
  obtain ⟨number, hfound, h⟩ := ok_of_bind h
  rw [hfound] at hnumber
  obtain rfl : number = some index := hnumber
  dsimp only at h
  split at h
  case h_1 => cases h
  case h_2 => cases h
  case h_3 name expression hitem =>
    cases h
    exact ⟨name, hitem⟩

/-- The keys that a clause is read as. -/
theorem copies_of_parseGroupBy {query : Query} {text : List Char}
    (h : parseGroupBy query.selection.items text = .ok query.groupBy) :
    query.Copies (numbersIn text) := by
  unfold parseGroupBy at h
  obtain ⟨keys, hkeys, h⟩ := ok_of_bind h
  obtain ⟨_, -, h⟩ := ok_of_bind h
  obtain rfl : keys = query.groupBy := Except.ok.inj h
  have hitems := forall₂_of_mapM hkeys
  refine ⟨by rw [numbersIn, List.length_map, hitems.length_eq], fun j index hnumber => ?_⟩
  obtain ⟨key, hkey, hindex⟩ := Option.map_eq_some_iff.mp (List.getElem?_map ▸ hnumber)
  obtain ⟨expression, hexpression, hitem⟩ := exists_of_forall₂_getElem? hitems hkey
  obtain ⟨name, hname⟩ := copied_of_groupItem hitem hindex
  exact ⟨name, expression, hname, hexpression⟩

theorem eq_ok_of_mapError {ε ε' α : Type} {change : ε → ε'} {result : Except ε α} {value : α}
    (h : result.mapError change = .ok value) : result = .ok value := by
  cases result with
  | error error => cases h
  | ok found => exact congrArg Except.ok (Except.ok.inj h)

theorem yields_certain {α : Type} (result : Except Error α) :
    Reporting.Yields (fun value => result = .ok value) (certain result) := by
  rintro before value hvalue
  exact hvalue

/-- A query that is read from clauses has the keys of their `GROUP BY` clause, if there is one. -/
theorem yields_groupBy (policy : WarningPolicy) (defaultTarget : String) (rewritten : List Char)
    (literals : LiteralTable) (clauses : QueryStructure) :
    Reporting.Yields
      (fun query => ∀ text ∈ clauses.nonEmpty? .groupBy,
        parseGroupBy query.selection.items text.toList = .ok query.groupBy)
      (ofStructure policy defaultTarget rewritten literals clauses) := by
  simp only [ofStructure, pure_bind]
  generalize Selection.ofText literals ((clauses.nonEmpty? .select).getD "").toList = selection
  refine (Reporting.yields_true _).bind fun imports _ => ?_
  refine (Reporting.yields_true _).bind fun source _ => ?_
  refine (Reporting.yields_true _).bind fun condition _ => ?_
  refine (Reporting.yields_true _).bind fun orderBy _ => ?_
  split
  case h_1 text htext =>
    refine (yields_semantic fun groupBy hkeys => hkeys).bind fun groupBy hgroupBy =>
      yields_finish ?_ _ _
    intro other hother
    obtain rfl := Option.some.inj (htext.symm.trans hother)
    exact hgroupBy
  case h_2 hnone =>
    have hvoid : ∀ query : Query, ∀ text ∈ clauses.nonEmpty? .groupBy,
        parseGroupBy query.selection.items text.toList = .ok query.groupBy :=
      fun _ text htext => absurd htext (by rw [hnone]; simp)
    split
    · exact yields_finish (hvoid _) _ _
    · split
      · exact (Reporting.yields_true _).bind fun _ _ => yields_finish (hvoid _) _ _
      · exact yields_finish (hvoid _) _ _

/-- A number in the `GROUP BY` clause of a query that can be read stands for the expression of an
item of `SELECT`. -/
theorem copies_of_parse {policy : WarningPolicy} {defaultTarget text : String} {query : Query}
    (h : (parse policy defaultTarget text).Gives (.ok query)) (hnumbers : groupNumbers text ≠ []) :
    query.Copies (groupNumbers text) := by
  have hyields : Reporting.Yields (fun query => query.Copies (groupNumbers text))
      (parse policy defaultTarget text) := by
    refine (yields_certain _).bind fun (rewritten, literals) hextract => ?_
    refine (yields_certain _).bind fun clauses hclauses => ?_
    have hfound := eq_ok_of_mapError hextract
    have hstructure := eq_ok_of_mapError hclauses
    unfold groupNumbers at hnumbers ⊢
    rw [hfound] at hnumbers ⊢
    dsimp only at hnumbers ⊢
    rw [hstructure] at hnumbers ⊢
    dsimp only at hnumbers ⊢
    cases hgroup : clauses.nonEmpty? .groupBy with
    | none =>
      rw [hgroup] at hnumbers
      exact absurd rfl hnumbers
    | some group =>
      have hgroups := yields_groupBy policy defaultTarget rewritten literals clauses
      exact fun before found hread =>
        copies_of_parseGroupBy (hgroups before found hread group hgroup)
  obtain ⟨raised, h⟩ := h
  exact hyields [] query (congrArg Prod.fst (h []))

end Query

end StreamQuery
