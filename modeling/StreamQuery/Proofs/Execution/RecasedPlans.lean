import StreamQuery.Proofs.Execution.Compiling
import StreamQuery.Proofs.Expr.RenamedTexts
import StreamQuery.Proofs.Query.Nesting
import StreamQuery.Proofs.Query.RecasedQueries

/-!
# Preparing and compiling recased queries

Queries that are the same but for the spelling of what they call have expressions that are parsed
alike, and so compile to plans that are the same but for the case of functions.
-/

/-!
## Preparing recased expressions

Expressions that are the same but for the spelling of what they call are texts in which functions
are renamed, when their columns are bound and their literals are put back. So they are parsed alike.
-/

namespace StreamQuery

open Fragment

namespace Lexer.Renamed

theorem append_plain {plain text other : List Char}
    (hplain : ∀ c ∈ plain, Literal.isQuote c = false)
    (h : ∀ inWord, Renamed inWord text other) (inWord : Bool) :
    Renamed inWord (plain ++ text) (plain ++ other) := by
  induction plain generalizing inWord with
  | nil => exact h inWord
  | cons c plain ih =>
    obtain ⟨hc, hplain⟩ := List.forall_mem_cons.mp hplain
    exact .plain hc (ih hplain _)

end Lexer.Renamed

namespace LiteralTable

variable {table : LiteralTable} {before : Before} {fragments others : List Fragment}

/-- The literals of two texts are put back one after the other, if no word goes over from one to the
other. -/
theorem restoreFrom_append (quotes : Bool) {rest : List Char}
    (hrest : ∀ c ∈ rest.head?, isNameChar c = false) (text : List Char) :
    restoreFrom table quotes 0 (text ++ rest) =
      restoreFrom table quotes 0 text ++ restoreFrom table quotes 0 rest := by
  induction parts hrest text with
  | nil => rfl
  | @placeholder word tail hwhole _ ih =>
    rw [List.append_assoc, restoreFrom_whole quotes hwhole, restoreFrom_whole quotes hwhole, ih,
      List.append_assoc]
  | @plain c tail hplain _ ih =>
    have hfront : (Placeholder.lettersAt? (c :: tail)).isSome = false :=
      Bool.eq_false_iff.mpr fun hfound => by
        cases hplain.symm.trans (Placeholder.isSome_lettersAt?_append hfound rest)
    rw [List.cons_append] at hplain ⊢
    rw [restoreFrom_cons hplain, restoreFrom_cons hfront, ih, List.cons_append]

/-- A word with its literals put back stands in front of both texts. -/
theorem renamed_word (hproper : table.Proper) {word text other : List Char}
    (hword : word.all isNameChar = true) (h : ∀ inWord, Lexer.Renamed inWord text other)
    (inWord : Bool) : Lexer.Renamed inWord (restoreFrom table true 0 word ++ text)
      (restoreFrom table true 0 word ++ other) := by
  have hends : ∀ c ∈ ([] : List Char).head?, isNameChar c = false := fun _ hc => by cases hc
  induction parts hends word generalizing inWord with
  | nil => exact h inWord
  | @placeholder word tail hwhole _ ih =>
    rw [List.all_append, Bool.and_eq_true] at hword
    rw [restoreFrom_whole true hwhole, List.append_assoc, List.append_assoc, restored]
    cases hget : table.get? word with
    | none =>
      exact .append_plain (fun c hc => isQuote_of_isNameChar (List.all_eq_true.mp hword.1 c hc))
        (ih hword.2) inWord
    | some literal =>
      obtain ⟨hquote, hcontents⟩ := hproper _ (mem_of_get? hget)
      have hliteral : Lexer.Renamed inWord _ _ := .of_literal hquote hcontents (ih hword.2 false)
      simpa [Literal.quoted] using hliteral
  | @plain c tail hplain _ ih =>
    rw [List.all_cons, Bool.and_eq_true] at hword
    rw [List.append_nil] at hplain
    rw [restoreFrom_cons hplain]
    exact .plain (isQuote_of_isNameChar hword.1) (ih hword.2 _)

/-- The parenthesis of a call is no part of a literal. -/
theorem opensParenthesis_restoreFrom (h : opensCall fragments = true) :
    opensParenthesis (restoreFrom table true 0 (textOf fragments)) = true := by
  induction fragments with
  | nil => cases h
  | cons fragment rest ih =>
    rw [opensCall_fragment] at h
    split at h
    case isTrue hblank =>
      cases fragment with
      | word => cases hblank
      | quoted => cases hblank
      | sign c =>
        have hc : Unicode.isWhitespace c = true := hblank
        rw [textOf_cons, Fragment.text, List.singleton_append,
          restoreFrom_cons (lettersAt?_sign (ColumnBindings.isNameChar_of_isWhitespace hc) _),
          opensParenthesis_cons, if_pos hc]
        exact ih h
    case isFalse =>
      obtain rfl := eq_of_beq h
      have hname : isNameChar '(' = false := by decide
      rw [textOf_cons, Fragment.text, List.singleton_append,
        restoreFrom_cons (lettersAt?_sign hname _)]
      rfl

/-- The name of a function holds no placeholder. -/
theorem not_mentions_name (hwhole : ∀ entry ∈ table, Placeholder.isWhole entry.1 = true)
    {name spelling : List Char} (h : SameFunction name spelling) : ¬ table.Mentions name := by
  rintro ⟨entry, hentry, hwithin⟩
  obtain ⟨letters, -, -, hplaceholder⟩ := Placeholder.isWhole_iff.mp (hwhole entry hentry)
  refine h.plainName.single (List.IsInfix.trans ?_ hwithin)
  rw [hplaceholder]
  exact ⟨[], letters ++ ['_', '_'], rfl⟩

/-- A quoted name that holds no placeholder is restored as it is. -/
theorem restoreFrom_quoted {name : List Char} (hmentions : ¬ table.Mentions name)
    (text : List Char) :
    restoreFrom table true 0 ('\'' :: name ++ ['\''] ++ text) =
      '\'' :: name ++ '\'' :: restoreFrom table true 0 text := by
  have hquote : isNameChar '\'' = false := by decide
  have hsign : ∀ c ∈ ('\'' :: text).head?, isNameChar c = false := by
    rintro _ ⟨⟩
    exact hquote
  rw [List.append_assoc, List.cons_append, restoreFrom_cons (lettersAt?_sign hquote _),
    List.singleton_append, restoreFrom_not_mentions true hsign hmentions,
    restoreFrom_cons (lettersAt?_sign hquote _)]
  rfl

/-- The texts of fragments that are the same but for what they call, with the literals of a table:
functions are renamed in them. -/
theorem renamed_textOf (hwhole : ∀ entry ∈ table, Placeholder.isWhole entry.1 = true)
    (hproper : table.Proper) (h : SameCalls before fragments others)
    (htidy : Tidy table fragments) (inWord : Bool)
    (hhead : inWord = true → ∀ next ∈ fragments.head?, next.isSign = true) :
    Lexer.Renamed inWord (restoreFrom table true 0 (textOf fragments))
      (restoreFrom table true 0 (textOf others)) := by
  -- Behind a word both texts go on with a sign, so that no placeholder runs over its end.
  have hends : ∀ {fragment : Fragment} {rest other : List Fragment} {before : Before},
      fragment.isSign = false → Tidy table (fragment :: rest) → SameCalls before rest other →
      (∀ next ∈ rest.head?, next.isSign = true) ∧
        (∀ c ∈ (textOf rest).head?, isNameChar c = false) ∧
        ∀ c ∈ (textOf other).head?, isNameChar c = false := by
    intro fragment rest other before hfragment htidy hrest
    have hsign := htidy.sign_of_head? hfragment
    exact ⟨hsign, htidy.tail.isNameChar_head? hsign,
      (hrest.tidy htidy.tail).isNameChar_head? (hrest.isSign_head? hsign)⟩
  induction h generalizing inWord with
  | nil => exact .nil
  | @keep before fragment rest other hrest ih =>
    have hlater := ih htidy.tail
    rw [textOf_cons, textOf_cons]
    cases htidy.whole fragment List.mem_cons_self with
    | @sign c hname hquote =>
      rw [Fragment.text, List.singleton_append, List.singleton_append,
        restoreFrom_cons (lettersAt?_sign hname _), restoreFrom_cons (lettersAt?_sign hname _)]
      refine .plain hquote (hlater _ fun hpart => ?_)
      cases hname.symm.trans hpart
    | @word letters hne hletters =>
      obtain ⟨hsign, htext, hother⟩ := hends rfl htidy hrest
      rw [Fragment.text, restoreFrom_append true htext, restoreFrom_append true hother]
      exact renamed_word hproper hletters (fun _ => hlater _ fun _ => hsign) inWord
    | @quoted name hname hmentions =>
      rw [Fragment.text, restoreFrom_quoted hmentions, restoreFrom_quoted hmentions]
      exact .of_literal rfl (contents_of_all hname)
        (hlater false fun hfalse => by cases hfalse)
  | @called before name spelling rest other hbefore hname hopens hrest ih =>
    obtain ⟨hsign, htext, hother⟩ := hends rfl htidy hrest
    cases inWord with
    | true => cases hhead rfl _ rfl
    | false =>
      rw [textOf_cons, textOf_cons, Fragment.text, Fragment.text,
        restoreFrom_not_mentions true htext (not_mentions_name hwhole hname),
        restoreFrom_not_mentions true hother (not_mentions_name hwhole hname.symm)]
      exact .called hname (opensParenthesis_restoreFrom hopens)
        (ih htidy.tail true fun _ => hsign)

end LiteralTable

/-- Expressions of a query that are the same but for what they call are renamed texts when they are
ready to be compiled. -/
theorem ColumnBindings.renamed_prepare {table : LiteralTable}
    (hwhole : ∀ entry ∈ table, Placeholder.isWhole entry.1 = true) (hproper : table.Proper)
    {expression other : String} (hreadable : table.Readable expression)
    (h : SameExpression expression other) (bindings : ColumnBindings) :
    Lexer.Renamed false (bindings.prepare table expression).toList
      (bindings.prepare table other).toList := by
  obtain ⟨fragments, htext, htidy⟩ := hreadable
  obtain ⟨bound, hbound, hboundTidy⟩ := bindings.exists_bind hwhole htidy
  have hsame := (bindings.sameButCalls_bind h).sameCalls.1
  rw [htext, hbound, ofText_textOf hboundTidy] at hsame
  have hrenamed := LiteralTable.renamed_textOf hwhole hproper hsame hboundTidy false
    fun hfalse => by cases hfalse
  rw [textOf_ofText] at hrenamed
  rw [prepare, prepare, String.toList_ofList, String.toList_ofList, htext, hbound]
  exact hrenamed

end StreamQuery

/-!
## Plans of recased queries

Queries that are the same but for the spelling of what they call compile to plans whose expressions
are the same but for the case of functions, or neither compiles. Which calls the warnings name
does not matter, only whether there is one.
-/

namespace StreamQuery

/-! ### Outcomes, whatever is warned about -/

namespace Reporting

variable {α β γ κ : Type} {values : α → β → Prop} {results : γ → κ → Prop}

/-- Two computations end with results that are both values that are related, or both errors. -/
def SameOutcome (values : α → β → Prop) (computation : Reporting α) (other : Reporting β) : Prop :=
  ∃ result found, computation.Gives result ∧ other.Gives found ∧
    Alike (fun _ _ => True) values result found

theorem sameOutcome_pure {value : α} {other : β} (h : values value other) :
    SameOutcome values (pure value) (pure other) :=
  ⟨_, _, gives_pure value, gives_pure other, .ok h⟩

theorem sameOutcome_throw (error other : Error) :
    SameOutcome values (throw error) (throw other) :=
  ⟨_, _, gives_throw error, gives_throw other, .error trivial⟩

namespace SameOutcome

variable {computation : Reporting α} {other : Reporting β}

theorem bind {next : α → Reporting γ} {otherNext : β → Reporting κ}
    (h : SameOutcome values computation other)
    (hnext : ∀ value found, values value found →
      SameOutcome results (next value) (otherNext found)) :
    SameOutcome results (computation >>= next) (other >>= otherNext) := by
  obtain ⟨_, _, hgives, hother, halike⟩ := h
  cases halike with
  | ok hvalues =>
    obtain ⟨_, _, hresult, hfound, halike⟩ := hnext _ _ hvalues
    exact ⟨_, _, hgives.bind hresult, hother.bind hfound, halike⟩
  | error => exact ⟨_, _, hgives.bind_error, hother.bind_error, .error trivial⟩

theorem attempt (h : SameOutcome values computation other) :
    SameOutcome (Alike (fun _ _ => True) values) computation.attempt other.attempt := by
  obtain ⟨_, _, hgives, hother, halike⟩ := h
  exact ⟨_, _, hgives.attempt, hother.attempt, .ok halike⟩

theorem mono {others : α → β → Prop} (h : SameOutcome values computation other)
    (himp : ∀ value found, values value found → others value found) :
    SameOutcome others computation other := by
  obtain ⟨_, _, hgives, hother, halike⟩ := h
  refine ⟨_, _, hgives, hother, ?_⟩
  cases halike with
  | ok hvalues => exact .ok (himp _ _ hvalues)
  | error => exact .error trivial

end SameOutcome

/-- Warnings are errors for both lists or for none, if both are empty or none is. -/
theorem sameOutcome_raiseAll (policy : WarningPolicy) {warnings others : List Warning}
    (h : warnings = [] ↔ others = []) :
    SameOutcome Eq (raiseAll policy warnings) (raiseAll policy others) := by
  obtain ⟨result, hresult⟩ := settles_raiseAll policy warnings
  obtain ⟨found, hfound⟩ := settles_raiseAll policy others
  refine ⟨result, found, hresult, hfound, ?_⟩
  have hok : result = .ok () ↔ found = .ok () := by
    have hleft : (raiseAll policy warnings).Gives (.ok ()) ↔ result = .ok () :=
      ⟨hresult.unique, fun heq => heq ▸ hresult⟩
    have hright : (raiseAll policy others).Gives (.ok ()) ↔ found = .ok () :=
      ⟨hfound.unique, fun heq => heq ▸ hfound⟩
    rw [← hleft, ← hright, gives_raiseAll_iff, gives_raiseAll_iff, h]
  refine .of_ok (fun value hvalue => ⟨value, hok.mp hvalue, rfl⟩) fun value hvalue => ?_
  exact ⟨value, hok.mpr hvalue⟩

end Reporting

open Reporting

/-! ### Compiling -/

namespace Expr

variable (policy : WarningPolicy)

theorem SameCalls.conditionalAggregates_eq_nil_iff {expr other : Expr} (h : expr.SameCalls other) :
    expr.conditionalAggregates = [] ↔ other.conditionalAggregates = [] := by
  rw [← List.length_eq_zero_iff, ← List.length_eq_zero_iff, h.length_conditionalAggregates]

theorem warnings_eq_nil_iff_of_sameCalls {exprs others : List Expr}
    (h : List.Forall₂ SameCalls exprs others) : warnings exprs = [] ↔ warnings others = [] := by
  rw [warnings_eq_nil_iff, warnings_eq_nil_iff]
  induction h with
  | nil => rfl
  | cons hexpr _ ih =>
    rw [List.forall_mem_cons, List.forall_mem_cons, hexpr.conditionalAggregates_eq_nil_iff, ih]

theorem sameOutcome_raising {α β : Type} {values : α → β → Prop} {about : α → List Warning}
    {others : β → List Warning} {parsed : Except SyntaxFault α} {found : Except SyntaxFault β}
    (h : StreamQuery.Alike (fun _ _ => True) values parsed found)
    (hsilent : ∀ value other, values value other → (about value = [] ↔ others other = [])) :
    SameOutcome values (raising policy about parsed) (raising policy others found) := by
  cases h with
  | error => exact sameOutcome_throw _ _
  | ok hvalues =>
    exact (sameOutcome_raiseAll policy (hsilent _ _ hvalues)).bind fun _ _ _ =>
      sameOutcome_pure hvalues

theorem sameOutcome_compile {text other : String}
    (h : Lexer.Renamed false text.toList other.toList) :
    SameOutcome SameCalls (compile policy text) (compile policy other) := by
  rw [compile_eq, compile_eq]
  exact sameOutcome_raising policy (alike_parse_of_renamed h) fun _ _ hsame =>
    warnings_eq_nil_iff_of_sameCalls (.cons hsame .nil)

theorem sameOutcome_compileList {texts others : List String}
    (h : List.Forall₂ (fun text other => Lexer.Renamed false text.toList other.toList) texts
      others) :
    SameOutcome (List.Forall₂ SameCalls) (compileList policy (", ".intercalate texts))
      (compileList policy (", ".intercalate others)) := by
  rw [compileList_eq, compileList_eq]
  exact sameOutcome_raising policy (alike_parseList_of_renamed h) fun _ _ =>
    warnings_eq_nil_iff_of_sameCalls

end Expr

namespace Plan

variable (policy : WarningPolicy) (clause : Clause)

/-- Two texts of a clause at places in it, with functions renamed. -/
def RenamedItem (item other : Nat × String) : Prop :=
  Lexer.Renamed false item.2.toList other.2.toList

theorem sameOutcome_compileAt (location place : Location) {text other : String}
    (h : Lexer.Renamed false text.toList other.toList) :
    SameOutcome Expr.SameCalls (compileAt policy location text)
      (compileAt policy place other) := by
  refine (Expr.sameOutcome_compile policy h).attempt.bind fun result found halike => ?_
  cases halike with
  | ok hsame => exact sameOutcome_pure hsame
  | error => exact sameOutcome_throw _ _

theorem sameOutcome_compileEach {items others : List (Nat × String)}
    (h : List.Forall₂ RenamedItem items others) :
    SameOutcome (List.Forall₂ Expr.SameCalls) (compileEach policy clause items)
      (compileEach policy clause others) := by
  induction h with
  | nil => exact sameOutcome_pure .nil
  | cons hitem _ ih =>
    exact (sameOutcome_compileAt policy _ _ hitem).bind fun _ _ hfirst =>
      ih.bind fun _ _ hrest => sameOutcome_pure (.cons hfirst hrest)

theorem sameOutcome_compileList {items others : List (Nat × String)}
    (h : List.Forall₂ RenamedItem items others) :
    SameOutcome (List.Forall₂ Expr.SameCalls) (compileList policy clause items)
      (compileList policy clause others) := by
  have hlength := h.length_eq
  have hempty : items.isEmpty = others.isEmpty := by
    cases h <;> rfl
  have heach := sameOutcome_compileEach policy clause h
  have htexts : List.Forall₂ (fun text other => Lexer.Renamed false text.toList other.toList)
      (items.map (·.2)) (others.map (·.2)) :=
    List.forall₂_map_left_iff.mpr (List.forall₂_map_right_iff.mpr h)
  rw [compileList, compileList, hempty]
  split
  · exact sameOutcome_pure .nil
  · refine (Expr.sameOutcome_compileList policy htexts).attempt.bind fun result found halike => ?_
    cases halike with
    | error => exact heach.bind fun _ _ _ => sameOutcome_throw _ _
    | ok hsame =>
      dsimp only
      rw [hsame.length_eq, hlength]
      split
      · exact sameOutcome_pure hsame
      · exact heach

/-! ### Clauses -/

section Clause

variable {bindings : ColumnBindings} {table : LiteralTable}

/-- Two expressions whose functions are renamed when they are ready to be compiled. -/
def Prepared (bindings : ColumnBindings) (table : LiteralTable) (expression other : String) :
    Prop :=
  Lexer.Renamed false (bindings.prepare table expression).toList
    (bindings.prepare table other).toList

theorem renamedItems_numbered {texts others : List (Option String)}
    (h : List.Forall₂ (Option.Rel (Prepared bindings table)) texts others) (position : Nat) :
    List.Forall₂ RenamedItem
      ((numbered position texts).map fun (position, text) =>
        (position, bindings.prepare table text))
      ((numbered position others).map fun (position, text) =>
        (position, bindings.prepare table text)) := by
  induction h generalizing position with
  | nil => exact .nil
  | cons htext _ ih =>
    cases htext with
    | none => exact ih (position + 1)
    | some hprepared => exact .cons hprepared (ih (position + 1))

theorem sameOutcome_compileClause {texts others : List (Option String)}
    (h : List.Forall₂ (Option.Rel (Prepared bindings table)) texts others) :
    SameOutcome (List.Forall₂ Expr.SameCalls)
      (compileClause policy clause (bindings.prepare table) texts)
      (compileClause policy clause (bindings.prepare table) others) :=
  sameOutcome_compileList policy clause (renamedItems_numbered h 1)

theorem sameOutcome_compileOptional {text other : Option String}
    (h : Option.Rel (Prepared bindings table) text other) :
    SameOutcome (Option.Rel Expr.SameCalls)
      (compileOptional policy clause (bindings.prepare table) text)
      (compileOptional policy clause (bindings.prepare table) other) := by
  cases h with
  | none => exact sameOutcome_pure .none
  | some hprepared =>
    simp only [compileOptional, map_eq_pure_bind]
    exact (sameOutcome_compileAt policy _ _ hprepared).bind fun _ _ hsame =>
      sameOutcome_pure (.some hsame)

end Clause

end Plan

/-! ### Plans -/

/-- Two compiled items that are the same but for the case of functions. -/
inductive PlanItem.SameCalls : PlanItem → PlanItem → Prop
  | star : SameCalls .star .star
  | expression {expr other : Expr} : expr.SameCalls other →
      SameCalls (.expression expr) (.expression other)

/-- Two compiled keys that are the same but for the case of functions. -/
inductive PlanKey.SameCalls : PlanKey → PlanKey → Prop
  | outputColumn (index : Nat) : SameCalls (.outputColumn index) (.outputColumn index)
  | expression {expr other : Expr} : expr.SameCalls other →
      SameCalls (.expression expr) (.expression other)

/-- Two plans that are the same but for the case of functions. -/
structure Plan.SameCalls (plan other : Plan) : Prop where
  items : List.Forall₂ PlanItem.SameCalls plan.items other.items
  explode : Option.Rel Expr.SameCalls plan.explode other.explode
  condition : Option.Rel Expr.SameCalls plan.condition other.condition
  groupBy : List.Forall₂ Expr.SameCalls plan.groupBy other.groupBy
  orderBy : List.Forall₂ PlanKey.SameCalls plan.orderBy other.orderBy

/-- The expressions of a query can be compiled as they were written: the literals fit between their
quotes, and go where they came from. -/
structure Query.Ready (query : Query) : Prop where
  whole : ∀ entry ∈ query.literals, Placeholder.isWhole entry.1 = true
  proper : query.literals.Proper
  readable : ∀ expression ∈ query.expressions, query.literals.Readable expression

namespace Plan

theorem sameCalls_fillItems {table : LiteralTable} {items others : List SelectItem}
    {exprs otherExprs : List Expr} (h : List.Forall₂ (SelectItem.Recased table) items others)
    (hexprs : List.Forall₂ Expr.SameCalls exprs otherExprs) :
    List.Forall₂ PlanItem.SameCalls (fillItems items exprs) (fillItems others otherExprs) := by
  induction h generalizing exprs otherExprs with
  | nil => simpa only [fillItems] using List.Forall₂.nil
  | cons hitem _ ih =>
    cases hitem with
    | star => exact .cons .star (ih hexprs)
    | given | derived =>
      cases hexprs with
      | nil => simpa only [fillItems] using List.Forall₂.nil
      | cons hexpr hexprs => exact .cons (.expression hexpr) (ih hexprs)

theorem sameCalls_fillKeys {keys others : List OrderKey} {exprs otherExprs : List Expr}
    (h : List.Forall₂ OrderKey.Recased keys others)
    (hexprs : List.Forall₂ Expr.SameCalls exprs otherExprs) :
    List.Forall₂ PlanKey.SameCalls (fillKeys keys exprs) (fillKeys others otherExprs) := by
  induction h generalizing exprs otherExprs with
  | nil => exact .nil
  | @cons key other _ _ hkey _ ih =>
    obtain ⟨target, descending, nulls⟩ := key
    obtain ⟨otherTarget, otherDescending, otherNulls⟩ := other
    obtain ⟨htarget, -, -⟩ := hkey
    cases htarget with
    | outputColumn index => exact .cons (.outputColumn index) (ih hexprs)
    | expression =>
      cases hexprs with
      | nil => exact ih .nil
      | cons hexpr hexprs => exact .cons (.expression hexpr) (ih hexprs)

theorem rel_itemText? {table : LiteralTable} {item other : SelectItem}
    (h : SelectItem.Recased table item other) :
    Option.Rel SameExpression (itemText? item) (itemText? other) := by
  cases h with
  | star => exact .none
  | given _ hsame => exact .some hsame
  | derived hsame => exact .some hsame

theorem rel_keyText? {key other : OrderKey} (h : key.Recased other) :
    Option.Rel SameExpression (keyText? key) (keyText? other) := by
  obtain ⟨target, descending, nulls⟩ := key
  obtain ⟨otherTarget, otherDescending, otherNulls⟩ := other
  obtain ⟨htarget, -, -⟩ := h
  cases htarget with
  | outputColumn => exact .none
  | expression hsame => exact .some hsame

section Query

variable {query other : Query} (bindings : ColumnBindings)

/-- The texts of the items of a clause. -/
theorem prepared_texts {α : Type} {textOf? : α → Option String} {recased : α → α → Prop}
    {items others : List α} (hready : query.Ready)
    (h : List.Forall₂ recased items others)
    (htexts : ∀ item other, recased item other →
      Option.Rel SameExpression (textOf? item) (textOf? other))
    (hreadable : ∀ text ∈ items.filterMap textOf?, query.literals.Readable text) :
    List.Forall₂ (Option.Rel (Prepared bindings query.literals)) (items.map textOf?)
      (others.map textOf?) := by
  induction h with
  | nil => exact .nil
  | @cons item other rest others hitem _ ih =>
    have htext := htexts item other hitem
    rw [List.filterMap_cons] at hreadable
    rw [List.map_cons, List.map_cons]
    generalize textOf? item = text, textOf? other = otherText at htext hreadable
    cases htext with
    | none => exact .cons .none (ih hreadable)
    | some hsame =>
      obtain ⟨hfirst, hrest⟩ := List.forall_mem_cons.mp hreadable
      exact .cons (.some (ColumnBindings.renamed_prepare hready.whole hready.proper hfirst hsame
        bindings)) (ih hrest)

theorem prepared_optional {text other : Option String} (hready : query.Ready)
    (h : Option.Rel SameExpression text other)
    (hreadable : ∀ found ∈ text, query.literals.Readable found) :
    Option.Rel (Prepared bindings query.literals) text other := by
  cases h with
  | none => exact .none
  | some hsame =>
    exact .some (ColumnBindings.renamed_prepare hready.whole hready.proper (hreadable _ rfl) hsame
      bindings)

/-- Queries that are the same but for the spelling of what they call compile to plans that are the
same but for the case of functions, or neither compiles. -/
theorem sameOutcome_ofQuery (policy : WarningPolicy) (h : query.Recased other)
    (hready : query.Ready) :
    SameOutcome SameCalls (ofQuery policy query bindings) (ofQuery policy other bindings) := by
  have hreadable := hready.readable
  simp only [Query.expressions, List.mem_append, or_imp, forall_and] at hreadable
  obtain ⟨⟨⟨⟨⟨⟨hitems, hexplode⟩, hcondition⟩, hgroupBy⟩, horderBy⟩, -⟩, -⟩ := hreadable
  have hitemTexts := prepared_texts bindings hready h.items (fun _ _ => rel_itemText?) hitems
  have hgroupTexts := prepared_texts bindings hready h.groupBy (fun _ _ => .some)
    (by rwa [List.filterMap_some])
  have horderTexts := prepared_texts bindings hready h.orderBy (fun _ _ => rel_keyText?) horderBy
  have hexplodeText := prepared_optional bindings hready h.explode (by simpa using hexplode)
  have hconditionText := prepared_optional bindings hready h.condition (by simpa using hcondition)
  rw [ofQuery, ofQuery, ← h.literals]
  refine (sameOutcome_compileClause policy .select hitemTexts).bind fun _ _ hitems =>
    (sameOutcome_compileOptional policy .explode hexplodeText).bind fun _ _ hexplode =>
    (sameOutcome_compileOptional policy .condition hconditionText).bind fun _ _ hcondition =>
    (sameOutcome_compileClause policy .groupBy hgroupTexts).bind fun _ _ hgroupBy =>
    (sameOutcome_compileClause policy .orderBy horderTexts).bind fun _ _ horderBy =>
    sameOutcome_pure ⟨sameCalls_fillItems h.items hitems, hexplode, hcondition, hgroupBy,
      sameCalls_fillKeys h.orderBy horderBy⟩

end Query

end Plan

end StreamQuery
