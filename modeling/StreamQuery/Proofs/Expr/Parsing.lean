import StreamQuery.Evaluation.Evaluator
import StreamQuery.Proofs.Expr.Carrying
import StreamQuery.Proofs.Expr.Lexing

/-!
# Parsing tokens that are alike

The parser never looks into a string. Tokens that are the same except for their strings make up the
same phrases, and the expressions that it finds are the same except for the constants and the keys
that come from the strings.
-/

namespace StreamQuery

/-! ### Expressions that are alike -/

namespace Expr

mutual

/-- Two expressions are the same, except for constants and constant keys that are related. -/
inductive Alike (strings : String → String → Prop) : Expr → Expr → Prop
  | literal (value : Value) : Alike strings (.literal value) (.literal value)
  | string {text other : String} : strings text other →
      Alike strings (.literal (.str text)) (.literal (.str other))
  | name (name : String) : Alike strings (.variable name) (.variable name)
  | column (index : Nat) : Alike strings (.column index) (.column index)
  | field {base other : Expr} (name : String) : Alike strings base other →
      Alike strings (.field base name) (.field other name)
  | key {base other : Expr} {name otherName : String} : Alike strings base other →
      strings name otherName → Alike strings (.field base name) (.field other otherName)
  | item {base other index otherIndex : Expr} : Alike strings base other →
      Alike strings index otherIndex → Alike strings (.item base index) (.item other otherIndex)
  | slice {base other : Expr} {start otherStart stop otherStop : Option Expr} :
      Alike strings base other → AlikeOption strings start otherStart →
      AlikeOption strings stop otherStop →
      Alike strings (.slice base start stop) (.slice other otherStart otherStop)
  | binary {left otherLeft right otherRight : Expr} (op : BinaryOp) :
      Alike strings left otherLeft → Alike strings right otherRight →
      Alike strings (.binary left op right) (.binary otherLeft op otherRight)
  | unary {operand other : Expr} (op : UnaryOp) : Alike strings operand other →
      Alike strings (.unary op operand) (.unary op other)
  | isNull {operand other : Expr} (negated : Bool) : Alike strings operand other →
      Alike strings (.isNull operand negated) (.isNull other negated)
  | object {entries others : List (Expr × Expr)} : AlikePairs strings entries others →
      Alike strings (.object entries) (.object others)
  | list {items others : List Expr} : AlikeList strings items others →
      Alike strings (.list items) (.list others)
  | call {arguments others : List Expr} (name : String) : AlikeList strings arguments others →
      Alike strings (.call name arguments) (.call name others)
  | method {receiver other : Expr} {arguments others : List Expr} (name : String) :
      Alike strings receiver other → AlikeList strings arguments others →
      Alike strings (.method receiver name arguments) (.method other name others)
  | ternary {condition otherCondition whenTrue otherTrue whenFalse otherFalse : Expr} :
      Alike strings condition otherCondition → Alike strings whenTrue otherTrue →
      Alike strings whenFalse otherFalse →
      Alike strings (.ternary condition whenTrue whenFalse)
        (.ternary otherCondition otherTrue otherFalse)
  | cases {operand otherOperand : Option Expr} {branches others : List (Expr × Expr)}
      {otherwise otherDefault : Option Expr} : AlikeOption strings operand otherOperand →
      AlikePairs strings branches others → AlikeOption strings otherwise otherDefault →
      Alike strings (.case operand branches otherwise) (.case otherOperand others otherDefault)

/-- Two expressions that may be absent are alike, or both are absent. -/
inductive AlikeOption (strings : String → String → Prop) : Option Expr → Option Expr → Prop
  | none : AlikeOption strings none none
  | some {expr other : Expr} : Alike strings expr other →
      AlikeOption strings (some expr) (some other)

/-- The expressions of two lists are alike, one by one. -/
inductive AlikeList (strings : String → String → Prop) : List Expr → List Expr → Prop
  | nil : AlikeList strings [] []
  | cons {expr other : Expr} {rest others : List Expr} : Alike strings expr other →
      AlikeList strings rest others → AlikeList strings (expr :: rest) (other :: others)

/-- The pairs of expressions of two lists are alike, one by one. -/
inductive AlikePairs (strings : String → String → Prop) :
    List (Expr × Expr) → List (Expr × Expr) → Prop
  | nil : AlikePairs strings [] []
  | cons {first otherFirst second otherSecond : Expr} {rest others : List (Expr × Expr)} :
      Alike strings first otherFirst → Alike strings second otherSecond →
      AlikePairs strings rest others →
      AlikePairs strings ((first, second) :: rest) ((otherFirst, otherSecond) :: others)

end

variable {strings : String → String → Prop}

theorem AlikeOption.of_rel {expr other : Option Expr} (h : Option.Rel (Alike strings) expr other) :
    AlikeOption strings expr other := by
  cases h with
  | none => exact .none
  | some h => exact .some h

theorem AlikeList.of_forall₂ {exprs others : List Expr}
    (h : List.Forall₂ (Alike strings) exprs others) : AlikeList strings exprs others := by
  induction h with
  | nil => exact .nil
  | cons h _ ih => exact .cons h ih

theorem AlikePairs.of_forall₂ {pairs others : List (Expr × Expr)}
    (h : List.Forall₂ (RelatedPair (Alike strings)) pairs others) :
    AlikePairs strings pairs others := by
  induction h with
  | nil => exact .nil
  | cons h _ ih => exact .cons h.1 h.2 ih

mutual

/-- The sub-expressions of expressions that are alike are alike, one by one. -/
theorem Alike.subexpressions {expr other : Expr} (h : Alike strings expr other) :
    List.Forall₂ (Alike strings) expr.subexpressions other.subexpressions := by
  cases h with
  | literal value => exact .cons (.literal value) .nil
  | string h => exact .cons (.string h) .nil
  | name name => exact .cons (.name name) .nil
  | column index => exact .cons (.column index) .nil
  | field name h => exact .cons (.field name h) h.subexpressions
  | key h hname => exact .cons (.key h hname) h.subexpressions
  | item h hindex =>
    exact .cons (.item h hindex) (List.rel_append h.subexpressions hindex.subexpressions)
  | slice h hstart hstop =>
    have hparts := List.rel_append h.subexpressions hstart.subexpressions
    exact .cons (.slice h hstart hstop) (List.rel_append hparts hstop.subexpressions)
  | binary op h hright =>
    exact .cons (.binary op h hright) (List.rel_append h.subexpressions hright.subexpressions)
  | unary op h => exact .cons (.unary op h) h.subexpressions
  | isNull negated h => exact .cons (.isNull negated h) h.subexpressions
  | object h => exact .cons (.object h) h.subexpressions
  | list h => exact .cons (.list h) h.subexpressions
  | call name h => exact .cons (.call name h) h.subexpressions
  | method name h harguments =>
    exact .cons (.method name h harguments)
      (List.rel_append h.subexpressions harguments.subexpressions)
  | ternary h htrue hfalse =>
    have hparts := List.rel_append h.subexpressions htrue.subexpressions
    exact .cons (.ternary h htrue hfalse) (List.rel_append hparts hfalse.subexpressions)
  | cases h hbranches hdefault =>
    have hparts := List.rel_append h.subexpressions hbranches.subexpressions
    exact .cons (.cases h hbranches hdefault) (List.rel_append hparts hdefault.subexpressions)

theorem AlikeOption.subexpressions {expr other : Option Expr} (h : AlikeOption strings expr other) :
    List.Forall₂ (Alike strings) (optionSubexpressions expr) (optionSubexpressions other) := by
  cases h with
  | none => exact .nil
  | some h => exact h.subexpressions

theorem AlikeList.subexpressions {exprs others : List Expr} (h : AlikeList strings exprs others) :
    List.Forall₂ (Alike strings) (listSubexpressions exprs) (listSubexpressions others) := by
  cases h with
  | nil => exact .nil
  | cons h hrest => exact List.rel_append h.subexpressions hrest.subexpressions

theorem AlikePairs.subexpressions {pairs others : List (Expr × Expr)}
    (h : AlikePairs strings pairs others) :
    List.Forall₂ (Alike strings) (pairSubexpressions pairs) (pairSubexpressions others) := by
  cases h with
  | nil => exact .nil
  | cons h hsecond hrest =>
    have hparts := List.rel_append h.subexpressions hsecond.subexpressions
    exact List.rel_append hparts hrest.subexpressions

end

theorem AlikePairs.laterBranches {pairs others : List (Expr × Expr)}
    (h : AlikePairs strings pairs others) :
    List.Forall₂ (Alike strings) (laterBranches pairs) (laterBranches others) := by
  cases h with
  | nil => exact .nil
  | cons h hsecond hrest => exact .cons h (.cons hsecond hrest.laterBranches)

theorem Alike.ownBranches {expr other : Expr} (h : Alike strings expr other) :
    List.Forall₂ (Alike strings) expr.ownBranches other.ownBranches := by
  cases h with
  | binary op h hright => cases op <;> first | exact .nil | exact .cons hright .nil
  | ternary h htrue hfalse => exact .cons htrue (.cons hfalse .nil)
  | cases h hbranches hdefault =>
    refine List.rel_append (List.forall₂_drop 1 hbranches.laterBranches) ?_
    cases hdefault with
    | none => exact .nil
    | some h => exact .cons h .nil
  | _ => exact .nil

theorem Alike.ownCall? {expr other : Expr} (h : Alike strings expr other) :
    expr.ownCall? = other.ownCall? := by
  cases h <;> rfl

theorem filterMap_eq {α : Type} {f : Expr → Option α} {exprs others : List Expr}
    (hf : ∀ expr other, Alike strings expr other → f expr = f other)
    (h : List.Forall₂ (Alike strings) exprs others) : exprs.filterMap f = others.filterMap f := by
  induction h with
  | nil => rfl
  | cons h _ ih => rw [List.filterMap_cons, List.filterMap_cons, hf _ _ h, ih]

theorem Alike.calledFunctions {expr other : Expr} (h : Alike strings expr other) :
    expr.calledFunctions = other.calledFunctions :=
  filterMap_eq (fun _ _ h => h.ownCall?) h.subexpressions

/-- Expressions that are alike are warned about in the same way. -/
theorem Alike.conditionalAggregates {expr other : Expr} (h : Alike strings expr other) :
    expr.conditionalAggregates = other.conditionalAggregates := by
  refine filterMap_eq (fun _ _ (h : Alike strings _ _) =>
    congrArg (List.find? Aggregate.isName) h.calledFunctions) ?_
  exact List.rel_flatMap h.subexpressions fun _ _ h => h.ownBranches

end Expr

/-! ### Tokens that are alike -/

namespace Parser

variable {strings : String → String → Prop}

theorem applyIndex_text (base : Expr) (name : String) :
    applyIndex base (.literal (.str name)) = .field base name := by
  unfold applyIndex
  split <;> simp_all

/-- Whether an index is a constant, of which item access asks the kind. -/
def isConstant : Expr → Bool
  | .literal _ => true
  | _ => false

theorem applyIndex_of_not_constant (base : Expr) {index : Expr} (h : isConstant index = false) :
    applyIndex base index = .item base index := by
  unfold applyIndex
  split <;> simp_all [isConstant]

/-- A prefix operator looks at numbers only. -/
theorem alike_applyPrefix (op : UnaryOp) {operand other : Expr}
    (h : Expr.Alike strings operand other) :
    Expr.Alike strings (applyPrefix op operand) (applyPrefix op other) := by
  cases h with
  | literal value =>
    unfold applyPrefix
    split
    · split
      · exact .literal _
      · exact .unary _ (.literal _)
    · exact .literal _
    · exact .unary _ (.literal _)
  | string h => cases op <;> exact .unary _ (.string h)
  | _ => cases op <;> exact .unary _ (by constructor <;> assumption)

theorem alike_applyIndex_constant {base other : Expr} (h : Expr.Alike strings base other)
    (value : Value) :
    Expr.Alike strings (applyIndex base (.literal value)) (applyIndex other (.literal value)) := by
  by_cases hvalues : base = .variable "_values"
  · subst hvalues
    cases h
    unfold applyIndex
    split
    · split
      · exact .column _
      · exact .item (.name _) (.literal _)
    · exact .field _ (.name _)
    · exact .item (.name _) (.literal _)
  · -- Neither base is the row of values, the only one whose columns are known.
    have hother : other ≠ .variable "_values" := by
      rintro rfl
      cases h
      exact hvalues rfl
    cases value with
    | str name =>
      rw [applyIndex_text, applyIndex_text]
      exact .field name h
    | _ => simpa [applyIndex, hvalues, hother] using .item h (.literal _)

/-- Item access looks at constants only, and takes every text as a key. -/
theorem alike_applyIndex {base other index otherIndex : Expr} (h : Expr.Alike strings base other)
    (hindex : Expr.Alike strings index otherIndex) :
    Expr.Alike strings (applyIndex base index) (applyIndex other otherIndex) := by
  cases hindex with
  | literal value => exact alike_applyIndex_constant h value
  | string hname =>
    rw [applyIndex_text, applyIndex_text]
    exact .key h hname
  | _ =>
    rw [applyIndex_of_not_constant base rfl, applyIndex_of_not_constant other rfl]
    exact .item h (by constructor <;> assumption)

theorem congruent_alike (strings : String → String → Prop) :
    Expr.Congruent (Expr.Alike strings) where
  text name := .literal (.str name)
  index h hindex := alike_applyIndex h hindex
  slice h hstart hstop := .slice h (.of_rel hstart) (.of_rel hstop)
  sign op h := alike_applyPrefix op h
  unary op h := .unary op h
  binary op h hright := .binary op h hright
  isNull negated h := .isNull negated h
  list h := .list (.of_forall₂ h)
  object h := .object (.of_forall₂ h)
  ternary h htrue hfalse := .ternary h htrue hfalse
  case h hbranches hdefault := .cases (.of_rel h) (.of_forall₂ hbranches) (.of_rel hdefault)

/-- The tokens of two lists are alike, one by one. -/
abbrev SameTokens (strings : String → String → Prop) : List Token → List Token → Prop :=
  List.Forall₂ (Token.Alike strings)

namespace SameTokens

variable {ts us ws : List Token}

protected theorem flip (h : SameTokens strings ts us) : SameTokens (flip strings) us ts := by
  refine List.Forall₂.flip (h.imp fun token other hsame => ?_)
  cases hsame with
  | same token => exact .same token
  | string htext => exact .string htext

theorem of_symbol {symbol : Symbol} (h : SameTokens strings (.symbol symbol :: ts) ws) :
    ∃ us, ws = .symbol symbol :: us ∧ SameTokens strings ts us := by
  cases h with
  | cons htoken hrest =>
    cases htoken
    exact ⟨_, rfl, hrest⟩

theorem of_identifier {name : String} (h : SameTokens strings (.identifier name :: ts) ws) :
    ∃ us, ws = .identifier name :: us ∧ SameTokens strings ts us := by
  cases h with
  | cons htoken hrest =>
    cases htoken
    exact ⟨_, rfl, hrest⟩

theorem of_append (h : SameTokens strings (ts ++ us) ws) :
    ∃ vs rest, ws = vs ++ rest ∧ SameTokens strings ts vs ∧ SameTokens strings us rest := by
  induction ts generalizing ws with
  | nil => exact ⟨[], ws, rfl, .nil, h⟩
  | cons token ts ih =>
    cases h with
    | cons htoken hrest =>
      obtain ⟨vs, rest, rfl, hts, hus⟩ := ih hrest
      exact ⟨_, rest, rfl, .cons htoken hts, hus⟩

end SameTokens

theorem splits_sameTokens (strings : String → String → Prop) : Splits (SameTokens strings) where
  nil h := List.forall₂_nil_left_iff.mp h
  symbol _ h := SameTokens.of_symbol h
  append _ _ h := SameTokens.of_append h
  colon _ h := by
    obtain ⟨vs, _, rfl, hts, hrest⟩ := SameTokens.of_append h
    obtain ⟨rest, rfl, hus⟩ := SameTokens.of_symbol hrest
    exact ⟨vs, rest, rfl, List.rel_append hts (.cons (.same _) .nil), hus⟩
  comma h := .cons (.same _) (List.forall₂_cons.mp h).2

theorem fieldName?_eq {token other : Token} (h : token.Alike strings other) :
    fieldName? token = fieldName? other := by
  cases h <;> rfl

/-- Only constants look into strings. -/
theorem sameTokens_constant {token : Token} {value : Value} (h : Constant token value) :
    (Derivation.constant value h).Carried (SameTokens strings) (Expr.Alike strings) := by
  intro us htokens
  obtain ⟨_, _, htoken, hnil, rfl⟩ := List.forall₂_cons_left_iff.mp htokens
  obtain rfl := List.forall₂_nil_left_iff.mp hnil
  cases htoken with
  | same => exact carried_of_primary (.constant value h) (.literal value)
  | string htext =>
    cases h
    exact carried_of_primary (.constant _ (.string _)) (.string htext)

/-- Along with tokens that are alike go phrases that mean expressions that are alike. -/
theorem carries_sameTokens (strings : String → String → Prop) :
    Carries (SameTokens strings) (Expr.Alike strings) where
  toSplits := splits_sameTokens strings
  toCongruent := congruent_alike strings
  field hname := by
    intro us h
    obtain ⟨_, rfl, hnext⟩ := SameTokens.of_symbol h
    obtain ⟨_, _, htoken, hnil, rfl⟩ := List.forall₂_cons_left_iff.mp hnext
    obtain rfl := List.forall₂_nil_left_iff.mp hnil
    rw [fieldName?_eq htoken] at hname
    exact ⟨_, .field _ hname, rfl, fun _ _ hleft => .field _ hleft⟩
  method hname _ arguments ih := by
    intro us h
    obtain ⟨_, rfl, hnext⟩ := SameTokens.of_symbol h
    obtain ⟨_, _, htoken, hcall, rfl⟩ := List.forall₂_cons_left_iff.mp hnext
    obtain ⟨_, rfl, hts⟩ :=
      (splits_sameTokens strings).brackets arguments (by decide) (by decide) hcall
    obtain ⟨_, inner, rfl, hinner⟩ := ih hts
    rw [fieldName?_eq htoken] at hname
    exact ⟨_, .method _ hname inner, rfl, fun _ _ hleft => .method _ hleft (.of_forall₂ hinner)⟩
  constant h := sameTokens_constant h
  name name := by
    intro us h
    obtain ⟨_, rfl, hnil⟩ := SameTokens.of_identifier h
    obtain rfl := List.forall₂_nil_left_iff.mp hnil
    exact carried_of_primary (.name name) (.name name)
  call name _ arguments ih := by
    intro us h
    obtain ⟨_, rfl, hcall⟩ := SameTokens.of_identifier h
    obtain ⟨_, rfl, hts⟩ :=
      (splits_sameTokens strings).brackets arguments (by decide) (by decide) hcall
    obtain ⟨_, inner, rfl, hinner⟩ := ih hts
    exact carried_of_primary (.call name inner) (.call name (.of_forall₂ hinner))
  bareKey name := by
    intro us h
    have hname := (splits_sameTokens strings).of_key (.bareKey name) h
    obtain ⟨_, rfl, hnil⟩ := SameTokens.of_identifier hname
    obtain rfl := List.forall₂_nil_left_iff.mp hnil
    exact ⟨_, .bareKey name, rfl, .literal (.str name)⟩
  bare h := by
    obtain ⟨_, _, htoken, hnil, rfl⟩ := List.forall₂_cons_right_iff.mp h
    obtain rfl := List.forall₂_nil_right_iff.mp hnil
    cases htoken
    rfl

/-- Tokens that are alike spell expressions that are alike. -/
theorem alike_single {tokens others : List Token} (h : SameTokens strings tokens others) :
    StreamQuery.Alike (fun _ _ => True) (Expr.Alike strings) (single tokens) (single others) := by
  refine .of_ok (fun _ he => Spelled.carried (carries_sameTokens strings) he h) fun _ hother => ?_
  obtain ⟨e, he, -⟩ := Spelled.carried (carries_sameTokens (flip strings)) hother h.flip
  exact ⟨e, he⟩

end Parser

/-! ### From texts to expressions -/

namespace Expr

open Lexer

variable {related : Literal → Literal → Prop} {text other : List Char}

/-- A text with other literals spells the expression with other constants. -/
theorem alike_parse (h : Refilled related text other) :
    StreamQuery.Alike (fun _ _ => True) (Alike (Constants related))
      (parse (String.ofList text)) (parse (String.ofList other)) := by
  unfold parse
  have htokens := tokens_refilled h
  rw [← String.toList_ofList (l := text), ← String.toList_ofList (l := other)] at htokens
  exact StreamQuery.Alike.bind htokens fun _ _ htokens => Parser.alike_single htokens

/-- The compiler finds expressions that are alike, and gives the same warnings. -/
theorem agree_compile (policy : WarningPolicy) (h : Refilled related text other) :
    Reporting.Agree (fun _ _ => True) (Alike (Constants related))
      (compile policy (String.ofList text)) (compile policy (String.ofList other)) := by
  have hparse := alike_parse h
  unfold compile
  generalize parse (String.ofList text) = parsed at hparse
  generalize parse (String.ofList other) = otherParsed at hparse
  cases hparse with
  | error => exact Reporting.agree_throw trivial
  | ok hexpr =>
    dsimp only
    rw [hexpr.conditionalAggregates]
    exact (Reporting.Agree.refl (fun _ => trivial) _).bind fun _ _ _ =>
      Reporting.agree_pure hexpr

end Expr

end StreamQuery
