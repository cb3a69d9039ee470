import StreamQuery.Proofs.Evaluation.LoweredNames
import StreamQuery.Proofs.Expr.Columns

/-!
# Calls of functions in another case

A name in front of a parenthesis is called, and a call is the same whatever the case of its name.
Tokens in which called names are written in another case therefore make up the same phrases, and
what these mean is the same but for the case of the names.
-/

namespace StreamQuery.Parser

open Token ColumnBindings Unicode

/-! ### Renamed tokens -/

/-- Tokens in which names in front of parentheses are written in another case of their letters. -/
inductive Renamed : List Token → List Token → Prop
  | nil : Renamed [] []
  | keep (token : Token) {ts us : List Token} (rest : Renamed ts us) :
      Renamed (token :: ts) (token :: us)
  | called {name other : String} {ts us : List Token}
      (hname : SameLetters name.toList other.toList) (hcall : opensArguments ts = true)
      (rest : Renamed ts us) : Renamed (.identifier name :: ts) (.identifier other :: us)

namespace Renamed

variable {ts us vs ws : List Token}

protected theorem refl : ∀ ts : List Token, Renamed ts ts
  | [] => .nil
  | token :: ts => .keep token (.refl ts)

theorem opensArguments_eq (h : Renamed ts us) : opensArguments ts = opensArguments us := by
  cases h with
  | nil => rfl
  | keep token => cases token <;> rfl
  | called => rfl

protected theorem symm (h : Renamed ts us) : Renamed us ts := by
  induction h with
  | nil => exact .nil
  | keep token _ ih => exact .keep token ih
  | called hname hcall hrest ih => exact .called hname.symm (hrest.opensArguments_eq ▸ hcall) ih

protected theorem append (h : Renamed ts us) (hrest : Renamed vs ws) :
    Renamed (ts ++ vs) (us ++ ws) := by
  induction h with
  | nil => exact hrest
  | keep token _ ih => exact .keep token ih
  | @called _ _ ts _ hname hcall _ ih =>
    refine .called hname ?_ ih
    cases ts with
    | nil => cases hcall
    | cons token ts => cases token <;> exact hcall

theorem of_nil (h : Renamed [] ws) : ws = [] := by
  cases h
  rfl

theorem of_symbol {symbol : Symbol} (h : Renamed (.symbol symbol :: ts) ws) :
    ∃ us, ws = .symbol symbol :: us ∧ Renamed ts us := by
  cases h with
  | keep _ hrest => exact ⟨_, rfl, hrest⟩

/-- A token by itself stays, as it is not called. -/
theorem eq_singleton {token : Token} (h : Renamed [token] ws) : ws = [token] := by
  cases h with
  | keep _ hrest => rw [hrest.of_nil]
  | called _ hcall => cases hcall

/-- Tokens are renamed in two parts, if the second one opens no arguments. -/
theorem of_append (hus : opensArguments us = false) (h : Renamed (ts ++ us) ws) :
    ∃ vs rest, ws = vs ++ rest ∧ Renamed ts vs ∧ Renamed us rest := by
  induction ts generalizing ws with
  | nil => exact ⟨[], ws, rfl, .nil, h⟩
  | cons token ts ih =>
    cases h with
    | keep _ hrest =>
      obtain ⟨vs, rest, rfl, hts, hlater⟩ := ih hrest
      exact ⟨_, rest, rfl, .keep token hts, hlater⟩
    | called hname hcall hrest =>
      obtain ⟨vs, rest, rfl, hts, hlater⟩ := ih hrest
      refine ⟨_, rest, rfl, .called hname ?_ hts, hlater⟩
      cases ts with
      | nil => exact absurd hcall (by simp [hus])
      | cons next ts => cases next <;> exact hcall

/-- Tokens before a symbol that is no parenthesis are renamed by themselves. -/
theorem of_before {symbol : Symbol} (hsymbol : symbol ≠ .leftParen)
    (h : Renamed (ts ++ .symbol symbol :: us) ws) :
    ∃ vs rest, ws = vs ++ .symbol symbol :: rest ∧ Renamed ts vs ∧ Renamed us rest := by
  have hopens : opensArguments (.symbol symbol :: us) = false := beq_false_of_ne hsymbol
  obtain ⟨vs, _, rfl, hvs, hrest⟩ := h.of_append hopens
  obtain ⟨rest, rfl, hus⟩ := hrest.of_symbol
  exact ⟨vs, rest, rfl, hvs, hus⟩

end Renamed

/-! ### Renamed phrases -/

theorem lowered_applyPrefix (op : UnaryOp) (operand : Expr) :
    (applyPrefix op operand).lowered = applyPrefix op operand.lowered := by
  cases operand with
  | literal value =>
    rw [Expr.lowered]
    unfold applyPrefix
    split
    · split <;> rfl
    · rfl
    · rfl
  | _ => cases op <;> rfl

/-- No other expression is a variable in lower case. -/
theorem eq_of_lowered_eq {e : Expr} {name : String} (h : e.lowered = .variable name) :
    e = .variable name := by
  cases e with
  | «variable» => exact h
  | _ => cases h

/-- Item access looks at constants and at `_values`, and neither calls functions. -/
theorem lowered_applyIndex (base index : Expr) :
    (applyIndex base index).lowered = applyIndex base.lowered index.lowered := by
  cases index with
  | literal value =>
    rw [Expr.lowered]
    by_cases hbase : base = .variable "_values"
    · rw [hbase, Expr.lowered]
      unfold applyIndex
      split
      · split <;> rfl
      · rfl
      · rfl
    · have hlowered : base.lowered ≠ .variable "_values" := fun h => hbase (eq_of_lowered_eq h)
      cases value with
      | str name => rw [applyIndex_text, applyIndex_text, Expr.lowered]
      | _ => simp [applyIndex, hbase, hlowered, Expr.lowered]
  | _ =>
    rw [applyIndex_of_not_constant base rfl, applyIndex_of_not_constant base.lowered rfl]
    rfl

theorem loweredOption_eq_of_rel {expr other : Option Expr}
    (h : Option.Rel Expr.SameCalls expr other) :
    Expr.loweredOption expr = Expr.loweredOption other := by
  cases h with
  | none => rfl
  | some h => exact congrArg some h

theorem loweredAll_eq_of_forall₂ {exprs others : List Expr}
    (h : List.Forall₂ Expr.SameCalls exprs others) :
    Expr.loweredAll exprs = Expr.loweredAll others := by
  induction h with
  | nil => rfl
  | cons h _ ih => exact congrArg₂ List.cons h ih

theorem loweredPairs_eq_of_forall₂ {pairs others : List (Expr × Expr)}
    (h : List.Forall₂ (Expr.RelatedPair Expr.SameCalls) pairs others) :
    Expr.loweredPairs pairs = Expr.loweredPairs others := by
  induction h with
  | nil => rfl
  | cons h _ ih => exact congrArg₂ List.cons (Prod.ext h.1 h.2) ih

theorem congruent_sameCalls : Expr.Congruent Expr.SameCalls where
  text _ := rfl
  index h hindex := by rw [Expr.SameCalls, lowered_applyIndex, lowered_applyIndex, h, hindex]
  slice h hstart hstop := .slice h (loweredOption_eq_of_rel hstart) (loweredOption_eq_of_rel hstop)
  sign op h := by rw [Expr.SameCalls, lowered_applyPrefix, lowered_applyPrefix, h]
  unary op h := .unary op h
  binary op h hright := .binary h op hright
  isNull negated h := .isNull h negated
  list h := .list (loweredAll_eq_of_forall₂ h)
  object h := .object (loweredPairs_eq_of_forall₂ h)
  ternary h htrue hfalse := .ternary h htrue hfalse
  case h hbranches hdefault := .case (loweredOption_eq_of_rel h)
    (loweredPairs_eq_of_forall₂ hbranches) (loweredOption_eq_of_rel hdefault)

variable {ts us vs : List Token}

/-- A phrase of renamed tokens is renamed part by part. -/
theorem splits_renamed : Splits Renamed where
  nil h := h.of_nil
  symbol _ h := h.of_symbol
  append _ hus h := h.of_append hus
  colon _ h := by
    obtain ⟨vs, rest, rfl, hvs, hus⟩ := h.of_before (by decide)
    exact ⟨vs, rest, rfl, hvs.append (.refl _), hus⟩
  comma h := by
    cases h with
    | keep _ hrest => exact .keep _ hrest

/-- A method is called by its name, and keywords stay. -/
theorem renamed_method {token : Token} {name : String} (hname : fieldName? token = some name)
    {arguments : Derivation .items ts} (harguments : arguments.Carried Renamed Expr.SameCalls) :
    (Derivation.method name hname arguments).Carried Renamed Expr.SameCalls := by
  intro us h
  obtain ⟨_, rfl, hcall⟩ := h.of_symbol
  cases hcall with
  | keep _ hrest =>
    obtain ⟨_, rfl, hts⟩ := splits_renamed.brackets arguments (by decide) (by decide) hrest
    obtain ⟨_, inner, rfl, hinner⟩ := harguments hts
    exact ⟨_, .method name hname inner, rfl,
      fun _ _ hleft => .method hleft (.refl _) (loweredAll_eq_of_forall₂ hinner)⟩
  | @called _ other _ _ hletters _ hrest =>
    obtain rfl := Option.some.inj hname
    have hother : fieldName? (.identifier other) = some other := rfl
    obtain ⟨_, rfl, hts⟩ := splits_renamed.brackets arguments (by decide) (by decide) hrest
    obtain ⟨_, inner, rfl, hinner⟩ := harguments hts
    exact ⟨_, .method other hother inner, rfl,
      fun _ _ hleft => .method hleft hletters (loweredAll_eq_of_forall₂ hinner)⟩

/-- A name with its arguments is called by a name of the same letters. -/
theorem renamed_call (name : String) {arguments : Derivation .items ts}
    (harguments : arguments.Carried Renamed Expr.SameCalls) :
    (Derivation.call name arguments).Carried Renamed Expr.SameCalls := by
  intro us h
  obtain ⟨other, rest, hletters, rfl, hrest⟩ : ∃ other rest, SameLetters name.toList other.toList ∧
      us = .identifier other :: rest ∧
      Renamed (.symbol .leftParen :: (ts ++ [.symbol .rightParen])) rest := by
    cases h with
    | keep _ hrest => exact ⟨name, _, .refl _, rfl, hrest⟩
    | called hletters _ hrest => exact ⟨_, _, hletters, rfl, hrest⟩
  obtain ⟨_, rfl, hts⟩ := splits_renamed.brackets arguments (by decide) (by decide) hrest
  obtain ⟨_, inner, rfl, hinner⟩ := harguments hts
  exact carried_of_primary (.call other inner) (.call hletters (loweredAll_eq_of_forall₂ hinner))

/-- Every phrase means the same but for the case of functions when these are renamed. -/
theorem carries_renamed : Carries Renamed Expr.SameCalls where
  toSplits := splits_renamed
  toCongruent := congruent_sameCalls
  field h := by
    intro us htokens
    obtain ⟨_, rfl, hname⟩ := htokens.of_symbol
    rw [hname.eq_singleton]
    exact ⟨_, .field _ h, rfl, fun _ _ hleft => .field hleft _⟩
  method h _ _ ih := renamed_method h ih
  constant h := by
    intro us htokens
    rw [htokens.eq_singleton]
    exact carried_of_primary (.constant _ h) rfl
  name name := by
    intro us h
    rw [h.eq_singleton]
    exact carried_of_primary (.name name) rfl
  call name _ _ ih := renamed_call name ih
  bareKey name := by
    intro us h
    rw [(splits_renamed.of_key (.bareKey name) h).eq_singleton]
    exact ⟨_, .bareKey name, rfl, rfl⟩
  bare h := h.symm.eq_singleton

/-! ### What is parsed -/

example : (single [.identifier "LEN", .symbol .leftParen, .symbol .rightParen]).isOk = true := by
  decide +kernel

theorem Spelled.renamed {e : Expr} (h : Spelled ts e) (hus : Renamed ts us) :
    ∃ other, Spelled us other ∧ e.SameCalls other :=
  h.carried carries_renamed hus

theorem renamed_separated {parts : List (List Token)} (hne : parts ≠ [])
    (h : Renamed (separated parts) us) :
    ∃ others, us = separated others ∧ List.Forall₂ Renamed parts others := by
  induction parts generalizing us with
  | nil => exact absurd rfl hne
  | cons part parts ih =>
    cases parts with
    | nil =>
      rw [separated_singleton] at h
      exact ⟨[us], (separated_singleton us).symm, .cons h .nil⟩
    | cons next parts =>
      rw [separated_cons (List.cons_ne_nil _ _)] at h
      obtain ⟨first, _, rfl, hpart, hrest⟩ := h.of_before (by decide)
      obtain ⟨others, rfl, hparts⟩ := ih (List.cons_ne_nil _ _) hrest
      have hothers : others ≠ [] := by
        rintro rfl
        cases hparts
      exact ⟨first :: others, (separated_cons hothers first).symm, .cons hpart hparts⟩

theorem several_renamed {exprs : List Expr} (h : several ts = .ok exprs) (hus : Renamed ts us) :
    ∃ others, several us = .ok others ∧ List.Forall₂ Expr.SameCalls exprs others := by
  obtain ⟨parts, hne, rfl, hparts⟩ := spelled_of_several h
  obtain ⟨renamed, rfl, hrenamed⟩ := renamed_separated hne hus
  have hfound : ∃ others, List.Forall₂ Spelled renamed others ∧
      List.Forall₂ Expr.SameCalls exprs others := by
    clear hus h hne
    induction hparts generalizing renamed with
    | nil =>
      cases hrenamed
      exact ⟨[], .nil, .nil⟩
    | cons hpart _ ih =>
      obtain _ | ⟨hfirst, hrest⟩ := hrenamed
      obtain ⟨other, hother, hsame⟩ := hpart.renamed hfirst
      obtain ⟨others, hothers, hall⟩ := ih _ hrest
      exact ⟨other :: others, .cons hother hothers, .cons hsame hall⟩
  obtain ⟨others, hothers, hsame⟩ := hfound
  refine ⟨others, several_of_spelled ?_ hothers, hsame⟩
  rintro rfl
  cases hrenamed
  exact hne rfl

/-- Renamed tokens are parsed alike: both as expressions that are the same but for the case of
functions, or neither. -/
theorem alike_single_of_renamed (h : Renamed ts us) :
    Alike (fun _ _ => True) Expr.SameCalls (single ts) (single us) := by
  refine .of_ok (fun e he => Spelled.renamed he h) fun other hother => ?_
  obtain ⟨e, he, -⟩ := Spelled.renamed hother h.symm
  exact ⟨e, he⟩

theorem alike_several_of_renamed (h : Renamed ts us) :
    Alike (fun _ _ => True) (List.Forall₂ Expr.SameCalls) (several ts) (several us) := by
  refine .of_ok (fun exprs hexprs => several_renamed hexprs h) fun others hothers => ?_
  obtain ⟨exprs, hexprs, -⟩ := several_renamed hothers h.symm
  exact ⟨exprs, hexprs⟩

end StreamQuery.Parser
