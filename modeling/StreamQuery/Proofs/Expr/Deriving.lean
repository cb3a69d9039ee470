import StreamQuery.Proofs.Computation
import StreamQuery.Proofs.Expr.Grammar

/-!
# What is read has a derivation

Every function of the parser that finds a phrase has read tokens with a derivation of it. The
functions call each other, so one induction goes over all of them, on a bound of how far their
recursion still goes.
-/

namespace StreamQuery.Parser

variable {tokens mid rest : List Token}

/-- Tokens begin with a phrase that has a derivation with this value, and go on with the rest. -/
def Derives (c : Category) (tokens : List Token) (value : c.Meaning) (rest : List Token) : Prop :=
  ∃ (front : List Token) (d : Derivation c front), tokens = front ++ rest ∧ d.value = value

/-- A step that reading goes on from. -/
theorem step_of_bind {α β : Type} {result : Except SyntaxFault (Step tokens α)}
    {next : Step tokens α → Except SyntaxFault β} {found : β} (h : result >>= next = .ok found) :
    ∃ value rest shorter, result = .ok ⟨value, rest, shorter⟩ ∧
      next ⟨value, rest, shorter⟩ = .ok found := by
  obtain ⟨⟨value, rest, shorter⟩, hresult, hnext⟩ := ok_of_bind h
  exact ⟨value, rest, shorter, hresult, hnext⟩

theorem tail_of_bind {α β : Type} {result : Except SyntaxFault (Tail tokens α)}
    {next : Tail tokens α → Except SyntaxFault β} {found : β} (h : result >>= next = .ok found) :
    ∃ value rest notLonger, result = .ok ⟨value, rest, notLonger⟩ ∧
      next ⟨value, rest, notLonger⟩ = .ok found := by
  obtain ⟨⟨value, rest, notLonger⟩, hresult, hnext⟩ := ok_of_bind h
  exact ⟨value, rest, notLonger, hresult, hnext⟩

theorem symbol_of_expect {wanted : Symbol} {step : Step tokens Unit}
    (h : expect wanted tokens = .ok step) : tokens = .symbol wanted :: step.rest := by
  unfold expect at h
  split at h
  case h_1 =>
    split at h
    case isTrue heq =>
      cases h
      rw [heq]
    case isFalse => cases h
  case h_2 => cases h

/-- A symbol that has to come next is there. -/
theorem symbol_of_bind {wanted : Symbol} {β : Type} {next : Step tokens Unit → Except SyntaxFault β}
    {found : β} (h : expect wanted tokens >>= next = .ok found) :
    ∃ rest shorter, tokens = .symbol wanted :: rest ∧ next ⟨(), rest, shorter⟩ = .ok found := by
  obtain ⟨_, rest, shorter, hexpect, hnext⟩ := step_of_bind h
  exact ⟨rest, shorter, symbol_of_expect hexpect, hnext⟩

/-! ### Operators -/

theorem spells_of_operatorOf? {level : Layer} {symbol : Symbol} {op : BinaryOp}
    (h : level.operatorOf? symbol = some op) : Spells level [.symbol symbol] op := by
  unfold Layer.operatorOf? at h
  split at h <;> cases h <;> constructor

theorem spells_of_negatedOperator? {symbol : Symbol} {op : BinaryOp}
    (h : negatedOperator? symbol = some op) :
    Spells .comparison [.symbol .notWord, .symbol symbol] op := by
  unfold negatedOperator? at h
  split at h <;> cases h <;> constructor

theorem sign_of_prefixOperator? {token : Token} {op : UnaryOp}
    (h : prefixOperator? (token :: rest) = some op) :
    ∃ symbol, token = .symbol symbol ∧ Sign symbol op := by
  unfold prefixOperator? at h
  split at h
  case h_1 heq => cases heq; cases h; exact ⟨_, rfl, .minus⟩
  case h_2 heq => cases heq; cases h; exact ⟨_, rfl, .plus⟩
  case h_3 heq => cases heq; cases h; exact ⟨_, rfl, .tilde⟩
  case h_4 => cases h

/-- What a layer goes on with is spelled by the tokens that it takes. -/
def Continuation.Spelled (level : Layer) : Continuation tokens → Prop
  | .operator step => ∃ os, Spells level os step.value ∧ tokens = os ++ step.rest
  | .nullTest step => level = .comparison ∧ tokens = nullTestTokens step.value ++ step.rest
  | _ => True

theorem spelled_nullTest {level : Layer} (hlevel : level = .comparison) (negated : Bool)
    (h : rest.length < tokens.length)
    (htokens : ∀ us, rest = .symbol .nullWord :: us → tokens = nullTestTokens negated ++ us) :
    (nullTest negated rest h).Spelled level := by
  unfold nullTest
  split
  case h_1 us _ => exact ⟨hlevel, htokens us rfl⟩
  case h_2 => trivial

theorem continuation_spelled (level : Layer) (tokens : List Token) :
    (level.continuation tokens).Spelled level := by
  rw [Layer.continuation.eq_def]
  split
  case h_1 =>
    split
    case isTrue hlevel => exact spelled_nullTest hlevel true _ (by rintro us rfl; rfl)
    case isFalse => trivial
  case h_2 =>
    split
    case isTrue hlevel => exact spelled_nullTest hlevel false _ (by rintro us rfl; rfl)
    case isFalse => trivial
  case h_3 symbol rest =>
    split
    case isTrue hlevel =>
      split
      case h_1 op hop =>
        subst hlevel
        exact ⟨_, spells_of_negatedOperator? hop, rfl⟩
      case h_2 => trivial
    case isFalse => trivial
  case h_4 symbol rest _ _ _ =>
    split
    case h_1 op hop => exact ⟨_, spells_of_operatorOf? hop, rfl⟩
    case h_2 => trivial
  case h_5 => trivial

/-! ### One function at a time -/

/-- What the functions of the parser find has derivations, as far as their recursion has less than
`bound` to go. -/
structure Sound (bound : Nat) : Prop where
  expression {tokens : List Token} {step : Step tokens Expr} :
    expression tokens = .ok step → 64 * tokens.length + 40 < bound →
    Derives .expression tokens step.value step.rest
  layer (level : Layer) {tokens : List Token} {step : Step tokens Expr} :
    layer level tokens = .ok step → 64 * tokens.length + 2 * level.height + 1 < bound →
    Derives (.layer level) tokens step.value step.rest
  below (level : Layer) {tokens : List Token} {step : Step tokens Expr} :
    below level tokens = .ok step → 64 * tokens.length + 2 * level.height < bound →
    Derives (.operand level) tokens step.value step.rest
  chain (level : Layer) {left : Expr} {tokens : List Token} {tail : Tail tokens Expr} :
    chain level left tokens = .ok tail → 64 * tokens.length < bound →
    ∃ links, Derives (.links level) tokens links tail.rest ∧ links left = tail.value
  negation {tokens : List Token} {step : Step tokens Expr} :
    negation tokens = .ok step → 64 * tokens.length + 20 < bound →
    Derives .negation tokens step.value step.rest
  unary {tokens : List Token} {step : Step tokens Expr} :
    unary tokens = .ok step → 64 * tokens.length + 5 < bound →
    Derives .unary tokens step.value step.rest
  power {tokens : List Token} {step : Step tokens Expr} :
    power tokens = .ok step → 64 * tokens.length + 4 < bound →
    Derives .power tokens step.value step.rest
  postfixed {tokens : List Token} {step : Step tokens Expr} :
    postfixed tokens = .ok step → 64 * tokens.length + 3 < bound →
    Derives .postfixed tokens step.value step.rest
  suffixes {base : Expr} {tokens : List Token} {tail : Tail tokens Expr} :
    suffixes base tokens = .ok tail → 64 * tokens.length < bound →
    ∃ access, Derives .suffixes tokens access tail.rest ∧ access base = tail.value
  sliceEnd {base : Expr} {start : Option Expr} {tokens : List Token} {step : Step tokens Expr} :
    sliceEnd base start tokens = .ok step → 64 * tokens.length + 41 < bound →
    ∃ stop, Derives .optional tokens stop (.symbol .rightBracket :: step.rest) ∧
      .slice base start stop = step.value
  primary {tokens : List Token} {step : Step tokens Expr} :
    primary tokens = .ok step → 64 * tokens.length < bound →
    Derives .primary tokens step.value step.rest
  items {close : Symbol} {tokens : List Token} {step : Step tokens (List Expr)} :
    items close tokens = .ok step → 64 * tokens.length + 41 < bound →
    Derives .items tokens step.value (.symbol close :: step.rest)
  tupleItems {tokens : List Token} {step : Step tokens (List Expr)} :
    tupleItems tokens = .ok step → 64 * tokens.length < bound →
    (tokens = .symbol .rightParen :: step.rest ∧ step.value = []) ∨
      ∃ us, tokens = .symbol .comma :: us ∧
        Derives .items us step.value (.symbol .rightParen :: step.rest)
  entries {tokens : List Token} {step : Step tokens (List (Expr × Expr))} :
    entries tokens = .ok step → 64 * tokens.length + 41 < bound →
    Derives .entries tokens step.value (.symbol .rightBrace :: step.rest)
  entryValue {front : List Token} (key : Derivation .key front) {tokens : List Token}
    {step : Step tokens (List (Expr × Expr))} :
    entryValue key.value tokens = .ok step → 64 * tokens.length + 42 < bound →
    Derives .entries (front ++ tokens) step.value (.symbol .rightBrace :: step.rest)
  caseRest {operand : Option Expr} {tokens : List Token} {step : Step tokens Expr} :
    caseRest operand tokens = .ok step → 64 * tokens.length + 42 < bound →
    ∃ found otherwise after, found ≠ [] ∧ Derives .branches tokens found after ∧
      Derives .otherwise after otherwise (.symbol .endWord :: step.rest) ∧
      .case operand found otherwise = step.value
  branches {tokens : List Token} {tail : Tail tokens (List (Expr × Expr))} :
    branches tokens = .ok tail → 64 * tokens.length < bound →
    Derives .branches tokens tail.value tail.rest

section Functions

variable {bound : Nat} {level : Layer} {left base : Expr}

theorem derives_expression (ih : Sound bound) {step : Step tokens Expr}
    (h : expression tokens = .ok step) (hbound : 64 * tokens.length + 40 ≤ bound) :
    Derives .expression tokens step.value step.rest := by
  rw [expression] at h
  obtain ⟨_, mid, hmid, hfirst, h⟩ := step_of_bind h
  obtain ⟨_, dfirst, htokens, rfl⟩ :=
    ih.layer .coalesce hfirst (by simp only [Layer.height]; omega)
  dsimp only at h htokens
  split at h
  case h_1 us =>
    rw [List.length_cons] at hmid
    obtain ⟨_, _, hafter, htrue, h⟩ := step_of_bind h
    obtain ⟨_, dtrue, hus, rfl⟩ := ih.expression htrue (by omega)
    dsimp only at h hus
    obtain ⟨_, hcolon, rfl, h⟩ := symbol_of_bind h
    obtain ⟨_, _, hrest, hfalse, h⟩ := step_of_bind h
    obtain ⟨_, dfalse, hfront, rfl⟩ := ih.expression hfalse (by dsimp only; omega)
    cases h
    exact ⟨_, .question dfirst dtrue dfalse, by simp_all, rfl⟩
  case h_2 us =>
    rw [List.length_cons] at hmid
    obtain ⟨_, _, hafter, hcondition, h⟩ := step_of_bind h
    obtain ⟨_, dcondition, hus, rfl⟩ :=
      ih.layer .coalesce hcondition (by simp only [Layer.height]; omega)
    dsimp only at h hus
    obtain ⟨_, helse, rfl, h⟩ := symbol_of_bind h
    obtain ⟨_, _, hrest, hfalse, h⟩ := step_of_bind h
    obtain ⟨_, dfalse, hfront, rfl⟩ := ih.expression hfalse (by dsimp only; omega)
    cases h
    exact ⟨_, .choice dfirst dcondition dfalse, by simp_all, rfl⟩
  case h_3 =>
    cases h
    exact ⟨_, .plain dfirst, htokens, rfl⟩

theorem derives_layer (ih : Sound bound) {step : Step tokens Expr}
    (h : layer level tokens = .ok step)
    (hbound : 64 * tokens.length + 2 * level.height + 1 ≤ bound) :
    Derives (.layer level) tokens step.value step.rest := by
  rw [layer] at h
  obtain ⟨_, mid, hmid, hfirst, h⟩ := step_of_bind h
  obtain ⟨_, dfirst, htokens, rfl⟩ := ih.below level hfirst (by omega)
  obtain ⟨_, rest, hrest, hchain, h⟩ := tail_of_bind h
  obtain ⟨_, ⟨_, dlinks, hmid, rfl⟩, rfl⟩ := ih.chain level hchain (by dsimp only; omega)
  cases h
  exact ⟨_, .layer dfirst dlinks, by simp_all, rfl⟩

theorem derives_below (ih : Sound bound) {step : Step tokens Expr}
    (h : below level tokens = .ok step) (hbound : 64 * tokens.length + 2 * level.height ≤ bound) :
    Derives (.operand level) tokens step.value step.rest := by
  cases hnext : level.tighter? with
  | some next =>
    have hlayer : layer next tokens = .ok step := by
      cases level <;> cases hnext <;> (rw [below] at h; exact h)
    have hlower : next.height < level.height := by cases level <;> cases hnext <;> decide
    obtain ⟨_, d, htokens, hvalue⟩ := ih.layer next hlayer (by omega)
    exact ⟨_, .tighter hnext d, htokens, hvalue⟩
  | none =>
    cases level with
    | conjunction =>
      rw [below] at h
      obtain ⟨_, d, htokens, hvalue⟩ := ih.negation h (by simp only [Layer.height] at hbound; omega)
      exact ⟨_, .negated d, htokens, hvalue⟩
    | multiplicative =>
      rw [below] at h
      obtain ⟨_, d, htokens, hvalue⟩ := ih.unary h (by simp only [Layer.height] at hbound; omega)
      exact ⟨_, .signed d, htokens, hvalue⟩
    | _ => cases hnext

theorem derives_chain (ih : Sound bound) {tail : Tail tokens Expr}
    (h : chain level left tokens = .ok tail) (hbound : 64 * tokens.length ≤ bound) :
    ∃ links, Derives (.links level) tokens links tail.rest ∧ links left = tail.value := by
  have hspelled := continuation_spelled level tokens
  rw [chain] at h
  cases hcontinuation : level.continuation tokens with
  | operator step =>
    rw [hcontinuation] at h hspelled
    obtain ⟨os, hos, htokens⟩ := hspelled
    obtain ⟨op, us, hus⟩ := step
    dsimp only at h hos htokens
    obtain ⟨_, _, hmid, hright, h⟩ := step_of_bind h
    have hheight : level.height ≤ 13 := by cases level <;> decide
    obtain ⟨_, dright, hfront, rfl⟩ := ih.below level hright (by omega)
    dsimp only at h
    obtain ⟨_, _, hrest, hchain, h⟩ := tail_of_bind h
    obtain ⟨_, ⟨_, dlinks, hafter, rfl⟩, hwhole⟩ := ih.chain level hchain (by omega)
    cases h
    exact ⟨_, ⟨_, .operation op hos dright dlinks, by simp_all, rfl⟩, hwhole⟩
  | nullTest step =>
    rw [hcontinuation] at h hspelled
    obtain ⟨rfl, htokens⟩ := hspelled
    obtain ⟨negated, us, hus⟩ := step
    dsimp only at h htokens
    obtain ⟨_, _, hrest, hchain, h⟩ := tail_of_bind h
    obtain ⟨_, ⟨_, dlinks, hafter, rfl⟩, hwhole⟩ := ih.chain _ hchain (by omega)
    cases h
    exact ⟨_, ⟨_, .nullTest negated dlinks, by simp_all, rfl⟩, hwhole⟩
  | fault fault =>
    rw [hcontinuation] at h
    cases h
  | stop =>
    rw [hcontinuation] at h
    cases h
    exact ⟨_, ⟨[], .noLinks, rfl, rfl⟩, rfl⟩

theorem derives_negation (ih : Sound bound) {step : Step tokens Expr}
    (h : negation tokens = .ok step) (hbound : 64 * tokens.length + 20 ≤ bound) :
    Derives .negation tokens step.value step.rest := by
  rw [negation.eq_def] at h
  split at h
  case h_1 us =>
    rw [List.length_cons] at hbound
    obtain ⟨_, _, hrest, hoperand, h⟩ := step_of_bind h
    obtain ⟨_, doperand, hus, rfl⟩ := ih.negation hoperand (by omega)
    cases h
    exact ⟨_, .not doperand, congrArg _ hus, rfl⟩
  case h_2 =>
    obtain ⟨_, d, htokens, hvalue⟩ := ih.layer _ h (by simp only [Layer.height]; omega)
    exact ⟨_, .comparison d, htokens, hvalue⟩

theorem derives_unary (ih : Sound bound) {step : Step tokens Expr}
    (h : unary tokens = .ok step) (hbound : 64 * tokens.length + 5 ≤ bound) :
    Derives .unary tokens step.value step.rest := by
  rw [unary.eq_def] at h
  split at h
  case h_1 =>
    obtain ⟨_, d, htokens, hvalue⟩ := ih.power h (by omega)
    exact ⟨_, .unsigned d, htokens, hvalue⟩
  case h_2 token us =>
    split at h
    case h_1 op hop =>
      obtain ⟨symbol, rfl, hsign⟩ := sign_of_prefixOperator? hop
      rw [List.length_cons] at hbound
      obtain ⟨_, _, hrest, hoperand, h⟩ := step_of_bind h
      obtain ⟨_, doperand, hus, rfl⟩ := ih.unary hoperand (by omega)
      cases h
      exact ⟨_, .sign op hsign doperand, congrArg _ hus, rfl⟩
    case h_2 =>
      obtain ⟨_, d, htokens, hvalue⟩ := ih.power h (by omega)
      exact ⟨_, .unsigned d, htokens, hvalue⟩

theorem derives_power (ih : Sound bound) {step : Step tokens Expr}
    (h : power tokens = .ok step) (hbound : 64 * tokens.length + 4 ≤ bound) :
    Derives .power tokens step.value step.rest := by
  rw [power] at h
  obtain ⟨_, _, hmid, hbase, h⟩ := step_of_bind h
  obtain ⟨_, dbase, htokens, rfl⟩ := ih.postfixed hbase (by omega)
  dsimp only at h htokens
  split at h
  case h_1 us =>
    rw [List.length_cons] at hmid
    obtain ⟨_, _, hrest, hexponent, h⟩ := step_of_bind h
    obtain ⟨_, dexponent, hus, rfl⟩ := ih.unary hexponent (by omega)
    cases h
    exact ⟨_, .raised dbase dexponent, by simp_all, rfl⟩
  case h_2 =>
    cases h
    exact ⟨_, .base dbase, htokens, rfl⟩

theorem derives_postfixed (ih : Sound bound) {step : Step tokens Expr}
    (h : postfixed tokens = .ok step) (hbound : 64 * tokens.length + 3 ≤ bound) :
    Derives .postfixed tokens step.value step.rest := by
  rw [postfixed] at h
  obtain ⟨_, _, hmid, hbase, h⟩ := step_of_bind h
  obtain ⟨_, dbase, htokens, rfl⟩ := ih.primary hbase (by omega)
  obtain ⟨_, _, hrest, hsuffixes, h⟩ := tail_of_bind h
  obtain ⟨_, ⟨_, daccess, hafter, rfl⟩, rfl⟩ := ih.suffixes hsuffixes (by dsimp only; omega)
  cases h
  exact ⟨_, .postfixed dbase daccess, by simp_all, rfl⟩

/-- An access in front of others. -/
theorem derives_suffixes_cons {first rest : Expr → Expr} {us : List Token}
    (hfirst : Derives .suffix tokens first mid) (hrest : Derives .suffixes mid rest us) :
    Derives .suffixes tokens (fun left => rest (first left)) us := by
  obtain ⟨_, dfirst, rfl, rfl⟩ := hfirst
  obtain ⟨_, drest, rfl, rfl⟩ := hrest
  exact ⟨_, .suffixes dfirst drest, (List.append_assoc _ _ _).symm, rfl⟩

theorem derives_suffixes (ih : Sound bound) {tail : Tail tokens Expr}
    (h : suffixes base tokens = .ok tail) (hbound : 64 * tokens.length ≤ bound) :
    ∃ access, Derives .suffixes tokens access tail.rest ∧ access base = tail.value := by
  rw [suffixes.eq_def] at h
  split at h
  case h_1 => cases h
  -- A field, or a method if a parenthesis follows the name.
  case h_2 token us =>
    split at h
    case h_1 => cases h
    case h_2 name hname =>
      split at h
      case h_1 inner =>
        simp only [List.length_cons] at hbound
        obtain ⟨_, _, hmid, harguments, h⟩ := step_of_bind h
        obtain ⟨_, darguments, hinner, rfl⟩ := ih.items harguments (by omega)
        dsimp only at h
        obtain ⟨_, _, hrest, hsuffixes, h⟩ := tail_of_bind h
        obtain ⟨_, drest, hwhole⟩ := ih.suffixes hsuffixes (by omega)
        cases h
        exact ⟨_, derives_suffixes_cons ⟨_, .method name hname darguments, by simp_all, rfl⟩ drest,
          hwhole⟩
      case h_2 =>
        simp only [List.length_cons] at hbound
        obtain ⟨_, _, hrest, hsuffixes, h⟩ := tail_of_bind h
        obtain ⟨_, drest, hwhole⟩ := ih.suffixes hsuffixes (by omega)
        cases h
        exact ⟨_, derives_suffixes_cons ⟨_, .field name hname, rfl, rfl⟩ drest, hwhole⟩
  -- A slice without a start.
  case h_3 us =>
    simp only [List.length_cons] at hbound
    obtain ⟨_, _, hmid, hend, h⟩ := step_of_bind h
    obtain ⟨_, ⟨_, dstop, hus, rfl⟩, rfl⟩ := ih.sliceEnd hend (by omega)
    dsimp only at h
    obtain ⟨_, _, hrest, hsuffixes, h⟩ := tail_of_bind h
    obtain ⟨_, drest, hwhole⟩ := ih.suffixes hsuffixes (by omega)
    cases h
    exact ⟨_, derives_suffixes_cons ⟨_, .slice .absent dstop, by simp_all, rfl⟩ drest, hwhole⟩
  -- An index, or the start of a slice if a colon follows.
  case h_4 us _ =>
    simp only [List.length_cons] at hbound
    obtain ⟨_, _, hmid, hindex, h⟩ := step_of_bind h
    obtain ⟨_, dindex, hus, rfl⟩ := ih.expression hindex (by omega)
    dsimp only at h hus
    split at h
    case h_1 after =>
      rw [List.length_cons] at hmid
      obtain ⟨_, _, hafter, hend, h⟩ := step_of_bind h
      obtain ⟨_, ⟨_, dstop, hfront, rfl⟩, rfl⟩ := ih.sliceEnd hend (by omega)
      dsimp only at h hfront
      obtain ⟨_, _, hrest, hsuffixes, h⟩ := tail_of_bind h
      obtain ⟨_, drest, hwhole⟩ := ih.suffixes hsuffixes (by omega)
      cases h
      exact ⟨_, derives_suffixes_cons ⟨_, .slice (.present dindex) dstop, by simp_all, rfl⟩ drest,
        hwhole⟩
    case h_2 =>
      obtain ⟨_, hclose, rfl, h⟩ := symbol_of_bind h
      obtain ⟨_, _, hrest, hsuffixes, h⟩ := tail_of_bind h
      obtain ⟨_, drest, hwhole⟩ := ih.suffixes hsuffixes (by dsimp only; omega)
      cases h
      exact ⟨_, derives_suffixes_cons ⟨_, .index dindex, by simp_all, rfl⟩ drest, hwhole⟩
  case h_5 =>
    cases h
    exact ⟨_, ⟨[], .noSuffix, rfl, rfl⟩, rfl⟩

theorem derives_sliceEnd (ih : Sound bound) {start : Option Expr} {step : Step tokens Expr}
    (h : sliceEnd base start tokens = .ok step) (hbound : 64 * tokens.length + 41 ≤ bound) :
    ∃ stop, Derives .optional tokens stop (.symbol .rightBracket :: step.rest) ∧
      .slice base start stop = step.value := by
  rw [sliceEnd.eq_def] at h
  split at h
  case h_1 =>
    cases h
    exact ⟨none, ⟨[], .absent, rfl, rfl⟩, rfl⟩
  case h_2 =>
    obtain ⟨_, _, hmid, hstop, h⟩ := step_of_bind h
    obtain ⟨_, dstop, htokens, rfl⟩ := ih.expression hstop (by omega)
    dsimp only at h htokens
    obtain ⟨_, hclose, rfl, h⟩ := symbol_of_bind h
    cases h
    exact ⟨_, ⟨_, .present dstop, htokens, rfl⟩, rfl⟩

theorem derives_items (ih : Sound bound) {close : Symbol} {step : Step tokens (List Expr)}
    (h : items close tokens = .ok step) (hbound : 64 * tokens.length + 41 ≤ bound) :
    Derives .items tokens step.value (.symbol close :: step.rest) := by
  rw [items.eq_def] at h
  split at h
  case h_1 => cases h
  case h_2 token us =>
    split at h
    case h_1 closed hclosed =>
      cases h
      exact ⟨[], .noItems, symbol_of_expect hclosed, rfl⟩
    case h_2 =>
      obtain ⟨_, _, hmid, hfirst, h⟩ := step_of_bind h
      obtain ⟨_, dfirst, htokens, rfl⟩ := ih.expression hfirst (by omega)
      dsimp only at h htokens
      split at h
      case h_1 after =>
        rw [List.length_cons] at hmid
        obtain ⟨_, _, hafter, hothers, h⟩ := step_of_bind h
        obtain ⟨_, dothers, hfront, rfl⟩ := ih.items hothers (by omega)
        cases h
        exact ⟨_, .item dfirst dothers, by simp_all, rfl⟩
      case h_2 =>
        obtain ⟨_, hclose, rfl, h⟩ := symbol_of_bind h
        cases h
        exact ⟨_, .lastItem dfirst, htokens, rfl⟩

theorem derives_tupleItems (ih : Sound bound) {step : Step tokens (List Expr)}
    (h : tupleItems tokens = .ok step) (hbound : 64 * tokens.length ≤ bound) :
    (tokens = .symbol .rightParen :: step.rest ∧ step.value = []) ∨
      ∃ us, tokens = .symbol .comma :: us ∧
        Derives .items us step.value (.symbol .rightParen :: step.rest) := by
  rw [tupleItems.eq_def] at h
  split at h
  case h_1 =>
    cases h
    exact .inr ⟨_, rfl, [], .noItems, rfl, rfl⟩
  case h_2 us _ =>
    rw [List.length_cons] at hbound
    obtain ⟨_, _, hmid, hfirst, h⟩ := step_of_bind h
    obtain ⟨_, dfirst, hus, rfl⟩ := ih.expression hfirst (by omega)
    dsimp only at h hus
    obtain ⟨_, _, hrest, hothers, h⟩ := step_of_bind h
    have hitems := ih.tupleItems hothers (by omega)
    cases h
    obtain ⟨hclose, hempty⟩ | ⟨_, hcomma, _, dothers, hfront, hvalue⟩ := hitems
    · refine .inr ⟨_, rfl, _, .lastItem dfirst, hus.trans (congrArg _ hclose), ?_⟩
      exact congrArg (dfirst.value :: ·) hempty.symm
    · refine .inr ⟨_, rfl, _, .item dfirst dothers, ?_, congrArg (dfirst.value :: ·) hvalue⟩
      dsimp only at hfront ⊢
      rw [hus, hcomma, hfront, List.append_assoc, List.cons_append]
  case h_3 =>
    obtain ⟨_, hclose, rfl, h⟩ := symbol_of_bind h
    cases h
    exact .inl ⟨rfl, rfl⟩

theorem colon_of_entryValue {key : Expr} {step : Step tokens (List (Expr × Expr))}
    (h : entryValue key tokens = .ok step) : ∃ us, tokens = .symbol .colon :: us := by
  rw [entryValue] at h
  obtain ⟨us, -, hcolon, -⟩ := symbol_of_bind h
  exact ⟨us, hcolon⟩

theorem derives_entries (ih : Sound bound) {step : Step tokens (List (Expr × Expr))}
    (h : entries tokens = .ok step) (hbound : 64 * tokens.length + 41 ≤ bound) :
    Derives .entries tokens step.value (.symbol .rightBrace :: step.rest) := by
  rw [entries.eq_def] at h
  split at h
  case h_1 => cases h
  case h_2 =>
    cases h
    exact ⟨[], .noEntries, rfl, rfl⟩
  case h_3 name us =>
    simp only [List.length_cons] at hbound
    obtain ⟨_, _, hrest, hwhole, h⟩ := step_of_bind h
    have hentries := ih.entryValue (.bareKey name) hwhole (by simp only [List.length_cons]; omega)
    cases h
    exact hentries
  case h_4 hnil hclose hbare =>
    obtain ⟨_, _, hmid, hkey, h⟩ := step_of_bind h
    obtain ⟨front, dkey, htokens, rfl⟩ := ih.expression hkey (by omega)
    dsimp only at h htokens
    obtain ⟨_, _, hrest, hwhole, h⟩ := step_of_bind h
    have hkeys : ∀ name, front ≠ [.identifier name] := by
      rintro name rfl
      obtain ⟨us, hcolon⟩ := colon_of_entryValue hwhole
      exact hbare name us (by rw [htokens, hcolon]; rfl)
    have hentries := ih.entryValue (.computedKey hkeys dkey) hwhole (by omega)
    cases h
    exact htokens ▸ hentries

theorem derives_entryValue (ih : Sound bound) {front : List Token} (key : Derivation .key front)
    {step : Step tokens (List (Expr × Expr))} (h : entryValue key.value tokens = .ok step)
    (hbound : 64 * tokens.length + 42 ≤ bound) :
    Derives .entries (front ++ tokens) step.value (.symbol .rightBrace :: step.rest) := by
  rw [entryValue] at h
  obtain ⟨us, hus, rfl, h⟩ := symbol_of_bind h
  dsimp only at h
  rw [List.length_cons] at hbound
  obtain ⟨_, _, hmid, hvalue, h⟩ := step_of_bind h
  obtain ⟨_, dvalue, hus, rfl⟩ := ih.expression hvalue (by omega)
  dsimp only at h hus
  split at h
  case h_1 after =>
    rw [List.length_cons] at hmid
    obtain ⟨_, _, hrest, hothers, h⟩ := step_of_bind h
    obtain ⟨_, dothers, hafter, rfl⟩ := ih.entries hothers (by omega)
    cases h
    exact ⟨_, .entry key dvalue dothers, by simp_all, rfl⟩
  case h_2 =>
    obtain ⟨_, hclose, rfl, h⟩ := symbol_of_bind h
    cases h
    exact ⟨_, .lastEntry key dvalue, by simp_all, rfl⟩

theorem derives_caseRest (ih : Sound bound) {operand : Option Expr} {step : Step tokens Expr}
    (h : caseRest operand tokens = .ok step) (hbound : 64 * tokens.length + 42 ≤ bound) :
    ∃ found otherwise after, found ≠ [] ∧ Derives .branches tokens found after ∧
      Derives .otherwise after otherwise (.symbol .endWord :: step.rest) ∧
      .case operand found otherwise = step.value := by
  rw [caseRest] at h
  obtain ⟨found, after, hafter, hfound, h⟩ := tail_of_bind h
  have dfound := ih.branches hfound (by omega)
  dsimp only at h dfound
  split at h
  case isTrue => cases h
  case isFalse hempty =>
    have hne : found ≠ [] := by rintro rfl; exact hempty rfl
    split at h
    case h_1 us =>
      rw [List.length_cons] at hafter
      obtain ⟨_, _, hmid, hotherwise, h⟩ := step_of_bind h
      obtain ⟨_, dotherwise, hus, rfl⟩ := ih.expression hotherwise (by omega)
      dsimp only at h hus
      obtain ⟨_, hclose, rfl, h⟩ := symbol_of_bind h
      cases h
      exact ⟨found, _, _, hne, dfound, ⟨_, .default dotherwise, congrArg _ hus, rfl⟩, rfl⟩
    case h_2 =>
      obtain ⟨_, hclose, rfl, h⟩ := symbol_of_bind h
      cases h
      exact ⟨found, none, _, hne, dfound, ⟨[], .noDefault, rfl, rfl⟩, rfl⟩

theorem derives_branches (ih : Sound bound) {tail : Tail tokens (List (Expr × Expr))}
    (h : branches tokens = .ok tail) (hbound : 64 * tokens.length ≤ bound) :
    Derives .branches tokens tail.value tail.rest := by
  rw [branches.eq_def] at h
  split at h
  case h_1 us =>
    rw [List.length_cons] at hbound
    obtain ⟨_, _, hmid, hcondition, h⟩ := step_of_bind h
    obtain ⟨_, dcondition, hus, rfl⟩ := ih.expression hcondition (by omega)
    dsimp only at h hus
    obtain ⟨_, hthen, rfl, h⟩ := symbol_of_bind h
    obtain ⟨_, _, hafter, hresult, h⟩ := step_of_bind h
    obtain ⟨_, dresult, hfront, rfl⟩ := ih.expression hresult (by dsimp only; omega)
    dsimp only at h hafter
    obtain ⟨_, _, hrest, hothers, h⟩ := tail_of_bind h
    obtain ⟨_, dothers, hlast, rfl⟩ := ih.branches hothers (by omega)
    cases h
    exact ⟨_, .branch dcondition dresult dothers, by simp_all, rfl⟩
  case h_2 =>
    cases h
    exact ⟨[], .noBranches, rfl, rfl⟩

/-- A case expression is a first branch with the parts around it. -/
theorem derives_case {operand otherwise : Option Expr} {found : List (Expr × Expr)}
    {us after : List Token} (hoperand : Derives .optional us operand tokens) (hne : found ≠ [])
    (hbranches : Derives .branches tokens found after)
    (hotherwise : Derives .otherwise after otherwise (.symbol .endWord :: rest)) :
    Derives .primary (.symbol .caseWord :: us) (.case operand found otherwise) rest := by
  obtain ⟨_, doperand, rfl, rfl⟩ := hoperand
  obtain ⟨_, dfound, rfl, rfl⟩ := hbranches
  obtain ⟨_, dotherwise, rfl, rfl⟩ := hotherwise
  cases dfound with
  | noBranches => exact absurd rfl hne
  | branch dcondition dresult dothers =>
    exact ⟨_, .case doperand dcondition dresult dothers dotherwise, by simp, rfl⟩

theorem derives_constant {token : Token} {value : Value} (h : Constant token value)
    (rest : List Token) : Derives .primary (token :: rest) (.literal value) rest :=
  ⟨_, .constant value h, rfl, rfl⟩

theorem derives_primary (ih : Sound bound) {step : Step tokens Expr}
    (h : primary tokens = .ok step) (hbound : 64 * tokens.length ≤ bound) :
    Derives .primary tokens step.value step.rest := by
  rw [primary.eq_def] at h
  split at h
  case h_1 => cases h
  -- Calls, and names that no parenthesis follows.
  case h_2 name us =>
    simp only [List.length_cons] at hbound
    obtain ⟨_, _, hrest, harguments, h⟩ := step_of_bind h
    obtain ⟨_, darguments, hus, rfl⟩ := ih.items harguments (by omega)
    cases h
    exact ⟨_, .call name darguments, by simp_all, rfl⟩
  case h_3 name us _ =>
    cases h
    exact ⟨_, .name name, rfl, rfl⟩
  -- Constants.
  case h_4 n us =>
    cases h
    exact derives_constant (.integer n) us
  case h_5 x us =>
    split at h
    case isTrue hfinite =>
      cases h
      exact derives_constant (.float hfinite) us
    case isFalse => cases h
  case h_6 text us =>
    cases h
    exact derives_constant (.string text) us
  case h_7 us =>
    cases h
    exact derives_constant .true us
  case h_8 us =>
    cases h
    exact derives_constant .false us
  case h_9 us =>
    cases h
    exact derives_constant .null us
  -- Objects and lists.
  case h_10 us =>
    rw [List.length_cons] at hbound
    obtain ⟨_, _, hrest, hfields, h⟩ := step_of_bind h
    obtain ⟨_, dfields, hus, rfl⟩ := ih.entries hfields (by omega)
    cases h
    exact ⟨_, .object dfields, by simp_all, rfl⟩
  case h_11 us =>
    rw [List.length_cons] at hbound
    obtain ⟨_, _, hrest, helements, h⟩ := step_of_bind h
    obtain ⟨_, delements, hus, rfl⟩ := ih.items helements (by omega)
    cases h
    exact ⟨_, .list delements, by simp_all, rfl⟩
  -- Tuples and parentheses: a comma after the first expression tells them apart.
  case h_12 us =>
    cases h
    exact ⟨_, .emptyTuple, rfl, rfl⟩
  case h_13 us _ =>
    rw [List.length_cons] at hbound
    obtain ⟨_, _, hmid, hfirst, h⟩ := step_of_bind h
    obtain ⟨_, dfirst, hus, rfl⟩ := ih.expression hfirst (by omega)
    dsimp only at h hus
    split at h
    case h_1 after =>
      obtain ⟨_, _, hrest, hothers, h⟩ := step_of_bind h
      obtain ⟨hclose, -⟩ | ⟨vs, hcomma, _, dothers, hvs, rfl⟩ := ih.tupleItems hothers (by omega)
      · cases hclose
      · cases hcomma
        cases h
        exact ⟨_, .tuple dfirst dothers, by simp_all, rfl⟩
    case h_2 =>
      obtain ⟨_, hclose, rfl, h⟩ := symbol_of_bind h
      cases h
      exact ⟨_, .parentheses dfirst, by simp_all, rfl⟩
  -- Case expressions: a branch comes next, or an operand does.
  case h_14 us =>
    simp only [List.length_cons] at hbound
    obtain ⟨_, _, hrest, hwhole, h⟩ := step_of_bind h
    obtain ⟨found, _, _, hne, dfound, dotherwise, rfl⟩ :=
      ih.caseRest hwhole (by simp only [List.length_cons]; omega)
    cases h
    exact derives_case ⟨[], .absent, rfl, rfl⟩ hne dfound dotherwise
  case h_15 us _ =>
    rw [List.length_cons] at hbound
    obtain ⟨_, _, hmid, hoperand, h⟩ := step_of_bind h
    obtain ⟨_, doperand, hus, rfl⟩ := ih.expression hoperand (by omega)
    dsimp only at h hus
    obtain ⟨_, _, hrest, hwhole, h⟩ := step_of_bind h
    obtain ⟨found, _, _, hne, dfound, dotherwise, rfl⟩ := ih.caseRest hwhole (by omega)
    cases h
    exact derives_case ⟨_, .present doperand, hus, rfl⟩ hne dfound dotherwise
  case h_16 => cases h

end Functions

/-! ### Every phrase that is read -/

/-- What one function finds has a derivation when what the others find with less to go has one. -/
theorem Sound.succ {bound : Nat} (ih : Sound bound) : Sound (bound + 1) where
  expression h hbound := derives_expression ih h (by omega)
  layer level _ _ h hbound := derives_layer ih h (by omega)
  below level _ _ h hbound := derives_below ih h (by omega)
  chain level _ _ _ h hbound := derives_chain ih h (by omega)
  negation h hbound := derives_negation ih h (by omega)
  unary h hbound := derives_unary ih h (by omega)
  power h hbound := derives_power ih h (by omega)
  postfixed h hbound := derives_postfixed ih h (by omega)
  suffixes h hbound := derives_suffixes ih h (by omega)
  sliceEnd h hbound := derives_sliceEnd ih h (by omega)
  primary h hbound := derives_primary ih h (by omega)
  items h hbound := derives_items ih h (by omega)
  tupleItems h hbound := derives_tupleItems ih h (by omega)
  entries h hbound := derives_entries ih h (by omega)
  entryValue key _ _ h hbound := derives_entryValue ih key h (by omega)
  caseRest h hbound := derives_caseRest ih h (by omega)
  branches h hbound := derives_branches ih h (by omega)

theorem sound (bound : Nat) : Sound bound := by
  -- With nothing to go there is nothing to show: every bound is below zero.
  induction bound with
  | zero => constructor <;> intros <;> omega
  | succ _ ih => exact ih.succ

/-- An expression that is read has a derivation. -/
theorem derives_of_expression {step : Step tokens Expr} (h : expression tokens = .ok step) :
    Derives .expression tokens step.value step.rest :=
  (sound _).expression h (Nat.lt_succ_self _)

example : (expression [.identifier "a", .symbol .comma]).isOk = true := by decide +kernel

end StreamQuery.Parser
