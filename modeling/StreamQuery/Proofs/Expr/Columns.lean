import Mathlib.Data.List.Chain
import Mathlib.Data.List.Infix
import StreamQuery.Proofs.Expr.Parsing
import StreamQuery.Query.Binding

/-!
# Columns in expressions

Binding columns in an expression puts columns in the place of the variables with bound names.
Binding them in its tokens puts item access in the place of the bound names that neither stand
behind a dot nor before a parenthesis. Both agree, as long as no bound name is the bare key of an
object: the grammar has item access wherever it has a name.
-/

namespace StreamQuery

namespace Expr

mutual

/-- An expression with columns in the place of the variables with bound names. -/
def bindColumns (bindings : ColumnBindings) : Expr → Expr
  | .literal value => .literal value
  | .variable name =>
    match lookup? name bindings with
    | some index => .column index
    | none => .variable name
  | .column index => .column index
  | .field base name => .field (base.bindColumns bindings) name
  | .item base index => .item (base.bindColumns bindings) (index.bindColumns bindings)
  | .slice base start stop =>
    .slice (base.bindColumns bindings) (bindOption bindings start) (bindOption bindings stop)
  | .binary left op right => .binary (left.bindColumns bindings) op (right.bindColumns bindings)
  | .unary op operand => .unary op (operand.bindColumns bindings)
  | .isNull operand negated => .isNull (operand.bindColumns bindings) negated
  | .object entries => .object (bindPairs bindings entries)
  | .list items => .list (bindList bindings items)
  | .call name arguments => .call name (bindList bindings arguments)
  | .method receiver name arguments =>
    .method (receiver.bindColumns bindings) name (bindList bindings arguments)
  | .ternary condition whenTrue whenFalse =>
    .ternary (condition.bindColumns bindings) (whenTrue.bindColumns bindings)
      (whenFalse.bindColumns bindings)
  | .case operand branches otherwise =>
    .case (bindOption bindings operand) (bindPairs bindings branches)
      (bindOption bindings otherwise)
termination_by structural expr => expr

/-- Columns in an expression that may be absent. -/
def bindOption (bindings : ColumnBindings) : Option Expr → Option Expr
  | none => none
  | some expr => some (expr.bindColumns bindings)
termination_by structural expr => expr

/-- Columns in all expressions of a list. -/
def bindList (bindings : ColumnBindings) : List Expr → List Expr
  | [] => []
  | expr :: rest => expr.bindColumns bindings :: bindList bindings rest
termination_by structural exprs => exprs

/-- Columns in all pairs of a list. -/
def bindPairs (bindings : ColumnBindings) : List (Expr × Expr) → List (Expr × Expr)
  | [] => []
  | (first, second) :: rest =>
    (first.bindColumns bindings, second.bindColumns bindings) :: bindPairs bindings rest
termination_by structural pairs => pairs

end

variable {bindings : ColumnBindings}

theorem bindColumns_bound {name : String} {index : Nat} (h : lookup? name bindings = some index) :
    (Expr.variable name).bindColumns bindings = .column index := by
  rw [bindColumns, h]

theorem bindColumns_unbound {name : String} (h : lookup? name bindings = none) :
    (Expr.variable name).bindColumns bindings = .variable name := by
  rw [bindColumns, h]

/-- No other expression becomes a variable. -/
theorem eq_of_bindColumns_eq {e : Expr} {name : String}
    (h : e.bindColumns bindings = .variable name) : e = .variable name := by
  cases e with
  | «variable» other =>
    rw [bindColumns] at h
    split at h
    · cases h
    · exact h
  | _ => cases h

/-- A prefix operator looks at numbers only, which have no variables. -/
theorem bindColumns_applyPrefix (op : UnaryOp) (operand : Expr) :
    (Parser.applyPrefix op operand).bindColumns bindings =
      Parser.applyPrefix op (operand.bindColumns bindings) := by
  cases operand with
  | literal value =>
    rw [bindColumns]
    unfold Parser.applyPrefix
    split
    · split <;> rfl
    · rfl
    · rfl
  | «variable» name =>
    cases h : lookup? name bindings with
    | none => cases op <;> simp [Parser.applyPrefix, bindColumns, h]
    | some index => cases op <;> simp [Parser.applyPrefix, bindColumns, h]
  | _ => cases op <;> rfl

/-- Item access looks at constants, which have no variables, and at `_values`. -/
theorem bindColumns_applyIndex (hvalues : lookup? "_values" bindings = none) (base index : Expr) :
    (Parser.applyIndex base index).bindColumns bindings =
      Parser.applyIndex (base.bindColumns bindings) (index.bindColumns bindings) := by
  cases index with
  | literal value =>
    rw [bindColumns]
    by_cases hbase : base = .variable "_values"
    · rw [hbase, bindColumns_unbound hvalues]
      unfold Parser.applyIndex
      split
      · split
        · rfl
        · rw [bindColumns, bindColumns_unbound hvalues, bindColumns]
      · rw [bindColumns, bindColumns_unbound hvalues]
      · rw [bindColumns, bindColumns_unbound hvalues, bindColumns]
    · have hbound : base.bindColumns bindings ≠ .variable "_values" :=
        fun h => hbase (eq_of_bindColumns_eq h)
      cases value with
      | str name => rw [Parser.applyIndex_text, Parser.applyIndex_text, bindColumns]
      | _ => simp [Parser.applyIndex, hbase, hbound, bindColumns]
  | «variable» name =>
    rw [Parser.applyIndex_of_not_constant base rfl]
    cases h : lookup? name bindings with
    | none =>
      rw [bindColumns_unbound h, Parser.applyIndex_of_not_constant _ rfl, bindColumns,
        bindColumns_unbound h]
    | some index =>
      rw [bindColumns_bound h, Parser.applyIndex_of_not_constant _ rfl, bindColumns,
        bindColumns_bound h]
  | _ =>
    rw [Parser.applyIndex_of_not_constant base rfl,
      Parser.applyIndex_of_not_constant (base.bindColumns bindings) rfl]
    rfl

/-- An expression becomes another one when its columns are bound. -/
def BindsTo (bindings : ColumnBindings) (e other : Expr) : Prop :=
  other = e.bindColumns bindings

theorem bindOption_of_rel {expr other : Option Expr} (h : Option.Rel (BindsTo bindings) expr other) :
    other = bindOption bindings expr := by
  cases h with
  | none => rfl
  | some h => exact congrArg some h

theorem bindList_of_forall₂ {exprs others : List Expr}
    (h : List.Forall₂ (BindsTo bindings) exprs others) : others = bindList bindings exprs := by
  induction h with
  | nil => rfl
  | cons h _ ih => exact congrArg₂ List.cons h ih

theorem bindPairs_of_forall₂ {pairs others : List (Expr × Expr)}
    (h : List.Forall₂ (RelatedPair (BindsTo bindings)) pairs others) :
    others = bindPairs bindings pairs := by
  induction h with
  | nil => rfl
  | cons h _ ih => exact congrArg₂ List.cons (Prod.ext h.1 h.2) ih

/-- Binding the parts of an expression binds the expression. -/
theorem congruent_bindsTo (hvalues : lookup? "_values" bindings = none) :
    Congruent (BindsTo bindings) where
  text _ := rfl
  index := by
    rintro base _ index _ rfl rfl
    exact (bindColumns_applyIndex hvalues base index).symm
  slice := by
    rintro base _ start _ stop _ rfl hstart hstop
    rw [bindOption_of_rel hstart, bindOption_of_rel hstop]
    rfl
  sign := by
    rintro operand _ op rfl
    exact (bindColumns_applyPrefix op operand).symm
  unary := by
    rintro operand _ op rfl
    rfl
  binary := by
    rintro left _ right _ op rfl rfl
    rfl
  isNull := by
    rintro operand _ negated rfl
    rfl
  list h := congrArg Expr.list (bindList_of_forall₂ h)
  object h := congrArg Expr.object (bindPairs_of_forall₂ h)
  ternary := by
    rintro condition _ whenTrue _ whenFalse _ rfl rfl rfl
    rfl
  case := by
    intro _ _ _ _ _ _ hoperand hbranches hdefault
    rw [bindOption_of_rel hoperand, bindPairs_of_forall₂ hbranches, bindOption_of_rel hdefault]
    rfl

end Expr

/-! ### Tokens -/

namespace Token

/-- Whether a token has no content. -/
def isSymbol : Token → Bool
  | .symbol _ => true
  | _ => false

/-- The name between a brace or a comma and a colon, which is the bare key of an object. -/
def bareKey? : List Token → Option String
  | .symbol .leftBrace :: .identifier name :: .symbol .colon :: _ => some name
  | .symbol .comma :: .identifier name :: .symbol .colon :: _ => some name
  | _ => none

/-- The bare keys of the objects among tokens. -/
def bareKeys (ts : List Token) : List String :=
  ts.tails.filterMap bareKey?

end Token

namespace ColumnBindings

open Token

/-- The tokens of the access to a column. -/
def accessTokens (index : Nat) : List Token :=
  [.identifier "_values", .symbol .leftBracket, .integer index, .symbol .rightBracket]

/-- What is put in the place of a token, behind a dot or not, in front of the rest. -/
def bindToken (bindings : ColumnBindings) (dotted : Bool) (rest : List Token) :
    Token → List Token
  | .identifier name => match lookup? name bindings with
    | some index =>
      if dotted || opensArguments rest then [.identifier name] else accessTokens index
    | none => [.identifier name]
  | token => [token]

/-- Tokens with access to columns in the place of bound names. A name behind a dot or in front of a
parenthesis is no column. -/
def bindTokens (bindings : ColumnBindings) (dotted : Bool) : List Token → List Token
  | [] => []
  | token :: rest => bindings.bindToken dotted rest token ++ bindings.bindTokens token.isDot rest

variable {bindings : ColumnBindings} {ts us : List Token}

@[simp] theorem bindTokens_nil (dotted : Bool) : bindings.bindTokens dotted [] = [] := rfl

theorem bindTokens_symbol (dotted : Bool) (symbol : Symbol) (rest : List Token) :
    bindings.bindTokens dotted (.symbol symbol :: rest) =
      .symbol symbol :: bindings.bindTokens (symbol == .dot) rest := rfl

@[simp] theorem bindTokens_cons_symbol {symbol : Symbol} (h : symbol ≠ .dot) (dotted : Bool)
    (rest : List Token) :
    bindings.bindTokens dotted (.symbol symbol :: rest) =
      .symbol symbol :: bindings.bindTokens false rest := by
  rw [bindTokens_symbol, beq_false_of_ne h]

theorem bindToken_cases (bindings : ColumnBindings) (dotted : Bool) (rest : List Token) (token : Token) :
    bindings.bindToken dotted rest token = [token] ∨
      ∃ index, bindings.bindToken dotted rest token = accessTokens index := by
  unfold bindToken
  split
  · split
    · split
      · exact .inl rfl
      · exact .inr ⟨_, rfl⟩
    · exact .inl rfl
  · exact .inl rfl

theorem length_le_bindTokens (bindings : ColumnBindings) (dotted : Bool) (ts : List Token) :
    ts.length ≤ (bindings.bindTokens dotted ts).length := by
  induction ts generalizing dotted with
  | nil => exact Nat.le_refl 0
  | cons token rest ih =>
    have hrest := ih token.isDot
    rw [bindTokens, List.length_append, List.length_cons]
    rcases bindings.bindToken_cases dotted rest token with h | ⟨index, h⟩
    · rw [h, List.length_singleton]
      omega
    · rw [h, show (accessTokens index).length = 4 from rfl]
      omega

/-- Only a token that stays is put in the place of tokens as a single one. -/
theorem eq_of_bindTokens_eq {dotted : Bool} {token : Token}
    (h : bindings.bindTokens dotted ts = [token]) : ts = [token] := by
  match ts with
  | [] => cases h
  | [first] =>
    rw [bindTokens, bindTokens_nil, List.append_nil] at h
    rcases bindings.bindToken_cases dotted [] first with hsame | ⟨index, haccess⟩
    · exact hsame.symm.trans h
    · cases haccess.symm.trans h
  | first :: second :: rest =>
    have hlength := bindings.length_le_bindTokens dotted (first :: second :: rest)
    rw [h] at hlength
    simp at hlength

/-- Tokens are bound in two parts, unless the second one opens the arguments of the first one. -/
theorem bindTokens_append_of_dotted (dotted : Bool) (hus : opensArguments us = false) :
    bindings.bindTokens dotted (ts ++ us) =
      bindings.bindTokens dotted ts ++ bindings.bindTokens (endsDotted dotted ts) us := by
  induction ts generalizing dotted with
  | nil => rfl
  | cons token rest ih =>
    have hopens : opensArguments (rest ++ us) = opensArguments rest := by
      cases rest with
      | nil => exact hus
      | cons next rest => cases next <;> rfl
    have htoken : bindings.bindToken dotted (rest ++ us) token =
        bindings.bindToken dotted rest token := by
      cases token <;> simp only [bindToken, hopens]
    rw [List.cons_append, bindTokens, bindTokens, ih, htoken, endsDotted_cons, List.append_assoc]

end ColumnBindings

/-! ### Phrases -/

namespace Parser

open Token ColumnBindings

variable {bindings : ColumnBindings} {ts us : List Token}

/-! ### Keys -/

/-- No bound name is the bare key of an object. -/
def KeysFree (bindings : ColumnBindings) (ts : List Token) : Prop :=
  ∀ brace ∈ [Symbol.leftBrace, .comma], ∀ name,
    [.symbol brace, .identifier name, .symbol .colon] <:+: ts → lookup? name bindings = none

theorem KeysFree.part (h : KeysFree bindings ts) (hpart : us <:+: ts) : KeysFree bindings us :=
  fun brace hbrace name hwithin => h brace hbrace name (hwithin.trans hpart)

theorem KeysFree.left (h : KeysFree bindings (ts ++ us)) : KeysFree bindings ts :=
  h.part (List.prefix_append _ _).isInfix

theorem KeysFree.right (h : KeysFree bindings (ts ++ us)) : KeysFree bindings us :=
  h.part (List.suffix_append _ _).isInfix

theorem KeysFree.tail {token : Token} (h : KeysFree bindings (token :: ts)) :
    KeysFree bindings ts :=
  h.part (List.suffix_cons _ _).isInfix

/-- Behind a comma stand the same keys as behind a brace. -/
theorem KeysFree.comma (h : KeysFree bindings (.symbol .comma :: ts)) :
    KeysFree bindings (.symbol .leftBrace :: ts) := by
  intro brace hbrace name hwithin
  rcases List.infix_cons_iff.mp hwithin with hfront | hlater
  · obtain ⟨-, hfront⟩ := List.cons_prefix_cons.mp hfront
    exact h .comma (by simp) name (List.cons_prefix_cons.mpr ⟨rfl, hfront⟩).isInfix
  · exact h.tail brace hbrace name hlater

theorem keysFree_of_bareKeys (h : ∀ name ∈ bareKeys ts, lookup? name bindings = none) :
    KeysFree bindings ts := by
  rintro brace hbrace name ⟨before, after, rfl⟩
  refine h name (List.mem_filterMap.mpr
    ⟨.symbol brace :: .identifier name :: .symbol .colon :: after, ?_, ?_⟩)
  · rw [List.append_assoc]
    exact (List.mem_tails _ _).mpr (List.suffix_append before _)
  · rcases (by simpa using hbrace : brace = .leftBrace ∨ brace = .comma) with rfl | rfl <;> rfl

/-! ### Bound phrases -/

/-- The tokens in which names are bound, and no keys. -/
def BoundTokens (bindings : ColumnBindings) (ts us : List Token) : Prop :=
  KeysFree bindings ts ∧ us = bindings.bindTokens false ts

/-- The tokens of every phrase are bound by themselves. -/
theorem splits_boundTokens (bindings : ColumnBindings) : Splits (BoundTokens bindings) where
  nil h := h.2
  symbol hs h := ⟨_, h.2.trans (bindTokens_cons_symbol hs false _), h.1.tail, rfl⟩
  append hts hus h := by
    obtain ⟨hkeys, rfl⟩ := h
    rw [bindTokens_append_of_dotted false hus, hts]
    exact ⟨_, _, rfl, ⟨hkeys.left, rfl⟩, hkeys.right, rfl⟩
  colon {ts us _} hts h := by
    obtain ⟨hkeys, rfl⟩ := h
    have hcolon (rest : List Token) : bindings.bindTokens false (ts ++ .symbol .colon :: rest) =
        bindings.bindTokens false ts ++ .symbol .colon :: bindings.bindTokens false rest := by
      have hopens : opensArguments (.symbol .colon :: rest) = false := rfl
      rw [bindTokens_append_of_dotted false hopens, hts, bindTokens_cons_symbol (by decide)]
    exact ⟨_, _, hcolon us, ⟨hkeys.part ⟨[], us, by simp⟩, (hcolon []).symm⟩, hkeys.right.tail, rfl⟩
  comma h := by
    obtain ⟨hkeys, hus⟩ := h
    rw [bindTokens_cons_symbol (by decide)] at hus
    obtain rfl := (List.cons.inj hus).2
    exact ⟨hkeys.comma, (bindTokens_cons_symbol (by decide) false _).symm⟩

/-- A name behind a dot stays. -/
theorem bindTokens_dot {token : Token} {name : String} (h : fieldName? token = some name)
    (rest : List Token) :
    bindings.bindTokens false (.symbol .dot :: token :: rest) =
      .symbol .dot :: token :: bindings.bindTokens false rest := by
  have hkept : bindings.bindToken true rest token = [token] := by
    cases token with
    | identifier name =>
      rw [bindToken]
      cases lookup? name bindings <;> simp
    | _ => rfl
  rw [bindTokens_symbol, show (Symbol.dot == .dot) = true from rfl, bindTokens, hkept,
    isDot_of_fieldName? h, List.singleton_append]

theorem bound_field {token : Token} {name : String} (h : fieldName? token = some name) :
    (Derivation.field name h).Carried (BoundTokens bindings) (Expr.BindsTo bindings) := by
  rintro _ ⟨-, rfl⟩
  refine ⟨_, .field name h, (bindTokens_dot h []).symm, ?_⟩
  rintro left _ rfl
  rfl

theorem bound_method {token : Token} {name : String} (h : fieldName? token = some name)
    {arguments : Derivation .items ts}
    (harguments : arguments.Carried (BoundTokens bindings) (Expr.BindsTo bindings)) :
    (Derivation.method name h arguments).Carried (BoundTokens bindings) (Expr.BindsTo bindings) := by
  rintro _ ⟨hkeys, rfl⟩
  rw [bindTokens_dot h]
  obtain ⟨_, hus, hts⟩ := (splits_boundTokens bindings).brackets arguments (by decide) (by decide)
    ⟨hkeys.tail.tail, rfl⟩
  obtain ⟨_, inner, rfl, hinner⟩ := harguments hts
  refine ⟨_, .method name h inner, by rw [hus], ?_⟩
  rintro left _ rfl
  simp only [Expr.BindsTo, Derivation.value, Expr.bindColumns, Expr.bindList_of_forall₂ hinner]

theorem bound_constant {token : Token} {value : Value} (h : Constant token value) :
    (Derivation.constant value h).Carried (BoundTokens bindings) (Expr.BindsTo bindings) := by
  rintro _ ⟨-, rfl⟩
  have hkept : bindings.bindTokens false [token] = [token] := by cases h <;> rfl
  rw [hkept]
  exact carried_of_primary (.constant value h) rfl

/-- A number is an index. -/
theorem exists_integer (n : Nat) :
    ∃ d : Derivation .expression [.integer n], d.value = .literal (.ofNat n) := by
  obtain ⟨_, hfinds⟩ := finds_expression_of_primary (finds_constant (.integer n) [])
    ⟨_, _, rfl, Nat.le_refl 0⟩ (by decide)
  obtain ⟨front, d, hfront, hvalue⟩ := derives_of_expression hfinds
  rw [List.append_nil] at hfront
  subst hfront
  exact ⟨d, hvalue⟩

theorem applyIndex_values {index : Nat} (h : index < 0x8000000000000000) :
    applyIndex (.variable "_values") (.literal (.ofNat index)) = .column index := by
  have hrange : -0x8000000000000000 ≤ (index : Int) ∧ (index : Int) < 0x10000000000000000 := by
    omega
  rw [Value.ofNat, Value.ofInt, dif_pos hrange, applyIndex, if_pos (Int.natCast_nonneg index),
    Int.toNat_natCast]

theorem bindTokens_unbound {name : String} (h : lookup? name bindings = none) :
    bindings.bindTokens false [.identifier name] = [.identifier name] := by
  simp only [bindTokens, bindToken, h, List.append_nil]

/-- The name of a column becomes item access. -/
theorem bound_name {name : String}
    (hpositions : ∀ index ∈ lookup? name bindings, index < 0x8000000000000000) :
    (Derivation.name name).Carried (BoundTokens bindings) (Expr.BindsTo bindings) := by
  rintro _ ⟨-, rfl⟩
  cases h : lookup? name bindings with
  | none =>
    rw [bindTokens_unbound h]
    exact carried_of_primary (.name name) (Expr.bindColumns_unbound h).symm
  | some index =>
    obtain ⟨number, hnumber⟩ := exists_integer index
    refine ⟨_, .postfixed (.name "_values") (.suffixes (.index number) .noSuffix), ?_, ?_⟩
    · simp only [bindTokens, bindToken, h]
      rfl
    · simp only [Expr.BindsTo, Derivation.value, hnumber, Expr.bindColumns_bound h]
      exact applyIndex_values (hpositions index h)

/-- The name of a call stays. -/
theorem bindTokens_call (name : String) (rest : List Token) :
    bindings.bindTokens false (.identifier name :: .symbol .leftParen :: rest) =
      .identifier name :: bindings.bindTokens false (.symbol .leftParen :: rest) := by
  have hkept : bindings.bindToken false (.symbol .leftParen :: rest) (.identifier name) =
      [.identifier name] := by
    rw [bindToken]
    cases lookup? name bindings <;> rfl
  rw [bindTokens, hkept]
  rfl

example : (ColumnBindings.bindTokens [("f", 0)] false
    [.identifier "f", .symbol .leftParen, .identifier "f", .symbol .rightParen]).length = 7 := by
  decide +kernel

theorem bound_call (name : String) {arguments : Derivation .items ts}
    (h : arguments.Carried (BoundTokens bindings) (Expr.BindsTo bindings)) :
    (Derivation.call name arguments).Carried (BoundTokens bindings) (Expr.BindsTo bindings) := by
  rintro _ ⟨hkeys, rfl⟩
  rw [bindTokens_call]
  obtain ⟨_, hus, hts⟩ := (splits_boundTokens bindings).brackets arguments (by decide) (by decide)
    ⟨hkeys.tail, rfl⟩
  obtain ⟨_, inner, rfl, hinner⟩ := h hts
  rw [hus]
  refine carried_of_primary (.call name inner) ?_
  simp only [Expr.BindsTo, Derivation.value, Expr.bindColumns, Expr.bindList_of_forall₂ hinner]

/-- The bound tokens of every phrase make up the bound phrase. -/
theorem carries_boundTokens (hvalues : lookup? "_values" bindings = none)
    (hpositions : ∀ name, ∀ index ∈ lookup? name bindings, index < 0x8000000000000000) :
    Carries (BoundTokens bindings) (Expr.BindsTo bindings) where
  toSplits := splits_boundTokens bindings
  toCongruent := Expr.congruent_bindsTo hvalues
  field h := bound_field h
  method h _ _ ih := bound_method h ih
  constant h := bound_constant h
  name name := bound_name (hpositions name)
  call name _ _ ih := bound_call name ih
  bareKey name := by
    rintro us ⟨hkeys, hus⟩
    have hunbound := hkeys .leftBrace (by simp) name (List.infix_refl _)
    obtain ⟨-, rfl⟩ := (splits_boundTokens bindings).of_key (.bareKey name) ⟨hkeys, hus⟩
    rw [bindTokens_unbound hunbound]
    exact ⟨_, .bareKey name, rfl, rfl⟩
  bare h := eq_of_bindTokens_eq h.2.symm

/-- Tokens that are parsed as an expression are parsed as the bound one when they are bound. -/
theorem Spelled.bound {e : Expr} (hvalues : lookup? "_values" bindings = none)
    (hpositions : ∀ name, ∀ index ∈ lookup? name bindings, index < 0x8000000000000000)
    (hkeys : ∀ name ∈ bareKeys ts, lookup? name bindings = none) (h : Spelled ts e) :
    Spelled (bindings.bindTokens false ts) (e.bindColumns bindings) := by
  obtain ⟨_, hother, rfl⟩ :=
    h.carried (carries_boundTokens hvalues hpositions) ⟨keysFree_of_bareKeys hkeys, rfl⟩
  exact hother

/-! ### Neighbours -/

/-- One of two tokens is a symbol. -/
def Apart (first second : Token) : Prop :=
  first.isSymbol = true ∨ second.isSymbol = true

theorem isChain_symbol {symbol : Symbol} (h : ts.IsChain Apart) :
    (Token.symbol symbol :: ts).IsChain Apart :=
  List.isChain_cons.mpr ⟨fun _ _ => .inl rfl, h⟩

theorem isChain_token {token : Token} {symbol : Symbol} (h : ts.IsChain Apart) :
    (token :: .symbol symbol :: ts).IsChain Apart :=
  List.isChain_cons.mpr ⟨by simp [Apart, Token.isSymbol], isChain_symbol h⟩

theorem isSymbol_head_append (hts : ∀ token ∈ ts.head?, token.isSymbol = true)
    (hus : ∀ token ∈ us.head?, token.isSymbol = true) :
    ∀ token ∈ (ts ++ us).head?, token.isSymbol = true := by
  cases ts with
  | nil => exact hus
  | cons => exact hts

theorem isChain_append (hts : ts.IsChain Apart) (hus : us.IsChain Apart)
    (hhead : ∀ token ∈ us.head?, token.isSymbol = true) : (ts ++ us).IsChain Apart :=
  List.isChain_append.mpr ⟨hts, hus, fun _ _ token htoken => .inr (hhead token htoken)⟩

theorem isChain_before_symbol {symbol : Symbol} (hts : ts.IsChain Apart) (hus : us.IsChain Apart) :
    (ts ++ .symbol symbol :: us).IsChain Apart :=
  isChain_append hts (isChain_symbol hus) (by simp [Token.isSymbol])

theorem isChain_spells {level : Layer} {os : List Token} {op : BinaryOp} (h : Spells level os op)
    (hus : us.IsChain Apart) :
    (os ++ us).IsChain Apart ∧ ∀ token ∈ (os ++ us).head?, token.isSymbol = true := by
  cases h <;> simp [isChain_symbol, hus, Token.isSymbol, Apart]

theorem isChain_nullTestTokens (negated : Bool) (hus : us.IsChain Apart) :
    (nullTestTokens negated ++ us).IsChain Apart ∧
      ∀ token ∈ (nullTestTokens negated ++ us).head?, token.isSymbol = true := by
  cases negated <;> simp [nullTestTokens, isChain_symbol, hus, Token.isSymbol, Apart]

/-- In a phrase one of two neighbouring tokens is a symbol, and what goes on with a phrase begins
with one. -/
theorem Derivation.isChain {c : Category} (d : Derivation c ts) :
    ts.IsChain Apart ∧ (c.goesOn = true → ∀ token ∈ ts.head?, token.isSymbol = true) := by
  induction d with
  | plain _ ih | negated _ ih | signed _ ih | comparison _ ih | unsigned _ ih | base _ ih
  | present _ ih | lastItem _ ih | computedKey _ _ ih | tighter _ _ ih =>
    exact ⟨ih.1, by simp [Category.goesOn]⟩
  | question _ _ _ ihfirst ihsecond ihthird | choice _ _ _ ihfirst ihsecond ihthird =>
    exact ⟨isChain_before_symbol ihfirst.1 (isChain_before_symbol ihsecond.1 ihthird.1),
      by simp [Category.goesOn]⟩
  | layer _ _ ihfirst ihrest | postfixed _ _ ihfirst ihrest =>
    exact ⟨isChain_append ihfirst.1 ihrest.1 (ihrest.2 rfl), by simp [Category.goesOn]⟩
  | noLinks | noSuffix | absent | noItems | noEntries | noBranches | noDefault =>
    exact ⟨.nil, by simp⟩
  | operation _ h _ _ ihright ihrest =>
    obtain ⟨hchain, hhead⟩ := isChain_spells h (isChain_append ihright.1 ihrest.1 (ihrest.2 rfl))
    exact ⟨hchain, fun _ => hhead⟩
  | nullTest negated _ ih =>
    obtain ⟨hchain, hhead⟩ := isChain_nullTestTokens negated ih.1
    exact ⟨hchain, fun _ => hhead⟩
  | not _ ih | sign _ _ _ ih =>
    exact ⟨isChain_symbol ih.1, by simp [Category.goesOn]⟩
  | raised _ _ ihfirst ihrest | item _ _ ihfirst ihrest | lastEntry _ _ ihfirst ihrest =>
    exact ⟨isChain_before_symbol ihfirst.1 ihrest.1, by simp [Category.goesOn]⟩
  | suffixes _ _ ihfirst ihrest =>
    exact ⟨isChain_append ihfirst.1 ihrest.1 (ihrest.2 rfl),
      fun _ => isSymbol_head_append (ihfirst.2 rfl) (ihrest.2 rfl)⟩
  | field => exact ⟨isChain_symbol (.singleton _), by simp [Token.isSymbol]⟩
  | method _ _ _ ih =>
    exact ⟨isChain_symbol (isChain_token (isChain_before_symbol ih.1 .nil)),
      by simp [Token.isSymbol]⟩
  | index _ ih => exact ⟨isChain_symbol (isChain_before_symbol ih.1 .nil), by simp [Token.isSymbol]⟩
  | slice _ _ ihstart ihstop =>
    exact ⟨isChain_symbol (isChain_before_symbol ihstart.1 (isChain_before_symbol ihstop.1 .nil)),
      by simp [Token.isSymbol]⟩
  | constant | name | bareKey => exact ⟨.singleton _, by simp [Category.goesOn]⟩
  | call _ _ ih =>
    exact ⟨isChain_token (isChain_before_symbol ih.1 .nil), by simp [Category.goesOn]⟩
  | parentheses _ ih | list _ ih | object _ ih =>
    exact ⟨isChain_symbol (isChain_before_symbol ih.1 .nil), by simp [Category.goesOn]⟩
  | emptyTuple => exact ⟨isChain_symbol (.singleton _), by simp [Category.goesOn]⟩
  | tuple _ _ ihfirst ihrest =>
    exact ⟨isChain_symbol (isChain_before_symbol ihfirst.1 (isChain_before_symbol ihrest.1 .nil)),
      by simp [Category.goesOn]⟩
  | case _ _ _ _ _ ihoperand ihcondition ihresult ihrest ihotherwise =>
    -- Each part in front of the end begins with a symbol or is empty.
    have hend : ∀ token ∈ [Token.symbol .endWord].head?, token.isSymbol = true := by
      simp [Token.isSymbol]
    have hlast := isChain_append ihotherwise.1 (.singleton _) hend
    have hbranches := isChain_append ihrest.1 hlast
      (isSymbol_head_append (ihotherwise.2 rfl) hend)
    have hresult := isChain_append ihresult.1 hbranches
      (isSymbol_head_append (ihrest.2 rfl) (isSymbol_head_append (ihotherwise.2 rfl) hend))
    exact ⟨isChain_symbol (isChain_before_symbol ihoperand.1
      (isChain_before_symbol ihcondition.1 hresult)), by simp [Category.goesOn]⟩
  | entry _ _ _ ihkey ihvalue ihrest =>
    exact ⟨isChain_before_symbol ihkey.1 (isChain_before_symbol ihvalue.1 ihrest.1),
      by simp [Category.goesOn]⟩
  | branch _ _ _ ihcondition ihresult ihrest =>
    have hresult := isChain_append ihresult.1 ihrest.1 (ihrest.2 rfl)
    exact ⟨isChain_symbol (isChain_before_symbol ihcondition.1 hresult), by simp [Token.isSymbol]⟩
  | default _ ih => exact ⟨isChain_symbol ih.1, by simp [Token.isSymbol]⟩

/-- Two neighbours among the tokens of an expression are no names and constants both. -/
theorem Spelled.isChain {e : Expr} (h : Spelled ts e) : ts.IsChain Apart := by
  obtain ⟨d, -⟩ := derivation_of_single h
  exact d.isChain.1

end Parser

end StreamQuery
