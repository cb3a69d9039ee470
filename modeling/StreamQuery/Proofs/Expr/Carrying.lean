import StreamQuery.Proofs.Expr.Nesting

/-!
# Phrases along with their tokens

The tokens of an expression may be written in other ways that leave its phrases as they are: strings
change, called names take another case, members another spelling, and columns the place of names.
Each of these ways relates tokens to tokens and expressions to expressions. As soon as the relation
of tokens goes through the places where one phrase ends and the next one begins, and single tokens
stand for related expressions, every phrase has a related phrase.
-/

namespace StreamQuery

/-! ### Where phrases end -/

namespace Token

/-- Whether a token is a dot. -/
def isDot : Token → Bool
  | .symbol s => s == .dot
  | _ => false

/-- Whether tokens begin with a parenthesis, as the arguments of a call do. -/
def opensArguments : List Token → Bool
  | .symbol s :: _ => s == .leftParen
  | _ => false

/-- Whether tokens end in a dot, or are none behind a dot. -/
def endsDotted (dotted : Bool) (ts : List Token) : Bool :=
  ts.foldl (fun _ token => token.isDot) dotted

@[simp] theorem endsDotted_nil (dotted : Bool) : endsDotted dotted [] = dotted := rfl

@[simp] theorem endsDotted_cons (dotted : Bool) (token : Token) (rest : List Token) :
    endsDotted dotted (token :: rest) = endsDotted token.isDot rest := rfl

@[simp] theorem endsDotted_append (dotted : Bool) (ts us : List Token) :
    endsDotted dotted (ts ++ us) = endsDotted (endsDotted dotted ts) us :=
  List.foldl_append

end Token

namespace Parser

open Token

theorem opensArguments_of_reach {ts : List Token} (h : 0 < reach ts) :
    opensArguments ts = false := by
  cases ts with
  | nil => rfl
  | cons token rest =>
    cases token with
    | symbol symbol =>
      refine beq_false_of_ne ?_
      rintro rfl
      exact absurd h (Nat.lt_irrefl 0)
    | _ => rfl

theorem opensArguments_append {ts us : List Token} (hts : opensArguments ts = false)
    (hus : opensArguments us = false) : opensArguments (ts ++ us) = false := by
  cases ts with
  | nil => exact hus
  | cons token rest => cases token <;> exact hts

theorem isDot_of_fieldName? {token : Token} {name : String} (h : fieldName? token = some name) :
    token.isDot = false := by
  unfold fieldName? at h
  split at h <;> first | rfl | cases h

theorem isDot_of_constant {token : Token} {value : Value} (h : Constant token value) :
    token.isDot = false := by
  cases h <;> rfl

theorem endsDotted_of_spells {level : Layer} {os : List Token} {op : BinaryOp}
    (h : Spells level os op) : endsDotted false os = false := by
  cases h <;> rfl

theorem endsDotted_nullTestTokens (negated : Bool) :
    endsDotted false (nullTestTokens negated) = false := by
  cases negated <;> rfl

/-- No phrase ends in a dot. -/
theorem Derivation.endsDotted {c : Category} {ts : List Token} (d : Derivation c ts) :
    endsDotted false ts = false := by
  have hsymbol : ∀ {symbol : Symbol}, symbol ≠ .dot → (Token.symbol symbol).isDot = false :=
    beq_false_of_ne
  induction d with
  | field name h => simp [isDot_of_fieldName? h]
  | constant value h => simp [isDot_of_constant h]
  | operation op h _ _ ihright ihrest => simp [endsDotted_of_spells h, ihright, ihrest]
  | nullTest negated _ ih => simp [endsDotted_nullTestTokens, ih]
  | sign op h _ ih => cases h <;> simp [hsymbol, ih]
  | name | bareKey => rfl
  | _ => simp_all

/-- The categories of phrases that go on with what stands before them. -/
def Category.goesOn : Category → Bool
  | .links _ | .suffix | .suffixes | .branches | .otherwise => true
  | _ => false

/-- What goes on with a phrase does not open arguments. -/
theorem Derivation.opensArguments {c : Category} {ts : List Token} (d : Derivation c ts)
    (hc : c.goesOn = true) : opensArguments ts = false := by
  have hend : 15 = reach [] := rfl
  have hreads := d.reads
  refine opensArguments_of_reach ?_
  rw [← List.append_nil ts]
  cases c with
  | links level =>
    have hlevel : 0 < level.height ∧ level.height < 15 := by cases level <;> decide
    exact Nat.lt_of_lt_of_le hlevel.1 (hreads [] hlevel.2).1
  | suffix => exact (hreads [] (by decide)).1
  | suffixes => exact (hreads [] (by decide)).1
  | branches => exact Nat.lt_of_le_of_lt (Nat.zero_le 14) (hreads [] (by decide) (by simp)).1
  | otherwise =>
    obtain ⟨rfl, -⟩ | ⟨_, us, -, rfl, -⟩ := hreads
    · decide
    · exact lt_reach (by decide) us
  | _ => cases hc

end Parser

/-! ### Related expressions -/

namespace Expr

/-- Two pairs of expressions are related in both places. -/
def RelatedPair (E : Expr → Expr → Prop) (pair other : Expr × Expr) : Prop :=
  E pair.1 other.1 ∧ E pair.2 other.2

/-- A relation that the expressions of the parser inherit from their parts. Names and calls are left
to the tokens that spell them. -/
structure Congruent (E : Expr → Expr → Prop) : Prop where
  text (name : String) : E (.literal (.str name)) (.literal (.str name))
  index {base other index otherIndex : Expr} : E base other → E index otherIndex →
    E (Parser.applyIndex base index) (Parser.applyIndex other otherIndex)
  slice {base other : Expr} {start otherStart stop otherStop : Option Expr} : E base other →
    Option.Rel E start otherStart → Option.Rel E stop otherStop →
    E (.slice base start stop) (.slice other otherStart otherStop)
  sign {operand other : Expr} (op : UnaryOp) : E operand other →
    E (Parser.applyPrefix op operand) (Parser.applyPrefix op other)
  unary {operand other : Expr} (op : UnaryOp) : E operand other →
    E (.unary op operand) (.unary op other)
  binary {left other right otherRight : Expr} (op : BinaryOp) : E left other →
    E right otherRight → E (.binary left op right) (.binary other op otherRight)
  isNull {operand other : Expr} (negated : Bool) : E operand other →
    E (.isNull operand negated) (.isNull other negated)
  list {items others : List Expr} : List.Forall₂ E items others → E (.list items) (.list others)
  object {entries others : List (Expr × Expr)} : List.Forall₂ (RelatedPair E) entries others →
    E (.object entries) (.object others)
  ternary {condition other whenTrue otherTrue whenFalse otherFalse : Expr} : E condition other →
    E whenTrue otherTrue → E whenFalse otherFalse →
    E (.ternary condition whenTrue whenFalse) (.ternary other otherTrue otherFalse)
  case {operand other otherwise otherDefault : Option Expr} {branches others : List (Expr × Expr)} :
    Option.Rel E operand other → List.Forall₂ (RelatedPair E) branches others →
    Option.Rel E otherwise otherDefault →
    E (.case operand branches otherwise) (.case other others otherDefault)

theorem eq_of_optionRel {expr other : Option Expr} (h : Option.Rel Eq expr other) :
    expr = other := by
  cases h with
  | none => rfl
  | some h => exact congrArg some h

theorem eq_of_forall₂_relatedPair {pairs others : List (Expr × Expr)}
    (h : List.Forall₂ (RelatedPair Eq) pairs others) : pairs = others := by
  have hpairs : List.Forall₂ Eq pairs others := h.imp fun _ _ h => Prod.ext h.1 h.2
  rwa [List.forall₂_eq_eq_eq] at hpairs

theorem congruent_eq : Congruent Eq where
  text _ := rfl
  index := congrArg₂ Parser.applyIndex
  slice := by
    rintro base _ _ _ _ _ rfl hstart hstop
    rw [eq_of_optionRel hstart, eq_of_optionRel hstop]
  sign op := congrArg (Parser.applyPrefix op)
  unary op := congrArg (Expr.unary op)
  binary op := congrArg₂ (Expr.binary · op ·)
  isNull negated := congrArg (Expr.isNull · negated)
  list h := congrArg Expr.list (List.forall₂_eq_eq_eq ▸ h)
  object h := congrArg Expr.object (eq_of_forall₂_relatedPair h)
  ternary := by
    rintro _ _ _ _ _ _ rfl rfl rfl
    rfl
  case hoperand hbranches hdefault := by
    rw [eq_of_optionRel hoperand, eq_of_forall₂_relatedPair hbranches, eq_of_optionRel hdefault]

end Expr

/-! ### Related phrases -/

namespace Parser

open Token Expr

/-- What a phrase is along with its tokens: a primary phrase may become access. -/
@[reducible] def Category.carried : Category → Category
  | .primary => .postfixed
  | c => c

/-- Two meanings of a phrase are related. Links and suffixes keep the expressions before them
related. -/
@[reducible] def Category.Related (E : Expr → Expr → Prop) :
    (c : Category) → c.Meaning → c.carried.Meaning → Prop
  | .links _, f, g | .suffix, f, g | .suffixes, f, g =>
    ∀ ⦃left other : Expr⦄, E left other → E (f left) (g other)
  | .optional, found, other | .otherwise, found, other => Option.Rel E found other
  | .items, es, others => List.Forall₂ E es others
  | .entries, pairs, others | .branches, pairs, others => List.Forall₂ (RelatedPair E) pairs others
  | .expression, e, other | .layer _, e, other | .operand _, e, other | .negation, e, other
  | .unary, e, other | .power, e, other | .postfixed, e, other | .primary, e, other
  | .key, e, other => E e other

/-- The tokens of a phrase are related, with what stands around entries and keys. -/
@[reducible] def Category.Within (R : List Token → List Token → Prop) :
    Category → List Token → List Token → Prop
  | .entries, ts, us => R (.symbol .leftBrace :: ts) (.symbol .leftBrace :: us)
  | .key, ts, us => R (.symbol .leftBrace :: (ts ++ [.symbol .colon]))
    (.symbol .leftBrace :: (us ++ [.symbol .colon]))
  | _, ts, us => R ts us

/-- Tokens related to those of a phrase have a related meaning. -/
def Derivation.Carried (R : List Token → List Token → Prop) (E : Expr → Expr → Prop) {c : Category}
    {ts : List Token} (d : Derivation c ts) : Prop :=
  ∀ ⦃us⦄, c.Within R ts us →
    ∃ (vs : List Token) (other : Derivation c.carried vs), vs = us ∧ c.Related E d.value other.value

/-- A relation of tokens that keeps all symbols but dots and goes through the ends of phrases. What
ends there does not end in a dot, and what begins there opens no arguments. -/
structure Splits (R : List Token → List Token → Prop) : Prop where
  nil {us : List Token} : R [] us → us = []
  symbol {s : Symbol} {ts ws : List Token} : s ≠ .dot → R (.symbol s :: ts) ws →
    ∃ us, ws = .symbol s :: us ∧ R ts us
  append {ts us ws : List Token} : endsDotted false ts = false → opensArguments us = false →
    R (ts ++ us) ws → ∃ vs rest, ws = vs ++ rest ∧ R ts vs ∧ R us rest
  /-- A key is told from other names by the colon behind it. -/
  colon {ts us ws : List Token} : endsDotted false ts = false →
    R (ts ++ .symbol .colon :: us) ws → ∃ vs rest, ws = vs ++ .symbol .colon :: rest ∧
      R (ts ++ [.symbol .colon]) (vs ++ [.symbol .colon]) ∧ R us rest
  /-- Behind a comma stand the same keys as behind a brace. -/
  comma {ts us : List Token} : R (.symbol .comma :: ts) (.symbol .comma :: us) →
    R (.symbol .leftBrace :: ts) (.symbol .leftBrace :: us)

/-- A relation of tokens under which the phrases made of single names and constants, and the phrases
that call by a name, have related meanings. The other phrases inherit these from their parts. -/
structure Carries (R : List Token → List Token → Prop) (E : Expr → Expr → Prop) : Prop
    extends Splits R, Congruent E where
  field {token : Token} {name : String} (h : fieldName? token = some name) :
    (Derivation.field name h).Carried R E
  method {token : Token} {name : String} (h : fieldName? token = some name) {ts : List Token}
    {arguments : Derivation .items ts} : arguments.Carried R E →
    (Derivation.method name h arguments).Carried R E
  constant {token : Token} {value : Value} (h : Constant token value) :
    (Derivation.constant value h).Carried R E
  name (name : String) : (Derivation.name name).Carried R E
  call (name : String) {ts : List Token} {arguments : Derivation .items ts} :
    arguments.Carried R E → (Derivation.call name arguments).Carried R E
  bareKey (name : String) : (Derivation.bareKey name).Carried R E
  /-- No other tokens become a bare name. -/
  bare {ts : List Token} {name : String} : R ts [.identifier name] → ts = [.identifier name]

variable {R : List Token → List Token → Prop} {E : Expr → Expr → Prop}
  {ts us vs ws cs fs os : List Token} {level : Layer}

namespace Splits

variable (hR : Splits R)

include hR

/-- A phrase and what goes on with it are related by themselves. -/
theorem goingOn {c next : Category} (d : Derivation c ts) (rest : Derivation next us)
    (hnext : next.goesOn = true) (h : R (ts ++ us) ws) :
    ∃ vs rest, ws = vs ++ rest ∧ R ts vs ∧ R us rest :=
  hR.append d.endsDotted (rest.opensArguments hnext) h

theorem before {c : Category} (d : Derivation c ts) {s : Symbol} (hs : s ≠ .dot ∧ s ≠ .leftParen)
    (h : R (ts ++ .symbol s :: us) ws) :
    ∃ vs rest, ws = vs ++ .symbol s :: rest ∧ R ts vs ∧ R us rest := by
  have hopens : opensArguments (.symbol s :: us) = false := beq_false_of_ne hs.2
  obtain ⟨vs, _, rfl, hvs, hrest⟩ := hR.append d.endsDotted hopens h
  obtain ⟨rest, rfl, hus⟩ := hR.symbol hs.1 hrest
  exact ⟨vs, rest, rfl, hvs, hus⟩

/-- Tokens before the last symbol of a phrase are related. -/
theorem closed {c : Category} (d : Derivation c ts) {s : Symbol} (hs : s ≠ .dot ∧ s ≠ .leftParen)
    (h : R (ts ++ [.symbol s]) ws) : ∃ vs, ws = vs ++ [.symbol s] ∧ R ts vs := by
  obtain ⟨vs, _, rfl, hvs, hnil⟩ := hR.before d hs h
  rw [hR.nil hnil]
  exact ⟨vs, rfl, hvs⟩

theorem brackets {c : Category} (d : Derivation c ts) {first last : Symbol} (hfirst : first ≠ .dot)
    (hlast : last ≠ .dot ∧ last ≠ .leftParen)
    (h : R (.symbol first :: (ts ++ [.symbol last])) ws) :
    ∃ vs, ws = .symbol first :: (vs ++ [.symbol last]) ∧ R ts vs := by
  obtain ⟨_, rfl, hinner⟩ := hR.symbol hfirst h
  obtain ⟨vs, rfl, hvs⟩ := hR.closed d hlast hinner
  exact ⟨vs, rfl, hvs⟩

theorem spells {op : BinaryOp} (hos : Spells level os op) (h : R (os ++ us) ws) :
    ∃ rest, ws = os ++ rest ∧ R us rest := by
  cases hos with
  | notMember | notLike =>
    obtain ⟨_, rfl, hrest⟩ := hR.symbol (by decide) h
    obtain ⟨rest, rfl, hus⟩ := hR.symbol (by decide) hrest
    exact ⟨rest, rfl, hus⟩
  | _ => exact hR.symbol (by decide) h

theorem nullTest {negated : Bool} (h : R (nullTestTokens negated ++ us) ws) :
    ∃ rest, ws = nullTestTokens negated ++ rest ∧ R us rest := by
  cases negated with
  | true =>
    obtain ⟨_, rfl, hnot⟩ := hR.symbol (by decide) h
    obtain ⟨_, rfl, hnull⟩ := hR.symbol (by decide) hnot
    obtain ⟨rest, rfl, hus⟩ := hR.symbol (by decide) hnull
    exact ⟨rest, rfl, hus⟩
  | false =>
    obtain ⟨_, rfl, hnull⟩ := hR.symbol (by decide) h
    obtain ⟨rest, rfl, hus⟩ := hR.symbol (by decide) hnull
    exact ⟨rest, rfl, hus⟩

/-- A key and what stands behind its colon are related by themselves. -/
theorem keyed (key : Derivation .key ts)
    (h : R (.symbol .leftBrace :: (ts ++ .symbol .colon :: us)) (.symbol .leftBrace :: ws)) :
    ∃ vs rest, ws = vs ++ .symbol .colon :: rest ∧ Category.key.Within R ts vs ∧ R us rest := by
  have hend : endsDotted false (.symbol .leftBrace :: ts) = false := key.endsDotted
  obtain ⟨front, rest, hwhole, hkey, hus⟩ := hR.colon hend h
  obtain ⟨vs, hvs, -⟩ := hR.symbol (by decide) hkey
  cases front with
  | nil => cases hvs
  | cons first front =>
    obtain ⟨rfl, hws⟩ := List.cons.inj hwhole
    exact ⟨front, rest, hws, hkey, hus⟩

theorem of_key {c : Category} (d : Derivation c ts) (h : Category.key.Within R ts us) : R ts us := by
  obtain ⟨_, hus, hts⟩ := hR.brackets d (by decide) (by decide) h
  exact List.append_cancel_right (List.cons.inj hus).2 ▸ hts

end Splits

/-! ### One production at a time -/

theorem carried_of_primary {d : Derivation .primary ts} (other : Derivation .primary us)
    (hvalue : E d.value other.value) :
    ∃ (vs : List Token) (whole : Derivation .postfixed vs), vs = us ∧ E d.value whole.value :=
  ⟨_, .postfixed other .noSuffix, List.append_nil us, hvalue⟩

/-- Access goes on with further access. -/
theorem exists_suffixes_append : {ts us : List Token} → (first : Derivation .suffixes ts) →
    (access : Derivation .suffixes us) →
    ∃ (vs : List Token) (both : Derivation .suffixes vs),
      vs = ts ++ us ∧ ∀ left, both.value left = access.value (first.value left)
  | _, _, .noSuffix, access => ⟨_, access, rfl, fun _ => rfl⟩
  | _, _, .suffixes first rest, access => by
    obtain ⟨_, both, rfl, hboth⟩ := exists_suffixes_append rest access
    exact ⟨_, .suffixes first both, (List.append_assoc _ _ _).symm, fun left => hboth _⟩

section Productions

variable (hR : Carries R E)

include hR

theorem carried_question {condition : Derivation (.layer .coalesce) cs}
    {whenTrue : Derivation .expression ts} {whenFalse : Derivation .expression fs}
    (hcondition : condition.Carried R E) (htrue : whenTrue.Carried R E)
    (hfalse : whenFalse.Carried R E) :
    (Derivation.question condition whenTrue whenFalse).Carried R E := by
  intro us h
  obtain ⟨_, _, rfl, hcs, hafter⟩ := hR.before condition (by decide) h
  obtain ⟨_, _, rfl, hts, hfs⟩ := hR.before whenTrue (by decide) hafter
  obtain ⟨_, first, rfl, hfirst⟩ := hcondition hcs
  obtain ⟨_, second, rfl, hsecond⟩ := htrue hts
  obtain ⟨_, third, rfl, hthird⟩ := hfalse hfs
  exact ⟨_, .question first second third, rfl, hR.ternary hfirst hsecond hthird⟩

theorem carried_choice {whenTrue : Derivation (.layer .coalesce) ts}
    {condition : Derivation (.layer .coalesce) cs} {whenFalse : Derivation .expression fs}
    (htrue : whenTrue.Carried R E) (hcondition : condition.Carried R E)
    (hfalse : whenFalse.Carried R E) :
    (Derivation.choice whenTrue condition whenFalse).Carried R E := by
  intro us h
  obtain ⟨_, _, rfl, hts, hafter⟩ := hR.before whenTrue (by decide) h
  obtain ⟨_, _, rfl, hcs, hfs⟩ := hR.before condition (by decide) hafter
  obtain ⟨_, first, rfl, hfirst⟩ := htrue hts
  obtain ⟨_, second, rfl, hsecond⟩ := hcondition hcs
  obtain ⟨_, third, rfl, hthird⟩ := hfalse hfs
  exact ⟨_, .choice first second third, rfl, hR.ternary hsecond hfirst hthird⟩

theorem carried_layer {first : Derivation (.operand level) ts} {rest : Derivation (.links level) us}
    (hfirst : first.Carried R E) (hrest : rest.Carried R E) :
    (Derivation.layer first rest).Carried R E := by
  intro ws h
  obtain ⟨_, _, rfl, hts, hus⟩ := hR.goingOn first rest rfl h
  obtain ⟨_, operand, rfl, hoperand⟩ := hfirst hts
  obtain ⟨_, links, rfl, hlinks⟩ := hrest hus
  exact ⟨_, .layer operand links, rfl, hlinks hoperand⟩

theorem carried_operation {op : BinaryOp} (hos : Spells level os op)
    {right : Derivation (.operand level) ts} {rest : Derivation (.links level) us}
    (hright : right.Carried R E) (hrest : rest.Carried R E) :
    (Derivation.operation op hos right rest).Carried R E := by
  intro ws h
  obtain ⟨_, rfl, hafter⟩ := hR.spells hos h
  obtain ⟨_, _, rfl, hts, hus⟩ := hR.goingOn right rest rfl hafter
  obtain ⟨_, operand, rfl, hoperand⟩ := hright hts
  obtain ⟨_, links, rfl, hlinks⟩ := hrest hus
  exact ⟨_, .operation op hos operand links, rfl,
    fun _ _ hleft => hlinks (hR.binary op hleft hoperand)⟩

theorem carried_nullTest (negated : Bool) {rest : Derivation (.links .comparison) us}
    (hrest : rest.Carried R E) : (Derivation.nullTest negated rest).Carried R E := by
  intro ws h
  obtain ⟨_, rfl, hus⟩ := hR.nullTest h
  obtain ⟨_, links, rfl, hlinks⟩ := hrest hus
  exact ⟨_, .nullTest negated links, rfl, fun _ _ hleft => hlinks (hR.isNull negated hleft)⟩

theorem carried_not {operand : Derivation .negation ts} (hoperand : operand.Carried R E) :
    (Derivation.not operand).Carried R E := by
  intro us h
  obtain ⟨_, rfl, hts⟩ := hR.symbol (by decide) h
  obtain ⟨_, inner, rfl, hinner⟩ := hoperand hts
  exact ⟨_, .not inner, rfl, hR.unary .not hinner⟩

theorem carried_sign {symbol : Symbol} {op : UnaryOp} (hsign : Sign symbol op)
    {operand : Derivation .unary ts} (hoperand : operand.Carried R E) :
    (Derivation.sign op hsign operand).Carried R E := by
  intro us h
  obtain ⟨_, rfl, hts⟩ := hR.symbol (by cases hsign <;> decide) h
  obtain ⟨_, inner, rfl, hinner⟩ := hoperand hts
  exact ⟨_, .sign op hsign inner, rfl, hR.sign op hinner⟩

theorem carried_raised {base : Derivation .postfixed ts} {exponent : Derivation .unary us}
    (hbase : base.Carried R E) (hexponent : exponent.Carried R E) :
    (Derivation.raised base exponent).Carried R E := by
  intro ws h
  obtain ⟨_, _, rfl, hts, hus⟩ := hR.before base (by decide) h
  obtain ⟨_, first, rfl, hfirst⟩ := hbase hts
  obtain ⟨_, second, rfl, hsecond⟩ := hexponent hus
  exact ⟨_, .raised first second, rfl, hR.binary .exponent hfirst hsecond⟩

theorem carried_postfixed {base : Derivation .primary ts} {access : Derivation .suffixes us}
    (hbase : base.Carried R E) (haccess : access.Carried R E) :
    (Derivation.postfixed base access).Carried R E := by
  intro ws h
  obtain ⟨_, _, rfl, hts, hus⟩ := hR.goingOn base access rfl h
  obtain ⟨_, whole, rfl, hwhole⟩ := hbase hts
  obtain ⟨_, suffixes, rfl, hsuffixes⟩ := haccess hus
  -- What the base has become may end in access of its own.
  cases whole with
  | postfixed first before =>
    obtain ⟨_, both, rfl, hboth⟩ := exists_suffixes_append before suffixes
    refine ⟨_, .postfixed first both, (List.append_assoc _ _ _).symm, ?_⟩
    simp only [Category.Related, Derivation.value, hboth]
    exact hsuffixes hwhole

theorem carried_suffixes {first : Derivation .suffix ts} {rest : Derivation .suffixes us}
    (hfirst : first.Carried R E) (hrest : rest.Carried R E) :
    (Derivation.suffixes first rest).Carried R E := by
  intro ws h
  obtain ⟨_, _, rfl, hts, hus⟩ := hR.goingOn first rest rfl h
  obtain ⟨_, suffix, rfl, hsuffix⟩ := hfirst hts
  obtain ⟨_, others, rfl, hothers⟩ := hrest hus
  exact ⟨_, .suffixes suffix others, rfl, fun _ _ hleft => hothers (hsuffix hleft)⟩

theorem carried_index {index : Derivation .expression ts} (hindex : index.Carried R E) :
    (Derivation.index index).Carried R E := by
  intro us h
  obtain ⟨_, rfl, hts⟩ := hR.brackets index (by decide) (by decide) h
  obtain ⟨_, inner, rfl, hinner⟩ := hindex hts
  exact ⟨_, .index inner, rfl, fun _ _ hleft => hR.index hleft hinner⟩

theorem carried_slice {start : Derivation .optional ts} {stop : Derivation .optional us}
    (hstart : start.Carried R E) (hstop : stop.Carried R E) :
    (Derivation.slice start stop).Carried R E := by
  intro ws h
  obtain ⟨_, rfl, hafter⟩ := hR.symbol (by decide) h
  obtain ⟨_, _, rfl, hts, hlater⟩ := hR.before start (by decide) hafter
  obtain ⟨_, rfl, hus⟩ := hR.closed stop (by decide) hlater
  obtain ⟨_, first, rfl, hfirst⟩ := hstart hts
  obtain ⟨_, second, rfl, hsecond⟩ := hstop hus
  exact ⟨_, .slice first second, rfl, fun _ _ hleft => hR.slice hleft hfirst hsecond⟩

theorem carried_parentheses {whole : Derivation .expression ts} (hwhole : whole.Carried R E) :
    (Derivation.parentheses whole).Carried R E := by
  intro us h
  obtain ⟨_, rfl, hts⟩ := hR.brackets whole (by decide) (by decide) h
  obtain ⟨_, inner, rfl, hinner⟩ := hwhole hts
  exact carried_of_primary (.parentheses inner) hinner

theorem carried_emptyTuple : Derivation.emptyTuple.Carried R E := by
  intro us h
  obtain ⟨_, rfl, hclose⟩ := hR.symbol (by decide) h
  obtain ⟨_, rfl, hnil⟩ := hR.symbol (by decide) hclose
  rw [hR.nil hnil]
  exact carried_of_primary .emptyTuple (hR.list .nil)

theorem carried_tuple {first : Derivation .expression ts} {rest : Derivation .items us}
    (hfirst : first.Carried R E) (hrest : rest.Carried R E) :
    (Derivation.tuple first rest).Carried R E := by
  intro ws h
  obtain ⟨_, rfl, hafter⟩ := hR.symbol (by decide) h
  obtain ⟨_, _, rfl, hts, hlater⟩ := hR.before first (by decide) hafter
  obtain ⟨_, rfl, hus⟩ := hR.closed rest (by decide) hlater
  obtain ⟨_, item, rfl, hitem⟩ := hfirst hts
  obtain ⟨_, others, rfl, hothers⟩ := hrest hus
  exact carried_of_primary (.tuple item others) (hR.list (.cons hitem hothers))

theorem carried_list {elements : Derivation .items ts} (helements : elements.Carried R E) :
    (Derivation.list elements).Carried R E := by
  intro us h
  obtain ⟨_, rfl, hts⟩ := hR.brackets elements (by decide) (by decide) h
  obtain ⟨_, inner, rfl, hinner⟩ := helements hts
  exact carried_of_primary (.list inner) (hR.list hinner)

theorem carried_object {fields : Derivation .entries ts} (hfields : fields.Carried R E) :
    (Derivation.object fields).Carried R E := by
  intro us h
  obtain ⟨_, rfl, -⟩ := hR.symbol (by decide) h
  -- The entries keep their brace, behind which a name is a key.
  have hdot : Token.endsDotted false (.symbol .leftBrace :: ts) = false := fields.endsDotted
  obtain ⟨_, _, hwhole, hts, hlast⟩ := hR.append hdot rfl h
  obtain ⟨_, rfl, hend⟩ := hR.symbol (by decide) hlast
  obtain ⟨_, rfl, -⟩ := hR.symbol (by decide) hts
  rw [hR.nil hend] at hwhole
  obtain ⟨-, rfl⟩ := List.cons.inj hwhole
  obtain ⟨_, inner, rfl, hinner⟩ := hfields hts
  exact carried_of_primary (.object inner) (hR.object hinner)

theorem carried_case {rs bs es : List Token} {operand : Derivation .optional os}
    {condition : Derivation .expression cs} {result : Derivation .expression rs}
    {rest : Derivation .branches bs} {otherwise : Derivation .otherwise es}
    (hoperand : operand.Carried R E) (hcondition : condition.Carried R E)
    (hresult : result.Carried R E) (hrest : rest.Carried R E) (hotherwise : otherwise.Carried R E) :
    (Derivation.case operand condition result rest otherwise).Carried R E := by
  intro us h
  have hends : Token.opensArguments (es ++ [.symbol .endWord]) = false :=
    opensArguments_append (otherwise.opensArguments rfl) rfl
  have hbranches : Token.opensArguments (bs ++ (es ++ [.symbol .endWord])) = false :=
    opensArguments_append (rest.opensArguments rfl) hends
  obtain ⟨_, rfl, hafter⟩ := hR.symbol (by decide) h
  obtain ⟨_, _, rfl, hos, hlater⟩ := hR.before operand (by decide) hafter
  obtain ⟨_, _, rfl, hcs, hthen⟩ := hR.before condition (by decide) hlater
  obtain ⟨_, _, rfl, hrs, hbranched⟩ := hR.append result.endsDotted hbranches hthen
  obtain ⟨_, _, rfl, hbs, hend⟩ := hR.append rest.endsDotted hends hbranched
  obtain ⟨_, rfl, hes⟩ := hR.closed otherwise (by decide) hend
  obtain ⟨_, subject, rfl, hsubject⟩ := hoperand hos
  obtain ⟨_, first, rfl, hfirst⟩ := hcondition hcs
  obtain ⟨_, second, rfl, hsecond⟩ := hresult hrs
  obtain ⟨_, others, rfl, hothers⟩ := hrest hbs
  obtain ⟨_, last, rfl, hlast⟩ := hotherwise hes
  exact carried_of_primary (.case subject first second others last)
    (hR.case hsubject (.cons ⟨hfirst, hsecond⟩ hothers) hlast)

theorem carried_item {first : Derivation .expression ts} {rest : Derivation .items us}
    (hfirst : first.Carried R E) (hrest : rest.Carried R E) :
    (Derivation.item first rest).Carried R E := by
  intro ws h
  obtain ⟨_, _, rfl, hts, hus⟩ := hR.before first (by decide) h
  obtain ⟨_, item, rfl, hitem⟩ := hfirst hts
  obtain ⟨_, others, rfl, hothers⟩ := hrest hus
  exact ⟨_, .item item others, rfl, .cons hitem hothers⟩

/-- A key that is no bare name does not become one. -/
theorem carried_computedKey (hts : ∀ name, ts ≠ [.identifier name])
    {whole : Derivation .expression ts} (hwhole : whole.Carried R E) :
    (Derivation.computedKey hts whole).Carried R E := by
  intro us h
  have htokens := hR.of_key whole h
  obtain ⟨_, inner, rfl, hinner⟩ := hwhole htokens
  exact ⟨_, .computedKey (fun name hname => hts name (hR.bare (hname ▸ htokens))) inner, rfl, hinner⟩

theorem carried_lastEntry {key : Derivation .key ts} {value : Derivation .expression us}
    (hkey : key.Carried R E) (hvalue : value.Carried R E) :
    (Derivation.lastEntry key value).Carried R E := by
  intro ws h
  obtain ⟨_, _, rfl, hts, hus⟩ := hR.keyed key h
  obtain ⟨_, first, rfl, hfirst⟩ := hkey hts
  obtain ⟨_, second, rfl, hsecond⟩ := hvalue hus
  exact ⟨_, .lastEntry first second, rfl, .cons ⟨hfirst, hsecond⟩ .nil⟩

theorem carried_entry {key : Derivation .key ts} {value : Derivation .expression us}
    {rest : Derivation .entries vs} (hkey : key.Carried R E) (hvalue : value.Carried R E)
    (hrest : rest.Carried R E) : (Derivation.entry key value rest).Carried R E := by
  intro ws h
  obtain ⟨_, _, rfl, hts, hafter⟩ := hR.keyed key h
  obtain ⟨_, _, rfl, hus, hlater⟩ := hR.append value.endsDotted rfl hafter
  obtain ⟨_, rfl, -⟩ := hR.symbol (by decide) hlater
  obtain ⟨_, first, rfl, hfirst⟩ := hkey hts
  obtain ⟨_, second, rfl, hsecond⟩ := hvalue hus
  obtain ⟨_, others, rfl, hothers⟩ := hrest (hR.comma hlater)
  exact ⟨_, .entry first second others, rfl, .cons ⟨hfirst, hsecond⟩ hothers⟩

theorem carried_branch {rs bs : List Token} {condition : Derivation .expression cs}
    {result : Derivation .expression rs} {rest : Derivation .branches bs}
    (hcondition : condition.Carried R E) (hresult : result.Carried R E)
    (hrest : rest.Carried R E) : (Derivation.branch condition result rest).Carried R E := by
  intro us h
  obtain ⟨_, rfl, hafter⟩ := hR.symbol (by decide) h
  obtain ⟨_, _, rfl, hcs, hlater⟩ := hR.before condition (by decide) hafter
  obtain ⟨_, _, rfl, hrs, hbs⟩ := hR.goingOn result rest rfl hlater
  obtain ⟨_, first, rfl, hfirst⟩ := hcondition hcs
  obtain ⟨_, second, rfl, hsecond⟩ := hresult hrs
  obtain ⟨_, others, rfl, hothers⟩ := hrest hbs
  exact ⟨_, .branch first second others, rfl, .cons ⟨hfirst, hsecond⟩ hothers⟩

theorem carried_default {result : Derivation .expression ts} (hresult : result.Carried R E) :
    (Derivation.default result).Carried R E := by
  intro us h
  obtain ⟨_, rfl, hts⟩ := hR.symbol (by decide) h
  obtain ⟨_, inner, rfl, hinner⟩ := hresult hts
  exact ⟨_, .default inner, rfl, .some hinner⟩

end Productions

/-! ### Every phrase -/

/-- Every phrase has a related phrase along with its tokens. -/
theorem Carries.carried (hR : Carries R E) {c : Category} (d : Derivation c ts) : d.Carried R E := by
  induction d with
  | plain _ ih => exact fun us h => (ih h).imp fun _ ⟨other, hother⟩ => ⟨.plain other, hother⟩
  | question _ _ _ ihcondition ihtrue ihfalse => exact carried_question hR ihcondition ihtrue ihfalse
  | choice _ _ _ ihtrue ihcondition ihfalse => exact carried_choice hR ihtrue ihcondition ihfalse
  | layer _ _ ihfirst ihrest => exact carried_layer hR ihfirst ihrest
  | noLinks => exact fun us h => ⟨[], .noLinks, (hR.nil h).symm, fun _ _ hleft => hleft⟩
  | operation _ hos _ _ ihright ihrest => exact carried_operation hR hos ihright ihrest
  | nullTest negated _ ih => exact carried_nullTest hR negated ih
  | tighter hnext _ ih =>
    exact fun us h => (ih h).imp fun _ ⟨other, hother⟩ => ⟨.tighter hnext other, hother⟩
  | negated _ ih => exact fun us h => (ih h).imp fun _ ⟨other, hother⟩ => ⟨.negated other, hother⟩
  | signed _ ih => exact fun us h => (ih h).imp fun _ ⟨other, hother⟩ => ⟨.signed other, hother⟩
  | not _ ih => exact carried_not hR ih
  | comparison _ ih =>
    exact fun us h => (ih h).imp fun _ ⟨other, hother⟩ => ⟨.comparison other, hother⟩
  | sign _ hsign _ ih => exact carried_sign hR hsign ih
  | unsigned _ ih => exact fun us h => (ih h).imp fun _ ⟨other, hother⟩ => ⟨.unsigned other, hother⟩
  | base _ ih => exact fun us h => (ih h).imp fun _ ⟨other, hother⟩ => ⟨.base other, hother⟩
  | raised _ _ ihbase ihexponent => exact carried_raised hR ihbase ihexponent
  | postfixed _ _ ihbase ihaccess => exact carried_postfixed hR ihbase ihaccess
  | noSuffix => exact fun us h => ⟨[], .noSuffix, (hR.nil h).symm, fun _ _ hleft => hleft⟩
  | suffixes _ _ ihfirst ihrest => exact carried_suffixes hR ihfirst ihrest
  | field _ hname => exact hR.field hname
  | method _ hname _ ih => exact hR.method hname ih
  | index _ ih => exact carried_index hR ih
  | slice _ _ ihstart ihstop => exact carried_slice hR ihstart ihstop
  | constant _ hconstant => exact hR.constant hconstant
  | name name => exact hR.name name
  | call name _ ih => exact hR.call name ih
  | parentheses _ ih => exact carried_parentheses hR ih
  | emptyTuple => exact carried_emptyTuple hR
  | tuple _ _ ihfirst ihrest => exact carried_tuple hR ihfirst ihrest
  | list _ ih => exact carried_list hR ih
  | object _ ih => exact carried_object hR ih
  | case _ _ _ _ _ ihoperand ihcondition ihresult ihrest ihotherwise =>
    exact carried_case hR ihoperand ihcondition ihresult ihrest ihotherwise
  | absent => exact fun us h => ⟨[], .absent, (hR.nil h).symm, .none⟩
  | present _ ih =>
    intro us h
    obtain ⟨_, other, hus, hother⟩ := ih h
    exact ⟨_, .present other, hus, .some hother⟩
  | noItems => exact fun us h => ⟨[], .noItems, (hR.nil h).symm, .nil⟩
  | lastItem _ ih =>
    intro us h
    obtain ⟨_, other, hus, hother⟩ := ih h
    exact ⟨_, .lastItem other, hus, .cons hother .nil⟩
  | item _ _ ihfirst ihrest => exact carried_item hR ihfirst ihrest
  | bareKey name => exact hR.bareKey name
  | computedKey hts _ ih => exact carried_computedKey hR hts ih
  | noEntries =>
    intro us h
    obtain ⟨_, hus, hnil⟩ := hR.symbol (by decide) h
    obtain rfl := (List.cons.inj hus).2
    exact ⟨[], .noEntries, (hR.nil hnil).symm, .nil⟩
  | lastEntry _ _ ihkey ihvalue => exact carried_lastEntry hR ihkey ihvalue
  | entry _ _ _ ihkey ihvalue ihrest => exact carried_entry hR ihkey ihvalue ihrest
  | noBranches => exact fun us h => ⟨[], .noBranches, (hR.nil h).symm, .nil⟩
  | branch _ _ _ ihcondition ihresult ihrest => exact carried_branch hR ihcondition ihresult ihrest
  | noDefault => exact fun us h => ⟨[], .noDefault, (hR.nil h).symm, .none⟩
  | default _ ih => exact carried_default hR ih

/-- Tokens related to those of an expression are parsed as a related expression. -/
theorem Spelled.carried (hR : Carries R E) {e : Expr} (h : Spelled ts e)
    (hus : R ts us) : ∃ other, Spelled us other ∧ E e other := by
  obtain ⟨d, rfl⟩ := derivation_of_single h
  obtain ⟨_, other, rfl, hother⟩ := hR.carried d hus
  exact ⟨other.value, single_of_derivation other, hother⟩

end Parser

end StreamQuery
