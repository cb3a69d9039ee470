import StreamQuery.Proofs.Expr.Accepting

/-!
# Tokens have one derivation

What may follow a phrase never goes on with it, so two derivations of the same category in front of
such tokens end at the same place and are equal. With the two directions of reading this makes the
grammar say exactly what the parser finds.
-/

namespace StreamQuery.Parser

/-- What may follow a phrase of a category. -/
def Follows : Category → List Token → Prop
  | .expression, rest => 14 < reach rest
  | .layer level, rest | .links level, rest => level.height < reach rest
  | .operand level, rest => level.height ≤ reach rest
  | .negation, rest => 9 < reach rest
  | .unary, rest | .power, rest => 2 < reach rest
  | .postfixed, rest | .suffixes, rest => 1 < reach rest
  | .suffix, rest | .primary, rest => 0 < reach rest
  | .optional, rest => 14 < reach rest ∧ ¬Opens 2 rest
  | .items, rest => 14 < reach rest ∧ ¬Opens 2 rest ∧ ∀ ts, rest ≠ .symbol .comma :: ts
  | .key, rest => ∃ ts, rest = .symbol .colon :: ts
  | .entries, rest => ∃ ts, rest = .symbol .rightBrace :: ts
  | .branches, rest => 14 < reach rest ∧ ∀ ts, rest ≠ .symbol .whenWord :: ts
  | .otherwise, rest => ∃ ts, rest = .symbol .endWord :: ts

/-- A derivation is the only one of its category in front of tokens that may follow. -/
def Derivation.Only {c : Category} {ts : List Token} (d : Derivation c ts) : Prop :=
  ∀ {us : List Token} (other : Derivation c us) {rest mid : List Token}, Follows c rest →
    Follows c mid → ts ++ rest = us ++ mid → rest = mid ∧ ts = us ∧ HEq d other

theorem Opens.of_append {rank : Nat} {ts rest mid : List Token} (h : Opens rank ts)
    (heq : [] ++ rest = ts ++ mid) : Opens rank rest := by
  rw [List.nil_append] at heq
  exact heq ▸ h.append mid

theorem not_opens {symbol : Symbol} (h : 2 < startRank (.symbol symbol)) (rest : List Token) :
    ¬Opens 2 (.symbol symbol :: rest) :=
  fun hopens => hopens.ne_symbol h rest rfl

theorem constant_unique {token : Token} {value other : Value} (h : Constant token value)
    (hother : Constant token other) : value = other := by
  cases h <;> cases hother <;> rfl

theorem sign_unique {symbol : Symbol} {op other : UnaryOp} (h : Sign symbol op)
    (hother : Sign symbol other) : op = other := by
  cases h <;> cases hother <;> rfl

/-- The operator in front of tokens and the tokens behind it are known. -/
theorem spells_unique {level : Layer} {os ps rest mid : List Token} {op other : BinaryOp}
    (h : Spells level os op) (hother : Spells level ps other) (heq : os ++ rest = ps ++ mid) :
    os = ps ∧ op = other ∧ rest = mid := by
  cases h <;> cases hother <;> simp_all

theorem nullTestTokens_unique {negated other : Bool} {rest mid : List Token}
    (heq : nullTestTokens negated ++ rest = nullTestTokens other ++ mid) :
    negated = other ∧ rest = mid := by
  cases negated <;> cases other <;> simp_all [nullTestTokens]

/-! ### One category at a time -/

section

variable {level : Layer} {ts us vs cs fs rest : List Token}

theorem only_plain {whole : Derivation (.layer .coalesce) ts} (ih : whole.Only) :
    (Derivation.plain whole).Only := by
  intro us other rest mid hrest hmid heq
  cases other with
  | plain other =>
    obtain ⟨hsame, rfl, ⟨⟩⟩ := ih other (Nat.lt_of_succ_lt hrest) (Nat.lt_of_succ_lt hmid) heq
    exact ⟨hsame, rfl, .rfl⟩
  | question condition =>
    rw [List.append_assoc] at heq
    obtain ⟨rfl, -⟩ := ih condition (Nat.lt_of_succ_lt hrest) (lt_reach (by decide) _) heq
    exact absurd hrest (Nat.lt_irrefl 14)
  | choice whenTrue =>
    rw [List.append_assoc] at heq
    obtain ⟨rfl, -⟩ := ih whenTrue (Nat.lt_of_succ_lt hrest) (lt_reach (by decide) _) heq
    exact absurd hrest (Nat.lt_irrefl 14)

theorem only_question {condition : Derivation (.layer .coalesce) cs}
    {whenTrue : Derivation .expression ts} {whenFalse : Derivation .expression fs}
    (ihcondition : condition.Only) (ihtrue : whenTrue.Only) (ihfalse : whenFalse.Only) :
    (Derivation.question condition whenTrue whenFalse).Only := by
  intro us other rest mid hrest hmid heq
  have hsymbol := @lt_reach 13 .question (by decide)
  cases other with
  | plain other =>
    rw [List.append_assoc] at heq
    obtain ⟨rfl, -⟩ := ihcondition other (hsymbol _) (Nat.lt_of_succ_lt hmid) heq
    exact absurd hmid (Nat.lt_irrefl 14)
  | question condition' whenTrue' whenFalse' =>
    simp only [List.append_assoc, List.cons_append] at heq
    obtain ⟨hsame, rfl, ⟨⟩⟩ := ihcondition condition' (hsymbol _) (hsymbol _) heq
    obtain ⟨hafter, rfl, ⟨⟩⟩ := ihtrue whenTrue' (lt_reach (by decide) _) (lt_reach (by decide) _)
      (List.cons.inj hsame).2
    obtain ⟨hlast, rfl, ⟨⟩⟩ := ihfalse whenFalse' hrest hmid (List.cons.inj hafter).2
    exact ⟨hlast, rfl, .rfl⟩
  | choice whenTrue' =>
    simp only [List.append_assoc, List.cons_append] at heq
    obtain ⟨hsame, -⟩ := ihcondition whenTrue' (hsymbol _) (lt_reach (by decide) _) heq
    cases hsame

theorem only_choice {condition : Derivation (.layer .coalesce) cs}
    {whenTrue : Derivation (.layer .coalesce) ts} {whenFalse : Derivation .expression fs}
    (ihtrue : whenTrue.Only) (ihcondition : condition.Only) (ihfalse : whenFalse.Only) :
    (Derivation.choice whenTrue condition whenFalse).Only := by
  intro us other rest mid hrest hmid heq
  have hsymbol := @lt_reach 13 .ifWord (by decide)
  cases other with
  | plain other =>
    rw [List.append_assoc] at heq
    obtain ⟨rfl, -⟩ := ihtrue other (hsymbol _) (Nat.lt_of_succ_lt hmid) heq
    exact absurd hmid (Nat.lt_irrefl 14)
  | question condition' =>
    simp only [List.append_assoc, List.cons_append] at heq
    obtain ⟨hsame, -⟩ := ihtrue condition' (hsymbol _) (lt_reach (by decide) _) heq
    cases hsame
  | choice whenTrue' condition' whenFalse' =>
    simp only [List.append_assoc, List.cons_append] at heq
    obtain ⟨hsame, rfl, ⟨⟩⟩ := ihtrue whenTrue' (hsymbol _) (hsymbol _) heq
    obtain ⟨hafter, rfl, ⟨⟩⟩ := ihcondition condition' (lt_reach (by decide) _)
      (lt_reach (by decide) _) (List.cons.inj hsame).2
    obtain ⟨hlast, rfl, ⟨⟩⟩ := ihfalse whenFalse' hrest hmid (List.cons.inj hafter).2
    exact ⟨hlast, rfl, .rfl⟩

theorem only_layer {first : Derivation (.operand level) ts} {links : Derivation (.links level) us}
    (ihfirst : first.Only) (ihlinks : links.Only) : (Derivation.layer first links).Only := by
  intro _ other rest mid hrest hmid heq
  cases other with
  | layer first' links' =>
    rw [List.append_assoc, List.append_assoc] at heq
    obtain ⟨hsame, rfl, ⟨⟩⟩ :=
      ihfirst first' (links.reads rest hrest).1 (links'.reads mid hmid).1 heq
    obtain ⟨hafter, rfl, ⟨⟩⟩ := ihlinks links' hrest hmid hsame
    exact ⟨hafter, rfl, .rfl⟩

theorem only_noLinks : (@Derivation.noLinks level).Only := by
  intro _ other rest mid hrest hmid heq
  cases other with
  | noLinks => exact ⟨heq, rfl, .rfl⟩
  | operation op h right links =>
    rw [List.nil_append, List.append_assoc] at heq
    subst heq
    exact absurd hrest (Nat.not_lt_of_le (Nat.le_of_eq (reach_of_spells h _)))
  | nullTest negated links =>
    rw [List.nil_append, List.append_assoc] at heq
    subst heq
    exact absurd hrest (Nat.not_lt_of_le (Nat.le_of_eq (reach_nullTestTokens negated _)))

theorem only_operation {op : BinaryOp} {os : List Token} (h : Spells level os op)
    {right : Derivation (.operand level) ts} {links : Derivation (.links level) us}
    (ihright : right.Only) (ihlinks : links.Only) :
    (Derivation.operation op h right links).Only := by
  intro _ other rest mid hrest hmid heq
  simp only [List.append_assoc] at heq
  cases other with
  | noLinks =>
    rw [List.nil_append] at heq
    subst heq
    exact absurd hmid (Nat.not_lt_of_le (Nat.le_of_eq (reach_of_spells h _)))
  | operation op' h' right' links' =>
    simp only [List.append_assoc] at heq
    obtain ⟨rfl, rfl, hsame⟩ := spells_unique h h' heq
    obtain ⟨hafter, rfl, ⟨⟩⟩ :=
      ihright right' (links.reads rest hrest).1 (links'.reads mid hmid).1 hsame
    obtain ⟨hlast, rfl, ⟨⟩⟩ := ihlinks links' hrest hmid hafter
    exact ⟨hlast, rfl, .rfl⟩
  | nullTest negated links' =>
    cases h <;> cases negated <;> cases heq

theorem only_nullTest {negated : Bool} {links : Derivation (.links .comparison) us}
    (ih : links.Only) : (Derivation.nullTest negated links).Only := by
  intro _ other rest mid hrest hmid heq
  rw [List.append_assoc] at heq
  cases other with
  | noLinks =>
    rw [List.nil_append] at heq
    subst heq
    exact absurd hmid (Nat.not_lt_of_le (Nat.le_of_eq (reach_nullTestTokens negated _)))
  | operation op h right links' =>
    cases h <;> cases negated <;> cases heq
  | nullTest negated' links' =>
    rw [List.append_assoc] at heq
    obtain ⟨rfl, hsame⟩ := nullTestTokens_unique heq
    obtain ⟨hafter, rfl, ⟨⟩⟩ := ih links' hrest hmid hsame
    exact ⟨hafter, rfl, .rfl⟩

theorem only_tighter {next : Layer} (hnext : level.tighter? = some next)
    {whole : Derivation (.layer next) ts} (ih : whole.Only) :
    (Derivation.tighter hnext whole).Only := by
  intro _ other rest mid hrest hmid heq
  have hlower : next.height < level.height := by cases level <;> cases hnext <;> decide
  cases other with
  | tighter hnext' whole' =>
    obtain rfl := Option.some.inj (hnext.symm.trans hnext')
    obtain ⟨hsame, rfl, ⟨⟩⟩ :=
      ih whole' (Nat.lt_of_lt_of_le hlower hrest) (Nat.lt_of_lt_of_le hlower hmid) heq
    exact ⟨hsame, rfl, .rfl⟩
  | negated | signed => cases hnext

theorem only_negated {whole : Derivation .negation ts} (ih : whole.Only) :
    (Derivation.negated whole).Only := by
  intro _ other rest mid hrest hmid heq
  cases other with
  | tighter hnext => cases hnext
  | negated whole' =>
    obtain ⟨hsame, rfl, ⟨⟩⟩ :=
      ih whole' (Nat.lt_of_lt_of_le (by decide) hrest) (Nat.lt_of_lt_of_le (by decide) hmid) heq
    exact ⟨hsame, rfl, .rfl⟩

theorem only_signed {whole : Derivation .unary ts} (ih : whole.Only) :
    (Derivation.signed whole).Only := by
  intro _ other rest mid hrest hmid heq
  cases other with
  | tighter hnext => cases hnext
  | signed whole' =>
    obtain ⟨hsame, rfl, ⟨⟩⟩ := ih whole' hrest hmid heq
    exact ⟨hsame, rfl, .rfl⟩

theorem only_not {operand : Derivation .negation ts} (ih : operand.Only) :
    (Derivation.not operand).Only := by
  intro _ other rest mid hrest hmid heq
  cases other with
  | not operand' =>
    obtain ⟨hsame, rfl, ⟨⟩⟩ := ih operand' hrest hmid (List.cons.inj heq).2
    exact ⟨hsame, rfl, .rfl⟩
  | comparison whole =>
    exact absurd heq.symm (((whole.opens 1 rfl).append mid).ne_symbol (by decide) _)

theorem only_comparison {whole : Derivation (.layer .comparison) ts} (ih : whole.Only) :
    (Derivation.comparison whole).Only := by
  intro _ other rest mid hrest hmid heq
  cases other with
  | not operand => exact absurd heq (((whole.opens 1 rfl).append rest).ne_symbol (by decide) _)
  | comparison whole' =>
    obtain ⟨hsame, rfl, ⟨⟩⟩ := ih whole' hrest hmid heq
    exact ⟨hsame, rfl, .rfl⟩

theorem startRank_sign {symbol : Symbol} {op : UnaryOp} (h : Sign symbol op) :
    0 < startRank (.symbol symbol) := by
  cases h <;> decide

theorem only_sign {symbol : Symbol} {op : UnaryOp} (h : Sign symbol op)
    {operand : Derivation .unary ts} (ih : operand.Only) :
    (Derivation.sign op h operand).Only := by
  intro _ other rest mid hrest hmid heq
  cases other with
  | sign op' h' operand' =>
    obtain ⟨hsymbol, hsame⟩ := List.cons.inj heq
    cases hsymbol
    obtain rfl := sign_unique h h'
    obtain ⟨hafter, rfl, ⟨⟩⟩ := ih operand' hrest hmid hsame
    exact ⟨hafter, rfl, .rfl⟩
  | unsigned whole =>
    exact absurd heq.symm (((whole.opens 0 rfl).append mid).ne_symbol (startRank_sign h) _)

theorem only_unsigned {whole : Derivation .power ts} (ih : whole.Only) :
    (Derivation.unsigned whole).Only := by
  intro _ other rest mid hrest hmid heq
  cases other with
  | sign op h operand =>
    exact absurd heq (((whole.opens 0 rfl).append rest).ne_symbol (startRank_sign h) _)
  | unsigned whole' =>
    obtain ⟨hsame, rfl, ⟨⟩⟩ := ih whole' hrest hmid heq
    exact ⟨hsame, rfl, .rfl⟩

theorem only_base {whole : Derivation .postfixed ts} (ih : whole.Only) :
    (Derivation.base whole).Only := by
  intro _ other rest mid hrest hmid heq
  cases other with
  | base whole' =>
    obtain ⟨hsame, rfl, ⟨⟩⟩ := ih whole' (Nat.lt_of_succ_lt hrest) (Nat.lt_of_succ_lt hmid) heq
    exact ⟨hsame, rfl, .rfl⟩
  | raised base =>
    rw [List.append_assoc] at heq
    obtain ⟨rfl, -⟩ := ih base (Nat.lt_of_succ_lt hrest) (lt_reach (by decide) _) heq
    exact absurd hrest (Nat.lt_irrefl 2)

theorem only_raised {base : Derivation .postfixed ts} {exponent : Derivation .unary us}
    (ihbase : base.Only) (ihexponent : exponent.Only) : (Derivation.raised base exponent).Only := by
  intro _ other rest mid hrest hmid heq
  rw [List.append_assoc, List.cons_append] at heq
  cases other with
  | base whole =>
    obtain ⟨rfl, -⟩ := ihbase whole (lt_reach (by decide) _) (Nat.lt_of_succ_lt hmid) heq
    exact absurd hmid (Nat.lt_irrefl 2)
  | raised base' exponent' =>
    rw [List.append_assoc, List.cons_append] at heq
    obtain ⟨hsame, rfl, ⟨⟩⟩ :=
      ihbase base' (lt_reach (by decide) _) (lt_reach (by decide) _) heq
    obtain ⟨hafter, rfl, ⟨⟩⟩ := ihexponent exponent' hrest hmid (List.cons.inj hsame).2
    exact ⟨hafter, rfl, .rfl⟩

theorem only_postfixed {base : Derivation .primary ts} {access : Derivation .suffixes us}
    (ihbase : base.Only) (ihaccess : access.Only) : (Derivation.postfixed base access).Only := by
  intro _ other rest mid hrest hmid heq
  cases other with
  | postfixed base' access' =>
    rw [List.append_assoc, List.append_assoc] at heq
    obtain ⟨hsame, rfl, ⟨⟩⟩ :=
      ihbase base' (access.reads rest hrest).1 (access'.reads mid hmid).1 heq
    obtain ⟨hafter, rfl, ⟨⟩⟩ := ihaccess access' hrest hmid hsame
    exact ⟨hafter, rfl, .rfl⟩

theorem follows_close {close : Symbol} (h : close ∈ [Symbol.rightParen, .rightBracket])
    (rest : List Token) : Follows .items (.symbol close :: rest) := by
  obtain ⟨hbegin, hreach, hcomma⟩ := closing h
  exact ⟨lt_reach hreach rest, not_opens hbegin rest, fun us heq => hcomma (by cases heq; rfl)⟩

theorem only_noSuffix : Derivation.noSuffix.Only := by
  intro _ other rest mid hrest hmid heq
  cases other with
  | noSuffix => exact ⟨heq, rfl, .rfl⟩
  | suffixes first others =>
    rw [List.nil_append, List.append_assoc] at heq
    subst heq
    cases first <;> exact absurd hrest (Nat.lt_irrefl 1)

theorem only_suffixes {first : Derivation .suffix ts} {others : Derivation .suffixes us}
    (ihfirst : first.Only) (ihothers : others.Only) : (Derivation.suffixes first others).Only := by
  intro _ other rest mid hrest hmid heq
  rw [List.append_assoc] at heq
  cases other with
  | noSuffix =>
    rw [List.nil_append] at heq
    subst heq
    cases first <;> exact absurd hmid (Nat.lt_irrefl 1)
  | suffixes first' others' =>
    rw [List.append_assoc] at heq
    obtain ⟨hsame, rfl, ⟨⟩⟩ :=
      ihfirst first' (others.reads rest hrest).1 (others'.reads mid hmid).1 heq
    obtain ⟨hafter, rfl, ⟨⟩⟩ := ihothers others' hrest hmid hsame
    exact ⟨hafter, rfl, .rfl⟩

theorem only_field {token : Token} {name : String} (h : fieldName? token = some name) :
    (Derivation.field name h).Only := by
  intro _ other rest mid hrest hmid heq
  cases other with
  | field name' h' =>
    cases heq
    obtain rfl := Option.some.inj (h.symm.trans h')
    exact ⟨rfl, rfl, .rfl⟩
  | method name' h' arguments =>
    cases heq
    exact absurd hrest (Nat.lt_irrefl 0)
  | index | slice => cases heq

theorem only_method {token : Token} {name : String} (h : fieldName? token = some name)
    {arguments : Derivation .items ts} (ih : arguments.Only) :
    (Derivation.method name h arguments).Only := by
  intro _ other rest mid hrest hmid heq
  simp only [List.cons_append, List.append_assoc, List.nil_append] at heq
  cases other with
  | field name' h' =>
    cases heq
    exact absurd hmid (Nat.lt_irrefl 0)
  | method name' h' arguments' =>
    simp only [List.cons_append, List.append_assoc, List.nil_append, List.cons.injEq,
      true_and] at heq
    obtain ⟨rfl, heq⟩ := heq
    obtain rfl := Option.some.inj (h.symm.trans h')
    obtain ⟨hsame, rfl, ⟨⟩⟩ :=
      ih arguments' (follows_close (by simp) _) (follows_close (by simp) _) heq
    exact ⟨(List.cons.inj hsame).2, rfl, .rfl⟩
  | index | slice => cases heq

theorem only_index {index : Derivation .expression ts} (ih : index.Only) :
    (Derivation.index index).Only := by
  intro _ other rest mid hrest hmid heq
  simp only [List.cons_append, List.append_assoc, List.nil_append] at heq
  cases other with
  | field | method => cases heq
  | index index' =>
    simp only [List.cons_append, List.append_assoc, List.nil_append, List.cons.injEq,
      true_and] at heq
    obtain ⟨hsame, rfl, ⟨⟩⟩ := ih index' (lt_reach (by decide) _) (lt_reach (by decide) _) heq
    exact ⟨(List.cons.inj hsame).2, rfl, .rfl⟩
  | slice start stop =>
    simp only [List.cons_append, List.append_assoc, List.nil_append, List.cons.injEq,
      true_and] at heq
    cases start with
    | absent => exact absurd heq (((index.opens 2 rfl).append _).ne_symbol (by decide) _)
    | present start =>
      obtain ⟨hsame, -⟩ := ih start (lt_reach (by decide) _) (lt_reach (by decide) _) heq
      cases hsame

theorem follows_optional {symbol : Symbol} (hreach : 14 < Symbol.reach symbol)
    (hbegin : 2 < startRank (.symbol symbol)) (rest : List Token) :
    Follows .optional (.symbol symbol :: rest) :=
  ⟨lt_reach hreach rest, not_opens hbegin rest⟩

theorem only_slice {start : Derivation .optional ts} {stop : Derivation .optional us}
    (ihstart : start.Only) (ihstop : stop.Only) : (Derivation.slice start stop).Only := by
  intro _ other rest mid hrest hmid heq
  simp only [List.cons_append, List.append_assoc, List.nil_append] at heq
  cases other with
  | field | method => cases heq
  | index index' =>
    simp only [List.cons_append, List.append_assoc, List.nil_append, List.cons.injEq,
      true_and] at heq
    obtain ⟨hsame, -⟩ := ihstart (.present index') (follows_optional (by decide) (by decide) _)
      (follows_optional (by decide) (by decide) _) heq
    cases hsame
  | slice start' stop' =>
    simp only [List.cons_append, List.append_assoc, List.nil_append, List.cons.injEq,
      true_and] at heq
    obtain ⟨hsame, rfl, ⟨⟩⟩ := ihstart start' (follows_optional (by decide) (by decide) _)
      (follows_optional (by decide) (by decide) _) heq
    obtain ⟨hafter, rfl, ⟨⟩⟩ := ihstop stop' (follows_optional (by decide) (by decide) _)
      (follows_optional (by decide) (by decide) _) (List.cons.inj hsame).2
    exact ⟨(List.cons.inj hafter).2, rfl, .rfl⟩

theorem only_constant {token : Token} {value : Value} (h : Constant token value) :
    (Derivation.constant value h).Only := by
  intro _ other rest mid hrest hmid heq
  cases other with
  | constant value' h' =>
    cases heq
    obtain rfl := constant_unique h h'
    exact ⟨rfl, rfl, .rfl⟩
  | _ =>
    cases heq
    cases h

theorem only_name (name : String) : (Derivation.name name).Only := by
  intro _ other rest mid hrest hmid heq
  cases other with
  | name =>
    cases heq
    exact ⟨rfl, rfl, .rfl⟩
  | constant value h =>
    cases heq
    cases h
  | call =>
    cases heq
    exact absurd hrest (Nat.lt_irrefl 0)
  | _ => cases heq

theorem only_call (name : String) {arguments : Derivation .items ts} (ih : arguments.Only) :
    (Derivation.call name arguments).Only := by
  intro _ other rest mid hrest hmid heq
  simp only [List.cons_append, List.append_assoc, List.nil_append] at heq
  cases other with
  | name =>
    cases heq
    exact absurd hmid (Nat.lt_irrefl 0)
  | constant value h =>
    cases heq
    cases h
  | call name' arguments' =>
    simp only [List.cons_append, List.append_assoc, List.nil_append, List.cons.injEq,
      true_and, Token.identifier.injEq] at heq
    obtain ⟨rfl, heq⟩ := heq
    obtain ⟨hsame, rfl, ⟨⟩⟩ :=
      ih arguments' (follows_close (by simp) _) (follows_close (by simp) _) heq
    exact ⟨(List.cons.inj hsame).2, rfl, .rfl⟩
  | _ => cases heq

theorem only_parentheses {whole : Derivation .expression ts} (ih : whole.Only) :
    (Derivation.parentheses whole).Only := by
  intro _ other rest mid hrest hmid heq
  simp only [List.cons_append, List.append_assoc, List.nil_append] at heq
  cases other with
  | constant value h =>
    cases heq
    cases h
  | parentheses whole' =>
    simp only [List.cons_append, List.append_assoc, List.nil_append, List.cons.injEq,
      true_and] at heq
    obtain ⟨hsame, rfl, ⟨⟩⟩ := ih whole' (lt_reach (by decide) _) (lt_reach (by decide) _) heq
    exact ⟨(List.cons.inj hsame).2, rfl, .rfl⟩
  | emptyTuple =>
    exact absurd (List.cons.inj heq).2 (((whole.opens 2 rfl).append _).ne_symbol (by decide) _)
  | tuple first others =>
    simp only [List.cons_append, List.append_assoc, List.nil_append, List.cons.injEq,
      true_and] at heq
    obtain ⟨hsame, -⟩ := ih first (lt_reach (by decide) _) (lt_reach (by decide) _) heq
    cases hsame
  | _ => cases heq

theorem only_emptyTuple : Derivation.emptyTuple.Only := by
  intro _ other rest mid hrest hmid heq
  cases other with
  | constant value h =>
    cases heq
    cases h
  | parentheses whole =>
    simp only [List.cons_append, List.append_assoc, List.nil_append, List.cons.injEq,
      true_and] at heq
    exact absurd heq.symm (((whole.opens 2 rfl).append _).ne_symbol (by decide) _)
  | emptyTuple =>
    cases heq
    exact ⟨rfl, rfl, .rfl⟩
  | tuple first others =>
    simp only [List.cons_append, List.append_assoc, List.nil_append, List.cons.injEq,
      true_and] at heq
    exact absurd heq.symm (((first.opens 2 rfl).append _).ne_symbol (by decide) _)
  | _ => cases heq

theorem only_tuple {first : Derivation .expression ts} {others : Derivation .items us}
    (ihfirst : first.Only) (ihothers : others.Only) : (Derivation.tuple first others).Only := by
  intro _ other rest mid hrest hmid heq
  simp only [List.cons_append, List.append_assoc, List.nil_append] at heq
  cases other with
  | constant value h =>
    cases heq
    cases h
  | parentheses whole =>
    simp only [List.cons_append, List.append_assoc, List.nil_append, List.cons.injEq,
      true_and] at heq
    obtain ⟨hsame, -⟩ := ihfirst whole (lt_reach (by decide) _) (lt_reach (by decide) _) heq
    cases hsame
  | emptyTuple =>
    exact absurd (List.cons.inj heq).2 (((first.opens 2 rfl).append _).ne_symbol (by decide) _)
  | tuple first' others' =>
    simp only [List.cons_append, List.append_assoc, List.nil_append, List.cons.injEq,
      true_and] at heq
    obtain ⟨hsame, rfl, ⟨⟩⟩ := ihfirst first' (lt_reach (by decide) _) (lt_reach (by decide) _) heq
    obtain ⟨hafter, rfl, ⟨⟩⟩ := ihothers others' (follows_close (by simp) _)
      (follows_close (by simp) _) (List.cons.inj hsame).2
    exact ⟨(List.cons.inj hafter).2, rfl, .rfl⟩
  | _ => cases heq

theorem only_list {elements : Derivation .items ts} (ih : elements.Only) :
    (Derivation.list elements).Only := by
  intro _ other rest mid hrest hmid heq
  simp only [List.cons_append, List.append_assoc, List.nil_append] at heq
  cases other with
  | constant value h =>
    cases heq
    cases h
  | list elements' =>
    simp only [List.cons_append, List.append_assoc, List.nil_append, List.cons.injEq,
      true_and] at heq
    obtain ⟨hsame, rfl, ⟨⟩⟩ :=
      ih elements' (follows_close (by simp) _) (follows_close (by simp) _) heq
    exact ⟨(List.cons.inj hsame).2, rfl, .rfl⟩
  | _ => cases heq

theorem only_object {fields : Derivation .entries ts} (ih : fields.Only) :
    (Derivation.object fields).Only := by
  intro _ other rest mid hrest hmid heq
  simp only [List.cons_append, List.append_assoc, List.nil_append] at heq
  cases other with
  | constant value h =>
    cases heq
    cases h
  | object fields' =>
    simp only [List.cons_append, List.append_assoc, List.nil_append, List.cons.injEq,
      true_and] at heq
    obtain ⟨hsame, rfl, ⟨⟩⟩ := ih fields' ⟨_, rfl⟩ ⟨_, rfl⟩ heq
    exact ⟨(List.cons.inj hsame).2, rfl, .rfl⟩
  | _ => cases heq

/-- The branches and the default of a case expression follow each other. -/
theorem follows_otherwise {bs es : List Token} (others : Derivation .branches bs)
    (otherwise : Derivation .otherwise es) (rest : List Token) :
    Follows .branches (es ++ .symbol .endWord :: rest) ∧
      14 < reach (bs ++ (es ++ .symbol .endWord :: rest)) := by
  have hend : Follows .branches (es ++ .symbol .endWord :: rest) := by
    cases otherwise with
    | noDefault => exact ⟨lt_reach (by decide) _, by simp⟩
    | default => exact ⟨lt_reach (by decide) _, by simp⟩
  exact ⟨hend, (others.reads _ hend.1 hend.2).1⟩

theorem only_case {os rs bs es : List Token} {operand : Derivation .optional os}
    {condition : Derivation .expression cs} {result : Derivation .expression rs}
    {others : Derivation .branches bs} {otherwise : Derivation .otherwise es}
    (ihoperand : operand.Only) (ihcondition : condition.Only) (ihresult : result.Only)
    (ihothers : others.Only) (ihotherwise : otherwise.Only) :
    (Derivation.case operand condition result others otherwise).Only := by
  intro _ other rest mid hrest hmid heq
  simp only [List.cons_append, List.append_assoc, List.nil_append] at heq
  cases other with
  | constant value h =>
    cases heq
    cases h
  | case operand' condition' result' others' otherwise' =>
    simp only [List.cons_append, List.append_assoc, List.nil_append, List.cons.injEq,
      true_and] at heq
    obtain ⟨hoperand, rfl, ⟨⟩⟩ := ihoperand operand' (follows_optional (by decide) (by decide) _)
      (follows_optional (by decide) (by decide) _) heq
    obtain ⟨hcondition, rfl, ⟨⟩⟩ := ihcondition condition' (lt_reach (by decide) _)
      (lt_reach (by decide) _) (List.cons.inj hoperand).2
    obtain ⟨hend, hothers⟩ := follows_otherwise others otherwise rest
    obtain ⟨hend', hothers'⟩ := follows_otherwise others' otherwise' mid
    obtain ⟨hresult, rfl, ⟨⟩⟩ := ihresult result' hothers hothers' (List.cons.inj hcondition).2
    obtain ⟨hbranches, rfl, ⟨⟩⟩ := ihothers others' hend hend' hresult
    obtain ⟨hlast, rfl, ⟨⟩⟩ := ihotherwise otherwise' ⟨_, rfl⟩ ⟨_, rfl⟩ hbranches
    exact ⟨(List.cons.inj hlast).2, rfl, .rfl⟩
  | _ => cases heq

theorem only_absent : Derivation.absent.Only := by
  intro _ other rest mid hrest hmid heq
  cases other with
  | absent => exact ⟨heq, rfl, .rfl⟩
  | present whole => exact absurd ((whole.opens 2 rfl).of_append heq) hrest.2

theorem only_present {whole : Derivation .expression ts} (ih : whole.Only) :
    (Derivation.present whole).Only := by
  intro _ other rest mid hrest hmid heq
  cases other with
  | absent => exact absurd ((whole.opens 2 rfl).of_append heq.symm) hmid.2
  | present whole' =>
    obtain ⟨hsame, rfl, ⟨⟩⟩ := ih whole' hrest.1 hmid.1 heq
    exact ⟨hsame, rfl, .rfl⟩

theorem only_noItems : Derivation.noItems.Only := by
  intro _ other rest mid hrest hmid heq
  cases other with
  | noItems => exact ⟨heq, rfl, .rfl⟩
  | lastItem last => exact absurd ((last.opens 2 rfl).of_append heq) hrest.2.1
  | item first others => exact absurd (((first.opens 2 rfl).append _).of_append heq) hrest.2.1

theorem only_lastItem {last : Derivation .expression ts} (ih : last.Only) :
    (Derivation.lastItem last).Only := by
  intro _ other rest mid hrest hmid heq
  cases other with
  | noItems => exact absurd ((last.opens 2 rfl).of_append heq.symm) hmid.2.1
  | lastItem last' =>
    obtain ⟨hsame, rfl, ⟨⟩⟩ := ih last' hrest.1 hmid.1 heq
    exact ⟨hsame, rfl, .rfl⟩
  | item first others =>
    rw [List.append_assoc, List.cons_append] at heq
    obtain ⟨hsame, -⟩ := ih first hrest.1 (lt_reach (by decide) _) heq
    exact absurd hsame (hrest.2.2 _)

theorem only_item {first : Derivation .expression ts} {others : Derivation .items us}
    (ihfirst : first.Only) (ihothers : others.Only) : (Derivation.item first others).Only := by
  intro _ other rest mid hrest hmid heq
  rw [List.append_assoc, List.cons_append] at heq
  cases other with
  | noItems => exact absurd ((first.opens 2 rfl).of_append heq.symm) hmid.2.1
  | lastItem last =>
    obtain ⟨hsame, -⟩ := ihfirst last (lt_reach (by decide) _) hmid.1 heq
    exact absurd hsame.symm (hmid.2.2 _)
  | item first' others' =>
    rw [List.append_assoc, List.cons_append] at heq
    obtain ⟨hsame, rfl, ⟨⟩⟩ :=
      ihfirst first' (lt_reach (by decide) _) (lt_reach (by decide) _) heq
    obtain ⟨hafter, rfl, ⟨⟩⟩ := ihothers others' hrest hmid (List.cons.inj hsame).2
    exact ⟨hafter, rfl, .rfl⟩

theorem only_bareKey (name : String) : (Derivation.bareKey name).Only := by
  rintro _ other rest mid ⟨us, rfl⟩ ⟨vs, rfl⟩ heq
  cases other with
  | bareKey =>
    cases heq
    exact ⟨rfl, rfl, .rfl⟩
  | computedKey h whole =>
    have hfinds := whole.reads (.symbol .colon :: vs) (lt_reach (by decide) vs)
    obtain ⟨-, hsame⟩ := (finds_name_colon name us).unique (heq ▸ hfinds)
    rw [hsame] at heq
    exact absurd (List.append_cancel_right heq).symm (h name)

theorem only_computedKey (h : ∀ name, ts ≠ [.identifier name])
    {whole : Derivation .expression ts} (ih : whole.Only) :
    (Derivation.computedKey h whole).Only := by
  rintro _ other rest mid ⟨us, rfl⟩ ⟨vs, rfl⟩ heq
  cases other with
  | bareKey name =>
    have hfinds := whole.reads (.symbol .colon :: us) (lt_reach (by decide) us)
    obtain ⟨-, hsame⟩ := (finds_name_colon name vs).unique (heq ▸ hfinds)
    rw [hsame] at heq
    exact absurd (List.append_cancel_right heq) (h name)
  | computedKey h' whole' =>
    obtain ⟨hsame, rfl, ⟨⟩⟩ := ih whole' (lt_reach (by decide) us) (lt_reach (by decide) vs) heq
    exact ⟨hsame, rfl, .rfl⟩

theorem only_noEntries : Derivation.noEntries.Only := by
  rintro _ other rest mid ⟨us, rfl⟩ ⟨vs, rfl⟩ heq
  cases other with
  | noEntries => exact ⟨heq, rfl, .rfl⟩
  | lastEntry key | entry key =>
    exact absurd heq.symm ((((key.opens 2 rfl).append _).append _).ne_symbol (by decide) _)

theorem only_lastEntry {key : Derivation .key ts} {value : Derivation .expression us}
    (ihkey : key.Only) (ihvalue : value.Only) : (Derivation.lastEntry key value).Only := by
  rintro _ other rest mid ⟨vs, rfl⟩ ⟨ws, rfl⟩ heq
  rw [List.append_assoc, List.cons_append] at heq
  cases other with
  | noEntries => exact absurd heq (((key.opens 2 rfl).append _).ne_symbol (by decide) _)
  | lastEntry key' value' =>
    rw [List.append_assoc, List.cons_append] at heq
    obtain ⟨hsame, rfl, ⟨⟩⟩ := ihkey key' ⟨_, rfl⟩ ⟨_, rfl⟩ heq
    obtain ⟨hafter, rfl, ⟨⟩⟩ := ihvalue value' (lt_reach (by decide) _) (lt_reach (by decide) _)
      (List.cons.inj hsame).2
    exact ⟨hafter, rfl, .rfl⟩
  | entry key' value' others' =>
    simp only [List.append_assoc, List.cons_append] at heq
    obtain ⟨hsame, rfl, ⟨⟩⟩ := ihkey key' ⟨_, rfl⟩ ⟨_, rfl⟩ heq
    obtain ⟨hafter, -⟩ := ihvalue value' (lt_reach (by decide) _) (lt_reach (by decide) _)
      (List.cons.inj hsame).2
    cases hafter

theorem only_entry {key : Derivation .key ts} {value : Derivation .expression us}
    {others : Derivation .entries vs} (ihkey : key.Only) (ihvalue : value.Only)
    (ihothers : others.Only) : (Derivation.entry key value others).Only := by
  rintro _ other _ _ ⟨rest, rfl⟩ ⟨mid, rfl⟩ heq
  simp only [List.append_assoc, List.cons_append] at heq
  cases other with
  | noEntries => exact absurd heq (((key.opens 2 rfl).append _).ne_symbol (by decide) _)
  | lastEntry key' value' =>
    rw [List.append_assoc, List.cons_append] at heq
    obtain ⟨hsame, rfl, ⟨⟩⟩ := ihkey key' ⟨_, rfl⟩ ⟨_, rfl⟩ heq
    obtain ⟨hafter, -⟩ := ihvalue value' (lt_reach (by decide) _) (lt_reach (by decide) _)
      (List.cons.inj hsame).2
    cases hafter
  | entry key' value' others' =>
    simp only [List.append_assoc, List.cons_append] at heq
    obtain ⟨hsame, rfl, ⟨⟩⟩ := ihkey key' ⟨_, rfl⟩ ⟨_, rfl⟩ heq
    obtain ⟨hafter, rfl, ⟨⟩⟩ := ihvalue value' (lt_reach (by decide) _) (lt_reach (by decide) _)
      (List.cons.inj hsame).2
    obtain ⟨hlast, rfl, ⟨⟩⟩ := ihothers others' ⟨_, rfl⟩ ⟨_, rfl⟩ (List.cons.inj hafter).2
    exact ⟨hlast, rfl, .rfl⟩

theorem only_noBranches : Derivation.noBranches.Only := by
  intro _ other rest mid hrest hmid heq
  cases other with
  | noBranches => exact ⟨heq, rfl, .rfl⟩
  | branch => exact absurd heq (hrest.2 _)

theorem only_branch {rs bs : List Token} {condition : Derivation .expression cs}
    {result : Derivation .expression rs} {others : Derivation .branches bs}
    (ihcondition : condition.Only) (ihresult : result.Only) (ihothers : others.Only) :
    (Derivation.branch condition result others).Only := by
  intro _ other rest mid hrest hmid heq
  cases other with
  | noBranches => exact absurd heq.symm (hmid.2 _)
  | branch condition' result' others' =>
    simp only [List.cons_append, List.append_assoc, List.cons.injEq, true_and] at heq
    obtain ⟨hsame, rfl, ⟨⟩⟩ :=
      ihcondition condition' (lt_reach (by decide) _) (lt_reach (by decide) _) heq
    obtain ⟨hafter, rfl, ⟨⟩⟩ := ihresult result' (others.reads rest hrest.1 hrest.2).1
      (others'.reads mid hmid.1 hmid.2).1 (List.cons.inj hsame).2
    obtain ⟨hlast, rfl, ⟨⟩⟩ := ihothers others' hrest hmid hafter
    exact ⟨hlast, rfl, .rfl⟩

theorem only_noDefault : Derivation.noDefault.Only := by
  rintro _ other rest mid ⟨us, rfl⟩ hmid heq
  cases other with
  | noDefault => exact ⟨heq, rfl, .rfl⟩
  | default => cases heq

theorem only_default {result : Derivation .expression ts} (ih : result.Only) :
    (Derivation.default result).Only := by
  rintro _ other _ _ ⟨rest, rfl⟩ ⟨mid, rfl⟩ heq
  cases other with
  | noDefault => cases heq
  | default result' =>
    obtain ⟨hsame, rfl, ⟨⟩⟩ := ih result' (lt_reach (by decide) _) (lt_reach (by decide) _)
      (List.cons.inj heq).2
    exact ⟨hsame, rfl, .rfl⟩

end

/-! ### Every derivation -/

theorem Derivation.only {c : Category} {ts : List Token} (d : Derivation c ts) : d.Only := by
  induction d with
  | plain _ ih => exact only_plain ih
  | question _ _ _ ihcondition ihtrue ihfalse => exact only_question ihcondition ihtrue ihfalse
  | choice _ _ _ ihtrue ihcondition ihfalse => exact only_choice ihtrue ihcondition ihfalse
  | layer _ _ ihfirst ihrest => exact only_layer ihfirst ihrest
  | noLinks => exact only_noLinks
  | operation _ h _ _ ihright ihrest => exact only_operation h ihright ihrest
  | nullTest _ _ ih => exact only_nullTest ih
  | tighter h _ ih => exact only_tighter h ih
  | negated _ ih => exact only_negated ih
  | signed _ ih => exact only_signed ih
  | not _ ih => exact only_not ih
  | comparison _ ih => exact only_comparison ih
  | sign _ h _ ih => exact only_sign h ih
  | unsigned _ ih => exact only_unsigned ih
  | base _ ih => exact only_base ih
  | raised _ _ ihbase ihexponent => exact only_raised ihbase ihexponent
  | postfixed _ _ ihbase ihaccess => exact only_postfixed ihbase ihaccess
  | noSuffix => exact only_noSuffix
  | suffixes _ _ ihfirst ihrest => exact only_suffixes ihfirst ihrest
  | field _ h => exact only_field h
  | method _ h _ ih => exact only_method h ih
  | index _ ih => exact only_index ih
  | slice _ _ ihstart ihstop => exact only_slice ihstart ihstop
  | constant _ h => exact only_constant h
  | name name => exact only_name name
  | call name _ ih => exact only_call name ih
  | parentheses _ ih => exact only_parentheses ih
  | emptyTuple => exact only_emptyTuple
  | tuple _ _ ihfirst ihrest => exact only_tuple ihfirst ihrest
  | list _ ih => exact only_list ih
  | object _ ih => exact only_object ih
  | case _ _ _ _ _ ihoperand ihcondition ihresult ihrest ihotherwise =>
    exact only_case ihoperand ihcondition ihresult ihrest ihotherwise
  | absent => exact only_absent
  | present _ ih => exact only_present ih
  | noItems => exact only_noItems
  | lastItem _ ih => exact only_lastItem ih
  | item _ _ ihfirst ihrest => exact only_item ihfirst ihrest
  | bareKey name => exact only_bareKey name
  | computedKey h _ ih => exact only_computedKey h ih
  | noEntries => exact only_noEntries
  | lastEntry _ _ ihkey ihvalue => exact only_lastEntry ihkey ihvalue
  | entry _ _ _ ihkey ihvalue ihrest => exact only_entry ihkey ihvalue ihrest
  | noBranches => exact only_noBranches
  | branch _ _ _ ihcondition ihresult ihrest => exact only_branch ihcondition ihresult ihrest
  | noDefault => exact only_noDefault
  | default _ ih => exact only_default ih

/-- All tokens together have at most one derivation as an expression. -/
theorem Derivation.unique {tokens : List Token} (d other : Derivation .expression tokens) :
    other = d := by
  have hend : Follows .expression [] := show 14 < reach [] by decide
  obtain ⟨-, -, hsame⟩ := other.only d hend hend rfl
  exact eq_of_heq hsame

theorem derivation_of_single {tokens : List Token} {e : Expr} (h : single tokens = .ok e) :
    ∃ d : Derivation .expression tokens, d.value = e := by
  unfold single at h
  split at h
  case h_1 => cases h
  case h_2 =>
    obtain ⟨step, hexpression, h⟩ := ok_of_bind h
    split at h
    case h_1 hrest =>
      cases h
      obtain ⟨front, d, htokens, hvalue⟩ := derives_of_expression hexpression
      rw [hrest, List.append_nil] at htokens
      subst htokens
      exact ⟨d, hvalue⟩
    case h_2 => cases h

theorem single_of_derivation {tokens : List Token} (d : Derivation .expression tokens) :
    single tokens = .ok d.value := by
  obtain ⟨token, tail, htokens, -⟩ := d.opens 2 rfl
  have hfinds := d.reads [] (by decide)
  rw [List.append_nil] at hfinds
  obtain ⟨_, hexpression⟩ := hfinds
  rw [single, hexpression]
  · rfl
  · exact htokens ▸ List.cons_ne_nil token tail

/-- Tokens are parsed as an expression just when they have a derivation with its value. They have no
other derivation, and no token is left over. -/
theorem single_ok_iff_derivation (tokens : List Token) (e : Expr) :
    single tokens = .ok e ↔
      ∃ d : Derivation .expression tokens, d.value = e ∧
        ∀ other : Derivation .expression tokens, other = d := by
  constructor
  · intro h
    obtain ⟨d, hvalue⟩ := derivation_of_single h
    exact ⟨d, hvalue, d.unique⟩
  · rintro ⟨d, rfl, -⟩
    exact single_of_derivation d

end StreamQuery.Parser
