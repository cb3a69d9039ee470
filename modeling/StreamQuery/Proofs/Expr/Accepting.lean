import StreamQuery.Proofs.Expr.Deriving

/-!
# Derived phrases are read

Every function of the parser reads a derived phrase to its end, whatever follows it, unless the next
token goes on with the phrase: a phrase of a layer is read up to an operator of a looser layer.
-/

namespace StreamQuery.Parser

variable {α β : Type} {tokens others mid rest : List Token}

/-! ### Results of reading -/

/-- Reading finds a value in front of the rest. -/
def Finds (result : Except SyntaxFault (Step tokens α)) (value : α) (rest : List Token) : Prop :=
  ∃ shorter, result = .ok ⟨value, rest, shorter⟩

/-- Reading what may be empty finds a value in front of the rest. -/
def FindsTail (result : Except SyntaxFault (Tail tokens α)) (value : α) (rest : List Token) :
    Prop :=
  ∃ notLonger, result = .ok ⟨value, rest, notLonger⟩

theorem Finds.bind {result : Except SyntaxFault (Step tokens α)} {value : α}
    {next : Step tokens α → Except SyntaxFault (Step others β)} {found : β}
    (h : Finds result value mid) (hnext : ∀ shorter, Finds (next ⟨value, mid, shorter⟩) found rest) :
    Finds (result >>= next) found rest := by
  obtain ⟨shorter, rfl⟩ := h
  exact hnext shorter

theorem Finds.bindTail {result : Except SyntaxFault (Step tokens α)} {value : α}
    {next : Step tokens α → Except SyntaxFault (Tail others β)} {found : β}
    (h : Finds result value mid)
    (hnext : ∀ shorter, FindsTail (next ⟨value, mid, shorter⟩) found rest) :
    FindsTail (result >>= next) found rest := by
  obtain ⟨shorter, rfl⟩ := h
  exact hnext shorter

theorem FindsTail.bind {result : Except SyntaxFault (Tail tokens α)} {value : α}
    {next : Tail tokens α → Except SyntaxFault (Step others β)} {found : β}
    (h : FindsTail result value mid)
    (hnext : ∀ notLonger, Finds (next ⟨value, mid, notLonger⟩) found rest) :
    Finds (result >>= next) found rest := by
  obtain ⟨notLonger, rfl⟩ := h
  exact hnext notLonger

theorem FindsTail.bindTail {result : Except SyntaxFault (Tail tokens α)} {value : α}
    {next : Tail tokens α → Except SyntaxFault (Tail others β)} {found : β}
    (h : FindsTail result value mid)
    (hnext : ∀ notLonger, FindsTail (next ⟨value, mid, notLonger⟩) found rest) :
    FindsTail (result >>= next) found rest := by
  obtain ⟨notLonger, rfl⟩ := h
  exact hnext notLonger

theorem Finds.unique {result : Except SyntaxFault (Step tokens α)} {value found : α}
    (h : Finds result value rest) (hfound : Finds result found mid) :
    value = found ∧ rest = mid := by
  obtain ⟨_, rfl⟩ := h
  obtain ⟨_, heq⟩ := hfound
  cases heq
  exact ⟨rfl, rfl⟩

theorem finds_expect (wanted : Symbol) (rest : List Token) :
    Finds (expect wanted (.symbol wanted :: rest)) () rest :=
  ⟨by simp, by simp [expect]⟩

/-! ### What goes on with a phrase -/

/-- The height of the loosest phrases that a symbol goes on with; brackets that close, separators
and keywords inside of phrases go on with none. -/
def Symbol.reach : Symbol → Nat
  | .question | .ifWord => 14
  | .coalesce => 13
  | .orWord => 12
  | .andWord => 11
  | .equal | .assign | .notEqual | .less | .lessOrEqual | .greater | .greaterOrEqual
  | .inWord | .likeWord | .isWord | .notWord => 9
  | .pipe => 8
  | .caret => 7
  | .ampersand => 6
  | .shiftLeft | .shiftRight => 5
  | .plus | .minus => 4
  | .star | .slash | .doubleSlash | .percent => 3
  | .doubleStar => 2
  | .dot | .leftBracket => 1
  | .leftParen => 0
  | _ => 15

/-- The height of the loosest phrases that tokens go on with. -/
def reach : List Token → Nat
  | .symbol symbol :: _ => Symbol.reach symbol
  | _ => 15

theorem lt_reach {bound : Nat} {symbol : Symbol} (h : bound < Symbol.reach symbol)
    (rest : List Token) : bound < reach (.symbol symbol :: rest) := h

theorem reach_of_spells {level : Layer} {os : List Token} {op : BinaryOp} (h : Spells level os op)
    (rest : List Token) : reach (os ++ rest) = level.height := by
  cases h <;> rfl

theorem reach_nullTestTokens (negated : Bool) (rest : List Token) :
    reach (nullTestTokens negated ++ rest) = Layer.comparison.height := by
  cases negated <;> rfl

theorem continuation_of_spells {level : Layer} {os : List Token} {op : BinaryOp}
    (h : Spells level os op) (rest : List Token) :
    ∃ shorter, level.continuation (os ++ rest) = .operator ⟨op, rest, shorter⟩ := by
  cases h <;> exact ⟨_, rfl⟩

theorem continuation_nullTestTokens (negated : Bool) (rest : List Token) :
    ∃ shorter, Layer.comparison.continuation (nullTestTokens negated ++ rest) =
      .nullTest ⟨negated, rest, shorter⟩ := by
  cases negated <;> exact ⟨_, rfl⟩

/-- A layer stops at tokens that go on with looser phrases only. -/
theorem continuation_eq_stop {level : Layer} {tokens : List Token}
    (h : level.height < reach tokens) : level.continuation tokens = .stop := by
  have hcomparison : reach tokens ≤ 9 → level ≠ .comparison := by
    rintro hle rfl
    exact absurd h (Nat.not_lt_of_le hle)
  rw [Layer.continuation.eq_def]
  split
  case h_1 => exact if_neg (hcomparison (Nat.le_refl 9))
  case h_2 => exact if_neg (hcomparison (Nat.le_refl 9))
  case h_3 => exact if_neg (hcomparison (Nat.le_refl 9))
  case h_4 symbol rest _ _ _ =>
    cases hop : level.operatorOf? symbol with
    | none => rfl
    | some op =>
      have hreach := reach_of_spells (spells_of_operatorOf? hop) rest
      rw [List.singleton_append] at hreach
      exact absurd h (hreach ▸ Nat.lt_irrefl _)
  case h_5 => rfl

/-! ### What begins a phrase -/

/-- How tight the phrases are that a token begins: primary phrases, phrases with a sign, phrases
with `NOT`, or none. -/
def startRank : Token → Nat
  | .symbol .notWord => 2
  | .symbol .minus | .symbol .plus | .symbol .tilde => 1
  | .symbol .trueWord | .symbol .falseWord | .symbol .nullWord | .symbol .leftBrace
  | .symbol .leftBracket | .symbol .leftParen | .symbol .caseWord => 0
  | .symbol _ => 3
  | _ => 0

/-- Tokens begin with one that begins a phrase. -/
def Opens (rank : Nat) (tokens : List Token) : Prop :=
  ∃ token rest, tokens = token :: rest ∧ startRank token ≤ rank

theorem Opens.append {rank : Nat} (h : Opens rank tokens) (rest : List Token) :
    Opens rank (tokens ++ rest) := by
  obtain ⟨token, tail, rfl, hrank⟩ := h
  exact ⟨token, tail ++ rest, rfl, hrank⟩

theorem Opens.mono {rank other : Nat} (h : Opens rank tokens) (hle : rank ≤ other) :
    Opens other tokens := by
  obtain ⟨token, tail, heq, hrank⟩ := h
  exact ⟨token, tail, heq, Nat.le_trans hrank hle⟩

/-- No phrase begins with a symbol of a higher rank. -/
theorem Opens.ne_symbol {rank : Nat} {symbol : Symbol} (h : Opens rank tokens)
    (hsymbol : rank < startRank (.symbol symbol)) (rest : List Token) :
    tokens ≠ .symbol symbol :: rest := by
  rintro rfl
  obtain ⟨token, tail, heq, hrank⟩ := h
  obtain ⟨rfl, -⟩ := List.cons.inj heq
  exact absurd hsymbol (Nat.not_lt_of_le hrank)

/-- The rank of the first tokens of a category whose phrases are not empty. -/
def Category.startRank? : Category → Option Nat
  | .primary | .postfixed | .power => some 0
  | .unary => some 1
  | .layer level | .operand level => some (if level.height ≤ 9 then 1 else 2)
  | .negation | .expression | .key => some 2
  | _ => none

theorem Derivation.opens {c : Category} {ts : List Token} (d : Derivation c ts) :
    ∀ rank ∈ c.startRank?, Opens rank ts := by
  induction d with
  | plain _ ih => exact fun rank hrank => (ih 2 rfl).mono (Nat.le_of_eq (Option.some.inj hrank))
  | question _ _ _ ih | choice _ _ _ ih =>
    exact fun rank hrank =>
      ((ih 2 rfl).mono (Nat.le_of_eq (Option.some.inj hrank))).append _
  | layer _ _ ih => exact fun rank hrank => (ih rank hrank).append _
  | @tighter level next _ hnext _ ih =>
    intro rank hrank
    obtain rfl := Option.some.inj hrank
    refine (ih _ rfl).mono ?_
    cases level <;> cases hnext <;> decide
  | negated _ ih => exact ih
  | signed _ ih => exact ih
  | not => exact fun rank hrank => ⟨_, _, rfl, (Nat.le_of_eq (Option.some.inj hrank))⟩
  | comparison _ ih =>
    exact fun rank hrank => (ih 1 rfl).mono (by obtain rfl := Option.some.inj hrank; decide)
  | sign op h =>
    refine fun rank hrank => ⟨_, _, rfl, ?_⟩
    obtain rfl := Option.some.inj hrank
    cases h <;> decide
  | unsigned _ ih =>
    exact fun rank hrank => (ih 0 rfl).mono (Nat.zero_le rank)
  | base _ ih => exact ih
  | raised _ _ ih => exact fun rank hrank => (ih rank hrank).append _
  | postfixed _ _ ih => exact fun rank hrank => (ih rank hrank).append _
  | constant value h =>
    refine fun rank hrank => ⟨_, _, rfl, ?_⟩
    cases h <;> exact Nat.zero_le rank
  | name | call | parentheses | emptyTuple | tuple | list | object | case | bareKey =>
    exact fun rank hrank => ⟨_, _, rfl, Nat.zero_le rank⟩
  | computedKey _ _ ih => exact ih
  | _ => exact fun rank hrank => by cases hrank

example : (expression [.symbol .comma, .identifier "a"]).isOk = false := by decide +kernel

/-! ### One function at a time -/

section Functions

variable {level : Layer} {left first whole : Expr} {os us : List Token} {op : BinaryOp}

theorem finds_plain (h : Finds (layer .coalesce tokens) whole rest) (hrest : 14 < reach rest) :
    Finds (expression tokens) whole rest := by
  rw [expression]
  refine h.bind fun shorter => ?_
  dsimp only
  split
  · exact absurd hrest (Nat.lt_irrefl 14)
  · exact absurd hrest (Nat.lt_irrefl 14)
  · exact ⟨shorter, rfl⟩

theorem finds_question {condition whenTrue whenFalse : Expr}
    (hcondition : Finds (layer .coalesce tokens) condition (.symbol .question :: us))
    (htrue : Finds (expression us) whenTrue (.symbol .colon :: mid))
    (hfalse : Finds (expression mid) whenFalse rest) :
    Finds (expression tokens) (.ternary condition whenTrue whenFalse) rest := by
  rw [expression]
  refine hcondition.bind fun _ => ?_
  refine htrue.bind fun _ => ?_
  refine (finds_expect .colon mid).bind fun _ => ?_
  exact hfalse.bind fun _ => ⟨_, rfl⟩

theorem finds_choice {condition whenTrue whenFalse : Expr}
    (htrue : Finds (layer .coalesce tokens) whenTrue (.symbol .ifWord :: us))
    (hcondition : Finds (layer .coalesce us) condition (.symbol .elseWord :: mid))
    (hfalse : Finds (expression mid) whenFalse rest) :
    Finds (expression tokens) (.ternary condition whenTrue whenFalse) rest := by
  rw [expression]
  refine htrue.bind fun _ => ?_
  refine hcondition.bind fun _ => ?_
  refine (finds_expect .elseWord mid).bind fun _ => ?_
  exact hfalse.bind fun _ => ⟨_, rfl⟩

theorem finds_layer (hfirst : Finds (below level tokens) first mid)
    (hrest : FindsTail (chain level first mid) whole rest) :
    Finds (layer level tokens) whole rest := by
  rw [layer]
  exact hfirst.bind fun _ => hrest.bind fun _ => ⟨_, rfl⟩

theorem findsTail_chain_stop (left : Expr) (h : level.height < reach tokens) :
    FindsTail (chain level left tokens) left tokens := by
  rw [chain, continuation_eq_stop h]
  exact ⟨_, rfl⟩

theorem findsTail_chain_operation {right : Expr} (h : Spells level os op)
    (hright : Finds (below level us) right mid)
    (hrest : FindsTail (chain level (.binary left op right) mid) whole rest) :
    FindsTail (chain level left (os ++ us)) whole rest := by
  obtain ⟨shorter, hcontinuation⟩ := continuation_of_spells h us
  rw [chain, hcontinuation]
  exact hright.bindTail fun _ => hrest.bindTail fun _ => ⟨_, rfl⟩

theorem findsTail_chain_nullTest {negated : Bool}
    (hrest : FindsTail (chain .comparison (.isNull left negated) us) whole rest) :
    FindsTail (chain .comparison left (nullTestTokens negated ++ us)) whole rest := by
  obtain ⟨shorter, hcontinuation⟩ := continuation_nullTestTokens negated us
  rw [chain, hcontinuation]
  exact hrest.bindTail fun _ => ⟨_, rfl⟩

theorem finds_tighter {next : Layer} (hnext : level.tighter? = some next)
    (h : Finds (layer next tokens) whole rest) : Finds (below level tokens) whole rest := by
  cases level <;> cases hnext <;> (rw [below]; exact h)

theorem finds_not (h : Finds (negation us) whole rest) :
    Finds (negation (.symbol .notWord :: us)) (.unary .not whole) rest := by
  rw [negation]
  exact h.bind fun _ => ⟨_, rfl⟩

theorem finds_comparison (h : Finds (layer .comparison tokens) whole rest)
    (hopens : Opens 1 tokens) : Finds (negation tokens) whole rest := by
  rw [negation]
  · exact h
  · exact fun _ => hopens.ne_symbol (by decide) _

theorem finds_sign {symbol : Symbol} {op : UnaryOp} (hsign : Sign symbol op)
    (h : Finds (unary us) whole rest) :
    Finds (unary (.symbol symbol :: us)) (applyPrefix op whole) rest := by
  cases hsign <;> (rw [unary]; exact h.bind fun _ => ⟨_, rfl⟩)

theorem finds_unsigned (h : Finds (power tokens) whole rest) (hopens : Opens 0 tokens) :
    Finds (unary tokens) whole rest := by
  obtain ⟨token, tail, rfl, hrank⟩ := hopens
  have hsign : prefixOperator? (token :: tail) = none := by
    unfold prefixOperator?
    split <;> first | rfl | (rename_i heq; cases heq; cases hrank)
  rw [unary, hsign]
  exact h

theorem finds_base (h : Finds (postfixed tokens) whole rest) (hrest : 2 < reach rest) :
    Finds (power tokens) whole rest := by
  rw [power]
  refine h.bind fun shorter => ?_
  dsimp only
  split
  · exact absurd hrest (Nat.lt_irrefl 2)
  · exact ⟨shorter, rfl⟩

theorem finds_raised {base exponent : Expr}
    (hbase : Finds (postfixed tokens) base (.symbol .doubleStar :: us))
    (hexponent : Finds (unary us) exponent rest) :
    Finds (power tokens) (.binary base .exponent exponent) rest := by
  rw [power]
  refine hbase.bind fun _ => ?_
  exact hexponent.bind fun _ => ⟨_, rfl⟩

theorem finds_postfixed {base : Expr} (hbase : Finds (primary tokens) base mid)
    (hsuffixes : FindsTail (suffixes base mid) whole rest) :
    Finds (postfixed tokens) whole rest := by
  rw [postfixed]
  exact hbase.bind fun _ => hsuffixes.bind fun _ => ⟨_, rfl⟩

theorem findsTail_noSuffix (base : Expr) (h : 1 < reach tokens) :
    FindsTail (suffixes base tokens) base tokens := by
  rw [suffixes.eq_def]
  split
  case h_5 => exact ⟨_, rfl⟩
  all_goals exact absurd h (Nat.lt_irrefl 1)

theorem findsTail_field {token : Token} {name : String} {base : Expr}
    (hname : fieldName? token = some name) (hrest : 0 < reach us)
    (h : FindsTail (suffixes (.field base name) us) whole rest) :
    FindsTail (suffixes base (.symbol .dot :: token :: us)) whole rest := by
  rw [suffixes, hname]
  dsimp only
  split
  · exact absurd hrest (Nat.lt_irrefl 0)
  · exact h.bindTail fun _ => ⟨_, rfl⟩

theorem findsTail_method {token : Token} {name : String} {base : Expr} {arguments : List Expr}
    (hname : fieldName? token = some name)
    (harguments : Finds (items .rightParen us) arguments mid)
    (h : FindsTail (suffixes (.method base name arguments) mid) whole rest) :
    FindsTail (suffixes base (.symbol .dot :: token :: .symbol .leftParen :: us)) whole rest := by
  rw [suffixes, hname]
  exact harguments.bindTail fun _ => h.bindTail fun _ => ⟨_, rfl⟩

theorem findsTail_index {base index : Expr} (hopens : Opens 2 us)
    (hindex : Finds (expression us) index (.symbol .rightBracket :: mid))
    (h : FindsTail (suffixes (applyIndex base index) mid) whole rest) :
    FindsTail (suffixes base (.symbol .leftBracket :: us)) whole rest := by
  rw [suffixes]
  · refine hindex.bindTail fun _ => ?_
    refine (finds_expect .rightBracket mid).bindTail fun _ => ?_
    exact h.bindTail fun _ => ⟨_, rfl⟩
  · exact fun _ => hopens.ne_symbol (by decide) _

theorem finds_sliceEnd_open (base : Expr) (start : Option Expr) (rest : List Token) :
    Finds (sliceEnd base start (.symbol .rightBracket :: rest)) (.slice base start none) rest := by
  rw [sliceEnd]
  exact ⟨_, rfl⟩

theorem finds_sliceEnd {base stop : Expr} {start : Option Expr} (hopens : Opens 2 us)
    (hstop : Finds (expression us) stop (.symbol .rightBracket :: rest)) :
    Finds (sliceEnd base start us) (.slice base start (some stop)) rest := by
  rw [sliceEnd]
  · refine hstop.bind fun _ => ?_
    exact (finds_expect .rightBracket rest).bind fun _ => ⟨_, rfl⟩
  · exact fun _ => hopens.ne_symbol (by decide) _

theorem findsTail_slice_open {base access : Expr}
    (hend : Finds (sliceEnd base none us) access mid)
    (h : FindsTail (suffixes access mid) whole rest) :
    FindsTail (suffixes base (.symbol .leftBracket :: .symbol .colon :: us)) whole rest := by
  rw [suffixes]
  exact hend.bindTail fun _ => h.bindTail fun _ => ⟨_, rfl⟩

theorem findsTail_slice {base access start : Expr} {vs : List Token} (hopens : Opens 2 us)
    (hstart : Finds (expression us) start (.symbol .colon :: vs))
    (hend : Finds (sliceEnd base (some start) vs) access mid)
    (h : FindsTail (suffixes access mid) whole rest) :
    FindsTail (suffixes base (.symbol .leftBracket :: us)) whole rest := by
  rw [suffixes]
  · refine hstart.bindTail fun _ => ?_
    exact hend.bindTail fun _ => h.bindTail fun _ => ⟨_, rfl⟩
  · exact fun _ => hopens.ne_symbol (by decide) _

theorem finds_constant {token : Token} {value : Value} (h : Constant token value)
    (rest : List Token) : Finds (primary (token :: rest)) (.literal value) rest := by
  cases h with
  | float hfinite =>
    rw [primary, if_pos hfinite]
    exact ⟨_, rfl⟩
  | _ =>
    rw [primary]
    exact ⟨_, rfl⟩

example : (primary [.float 0.5, .symbol .dot]).isOk = true := by decide +kernel

theorem finds_name (name : String) (h : 0 < reach rest) :
    Finds (primary (.identifier name :: rest)) (.variable name) rest := by
  rw [primary]
  · exact ⟨_, rfl⟩
  · rintro _ rfl
    exact absurd h (Nat.lt_irrefl 0)

theorem finds_call {name : String} {arguments : List Expr}
    (h : Finds (items .rightParen us) arguments rest) :
    Finds (primary (.identifier name :: .symbol .leftParen :: us)) (.call name arguments) rest := by
  rw [primary]
  exact h.bind fun _ => ⟨_, rfl⟩

theorem finds_parentheses (hopens : Opens 2 us)
    (h : Finds (expression us) whole (.symbol .rightParen :: rest)) :
    Finds (primary (.symbol .leftParen :: us)) whole rest := by
  rw [primary]
  · refine h.bind fun _ => ?_
    exact (finds_expect .rightParen rest).bind fun _ => ⟨_, rfl⟩
  · exact fun _ => hopens.ne_symbol (by decide) _

theorem finds_emptyTuple (rest : List Token) :
    Finds (primary (.symbol .leftParen :: .symbol .rightParen :: rest)) (.list []) rest := by
  rw [primary]
  exact ⟨_, rfl⟩

theorem finds_tuple {elements : List Expr} (hopens : Opens 2 us)
    (hfirst : Finds (expression us) first (.symbol .comma :: mid))
    (hrest : Finds (tupleItems (.symbol .comma :: mid)) elements rest) :
    Finds (primary (.symbol .leftParen :: us)) (.list (first :: elements)) rest := by
  rw [primary]
  · refine hfirst.bind fun _ => ?_
    exact hrest.bind fun _ => ⟨_, rfl⟩
  · exact fun _ => hopens.ne_symbol (by decide) _

theorem finds_list {elements : List Expr} (h : Finds (items .rightBracket us) elements rest) :
    Finds (primary (.symbol .leftBracket :: us)) (.list elements) rest := by
  rw [primary]
  exact h.bind fun _ => ⟨_, rfl⟩

theorem finds_object {fields : List (Expr × Expr)} (h : Finds (entries us) fields rest) :
    Finds (primary (.symbol .leftBrace :: us)) (.object fields) rest := by
  rw [primary]
  exact h.bind fun _ => ⟨_, rfl⟩

theorem finds_case_searched
    (h : Finds (caseRest none (.symbol .whenWord :: us)) whole rest) :
    Finds (primary (.symbol .caseWord :: .symbol .whenWord :: us)) whole rest := by
  rw [primary]
  exact h.bind fun _ => ⟨_, rfl⟩

theorem finds_case_simple {operand : Expr} (hopens : Opens 2 us)
    (hoperand : Finds (expression us) operand mid)
    (h : Finds (caseRest (some operand) mid) whole rest) :
    Finds (primary (.symbol .caseWord :: us)) whole rest := by
  rw [primary]
  · refine hoperand.bind fun _ => ?_
    exact h.bind fun _ => ⟨_, rfl⟩
  · exact fun _ => hopens.ne_symbol (by decide) _

theorem finds_caseRest {operand : Option Expr} {branch : Expr × Expr} {found : List (Expr × Expr)}
    (h : FindsTail (branches tokens) (branch :: found) (.symbol .endWord :: rest)) :
    Finds (caseRest operand tokens) (.case operand (branch :: found) none) rest := by
  rw [caseRest]
  refine h.bind fun _ => ?_
  exact (finds_expect .endWord rest).bind fun _ => ⟨_, rfl⟩

theorem finds_caseRest_default {operand : Option Expr} {branch : Expr × Expr}
    {found : List (Expr × Expr)} {otherwise : Expr}
    (h : FindsTail (branches tokens) (branch :: found) (.symbol .elseWord :: mid))
    (hotherwise : Finds (expression mid) otherwise (.symbol .endWord :: rest)) :
    Finds (caseRest operand tokens) (.case operand (branch :: found) (some otherwise)) rest := by
  rw [caseRest]
  refine h.bind fun _ => ?_
  refine hotherwise.bind fun _ => ?_
  exact (finds_expect .endWord rest).bind fun _ => ⟨_, rfl⟩

theorem finds_noItems (close : Symbol) (rest : List Token) :
    Finds (items close (.symbol close :: rest)) [] rest := by
  obtain ⟨_, hexpect⟩ := finds_expect close rest
  rw [items, hexpect]
  exact ⟨_, rfl⟩

theorem expect_error {wanted : Symbol} (h : ∀ us, tokens ≠ .symbol wanted :: us) :
    ∃ fault, expect wanted tokens = .error fault := by
  unfold expect
  split
  case h_1 found us =>
    have hne : found ≠ wanted := fun heq => h us (by rw [heq])
    exact ⟨_, if_neg hne⟩
  case h_2 => exact ⟨_, rfl⟩

theorem finds_lastItem {close : Symbol} (hopens : Opens 2 tokens)
    (hclose : 2 < startRank (.symbol close))
    (h : Finds (expression tokens) first (.symbol close :: rest)) (hne : close ≠ .comma) :
    Finds (items close tokens) [first] rest := by
  obtain ⟨fault, hfault⟩ := expect_error fun us => hopens.ne_symbol hclose us
  obtain ⟨token, tail, rfl, -⟩ := hopens
  rw [items, hfault]
  refine h.bind fun _ => ?_
  dsimp only
  split
  case h_1 heq =>
    cases heq
    exact absurd rfl hne
  case h_2 => exact (finds_expect close rest).bind fun _ => ⟨_, rfl⟩

theorem finds_item {close : Symbol} {others : List Expr} (hopens : Opens 2 tokens)
    (hclose : 2 < startRank (.symbol close))
    (hfirst : Finds (expression tokens) first (.symbol .comma :: mid))
    (hrest : Finds (items close mid) others rest) :
    Finds (items close tokens) (first :: others) rest := by
  obtain ⟨fault, hfault⟩ := expect_error fun us => hopens.ne_symbol hclose us
  obtain ⟨token, tail, rfl, -⟩ := hopens
  rw [items, hfault]
  refine hfirst.bind fun _ => ?_
  exact hrest.bind fun _ => ⟨_, rfl⟩

theorem finds_tupleItems_close (rest : List Token) :
    Finds (tupleItems (.symbol .rightParen :: rest)) [] rest := by
  rw [tupleItems]
  · exact (finds_expect .rightParen rest).bind fun _ => ⟨_, rfl⟩
  all_goals simp

theorem finds_tupleItems_trailing (rest : List Token) :
    Finds (tupleItems (.symbol .comma :: .symbol .rightParen :: rest)) [] rest := by
  rw [tupleItems]
  exact ⟨_, rfl⟩

theorem finds_tupleItems {others : List Expr} (hopens : Opens 2 us)
    (hfirst : Finds (expression us) first mid) (hrest : Finds (tupleItems mid) others rest) :
    Finds (tupleItems (.symbol .comma :: us)) (first :: others) rest := by
  rw [tupleItems]
  · refine hfirst.bind fun _ => ?_
    exact hrest.bind fun _ => ⟨_, rfl⟩
  · exact fun _ => hopens.ne_symbol (by decide) _

theorem finds_noEntries (rest : List Token) :
    Finds (entries (.symbol .rightBrace :: rest)) [] rest := by
  rw [entries]
  exact ⟨_, rfl⟩

theorem finds_bareKey {name : String} {fields : List (Expr × Expr)}
    (h : Finds (entryValue (.literal (.str name)) (.symbol .colon :: us)) fields rest) :
    Finds (entries (.identifier name :: .symbol .colon :: us)) fields rest := by
  rw [entries]
  exact h.bind fun _ => ⟨_, rfl⟩

theorem finds_computedKey {key : Expr} {fields : List (Expr × Expr)} (hopens : Opens 2 tokens)
    (hbare : ∀ name us, tokens ≠ .identifier name :: .symbol .colon :: us)
    (hkey : Finds (expression tokens) key mid)
    (h : Finds (entryValue key mid) fields rest) : Finds (entries tokens) fields rest := by
  rw [entries]
  · refine hkey.bind fun _ => ?_
    exact h.bind fun _ => ⟨_, rfl⟩
  · obtain ⟨token, tail, rfl, -⟩ := hopens
    exact List.cons_ne_nil token tail
  · exact fun _ => hopens.ne_symbol (by decide) _
  · exact hbare

theorem finds_entryValue_last {key value : Expr}
    (h : Finds (expression us) value (.symbol .rightBrace :: rest)) :
    Finds (entryValue key (.symbol .colon :: us)) [(key, value)] rest := by
  rw [entryValue]
  refine (finds_expect .colon us).bind fun _ => ?_
  refine h.bind fun _ => ?_
  exact (finds_expect .rightBrace rest).bind fun _ => ⟨_, rfl⟩

theorem finds_entryValue {key value : Expr} {fields : List (Expr × Expr)}
    (hvalue : Finds (expression us) value (.symbol .comma :: mid))
    (hrest : Finds (entries mid) fields rest) :
    Finds (entryValue key (.symbol .colon :: us)) ((key, value) :: fields) rest := by
  rw [entryValue]
  refine (finds_expect .colon us).bind fun _ => ?_
  refine hvalue.bind fun _ => ?_
  exact hrest.bind fun _ => ⟨_, rfl⟩

theorem findsTail_noBranches (h : ∀ us, tokens ≠ .symbol .whenWord :: us) :
    FindsTail (branches tokens) [] tokens := by
  rw [branches]
  · exact ⟨_, rfl⟩
  · exact h

theorem findsTail_branch {condition result : Expr} {found : List (Expr × Expr)} {vs : List Token}
    (hcondition : Finds (expression us) condition (.symbol .thenWord :: vs))
    (hresult : Finds (expression vs) result mid)
    (hrest : FindsTail (branches mid) found rest) :
    FindsTail (branches (.symbol .whenWord :: us)) ((condition, result) :: found) rest := by
  rw [branches]
  refine hcondition.bindTail fun _ => ?_
  refine (finds_expect .thenWord vs).bindTail fun _ => ?_
  refine hresult.bindTail fun _ => ?_
  exact hrest.bindTail fun _ => ⟨_, rfl⟩

end Functions

/-! ### A name by itself -/

/-- Tokens that go on with conditionals at most, whatever is read before them. -/
theorem finds_single {level : Layer} {whole : Expr} (h : Finds (below level tokens) whole rest)
    (hrest : 13 < reach rest) : Finds (layer level tokens) whole rest :=
  finds_layer h (findsTail_chain_stop whole (Nat.lt_of_le_of_lt (by cases level <;> decide) hrest))

/-- A primary phrase by itself is an expression. -/
theorem finds_expression_of_primary {whole : Expr} (h : Finds (primary tokens) whole rest)
    (hopens : Opens 0 tokens) (hrest : 14 < reach rest) :
    Finds (expression tokens) whole rest := by
  have hloose : 13 < reach rest := Nat.lt_of_succ_lt hrest
  have hpower : Finds (power tokens) whole rest :=
    finds_base (finds_postfixed h (findsTail_noSuffix whole (by omega))) (by omega)
  have htight : Finds (layer .multiplicative tokens) whole rest :=
    finds_single (by rw [below]; exact finds_unsigned hpower hopens) hloose
  have hcomparison : Finds (layer .comparison tokens) whole rest := by
    iterate 6 refine finds_single (finds_tighter rfl ?_) hloose
    exact htight
  have hnegation := finds_comparison hcomparison (hopens.mono (by decide))
  refine finds_plain ?_ hrest
  iterate 2 refine finds_single (finds_tighter rfl ?_) hloose
  exact finds_single (by rw [below]; exact hnegation) hloose

/-- A name before a colon is read as an expression too. -/
theorem finds_name_colon (name : String) (rest : List Token) :
    Finds (expression (.identifier name :: .symbol .colon :: rest)) (.variable name)
      (.symbol .colon :: rest) :=
  finds_expression_of_primary (finds_name name (lt_reach (by decide) rest))
    ⟨_, _, rfl, Nat.le_refl 0⟩ (lt_reach (by decide) rest)

/-! ### Every derivation is read -/

/-- How the parser reads a phrase of a category. -/
def Reads : (c : Category) → List Token → c.Meaning → Prop
  | .expression, ts, e => ∀ rest, 14 < reach rest → Finds (expression (ts ++ rest)) e rest
  | .layer level, ts, e =>
    ∀ rest, level.height < reach rest → Finds (layer level (ts ++ rest)) e rest
  | .operand level, ts, e =>
    ∀ rest, level.height ≤ reach rest → Finds (below level (ts ++ rest)) e rest
  | .links level, ts, f =>
    ∀ rest, level.height < reach rest →
      level.height ≤ reach (ts ++ rest) ∧
        ∀ left, FindsTail (chain level left (ts ++ rest)) (f left) rest
  | .negation, ts, e => ∀ rest, 9 < reach rest → Finds (negation (ts ++ rest)) e rest
  | .unary, ts, e => ∀ rest, 2 < reach rest → Finds (unary (ts ++ rest)) e rest
  | .power, ts, e => ∀ rest, 2 < reach rest → Finds (power (ts ++ rest)) e rest
  | .postfixed, ts, e => ∀ rest, 1 < reach rest → Finds (postfixed (ts ++ rest)) e rest
  | .suffix, ts, f =>
    ∀ rest, 0 < reach rest →
      0 < reach (ts ++ rest) ∧
        ∀ base whole tail, FindsTail (suffixes (f base) rest) whole tail →
          FindsTail (suffixes base (ts ++ rest)) whole tail
  | .suffixes, ts, f =>
    ∀ rest, 1 < reach rest →
      0 < reach (ts ++ rest) ∧ ∀ base, FindsTail (suffixes base (ts ++ rest)) (f base) rest
  | .primary, ts, e => ∀ rest, 0 < reach rest → Finds (primary (ts ++ rest)) e rest
  | .optional, ts, found =>
    (ts = [] ∧ found = none) ∨
      ∃ e, found = some e ∧ Opens 2 ts ∧
        ∀ rest, 14 < reach rest → Finds (expression (ts ++ rest)) e rest
  | .items, ts, es =>
    (∀ close ∈ [Symbol.rightParen, .rightBracket], ∀ rest,
      Finds (items close (ts ++ .symbol close :: rest)) es rest) ∧
    ∀ rest, Finds (tupleItems (.symbol .comma :: (ts ++ .symbol .rightParen :: rest))) es rest
  | .key, ts, key =>
    ∀ us fields rest, Finds (entryValue key (.symbol .colon :: us)) fields rest →
      Finds (entries (ts ++ .symbol .colon :: us)) fields rest
  | .entries, ts, fields => ∀ rest, Finds (entries (ts ++ .symbol .rightBrace :: rest)) fields rest
  | .branches, ts, found =>
    ∀ rest, 14 < reach rest → (∀ us, rest ≠ .symbol .whenWord :: us) →
      14 < reach (ts ++ rest) ∧ FindsTail (branches (ts ++ rest)) found rest
  | .otherwise, ts, found =>
    (ts = [] ∧ found = none) ∨
      ∃ e us, found = some e ∧ ts = .symbol .elseWord :: us ∧
        ∀ rest, 14 < reach rest → Finds (expression (us ++ rest)) e rest

/-- Brackets that close items neither begin a phrase nor go on with one. -/
theorem closing {close : Symbol} (h : close ∈ [Symbol.rightParen, .rightBracket]) :
    2 < startRank (.symbol close) ∧ 14 < Symbol.reach close ∧ close ≠ .comma := by
  simp only [List.mem_cons, List.not_mem_nil, or_false] at h
  obtain rfl | rfl := h <;> decide

theorem finds_sliceEnd_of_reads {base : Expr} {start stop : Option Expr} {ts : List Token}
    (h : Reads .optional ts stop) (rest : List Token) :
    Finds (sliceEnd base start (ts ++ .symbol .rightBracket :: rest)) (.slice base start stop)
      rest := by
  obtain ⟨rfl, rfl⟩ | ⟨e, rfl, hopens, hreads⟩ := h
  · exact finds_sliceEnd_open base start rest
  · exact finds_sliceEnd (hopens.append _) (hreads _ (lt_reach (by decide) rest))

theorem finds_caseRest_of_reads {operand otherwise : Option Expr} {branch : Expr × Expr}
    {found : List (Expr × Expr)} {ts us : List Token} (h : Reads .branches ts (branch :: found))
    (hlast : Reads .otherwise us otherwise) (rest : List Token) :
    Finds (caseRest operand (ts ++ (us ++ .symbol .endWord :: rest)))
      (.case operand (branch :: found) otherwise) rest := by
  obtain ⟨rfl, rfl⟩ | ⟨e, vs, rfl, rfl, hreads⟩ := hlast
  · exact finds_caseRest (h _ (lt_reach (by decide) rest) (by simp)).2
  · exact finds_caseRest_default (h _ (lt_reach (by decide) _) (by simp)).2
      (hreads _ (lt_reach (by decide) rest))

theorem reads_slice {ts us : List Token} {start stop : Option Expr} (hstart : Reads .optional ts start)
    (hstop : Reads .optional us stop) :
    Reads .suffix
      (.symbol .leftBracket :: (ts ++ .symbol .colon :: (us ++ [.symbol .rightBracket])))
      fun base => .slice base start stop := by
  intro rest hrest
  refine ⟨lt_reach (by decide) _, fun base result tail htail => ?_⟩
  rw [List.cons_append, List.append_assoc, List.cons_append, List.append_assoc,
    List.singleton_append]
  have hend := fun start => @finds_sliceEnd_of_reads base start _ _ hstop rest
  obtain ⟨rfl, rfl⟩ | ⟨e, rfl, hopens, hreads⟩ := hstart
  · exact findsTail_slice_open (hend none) htail
  · exact findsTail_slice (hopens.append _) (hreads _ (lt_reach (by decide) _)) (hend (some e))
      htail

theorem reads_branch {ts us vs : List Token} {condition result : Expr} {found : List (Expr × Expr)}
    (hcondition : Reads .expression ts condition) (hresult : Reads .expression us result)
    (hothers : Reads .branches vs found) :
    Reads .branches (.symbol .whenWord :: (ts ++ .symbol .thenWord :: (us ++ vs)))
      ((condition, result) :: found) := by
  intro rest hrest hwhen
  obtain ⟨hreach, hfound⟩ := hothers rest hrest hwhen
  rw [List.cons_append, List.append_assoc, List.cons_append, List.append_assoc]
  exact ⟨lt_reach (by decide) _,
    findsTail_branch (hcondition _ (lt_reach (by decide) _)) (hresult _ hreach) hfound⟩

theorem reads_case {ts us vs : List Token} {operand otherwise : Option Expr} {branch : Expr × Expr}
    {found : List (Expr × Expr)} (hoperand : Reads .optional ts operand)
    (hbranches : Reads .branches (.symbol .whenWord :: us) (branch :: found))
    (hlast : Reads .otherwise vs otherwise) :
    Reads .primary
      (.symbol .caseWord :: (ts ++ (.symbol .whenWord :: us ++ (vs ++ [.symbol .endWord]))))
      (.case operand (branch :: found) otherwise) := by
  intro rest _
  have hrest := fun operand => @finds_caseRest_of_reads operand _ _ _ _ _ hbranches hlast rest
  rw [List.cons_append, List.append_assoc, List.append_assoc, List.append_assoc,
    List.singleton_append]
  obtain ⟨rfl, rfl⟩ | ⟨e, rfl, hopens, hreads⟩ := hoperand
  · exact finds_case_searched (hrest none)
  · exact finds_case_simple (hopens.append _) (hreads _ (lt_reach (by decide) _)) (hrest (some e))

/-- Every function of the parser reads the phrases of its category to their ends. -/
theorem Derivation.reads {c : Category} {ts : List Token} (d : Derivation c ts) :
    Reads c ts d.value := by
  induction d with
  | plain _ ih => exact fun rest hrest => finds_plain (ih rest (Nat.lt_of_succ_lt hrest)) hrest
  | question _ _ _ ihcondition ihtrue ihfalse =>
    intro rest hrest
    rw [List.append_assoc, List.cons_append, List.append_assoc, List.cons_append]
    exact finds_question (ihcondition _ (lt_reach (by decide) _))
      (ihtrue _ (lt_reach (by decide) _)) (ihfalse rest hrest)
  | choice _ _ _ ihtrue ihcondition ihfalse =>
    intro rest hrest
    rw [List.append_assoc, List.cons_append, List.append_assoc, List.cons_append]
    exact finds_choice (ihtrue _ (lt_reach (by decide) _))
      (ihcondition _ (lt_reach (by decide) _)) (ihfalse rest hrest)
  | layer _ _ ihfirst ihrest =>
    intro rest hrest
    obtain ⟨hreach, hchain⟩ := ihrest rest hrest
    rw [List.append_assoc]
    exact finds_layer (ihfirst _ hreach) (hchain _)
  | noLinks =>
    exact fun rest hrest => ⟨Nat.le_of_lt hrest, fun left => findsTail_chain_stop left hrest⟩
  | operation op h _ _ ihright ihrest =>
    intro rest hrest
    obtain ⟨hreach, hchain⟩ := ihrest rest hrest
    rw [List.append_assoc, List.append_assoc]
    exact ⟨Nat.le_of_eq (reach_of_spells h _).symm,
      fun left => findsTail_chain_operation h (ihright _ hreach) (hchain _)⟩
  | nullTest negated _ ihrest =>
    intro rest hrest
    rw [List.append_assoc]
    exact ⟨Nat.le_of_eq (reach_nullTestTokens negated _).symm,
      fun left => findsTail_chain_nullTest ((ihrest rest hrest).2 _)⟩
  | @tighter level next _ hnext _ ih =>
    intro rest hrest
    have hlower : next.height < level.height := by cases level <;> cases hnext <;> decide
    exact finds_tighter hnext (ih rest (Nat.lt_of_lt_of_le hlower hrest))
  | negated _ ih =>
    intro rest hrest
    rw [below]
    exact ih rest (Nat.lt_of_lt_of_le (by decide) hrest)
  | signed _ ih =>
    intro rest hrest
    rw [below]
    exact ih rest hrest
  | not _ ih => exact fun rest hrest => finds_not (ih rest hrest)
  | comparison whole ih =>
    exact fun rest hrest => finds_comparison (ih rest hrest) ((whole.opens 1 rfl).append rest)
  | sign op h _ ih => exact fun rest hrest => finds_sign h (ih rest hrest)
  | unsigned whole ih =>
    exact fun rest hrest => finds_unsigned (ih rest hrest) ((whole.opens 0 rfl).append rest)
  | base _ ih => exact fun rest hrest => finds_base (ih rest (Nat.lt_of_succ_lt hrest)) hrest
  | raised _ _ ihbase ihexponent =>
    intro rest hrest
    rw [List.append_assoc, List.cons_append]
    exact finds_raised (ihbase _ (lt_reach (by decide) _)) (ihexponent rest hrest)
  | postfixed _ _ ihbase ihaccess =>
    intro rest hrest
    obtain ⟨hreach, hsuffixes⟩ := ihaccess rest hrest
    rw [List.append_assoc]
    exact finds_postfixed (ihbase _ hreach) (hsuffixes _)
  | noSuffix =>
    exact fun rest hrest => ⟨Nat.lt_of_succ_lt hrest, fun base => findsTail_noSuffix base hrest⟩
  | suffixes _ _ ihfirst ihrest =>
    intro rest hrest
    obtain ⟨hreach, hsuffixes⟩ := ihrest rest hrest
    obtain ⟨hfirst, hall⟩ := ihfirst _ hreach
    rw [List.append_assoc]
    exact ⟨hfirst, fun base => hall base _ rest (hsuffixes _)⟩
  | field name h =>
    exact fun rest hrest =>
      ⟨lt_reach (by decide) _, fun base whole tail htail => findsTail_field h hrest htail⟩
  | method name h _ ih =>
    intro rest hrest
    refine ⟨lt_reach (by decide) _, fun base whole tail htail => ?_⟩
    rw [List.cons_append, List.cons_append, List.cons_append, List.append_assoc,
      List.singleton_append]
    exact findsTail_method h (ih.1 .rightParen (by simp) rest) htail
  | index whole ih =>
    intro rest hrest
    refine ⟨lt_reach (by decide) _, fun base result tail htail => ?_⟩
    rw [List.cons_append, List.append_assoc, List.singleton_append]
    exact findsTail_index ((whole.opens 2 rfl).append _) (ih _ (lt_reach (by decide) _)) htail
  | slice _ _ ihstart ihstop => exact reads_slice ihstart ihstop
  | constant value h => exact fun rest _ => finds_constant h rest
  | name name => exact fun rest hrest => finds_name name hrest
  | call name _ ih =>
    intro rest _
    rw [List.cons_append, List.cons_append, List.append_assoc, List.singleton_append]
    exact finds_call (ih.1 .rightParen (by simp) rest)
  | parentheses whole ih =>
    intro rest _
    rw [List.cons_append, List.append_assoc, List.singleton_append]
    exact finds_parentheses ((whole.opens 2 rfl).append _) (ih _ (lt_reach (by decide) _))
  | emptyTuple => exact fun rest _ => finds_emptyTuple rest
  | tuple first _ ihfirst ihrest =>
    intro rest _
    rw [List.cons_append, List.append_assoc, List.cons_append, List.append_assoc,
      List.singleton_append]
    exact finds_tuple ((first.opens 2 rfl).append _) (ihfirst _ (lt_reach (by decide) _))
      (ihrest.2 rest)
  | list _ ih =>
    intro rest _
    rw [List.cons_append, List.append_assoc, List.singleton_append]
    exact finds_list (ih.1 .rightBracket (by simp) rest)
  | object _ ih =>
    intro rest _
    rw [List.cons_append, List.append_assoc, List.singleton_append]
    exact finds_object (ih rest)
  | case _ _ _ _ _ ihoperand ihcondition ihresult ihothers ihlast =>
    have hbranches := reads_branch ihcondition ihresult ihothers
    have hcase := reads_case ihoperand hbranches ihlast
    simp only [List.cons_append, List.append_assoc] at hcase
    exact hcase
  | absent => exact .inl ⟨rfl, rfl⟩
  | present whole ih => exact .inr ⟨_, rfl, whole.opens 2 rfl, ih⟩
  | noItems =>
    exact ⟨fun close _ rest => finds_noItems close rest, finds_tupleItems_trailing⟩
  | lastItem last ih =>
    refine ⟨fun close hclose rest => ?_, fun rest => ?_⟩
    · obtain ⟨hbegin, hreach, hcomma⟩ := closing hclose
      exact finds_lastItem ((last.opens 2 rfl).append _) hbegin (ih _ (lt_reach hreach _)) hcomma
    · exact finds_tupleItems ((last.opens 2 rfl).append _) (ih _ (lt_reach (by decide) _))
        (finds_tupleItems_close rest)
  | item first _ ihfirst ihrest =>
    refine ⟨fun close hclose rest => ?_, fun rest => ?_⟩
    · rw [List.append_assoc, List.cons_append]
      exact finds_item ((first.opens 2 rfl).append _) (closing hclose).1
        (ihfirst _ (lt_reach (by decide) _)) (ihrest.1 close hclose rest)
    · rw [List.append_assoc, List.cons_append]
      exact finds_tupleItems ((first.opens 2 rfl).append _) (ihfirst _ (lt_reach (by decide) _))
        (ihrest.2 rest)
  | bareKey name => exact fun us fields rest h => finds_bareKey h
  | computedKey h whole ih =>
    intro us fields rest hrest
    have hfinds := ih (.symbol .colon :: us) (lt_reach (by decide) us)
    refine finds_computedKey ((whole.opens 2 rfl).append _) (fun name vs heq => ?_) hfinds hrest
    -- A name before the colon would be the whole key.
    obtain ⟨-, hrests⟩ := (finds_name_colon name vs).unique (heq ▸ hfinds)
    exact h name (List.append_cancel_right (heq.trans (hrests ▸ rfl)))
  | noEntries => exact finds_noEntries
  | lastEntry _ _ ihkey ihvalue =>
    intro rest
    rw [List.append_assoc, List.cons_append]
    exact ihkey _ _ rest (finds_entryValue_last (ihvalue _ (lt_reach (by decide) _)))
  | entry _ _ _ ihkey ihvalue ihrest =>
    intro rest
    rw [List.append_assoc, List.cons_append, List.append_assoc, List.cons_append]
    exact ihkey _ _ rest (finds_entryValue (ihvalue _ (lt_reach (by decide) _)) (ihrest rest))
  | noBranches => exact fun rest hrest hwhen => ⟨hrest, findsTail_noBranches hwhen⟩
  | branch _ _ _ ihcondition ihresult ihrest => exact reads_branch ihcondition ihresult ihrest
  | noDefault => exact .inl ⟨rfl, rfl⟩
  | default _ ih => exact .inr ⟨_, _, rfl, rfl, ih⟩

example : (expression [.symbol .minus, .identifier "a", .symbol .star, .integer 2]).isOk = true := by
  decide +kernel

end StreamQuery.Parser
