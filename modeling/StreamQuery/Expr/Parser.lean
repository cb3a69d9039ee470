import StreamQuery.Expr.Basic
import StreamQuery.Expr.Lexer

/-!
# From tokens to expressions

A parser for a layered grammar. Every function reads one phrase from the front of the tokens and
returns it with the tokens after it, together with the proof that there are fewer of them; the
recursion ends because of that. The left-associative operators form ten layers, from `??` down to
the multiplicative ones.
-/

namespace StreamQuery.Parser

/-- The layers of left-associative operators, from the loosest to the tightest. -/
inductive Layer where
  | coalesce
  | disjunction
  | conjunction
  | comparison
  | bitOr
  | bitXor
  | bitAnd
  | shift
  | additive
  | multiplicative
  deriving DecidableEq, Repr

/-- The distance of a layer from the tightest phrases; looser layers stand higher. -/
def Layer.height : Layer → Nat
  | .coalesce => 13
  | .disjunction => 12
  | .conjunction => 11
  | .comparison => 9
  | .bitOr => 8
  | .bitXor => 7
  | .bitAnd => 6
  | .shift => 5
  | .additive => 4
  | .multiplicative => 3

/-- The operator of a layer that a symbol stands for. -/
def Layer.operatorOf? : Layer → Symbol → Option BinaryOp
  | .coalesce, .coalesce => some .coalesce
  | .disjunction, .orWord => some .disjunction
  | .conjunction, .andWord => some .conjunction
  | .comparison, .equal => some .equal
  | .comparison, .assign => some .equal
  | .comparison, .notEqual => some .notEqual
  | .comparison, .less => some .less
  | .comparison, .lessOrEqual => some .lessOrEqual
  | .comparison, .greater => some .greater
  | .comparison, .greaterOrEqual => some .greaterOrEqual
  | .comparison, .inWord => some .member
  | .comparison, .likeWord => some .like
  | .bitOr, .pipe => some .bitOr
  | .bitXor, .caret => some .bitXor
  | .bitAnd, .ampersand => some .bitAnd
  | .shift, .shiftLeft => some .shiftLeft
  | .shift, .shiftRight => some .shiftRight
  | .additive, .plus => some .add
  | .additive, .minus => some .subtract
  | .multiplicative, .star => some .multiply
  | .multiplicative, .slash => some .divide
  | .multiplicative, .doubleSlash => some .floorDivide
  | .multiplicative, .percent => some .modulus
  | _, _ => none

/-- The operator after `NOT` in a comparison. -/
def negatedOperator? : Symbol → Option BinaryOp
  | .likeWord => some .notLike
  | .inWord => some .notMember
  | _ => none

/-- A phrase and the tokens after it. -/
structure Step (tokens : List Token) (α : Type) where
  value : α
  rest : List Token
  shorter : rest.length < tokens.length

/-- A phrase that may be empty, and the tokens after it. -/
structure Tail (tokens : List Token) (α : Type) where
  value : α
  rest : List Token
  notLonger : rest.length ≤ tokens.length

/-- A phrase after a token that it begins with. -/
def Step.behind {token : Token} {tokens : List Token} {α : Type} (step : Step tokens α) :
    Step (token :: tokens) α :=
  ⟨step.value, step.rest, Nat.lt_succ_of_lt step.shorter⟩

/-- A phrase with another value. -/
def Step.map {tokens : List Token} {α β : Type} (f : α → β) (step : Step tokens α) :
    Step tokens β :=
  ⟨f step.value, step.rest, step.shorter⟩

/-- An empty phrase. -/
def Tail.nothing {tokens : List Token} {α : Type} (value : α) : Tail tokens α :=
  ⟨value, tokens, Nat.le_refl _⟩

/-- A phrase after a token that it begins with. -/
def Tail.behind {token : Token} {tokens : List Token} {α : Type} (tail : Tail tokens α) :
    Tail (token :: tokens) α :=
  ⟨tail.value, tail.rest, Nat.le_succ_of_le tail.notLonger⟩

/-- A phrase after another one that it begins with. -/
def Tail.after {tokens : List Token} {α β : Type} (step : Step tokens β)
    (tail : Tail step.rest α) : Tail tokens α :=
  ⟨tail.value, tail.rest, Nat.le_trans tail.notLonger (Nat.le_of_lt step.shorter)⟩

/-- A phrase after another one that it begins with, when the tokens between them are known. -/
def Tail.between {tokens rest : List Token} {α β : Type} (step : Step tokens β)
    (h : step.rest = rest) (tail : Tail rest α) : Tail tokens α :=
  Tail.after step (h ▸ tail)

/-- What follows an operand in a layer. -/
inductive Continuation (tokens : List Token) where
  | operator (step : Step tokens BinaryOp)
  | nullTest (step : Step tokens Bool)
  | fault (fault : SyntaxFault)
  | stop

/-- The `NULL` of a null test, negated or not. -/
def nullTest (negated : Bool) {tokens : List Token} :
    (rest : List Token) → rest.length < tokens.length → Continuation tokens
  | .symbol .nullWord :: rest, h =>
    .nullTest ⟨negated, rest, by simp at h; omega⟩
  | rest, _ => .fault (.expectedNull rest)

/-- The operator or null test of a layer at the front of the tokens. -/
def Layer.continuation (layer : Layer) : (tokens : List Token) → Continuation tokens
  | .symbol .isWord :: .symbol .notWord :: rest =>
    if layer = .comparison then nullTest true rest (by grind) else .stop
  | .symbol .isWord :: rest =>
    if layer = .comparison then nullTest false rest (by simp) else .stop
  | .symbol .notWord :: .symbol symbol :: rest =>
    if layer = .comparison then
      match negatedOperator? symbol with
      | some op => .operator ⟨op, rest, by grind⟩
      | none => .stop
    else .stop
  | .symbol symbol :: rest =>
    match layer.operatorOf? symbol with
    | some op => .operator ⟨op, rest, by simp⟩
    | none => .stop
  | _ => .stop

/-- The rest after a symbol that has to come next. -/
def expect (wanted : Symbol) : (tokens : List Token) → Except SyntaxFault (Step tokens Unit)
  | .symbol found :: rest =>
    if found = wanted then .ok ⟨(), rest, by simp⟩
    else .error (.expected wanted (.symbol found :: rest))
  | tokens => .error (.expected wanted tokens)

/-- The sign of a prefix operator. -/
def prefixOperator? : List Token → Option UnaryOp
  | .symbol .minus :: _ => some .negate
  | .symbol .plus :: _ => some .plus
  | .symbol .tilde :: _ => some .bitNot
  | _ => none

/-- The name after a point. Keywords other than the constants are names there. -/
def fieldName? : Token → Option String
  | .identifier name => some name
  | .symbol .andWord => some "and"
  | .symbol .orWord => some "or"
  | .symbol .notWord => some "not"
  | .symbol .inWord => some "in"
  | .symbol .isWord => some "is"
  | .symbol .likeWord => some "like"
  | .symbol .ifWord => some "if"
  | .symbol .caseWord => some "case"
  | .symbol .whenWord => some "when"
  | .symbol .thenWord => some "then"
  | .symbol .elseWord => some "else"
  | .symbol .endWord => some "end"
  | _ => none

/-- A prefix operator applied to an operand; a negated number is a number. -/
def applyPrefix (op : UnaryOp) (operand : Expr) : Expr :=
  match op, operand with
  | .negate, .literal (.int n) =>
    if InInt64 (-n.val) then .literal (.ofInt (-n.val)) else .unary op operand
  | .negate, .literal (.float x) => .literal (.ofFloat (-x.val))
  | _, _ => .unary op operand

/-- Item access: `_values[n]` is a column and a text key is a field. -/
def applyIndex (base index : Expr) : Expr :=
  match base, index with
  | .variable "_values", .literal (.int n) =>
    if 0 ≤ n.val then .column n.val.toNat else .item base index
  | _, .literal (.str name) => .field base name
  | _, _ => .item base index

mutual

/-- An expression: a conditional in either of its spellings, or an operand of `??`. -/
def expression (tokens : List Token) : Except SyntaxFault (Step tokens Expr) := do
  let first ← layer .coalesce tokens
  have := first.shorter
  match _hrest : first.rest with
  | .symbol .question :: rest =>
    let whenTrue ← expression rest
    let colon ← expect .colon whenTrue.rest
    have := whenTrue.shorter
    have := colon.shorter
    let whenFalse ← expression colon.rest
    have := whenFalse.shorter
    return ⟨.ternary first.value whenTrue.value whenFalse.value, whenFalse.rest,
      by grind⟩
  | .symbol .ifWord :: rest =>
    let condition ← layer .coalesce rest
    let other ← expect .elseWord condition.rest
    have := condition.shorter
    have := other.shorter
    let whenFalse ← expression other.rest
    have := whenFalse.shorter
    return ⟨.ternary condition.value first.value whenFalse.value, whenFalse.rest,
      by grind⟩
  | _ => return first
termination_by 64 * tokens.length + 40
decreasing_by all_goals grind [Layer.height]

/-- A chain of operands and operators of one layer. -/
def layer (level : Layer) (tokens : List Token) : Except SyntaxFault (Step tokens Expr) := do
  let first ← below level tokens
  have := first.shorter
  let whole ← chain level first.value first.rest
  have := whole.notLonger
  return ⟨whole.value, whole.rest, by omega⟩
termination_by 64 * tokens.length + 2 * level.height + 1
decreasing_by all_goals grind

/-- An operand of a layer. -/
def below (level : Layer) (tokens : List Token) : Except SyntaxFault (Step tokens Expr) :=
  match level with
  | .coalesce => layer .disjunction tokens
  | .disjunction => layer .conjunction tokens
  | .conjunction => negation tokens
  | .comparison => layer .bitOr tokens
  | .bitOr => layer .bitXor tokens
  | .bitXor => layer .bitAnd tokens
  | .bitAnd => layer .shift tokens
  | .shift => layer .additive tokens
  | .additive => layer .multiplicative tokens
  | .multiplicative => unary tokens
termination_by 64 * tokens.length + 2 * level.height
decreasing_by all_goals (simp_all [Layer.height])

/-- The operators of a layer and their right operands after a left operand. -/
def chain (level : Layer) (left : Expr) (tokens : List Token) :
    Except SyntaxFault (Tail tokens Expr) :=
  match level.continuation tokens with
  | .operator op => do
    have := op.shorter
    let right ← below level op.rest
    have := right.shorter
    let whole ← chain level (.binary left op.value right.value) right.rest
    have := whole.notLonger
    return ⟨whole.value, whole.rest, by omega⟩
  | .nullTest test => do
    have := test.shorter
    let whole ← chain level (.isNull left test.value) test.rest
    have := whole.notLonger
    return ⟨whole.value, whole.rest, by omega⟩
  | .fault fault => .error fault
  | .stop => return ⟨left, tokens, Nat.le_refl _⟩
termination_by 64 * tokens.length
decreasing_by all_goals (cases level <;> simp_all [Layer.height] <;> omega)

/-- `NOT` and its operand, or a comparison. -/
def negation (tokens : List Token) : Except SyntaxFault (Step tokens Expr) :=
  match tokens with
  | .symbol .notWord :: rest => do
    let operand ← negation rest
    have := operand.shorter
    return ⟨.unary .not operand.value, operand.rest, by grind⟩
  | tokens => layer .comparison tokens
termination_by 64 * tokens.length + 20
decreasing_by all_goals grind [Layer.height]

/-- A prefix operator and its operand, or a power. -/
def unary (tokens : List Token) : Except SyntaxFault (Step tokens Expr) :=
  match tokens with
  | [] => power []
  | token :: rest =>
    match prefixOperator? (token :: rest) with
    | some op => do
      let operand ← unary rest
      return (operand.map (applyPrefix op)).behind
    | none => power (token :: rest)
termination_by 64 * tokens.length + 5
decreasing_by all_goals grind

/-- A postfix phrase, raised to a power or not. -/
def power (tokens : List Token) : Except SyntaxFault (Step tokens Expr) := do
  let base ← postfixed tokens
  have := base.shorter
  match _hrest : base.rest with
  | .symbol .doubleStar :: rest =>
    let exponent ← unary rest
    have := exponent.shorter
    return ⟨.binary base.value .exponent exponent.value, exponent.rest, by grind⟩
  | _ => return base
termination_by 64 * tokens.length + 4
decreasing_by all_goals grind

/-- A primary phrase with its fields, calls, items and slices. -/
def postfixed (tokens : List Token) : Except SyntaxFault (Step tokens Expr) := do
  let base ← primary tokens
  have := base.shorter
  let whole ← suffixes base.value base.rest
  have := whole.notLonger
  return ⟨whole.value, whole.rest, by omega⟩
termination_by 64 * tokens.length + 3
decreasing_by all_goals grind

/-- The fields, calls, items and slices after a base. -/
def suffixes (base : Expr) (tokens : List Token) : Except SyntaxFault (Tail tokens Expr) :=
  match tokens with
  | .symbol .dot :: [] => .error .noFieldName
  | .symbol .dot :: token :: rest =>
    match fieldName? token with
    | none => .error .noFieldName
    | some name =>
      match rest with
      | .symbol .leftParen :: inner => do
        let arguments ← items .rightParen inner
        have := arguments.shorter
        let whole ← suffixes (.method base name arguments.value) arguments.rest
        return (whole.after arguments).behind.behind.behind
      | rest => do
        let whole ← suffixes (.field base name) rest
        return whole.behind.behind
  | .symbol .leftBracket :: .symbol .colon :: rest => do
    let access ← sliceEnd base none rest
    have := access.shorter
    let whole ← suffixes access.value access.rest
    return (whole.after access).behind.behind
  | .symbol .leftBracket :: rest => do
    let index ← expression rest
    have := index.shorter
    match _hrest : index.rest with
    | .symbol .colon :: after =>
      let access ← sliceEnd base (some index.value) after
      have := access.shorter
      let whole ← suffixes access.value access.rest
      return ((whole.after access).behind.between index _hrest).behind
    | _ =>
      let close ← expect .rightBracket index.rest
      have := close.shorter
      let whole ← suffixes (applyIndex base index.value) close.rest
      return ((whole.after close).after index).behind
  | tokens => return .nothing base
termination_by 64 * tokens.length
decreasing_by all_goals grind

/-- The end of a slice after its colon. -/
def sliceEnd (base : Expr) (start : Option Expr) (tokens : List Token) :
    Except SyntaxFault (Step tokens Expr) :=
  match tokens with
  | .symbol .rightBracket :: rest => return ⟨.slice base start none, rest, by simp⟩
  | tokens => do
    let stop ← expression tokens
    have := stop.shorter
    let close ← expect .rightBracket stop.rest
    have := close.shorter
    return ⟨.slice base start (some stop.value), close.rest, by omega⟩
termination_by 64 * tokens.length + 41
decreasing_by all_goals grind

/-- A literal, a name, a call, or a phrase in brackets. -/
def primary (tokens : List Token) : Except SyntaxFault (Step tokens Expr) :=
  match tokens with
  | [] => .error .endOfExpression
  | .identifier name :: .symbol .leftParen :: rest => do
    let arguments ← items .rightParen rest
    have := arguments.shorter
    return ⟨.call name arguments.value, arguments.rest, by grind⟩
  | .identifier name :: rest => return ⟨.variable name, rest, by simp⟩
  | .integer n :: rest => return ⟨.literal (.ofNat n), rest, by simp⟩
  | .float x :: rest =>
    if x.isFinite then return ⟨.literal (.ofFloat x), rest, by simp⟩
    else .error (.infiniteFloat x)
  | .string text :: rest => return ⟨.literal (.str text), rest, by simp⟩
  | .symbol .trueWord :: rest => return ⟨.literal (.bool true), rest, by simp⟩
  | .symbol .falseWord :: rest => return ⟨.literal (.bool false), rest, by simp⟩
  | .symbol .nullWord :: rest => return ⟨.literal .null, rest, by simp⟩
  | .symbol .leftBrace :: rest => do
    let fields ← entries rest
    have := fields.shorter
    return ⟨.object fields.value, fields.rest, by grind⟩
  | .symbol .leftBracket :: rest => do
    let elements ← items .rightBracket rest
    have := elements.shorter
    return ⟨.list elements.value, elements.rest, by grind⟩
  | .symbol .leftParen :: .symbol .rightParen :: rest =>
    return ⟨.list [], rest, by grind⟩
  | .symbol .leftParen :: rest => do
    let first ← expression rest
    have := first.shorter
    match _hrest : first.rest with
    | .symbol .comma :: after =>
      let others ← tupleItems (.symbol .comma :: after)
      have := others.shorter
      return ⟨.list (first.value :: others.value), others.rest, by grind⟩
    | _ =>
      let close ← expect .rightParen first.rest
      have := close.shorter
      return ⟨first.value, close.rest, by grind⟩
  | .symbol .caseWord :: .symbol .whenWord :: rest => do
    let whole ← caseRest none (.symbol .whenWord :: rest)
    have := whole.shorter
    return ⟨whole.value, whole.rest, by grind⟩
  | .symbol .caseWord :: rest => do
    let operand ← expression rest
    have := operand.shorter
    let whole ← caseRest (some operand.value) operand.rest
    have := whole.shorter
    return ⟨whole.value, whole.rest, by grind⟩
  | tokens => .error (.unexpectedToken tokens)
termination_by 64 * tokens.length
decreasing_by all_goals grind

/-- Expressions separated by commas up to a closing bracket; a last comma is allowed. -/
def items (close : Symbol) (tokens : List Token) : Except SyntaxFault (Step tokens (List Expr)) :=
  match tokens with
  | [] => .error (.expected close [])
  | token :: rest =>
    match expect close (token :: rest) with
    | .ok closed => return ⟨[], closed.rest, closed.shorter⟩
    | .error _ => do
      let first ← expression (token :: rest)
      have := first.shorter
      match _hrest : first.rest with
      | .symbol .comma :: after =>
        let others ← items close after
        have := others.shorter
        return ⟨first.value :: others.value, others.rest, by grind⟩
      | _ =>
        let closed ← expect close first.rest
        have := closed.shorter
        return ⟨[first.value], closed.rest, by omega⟩
termination_by 64 * tokens.length + 41
decreasing_by all_goals grind

/-- The items of a tuple after its first one, each behind a comma, up to the bracket. -/
def tupleItems (tokens : List Token) : Except SyntaxFault (Step tokens (List Expr)) :=
  match tokens with
  | .symbol .comma :: .symbol .rightParen :: rest =>
    return ⟨[], rest, by grind⟩
  | .symbol .comma :: rest => do
    let first ← expression rest
    have := first.shorter
    let others ← tupleItems first.rest
    have := others.shorter
    return ⟨first.value :: others.value, others.rest, by grind⟩
  | tokens => do
    let closed ← expect .rightParen tokens
    return ⟨[], closed.rest, closed.shorter⟩
termination_by 64 * tokens.length
decreasing_by all_goals grind

/-- The entries of an object up to its brace. A name before a colon is the key itself. -/
def entries (tokens : List Token) : Except SyntaxFault (Step tokens (List (Expr × Expr))) :=
  match tokens with
  | [] => .error (.expected .rightBrace [])
  | .symbol .rightBrace :: rest => return ⟨[], rest, by simp⟩
  | .identifier name :: .symbol .colon :: rest => do
    let whole ← entryValue (.literal (.str name)) (.symbol .colon :: rest)
    have := whole.shorter
    return ⟨whole.value, whole.rest, by grind⟩
  | tokens => do
    let key ← expression tokens
    have := key.shorter
    let whole ← entryValue key.value key.rest
    have := whole.shorter
    return ⟨whole.value, whole.rest, by omega⟩
termination_by 64 * tokens.length + 41
decreasing_by all_goals grind

/-- The value of an entry from its colon on, and the entries after it. -/
def entryValue (key : Expr) (tokens : List Token) :
    Except SyntaxFault (Step tokens (List (Expr × Expr))) := do
  let colon ← expect .colon tokens
  have := colon.shorter
  let value ← expression colon.rest
  have := value.shorter
  match _hrest : value.rest with
  | .symbol .comma :: after =>
    let others ← entries after
    have := others.shorter
    return ⟨(key, value.value) :: others.value, others.rest, by grind⟩
  | _ =>
    let closed ← expect .rightBrace value.rest
    have := closed.shorter
    return ⟨[(key, value.value)], closed.rest, by omega⟩
termination_by 64 * tokens.length + 42
decreasing_by all_goals grind

/-- The branches, the default and the end of a case expression. -/
def caseRest (operand : Option Expr) (tokens : List Token) :
    Except SyntaxFault (Step tokens Expr) := do
  let found ← branches tokens
  have := found.notLonger
  if found.value.isEmpty then .error .noWhen
  else
    match _hrest : found.rest with
    | .symbol .elseWord :: rest =>
      let otherwise ← expression rest
      have := otherwise.shorter
      let close ← expect .endWord otherwise.rest
      have := close.shorter
      return ⟨.case operand found.value (some otherwise.value), close.rest, by grind⟩
    | _ =>
      let close ← expect .endWord found.rest
      have := close.shorter
      return ⟨.case operand found.value none, close.rest, by omega⟩
termination_by 64 * tokens.length + 42
decreasing_by all_goals grind

/-- The branches of a case expression. -/
def branches (tokens : List Token) : Except SyntaxFault (Tail tokens (List (Expr × Expr))) :=
  match tokens with
  | .symbol .whenWord :: rest => do
    let condition ← expression rest
    have := condition.shorter
    let word ← expect .thenWord condition.rest
    have := word.shorter
    let result ← expression word.rest
    have := result.shorter
    let others ← branches result.rest
    have := others.notLonger
    return ⟨(condition.value, result.value) :: others.value, others.rest, by grind⟩
  | tokens => return ⟨[], tokens, Nat.le_refl _⟩
termination_by 64 * tokens.length
decreasing_by all_goals grind

end

/-- One expression that takes all tokens. -/
def single (tokens : List Token) : Except SyntaxFault Expr :=
  match tokens with
  | [] => .error .emptyExpression
  | _ => do
    let whole ← expression tokens
    match whole.rest with
    | [] => return whole.value
    | rest => .error (.afterExpression rest)

/-- Expressions separated by commas that take all tokens. -/
def several (tokens : List Token) : Except SyntaxFault (List Expr) :=
  match tokens with
  | [] => .error .emptyExpression
  | .symbol .comma :: _ => .error .emptyExpression
  | token :: rest => do
    let first ← expression (token :: rest)
    match _hrest : first.rest with
    | [] => return [first.value]
    | .symbol .comma :: after =>
      let others ← several after
      return first.value :: others
    | rest => .error (.afterExpression rest)
termination_by tokens.length
decreasing_by
  have := first.shorter
  simp_all
  omega

end StreamQuery.Parser

namespace StreamQuery.Expr

/-- The expression that a text spells. -/
def parse (text : String) : Except SyntaxFault Expr := do
  Parser.single (← tokenize text)

/-- The expressions that a text spells, separated by commas. -/
def parseList (text : String) : Except SyntaxFault (List Expr) := do
  Parser.several (← tokenize text)

end StreamQuery.Expr
