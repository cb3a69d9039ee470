import StreamQuery.Expr.Parser

/-!
# The grammar of expressions

The phrases of the expression language, said without the parser: an expression is a conditional or
an operand of `??`; below it stand layers of left-associative operators, prefix operators, powers,
postfix access and primary phrases. A derivation shows how tokens make up a phrase, and its value is
the expression that the phrase means.
-/

namespace StreamQuery.Parser

/-- The kinds of phrases. Links are the operators of a layer with their right operands, and suffixes
are the fields, calls, items and slices behind a primary phrase. -/
inductive Category where
  | expression
  | layer (level : Layer)
  | operand (level : Layer)
  | links (level : Layer)
  | negation
  | unary
  | power
  | postfixed
  | suffix
  | suffixes
  | primary
  | optional
  | items
  | key
  | entries
  | branches
  | otherwise

/-- What a phrase means. Links and suffixes go on with the expression before them. -/
@[reducible] def Category.Meaning : Category → Type
  | .links _ => Expr → Expr
  | .suffix => Expr → Expr
  | .suffixes => Expr → Expr
  | .optional => Option Expr
  | .otherwise => Option Expr
  | .items => List Expr
  | .entries => List (Expr × Expr)
  | .branches => List (Expr × Expr)
  | _ => Expr

/-- The layer of the operands of a layer, where these are not prefix phrases. -/
def Layer.tighter? : Layer → Option Layer
  | .coalesce => some .disjunction
  | .disjunction => some .conjunction
  | .conjunction => none
  | .comparison => some .bitOr
  | .bitOr => some .bitXor
  | .bitXor => some .bitAnd
  | .bitAnd => some .shift
  | .shift => some .additive
  | .additive => some .multiplicative
  | .multiplicative => none

/-- The operators of the layers and the tokens that spell them. -/
inductive Spells : Layer → List Token → BinaryOp → Prop
  | coalesce : Spells .coalesce [.symbol .coalesce] .coalesce
  | disjunction : Spells .disjunction [.symbol .orWord] .disjunction
  | conjunction : Spells .conjunction [.symbol .andWord] .conjunction
  | equal : Spells .comparison [.symbol .equal] .equal
  | assign : Spells .comparison [.symbol .assign] .equal
  | notEqual : Spells .comparison [.symbol .notEqual] .notEqual
  | less : Spells .comparison [.symbol .less] .less
  | lessOrEqual : Spells .comparison [.symbol .lessOrEqual] .lessOrEqual
  | greater : Spells .comparison [.symbol .greater] .greater
  | greaterOrEqual : Spells .comparison [.symbol .greaterOrEqual] .greaterOrEqual
  | member : Spells .comparison [.symbol .inWord] .member
  | notMember : Spells .comparison [.symbol .notWord, .symbol .inWord] .notMember
  | like : Spells .comparison [.symbol .likeWord] .like
  | notLike : Spells .comparison [.symbol .notWord, .symbol .likeWord] .notLike
  | bitOr : Spells .bitOr [.symbol .pipe] .bitOr
  | bitXor : Spells .bitXor [.symbol .caret] .bitXor
  | bitAnd : Spells .bitAnd [.symbol .ampersand] .bitAnd
  | shiftLeft : Spells .shift [.symbol .shiftLeft] .shiftLeft
  | shiftRight : Spells .shift [.symbol .shiftRight] .shiftRight
  | add : Spells .additive [.symbol .plus] .add
  | subtract : Spells .additive [.symbol .minus] .subtract
  | multiply : Spells .multiplicative [.symbol .star] .multiply
  | divide : Spells .multiplicative [.symbol .slash] .divide
  | floorDivide : Spells .multiplicative [.symbol .doubleSlash] .floorDivide
  | modulus : Spells .multiplicative [.symbol .percent] .modulus

/-- The tokens of null tests, negated or not. -/
def nullTestTokens : Bool → List Token
  | true => [.symbol .isWord, .symbol .notWord, .symbol .nullWord]
  | false => [.symbol .isWord, .symbol .nullWord]

/-- The prefix operators other than `NOT`, and their signs. -/
inductive Sign : Symbol → UnaryOp → Prop
  | minus : Sign .minus .negate
  | plus : Sign .plus .plus
  | tilde : Sign .tilde .bitNot

/-- The constants, each a single token. -/
inductive Constant : Token → Value → Prop
  | integer (n : Nat) : Constant (.integer n) (.ofNat n)
  | float {x : Float} : x.isFinite = true → Constant (.float x) (.ofFloat x)
  | string (text : String) : Constant (.string text) (.str text)
  | true : Constant (.symbol .trueWord) (.bool true)
  | false : Constant (.symbol .falseWord) (.bool false)
  | null : Constant (.symbol .nullWord) .null

/-- The ways in which tokens make up phrases. -/
inductive Derivation : Category → List Token → Type
  -- Conditionals, in both spellings.
  | plain {ts : List Token} (whole : Derivation (.layer .coalesce) ts) : Derivation .expression ts
  | question {cs ts fs : List Token} (condition : Derivation (.layer .coalesce) cs)
      (whenTrue : Derivation .expression ts) (whenFalse : Derivation .expression fs) :
      Derivation .expression (cs ++ .symbol .question :: (ts ++ .symbol .colon :: fs))
  | choice {cs ts fs : List Token} (whenTrue : Derivation (.layer .coalesce) ts)
      (condition : Derivation (.layer .coalesce) cs) (whenFalse : Derivation .expression fs) :
      Derivation .expression (ts ++ .symbol .ifWord :: (cs ++ .symbol .elseWord :: fs))
  -- Layers of operators.
  | layer {level : Layer} {ts us : List Token} (first : Derivation (.operand level) ts)
      (rest : Derivation (.links level) us) : Derivation (.layer level) (ts ++ us)
  | noLinks {level : Layer} : Derivation (.links level) []
  | operation {level : Layer} {os ts us : List Token} (op : BinaryOp) (h : Spells level os op)
      (right : Derivation (.operand level) ts) (rest : Derivation (.links level) us) :
      Derivation (.links level) (os ++ (ts ++ us))
  | nullTest {us : List Token} (negated : Bool) (rest : Derivation (.links .comparison) us) :
      Derivation (.links .comparison) (nullTestTokens negated ++ us)
  | tighter {level next : Layer} {ts : List Token} (h : level.tighter? = some next)
      (whole : Derivation (.layer next) ts) : Derivation (.operand level) ts
  | negated {ts : List Token} (whole : Derivation .negation ts) :
      Derivation (.operand .conjunction) ts
  | signed {ts : List Token} (whole : Derivation .unary ts) :
      Derivation (.operand .multiplicative) ts
  -- Prefix operators and powers.
  | not {ts : List Token} (operand : Derivation .negation ts) :
      Derivation .negation (.symbol .notWord :: ts)
  | comparison {ts : List Token} (whole : Derivation (.layer .comparison) ts) :
      Derivation .negation ts
  | sign {symbol : Symbol} {ts : List Token} (op : UnaryOp) (h : Sign symbol op)
      (operand : Derivation .unary ts) : Derivation .unary (.symbol symbol :: ts)
  | unsigned {ts : List Token} (whole : Derivation .power ts) : Derivation .unary ts
  | base {ts : List Token} (whole : Derivation .postfixed ts) : Derivation .power ts
  | raised {ts us : List Token} (base : Derivation .postfixed ts) (exponent : Derivation .unary us) :
      Derivation .power (ts ++ .symbol .doubleStar :: us)
  -- Fields, calls, items and slices.
  | postfixed {ts us : List Token} (base : Derivation .primary ts)
      (access : Derivation .suffixes us) : Derivation .postfixed (ts ++ us)
  | noSuffix : Derivation .suffixes []
  | suffixes {ts us : List Token} (first : Derivation .suffix ts)
      (rest : Derivation .suffixes us) : Derivation .suffixes (ts ++ us)
  | field {token : Token} (name : String) (h : fieldName? token = some name) :
      Derivation .suffix [.symbol .dot, token]
  | method {token : Token} {ts : List Token} (name : String) (h : fieldName? token = some name)
      (arguments : Derivation .items ts) :
      Derivation .suffix
        (.symbol .dot :: token :: .symbol .leftParen :: (ts ++ [.symbol .rightParen]))
  | index {ts : List Token} (index : Derivation .expression ts) :
      Derivation .suffix (.symbol .leftBracket :: (ts ++ [.symbol .rightBracket]))
  | slice {ts us : List Token} (start : Derivation .optional ts) (stop : Derivation .optional us) :
      Derivation .suffix
        (.symbol .leftBracket :: (ts ++ .symbol .colon :: (us ++ [.symbol .rightBracket])))
  -- Primary phrases.
  | constant {token : Token} (value : Value) (h : Constant token value) :
      Derivation .primary [token]
  | name (name : String) : Derivation .primary [.identifier name]
  | call (name : String) {ts : List Token} (arguments : Derivation .items ts) :
      Derivation .primary
        (.identifier name :: .symbol .leftParen :: (ts ++ [.symbol .rightParen]))
  | parentheses {ts : List Token} (whole : Derivation .expression ts) :
      Derivation .primary (.symbol .leftParen :: (ts ++ [.symbol .rightParen]))
  | emptyTuple : Derivation .primary [.symbol .leftParen, .symbol .rightParen]
  | tuple {ts us : List Token} (first : Derivation .expression ts) (rest : Derivation .items us) :
      Derivation .primary
        (.symbol .leftParen :: (ts ++ .symbol .comma :: (us ++ [.symbol .rightParen])))
  | list {ts : List Token} (elements : Derivation .items ts) :
      Derivation .primary (.symbol .leftBracket :: (ts ++ [.symbol .rightBracket]))
  | object {ts : List Token} (fields : Derivation .entries ts) :
      Derivation .primary (.symbol .leftBrace :: (ts ++ [.symbol .rightBrace]))
  | case {os cs rs bs es : List Token} (operand : Derivation .optional os)
      (condition : Derivation .expression cs) (result : Derivation .expression rs)
      (rest : Derivation .branches bs) (otherwise : Derivation .otherwise es) :
      Derivation .primary (.symbol .caseWord :: (os ++ .symbol .whenWord :: (cs ++
        .symbol .thenWord :: (rs ++ (bs ++ (es ++ [.symbol .endWord]))))))
  -- Parts of these.
  | absent : Derivation .optional []
  | present {ts : List Token} (whole : Derivation .expression ts) : Derivation .optional ts
  | noItems : Derivation .items []
  | lastItem {ts : List Token} (last : Derivation .expression ts) : Derivation .items ts
  | item {ts us : List Token} (first : Derivation .expression ts) (rest : Derivation .items us) :
      Derivation .items (ts ++ .symbol .comma :: us)
  | bareKey (name : String) : Derivation .key [.identifier name]
  | computedKey {ts : List Token} (h : ∀ name, ts ≠ [.identifier name])
      (whole : Derivation .expression ts) : Derivation .key ts
  | noEntries : Derivation .entries []
  | lastEntry {ts us : List Token} (key : Derivation .key ts) (value : Derivation .expression us) :
      Derivation .entries (ts ++ .symbol .colon :: us)
  | entry {ts us vs : List Token} (key : Derivation .key ts) (value : Derivation .expression us)
      (rest : Derivation .entries vs) :
      Derivation .entries (ts ++ .symbol .colon :: (us ++ .symbol .comma :: vs))
  | noBranches : Derivation .branches []
  | branch {cs rs bs : List Token} (condition : Derivation .expression cs)
      (result : Derivation .expression rs) (rest : Derivation .branches bs) :
      Derivation .branches
        (.symbol .whenWord :: (cs ++ .symbol .thenWord :: (rs ++ bs)))
  | noDefault : Derivation .otherwise []
  | default {ts : List Token} (result : Derivation .expression ts) :
      Derivation .otherwise (.symbol .elseWord :: ts)

/-- The expression that a derivation gives to its tokens. Operators of one layer associate to the
left; negated numbers are numbers, `_values` with a number is a column, and a text key is a field. -/
def Derivation.value : {c : Category} → {tokens : List Token} → Derivation c tokens → c.Meaning
  | _, _, .plain whole => whole.value
  | _, _, .question condition whenTrue whenFalse =>
    .ternary condition.value whenTrue.value whenFalse.value
  | _, _, .choice whenTrue condition whenFalse =>
    .ternary condition.value whenTrue.value whenFalse.value
  | _, _, .layer first rest => rest.value first.value
  | _, _, .noLinks => fun left => left
  | _, _, .operation op _ right rest => fun left => rest.value (.binary left op right.value)
  | _, _, .nullTest isNegated rest => fun left => rest.value (.isNull left isNegated)
  | _, _, .tighter _ whole => whole.value
  | _, _, .negated whole => whole.value
  | _, _, .signed whole => whole.value
  | _, _, .not operand => .unary .not operand.value
  | _, _, .comparison whole => whole.value
  | _, _, .sign op _ operand => applyPrefix op operand.value
  | _, _, .unsigned whole => whole.value
  | _, _, .base whole => whole.value
  | _, _, .raised first exponent => .binary first.value .exponent exponent.value
  | _, _, .postfixed first access => access.value first.value
  | _, _, .noSuffix => fun left => left
  | _, _, .suffixes first rest => fun left => rest.value (first.value left)
  | _, _, .field word _ => fun left => .field left word
  | _, _, .method word _ arguments => fun left => .method left word arguments.value
  | _, _, .index whole => fun left => applyIndex left whole.value
  | _, _, .slice start stop => fun left => .slice left start.value stop.value
  | _, _, .constant found _ => .literal found
  | _, _, .name word => .variable word
  | _, _, .call word arguments => .call word arguments.value
  | _, _, .parentheses whole => whole.value
  | _, _, .emptyTuple => .list []
  | _, _, .tuple first rest => .list (first.value :: rest.value)
  | _, _, .list elements => .list elements.value
  | _, _, .object fields => .object fields.value
  | _, _, .case operand condition result rest last =>
    .case operand.value ((condition.value, result.value) :: rest.value) last.value
  | _, _, .absent => none
  | _, _, .present whole => some whole.value
  | _, _, .noItems => []
  | _, _, .lastItem last => [last.value]
  | _, _, .item first rest => first.value :: rest.value
  | _, _, .bareKey word => .literal (.str word)
  | _, _, .computedKey _ whole => whole.value
  | _, _, .noEntries => []
  | _, _, .lastEntry first second => [(first.value, second.value)]
  | _, _, .entry first second rest => (first.value, second.value) :: rest.value
  | _, _, .noBranches => []
  | _, _, .branch condition result rest => (condition.value, result.value) :: rest.value
  | _, _, .noDefault => none
  | _, _, .default result => some result.value

end StreamQuery.Parser
