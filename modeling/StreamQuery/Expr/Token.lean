import StreamQuery.Number.Notation
import StreamQuery.Text.Quoted

/-!
# Tokens

The tokens of an expression text and the way messages show them.
-/

namespace StreamQuery

/-- Tokens without content: the keywords and the signs. -/
inductive Symbol where
  | andWord
  | orWord
  | notWord
  | inWord
  | isWord
  | likeWord
  | ifWord
  | trueWord
  | falseWord
  | nullWord
  | caseWord
  | whenWord
  | thenWord
  | elseWord
  | endWord
  | equal
  | assign
  | notEqual
  | less
  | lessOrEqual
  | greater
  | greaterOrEqual
  | plus
  | minus
  | star
  | doubleStar
  | slash
  | doubleSlash
  | percent
  | ampersand
  | pipe
  | caret
  | tilde
  | shiftLeft
  | shiftRight
  | coalesce
  | dot
  | comma
  | leftBrace
  | rightBrace
  | leftBracket
  | rightBracket
  | leftParen
  | rightParen
  | colon
  | question
  deriving DecidableEq, Repr

/-- The name of a symbol in messages. -/
def Symbol.name : Symbol → String
  | .andWord => "And"
  | .orWord => "Or"
  | .notWord => "Not"
  | .inWord => "In"
  | .isWord => "Is"
  | .likeWord => "Like"
  | .ifWord => "If"
  | .trueWord => "True"
  | .falseWord => "False"
  | .nullWord => "Null"
  | .caseWord => "Case"
  | .whenWord => "When"
  | .thenWord => "Then"
  | .elseWord => "Else"
  | .endWord => "End"
  | .equal => "Equal"
  | .assign => "Assign"
  | .notEqual => "NotEqual"
  | .less => "LessThan"
  | .lessOrEqual => "LessThanEq"
  | .greater => "GreaterThan"
  | .greaterOrEqual => "GreaterThanEq"
  | .plus => "Plus"
  | .minus => "Minus"
  | .star => "Star"
  | .doubleStar => "DoubleStar"
  | .slash => "Slash"
  | .doubleSlash => "DoubleSlash"
  | .percent => "Percent"
  | .ampersand => "Ampersand"
  | .pipe => "Pipe"
  | .caret => "Caret"
  | .tilde => "Tilde"
  | .shiftLeft => "LeftShift"
  | .shiftRight => "RightShift"
  | .coalesce => "NullCoalesce"
  | .dot => "Dot"
  | .comma => "Comma"
  | .leftBrace => "LeftBrace"
  | .rightBrace => "RightBrace"
  | .leftBracket => "LeftBracket"
  | .rightBracket => "RightBracket"
  | .leftParen => "LeftParen"
  | .rightParen => "RightParen"
  | .colon => "Colon"
  | .question => "Question"

/-- A token. An integer that does not fit signed 64 bits is a float token. -/
inductive Token where
  | symbol (s : Symbol)
  | identifier (name : String)
  | integer (n : Nat)
  | float (x : Float)
  | string (text : String)

/-- A token as messages show it. -/
def Token.describe : Token → String
  | .symbol s => s.name
  | .identifier name => "Identifier(" ++ Text.quoted name ++ ")"
  | .integer n => "Integer(" ++ String.ofList (Number.digitsOf n) ++ ")"
  | .float x => "Float(" ++ Number.tokenNotation.write x ++ ")"
  | .string text => "String(" ++ Text.quoted text ++ ")"

/-- The next token as messages show it; after the last token comes the end. -/
def describeNext : List Token → String
  | [] => "Eof"
  | token :: _ => token.describe

end StreamQuery
