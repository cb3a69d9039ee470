import StreamQuery.Expr.Operator
import StreamQuery.Expr.Token
import StreamQuery.Query.Clause
import StreamQuery.Value.Basic
import StreamQuery.Warning

/-!
# Errors

Everything that can go wrong, by cause. `Error.message` is the only place where an error becomes
text. Wording that belongs to a file format's or a pattern's own grammar is left out.
-/

namespace StreamQuery

/-- What is wrong with the text of a query or of an expression. -/
inductive SyntaxFault where
  | invalidFloat (text : String)
  | unterminatedString
  | unexpectedCharacter (c : Char)
  | infiniteFloat (x : Float)
  | emptyExpression
  | endOfExpression
  | unexpectedToken (found : List Token)
  | expected (wanted : Symbol) (found : List Token)
  | expectedNull (found : List Token)
  | afterExpression (found : List Token)
  | noFieldName
  | noWhen
  | selectMissing
  | selectUnreadable
  | misplacedStart (word : String)
  | misplacedClause (clause : Clause)
  | invalidImport (item : String)
  | unterminatedLiteral (start : String)

/-- The wording of a syntax fault. -/
def SyntaxFault.message : SyntaxFault → String
  | .invalidFloat text => "Invalid float number: " ++ text
  | .unterminatedString => "Unterminated string"
  | .unexpectedCharacter c => "Unexpected character: " ++ String.singleton c
  | .infiniteFloat x => "Invalid float literal: " ++ Number.plainNotation.write x
  | .emptyExpression => "empty expression"
  | .endOfExpression => "Unexpected end of expression"
  | .unexpectedToken found => "Unexpected token in expression: " ++ describeNext found
  | .expected wanted found => "Expected " ++ wanted.name ++ ", got " ++ describeNext found
  | .expectedNull found => "Expected NULL after IS, got " ++ describeNext found
  | .afterExpression found => "Unexpected token after expression: " ++ describeNext found
  | .noFieldName => "Expected field name after '.'"
  | .noWhen => "CASE expression requires at least one WHEN clause"
  | .selectMissing => "SELECT keyword is missing"
  | .selectUnreadable => "could not parse SELECT"
  | .misplacedStart word => "misplaced '" ++ word ++ "' at the beginning of the query"
  | .misplacedClause clause =>
    "misplaced '" ++ " ".intercalate clause.words ++ "' clause"
  | .invalidImport item => "invalid IMPORT item '" ++ item ++ "'"
  | .unterminatedLiteral start => "unterminated string literal starting at " ++ start

/-- What a query means but may not. -/
inductive SemanticFault where
  | distinctAggregation
  | aggregateIn (clause : Clause) (names : List String)
  | groupByColumn (number columns : Nat)
  | groupByStar
  | columnNumber (clause : Clause) (number : Int)

/-- The wording of a semantic fault. -/
def SemanticFault.message : SemanticFault → String
  | .distinctAggregation => "DISTINCT cannot be used in aggregation queries"
  | .aggregateIn clause names =>
    "aggregate functions are not allowed in " ++ clause.keyword ++ " clause: " ++
      ",".intercalate names
  | .groupByColumn number columns =>
    "GROUP BY references output column " ++ toString number ++ " but SELECT has " ++
      toString columns ++ " columns"
  | .groupByStar => "GROUP BY cannot reference a * column"
  | .columnNumber clause number =>
    clause.keyword ++ " column number must be at least 1, got " ++ toString number

/-- What a function asks of an argument. -/
inductive Expectation where
  | number
  | text
  | integer
  | list
  | dict
  | iterable

/-- An expectation as messages show it. -/
def Expectation.describe : Expectation → String
  | .number => "a number"
  | .text => "str"
  | .integer => "an integer"
  | .list => "a list"
  | .dict => "a dict"
  | .iterable => "iterable"

/-- A value of a kind that an operation does not take. -/
inductive TypeFault where
  | notOrdered (op : BinaryOp) (left right : Kind)
  | unsupported (op : BinaryOp) (left right : Kind)
  | badOperand (sign : Char) (operand : Kind)
  | partOfText (part : Kind)
  | notSearchable (container : Kind)
  | indexKind (base index : Kind)
  | notSubscriptable (base : Kind)
  | sliceKind (bound : Kind)
  | argument (function : String) (expected : Expectation) (found : Kind)
  | noLength (found : Kind)
  | notDateTime (found : Kind)
  | notAssignable (found : Kind)
  | lagOffset (shown : String)
  | explodeKind (found : Kind)

/-- The wording of a type fault. -/
def TypeFault.message : TypeFault → String
  | .notOrdered op left right =>
    "'" ++ op.symbol ++ "' not supported between instances of '" ++ left.name ++ "' and '" ++
      right.name ++ "'"
  | .unsupported op left right =>
    "unsupported operand type(s) for " ++ op.symbol ++ ": '" ++ left.name ++ "' and '" ++
      right.name ++ "'"
  | .badOperand sign operand =>
    "bad operand type for unary " ++ String.singleton sign ++ ": '" ++ operand.name ++ "'"
  | .partOfText part => "'in <string>' requires string as left operand, not " ++ part.name
  | .notSearchable container => "argument of type '" ++ container.name ++ "' is not iterable"
  | .indexKind base index => base.name ++ " indices must be integers, not " ++ index.name
  | .notSubscriptable base => "'" ++ base.name ++ "' object is not subscriptable"
  | .sliceKind bound => "slice indices must be integers, not " ++ bound.name
  | .argument function expected found =>
    function ++ "() argument must be " ++ expected.describe ++ ", not '" ++ found.name ++ "'"
  | .noLength found => "object of type '" ++ found.name ++ "' has no len()"
  | .notDateTime found =>
    "expected a date-time string or timestamp, not '" ++ found.name ++ "'"
  | .notAssignable found => "cannot assign into '" ++ found.name ++ "'"
  | .lagOffset shown => "lag_agg() offset must be a non-negative integer, got " ++ shown
  | .explodeKind found => "EXPLODE target must be a list, got '" ++ found.name ++ "'"

/-- How many arguments a function takes. -/
inductive Arity where
  | exactly (count : Nat)
  | between (least most : Nat)

/-- Whether a number of arguments is admitted. -/
def Arity.admits : Arity → Nat → Bool
  | .exactly count, given => given == count
  | .between least most, given => least ≤ given && given ≤ most

/-- Values that no operation can work with. -/
inductive EvalFault where
  | patternTooLong
  | invalidPattern
  | divisionByZero
  | integerDivisionByZero
  | integerModuloByZero
  | floatDivisionByZero
  | repeatedTooLarge (kind : Kind) (unit : Nat) (times : Int)
  | shiftCount
  | lazyOperator (op : BinaryOp)
  | undefinedName (name : String)
  | noAttribute (module name : String)
  | arguments (function : String) (arity : Arity) (given : Nat)
  | aggregateArguments (function : String) (least most given : Nat)
  | noCandidate (function : String)
  | emptySeparator
  | noTemplate
  | templateField (field : String)
  | templateIndex (index count : Nat)
  | mathDomain
  | rangeStep
  | rangeTooLarge (count : Int)
  | invalidJson
  | timestampRange (seconds : Float)
  | timestampInvalid
  | dateFormat (format : String)
  | dateMismatch (text format : String)
  | dateUnreadable (text : String)
  | notATarget
  | listIndex (index : Int)
  | noColumnNamed (name : String)
  | noColumn (number : Nat)
  | noOutputColumn (number columns : Nat)

/-- The wording of an evaluation fault. -/
def EvalFault.message : EvalFault → String
  | .patternTooLong => "Pattern too long (max 1000 chars)"
  | .invalidPattern => "invalid regex"
  | .divisionByZero => "division by zero"
  | .integerDivisionByZero => "integer division by zero"
  | .integerModuloByZero => "integer modulo by zero"
  | .floatDivisionByZero => "float division by zero"
  | .repeatedTooLarge kind unit times =>
    "repeated " ++ kind.name ++ " too large (" ++ toString unit ++ " x " ++ toString times ++ ")"
  | .shiftCount => "shift count out of range"
  | .lazyOperator op => "operator " ++ op.symbol ++ " is not evaluated here"
  | .undefinedName name => "name '" ++ name ++ "' is not defined"
  | .noAttribute module name => "module '" ++ module ++ "' has no attribute '" ++ name ++ "'"
  | .arguments function (.exactly count) given =>
    function ++ "() takes " ++ toString count ++ " argument(s) (" ++ toString given ++ " given)"
  | .arguments function (.between least most) given =>
    function ++ "() takes from " ++ toString least ++ " to " ++ toString most ++
      " arguments (" ++ toString given ++ " given)"
  | .aggregateArguments function least most given =>
    function ++ "() takes " ++
      (if least == most then toString least else toString least ++ " to " ++ toString most) ++
      " argument(s) (" ++ toString given ++ " given)"
  | .noCandidate function => function ++ "() expected at least 1 argument"
  | .emptySeparator => "empty separator"
  | .noTemplate => "format() requires a template argument"
  | .templateField field => "invalid format field '\x7b" ++ field ++ "\x7d'"
  | .templateIndex index count =>
    "format field " ++ toString index ++ " out of range for " ++ toString count ++ " argument(s)"
  | .mathDomain => "math domain error"
  | .rangeStep => "range() arg 3 must not be zero"
  | .rangeTooLarge count => "range() too large (" ++ toString count ++ " elements)"
  | .invalidJson => "invalid JSON document"
  | .timestampRange seconds =>
    "timestamp out of range: " ++ Number.plainNotation.write seconds
  | .timestampInvalid => "Invalid timestamp"
  | .dateFormat format => "invalid format string: " ++ format
  | .dateMismatch text format =>
    "time data '" ++ text ++ "' does not match format '" ++ format ++ "'"
  | .dateUnreadable text => "Cannot parse date string: " ++ text
  | .notATarget =>
    "EXPLODE target must be a column or a path of constant keys into a column"
  | .listIndex index => "list index " ++ toString index ++ " out of range"
  | .noColumnNamed name => "no column named '" ++ name ++ "'"
  | .noColumn number => "column " ++ toString number ++ " does not exist"
  | .noOutputColumn number columns =>
    "output column " ++ toString number ++ " does not exist, row has " ++ toString columns ++
      " columns"

/-- The side of a file format. -/
inductive FormatRole where
  | reader
  | writer
  deriving DecidableEq, Repr

/-- The name of a role. -/
def FormatRole.name : FormatRole → String
  | .reader => "reader"
  | .writer => "writer"

/-- What an option's value must be. -/
inductive OptionRule where
  | boolean
  | natural
  | text
  | singleCharacter
  deriving DecidableEq, Repr

/-- The wording of an option rule. -/
def OptionRule.message : OptionRule → String
  | .boolean => "must be a boolean"
  | .natural => "must be a non-negative integer"
  | .text => "must be a string"
  | .singleCharacter => "must be a single character"

/-- What keeps a file from being read or written. -/
inductive FileFault where
  | missing
  | noPermission
  | notDirectory
  | isDirectory
  | notText
  | other (reason : String)
  deriving DecidableEq, Repr

/-- The wording of a file fault. -/
def FileFault.message : FileFault → String
  | .missing => "No such file or directory (os error 2)"
  | .noPermission => "Permission denied (os error 13)"
  | .notDirectory => "Not a directory (os error 20)"
  | .isDirectory => "Is a directory (os error 21)"
  | .notText => "stream did not contain valid UTF-8"
  | .other reason => reason

/-- A failure of a file reader or writer. -/
inductive FormatFault where
  | csv
  | files (fault : FileFault)
  | json (line : Nat)
  | unknownOption (format : String) (role : FormatRole) (option : String)
  | invalidOption (format : String) (role : FormatRole) (option : String) (rule : OptionRule)
  | tooManyArguments (format : String) (role : FormatRole)

/-- The wording of a format fault. -/
def FormatFault.message : FormatFault → String
  | .csv => "CSV error"
  | .files fault => "IO error: " ++ fault.message
  | .json line => "invalid JSON on input line " ++ toString line
  | .unknownOption format role option =>
    "Could not create '" ++ format ++ "' " ++ role.name ++ ": unexpected option '" ++ option ++
      "'"
  | .invalidOption format role option rule =>
    "Could not create '" ++ format ++ "' " ++ role.name ++ ": option '" ++ option ++ "' " ++
      rule.message
  | .tooManyArguments format role =>
    "Could not create '" ++ format ++ "' " ++ role.name ++ ": too many positional arguments"

/-- A reader or writer that is not there. -/
inductive UnknownFormat where
  | named (role : FormatRole) (name : String)
  | noReader (name : String)
  | noTarget (text : String)

/-- The wording for a format that is not there. -/
def UnknownFormat.message : UnknownFormat → String
  | .named role name => "Unknown " ++ role.name ++ " '" ++ name ++ "'"
  | .noReader name => "no reader available for '" ++ name ++ "'"
  | .noTarget text => "TO " ++ text

/-- An error of a query. -/
inductive Error where
  | syntaxFault (fault : SyntaxFault)
  | compile (location : Location) (expression : String) (cause : Error)
  | runtime (location : Location) (row : Nat) (values : String) (cause : Error)
  | semantic (fault : SemanticFault)
  | eval (fault : EvalFault)
  | type (fault : TypeFault)
  | moduleNotFound (name : String)
  | warning (warning : Warning)
  | unknownFormat (missing : UnknownFormat)
  | format (fault : FormatFault)

namespace Error

/-- The text of an error inside another one: syntax, evaluation and type faults without the word
that says which of them it is. -/
def bareMessage : Error → String
  | .syntaxFault fault => fault.message
  | .eval fault => fault.message
  | .type fault => fault.message
  | .compile location expression cause =>
    "Could not compile " ++ location.describe ++ ": " ++ cause.bareMessage ++ "\n  " ++ expression
  | .runtime location row values cause =>
    "Error evaluating " ++ location.describe ++ " on input row " ++ toString row ++ ": " ++
      cause.bareMessage ++ "\n  values: " ++ values
  | .semantic fault => "Semantic error: " ++ fault.message
  | .moduleNotFound name => "No module named '" ++ name ++ "'"
  | .warning raised => "Warning treated as error: " ++ raised.message
  | .unknownFormat missing => "Unknown format: " ++ missing.message
  | .format fault => "Format error: " ++ fault.message

/-- The text of an error. -/
def message (error : Error) : String :=
  match error with
  | .syntaxFault fault => "Syntax error: " ++ fault.message
  | .eval fault => "Evaluation error: " ++ fault.message
  | .type fault => "Type error: " ++ fault.message
  | other => other.bareMessage

/-- Whether an error arose while a value was computed. -/
def isEvaluation : Error → Bool
  | .eval _ => true
  | .type _ => true
  | _ => false

end Error

end StreamQuery
