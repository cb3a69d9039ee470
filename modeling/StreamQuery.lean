import StreamQuery.Evaluation.Assignment
import StreamQuery.Execution.Files
import StreamQuery.Main
import StreamQuery.Proofs.Computation
import StreamQuery.Proofs.Agreement
import StreamQuery.Proofs.Evaluation.Relation
import StreamQuery.Proofs.Execution.Row
import StreamQuery.Proofs.Evaluation.Sites
import StreamQuery.Proofs.Evaluation.CallPositions
import StreamQuery.Proofs.Execution.Pipeline
import StreamQuery.Proofs.Execution.Collecting
import StreamQuery.Proofs.Aggregate.Slots
import StreamQuery.Proofs.Execution.Grouping
import StreamQuery.Proofs.Execution.Groups
import StreamQuery.Proofs.Execution.Interleaving
import StreamQuery.Proofs.Evaluation.Assignment
import StreamQuery.Proofs.Query.Piece
import StreamQuery.Proofs.Query.Restoring
import StreamQuery.Proofs.Query.Comments
import StreamQuery.Proofs.Query.Refilling
import StreamQuery.Proofs.Expr.Lexing
import StreamQuery.Proofs.Expr.Parsing
import StreamQuery.Proofs.Query.Filling
import StreamQuery.Proofs.Query.Access
import StreamQuery.Proofs.Query.Apart
import StreamQuery.Proofs.Query.Cutting
import StreamQuery.Proofs.Query.Contents
import StreamQuery.Proofs.Expr.Grammar
import StreamQuery.Proofs.Expr.Deriving
import StreamQuery.Proofs.Expr.Accepting
import StreamQuery.Proofs.Expr.Unambiguity
import StreamQuery.Proofs.Expr.Nesting
import StreamQuery.Proofs.Expr.Joining
import StreamQuery.Proofs.Query.Nesting
import StreamQuery.Proofs.Execution.Compiling
import StreamQuery.Proofs.Warning
import StreamQuery.Proofs.Execution.Happening
import StreamQuery.Proofs.Execution.Failing
import StreamQuery.Proofs.Execution.Request
import StreamQuery.Proofs.Expr.Columns
import StreamQuery.Proofs.Expr.Relexing
import StreamQuery.Proofs.Number.Bits
import StreamQuery.Proofs.Number.Rounding
import StreamQuery.Proofs.Value.Preorder
import StreamQuery.Proofs.Number.Interval
import StreamQuery.Proofs.Number.Text
import StreamQuery.Proofs.Json.Texts
import StreamQuery.Proofs.Value.Arranged
import StreamQuery.Proofs.Execution.Keys
import StreamQuery.Proofs.Json.Reading
import StreamQuery.Proofs.Format.JsonLines
import StreamQuery.Proofs.Execution.Origin
import StreamQuery.Proofs.Execution.Alignment
import StreamQuery.Proofs.Execution.Sorting
import StreamQuery.Proofs.Execution.InStep
import StreamQuery.Proofs.Execution.Partials
import StreamQuery.Proofs.Query.Numbering
import StreamQuery.Proofs.Execution.Consolidating
import StreamQuery.Proofs.Execution.Numbered
import StreamQuery.Proofs.Aggregate.Windows
import StreamQuery.Proofs.Evaluation.Mirroring
import StreamQuery.Proofs.Execution.Repeating
import StreamQuery.Proofs.Execution.SideBySide
import StreamQuery.Proofs.Execution.OrderedColumns
import StreamQuery.Proofs.Query.Escapes
import StreamQuery.Proofs.Query.Clauses
import StreamQuery.Proofs.Number.Range
import StreamQuery.Proofs.Number.Words
import StreamQuery.Proofs.Value.Integers
import StreamQuery.Proofs.Value.Subscripts
import StreamQuery.Proofs.Function.Ranges
import StreamQuery.Proofs.Function.Names
import StreamQuery.Proofs.Text.Wildcards
import StreamQuery.Proofs.Pattern.Spans
import StreamQuery.Proofs.Text.Translation
import StreamQuery.Proofs.Format.Csv
import StreamQuery.Proofs.Format.SqlLexing
import StreamQuery.Proofs.Format.SqlReading
import StreamQuery.Proofs.Aggregate.Histories
import StreamQuery.Proofs.Aggregate.Folds
import StreamQuery.Proofs.Aggregate.Summaries
import StreamQuery.Proofs.Query.Longhand
import StreamQuery.Proofs.Expr.MemberPaths
import StreamQuery.Proofs.Query.Members
import StreamQuery.Proofs.Expr.Respelling
import StreamQuery.Proofs.Expr.Expanding
import StreamQuery.Proofs.Evaluation.Spellings
import StreamQuery.Proofs.Value.Comparison
import StreamQuery.Proofs.Evaluation.NullPropagation
import StreamQuery.Proofs.Evaluation.RowNumber
import StreamQuery.Proofs.Execution.RowNumbers
import StreamQuery.Proofs.Unicode.Letters
import StreamQuery.Proofs.Query.Recasing
import StreamQuery.Proofs.Query.RecasedClauses
import StreamQuery.Proofs.Query.RecasedShorthand
import StreamQuery.Proofs.Query.RecasedFragments
import StreamQuery.Proofs.Query.RecasedItems
import StreamQuery.Proofs.Query.RecasedQueries
import StreamQuery.Proofs.Expr.RenamedCalls
import StreamQuery.Proofs.Expr.RenamedTexts
import StreamQuery.Proofs.Evaluation.LoweredNames
import StreamQuery.Proofs.Execution.RecasedPlans
import StreamQuery.Proofs.Execution.RecasedRuns
import StreamQuery.Proofs.Query.RecasedTexts
import StreamQuery.Proofs.Execution.RecasedOutcomes
