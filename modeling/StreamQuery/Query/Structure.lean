import StreamQuery.Error
import StreamQuery.Text.Search
import StreamQuery.Unicode.Case

/-!
# The clauses of a query

A query without its literals is taken apart at the keywords of its clauses. Comments run from `#`
to the end of the line, and all that counts of the rest are its words.
-/

namespace StreamQuery

/-- A text without its comments. -/
def dropComments (inComment : Bool) : List Char → List Char
  | [] => []
  | c :: rest =>
    if c == '\n' then c :: dropComments false rest
    else if inComment || c == '#' then dropComments true rest
    else c :: dropComments false rest

/-- The words of a query outside of comments. -/
def queryWords (text : List Char) : List (List Char) :=
  Text.wordsBy Unicode.isWhitespace (dropComments false text)

/-- Whether words begin with the keyword of a clause, in any case of its letters. -/
def Clause.begins (clause : Clause) (words : List (List Char)) : Bool :=
  clause.words.map String.toList ==
    (words.take clause.words.length).map Unicode.lowerText

/-- The clause whose keyword words begin with. -/
def Clause.startingAt? (words : List (List Char)) : Option Clause :=
  Clause.all.find? (·.begins words)

/-- The texts of the clauses present, in the order of the query. -/
abbrev QueryStructure := List (Clause × String)

namespace QueryStructure

/-- The words before the first keyword, and the words of each clause after its keyword. -/
def sections : List (List Char) → List (List Char) × List (Clause × List (List Char))
  | [] => ([], [])
  | word :: rest =>
    let (words, later) := sections rest
    match Clause.startingAt? (word :: rest) with
    | some clause => ([], (clause, words.drop (clause.words.length - 1)) :: later)
    | none => (word :: words, later)

/-- The first clause that does not come after the clause before it. -/
def firstMisplaced? (previous : Option Clause) :
    List (Clause × List (List Char)) → Option Clause
  | [] => none
  | (clause, _) :: rest =>
    if previous.any fun before => clause.rank ≤ before.rank then some clause
    else firstMisplaced? (some clause) rest

/-- Words joined by single blanks. -/
def joinWords (words : List (List Char)) : String :=
  String.ofList ([' '].intercalate words)

/-- The text of a clause. -/
def get? (structure_ : QueryStructure) (clause : Clause) : Option String :=
  (structure_.find? (·.1 == clause)).map (·.2)

/-- The text of a clause that is there and not empty. -/
def nonEmpty? (structure_ : QueryStructure) (clause : Clause) : Option String :=
  (structure_.get? clause).filter (!·.isEmpty)

/-- The clauses of a query without literals: in strictly increasing order from its first word on,
among them a `SELECT` that is not empty. -/
def ofText (text : List Char) : Except SyntaxFault QueryStructure :=
  match sections (queryWords text) with
  | (_, []) => .error .selectMissing
  | (word :: _, _) => .error (.misplacedStart (String.ofList word))
  | ([], clauses) => match firstMisplaced? none clauses with
    | some clause => .error (.misplacedClause clause)
    | none =>
      let result : QueryStructure := clauses.map fun (clause, words) => (clause, joinWords words)
      if (result.nonEmpty? .select).isSome then .ok result else .error .selectMissing

end QueryStructure

end StreamQuery
