import Mathlib.Data.List.Basic
import StreamQuery.Query.Basic
import StreamQuery.Query.Literal

/-!
# Texts as characters and literals

A text is a sequence of literals and of characters outside of literals. Extracting replaces the
literals of the sequence by placeholders and keeps everything else.
-/

namespace StreamQuery

namespace Literal

/-- What may stand between quotes: escapes, doubled quotes, and other characters than the quote. -/
inductive Contents (quote : Char) : List Char → Prop
  | nil : Contents quote []
  | escaped (c : Char) {text : List Char} : Contents quote text →
      Contents quote ('\\' :: c :: text)
  | doubled {text : List Char} : Contents quote text → Contents quote (quote :: quote :: text)
  | plain {c : Char} {text : List Char} : c ≠ quote → c ≠ '\\' → Contents quote text →
      Contents quote (c :: text)

variable {quote : Char} {text after : List Char}

theorem eq_of_isQuote {quote : Char} (h : isQuote quote = true) :
    quote = '\'' ∨ quote = '"' := by
  simpa [isQuote] using h

theorem isQuote_eq_false_of_all {text : List Char}
    (h : text.all (fun c => !isQuote c) = true) : ∀ c ∈ text, isQuote c = false := by
  simpa using h

theorem ne_backslash_of_isQuote (h : isQuote quote = true) : quote ≠ '\\' := by
  rintro rfl
  cases h

/-- Reading stops at the first quote that is neither escaped nor doubled. -/
theorem read?_append (hquote : isQuote quote = true) (h : Contents quote text)
    (hafter : ∀ c ∈ after.head?, c ≠ quote) :
    read? quote (text ++ quote :: after) = some (text, after) := by
  have hbackslash := ne_backslash_of_isQuote hquote
  induction h with
  | nil =>
    cases after with
    | nil => simp [read?]
    | cons d after =>
      have hd : d ≠ quote := hafter d rfl
      simp [read?, hbackslash, hd]
  | escaped c _ ih => simp [read?, ih]
  | doubled _ ih => simp [read?, ih]
  | @plain c text hc hne _ ih =>
    obtain ⟨d, rest, hrest⟩ := List.exists_cons_of_ne_nil
      (show text ++ quote :: after ≠ [] by simp)
    rw [List.cons_append, hrest, read?]
    simp [hc, hne, ← hrest, ih]

/-- Everything that is read lies between quotes. -/
theorem contents_of_read? {input : List Char} (hquote : isQuote quote = true)
    (h : read? quote input = some (text, after)) :
    input = text ++ quote :: after ∧ Contents quote text ∧ ∀ c ∈ after.head?, c ≠ quote := by
  fun_induction read? quote input generalizing text after with
  | case1 => cases h
  | case2 c hc =>
    cases h
    exact ⟨by simpa using hc, .nil, by simp⟩
  | case3 => cases h
  | case4 c d rest hpair ih =>
    obtain ⟨⟨inner, tail⟩, hread, heq⟩ := Option.map_eq_some_iff.mp h
    cases heq
    obtain ⟨rfl, hinner, htail⟩ := ih hread
    refine ⟨rfl, ?_, htail⟩
    rcases Bool.or_eq_true_iff.mp hpair with hc | hc
    · obtain rfl := beq_iff_eq.mp hc
      exact hinner.escaped d
    · obtain ⟨rfl, rfl⟩ : c = quote ∧ d = quote := by simpa using hc
      exact hinner.doubled
  | case5 c d rest hpair hc =>
    cases h
    obtain rfl := beq_iff_eq.mp hc
    refine ⟨rfl, .nil, fun e he => ?_⟩
    obtain rfl : d = e := by simpa using he
    rintro rfl
    simp at hpair
  | case6 c d rest hpair hc ih =>
    obtain ⟨⟨inner, tail⟩, hread, heq⟩ := Option.map_eq_some_iff.mp h
    cases heq
    obtain ⟨hrest, hinner, htail⟩ := ih hread
    refine ⟨by rw [hrest]; rfl, hinner.plain (by simpa using hc) ?_, htail⟩
    rintro rfl
    simp at hpair

end Literal

/-- A character outside of literals, or a literal. -/
inductive Piece where
  | plain (c : Char)
  | literal (literal : Literal)
  deriving DecidableEq

namespace Piece

/-- The text of a piece. -/
def text : Piece → List Char
  | .plain c => [c]
  | .literal found => found.quoted

/-- The text of pieces. -/
def textOf (pieces : List Piece) : List Char :=
  pieces.flatMap text

/-- The pieces of a text. -/
def scan (text : List Char) : Except SyntaxFault (List Piece) :=
  match text with
  | [] => .ok []
  | c :: rest =>
    if Literal.isQuote c then
      match h : Literal.read? c rest with
      | none => .error (.unterminatedLiteral (String.ofList ((c :: rest).take 30)))
      | some (contents, after) =>
        have := Literal.length_read? h
        (scan after).map (.literal ⟨c, contents⟩ :: ·)
    else (scan rest).map (.plain c :: ·)
termination_by text.length

/-- Pieces with placeholders in place of the literals, from a number on. -/
def rewrite (name : Nat → List Char) (index : Nat) : List Piece → List Char
  | [] => []
  | .plain c :: rest => c :: rewrite name index rest
  | .literal _ :: rest => name index ++ rewrite name (index + 1) rest

/-- The literals of pieces by their placeholders, from a number on. -/
def tableOf (name : Nat → List Char) (index : Nat) : List Piece → LiteralTable
  | [] => []
  | .plain _ :: rest => tableOf name index rest
  | .literal found :: rest => (name index, found) :: tableOf name (index + 1) rest

/-- Pieces as they come from a text: a plain character is no quote, and a literal ends at its
closing quote. -/
inductive Scanned : List Piece → Prop
  | nil : Scanned []
  | plain {c : Char} {rest : List Piece} : Literal.isQuote c = false → Scanned rest →
      Scanned (.plain c :: rest)
  | literal {quote : Char} {contents : List Char} {rest : List Piece} :
      Literal.isQuote quote = true → Literal.Contents quote contents →
      (∀ c ∈ (textOf rest).head?, c ≠ quote) → Scanned rest →
      Scanned (.literal ⟨quote, contents⟩ :: rest)

@[simp] theorem textOf_nil : textOf [] = [] := rfl

@[simp] theorem textOf_plain (c : Char) (rest : List Piece) :
    textOf (.plain c :: rest) = c :: textOf rest := rfl

@[simp] theorem textOf_literal (found : Literal) (rest : List Piece) :
    textOf (.literal found :: rest) = found.quoted ++ textOf rest := rfl

theorem scan_nil : scan [] = .ok [] := by
  rw [scan]

theorem scan_plain {c : Char} (hc : Literal.isQuote c = false) (rest : List Char) :
    scan (c :: rest) = (scan rest).map (.plain c :: ·) := by
  rw [scan]
  simp [hc]

theorem scan_literal {quote : Char} {rest contents after : List Char}
    (hquote : Literal.isQuote quote = true)
    (hread : Literal.read? quote rest = some (contents, after)) :
    scan (quote :: rest) = (scan after).map (.literal ⟨quote, contents⟩ :: ·) := by
  rw [scan]
  simp only [hquote, if_true]
  split
  · rename_i hnone
    rw [hnone] at hread
    cases hread
  · rename_i hsome
    rw [hsome] at hread
    cases hread
    rfl

theorem scan_unterminated {quote : Char} {rest : List Char}
    (hquote : Literal.isQuote quote = true) (hread : Literal.read? quote rest = none) :
    scan (quote :: rest) =
      .error (.unterminatedLiteral (String.ofList ((quote :: rest).take 30))) := by
  rw [scan]
  simp only [hquote, if_true]
  split
  · rfl
  · rename_i hsome
    rw [hsome] at hread
    cases hread

/-- A text is what its pieces spell. -/
theorem textOf_of_scan {text : List Char} {pieces : List Piece} (h : scan text = .ok pieces) :
    textOf pieces = text ∧ Scanned pieces := by
  fun_induction scan text generalizing pieces with
  | case1 =>
    cases h
    exact ⟨rfl, .nil⟩
  | case2 => cases h
  | case3 c rest hquote contents after hread _ ih =>
    obtain ⟨later, hlater, rfl⟩ : ∃ later, scan after = .ok later ∧
        .literal ⟨c, contents⟩ :: later = pieces := by
      cases hscan : scan after with
      | error fault => simp [hscan, Except.map] at h
      | ok later => exact ⟨later, rfl, by simpa [hscan, Except.map] using h⟩
    obtain ⟨rfl, hscanned⟩ := ih hlater
    obtain ⟨rfl, hcontents, hafter⟩ := Literal.contents_of_read? hquote hread
    exact ⟨by simp [Literal.quoted], .literal hquote hcontents hafter hscanned⟩
  | case4 c rest hquote ih =>
    obtain ⟨later, hlater, rfl⟩ : ∃ later, scan rest = .ok later ∧ .plain c :: later = pieces := by
      cases hscan : scan rest with
      | error fault => simp [hscan, Except.map] at h
      | ok later => exact ⟨later, rfl, by simpa [hscan, Except.map] using h⟩
    obtain ⟨rfl, hscanned⟩ := ih hlater
    exact ⟨rfl, .plain (Bool.eq_false_iff.mpr hquote) hscanned⟩

/-- Pieces are found again in the text that they spell. -/
theorem scan_textOf {pieces : List Piece} (h : Scanned pieces) :
    scan (textOf pieces) = .ok pieces := by
  induction h with
  | nil => exact scan_nil
  | @plain c rest hc _ ih => rw [textOf_plain, scan_plain hc, ih]; rfl
  | @literal quote contents rest hquote hcontents hafter _ ih =>
    have hread := Literal.read?_append hquote hcontents hafter
    simp only [textOf_literal, Literal.quoted, List.cons_append, List.append_assoc,
      List.nil_append]
    rw [scan_literal hquote hread, ih]
    rfl

/-- Extracting rewrites the pieces of a text. -/
theorem extractFrom_eq (name : Nat → List Char) (index : Nat) (text : List Char) :
    LiteralTable.extractFrom name index text =
      (scan text).map fun pieces => (rewrite name index pieces, tableOf name index pieces) := by
  fun_induction LiteralTable.extractFrom name index text with
  | case1 => rw [scan_nil]; rfl
  | case2 index c rest hquote hread => rw [scan_unterminated hquote hread]; rfl
  | case3 index c rest hquote contents after hread _ ih =>
    rw [scan_literal hquote hread, ih]
    cases scan after <;> rfl
  | case4 index c rest hquote ih =>
    rw [scan_plain (Bool.eq_false_iff.mpr hquote), ih]
    cases scan rest <;> rfl

theorem extract_eq (name : Nat → List Char) (text : List Char) :
    LiteralTable.extract name text =
      (scan text).map fun pieces => (rewrite name 0 pieces, tableOf name 0 pieces) :=
  extractFrom_eq name 0 text

/-- The text and the table that extracting gives come from the pieces of the text. -/
theorem of_extract {name : Nat → List Char} {text rewritten : List Char} {table : LiteralTable}
    (h : LiteralTable.extract name text = .ok (rewritten, table)) :
    ∃ pieces, Scanned pieces ∧ textOf pieces = text ∧ rewrite name 0 pieces = rewritten ∧
      tableOf name 0 pieces = table := by
  rw [extract_eq] at h
  cases hscan : scan text with
  | error fault =>
    rw [hscan] at h
    cases h
  | ok pieces =>
    rw [hscan] at h
    cases h
    obtain ⟨htext, hscanned⟩ := textOf_of_scan hscan
    exact ⟨pieces, hscanned, htext, rfl, rfl⟩

end Piece

end StreamQuery

/-!
## Reading queries

A query is read from the pieces of its text: from the text with placeholders for its literals, and
from the table of the literals.
-/

namespace StreamQuery.Query

variable {α β : Type}

theorem certain_ok_bind (value : α) (next : α → Reporting β) :
    (certain (.ok value) >>= next) = next value := rfl

theorem certain_error_bind (error : Error) (next : α → Reporting β) :
    (certain (.error error) >>= next) = throw error := rfl

theorem parseWith_ok {name : Nat → List Char} {policy : WarningPolicy}
    {defaultTarget text : String} {rewritten : List Char} {literals : LiteralTable}
    {clauses : QueryStructure}
    (hextract : LiteralTable.extract name text.toList = .ok (rewritten, literals))
    (hclauses : QueryStructure.ofText rewritten = .ok clauses) :
    parseWith name policy defaultTarget text =
      ofStructure policy defaultTarget rewritten literals clauses := by
  rw [parseWith, hextract]
  simp only [Except.mapError, certain_ok_bind, hclauses]

/-- A query from a text without literals and a table of literals. -/
def ofRewritten (policy : WarningPolicy) (defaultTarget : String) (rewritten : List Char)
    (literals : LiteralTable) : Reporting Query := do
  let clauses ← certain ((QueryStructure.ofText rewritten).mapError .syntaxFault)
  ofStructure policy defaultTarget rewritten literals clauses

theorem ofRewritten_ok {policy : WarningPolicy} {defaultTarget : String} {rewritten : List Char}
    {literals : LiteralTable} {clauses : QueryStructure}
    (h : QueryStructure.ofText rewritten = .ok clauses) :
    ofRewritten policy defaultTarget rewritten literals =
      ofStructure policy defaultTarget rewritten literals clauses := by
  rw [ofRewritten, h]
  exact certain_ok_bind clauses _

theorem ofRewritten_error {policy : WarningPolicy} {defaultTarget : String}
    {rewritten : List Char} {literals : LiteralTable} {fault : SyntaxFault}
    (h : QueryStructure.ofText rewritten = .error fault) :
    ofRewritten policy defaultTarget rewritten literals = throw (.syntaxFault fault) := by
  rw [ofRewritten, h]
  exact certain_error_bind _ _

theorem parseWith_scanned {name : Nat → List Char} {policy : WarningPolicy}
    {defaultTarget : String} {text : List Char} {pieces : List Piece}
    (h : Piece.scan text = .ok pieces) :
    parseWith name policy defaultTarget (String.ofList text) =
      ofRewritten policy defaultTarget (Piece.rewrite name 0 pieces)
        (Piece.tableOf name 0 pieces) := by
  rw [parseWith, String.toList_ofList, Piece.extract_eq, h]
  exact certain_ok_bind _ _

theorem parseWith_unterminated {name : Nat → List Char} {policy : WarningPolicy}
    {defaultTarget : String} {text : List Char} {fault : SyntaxFault}
    (h : Piece.scan text = .error fault) :
    parseWith name policy defaultTarget (String.ofList text) = throw (.syntaxFault fault) := by
  rw [parseWith, String.toList_ofList, Piece.extract_eq, h]
  exact certain_error_bind _ _

/-- The modifiers are words of eight letters. -/
theorem modifier_eq (keyword : List Char) {text : List Char}
    (h : (text.drop keyword.length).head?.any Unicode.isWhitespace = false) :
    Selection.modifier keyword text = (false, text) := by
  have hnone : Item.dropKeyword? keyword text = none := by
    unfold Item.dropKeyword?
    split
    · split
      case h_1 c rest hdrop =>
        rw [hdrop] at h
        exact if_neg (Bool.eq_false_iff.mp h)
      case h_2 => rfl
    · rfl
  rw [Selection.modifier, hnone]

end StreamQuery.Query
