import Mathlib.Data.List.Forall2
import StreamQuery.Proofs.Agreement
import StreamQuery.Proofs.Query.Piece

/-!
# Other contents for literals

Two texts that differ only in the contents of their literals. Reading queries from them takes the
same steps: what is read are the same clauses, and only the table of literals and the names of
columns that contain literals differ.
-/

namespace StreamQuery

/-- A text and the same text with other contents in its literals. The contents of a literal and
those put in their place are related. -/
inductive Refilled (related : Literal → Literal → Prop) : List Char → List Char → Prop
  | nil : Refilled related [] []
  | plain {c : Char} {rest other : List Char} : Literal.isQuote c = false →
      Refilled related rest other → Refilled related (c :: rest) (c :: other)
  | literal {quote : Char} {contents filling rest other : List Char} :
      Literal.isQuote quote = true → Literal.Contents quote contents →
      Literal.Contents quote filling → related ⟨quote, contents⟩ ⟨quote, filling⟩ →
      (∀ c ∈ rest.head?, c ≠ quote) → Refilled related rest other →
      Refilled related (quote :: contents ++ quote :: rest) (quote :: filling ++ quote :: other)
  | unterminated {quote : Char} {rest : List Char} : Literal.isQuote quote = true →
      Literal.read? quote rest = none → Refilled related (quote :: rest) (quote :: rest)

/-- The entries of two tables for the same placeholder, with literals that are related. -/
structure SameEntry (related : Literal → Literal → Prop) (entry other : List Char × Literal) :
    Prop where
  placeholder : entry.1 = other.1
  related : related entry.2 other.2

variable {related : Literal → Literal → Prop}

namespace Refilled

theorem head?_eq {text other : List Char} (h : Refilled related text other) :
    text.head? = other.head? := by
  cases h <;> rfl

/-- At the front of two refilled texts stands the same character, and refilled texts follow it
unless it is a quote. -/
theorem cons_cases {c : Char} {rest other : List Char} (h : Refilled related (c :: rest) other) :
    (Literal.isQuote c = false ∧ ∃ others, other = c :: others ∧ Refilled related rest others) ∨
    (Literal.isQuote c = true ∧ ∃ others, other = c :: others) := by
  generalize htext : c :: rest = text at h
  cases h with
  | nil => cases htext
  | plain hc hrest =>
    cases htext
    exact .inl ⟨hc, _, rfl, hrest⟩
  | literal hquote =>
    obtain ⟨rfl, -⟩ := List.cons.inj htext
    exact .inr ⟨hquote, _, rfl⟩
  | unterminated hquote =>
    cases htext
    exact .inr ⟨hquote, _, rfl⟩

theorem cons_plain {c : Char} {rest other : List Char} (h : Refilled related (c :: rest) other)
    (hc : Literal.isQuote c = false) :
    ∃ others, other = c :: others ∧ Refilled related rest others := by
  rcases h.cons_cases with ⟨-, hplain⟩ | ⟨hquote, -⟩
  · exact hplain
  · cases hc.symm.trans hquote

theorem ne_cons {c : Char} {text other : List Char} (h : Refilled related text other)
    (hne : ∀ rest, text = c :: rest → False) (rest : List Char) : other = c :: rest → False := by
  rintro rfl
  have hhead := h.head?_eq
  cases text with
  | nil => cases hhead
  | cons d tail =>
    obtain rfl : d = c := Option.some.inj hhead
    exact hne _ rfl

theorem symm {text other : List Char} (h : Refilled related text other) :
    Refilled (fun literal filling => related filling literal) other text := by
  induction h with
  | nil => exact .nil
  | plain hc _ ih => exact .plain hc ih
  | literal hquote hcontents hfilling hrelated hne hrest ih =>
    exact .literal hquote hfilling hcontents hrelated (hrest.head?_eq ▸ hne) ih
  | unterminated hquote hread => exact .unterminated hquote hread

/-- Texts that differ only in the contents of literals have the same text outside of literals. -/
theorem scan {text other : List Char} (h : Refilled related text other) :
    (∃ fault, Piece.scan text = .error fault ∧ Piece.scan other = .error fault) ∨
    ∃ pieces others, Piece.scan text = .ok pieces ∧ Piece.scan other = .ok others ∧
      ∀ (name : Nat → List Char) (index : Nat),
        Piece.rewrite name index pieces = Piece.rewrite name index others ∧
        List.Forall₂ (SameEntry related) (Piece.tableOf name index pieces)
          (Piece.tableOf name index others) := by
  induction h with
  | nil => exact .inr ⟨[], [], Piece.scan_nil, Piece.scan_nil, fun _ _ => ⟨rfl, .nil⟩⟩
  | @plain c rest other hc _ ih =>
    rw [Piece.scan_plain hc, Piece.scan_plain hc]
    rcases ih with ⟨fault, htext, hother⟩ | ⟨pieces, others, htext, hother, hsame⟩
    · exact .inl ⟨fault, by rw [htext]; rfl, by rw [hother]; rfl⟩
    · refine .inr ⟨_, _, by rw [htext]; rfl, by rw [hother]; rfl, fun name index => ?_⟩
      obtain ⟨hrewrite, htable⟩ := hsame name index
      exact ⟨congrArg (c :: ·) hrewrite, htable⟩
  | @literal quote contents filling rest other hquote hcontents hfilling hrelated hne hrest ih =>
    have hotherNe : ∀ c ∈ other.head?, c ≠ quote := by
      rwa [← hrest.head?_eq]
    rw [List.cons_append, List.cons_append,
      Piece.scan_literal hquote (Literal.read?_append hquote hcontents hne),
      Piece.scan_literal hquote (Literal.read?_append hquote hfilling hotherNe)]
    rcases ih with ⟨fault, htext, hother⟩ | ⟨pieces, others, htext, hother, hsame⟩
    · exact .inl ⟨fault, by rw [htext]; rfl, by rw [hother]; rfl⟩
    · refine .inr ⟨_, _, by rw [htext]; rfl, by rw [hother]; rfl, fun name index => ?_⟩
      obtain ⟨hrewrite, htable⟩ := hsame name (index + 1)
      exact ⟨congrArg (name index ++ ·) hrewrite, .cons ⟨rfl, hrelated⟩ htable⟩
  | unterminated hquote hread =>
    exact .inl ⟨_, Piece.scan_unterminated hquote hread, Piece.scan_unterminated hquote hread⟩

end Refilled

/-! ### Tables with the same placeholders -/

namespace LiteralTable

variable {table others : LiteralTable}

/-- A placeholder is in both of two tables with the same placeholders, or in none. -/
theorem get?_cases (h : List.Forall₂ (SameEntry related) table others) (word : List Char) :
    (table.get? word = none ∧ others.get? word = none) ∨
    ∃ literal other, table.get? word = some literal ∧ others.get? word = some other ∧
      (word, literal) ∈ table ∧ related literal other := by
  induction h with
  | nil => exact .inl ⟨rfl, rfl⟩
  | @cons entry other table others hentry _ ih =>
    by_cases hword : entry.1 = word
    · have hother : other.1 = word := hentry.placeholder.symm.trans hword
      refine .inr ⟨entry.2, other.2, by simp [get?, hword], by simp [get?, hother], ?_,
        hentry.related⟩
      rw [← hword]
      exact List.mem_cons_self
    · have hother : other.1 ≠ word := fun h => hword (hentry.placeholder.trans h)
      have hskip : get? (entry :: table) word = get? table word := by simp [get?, hword]
      have hotherSkip : get? (other :: others) word = get? others word := by simp [get?, hother]
      rw [hskip, hotherSkip]
      rcases ih with hnone | ⟨literal, otherLiteral, hsome, hotherSome, hmem, hrelated⟩
      · exact .inl hnone
      · exact .inr ⟨literal, otherLiteral, hsome, hotherSome, List.mem_cons_of_mem _ hmem, hrelated⟩

/-- Whether a placeholder of a table occurs in a text. -/
def Mentions (table : LiteralTable) (text : List Char) : Prop :=
  ∃ entry ∈ table, entry.1 <:+: text

theorem Mentions.of_part {part text : List Char} (h : table.Mentions part)
    (hpart : part <:+: text) : table.Mentions text := by
  obtain ⟨entry, hentry, hwithin⟩ := h
  exact ⟨entry, hentry, hwithin.trans hpart⟩

/-- Restoring a text without placeholders does not look into the table. -/
theorem restoreFrom_eq_of_not_mentions (h : List.Forall₂ (SameEntry related) table others)
    (quotes : Bool) {text : List Char} (htext : ¬ table.Mentions text) (skip : Nat) :
    restoreFrom table quotes skip text = restoreFrom others quotes skip text := by
  induction text generalizing skip with
  | nil => rfl
  | cons c rest ih =>
    have hrest : ¬ table.Mentions rest := fun h =>
      htext (h.of_part (List.suffix_cons c rest).isInfix)
    cases skip with
    | succ skip => exact ih hrest skip
    | zero =>
      simp only [restoreFrom, ih hrest]
      have hrestored : table.restored quotes ((c :: rest).take Placeholder.size) =
          others.restored quotes ((c :: rest).take Placeholder.size) := by
        rcases get?_cases h ((c :: rest).take Placeholder.size) with ⟨hnone, hotherNone⟩ |
          ⟨literal, other, -, -, hmem, -⟩
        · rw [restored, restored, hnone, hotherNone]
        · exact absurd ⟨_, hmem, (List.take_prefix _ _).isInfix⟩ htext
      rw [hrestored]

end LiteralTable

/-! ### Output columns -/

/-- Two items of `SELECT` that are the same except for literals in the name of the column: it is
put together by restoring one text from both tables. -/
inductive SelectItem.SameButLiterals (table others : LiteralTable) :
    SelectItem → SelectItem → Prop
  | star : SameButLiterals table others .star .star
  | same (name expression : String) :
      SameButLiterals table others (.column name expression) (.column name expression)
  | mentioning (make : List Char → List Char) (source : List Char) (expression : String) :
      make = id ∨ make = Selection.identifier → table.Mentions source →
      SameButLiterals table others
        (.column (String.ofList (make (table.restore false source))) expression)
        (.column (String.ofList (make (others.restore false source))) expression)

namespace Selection

variable {table others : LiteralTable}

theorem sameButLiterals_named (h : List.Forall₂ (SameEntry related) table others)
    {make : List Char → List Char} (hmake : make = id ∨ make = identifier) (source : List Char)
    (expression : String) :
    SelectItem.SameButLiterals table others
      (.column (String.ofList (make (table.restore false source))) expression)
      (.column (String.ofList (make (others.restore false source))) expression) := by
  by_cases hsource : table.Mentions source
  · exact .mentioning make source expression hmake hsource
  · have hrestore : table.restore false source = others.restore false source :=
      LiteralTable.restoreFrom_eq_of_not_mentions h false hsource 0
    rw [hrestore]
    exact .same _ _

theorem sameButLiterals_item (h : List.Forall₂ (SameEntry related) table others)
    (text : List Char) :
    SelectItem.SameButLiterals table others (item table text) (item others text) := by
  unfold item
  cases hsplit : Item.splitAtKeyword? ['A', 'S'] text with
  | none =>
    simp only
    split
    · exact .star
    · exact sameButLiterals_named h (.inr rfl) _ _
  | some parts =>
    simp only
    split
    · exact .star
    · exact sameButLiterals_named h (.inl rfl) _ _

theorem sameButLiterals_items (h : List.Forall₂ (SameEntry related) table others)
    (text : List Char) :
    List.Forall₂ (SelectItem.SameButLiterals table others) (ofText table text).items
      (ofText others text).items := by
  simp only [ofText, List.forall₂_map_left_iff, List.forall₂_map_right_iff, List.forall₂_same]
  exact fun part _ => sameButLiterals_item h part

end Selection

/-! ### Queries -/

/-- Two queries that are the same except for their literals, which have the same placeholders, and
the names of columns that mention literals. -/
structure Query.SameButLiterals (related : Literal → Literal → Prop) (query other : Query) :
    Prop where
  literals : List.Forall₂ (SameEntry related) query.literals other.literals
  items : List.Forall₂ (SelectItem.SameButLiterals query.literals other.literals)
    query.selection.items other.selection.items
  distinct : query.selection.distinct = other.selection.distinct
  partials : query.selection.partials = other.selection.partials
  imports : query.imports = other.imports
  source : query.source = other.source
  explode : query.explode = other.explode
  condition : query.condition = other.condition
  groupBy : query.groupBy = other.groupBy
  orderBy : query.orderBy = other.orderBy
  limit : query.limit = other.limit
  offset : query.offset = other.offset
  target : query.target = other.target

namespace Query

variable {table others : LiteralTable}

/-- A number in `GROUP BY` stands for an expression, never for a name. -/
theorem groupItem_eq {items otherItems : List SelectItem}
    (h : List.Forall₂ (SelectItem.SameButLiterals table others) items otherItems) :
    groupItem items = groupItem otherItems := by
  have hitem : ∀ index : Nat, (items[index]? = none ∧ otherItems[index]? = none) ∨
      ∃ item other, items[index]? = some item ∧ otherItems[index]? = some other ∧
        SelectItem.SameButLiterals table others item other := by
    intro index
    by_cases hindex : index < items.length
    · have hotherIndex : index < otherItems.length := h.length_eq ▸ hindex
      exact .inr ⟨_, _, List.getElem?_eq_getElem hindex, List.getElem?_eq_getElem hotherIndex,
        (List.forall₂_iff_get.mp h).2 index hindex hotherIndex⟩
    · have hotherIndex : ¬ index < otherItems.length := h.length_eq ▸ hindex
      exact .inl ⟨List.getElem?_eq_none (Nat.le_of_not_lt hindex),
        List.getElem?_eq_none (Nat.le_of_not_lt hotherIndex)⟩
  funext text
  unfold groupItem
  cases Item.columnNumber? .groupBy text with
  | error fault => rfl
  | ok number =>
    cases number with
    | none => rfl
    | some index =>
      simp only [bind, Except.bind]
      rcases hitem index with ⟨hnone, hotherNone⟩ | ⟨item, other, hsome, hotherSome, hsame⟩
      · rw [hnone, hotherNone, h.length_eq]
      · rw [hsome, hotherSome]
        cases hsame <;> rfl

theorem parseGroupBy_eq {items otherItems : List SelectItem}
    (h : List.Forall₂ (SelectItem.SameButLiterals table others) items otherItems)
    (text : List Char) : parseGroupBy items text = parseGroupBy otherItems text := by
  rw [parseGroupBy, parseGroupBy, groupItem_eq h]

/-- The last step of reading a query. -/
theorem agree_finish {query other : Query} (h : SameButLiterals related query other) (fails : Bool)
    (error : Error) :
    Reporting.Agree Eq (SameButLiterals related)
      (if fails = true then (do throw error; pure query) else pure query)
      (if fails = true then (do throw error; pure other) else pure other) := by
  cases fails with
  | true => exact Reporting.agree_bind_same fun _ => Reporting.agree_pure h
  | false => exact Reporting.agree_pure h

theorem agree_ofStructure (h : List.Forall₂ (SameEntry related) table others)
    (policy : WarningPolicy) (defaultTarget : String) (rewritten : List Char)
    (clauses : QueryStructure) :
    Reporting.Agree Eq (SameButLiterals related)
      (ofStructure policy defaultTarget rewritten table clauses)
      (ofStructure policy defaultTarget rewritten others clauses) := by
  have hitems := Selection.sameButLiterals_items h
    ((clauses.nonEmpty? .select).getD "").toList
  have hdistinct : (Selection.ofText table ((clauses.nonEmpty? .select).getD "").toList).distinct =
      (Selection.ofText others ((clauses.nonEmpty? .select).getD "").toList).distinct := rfl
  have hpartials : (Selection.ofText table ((clauses.nonEmpty? .select).getD "").toList).partials =
      (Selection.ofText others ((clauses.nonEmpty? .select).getD "").toList).partials := rfl
  simp only [ofStructure]
  generalize Selection.ofText table ((clauses.nonEmpty? .select).getD "").toList = selection at *
  generalize Selection.ofText others ((clauses.nonEmpty? .select).getD "").toList =
    otherSelection at *
  simp only [parseGroupBy_eq hitems, hdistinct, pure_bind]
  refine Reporting.agree_bind_same fun imports => ?_
  refine Reporting.agree_bind_same fun source => ?_
  refine Reporting.agree_bind_same fun condition => ?_
  refine Reporting.agree_bind_same fun orderBy => ?_
  -- However the rows are grouped, the queries differ in their literals and items only.
  split
  case' h_1 => refine Reporting.agree_bind_same fun groupBy => agree_finish ?_ _ _
  case' h_2 => split
  case' h_2.isTrue => refine agree_finish ?_ _ _
  case' h_2.isFalse => split
  case' h_2.isFalse.isTrue => refine Reporting.agree_bind_same fun _ => agree_finish ?_ _ _
  case' h_2.isFalse.isFalse => refine agree_finish ?_ _ _
  all_goals exact ⟨h, hitems, hdistinct, hpartials, rfl, rfl, rfl, rfl, rfl, rfl, rfl, rfl, rfl⟩

/-- Other contents in the literals of a text change nothing but the table of literals and the names
of columns that mention literals; and a text that cannot be read fails in the same way. -/
theorem agree_parseWith {text other : List Char} (h : Refilled related text other)
    (name : Nat → List Char) (policy : WarningPolicy) (defaultTarget : String) :
    Reporting.Agree Eq (SameButLiterals related)
      (parseWith name policy defaultTarget (String.ofList text))
      (parseWith name policy defaultTarget (String.ofList other)) := by
  rcases h.scan with ⟨fault, htext, hother⟩ | ⟨pieces, others, htext, hother, hsame⟩
  · rw [parseWith_unterminated htext, parseWith_unterminated hother]
    exact Reporting.agree_throw rfl
  · obtain ⟨hrewrite, htable⟩ := hsame name 0
    rw [parseWith_scanned htext, parseWith_scanned hother, ← hrewrite]
    cases hclauses : QueryStructure.ofText (Piece.rewrite name 0 pieces) with
    | error fault =>
      rw [ofRewritten_error hclauses, ofRewritten_error hclauses]
      exact Reporting.agree_throw rfl
    | ok clauses =>
      rw [ofRewritten_ok hclauses, ofRewritten_ok hclauses]
      exact agree_ofStructure htable policy defaultTarget _ clauses

end Query

end StreamQuery
