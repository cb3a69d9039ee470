import StreamQuery.Proofs.Expr.Parsing
import StreamQuery.Proofs.Query.Apart
import StreamQuery.Proofs.Query.Cutting

/-!
# Literals and what they contain

Where shorthand may take a literal for a part of a name, and that what literals contain matters
nowhere else.
-/

/-!
## Literals that touch words

Shorthand takes the word behind a dot or an arrow for a name. In a text with placeholders a literal
that touches other characters of words becomes a part of a word; in all texts without such words
behind dots and arrows, names are apart from literals.
-/

namespace StreamQuery

namespace Piece

open Fragment

/-- Whether a piece becomes a part of a word: a character of words, or a literal. -/
def inWord : Piece → Bool
  | .plain c => isNameChar c
  | .literal _ => true

/-- Whether a piece is a literal. -/
def isLiteral : Piece → Bool
  | .plain _ => false
  | .literal _ => true

/-- Whether the word at the front of pieces is made of a literal and more. -/
def touches (pieces : List Piece) : Bool :=
  let word := pieces.takeWhile inWord
  word.any isLiteral && word.length != 1

/-- Whether pieces begin with a dot or an arrow and a word that is made of a literal and more. -/
def beginsName : List Piece → Bool
  | .plain '.' :: rest => touches rest
  | .plain '-' :: .plain '>' :: rest => touches rest
  | _ => false

/-- Whether shorthand may take a literal for a part of a name. -/
def takesLiteral (pieces : List Piece) : Bool :=
  pieces.tails.any beginsName

variable {name : Nat → List Char} {index : Nat} {pieces : List Piece}

theorem beginsName_of_takesLiteral {first rest : List Piece}
    (h : takesLiteral (first ++ rest) = false) : beginsName rest = false :=
  Bool.eq_false_iff.mpr fun hbegins => by
    refine Bool.eq_false_iff.mp h (List.any_eq_true.mpr ⟨rest, ?_, hbegins⟩)
    exact (List.mem_tails rest _).mpr (List.suffix_append first rest)

/-- A sign of the rewritten text is a character outside of literals. -/
theorem exists_of_rewrite {c : Char} (hc : isNameChar c = false) {before after : List Char}
    (hnames : ∀ entry ∈ tableOf name index pieces, Placeholder.isWhole entry.1 = true)
    (h : rewrite name index pieces = before ++ c :: after) :
    ∃ first rest later, pieces = first ++ .plain c :: rest ∧ after = rewrite name later rest ∧
      ∀ entry ∈ tableOf name later rest, entry ∈ tableOf name index pieces := by
  induction pieces generalizing before index with
  | nil => simp [rewrite] at h
  | cons piece rest ih =>
    cases piece with
    | plain d =>
      cases before with
      | nil =>
        obtain ⟨rfl, rfl⟩ := List.cons.inj h
        exact ⟨[], rest, index, rfl, rfl, fun _ hentry => hentry⟩
      | cons e before =>
        obtain ⟨-, htail⟩ := List.cons.inj h
        obtain ⟨first, found, later, rfl, hafter, hmem⟩ := ih hnames htail
        exact ⟨.plain d :: first, found, later, rfl, hafter, hmem⟩
    | literal found =>
      obtain ⟨hname, hrest⟩ := List.forall_mem_cons.mp hnames
      have hplaceholder : c ∉ name index := fun hmem => by
        cases hc.symm.trans (List.all_eq_true.mp (isNameChar_of_isWhole hname) c hmem)
      -- The sign is not a character of the placeholder, so it stands behind it.
      have hlater : ∃ middle, rewrite name (index + 1) rest = middle ++ c :: after := by
        rcases List.append_eq_append_iff.mp h with ⟨middle, -, hmiddle⟩ | ⟨middle, hmiddle, htail⟩
        · exact ⟨middle, hmiddle⟩
        · cases middle with
          | nil => exact ⟨[], htail.symm⟩
          | cons d middle =>
            obtain ⟨rfl, -⟩ := List.cons.inj htail
            exact absurd (by simp [hmiddle]) hplaceholder
      obtain ⟨middle, hmiddle⟩ := hlater
      obtain ⟨first, last, later, rfl, hafter, hmem⟩ := ih hrest hmiddle
      exact ⟨.literal found :: first, last, later, rfl, hafter,
        fun entry hentry => List.mem_cons_of_mem _ (hmem entry hentry)⟩

theorem exists_rewrite_append (name : Nat → List Char) (index : Nat) (first rest : List Piece) :
    ∃ later, rewrite name index (first ++ rest) =
      rewrite name index first ++ rewrite name later rest := by
  induction first generalizing index with
  | nil => exact ⟨index, rfl⟩
  | cons piece first ih =>
    cases piece with
    | plain c =>
      obtain ⟨later, hlater⟩ := ih index
      exact ⟨later, congrArg (c :: ·) hlater⟩
    | literal found =>
      obtain ⟨later, hlater⟩ := ih (index + 1)
      exact ⟨later, by rw [List.cons_append, rewrite, rewrite, hlater, List.append_assoc]⟩

theorem rewrite_of_no_literal (h : pieces.any isLiteral = false) :
    rewrite name index pieces = textOf pieces := by
  induction pieces with
  | nil => rfl
  | cons piece rest ih =>
    rw [List.any_cons, Bool.or_eq_false_iff] at h
    cases piece with
    | plain c => exact congrArg (c :: ·) (ih h.2)
    | literal => cases h.1

/-- The rewritten text goes on with another character than those of words behind a word. -/
theorem isNameChar_head_rewrite (rest : List Piece) :
    ∀ c ∈ (rewrite name index (rest.dropWhile inWord)).head?, isNameChar c = false := by
  have hhead := List.head?_dropWhile_not inWord rest
  generalize rest.dropWhile inWord = dropped at hhead
  intro c hc
  match dropped with
  | [] => cases hc
  | .plain d :: dropped =>
    obtain rfl := Option.some.inj hc
    exact hhead
  | .literal found :: dropped => cases hhead

/-- A word of the rewritten text that mentions a placeholder is one, unless the literal touches
more of the word. -/
theorem free_of_touches {table : LiteralTable} (hfits : table.Fits (textOf pieces))
    (hnames : ∀ entry ∈ tableOf name index pieces, entry ∈ table)
    (htouches : touches pieces = false) {word : List Char} (hword : word.all isNameChar = true)
    (h : word <+: rewrite name index pieces) : table.Free word := by
  rintro ⟨entry, hentry, hwithin⟩
  have hparts : pieces.takeWhile inWord ++ pieces.dropWhile inWord = pieces :=
    List.takeWhile_append_dropWhile
  have hfront : pieces.takeWhile inWord <+: pieces := List.takeWhile_prefix _
  obtain ⟨later, hlater⟩ :=
    exists_rewrite_append name index (pieces.takeWhile inWord) (pieces.dropWhile inWord)
  rw [hparts] at hlater
  rw [hlater] at h
  have hrewrite := prefix_of_all hword (isNameChar_head_rewrite pieces) h
  clear hlater h
  -- The word lies within the first word of the pieces. Without a literal that is text of the
  -- query, where no placeholder occurs; a literal is all of it.
  cases hliteral : (pieces.takeWhile inWord).any isLiteral with
  | false =>
    obtain ⟨after, hafter⟩ := hfront
    rw [rewrite_of_no_literal hliteral] at hrewrite
    have hpart : textOf (pieces.takeWhile inWord) <+: textOf pieces :=
      ⟨textOf after, by rw [← textOf_append, hafter]⟩
    exact absurd (hwithin.trans (hrewrite.trans hpart).isInfix) (hfits.absent entry hentry)
  | true =>
    have hsingle : (pieces.takeWhile inWord).length = 1 := by
      simpa [touches, hliteral] using htouches
    obtain ⟨piece, hpiece⟩ := List.length_eq_one_iff.mp hsingle
    rw [hpiece] at hliteral hrewrite hfront
    cases piece with
    | plain c => simp [isLiteral] at hliteral
    | literal found =>
      obtain ⟨after, rfl⟩ := hfront
      have hwhole : Placeholder.isWhole (name index) = true :=
        hfits.whole _ (hnames _ List.mem_cons_self)
      rw [rewrite, rewrite, List.append_nil] at hrewrite
      have hlength : entry.1.length = (name index).length := by
        rw [Placeholder.length_of_isWhole hwhole,
          Placeholder.length_of_isWhole (hfits.whole entry hentry)]
      have hsame : word = name index := by
        refine hrewrite.eq_of_length_le ?_
        rw [← hlength]
        exact List.IsInfix.length_le hwithin
      rw [hsame]
      exact hwhole

theorem isQuote_rewrite (hscanned : Scanned pieces)
    (hnames : ∀ entry ∈ tableOf name index pieces, Placeholder.isWhole entry.1 = true) :
    ∀ c ∈ rewrite name index pieces, Literal.isQuote c = false := by
  induction hscanned generalizing index with
  | nil => exact fun _ hc => absurd hc List.not_mem_nil
  | plain hplain _ ih => exact List.forall_mem_cons.mpr ⟨hplain, ih hnames⟩
  | literal _ _ _ _ ih =>
    obtain ⟨hname, hrest⟩ := List.forall_mem_cons.mp hnames
    intro c hc
    rcases List.mem_append.mp hc with hmem | hmem
    · exact isQuote_of_isNameChar (List.all_eq_true.mp (isNameChar_of_isWhole hname) c hmem)
    · exact ih hrest c hmem

theorem fits_append {table : LiteralTable} {first rest : List Piece}
    (h : table.Fits (textOf (first ++ rest))) : table.Fits (textOf rest) := by
  refine ⟨h.whole, h.nodup, fun entry hentry hwithin => h.absent entry hentry ?_⟩
  rw [Piece.textOf_append]
  exact hwithin.trans (List.suffix_append _ _).isInfix

/-- The rewritten text of pieces is apart from their literals. -/
theorem apart_rewrite (hscanned : Scanned pieces)
    (hfits : (tableOf name 0 pieces).Fits (textOf pieces)) (h : takesLiteral pieces = false) :
    (tableOf name 0 pieces).Apart (rewrite name 0 pieces) := by
  refine ⟨isQuote_rewrite hscanned hfits.whole, fun word hword hwithin => ?_,
    fun key hkey hwithin => ?_⟩
  · obtain ⟨before, after, heq⟩ := hwithin
    rw [List.append_assoc, List.cons_append] at heq
    obtain ⟨first, rest, later, rfl, hafter, hmem⟩ :=
      exists_of_rewrite (by decide) hfits.whole heq.symm
    have htouches : touches rest = false := beginsName_of_takesLiteral h
    have hsplit : first ++ .plain '.' :: rest = (first ++ [.plain '.']) ++ rest := by simp
    rw [hsplit] at hfits hmem ⊢
    exact free_of_touches (fits_append hfits) hmem htouches hword ⟨after, hafter⟩
  · obtain ⟨before, after, heq⟩ := hwithin
    rw [List.append_assoc, List.cons_append, List.cons_append] at heq
    obtain ⟨first, rest, later, rfl, hafter, hmem⟩ :=
      exists_of_rewrite (by decide) hfits.whole heq.symm
    cases rest with
    | nil => cases hafter
    | cons piece rest =>
      cases piece with
      | literal found =>
        -- A placeholder begins with an underscore, not with the head of an arrow.
        have hwhole := hfits.whole _ (hmem _ List.mem_cons_self)
        obtain ⟨letters, -, -, hname⟩ := Placeholder.isWhole_iff.mp hwhole
        change name later = _ at hname
        rw [rewrite, hname] at hafter
        cases (List.cons.inj hafter).1
      | plain c =>
        obtain ⟨rfl, hkeyAfter⟩ := List.cons.inj hafter
        have htouches : touches rest = false := beginsName_of_takesLiteral h
        have hsplit : first ++ .plain '-' :: .plain '>' :: rest =
            (first ++ [.plain '-', .plain '>']) ++ rest := by simp
        rw [hsplit] at hfits hmem ⊢
        exact free_of_touches (fits_append hfits) hmem htouches hkey ⟨after, hkeyAfter⟩

end Piece

namespace LiteralTable

/-- Whether shorthand may take a literal of a text for a part of a name: a dot or an arrow stands
right before a word in which a literal touches other characters of words, or another literal, as in
`a.'b'c` and `a->b'c'`. -/
def takesLiteral (text : List Char) : Bool :=
  match Piece.scan text with
  | .ok pieces => Piece.takesLiteral pieces
  | .error _ => false

/-- A text with fitting placeholders is apart from its literals, unless shorthand takes one. -/
theorem apart_extract {name : Nat → List Char} {text rewritten : List Char} {table : LiteralTable}
    (hextract : extract name text = .ok (rewritten, table)) (hfits : table.Fits text)
    (h : takesLiteral text = false) : table.Apart rewritten := by
  obtain ⟨pieces, hscanned, rfl, rfl, rfl⟩ := Piece.of_extract hextract
  rw [takesLiteral, Piece.scan_textOf hscanned] at h
  exact Piece.apart_rewrite hscanned hfits h

end LiteralTable

end StreamQuery

/-!
## The contents of literals

Replacing the contents of the literals of a query changes neither how it is read nor how its
expressions compile: the contents only come up again as constants and keys of the expressions, and
in the names of output columns. The exception are literals that shorthand takes for parts of names:
they are put between other quotes, where their contents do act as syntax.
-/

namespace StreamQuery

open LiteralTable

variable {related : Literal → Literal → Prop}

namespace Refilled

/-- Whatever is put in a literal fits between its quotes. -/
theorem fillings {text other : List Char} (h : Refilled related text other) :
    Refilled Fillings text other := by
  induction h with
  | nil => exact .nil
  | plain hc _ ih => exact .plain hc ih
  | literal hquote hcontents hfilling _ hne _ ih =>
    exact .literal hquote hcontents hfilling ⟨rfl, hquote, hcontents, hfilling⟩ hne ih
  | unterminated hquote hread => exact .unterminated hquote hread

end Refilled

namespace Piece

/-- The outline of a piece: the character, or the quote of the literal. -/
def outline : Piece → Char × Bool
  | .plain c => (c, false)
  | .literal found => (found.quote, true)

/-- Texts whose pieces have the same outlines differ only in the contents of their literals. -/
theorem refilled_of_scanned {pieces others : List Piece} (h : Scanned pieces)
    (hothers : Scanned others) (houtline : pieces.map outline = others.map outline) :
    Refilled (fun _ _ => True) (textOf pieces) (textOf others) := by
  induction h generalizing others with
  | nil =>
    cases others with
    | nil => exact .nil
    | cons => cases houtline
  | @plain c rest hc _ ih =>
    cases hothers with
    | nil => cases houtline
    | plain _ hrest =>
      obtain ⟨heq, htail⟩ := List.cons.inj houtline
      obtain ⟨rfl, -⟩ := Prod.mk.inj heq
      exact .plain hc (ih hrest htail)
    | literal => cases (List.cons.inj houtline).1
  | @literal quote contents rest hquote hcontents hne _ ih =>
    cases hothers with
    | nil => cases houtline
    | plain => cases (List.cons.inj houtline).1
    | literal _ hfilling hotherNe hrest =>
      obtain ⟨heq, htail⟩ := List.cons.inj houtline
      obtain ⟨rfl, -⟩ := Prod.mk.inj heq
      simpa [Literal.quoted] using
        Refilled.literal hquote hcontents hfilling trivial hne (ih hrest htail)

/-- The outlines of the pieces of a text whose literals all end. -/
def outlines? (text : List Char) : Option (List (Char × Bool)) :=
  (scan text).toOption.map (·.map outline)

theorem refilled_of_outlines? {text other : List Char} (h : (outlines? text).isSome = true)
    (heq : outlines? text = outlines? other) : Refilled (fun _ _ => True) text other := by
  obtain ⟨found, hfound⟩ := Option.isSome_iff_exists.mp h
  obtain ⟨pieces, hpieces, rfl⟩ := Option.map_eq_some_iff.mp hfound
  obtain ⟨others, hothers, houtline⟩ := Option.map_eq_some_iff.mp (heq.symm.trans hfound)
  obtain ⟨rfl, hscanned⟩ := textOf_of_scan (eq_ok_of_toOption hpieces)
  obtain ⟨rfl, hotherScanned⟩ := textOf_of_scan (eq_ok_of_toOption hothers)
  exact refilled_of_scanned hscanned hotherScanned houtline.symm

end Piece

namespace Query

/-- The expressions of two queries have the same texts with placeholders, and for all columns they
compile alike: with the same warnings, and to expressions that are the same except for constants
and keys from the literals behind the same placeholders. -/
structure CompilesAlike (query other : Query) : Prop where
  expressions : query.expressions = other.expressions
  compiles : ∀ expression ∈ query.expressions, ∀ (policy : WarningPolicy)
    (bindings : ColumnBindings),
    Reporting.Agree (fun _ _ => True)
      (Expr.Alike (Constants (Joined (Swapped query.literals other.literals))))
      (Expr.compile policy (bindings.prepare query.literals expression))
      (Expr.compile policy (bindings.prepare other.literals expression))

theorem itemTexts_eq {table others : LiteralTable} {items otherItems : List SelectItem}
    (h : List.Forall₂ (SelectItem.SameButLiterals table others) items otherItems) :
    items.filterMap Plan.itemText? = otherItems.filterMap Plan.itemText? := by
  induction h with
  | nil => rfl
  | cons hitem _ ih =>
    rw [List.filterMap_cons, List.filterMap_cons, ih]
    cases hitem <;> rfl

/-- The expressions of queries that are the same but for their literals are the same. -/
theorem SameButLiterals.expressions_eq {query other : Query}
    (h : SameButLiterals related query other) : query.expressions = other.expressions := by
  rw [expressions, expressions, itemTexts_eq h.items, h.explode, h.condition, h.groupBy, h.orderBy,
    h.source, h.target]

/-- An expression that is readable compiles alike with both tables. -/
theorem agree_compile_prepare {table others : LiteralTable}
    (h : List.Forall₂ (SameEntry Fillings) table others)
    (hwhole : ∀ entry ∈ table, Placeholder.isWhole entry.1 = true) {expression : String}
    (hexpression : table.Readable expression) (policy : WarningPolicy)
    (bindings : ColumnBindings) :
    Reporting.Agree (fun _ _ => True) (Expr.Alike (Constants (Joined (Swapped table others))))
      (Expr.compile policy (bindings.prepare table expression))
      (Expr.compile policy (bindings.prepare others expression)) := by
  obtain ⟨fragments, htext, htidy⟩ := hexpression
  obtain ⟨bound, hbound, hboundTidy⟩ := bindings.exists_bind hwhole htidy
  rw [ColumnBindings.prepare, ColumnBindings.prepare, htext, hbound]
  exact Expr.agree_compile policy (filled_textOf h hboundTidy).refilled.1

/-- The table of literals and the condition of a text that can be read as a query with one. -/
def conditionOf (text : List Char) : Option (LiteralTable × String) :=
  ((parseWith Placeholder.ofNumber .report "JSON" (String.ofList text)).run.run []).1.toOption.bind
    fun query => query.condition.map (query.literals, ·)

theorem conditionOf_where {text : List Char} {table : LiteralTable} (rewritten : List Char)
    (condition expression : String)
    (hextract : extract Placeholder.ofNumber text = .ok (rewritten, table))
    (hclauses : QueryStructure.ofText rewritten = .ok [(.select, "*"), (.condition, condition)])
    (hcondition : condition.isEmpty = false) (haggregates : aggregatesIn rewritten = [])
    (hrefused : aggregatesIn condition.toList = [])
    (hexpression : Shorthand.expand condition.toList = expression.toList) :
    conditionOf text = some (table, expression) := by
  have hselect : QueryStructure.nonEmpty? [(.select, "*"), (.condition, condition)] .select =
      some "*" := by
    simp [QueryStructure.nonEmpty?, QueryStructure.get?]
  have hwhere : QueryStructure.nonEmpty? [(.select, "*"), (.condition, condition)] .condition =
      some condition := by
    simp [QueryStructure.nonEmpty?, QueryStructure.get?, hcondition]
  have hother : ∀ clause, clause ≠ .select → clause ≠ .condition →
      QueryStructure.nonEmpty? [(.select, "*"), (.condition, condition)] clause = none := by
    intro clause hne hne'
    simp [QueryStructure.nonEmpty?, QueryStructure.get?, beq_false_of_ne hne.symm,
      beq_false_of_ne hne'.symm]
  have hdistinct : (Selection.ofText table "*".toList).distinct = false := by
    rw [Selection.ofText, modifier_eq "DISTINCT".toList (by decide)]
  have hplain : withoutAggregates .condition condition.toList = .ok () := by
    rw [withoutAggregates, hrefused]
  have hempty : (aggregatesIn rewritten).isEmpty = true := by rw [haggregates]; rfl
  rw [conditionOf, parseWith_ok (by rwa [String.toList_ofList]) hclauses]
  simp only [ofStructure, hselect, hwhere, hother .imports (by decide) (by decide),
    hother .source (by decide) (by decide), hother .orderBy (by decide) (by decide),
    hother .groupBy (by decide) (by decide), optional, pure_bind, Option.getD_some, hdistinct,
    hplain, hempty, if_true]
  change some (table, String.ofList (Shorthand.expand condition.toList)) = some (table, expression)
  rw [hexpression, String.ofList_toList]

/-- Whether a condition of a query compiles for an input without columns. -/
def compiles (condition : LiteralTable × String) : Bool :=
  ((Expr.compile .report (ColumnBindings.prepare [] condition.1 condition.2)).run.run []).1.isOk

/-- The expressions of a query that is read can be read back, unless shorthand takes a literal for a
part of a name. -/
theorem yields_parseWith {name : Nat → List Char} {text rewritten : List Char}
    {table : LiteralTable} (hextract : extract name text = .ok (rewritten, table))
    (hfits : table.Fits text) (htakes : takesLiteral text = false) (policy : WarningPolicy)
    (defaultTarget : String) :
    Reporting.Yields
      (fun query => query.literals = table ∧
        ∀ expression ∈ query.expressions, table.Readable expression)
      (parseWith name policy defaultTarget (String.ofList text)) := by
  have hapart := apart_extract hextract hfits htakes
  obtain ⟨pieces, hscanned, rfl, rfl, rfl⟩ := Piece.of_extract hextract
  rw [parseWith_scanned (Piece.scan_textOf hscanned)]
  cases hclauses : QueryStructure.ofText (Piece.rewrite name 0 pieces) with
  | error fault =>
    rw [ofRewritten_error hclauses]
    exact Reporting.yields_throw _ _
  | ok clauses =>
    rw [ofRewritten_ok hclauses]
    exact yields_ofStructure hfits.whole policy defaultTarget _ _
      (QueryStructure.apart_of_ofText hapart hclauses)

/-- Other contents in the literals of a query, with the same placeholders, change neither whether it
can be read nor anything of the query that is read but the table of literals and the names of
columns that mention literals. Unless shorthand takes a literal for a part of a name, its
expressions compile alike, for all columns. -/
theorem parseWith_refilled {text other : List Char} (h : Refilled (fun _ _ => True) text other)
    (name : Nat → List Char) (policy : WarningPolicy) (defaultTarget : String) :
    Reporting.Agree Eq (SameButLiterals Fillings)
      (parseWith name policy defaultTarget (String.ofList text))
      (parseWith name policy defaultTarget (String.ofList other)) ∧
    ∀ rewritten table, extract name text = .ok (rewritten, table) → table.Fits text →
      takesLiteral text = false →
      Reporting.Agree Eq CompilesAlike
        (parseWith name policy defaultTarget (String.ofList text))
        (parseWith name policy defaultTarget (String.ofList other)) := by
  have hagree := agree_parseWith h.fillings name policy defaultTarget
  refine ⟨hagree, fun rewritten table hextract hfits htakes => ?_⟩
  refine hagree.mono_of_yields (yields_parseWith hextract hfits htakes policy defaultTarget)
    fun query otherQuery hsame hquery => ?_
  obtain ⟨rfl, hreadable⟩ := hquery
  exact ⟨hsame.expressions_eq, fun expression hexpression policy bindings =>
    agree_compile_prepare hsame.literals hfits.whole (hreadable expression hexpression) policy
      bindings⟩

/-- A query with a literal behind an arrow and one with the other quote in it that touches a
keyword, and the same query with contents that look like syntax. -/
theorem parseWith_refilled_of_access :
    ∃ text other rewritten table condition, Refilled (fun _ _ => True) text other ∧
      extract Placeholder.ofNumber text = .ok (rewritten, table) ∧ table.Fits text ∧
      takesLiteral text = false ∧ conditionOf text = some condition ∧ compiles condition = true ∧
      Reporting.Agree Eq CompilesAlike
        (parseWith Placeholder.ofNumber .report "JSON" (String.ofList text))
        (parseWith Placeholder.ofNumber .report "JSON" (String.ofList other)) := by
  have hrefilled : Refilled (fun _ _ => True) "SELECT * WHERE a->'k' LIKE\"'%\"".toList
      "SELECT * WHERE a->'] + [' LIKE\"# TO\"".toList :=
    Piece.refilled_of_outlines? (by decide +kernel) (by decide +kernel)
  have hextract : extract Placeholder.ofNumber "SELECT * WHERE a->'k' LIKE\"'%\"".toList =
      .ok ("SELECT * WHERE a->__aaaaaaaaaaaa__ LIKE__baaaaaaaaaaa__".toList,
        [("__aaaaaaaaaaaa__".toList, ⟨'\'', ['k']⟩),
          ("__baaaaaaaaaaa__".toList, ⟨'"', ['\'', '%']⟩)]) :=
    eq_ok_of_toOption (by decide +kernel)
  have hcondition := conditionOf_where
    "SELECT * WHERE a->__aaaaaaaaaaaa__ LIKE__baaaaaaaaaaa__".toList
    "a->__aaaaaaaaaaaa__ LIKE__baaaaaaaaaaa__" "a[__aaaaaaaaaaaa__] LIKE__baaaaaaaaaaa__" hextract
    (eq_ok_of_toOption (by decide)) rfl (by decide) (by decide)
    (by decide)
  refine ⟨_, _, _, _, _, hrefilled, hextract, ?fits, ?takes, hcondition, by decide +kernel,
    (parseWith_refilled hrefilled Placeholder.ofNumber .report "JSON").2 _ _ hextract ?fits ?takes⟩
  all_goals decide +kernel

/-- A literal that touches a word behind an arrow is put between the quotes of the name: its
contents close them, and what follows acts as syntax. -/
theorem parseWith_not_refilled :
    ∃ text other condition otherCondition, Refilled (fun _ _ => True) text other ∧
      conditionOf text = some condition ∧ conditionOf other = some otherCondition ∧
      condition.2 = otherCondition.2 ∧ compiles condition = false ∧
      compiles otherCondition = true := by
  refine ⟨"SELECT * WHERE NULL->x'b'".toList, "SELECT * WHERE NULL->x'] + NULL['".toList,
    ([("__aaaaaaaaaaaa__".toList, ⟨'\'', ['b']⟩)], "NULL['x__aaaaaaaaaaaa__']"),
    ([("__aaaaaaaaaaaa__".toList, ⟨'\'', "] + NULL[".toList⟩)], "NULL['x__aaaaaaaaaaaa__']"),
    ?_, ?_, ?_, rfl, by decide +kernel, by decide +kernel⟩
  · exact Piece.refilled_of_outlines? (by decide +kernel) (by decide +kernel)
  all_goals
    exact conditionOf_where "SELECT * WHERE NULL->x__aaaaaaaaaaaa__".toList
      "NULL->x__aaaaaaaaaaaa__" "NULL['x__aaaaaaaaaaaa__']"
      (eq_ok_of_toOption (by decide +kernel)) (eq_ok_of_toOption (by decide +kernel)) rfl
      (by decide) (by decide) (by decide)

end Query

end StreamQuery
