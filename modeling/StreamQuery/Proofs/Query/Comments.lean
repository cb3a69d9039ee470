import StreamQuery.Proofs.Query.Piece
import StreamQuery.Proofs.Query.Restoring

/-!
# Comments

Comments at the ends of lines change none of the words of a query. Two passes look at a query with
its comments, though: literals are taken out before comments, so that a quote in a comment counts,
and so do the aggregates that a query without `GROUP BY` seems to call.
-/

namespace StreamQuery

/-- Whether a line ends at the front of a text. -/
def endsLine : List Char → Bool
  | [] => true
  | c :: rest => c == '\n' || (c == '\r' && rest.head? == some '\n')

/-- Whether the parenthesis of a call stands at the front of a text, possibly after blanks. -/
def opensParenthesis (text : List Char) : Bool :=
  (text.dropWhile Unicode.isWhitespace).head? == some '('

/-- Texts with comments added at the ends of lines outside of literals, where `allowed` takes the
text of a comment and whether a parenthesis follows its line. A literal that does not end goes to
the end of the text. -/
inductive Commented (allowed : List Char → Bool → Prop) : List Char → List Char → Prop
  | nil : Commented allowed [] []
  | comment (comment : List Char) {rest commented : List Char} : '\n' ∉ comment →
      endsLine rest = true → allowed comment (opensParenthesis rest) →
      Commented allowed rest commented → Commented allowed rest ('#' :: comment ++ commented)
  | plain {c : Char} {rest commented : List Char} : Literal.isQuote c = false →
      Commented allowed rest commented → Commented allowed (c :: rest) (c :: commented)
  | literal {quote : Char} (contents : List Char) {rest commented : List Char} :
      Literal.isQuote quote = true → Literal.Contents quote contents →
      (∀ c ∈ rest.head?, c ≠ quote) → Commented allowed rest commented →
      Commented allowed (quote :: contents ++ quote :: rest)
        (quote :: contents ++ quote :: commented)
  | unterminated {quote : Char} {rest : List Char} : Literal.isQuote quote = true →
      Literal.read? quote rest = none → Commented allowed (quote :: rest) (quote :: rest)

/-- Texts without literals with comments added at the ends of lines. -/
inductive Annotated (allowed : List Char → Bool → Prop) : List Char → List Char → Prop
  | nil : Annotated allowed [] []
  | comment (comment : List Char) {rest annotated : List Char} : '\n' ∉ comment →
      endsLine rest = true → allowed comment (opensParenthesis rest) →
      Annotated allowed rest annotated → Annotated allowed rest ('#' :: comment ++ annotated)
  | keep (c : Char) {rest annotated : List Char} : Annotated allowed rest annotated →
      Annotated allowed (c :: rest) (c :: annotated)

variable {allowed : List Char → Bool → Prop}

theorem opensParenthesis_cons (c : Char) (rest : List Char) :
    opensParenthesis (c :: rest) =
      if Unicode.isWhitespace c then opensParenthesis rest else (c == '(') := by
  cases hc : Unicode.isWhitespace c <;> simp [opensParenthesis, hc]

/-! ### Literals -/

theorem endsLine_quote {quote : Char} (h : Literal.isQuote quote = true) (rest : List Char) :
    endsLine (quote :: rest) = false := by
  rcases Literal.eq_of_isQuote h with rfl | rfl <;> rfl

theorem opensParenthesis_quote {quote : Char} (h : Literal.isQuote quote = true)
    (rest : List Char) : opensParenthesis (quote :: rest) = false := by
  rcases Literal.eq_of_isQuote h with rfl | rfl <;> rfl

theorem Commented.append {rest commented : List Char} (kept : List Char)
    (hkept : kept.all (fun c => !Literal.isQuote c) = true)
    (h : Commented allowed rest commented) :
    Commented allowed (kept ++ rest) (kept ++ commented) := by
  induction kept with
  | nil => exact h
  | cons c kept ih =>
    rw [List.all_cons, Bool.and_eq_true, Bool.not_eq_true'] at hkept
    exact .plain hkept.1 (ih hkept.2)

theorem Annotated.append {rest annotated : List Char} (kept : List Char)
    (h : Annotated allowed rest annotated) :
    Annotated allowed (kept ++ rest) (kept ++ annotated) := by
  induction kept with
  | nil => exact h
  | cons c kept ih => exact ih.keep c

/-- Comments do not begin with a quote. -/
theorem Commented.head?_ne {text commented : List Char} {quote : Char}
    (h : Commented allowed text commented) (hquote : Literal.isQuote quote = true)
    (hne : ∀ c ∈ text.head?, c ≠ quote) : ∀ c ∈ commented.head?, c ≠ quote := by
  cases h with
  | nil => exact hne
  | comment =>
    rintro c hc rfl
    obtain rfl : '#' = c := by simpa using hc
    cases hquote
  | plain => exact hne
  | literal => exact hne
  | unterminated => exact hne

/-- A placeholder is neither a blank nor a parenthesis. -/
theorem opensParenthesis_placeholder {placeholder : List Char}
    (h : Placeholder.isWhole placeholder = true) (rest : List Char) :
    opensParenthesis (placeholder ++ rest) = false := by
  obtain ⟨letters, -, -, rfl⟩ := Placeholder.isWhole_iff.mp h
  have hblank : Unicode.isWhitespace '_' = false := by decide
  simp [opensParenthesis, hblank]

namespace Piece

theorem opensParenthesis_rewrite {name : Nat → List Char}
    (hnames : ∀ index, Placeholder.isWhole (name index) = true) {pieces : List Piece}
    (h : Scanned pieces) (index : Nat) :
    opensParenthesis (rewrite name index pieces) = opensParenthesis (textOf pieces) := by
  induction h with
  | nil => rfl
  | plain _ _ ih => rw [rewrite, textOf_plain, opensParenthesis_cons, opensParenthesis_cons, ih]
  | literal hquote =>
    rw [rewrite, opensParenthesis_placeholder (hnames index), textOf_literal, Literal.quoted,
      List.cons_append, List.cons_append, opensParenthesis_quote hquote]

theorem endsLine_rewrite (name : Nat → List Char) (index : Nat) {pieces : List Piece}
    (h : Scanned pieces) (hline : endsLine (textOf pieces) = true) :
    endsLine (rewrite name index pieces) = true := by
  cases h with
  | nil => rfl
  | literal hquote => simp [Literal.quoted, endsLine_quote hquote] at hline
  | @plain c rest _ hrest =>
    rw [textOf_plain, endsLine] at hline
    rw [rewrite, endsLine]
    cases hrest with
    | nil => exact hline
    | plain => exact hline
    | literal hquote =>
      rcases Literal.eq_of_isQuote hquote with rfl | rfl <;>
        simp [Literal.quoted] at hline <;> simp [hline]

theorem scan_plains {chars : List Char} (h : ∀ c ∈ chars, Literal.isQuote c = false)
    (rest : List Char) : scan (chars ++ rest) = (scan rest).map (plains chars ++ ·) := by
  induction chars with
  | nil =>
    rw [List.nil_append]
    cases scan rest <;> rfl
  | cons c chars ih =>
    obtain ⟨hc, hchars⟩ := List.forall_mem_cons.mp h
    rw [List.cons_append, scan_plain hc, ih hchars]
    cases scan rest <;> rfl

end Piece

/-- A comment without quotes changes no literal. -/
theorem Commented.scan {text commented : List Char} (h : Commented allowed text commented)
    (hquotes : ∀ comment opens, allowed comment opens →
      ∀ c ∈ comment, Literal.isQuote c = false) :
    (∃ fault, Piece.scan text = .error fault ∧ Piece.scan commented = .error fault) ∨
    ∃ pieces annotated, Piece.scan text = .ok pieces ∧ Piece.scan commented = .ok annotated ∧
      ∀ name : Nat → List Char, (∀ index, Placeholder.isWhole (name index) = true) → ∀ index,
        Piece.tableOf name index annotated = Piece.tableOf name index pieces ∧
        Annotated allowed (Piece.rewrite name index pieces)
          (Piece.rewrite name index annotated) := by
  induction h with
  | nil =>
    exact .inr ⟨[], [], Piece.scan_nil, Piece.scan_nil, fun _ _ _ => ⟨rfl, .nil⟩⟩
  | @comment comment rest commented hline hends hallowed _ ih =>
    -- The characters of a comment make pieces of their own, and no literal.
    have hplain : ∀ c ∈ '#' :: comment, Literal.isQuote c = false :=
      List.forall_mem_cons.mpr ⟨rfl, hquotes _ _ hallowed⟩
    rw [Piece.scan_plains hplain]
    rcases ih with ⟨fault, htext, hcommented⟩ | ⟨pieces, annotated, htext, hcommented, hrelated⟩
    · exact .inl ⟨fault, htext, by rw [hcommented]; rfl⟩
    · refine .inr ⟨pieces, _, htext, by rw [hcommented]; rfl, fun name hnames index => ?_⟩
      obtain ⟨htable, hannotated⟩ := hrelated name hnames index
      obtain ⟨rfl, hscanned⟩ := Piece.textOf_of_scan htext
      rw [Piece.tableOf_plains, Piece.rewrite_plains]
      refine ⟨htable, .comment comment hline (Piece.endsLine_rewrite name index hscanned hends) ?_
        hannotated⟩
      rwa [Piece.opensParenthesis_rewrite hnames hscanned]
  | @plain c rest commented hc _ ih =>
    rw [Piece.scan_plain hc, Piece.scan_plain hc]
    rcases ih with ⟨fault, htext, hcommented⟩ | ⟨pieces, annotated, htext, hcommented, hrelated⟩
    · exact .inl ⟨fault, by rw [htext]; rfl, by rw [hcommented]; rfl⟩
    · refine .inr ⟨_, _, by rw [htext]; rfl, by rw [hcommented]; rfl, fun name hnames index => ?_⟩
      obtain ⟨htable, hannotated⟩ := hrelated name hnames index
      exact ⟨htable, hannotated.keep c⟩
  | @literal quote contents rest commented hquote hcontents hne hrest ih =>
    rw [List.cons_append, List.cons_append,
      Piece.scan_literal hquote (Literal.read?_append hquote hcontents hne),
      Piece.scan_literal hquote
        (Literal.read?_append hquote hcontents (hrest.head?_ne hquote hne))]
    rcases ih with ⟨fault, htext, hcommented⟩ | ⟨pieces, annotated, htext, hcommented, hrelated⟩
    · exact .inl ⟨fault, by rw [htext]; rfl, by rw [hcommented]; rfl⟩
    · refine .inr ⟨_, _, by rw [htext]; rfl, by rw [hcommented]; rfl, fun name hnames index => ?_⟩
      obtain ⟨htable, hannotated⟩ := hrelated name hnames (index + 1)
      exact ⟨congrArg (_ :: ·) htable, hannotated.append _⟩
  | unterminated hquote hread =>
    exact .inl ⟨_, Piece.scan_unterminated hquote hread, Piece.scan_unterminated hquote hread⟩

/-! ### Words -/

theorem dropComments_comment {comment : List Char} (hline : '\n' ∉ comment)
    (inComment : Bool) (rest : List Char) :
    dropComments inComment ('#' :: comment ++ rest) = dropComments true rest := by
  have htrue : ∀ comment : List Char, '\n' ∉ comment →
      dropComments true (comment ++ rest) = dropComments true rest := by
    intro comment hline
    induction comment with
    | nil => rfl
    | cons c comment ih =>
      rw [List.mem_cons, not_or] at hline
      simp [dropComments, Ne.symm hline.1, ih hline.2]
  simp [dropComments, htrue comment hline]

/-- All that a comment at the end of a line could drop is a blank. -/
theorem words_of_endsLine {rest : List Char} (h : endsLine rest = true) (word : List Char) :
    Text.wordsBy.go Unicode.isWhitespace (dropComments true rest) word =
      Text.wordsBy.go Unicode.isWhitespace (dropComments false rest) word := by
  have hnewline : Unicode.isWhitespace '\n' = true := by decide
  have hreturn : Unicode.isWhitespace '\r' = true := by decide
  cases rest with
  | nil => rfl
  | cons c rest =>
    rw [endsLine, Bool.or_eq_true, Bool.and_eq_true] at h
    simp only [beq_iff_eq] at h
    rcases h with rfl | ⟨rfl, hnext⟩
    · rfl
    · -- The comment takes the carriage return, and the line feed ends the word as well.
      obtain ⟨rest, rfl⟩ : ∃ later, rest = '\n' :: later := by
        cases rest with
        | nil => cases hnext
        | cons d later => exact ⟨later, by rw [Option.some.inj hnext]⟩
      by_cases hword : word = [] <;>
        simp [dropComments, Text.wordsBy.go, hnewline, hreturn, hword]

theorem Annotated.words {text annotated : List Char} (h : Annotated allowed text annotated)
    (inComment : Bool) (word : List Char) :
    Text.wordsBy.go Unicode.isWhitespace (dropComments inComment annotated) word =
      Text.wordsBy.go Unicode.isWhitespace (dropComments inComment text) word := by
  induction h generalizing inComment word with
  | nil => rfl
  | @comment comment rest annotated hline hends _ _ ih =>
    rw [dropComments_comment hline, ih]
    cases inComment with
    | true => rfl
    | false => exact words_of_endsLine hends word
  | keep c _ ih =>
    simp only [dropComments]
    split
    · simp only [Text.wordsBy.go, ih]
    · split <;> simp only [Text.wordsBy.go, ih]

theorem Annotated.queryWords_eq {text annotated : List Char}
    (h : Annotated allowed text annotated) : queryWords annotated = queryWords text :=
  h.words false []

/-! ### Calls -/

theorem opensParenthesis_append {rest : List Char} (h : opensParenthesis rest = false)
    (chars : List Char) : opensParenthesis (chars ++ rest) = opensParenthesis chars := by
  induction chars with
  | nil => exact h
  | cons c chars ih => rw [List.cons_append, opensParenthesis_cons, opensParenthesis_cons, ih]

/-- No call goes across a place where no word goes on and no parenthesis follows. -/
theorem calledFrom_append {rest : List Char} (hword : ∀ c ∈ rest.head?, Unicode.isWord c = false)
    (hopens : opensParenthesis rest = false) (latest chars : List Char) :
    Item.calledFrom latest (chars ++ rest) =
      Item.calledFrom latest chars ++ Item.calledFrom [] rest := by
  induction chars generalizing latest with
  | nil =>
    cases rest with
    | nil => rfl
    | cons c rest =>
      have hc := hword c rfl
      rw [opensParenthesis] at hopens
      simp [Item.calledFrom, hc, hopens]
  | cons c chars ih =>
    have happend := opensParenthesis_append hopens (c :: chars)
    simp only [opensParenthesis, List.cons_append] at happend
    simp only [List.cons_append, Item.calledFrom, happend, ih]
    repeat' split
    all_goals rfl

/-- Comments that no parenthesis follows hide none. -/
theorem Annotated.opensParenthesis_eq {text annotated : List Char}
    (h : Annotated allowed text annotated)
    (hopens : ∀ comment opens, allowed comment opens → opens = false) :
    opensParenthesis annotated = opensParenthesis text := by
  induction h with
  | nil => rfl
  | comment _ _ _ hallowed => rw [hopens _ _ hallowed]; rfl
  | keep c _ ih => rw [opensParenthesis_cons, opensParenthesis_cons, ih]

theorem isWord_of_endsLine {rest : List Char} (h : endsLine rest = true) :
    ∀ c ∈ rest.head?, Unicode.isWord c = false := by
  have hnewline : Unicode.isWord '\n' = false := by decide
  have hreturn : Unicode.isWord '\r' = false := by decide
  cases rest with
  | nil => exact fun c hc => nomatch hc
  | cons c rest =>
    rw [endsLine, Bool.or_eq_true, Bool.and_eq_true] at h
    simp only [beq_iff_eq] at h
    rintro d ⟨⟩
    rcases h with rfl | ⟨rfl, -⟩
    · exact hnewline
    · exact hreturn

theorem Annotated.head?_eq {text annotated : List Char} (h : Annotated allowed text annotated) :
    ∀ c ∈ annotated.head?, c = '#' ∨ c ∈ text.head? := by
  cases h with
  | nil => exact fun _ hc => .inr hc
  | comment => exact fun _ hc => .inl (Option.some.inj hc).symm
  | keep => exact fun _ hc => .inr hc

/-- Comments that call no aggregates and stand before no parenthesis change no calls of
aggregates. -/
theorem Annotated.aggregates_eq {text annotated : List Char} (h : Annotated allowed text annotated)
    (hcalls : ∀ comment opens, allowed comment opens → Query.aggregatesIn comment = [])
    (hopens : ∀ comment opens, allowed comment opens → opens = false) (latest : List Char) :
    ((Item.calledFrom latest annotated).map String.ofList).filter Aggregate.isName =
      ((Item.calledFrom latest text).map String.ofList).filter Aggregate.isName := by
  induction h generalizing latest with
  | nil => rfl
  | @comment comment rest annotated hline hends hallowed hannotated ih =>
    have hsign : Unicode.isWord '#' = false := by decide
    have hrest := isWord_of_endsLine hends
    have hparenthesis := hopens _ _ hallowed
    have hhead : ∀ c ∈ annotated.head?, Unicode.isWord c = false := by
      intro c hc
      rcases hannotated.head?_eq c hc with rfl | hc
      · exact hsign
      · exact hrest c hc
    -- The sign of the comment ends the word before it, and its line the last word in it.
    have hbegin : Item.calledFrom latest ('#' :: comment ++ annotated) =
        Item.calledFrom [] comment ++ Item.calledFrom [] annotated := by
      rw [← calledFrom_append hhead ((hannotated.opensParenthesis_eq hopens).trans hparenthesis)]
      have hblank : Unicode.isWhitespace '#' = false := by decide
      simp [Item.calledFrom, hsign, hblank]
    have hnone : ((Item.calledFrom [] comment).map String.ofList).filter Aggregate.isName = [] :=
      hcalls _ _ hallowed
    have hreset := calledFrom_append hrest hparenthesis latest []
    rw [hbegin, List.map_append, List.filter_append, hnone, List.nil_append, ih]
    rw [List.nil_append] at hreset
    rw [hreset]
    rfl
  | @keep c rest annotated hannotated ih =>
    have heq := (hannotated.keep c).opensParenthesis_eq hopens
    simp only [opensParenthesis] at heq
    simp only [Item.calledFrom, heq]
    repeat' split
    · exact ih _
    · simp only [List.map_cons, List.filter_cons, ih]
    · exact ih _

theorem Annotated.aggregatesIn_eq {text annotated : List Char}
    (h : Annotated allowed text annotated)
    (hcalls : ∀ comment opens, allowed comment opens → Query.aggregatesIn comment = [])
    (hopens : ∀ comment opens, allowed comment opens → opens = false) :
    Query.aggregatesIn annotated = Query.aggregatesIn text :=
  h.aggregates_eq hcalls hopens []

/-! ### Queries -/

namespace Query

/-- Clauses that group decide the grouping alone. -/
theorem ofStructure_of_groupBy {policy : WarningPolicy} {defaultTarget : String}
    {literals : LiteralTable} {clauses : QueryStructure}
    (h : (clauses.nonEmpty? .groupBy).isSome = true) (first second : List Char) :
    ofStructure policy defaultTarget first literals clauses =
      ofStructure policy defaultTarget second literals clauses := by
  obtain ⟨text, htext⟩ := Option.isSome_iff_exists.mp h
  simp only [ofStructure, htext]

/-- All that a query needs of its whole text is which aggregates it calls. -/
theorem ofStructure_congr {first second : List Char} (policy : WarningPolicy)
    (defaultTarget : String) (literals : LiteralTable) (clauses : QueryStructure)
    (h : aggregatesIn first = aggregatesIn second) :
    ofStructure policy defaultTarget first literals clauses =
      ofStructure policy defaultTarget second literals clauses := by
  simp only [ofStructure, h]

/-- Whether the clauses of a text have a `GROUP BY`. -/
def groupsExplicitly (name : Nat → List Char) (text : List Char) : Bool :=
  match LiteralTable.extract name text with
  | .error _ => false
  | .ok (rewritten, _) => match QueryStructure.ofText rewritten with
    | .error _ => false
    | .ok clauses => (clauses.nonEmpty? .groupBy).isSome

/-- A comment without quotes that calls no aggregate and that no parenthesis follows; where the
query groups explicitly, a comment without quotes. -/
structure Harmless (grouped : Bool) (comment : List Char) (opens : Bool) : Prop where
  quotes : ∀ c ∈ comment, Literal.isQuote c = false
  calls : grouped = false → aggregatesIn comment = []
  parenthesis : grouped = false → opens = false

/-- Harmless comments at the ends of lines outside of literals have no effect: the query is the
same, or fails in the same way. -/
theorem parseWith_commented {name : Nat → List Char} {text commented : List Char}
    (hnames : ∀ index, Placeholder.isWhole (name index) = true)
    (h : Commented (Harmless (groupsExplicitly name text)) text commented)
    (policy : WarningPolicy) (defaultTarget : String) :
    parseWith name policy defaultTarget (String.ofList commented) =
      parseWith name policy defaultTarget (String.ofList text) := by
  generalize hgrouped : groupsExplicitly name text = grouped at h
  rcases h.scan fun _ _ hallowed => hallowed.quotes with
    ⟨fault, htext, hcommented⟩ | ⟨pieces, annotated, htext, hcommented, hrelated⟩
  · rw [parseWith_unterminated htext, parseWith_unterminated hcommented]
  · obtain ⟨htable, hannotated⟩ := hrelated name hnames 0
    have hclauses : QueryStructure.ofText (Piece.rewrite name 0 annotated) =
        QueryStructure.ofText (Piece.rewrite name 0 pieces) := by
      rw [QueryStructure.ofText, QueryStructure.ofText, hannotated.queryWords_eq]
    rw [parseWith_scanned htext, parseWith_scanned hcommented, htable]
    cases hok : QueryStructure.ofText (Piece.rewrite name 0 pieces) with
    | error fault => rw [ofRewritten_error hok, ofRewritten_error (hclauses.trans hok)]
    | ok clauses =>
      rw [ofRewritten_ok hok, ofRewritten_ok (hclauses.trans hok)]
      cases grouped with
      | true =>
        refine ofStructure_of_groupBy ?_ _ _
        simpa [groupsExplicitly, Piece.extract_eq, htext, Except.map, hok] using hgrouped
      | false =>
        exact ofStructure_congr _ _ _ _ (hannotated.aggregatesIn_eq
          (fun _ _ hallowed => hallowed.calls rfl) fun _ _ hallowed => hallowed.parenthesis rfl)

/-- A comment after a literal with its sign, one at the end of a line that ends with two characters,
and one after a comment. -/
theorem parseWith_commented_of_lines :
    Commented (Harmless (groupsExplicitly Placeholder.ofNumber
        "SELECT '#', a\r\nWHERE a # old".toList))
      "SELECT '#', a\r\nWHERE a # old".toList
      "SELECT '#', a#first\r\nWHERE a # old#last".toList ∧
    parseWith Placeholder.ofNumber .report "JSON"
        (String.ofList "SELECT '#', a#first\r\nWHERE a # old#last".toList) =
      parseWith Placeholder.ofNumber .report "JSON"
        (String.ofList "SELECT '#', a\r\nWHERE a # old".toList) := by
  have hungrouped : groupsExplicitly Placeholder.ofNumber
      "SELECT '#', a\r\nWHERE a # old".toList = false := by
    decide +kernel
  have hcommented : Commented (Harmless false) "SELECT '#', a\r\nWHERE a # old".toList
      "SELECT '#', a#first\r\nWHERE a # old#last".toList := by
    have hlast : Commented (Harmless false) "\r\nWHERE a # old".toList
        "\r\nWHERE a # old#last".toList :=
      .append "\r\nWHERE a # old".toList (by decide)
        (.comment "last".toList (by decide) rfl
          ⟨Literal.isQuote_eq_false_of_all (by decide), fun _ => by decide, fun _ => rfl⟩
          .nil)
    have hfirst : Commented (Harmless false) ", a\r\nWHERE a # old".toList
        ", a#first\r\nWHERE a # old#last".toList :=
      .append ", a".toList (by decide)
        (.comment "first".toList (by decide) rfl
          ⟨Literal.isQuote_eq_false_of_all (by decide), fun _ => by decide,
            fun _ => by decide⟩ hlast)
    exact .append "SELECT ".toList (by decide)
      (.literal ['#'] rfl (.plain (by decide) (by decide) .nil)
        (by rintro c ⟨⟩; decide) hfirst)
  rw [hungrouped]
  refine ⟨hcommented, parseWith_commented Placeholder.isWhole_ofNumber ?_ .report "JSON"⟩
  rwa [hungrouped]

/-- The grouping of a text that can be read as a query. -/
def groupingOf (text : List Char) : Option (List String) :=
  ((parseWith Placeholder.ofNumber .report "JSON" (String.ofList text)).run.run []).1.toOption.map
    (·.groupBy)

/-- A query of nothing but `SELECT` groups if its text seems to call an aggregate. -/
theorem groupingOf_select {text : List Char} (items : String)
    (hquotes : text.all (fun c => !Literal.isQuote c) = true)
    (hclauses : QueryStructure.ofText text = .ok [(.select, items)])
    (hitems : items.isEmpty = false)
    (hplain : ((items.toList.dropWhile Unicode.isWhitespace).drop 8).head?.any
      Unicode.isWhitespace = false) :
    groupingOf text = some (if (aggregatesIn text).isEmpty then [] else [overallGroup]) := by
  have hscan : Piece.scan text = .ok (Piece.plains text) := by
    rw [← List.append_nil text, Piece.scan_plains (Literal.isQuote_eq_false_of_all hquotes),
      Piece.scan_nil]
    simp [Except.map]
  have hrewrite : Piece.rewrite Placeholder.ofNumber 0 (Piece.plains text) = text := by
    rw [← List.append_nil (Piece.plains text), Piece.rewrite_plains, Piece.rewrite,
      List.append_nil]
  have hdistinct : ∀ literals, (Selection.ofText literals items.toList).distinct = false := by
    intro literals
    rw [Selection.ofText, modifier_eq "DISTINCT".toList hplain]
  have hselect : QueryStructure.nonEmpty? [(.select, items)] .select = some items := by
    simp [QueryStructure.nonEmpty?, QueryStructure.get?, hitems]
  have hother : ∀ clause, clause ≠ .select →
      QueryStructure.nonEmpty? [(.select, items)] clause = none := by
    intro clause hne
    simp [QueryStructure.nonEmpty?, QueryStructure.get?, beq_false_of_ne hne.symm]
  rw [groupingOf, parseWith_scanned hscan, hrewrite, ofRewritten_ok hclauses]
  simp only [ofStructure, hselect, hother _ (by decide : Clause.imports ≠ .select),
    hother _ (by decide : Clause.source ≠ .select),
    hother _ (by decide : Clause.condition ≠ .select),
    hother _ (by decide : Clause.orderBy ≠ .select),
    hother _ (by decide : Clause.groupBy ≠ .select), optional, pure_bind, Option.getD_some,
    hdistinct, Option.getD_none, List.isEmpty_nil, Bool.not_true, Bool.false_and]
  split <;> rfl

/-- A quote in a comment begins a literal, a call of an aggregate in a comment groups the query, and
a comment between the name of an aggregate and its parenthesis hides the call. -/
theorem parseWith_not_commented :
    (∃ text commented, Commented (fun _ _ => True) text commented ∧
      groupingOf text = some [] ∧ groupingOf commented = none) ∧
    (∃ text commented, Commented (fun _ _ => True) text commented ∧
      groupingOf text = some [] ∧ groupingOf commented = some [overallGroup]) ∧
    ∃ text commented, Commented (fun _ _ => True) text commented ∧
      groupingOf text = some [overallGroup] ∧ groupingOf commented = some [] := by
  have hend : ∀ text comment : List Char, text.all (fun c => !Literal.isQuote c) = true →
      '\n' ∉ comment →
      Commented (fun _ _ => True) (text ++ []) (text ++ ('#' :: comment ++ [])) :=
    fun text comment htext hline => .append text htext (.comment comment hline rfl trivial .nil)
  have hselect : groupingOf "SELECT a ".toList = some [] :=
    groupingOf_select "a" (by decide) (eq_ok_of_toOption (by decide)) rfl
      (by decide)
  refine ⟨⟨_, _, hend "SELECT a ".toList " it's".toList (by decide)
      (by decide), hselect, by decide +kernel⟩,
    ⟨_, _, hend "SELECT a ".toList " count_agg(a)".toList (by decide)
      (by decide), hselect, ?_⟩,
    ⟨_, _, .append "SELECT count_agg ".toList (by decide)
      (.comment " rows".toList (by decide) rfl trivial
        (.append "\n(a)".toList (by decide) .nil)), ?_, ?_⟩⟩
  · exact groupingOf_select "a" (by decide) (eq_ok_of_toOption (by decide)) rfl
      (by decide)
  · exact groupingOf_select "count_agg (a)" (by decide)
      (eq_ok_of_toOption (by decide)) rfl (by decide)
  · exact groupingOf_select "count_agg (a)" (by decide)
      (eq_ok_of_toOption (by decide)) rfl (by decide)

end Query

end StreamQuery
