import StreamQuery.Proofs.Computation
import StreamQuery.Proofs.Expr.Lexing

/-!
# What literals mean

The table of literals and the lexer both resolve the escapes of a literal. They see the same escapes
and doubled quotes, so a literal that is put back is one string. For an escape that is not one of the
common ones the table has the bare character, and the lexer something else.
-/

namespace StreamQuery

namespace Literal

/-- The characters that stand behind backslashes in a text between quotes. -/
def escapes (quote : Char) : List Char → List Char
  | [] => []
  | [_] => []
  | c :: d :: rest =>
    if c == quote && d == quote then escapes quote rest
    else if c == '\\' then d :: escapes quote rest
    else escapes quote (d :: rest)

/-- The escapes that the table and the lexer resolve alike. -/
def commonEscapes : List Char :=
  ['n', 't', 'r', '\\', '"', '\'']

variable {quote : Char} {text : List Char}

/-! ### Units of a text between quotes -/

theorem unescape_escaped (h : isQuote quote = true) (c : Char) (text : List Char) :
    unescape quote ('\\' :: c :: text) = escaped c :: unescape quote text := by
  simp [unescape, Ne.symm (ne_backslash_of_isQuote h)]

theorem unescape_doubled (quote : Char) (text : List Char) :
    unescape quote (quote :: quote :: text) = quote :: unescape quote text := by
  simp [unescape]

theorem unescape_plain {c : Char} (hquote : c ≠ quote) (hbackslash : c ≠ '\\') (text : List Char) :
    unescape quote (c :: text) = c :: unescape quote text := by
  cases text with
  | nil => rfl
  | cons d text => simp [unescape, hquote, hbackslash]

theorem escapes_escaped (h : isQuote quote = true) (c : Char) (text : List Char) :
    escapes quote ('\\' :: c :: text) = c :: escapes quote text := by
  simp [escapes, Ne.symm (ne_backslash_of_isQuote h)]

theorem escapes_doubled (quote : Char) (text : List Char) :
    escapes quote (quote :: quote :: text) = escapes quote text := by
  simp [escapes]

theorem escapes_plain {c : Char} (hquote : c ≠ quote) (hbackslash : c ≠ '\\') (text : List Char) :
    escapes quote (c :: text) = escapes quote text := by
  cases text with
  | nil => rfl
  | cons d text => simp [escapes, hquote, hbackslash]

example : escapes '\'' "it''s\\n\\d".toList = ['n', 'd'] := by decide +kernel

/-! ### One escape -/

/-- The lexer has a NUL for `\0` and keeps the backslash of an escape that it does not know. -/
theorem escape_of_not_common {c : Char} (h : c ∉ commonEscapes) :
    Lexer.escape c = if c = '0' then ['\x00'] else ['\\', c] := by
  simp only [commonEscapes, List.mem_cons, List.not_mem_nil, or_false, not_or] at h
  unfold Lexer.escape
  split <;> simp_all

theorem escape_of_common {c : Char} (h : c ∈ commonEscapes) : Lexer.escape c = [escaped c] := by
  have hall : ∀ c ∈ commonEscapes, Lexer.escape c = [escaped c] := by decide
  exact hall c h

/-- The table has the bare character for an escape that is not common. -/
theorem escaped_of_not_common {c : Char} (h : c ∉ commonEscapes) : escaped c = c := by
  simp only [commonEscapes, List.mem_cons, List.not_mem_nil, or_false, not_or] at h
  simp [escaped, h.1, h.2.1, h.2.2.1]

/-- An escape that is not common makes the lexer's value longer or has another character there. -/
theorem escape_append_eq_iff {c : Char} {content value : List Char}
    (hlength : value.length ≤ content.length) :
    Lexer.escape c ++ content = escaped c :: value ↔ c ∈ commonEscapes ∧ content = value := by
  by_cases hc : c ∈ commonEscapes
  · simp [escape_of_common hc, hc]
  · rw [escape_of_not_common hc, escaped_of_not_common hc]
    by_cases hzero : c = '0'
    · subst hzero
      simp [hc]
    · rw [if_neg hzero]
      simp only [List.cons_append, List.nil_append, hc, false_and, iff_false, List.cons.injEq,
        not_and]
      intro _ heq
      -- The backslash that is kept makes the lexer's value longer by one.
      have hlengths := congrArg List.length heq
      simp only [List.length_cons] at hlengths
      omega

/-! ### Whole literals -/

/-- The lexer finds the end of a literal, and its value is that of the table exactly if all escapes are
common ones. -/
theorem scanString_quoted (hquote : isQuote quote = true) (h : Contents quote text) :
    ∃ content, Lexer.scanString quote (text ++ [quote]) = some (content, []) ∧
      (unescape quote text).length ≤ content.length ∧
      (content = unescape quote text ↔ ∀ c ∈ escapes quote text, c ∈ commonEscapes) := by
  have hbackslash := ne_backslash_of_isQuote hquote
  induction h with
  | nil => exact ⟨[], by simp [Lexer.scanString], by simp [unescape], by simp [unescape, escapes]⟩
  | @escaped c text _ ih =>
    obtain ⟨content, hscan, hlength, hvalue⟩ := ih
    refine ⟨Lexer.escape c ++ content, ?_, ?_, ?_⟩
    · simp [Lexer.scanString, Ne.symm hbackslash, hscan]
    · have hpos : 0 < (Lexer.escape c).length := by
        unfold Lexer.escape
        split <;> simp
      rw [unescape_escaped hquote, List.length_cons, List.length_append]
      omega
    · rw [unescape_escaped hquote, escape_append_eq_iff hlength, hvalue, escapes_escaped hquote,
        List.forall_mem_cons]
  | @doubled text _ ih =>
    obtain ⟨content, hscan, hlength, hvalue⟩ := ih
    refine ⟨quote :: content, ?_, ?_, ?_⟩
    · simp [Lexer.scanString, hscan]
    · simpa [unescape_doubled] using hlength
    · rw [unescape_doubled, escapes_doubled, List.cons.injEq, hvalue]
      simp
  | @plain c text hc hne _ ih =>
    obtain ⟨content, hscan, hlength, hvalue⟩ := ih
    refine ⟨c :: content, ?_, ?_, ?_⟩
    · -- The scanner looks one character ahead, and the quote at the end is there at least.
      obtain ⟨d, rest, hrest⟩ := List.exists_cons_of_ne_nil (show text ++ [quote] ≠ [] by simp)
      rw [List.cons_append, hrest, Lexer.scanString]
      simp [hc, hne, ← hrest, hscan]
    · simpa [unescape_plain hc hne] using hlength
    · rw [unescape_plain hc hne, escapes_plain hc hne, List.cons.injEq, hvalue]
      simp

theorem constant_eq_iff (hquote : isQuote quote = true) (h : Contents quote text) :
    constant ⟨quote, text⟩ = String.ofList (value ⟨quote, text⟩) ↔
      ∀ c ∈ escapes quote text, c ∈ commonEscapes := by
  obtain ⟨content, hscan, -, hvalue⟩ := scanString_quoted hquote h
  rw [constant, hscan, value, ← hvalue]
  simp [String.ofList_inj]

/-- A literal in its quotes is one string for the lexer. -/
theorem tokens_quoted (hquote : isQuote quote = true) (h : Contents quote text) :
    Lexer.tokens (quoted ⟨quote, text⟩) = .ok [.string (constant ⟨quote, text⟩)] := by
  have hblank : Unicode.isWhitespace quote = false := by
    rcases eq_of_isQuote hquote with rfl | rfl <;> decide
  have hend : ∀ c ∈ ([] : List Char).head?, c ≠ quote := by simp
  have hscan := Lexer.scanToken_literal hquote h hend
  rw [quoted, List.cons_append, Lexer.tokens_token (by simp [hblank]) hscan, Lexer.tokens_nil rfl]
  rfl

end Literal

namespace Piece

/-- A table holds the literals of the text: each with a quote, and contents that it ends. -/
theorem contents_of_mem_tableOf {name : Nat → List Char} {index : Nat} {pieces : List Piece}
    (h : Scanned pieces) {entry : List Char × Literal} (hmem : entry ∈ tableOf name index pieces) :
    Literal.isQuote entry.2.quote = true ∧ Literal.Contents entry.2.quote entry.2.text := by
  induction h generalizing index with
  | nil => cases hmem
  | plain _ _ ih => exact ih hmem
  | literal hquote hcontents _ _ ih =>
    rcases List.mem_cons.mp hmem with rfl | hmem
    · exact ⟨hquote, hcontents⟩
    · exact ih hmem

end Piece

namespace LiteralTable

/-- Every literal of a text, put back in its quotes, is one string and nothing else for the lexer. The
value of that string is the one the table has for the literal exactly if all escapes of the literal
are common ones. -/
theorem literal_is_one_string {name : Nat → List Char} {text rewritten : List Char}
    {table : LiteralTable} (h : extract name text = .ok (rewritten, table)) :
    ∀ entry ∈ table, Lexer.tokens entry.2.quoted = .ok [.string entry.2.constant] ∧
      (entry.2.constant = String.ofList entry.2.value ↔
        ∀ c ∈ Literal.escapes entry.2.quote entry.2.text, c ∈ Literal.commonEscapes) := by
  intro entry hmem
  obtain ⟨pieces, hscanned, -, -, rfl⟩ := Piece.of_extract h
  obtain ⟨hquote, hcontents⟩ := Piece.contents_of_mem_tableOf hscanned hmem
  exact ⟨Literal.tokens_quoted hquote hcontents, Literal.constant_eq_iff hquote hcontents⟩

/-- Literals of both quotes with a doubled quote, common escapes and one that neither side knows. -/
def escapedLiterals : List Char :=
  "x == 'it''s\\n' or y == \"\\\"\\d\\\\\"".toList

theorem literal_is_one_string_of_escapedLiterals :
    ∃ rewritten table,
      extract (Placeholder.fresh escapedLiterals) escapedLiterals = .ok (rewritten, table) ∧
        table.length = 2 ∧
        ∀ entry ∈ table, Lexer.tokens entry.2.quoted = .ok [.string entry.2.constant] ∧
          (entry.2.constant = String.ofList entry.2.value ↔
            ∀ c ∈ Literal.escapes entry.2.quote entry.2.text, c ∈ Literal.commonEscapes) := by
  have hextract : extract (Placeholder.fresh escapedLiterals) escapedLiterals =
      .ok ("x == __aaaaaaaaaaaa__ or y == __baaaaaaaaaaa__".toList,
        [("__aaaaaaaaaaaa__".toList, ⟨'\'', "it''s\\n".toList⟩),
          ("__baaaaaaaaaaa__".toList, ⟨'"', "\\\"\\d\\\\".toList⟩)]) :=
    eq_ok_of_toOption (by decide +kernel)
  exact ⟨_, _, hextract, rfl, literal_is_one_string hextract⟩

/-- The table drops the backslash of an escape that it does not know, and has the digit for `\0`. -/
theorem literal_value_not_lexed :
    ∃ text rewritten table,
      extract (Placeholder.fresh text) text = .ok (rewritten, table) ∧
        table.map (fun entry => String.ofList entry.2.value) = ["d", "0"] ∧
        table.map (fun entry => Lexer.tokens entry.2.quoted) =
          [.ok [.string "\\d"], .ok [.string "\x00"]] := by
  have hextract : extract (Placeholder.fresh "'\\d' '\\0'".toList) "'\\d' '\\0'".toList =
      .ok ("__aaaaaaaaaaaa__ __baaaaaaaaaaa__".toList,
        [("__aaaaaaaaaaaa__".toList, ⟨'\'', ['\\', 'd']⟩),
          ("__baaaaaaaaaaa__".toList, ⟨'\'', ['\\', '0']⟩)]) :=
    eq_ok_of_toOption (by decide +kernel)
  refine ⟨_, _, _, hextract, by decide, ?_⟩
  simp only [List.map_cons, List.map_nil]
  rw [Literal.tokens_quoted rfl (.escaped (c := 'd') .nil),
    Literal.tokens_quoted rfl (.escaped (c := '0') .nil)]
  rfl

end LiteralTable

end StreamQuery
