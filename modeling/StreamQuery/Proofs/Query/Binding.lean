import StreamQuery.Proofs.Expr.Lexing
import StreamQuery.Proofs.Query.Access
import StreamQuery.Proofs.Unicode.Blanks

/-!
# Bound texts

What binding columns makes of a text, from its front: words are bound or stay, strings and signs
stay. Of what stands before a text only a dot right before its first word matters. Binding columns
and putting literals back do not interfere, as long as no literal touches a word.
-/

namespace StreamQuery

/-- The word at the front of a text. -/
def Lexer.frontWord (text : List Char) : String :=
  String.ofList (text.takeWhile isIdentifierPart)

namespace ColumnBindings

open Fragment Lexer

/-- A text with its columns bound that stands right behind a dot, or does not. -/
def bindAfter (bindings : ColumnBindings) (dotted : Bool) (text : List Char) : List Char :=
  bindings.bindFragments (if dotted then some (.sign '.') else none) (ofText text)

variable {bindings : ColumnBindings} {dotted : Bool} {text rest : List Char}

theorem bind_eq (bindings : ColumnBindings) (text : List Char) :
    bindings.bind text = bindings.bindAfter false text := rfl

theorem beq_dot (dotted : Bool) :
    ((if dotted then some (Fragment.sign '.') else none) == some (.sign '.')) = dotted := by
  cases dotted <;> decide

/-- Of what stands before a fragment, only a dot matters. -/
theorem bindFragments_eq {previous : Option Fragment} {fragments : List Fragment}
    (h : (previous == some (.sign '.')) = dotted) :
    bindings.bindFragments previous fragments =
      bindings.bindFragments (if dotted then some (.sign '.') else none) fragments := by
  cases fragments with
  | nil => rfl
  | cons fragment rest =>
    cases fragment with
    | word letters => simp only [bindFragments, h, beq_dot]
    | _ => rfl

@[simp] theorem bindAfter_nil : bindings.bindAfter dotted [] = [] := rfl

theorem bindAfter_sign {c : Char} (hquote : Literal.isQuote c = false)
    (hname : isNameChar c = false) (rest : List Char) :
    bindings.bindAfter dotted (c :: rest) = c :: bindings.bindAfter (c == '.') rest := by
  rw [bindAfter, ofText, readFrom_sign hquote hname]
  refine congrArg (c :: ·) (bindFragments_eq ?_)
  by_cases hdot : c = '.'
  · rw [hdot]; decide
  · simp [hdot]

theorem startsWith_dropWhile (p : Char → Bool) (text : List Char) :
    startsWith p (text.dropWhile p) = false := by
  have hhead := List.head?_dropWhile_not p text
  cases hdrop : text.dropWhile p with
  | nil => rfl
  | cons c rest =>
    have hc : p c = false := by simpa [hdrop] using hhead
    exact hc

theorem takeWhile_ne_nil {p : Char → Bool} (h : startsWith p text = true) :
    text.takeWhile p ≠ [] := by
  cases text with
  | nil => cases h
  | cons c rest =>
    have hc : p c = true := h
    rw [List.takeWhile_cons, if_pos hc]
    exact List.cons_ne_nil _ _

theorem length_dropWhile_lt {p : Char → Bool} (h : startsWith p text = true) :
    (text.dropWhile p).length < text.length := by
  have htext := congrArg List.length (@List.takeWhile_append_dropWhile _ p text)
  have hfront := List.length_pos_iff.mpr (takeWhile_ne_nil h)
  rw [List.length_append] at htext
  omega

theorem ofText_sign {c : Char} (hquote : Literal.isQuote c = false) (hname : isNameChar c = false)
    (rest : List Char) : ofText (c :: rest) = .sign c :: ofText rest := by
  rw [ofText, readFrom_sign hquote hname, ofText]

/-- A text that begins with a name begins with a word. -/
theorem ofText_frontWord (h : startsWith isNameChar text = true) :
    ofText text = .word (text.takeWhile isNameChar) :: ofText (text.dropWhile isNameChar) := by
  cases text with
  | nil => cases h
  | cons c rest =>
    have hc : isNameChar c = true := h
    have hend : ∀ d ∈ (rest.dropWhile isNameChar).head?, isNameChar d = false := by
      have hstart := startsWith_dropWhile isNameChar rest
      cases hdrop : rest.dropWhile isNameChar with
      | nil => exact fun d hd => by cases hd
      | cons e others =>
        rw [hdrop] at hstart
        exact fun d hd => Option.some.inj hd ▸ hstart
    rw [List.takeWhile_cons, if_pos hc, List.dropWhile_cons, if_pos hc, ofText, readFrom_begin hc]
    conv_lhs => rw [← List.takeWhile_append_dropWhile (p := isNameChar) (l := rest)]
    rw [readFrom_word List.all_takeWhile, readFrom_end hend, List.reverse_append,
      List.reverse_reverse]
    rfl

/-- The word at the front of a text is bound, or stays. -/
theorem bindAfter_frontWord (h : startsWith isNameChar text = true) :
    bindings.bindAfter dotted text =
      (match lookup? (frontWord text) bindings with
        | some index =>
          if dotted || opensCall (ofText (text.dropWhile isNameChar)) then text.takeWhile isNameChar
          else access index
        | none => text.takeWhile isNameChar) ++
        bindings.bindAfter false (text.dropWhile isNameChar) := by
  rw [bindAfter, ofText_frontWord h, bindFragments, beq_dot]
  exact congrArg₂ _ rfl (bindFragments_eq rfl)

theorem bindAfter_kept (hstart : startsWith isNameChar text = true)
    (h : ∀ index ∈ lookup? (frontWord text) bindings,
      (dotted || opensCall (ofText (text.dropWhile isNameChar))) = true) :
    bindings.bindAfter dotted text =
      text.takeWhile isNameChar ++ bindings.bindAfter false (text.dropWhile isNameChar) := by
  rw [bindAfter_frontWord hstart]
  cases hlookup : lookup? (frontWord text) bindings with
  | none => rfl
  | some index =>
    dsimp only
    rw [if_pos (h index hlookup)]

theorem bindAfter_access (hstart : startsWith isNameChar text = true) {index : Nat}
    (hlookup : lookup? (frontWord text) bindings = some index)
    (h : (dotted || opensCall (ofText (text.dropWhile isNameChar))) = false) :
    bindings.bindAfter dotted text =
      access index ++ bindings.bindAfter false (text.dropWhile isNameChar) := by
  rw [bindAfter_frontWord hstart, hlookup]
  dsimp only
  rw [h, if_neg Bool.false_ne_true]

/-- What is read between quotes ends at a quote, whatever follows it, or not before the text
does. -/
theorem readFrom_quoted_cases (quote : Char) (escaped : Bool) (latest text : List Char) :
    (∃ run after, text = run ++ quote :: after ∧
      ∀ other, readFrom (.quoted quote escaped latest) (run ++ quote :: other) =
        .quoted (latest.reverse ++ (run ++ [quote])) :: ofText other) ∨
      readFrom (.quoted quote escaped latest) text = [.quoted (latest.reverse ++ text)] := by
  induction text generalizing escaped latest with
  | nil => exact .inr (by simp [readFrom, Reading.finish])
  | cons c text ih =>
    -- A character that goes on with what is read.
    have hnext (next : Bool) (hstep : Reading.step (.quoted quote escaped latest) c =
        ([], .quoted quote next (c :: latest))) :
        (∃ run after, c :: text = run ++ quote :: after ∧
          ∀ other, readFrom (.quoted quote escaped latest) (run ++ quote :: other) =
            .quoted (latest.reverse ++ (run ++ [quote])) :: ofText other) ∨
          readFrom (.quoted quote escaped latest) (c :: text) =
            [.quoted (latest.reverse ++ c :: text)] := by
      rcases ih next (c :: latest) with ⟨run, after, rfl, hread⟩ | hread
      · refine .inl ⟨c :: run, after, rfl, fun other => ?_⟩
        rw [List.cons_append, readFrom, hstep, List.nil_append, hread, List.reverse_cons,
          List.append_assoc]
        rfl
      · right
        rw [readFrom, hstep, List.nil_append, hread, List.reverse_cons, List.append_assoc]
        rfl
    cases escaped with
    | true => exact hnext false rfl
    | false =>
      by_cases hbackslash : c = '\\'
      · exact hnext true (by simp [Reading.step, hbackslash])
      · by_cases hquote : c = quote
        · subst hquote
          exact .inl ⟨[], text, rfl, fun other => by
            simp [readFrom, Reading.step, hbackslash, ofText]⟩
        · exact hnext false (by simp [Reading.step, hbackslash, hquote])

/-- A text behind a quote is a string, whatever follows it, or all a string. -/
theorem ofText_quote {quote : Char} (h : Literal.isQuote quote = true) (rest : List Char) :
    (∃ run after, rest = run ++ quote :: after ∧
      ∀ other, ofText (quote :: (run ++ quote :: other)) =
        .quoted (quote :: (run ++ [quote])) :: ofText other) ∨
      ofText (quote :: rest) = [.quoted (quote :: rest)] := by
  have hbegin (text : List Char) : ofText (quote :: text) =
      readFrom (.quoted quote false [quote]) text := by
    rw [ofText, readFrom]
    simp [Reading.step, begin, h]
  simp only [hbegin]
  exact readFrom_quoted_cases quote false [quote] rest

theorem exists_ofText_quote {quote : Char} (h : Literal.isQuote quote = true) (rest : List Char) :
    ∃ run others, ofText (quote :: rest) = .quoted (quote :: run) :: others := by
  rcases ofText_quote h rest with ⟨run, after, rfl, hread⟩ | hread
  · exact ⟨_, _, hread after⟩
  · exact ⟨_, _, hread⟩

/-- Only the word at the front of a text depends on what stands before it. -/
theorem bindAfter_of_not_name (h : startsWith isNameChar text = false) :
    bindings.bindAfter true text = bindings.bindAfter false text := by
  cases text with
  | nil => rfl
  | cons c rest =>
    have hname : isNameChar c = false := h
    cases hquote : Literal.isQuote c with
    | false => rw [bindAfter_sign hquote hname, bindAfter_sign hquote hname]
    | true =>
      obtain ⟨run, others, hfragments⟩ := exists_ofText_quote hquote rest
      rw [bindAfter, bindAfter, hfragments]
      rfl

/-- Behind a dot the word at the front of a text stays. -/
theorem bindAfter_true (text : List Char) :
    bindings.bindAfter true text =
      text.takeWhile isNameChar ++ bindings.bindAfter false (text.dropWhile isNameChar) := by
  cases hname : startsWith isNameChar text with
  | true =>
    rw [bindAfter_frontWord hname]
    cases lookup? (frontWord text) bindings <;> rfl
  | false =>
    rw [bindAfter_of_not_name hname]
    cases text with
    | nil => rfl
    | cons c rest =>
      have hc : isNameChar c = false := hname
      simp [hc]

theorem bindAfter_true_cons {c : Char} (h : isNameChar c = true) (rest : List Char) :
    bindings.bindAfter true (c :: rest) = c :: bindings.bindAfter true rest := by
  rw [bindAfter_true, bindAfter_true, List.takeWhile_cons, if_pos h, List.dropWhile_cons, if_pos h]
  rfl

theorem bindAfter_of_unbound (h : lookup? (frontWord text) bindings = none) :
    bindings.bindAfter false text = bindings.bindAfter true text := by
  cases hname : startsWith isNameChar text with
  | false => exact (bindAfter_of_not_name hname).symm
  | true => rw [bindAfter_frontWord hname, bindAfter_true, h]

/-! ### The first character -/

theorem head?_bindAfter_of_not_name (bindings : ColumnBindings) (dotted : Bool)
    (h : startsWith isNameChar text = false) :
    (bindings.bindAfter dotted text).head? = text.head? := by
  cases text with
  | nil => rfl
  | cons c rest =>
    have hname : isNameChar c = false := h
    cases hquote : Literal.isQuote c with
    | false => rw [bindAfter_sign hquote hname]; rfl
    | true =>
      obtain ⟨run, others, hfragments⟩ := exists_ofText_quote hquote rest
      rw [bindAfter, hfragments]
      rfl

theorem head?_bindAfter_true (bindings : ColumnBindings) (text : List Char) :
    (bindings.bindAfter true text).head? = text.head? := by
  cases hname : startsWith isNameChar text with
  | false => exact head?_bindAfter_of_not_name bindings true hname
  | true =>
    cases text with
    | nil => rfl
    | cons c rest => rw [bindAfter_true_cons hname]; rfl

theorem exists_cons_bindAfter_true (bindings : ColumnBindings) (c : Char) (rest : List Char) :
    ∃ others, bindings.bindAfter true (c :: rest) = c :: others := by
  have hhead := head?_bindAfter_true bindings (c :: rest)
  cases hbound : bindings.bindAfter true (c :: rest) with
  | nil =>
    rw [hbound] at hhead
    cases hhead
  | cons d others =>
    rw [hbound] at hhead
    obtain rfl := Option.some.inj hhead
    exact ⟨others, rfl⟩

theorem startsWith_eq_of_head? {p : Char → Bool} {other : List Char}
    (h : text.head? = other.head?) :
    startsWith p text = startsWith p other := by
  cases text with
  | nil => cases other with
    | nil => rfl
    | cons d rest => cases h
  | cons c text => cases other with
    | nil => cases h
    | cons d rest =>
      obtain rfl := Option.some.inj h
      rfl

/-- A name gives way to a name only. -/
theorem startsWith_bindAfter (bindings : ColumnBindings) (dotted : Bool) (text : List Char) :
    startsWith isNameChar (bindings.bindAfter dotted text) = startsWith isNameChar text := by
  cases hname : startsWith isNameChar text with
  | false => rw [startsWith_eq_of_head? (head?_bindAfter_of_not_name bindings dotted hname), hname]
  | true =>
    cases text with
    | nil => cases hname
    | cons c rest =>
      have hc : isNameChar c = true := hname
      have hfront : startsWith isNameChar ((c :: rest).takeWhile isNameChar ++
          bindings.bindAfter false ((c :: rest).dropWhile isNameChar)) = true := by
        rw [List.takeWhile_cons, if_pos hc]
        exact hc
      rw [bindAfter_frontWord hname]
      split
      · split
        · exact hfront
        · rw [access_eq]
          rfl
      · exact hfront

/-- A character that is in no name and is not at the front does not get there. -/
theorem bindAfter_ne_cons {d : Char} (hd : isNameChar d = false)
    (h : ∀ rest, text = d :: rest → False) :
    ∀ rest, bindings.bindAfter dotted text = d :: rest → False := by
  intro rest hbound
  have hname := startsWith_bindAfter bindings dotted text
  rw [hbound, show startsWith isNameChar (d :: rest) = false from hd] at hname
  have hhead := head?_bindAfter_of_not_name bindings dotted hname.symm
  rw [hbound] at hhead
  cases text with
  | nil => cases hhead
  | cons c text => exact h text (Option.some.inj hhead ▸ rfl)

/-! ### Strings -/

theorem bindFragments_quoted {quote : Char} {contents : List Char}
    (hquote : Literal.isQuote quote = true) (h : Literal.Contents quote contents)
    (previous : Option Fragment) (latest after : List Char) :
    bindings.bindFragments previous
      (readFrom (.quoted quote false latest) (contents ++ quote :: after)) =
      latest.reverse ++ (contents ++ quote :: bindings.bindAfter false after) := by
  have hbackslash := Literal.ne_backslash_of_isQuote hquote
  induction h generalizing previous latest with
  | nil =>
    have hnext : bindings.bindFragments (some (.quoted (quote :: latest).reverse)) (ofText after) =
        bindings.bindAfter false after := bindFragments_eq rfl
    simp [readFrom, Reading.step, hbackslash, bindFragments, Fragment.text, ← hnext, ofText]
  | escaped c _ ih => simp [readFrom, Reading.step, ih]
  | doubled _ ih =>
    simp [readFrom, Reading.step, hbackslash, begin, hquote, bindFragments, Fragment.text, ih]
  | plain hc hescape _ ih => simp [readFrom, Reading.step, hc, hescape, ih]

/-- A string stays. -/
theorem bindAfter_quoted {quote : Char} {contents : List Char}
    (hquote : Literal.isQuote quote = true) (h : Literal.Contents quote contents)
    (after : List Char) :
    bindings.bindAfter dotted (quote :: (contents ++ quote :: after)) =
      quote :: (contents ++ quote :: bindings.bindAfter false after) := by
  rw [bindAfter, ofText, readFrom]
  simp [Reading.step, begin, hquote, bindFragments_quoted hquote h]

/-! ### Blanks -/

theorem isNameChar_of_isWhitespace {c : Char} (h : Unicode.isWhitespace c = true) :
    isNameChar c = false := by
  have hunderscore : c ≠ '_' := by
    rintro rfl
    revert h
    decide
  simp [isNameChar, Unicode.isAlphanumeric_of_isWhitespace h, hunderscore]

theorem isQuote_of_isWhitespace {c : Char} (h : Unicode.isWhitespace c = true) :
    Literal.isQuote c = false := by
  refine Bool.eq_false_iff.mpr fun hquote => ?_
  cases h.symm.trans (isWhitespace_quote hquote)

theorem isWhitespace_of_isNameChar {c : Char} (h : isNameChar c = true) :
    Unicode.isWhitespace c = false := by
  refine Bool.eq_false_iff.mpr fun hblank => ?_
  cases h.symm.trans (isNameChar_of_isWhitespace hblank)

theorem startsWith_name_of_blank (h : startsWith Unicode.isWhitespace text = true) :
    startsWith isNameChar text = false := by
  cases text with
  | nil => rfl
  | cons c rest => exact isNameChar_of_isWhitespace h

theorem startsWith_blank_bindAfter (bindings : ColumnBindings) (dotted : Bool) (text : List Char) :
    startsWith Unicode.isWhitespace (bindings.bindAfter dotted text) =
      startsWith Unicode.isWhitespace text := by
  have hblank (text : List Char) (h : startsWith isNameChar text = true) :
      startsWith Unicode.isWhitespace text = false := by
    cases text with
    | nil => rfl
    | cons c rest => exact isWhitespace_of_isNameChar h
  cases hname : startsWith isNameChar text with
  | true =>
    rw [hblank text hname, hblank _ ((startsWith_bindAfter bindings dotted text).trans hname)]
  | false => exact startsWith_eq_of_head? (head?_bindAfter_of_not_name bindings dotted hname)

theorem dropWhile_of_startsWith {p : Char → Bool} (h : startsWith p text = false) :
    text.dropWhile p = text := by
  cases text with
  | nil => rfl
  | cons c rest =>
    have hc : p c = false := h
    rw [List.dropWhile_cons, hc, if_neg Bool.false_ne_true]

theorem takeWhile_of_startsWith {p : Char → Bool} (h : startsWith p text = false) :
    text.takeWhile p = [] := by
  cases text with
  | nil => rfl
  | cons c rest =>
    have hc : p c = false := h
    rw [List.takeWhile_cons, hc, if_neg Bool.false_ne_true]

theorem bindAfter_blank {c : Char} (h : Unicode.isWhitespace c = true) (rest : List Char) :
    bindings.bindAfter dotted (c :: rest) = c :: bindings.bindAfter false rest := by
  have hdot : (c == '.') = false := by
    refine beq_false_of_ne ?_
    rintro rfl
    revert h
    decide
  rw [bindAfter_sign (isQuote_of_isWhitespace h) (isNameChar_of_isWhitespace h), hdot]

theorem dropWhile_bindAfter (bindings : ColumnBindings) (text : List Char) :
    (bindings.bindAfter false text).dropWhile Unicode.isWhitespace =
      bindings.bindAfter false (text.dropWhile Unicode.isWhitespace) := by
  induction text with
  | nil => rfl
  | cons c rest ih =>
    cases hblank : Unicode.isWhitespace c with
    | true =>
      rw [bindAfter_blank hblank, List.dropWhile_cons, if_pos hblank, List.dropWhile_cons,
        if_pos hblank, ih]
    | false =>
      have hstart : startsWith Unicode.isWhitespace (c :: rest) = false := hblank
      rw [dropWhile_of_startsWith hstart, dropWhile_of_startsWith]
      rw [startsWith_blank_bindAfter, hstart]

theorem opensCall_dropWhile (text : List Char) :
    opensCall (ofText (text.dropWhile Unicode.isWhitespace)) = opensCall (ofText text) := by
  induction text with
  | nil => rfl
  | cons c rest ih =>
    cases hblank : Unicode.isWhitespace c with
    | true =>
      rw [List.dropWhile_cons, if_pos hblank, ih,
        ofText_sign (isQuote_of_isWhitespace hblank) (isNameChar_of_isWhitespace hblank)]
      simp [opensCall, isBlank, hblank]
    | false => rw [List.dropWhile_cons, hblank, if_neg Bool.false_ne_true]

theorem opensCall_blank {c : Char} (h : Unicode.isWhitespace c = true) (rest : List Char) :
    opensCall (ofText (c :: rest)) = opensCall (ofText rest) := by
  rw [← opensCall_dropWhile, List.dropWhile_cons, if_pos h, opensCall_dropWhile]

/-- Of the fragments that are no blanks, only the sign itself opens a call. -/
theorem opensCall_cons {c : Char} (hblank : Unicode.isWhitespace c = false) (rest : List Char) :
    opensCall (ofText (c :: rest)) = (c == '(') := by
  have hparen {c : Char} (hne : c ≠ '(') : (c == '(') = false := beq_false_of_ne hne
  cases hquote : Literal.isQuote c with
  | true =>
    obtain ⟨run, others, hfragments⟩ := exists_ofText_quote hquote rest
    rw [hfragments, hparen (by rintro rfl; revert hquote; decide)]
    rfl
  | false =>
    cases hname : isNameChar c with
    | true =>
      have hstart : startsWith isNameChar (c :: rest) = true := hname
      rw [ofText_frontWord hstart, hparen (by rintro rfl; revert hname; decide)]
      rfl
    | false =>
      rw [ofText, readFrom_sign hquote hname]
      by_cases hc : c = '('
      · rw [hc]
        rfl
      · rw [hparen hc]
        simp [opensCall, isBlank, hblank, hc]

end ColumnBindings

/-! ### Literals -/

namespace LiteralTable

open Fragment Lexer ColumnBindings

/-- The literals of a table have their places in a text: no placeholder in it is a part of a word
or of a string, and what is put between quotes stays there. -/
structure Placed (literals : LiteralTable) (text : List Char) : Prop where
  whole : ∀ entry ∈ literals, Placeholder.isWhole entry.1 = true
  isQuote : ∀ entry ∈ literals, Literal.isQuote entry.2.quote = true
  contents : ∀ entry ∈ literals, Literal.Contents entry.2.quote entry.2.text
  words : ∀ word, .word word ∈ ofText text → literals.Free word
  strings : ∀ run, .quoted run ∈ ofText text → ¬ literals.Mentions run

/-- Without literals every text is as it should be. -/
theorem placed_nil (text : List Char) : Placed [] text := by
  constructor <;> simp [Free, Mentions]

variable {literals : LiteralTable} {text rest : List Char}

theorem Placed.of_mem (h : literals.Placed text)
    (hrest : ∀ fragment ∈ ofText rest, fragment ∈ ofText text) : literals.Placed rest :=
  ⟨h.whole, h.isQuote, h.contents, fun word hword => h.words word (hrest _ hword),
    fun run hrun => h.strings run (hrest _ hrun)⟩

/-- A word is a placeholder of the table or mentions none. -/
theorem Placed.word_cases (h : literals.Placed text) {word : List Char}
    (hword : .word word ∈ ofText text) :
    (∃ literal, literals.get? word = some literal ∧ (word, literal) ∈ literals) ∨
      ¬ literals.Mentions word := by
  by_cases hmentions : literals.Mentions word
  · left
    have hwhole := h.words word hword hmentions
    obtain ⟨entry, hentry, hwithin⟩ := hmentions
    have heq : entry.1 = word := hwithin.eq_of_length
      ((Placeholder.length_of_isWhole (h.whole entry hentry)).trans
        (Placeholder.length_of_isWhole hwhole).symm)
    cases hget : literals.get? word with
    | some literal => exact ⟨literal, rfl, mem_of_get? hget⟩
    | none =>
      simp only [get?, Option.map_eq_none_iff, List.find?_eq_none, beq_iff_eq] at hget
      exact absurd heq (hget entry hentry)
  · exact .inr hmentions

/-- A text begins with the same character when its literals are put back, or with a quote in the
place of a word. -/
theorem exists_cons_restore (hquotes : ∀ entry ∈ literals, Literal.isQuote entry.2.quote = true)
    (c : Char) (rest : List Char) :
    ∃ d others, literals.restore true (c :: rest) = d :: others ∧
      (d = c ∨ isNameChar c = true ∧ Literal.isQuote d = true) := by
  cases hfound : (Placeholder.lettersAt? (c :: rest)).isSome with
  | false => exact ⟨c, _, restoreFrom_cons hfound, .inl rfl⟩
  | true =>
    rw [restore, restoreFrom, if_pos hfound, restored]
    cases hget : literals.get? ((c :: rest).take Placeholder.size) with
    | none => exact ⟨c, _, rfl, .inl rfl⟩
    | some literal =>
      have hname : isNameChar c = true := by
        cases hname : isNameChar c with
        | true => rfl
        | false => cases hfound.symm.trans (lettersAt?_sign hname rest)
      exact ⟨literal.quote, _, rfl, .inr ⟨hname, hquotes _ (mem_of_get? hget)⟩⟩

theorem restore_sign {c : Char} (h : isNameChar c = false) (rest : List Char) :
    literals.restore true (c :: rest) = c :: literals.restore true rest :=
  restoreFrom_cons (lettersAt?_sign h rest)

theorem startsWith_restore (h : startsWith isNameChar text = false) :
    startsWith isNameChar (literals.restore true text) = false := by
  cases text with
  | nil => rfl
  | cons c rest =>
    rw [restore_sign h]
    exact h

/-- Putting literals back opens no call and hides none. -/
theorem opensCall_restore (hquotes : ∀ entry ∈ literals, Literal.isQuote entry.2.quote = true)
    (text : List Char) :
    opensCall (ofText (literals.restore true text)) = opensCall (ofText text) := by
  induction text with
  | nil => rfl
  | cons c rest ih =>
    cases hblank : Unicode.isWhitespace c with
    | true =>
      rw [restore_sign (isNameChar_of_isWhitespace hblank), opensCall_blank hblank,
        opensCall_blank hblank, ih]
    | false =>
      obtain ⟨d, others, hothers, hd⟩ := exists_cons_restore hquotes c rest
      rw [hothers, opensCall_cons hblank]
      rcases hd with rfl | ⟨hname, hquote⟩
      · exact opensCall_cons hblank others
      · have hparen {c d : Char} (p : Char → Bool) (hc : p c = true) (hd : p d = false) :
            (c == d) = false := by
          refine beq_false_of_ne ?_
          rintro rfl
          cases hc.symm.trans hd
        rw [opensCall_cons (isWhitespace_quote hquote), hparen isNameChar hname (by decide),
          hparen Literal.isQuote hquote (by decide)]

end LiteralTable

namespace ColumnBindings

open Fragment Lexer LiteralTable

variable {bindings : ColumnBindings} {literals : LiteralTable} {dotted : Bool}
  {text rest : List Char}

/-- A number holds no placeholder. -/
theorem not_mentions_digitsOf (hwhole : ∀ entry ∈ literals, Placeholder.isWhole entry.1 = true)
    (n : Nat) : ¬ literals.Mentions (Number.digitsOf n) := by
  rintro ⟨entry, hentry, hwithin⟩
  obtain ⟨letters, -, -, hletters⟩ := Placeholder.isWhole_iff.mp (hwhole entry hentry)
  have hunderscore : '_' ∈ Number.digitsOf n := hwithin.subset (hletters ▸ List.mem_cons_self)
  have hdigit := Nat.isDigit_of_mem_toDigits (by decide) (Nat.le_refl 10) hunderscore
  revert hdigit
  decide

/-- Access to a column holds no placeholder. -/
theorem restore_access (hwhole : ∀ entry ∈ literals, Placeholder.isWhole entry.1 = true)
    (index : Nat) (rest : List Char) :
    literals.restore true (access index ++ rest) = access index ++ literals.restore true rest := by
  have hsign {c : Char} (hc : isNameChar c = false) (text : List Char) :
      ∀ d ∈ (c :: text).head?, isNameChar d = false := fun d hd => Option.some.inj hd ▸ hc
  have hbase : ¬ literals.Mentions "_values".toList := not_mentions_of_length hwhole (by decide)
  have hdigits := not_mentions_digitsOf hwhole index
  rw [access_eq, List.append_assoc, List.cons_append, List.cons_append, List.append_assoc,
    List.singleton_append, restore, restoreFrom_not_mentions true (hsign (by decide) _) hbase,
    restoreFrom_cons (lettersAt?_sign (by decide) _),
    restoreFrom_not_mentions true (hsign (by decide) _) hdigits,
    restoreFrom_cons (lettersAt?_sign (by decide) _)]
  simp [restore]

/-- A word in front of a text that begins with none is the front word. -/
theorem takeWhile_append_word {word : List Char} (hword : ∀ c ∈ word, isNameChar c = true)
    (hrest : startsWith isNameChar rest = false) :
    (word ++ rest).takeWhile isNameChar = word ∧ (word ++ rest).dropWhile isNameChar = rest := by
  rw [List.takeWhile_append_of_pos hword, List.dropWhile_append_of_pos hword,
    takeWhile_of_startsWith hrest, dropWhile_of_startsWith hrest, List.append_nil]
  exact ⟨rfl, rfl⟩

theorem startsWith_append_word {word : List Char} (hne : word ≠ [])
    (hword : ∀ c ∈ word, isNameChar c = true) (rest : List Char) :
    startsWith isNameChar (word ++ rest) = true := by
  obtain ⟨c, letters, rfl⟩ := List.exists_cons_of_ne_nil hne
  exact hword c List.mem_cons_self

theorem ofText_word {word : List Char} (hne : word ≠ [])
    (hword : ∀ c ∈ word, isNameChar c = true) (hrest : startsWith isNameChar rest = false) :
    ofText (word ++ rest) = .word word :: ofText rest := by
  obtain ⟨htake, hdrop⟩ := takeWhile_append_word hword hrest
  rw [ofText_frontWord (startsWith_append_word hne hword rest), htake, hdrop]

theorem bindAfter_word {word : List Char} (hne : word ≠ [])
    (hword : ∀ c ∈ word, isNameChar c = true) (hrest : startsWith isNameChar rest = false) :
    bindings.bindAfter dotted (word ++ rest) =
      (match lookup? (String.ofList word) bindings with
        | some index => if dotted || opensCall (ofText rest) then word else access index
        | none => word) ++ bindings.bindAfter false rest := by
  obtain ⟨htake, hdrop⟩ := takeWhile_append_word hword hrest
  have hfront : frontWord (word ++ rest) = String.ofList word := congrArg String.ofList htake
  rw [bindAfter_frontWord (startsWith_append_word hne hword rest), hfront, htake, hdrop]

theorem restore_word {word : List Char} (hword : ¬ literals.Mentions word)
    (hrest : startsWith isNameChar rest = false) :
    literals.restore true (word ++ rest) = word ++ literals.restore true rest := by
  refine restoreFrom_not_mentions true (fun c hc => ?_) hword
  obtain ⟨others, rfl⟩ := List.head?_eq_some_iff.mp hc
  exact hrest

/-- A word is bound or a literal is put in its place. -/
theorem restore_bindAfter_word (hplaced : literals.Placed text)
    (hunbound : ∀ entry ∈ literals, lookup? (String.ofList entry.1) bindings = none)
    {word : List Char} (hne : word ≠ []) (hword : ∀ c ∈ word, isNameChar c = true)
    (hrest : startsWith isNameChar rest = false) (hmem : .word word ∈ ofText text)
    (ih : literals.restore true (bindings.bindAfter false rest) =
      bindings.bindAfter false (literals.restore true rest)) :
    literals.restore true (bindings.bindAfter dotted (word ++ rest)) =
      bindings.bindAfter dotted (literals.restore true (word ++ rest)) := by
  have hbound : startsWith isNameChar (bindings.bindAfter false rest) = false :=
    (startsWith_bindAfter bindings false rest).trans hrest
  rw [bindAfter_word hne hword hrest]
  rcases hplaced.word_cases hmem with ⟨literal, hget, hentry⟩ | hmentions
  · have hwhole := hplaced.whole _ hentry
    have hrestored (text : List Char) : literals.restore true (word ++ text) =
        literal.quote :: (literal.text ++ literal.quote :: literals.restore true text) := by
      rw [restore, restoreFrom_whole true hwhole, restored, hget]
      simp [Literal.quoted, restore]
    rw [hunbound _ hentry, hrestored, hrestored,
      bindAfter_quoted (hplaced.isQuote _ hentry) (hplaced.contents _ hentry), ih]
  · have hrestore := @startsWith_restore literals _ hrest
    rw [restore_word hmentions hrest, bindAfter_word hne hword hrestore,
      opensCall_restore hplaced.isQuote, ← ih]
    split
    · split
      · exact restore_word hmentions hbound
      · exact restore_access hplaced.whole _ _
    · exact restore_word hmentions hbound

/-- A string stays, whether it is closed or not. -/
theorem restore_bindAfter_string (hplaced : literals.Placed text) {quote : Char}
    (hquote : Literal.isQuote quote = true) (htext : text = quote :: rest)
    (ih : ∀ after, after.length < text.length →
      (∀ fragment ∈ ofText after, fragment ∈ ofText text) →
      literals.restore true (bindings.bindAfter false after) =
        bindings.bindAfter false (literals.restore true after)) :
    literals.restore true (bindings.bindAfter dotted text) =
      bindings.bindAfter dotted (literals.restore true text) := by
  have hname := isIdentifierPart_quote hquote
  rcases ofText_quote hquote rest with ⟨run, after, hrest, hread⟩ | hread
  · subst htext hrest
    have hbound (other : List Char) : bindings.bindAfter dotted (quote :: (run ++ quote :: other)) =
        quote :: (run ++ quote :: bindings.bindAfter false other) := by
      have hnext : bindings.bindFragments (some (.quoted (quote :: (run ++ [quote]))))
          (ofText other) = bindings.bindAfter false other := bindFragments_eq rfl
      rw [bindAfter, hread]
      simp [bindFragments, Fragment.text, hnext]
    have hmentions : ¬ literals.Mentions run := by
      intro hrun
      refine hplaced.strings (quote :: (run ++ [quote])) ?_
        (hrun.of_part ⟨[quote], [quote], by simp⟩)
      rw [hread]
      exact List.mem_cons_self
    have hrestored (other : List Char) : literals.restore true (quote :: (run ++ quote :: other)) =
        quote :: (run ++ quote :: literals.restore true other) := by
      have hnext : startsWith isNameChar (quote :: other) = false := hname
      rw [restore_sign hname, restore_word hmentions hnext, restore_sign hname]
    rw [hbound, hrestored, hrestored, hbound, ih after (by simp; omega)]
    rw [hread]
    exact fun fragment hfragment => List.mem_cons_of_mem _ hfragment
  · subst htext
    have hmentions : ¬ literals.Mentions (quote :: rest) :=
      hplaced.strings _ (by rw [hread]; exact List.mem_singleton_self _)
    have hbound : bindings.bindAfter dotted (quote :: rest) = quote :: rest := by
      rw [bindAfter, hread]
      simp [bindFragments, Fragment.text]
    have hrestored : literals.restore true (quote :: rest) = quote :: rest := by
      have hword := @restore_word literals [] _ hmentions rfl
      simpa [restore, restoreFrom] using hword
    rw [hbound, hrestored, hbound]

/-- Binding columns and putting literals back do not interfere. -/
theorem restore_bindAfter {dotted : Bool} {text : List Char} (hplaced : literals.Placed text)
    (hunbound : ∀ entry ∈ literals, lookup? (String.ofList entry.1) bindings = none) :
    literals.restore true (bindings.bindAfter dotted text) =
      bindings.bindAfter dotted (literals.restore true text) := by
  have ih (dotted : Bool) (after : List Char) (hlength : after.length < text.length)
      (hafter : ∀ fragment ∈ ofText after, fragment ∈ ofText text) :
      literals.restore true (bindings.bindAfter dotted after) =
        bindings.bindAfter dotted (literals.restore true after) :=
    restore_bindAfter (hplaced.of_mem hafter) hunbound
  cases htext : text with
  | nil => rfl
  | cons c rest =>
    rw [htext] at hplaced ih
    cases hname : isNameChar c with
    | true =>
      have hstart : startsWith isNameChar (c :: rest) = true := hname
      have hfragments := ofText_frontWord hstart
      have hafter := ih false _ (length_dropWhile_lt hstart)
        (by rw [hfragments]; exact fun _ => List.mem_cons_of_mem _)
      have hword := @restore_bindAfter_word bindings literals dotted _ _ hplaced hunbound _
        (takeWhile_ne_nil hstart) (List.all_eq_true.mp List.all_takeWhile)
        (startsWith_dropWhile isNameChar (c :: rest))
        (by rw [hfragments]; exact List.mem_cons_self) hafter
      rwa [List.takeWhile_append_dropWhile] at hword
    | false =>
      cases hquote : Literal.isQuote c with
      | true => exact restore_bindAfter_string hplaced hquote rfl (ih false)
      | false =>
        have hfragments := ofText_sign hquote hname rest
        have hafter := ih (c == '.') rest (Nat.lt_succ_self _)
          (by rw [hfragments]; exact fun _ => List.mem_cons_of_mem _)
        rw [bindAfter_sign hquote hname, restore_sign hname, restore_sign hname,
          bindAfter_sign hquote hname, hafter]
termination_by text.length

end ColumnBindings

end StreamQuery
