import StreamQuery.Proofs.Query.Contents
import StreamQuery.Proofs.Query.Nesting
import StreamQuery.Proofs.Query.RecasedQueries

/-!
# Query texts under other spellings of functions

The text of a query calls a function where its name stands outside of literals and comments, is no
part of another word and no key behind an arrow, and has a parenthesis next to it. Written in other
cases of its letters there, the text is read to the same query, but for the spelling of what is
called.
-/

namespace StreamQuery

open Unicode Fragment ColumnBindings

/-! ### Comments -/

/-- Whether a comment goes on behind a text. -/
def endsInComment (inComment : Bool) : List Char → Bool
  | [] => inComment
  | c :: rest => endsInComment (if c == '\n' then false else inComment || c == '#') rest

theorem dropComments_append (inComment : Bool) (text rest : List Char) :
    dropComments inComment (text ++ rest) =
      dropComments inComment text ++ dropComments (endsInComment inComment text) rest := by
  induction text generalizing inComment with
  | nil => rfl
  | cons c text ih =>
    rw [List.cons_append, dropComments, dropComments, endsInComment]
    split
    · rw [ih, List.cons_append]
    · cases hcomment : inComment || c == '#' with
      | true => exact ih true
      | false => exact congrArg (c :: ·) (ih false)

theorem dropComments_subset (inComment : Bool) (text : List Char) :
    dropComments inComment text ⊆ text := by
  induction text generalizing inComment with
  | nil => exact List.Subset.refl []
  | cons c text ih =>
    rw [dropComments]
    split
    · exact List.cons_subset_cons c (ih _)
    · split
      · exact List.subset_cons_of_subset c (ih _)
      · exact List.cons_subset_cons c (ih _)

/-- A word is no part of a comment that begins in it. -/
theorem dropComments_word {word : List Char} (hword : word.all isNameChar = true)
    (rest : List Char) :
    dropComments true (word ++ rest) = dropComments true rest ∧
      dropComments false (word ++ rest) = word ++ dropComments false rest ∧
      ∀ inComment, endsInComment inComment (word ++ rest) = endsInComment inComment rest := by
  induction word with
  | nil => exact ⟨rfl, rfl, fun _ => rfl⟩
  | cons c word ih =>
    rw [List.all_cons, Bool.and_eq_true] at hword
    obtain ⟨htrue, hfalse, hends⟩ := ih hword.2
    have hline : (c == '\n') = false := beq_false_of_ne fun heq => by
      rw [heq] at hword
      exact absurd hword.1 (by decide)
    have hhash : (c == '#') = false := beq_false_of_ne fun heq => by
      rw [heq] at hword
      exact absurd hword.1 (by decide)
    simp [dropComments, endsInComment, hline, hhash, htrue, hfalse, hends]

/-! ### Places of calls -/

namespace Piece

/-- The text of pieces with a sign of words in place of each literal. -/
def sketch : List Piece → List Char
  | [] => []
  | .plain c :: rest => c :: sketch rest
  | .literal _ :: rest => ['_'] ++ sketch rest

section Placeholders

variable {name : Nat → List Char} (hnames : ∀ index, Placeholder.isWhole (name index) = true)
include hnames

theorem rewrite_literal_word (found : Literal) (rest : List Piece) (index : Nat) :
    rewrite name index (.literal found :: rest) = name index ++ rewrite name (index + 1) rest ∧
      (name index).all isNameChar = true ∧ name index ≠ [] := by
  refine ⟨rfl, isNameChar_of_isWhole (hnames index), fun hnil => ?_⟩
  have hwhole := hnames index
  rw [hnil] at hwhole
  cases hwhole

/-- Comments end at the same places, whatever stands for the literals. -/
theorem endsInComment_rewrite (pieces : List Piece) (inComment : Bool) (index : Nat) :
    endsInComment inComment (rewrite name index pieces) =
      endsInComment inComment (sketch pieces) := by
  induction pieces generalizing inComment index with
  | nil => rfl
  | cons piece rest ih =>
    cases piece with
    | plain c => exact ih _ _
    | literal found =>
      obtain ⟨hrewrite, hword, -⟩ := rewrite_literal_word hnames found rest index
      rw [hrewrite, sketch, (dropComments_word hword _).2.2, (dropComments_word (by decide) _).2.2,
        ih]

/-- What stands behind pieces does not depend on what stands for the literals. -/
theorem behind_rewrite (pieces : List Piece) (before : Before) (inComment : Bool) (index : Nat) :
    before.behind (dropComments inComment (rewrite name index pieces)) =
      before.behind (dropComments inComment (sketch pieces)) := by
  induction pieces generalizing before inComment index with
  | nil => rfl
  | cons piece rest ih =>
    cases piece with
    | plain c =>
      change before.behind (dropComments inComment (c :: rewrite name index rest)) =
        before.behind (dropComments inComment (c :: sketch rest))
      rw [dropComments, dropComments]
      split
      · exact ih _ _ _
      · split
        · exact ih _ _ _
        · exact ih _ _ _
    | literal found =>
      obtain ⟨hrewrite, hword, hne⟩ := rewrite_literal_word hnames found rest index
      have hsign : (['_'] : List Char).all isNameChar = true := by decide
      rw [hrewrite, sketch]
      cases inComment with
      | true => rw [(dropComments_word hword _).1, (dropComments_word hsign _).1, ih]
      | false =>
        rw [(dropComments_word hword _).2.1, (dropComments_word hsign _).2.1,
          Before.behind_append, Before.behind_append, Before.behind_word hne hword,
          Before.behind_word (List.cons_ne_nil _ _) hsign, ih]

/-- Signs at the front of pieces do not depend on what stands for the literals. -/
theorem prefix_solid_rewrite {signs : List Char} (hsigns : ∀ c ∈ signs, isNameChar c = false)
    (pieces : List Piece) (inComment : Bool) (index : Nat) :
    signs <+: solid (dropComments inComment (rewrite name index pieces)) ↔
      signs <+: solid (dropComments inComment (sketch pieces)) := by
  induction pieces generalizing signs inComment index with
  | nil => rfl
  | cons piece rest ih =>
    cases piece with
    | plain c =>
      change signs <+: solid (dropComments inComment (c :: rewrite name index rest)) ↔
        signs <+: solid (dropComments inComment (c :: sketch rest))
      have hkept : ∀ inComment : Bool,
          signs <+: solid (c :: dropComments inComment (rewrite name index rest)) ↔
            signs <+: solid (c :: dropComments inComment (sketch rest)) := by
        intro inComment
        rw [solid_cons, solid_cons]
        split
        · exact ih hsigns _ _
        · cases signs with
          | nil => simp
          | cons sign signs =>
            rw [List.cons_prefix_cons, List.cons_prefix_cons,
              ih (fun d hd => hsigns d (List.mem_cons_of_mem _ hd))]
      rw [dropComments, dropComments]
      split
      · exact hkept false
      · split
        · exact ih hsigns _ _
        · exact hkept false
    | literal found =>
      obtain ⟨hrewrite, hword, hne⟩ := rewrite_literal_word hnames found rest index
      have hunderscore : (['_'] : List Char).all isNameChar = true := by decide
      rw [hrewrite, sketch]
      cases inComment with
      | true => rw [(dropComments_word hword _).1, (dropComments_word hunderscore _).1, ih hsigns]
      | false =>
        rw [(dropComments_word hword _).2.1, (dropComments_word hunderscore _).2.1]
        -- A word is in front of both, so that no sign is.
        have hfront : ∀ {word : List Char}, word.all isNameChar = true → word ≠ [] →
            ∀ rest, signs <+: solid (word ++ rest) ↔ signs = [] := by
          intro word hword hne rest
          obtain ⟨c, word, rfl⟩ := List.exists_cons_of_ne_nil hne
          rw [List.all_cons, Bool.and_eq_true] at hword
          rw [List.cons_append, solid_cons, isWhitespace_of_isNameChar hword.1]
          cases signs with
          | nil => simp
          | cons sign signs =>
            have hsign : sign ≠ c := by
              rintro rfl
              cases hword.1.symm.trans (hsigns sign List.mem_cons_self)
            simp [List.cons_prefix_cons, hsign]
        rw [hfront hword hne, hfront hunderscore (List.cons_ne_nil _ _)]

theorem calls_rewrite {word : List Char} {pieces : List Piece} (index : Nat)
    (h : Calls true word (dropComments false (sketch pieces))) :
    Calls true word (dropComments false (rewrite name index pieces)) := by
  refine ⟨?_, fun hstars hmem hstar => h.argument hstars hmem ?_⟩
  · rw [opensParenthesis_iff, prefix_solid_rewrite hnames (by decide), ← opensParenthesis_iff]
    exact h.opens
  · exact (prefix_solid_rewrite hnames (by decide) pieces false index).mp hstar

end Placeholders

/-- A name is called between pieces: it stands in no comment, is no part of another word and no key
behind an arrow, and a parenthesis is next to it behind blanks and comments. The call is no count
of `*`. -/
structure CalledBetween (front : List Piece) (word : List Char) (rest : List Piece) : Prop where
  outside : endsInComment false (sketch front) = false
  place : (Before.free.behind (dropComments false (sketch front))).mayCall = true
  calls : Calls true word (dropComments false (sketch rest))

end Piece

/-! ### Recased texts -/

/-- The text of a query, and the same text with another spelling of the name of a function that is
called in it. -/
inductive RecasedText : List Char → List Char → Prop
  | called {front rest : List Piece} {word spelling : List Char} :
    Piece.Scanned (front ++ Piece.plains word ++ rest) → SameFunction word spelling →
    Piece.CalledBetween front word rest →
    RecasedText (Piece.textOf (front ++ Piece.plains word ++ rest))
      (Piece.textOf (front ++ Piece.plains spelling ++ rest))

namespace Piece

/-- Names have no quotes, so that literals end where they did. -/
theorem scanned_spelling {front rest : List Piece} {word spelling : List Char}
    (h : Scanned (front ++ plains word ++ rest)) (hname : SameFunction word spelling) :
    Scanned (front ++ plains spelling ++ rest) := by
  have hplain : ∀ {word : List Char}, word.all isNameChar = true → Scanned rest →
      Scanned (plains word ++ rest) := by
    intro word hword hrest
    induction word with
    | nil => exact hrest
    | cons c word ih =>
      rw [List.all_cons, Bool.and_eq_true] at hword
      exact .plain (isQuote_of_isNameChar hword.1) (ih hword.2)
  have hrest : ∀ {word : List Char}, Scanned (plains word ++ rest) → Scanned rest := by
    intro word h
    induction word with
    | nil => exact h
    | cons c word ih =>
      cases h with
      | plain _ h => exact ih h
  rw [List.append_assoc] at h ⊢
  induction front with
  | nil => exact hplain hname.symm.isNameChar (hrest h)
  | cons piece front ih =>
    cases h with
    | plain hc h => exact .plain hc (ih h)
    | @literal quote contents _ hquote hcontents hne h =>
      refine .literal hquote hcontents (fun c hc => ?_) (ih h)
      cases front with
      | cons first front => exact hne c (by cases first <;> exact hc)
      | nil =>
        -- The name comes next, and its spelling has no quote either.
        obtain ⟨d, e, letters, hspelling, hd, -⟩ := hname.symm.exists_letters
        rintro rfl
        have hdc : d = c := by simpa [hspelling, plains] using hc
        rw [hdc] at hd
        rcases Literal.eq_of_isQuote hquote with rfl | rfl <;> cases hd

end Piece

namespace RecasedText

variable {text other : List Char}

/-- Around a word outside of literals, pieces are rewritten alike. -/
theorem exists_rewrite_around (name : Nat → List Char) (front rest : List Piece) :
    ∃ index,
      (∀ word, Piece.rewrite name 0 (front ++ Piece.plains word ++ rest) =
        Piece.rewrite name 0 front ++ (word ++ Piece.rewrite name index rest)) ∧
      ∀ word, Piece.tableOf name 0 (front ++ Piece.plains word ++ rest) =
        Piece.tableOf name 0 front ++ Piece.tableOf name index rest := by
  generalize 0 = start
  induction front generalizing start with
  | nil =>
    exact ⟨start, fun word => Piece.rewrite_plains name start word rest,
      fun word => Piece.tableOf_plains name start word rest⟩
  | cons piece front ih =>
    cases piece with
    | plain c =>
      obtain ⟨index, hrewrite, htable⟩ := ih start
      exact ⟨index, fun word => congrArg (c :: ·) (hrewrite word), htable⟩
    | literal found =>
      obtain ⟨index, hrewrite, htable⟩ := ih (start + 1)
      refine ⟨index, fun word => ?_, fun word => congrArg (_ :: ·) (htable word)⟩
      rw [List.cons_append, List.cons_append, Piece.rewrite, hrewrite, Piece.rewrite,
        List.append_assoc]

/-- Extracting the literals of recased texts gives the same table and texts that are paired without
their comments. -/
theorem exists_scan (h : RecasedText text other) :
    ∃ pieces others, Piece.scan text = .ok pieces ∧ Piece.scan other = .ok others ∧
      ∀ name : Nat → List Char, (∀ index, Placeholder.isWhole (name index) = true) →
        Piece.tableOf name 0 others = Piece.tableOf name 0 pieces ∧
        SameLetters (Piece.rewrite name 0 pieces) (Piece.rewrite name 0 others) ∧
        Paired (dropComments false (Piece.rewrite name 0 pieces))
          (dropComments false (Piece.rewrite name 0 others)) := by
  obtain @⟨front, rest, word, spelling, hscanned, hname, hcalled⟩ := h
  refine ⟨_, _, Piece.scan_textOf hscanned,
    Piece.scan_textOf (Piece.scanned_spelling hscanned hname), fun name hnames => ?_⟩
  obtain ⟨index, hrewrite, htable⟩ := exists_rewrite_around name front rest
  have houtside : endsInComment false (Piece.rewrite name 0 front) = false :=
    (Piece.endsInComment_rewrite hnames front false 0).trans hcalled.outside
  have hplace : (Before.free.behind
      (dropComments false (Piece.rewrite name 0 front))).mayCall = true := by
    rw [Piece.behind_rewrite hnames]
    exact hcalled.place
  have hquotes : ∀ c ∈ Piece.rewrite name 0 (front ++ Piece.plains word ++ rest),
      Literal.isQuote c = false :=
    Piece.isQuote_rewrite hscanned (LiteralTable.isWhole_of_extract hnames
      ((Piece.extract_eq name _).trans (by rw [Piece.scan_textOf hscanned]; rfl)))
  have hdropped : ∀ {word : List Char}, word.all isNameChar = true →
      dropComments false (Piece.rewrite name 0 (front ++ Piece.plains word ++ rest)) =
        dropComments false (Piece.rewrite name 0 front) ++
          (word ++ dropComments false (Piece.rewrite name index rest)) := fun hword => by
    rw [hrewrite, dropComments_append, houtside, (dropComments_word hword _).2.1]
  refine ⟨(htable spelling).trans (htable word).symm, ?_,
    fun c hc => hquotes c (dropComments_subset false _ hc), ?_⟩
  · rw [hrewrite, hrewrite]
    exact (SameLetters.refl _).append (hname.letters.append (.refl _))
  · rw [hdropped hname.isNameChar, hdropped hname.symm.isNameChar]
    exact .append_left _ (.called hplace hname (Piece.calls_rewrite hnames index hcalled.calls))

end RecasedText

namespace Query

/-- A query under another spelling of a function that it calls is read to the same query, but for
the spelling of what is called and the names of columns that have no other name, or is not read
either; the same is warned about. -/
theorem agree_parseWith_recased {text other : List Char} (h : RecasedText text other)
    {name : Nat → List Char} (hnames : ∀ index, Placeholder.isWhole (name index) = true)
    (policy : WarningPolicy) (defaultTarget : String) :
    Reporting.Agree (fun _ _ => True) Query.Recased
      (parseWith name policy defaultTarget (String.ofList text))
      (parseWith name policy defaultTarget (String.ofList other)) := by
  obtain ⟨pieces, others, htext, hother, hrewritten⟩ := h.exists_scan
  obtain ⟨htable, hletters, hpaired⟩ := hrewritten name hnames
  rw [parseWith_scanned htext, parseWith_scanned hother, htable]
  have hclauses := QueryStructure.alike_ofText hpaired
  generalize hfirst : QueryStructure.ofText (Piece.rewrite name 0 pieces) = clauses,
    hsecond : QueryStructure.ofText (Piece.rewrite name 0 others) = otherClauses at hclauses
  cases hclauses with
  | error =>
    rw [ofRewritten_error hfirst, ofRewritten_error hsecond]
    exact Reporting.agree_throw trivial
  | ok hsame =>
    rw [ofRewritten_ok hfirst, ofRewritten_ok hsecond]
    exact agree_ofStructure_recased hsame hletters policy defaultTarget _

end Query

end StreamQuery
