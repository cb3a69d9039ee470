import Mathlib.Data.List.Chain
import StreamQuery.Proofs.Query.Refilling
import StreamQuery.Proofs.Query.Restoring
import StreamQuery.Query.Fragment

/-!
# Literals in fragments

Clause texts as fragments in which every literal is whole, and the texts that come of them when
literals are put back.
-/

/-!
## Fragments with whole literals

A clause text with placeholders is a sequence of words and signs, to which shorthand and column
bindings add names in quotes. As long as no name in quotes holds a placeholder the text is read
back to the fragments that it was written from, and restoring puts every literal where no other
quotes are open.
-/

namespace StreamQuery

namespace Fragment

/-! ### Characters of words -/

theorem toNat_lt_of_isAlphanum {c : Char} (h : c.isAlphanum = true) : c.toNat < 128 := by
  change (decide (c.val ≥ 'A'.val ∧ c.val ≤ 'Z'.val) ||
    decide (c.val ≥ 'a'.val) && decide (c.val ≤ 'z'.val) ||
    decide (c.val ≥ '0'.val) && decide (c.val ≤ '9'.val)) = true at h
  simp only [Bool.or_eq_true, Bool.and_eq_true, decide_eq_true_eq, ge_iff_le,
    UInt32.le_iff_toNat_le] at h
  have : c.toNat = c.val.toNat := rfl
  have : 'Z'.val.toNat = 90 := rfl
  have : 'z'.val.toNat = 122 := rfl
  have : '9'.val.toNat = 57 := rfl
  omega

theorem isNameChar_of_isAlpha {c : Char} (h : c.isAlpha = true) : isNameChar c = true := by
  have hascii := toNat_lt_of_isAlphanum (show c.isAlphanum = true by simp [Char.isAlphanum, h])
  simp [isNameChar, Unicode.isAlphanumeric, Unicode.isAlphabetic, hascii, h]

theorem isNameChar_of_isDigit {c : Char} (h : c.isDigit = true) : isNameChar c = true := by
  have hascii := toNat_lt_of_isAlphanum (show c.isAlphanum = true by simp [Char.isAlphanum, h])
  simp [isNameChar, Unicode.isAlphanumeric, Unicode.isNumeric, hascii, h]

theorem isQuote_of_isNameChar {c : Char} (h : isNameChar c = true) : Literal.isQuote c = false := by
  refine Bool.eq_false_iff.mpr fun hquote => ?_
  rcases Literal.eq_of_isQuote hquote with rfl | rfl <;> revert h <;> decide

theorem ne_of_isNameChar {c d : Char} (hc : isNameChar c = true) (hd : isNameChar d = false) :
    c ≠ d := by
  rintro rfl
  cases hc.symm.trans hd

theorem isNameChar_of_isWhole {word : List Char} (h : Placeholder.isWhole word = true) :
    word.all isNameChar = true := by
  obtain ⟨letters, -, hletters, rfl⟩ := Placeholder.isWhole_iff.mp h
  have hnames : letters.all isNameChar = true :=
    List.all_eq_true.mpr fun c hc => isNameChar_of_isAlpha (List.all_eq_true.mp hletters c hc)
  have hunderscore : isNameChar '_' = true := by decide
  simp only [List.cons_append, List.all_cons, List.all_append, List.all_nil, hnames, hunderscore,
    Bool.and_self]

/-- A part of characters of a class does not reach over another character. -/
theorem prefix_of_all {p : Char → Bool} {part text rest : List Char} (hpart : part.all p = true)
    (hrest : ∀ c ∈ rest.head?, p c = false) (h : part <+: text ++ rest) : part <+: text := by
  rcases Nat.le_total part.length text.length with hle | hge
  · exact List.prefix_of_prefix_length_le h (List.prefix_append _ _) hle
  · obtain ⟨tail, rfl⟩ := List.prefix_of_prefix_length_le (List.prefix_append _ _) h hge
    rw [List.prefix_append_right_inj] at h
    cases tail with
    | nil => exact ⟨[], by simp⟩
    | cons c tail =>
      obtain ⟨after, rfl⟩ := h
      have hc : p c = true := List.all_eq_true.mp hpart c (by simp)
      cases hc.symm.trans (hrest c rfl)

/-- A part that begins with a character that is not in a text lies behind the text. -/
theorem within_of_append {part text rest : List Char} (hne : part ≠ [])
    (hpart : ∀ c ∈ part.head?, c ∉ text) (h : part <:+: text ++ rest) : part <:+: rest := by
  obtain ⟨c, tail, rfl⟩ := List.exists_cons_of_ne_nil hne
  have hc : c ∉ text := hpart c rfl
  rcases List.infix_append_iff.mp h with hwithin | hwithin | ⟨first, second, heq, hfirst, hsecond⟩
  · exact absurd (hwithin.subset List.mem_cons_self) hc
  · exact hwithin
  · cases first with
    | nil => exact heq ▸ hsecond.isInfix
    | cons d first =>
      obtain ⟨rfl, -⟩ := List.cons.inj heq
      exact absurd (hfirst.subset List.mem_cons_self) hc

/-! ### Reading and writing -/

/-- What has been read of a fragment. -/
def Reading.text : Reading → List Char
  | .nothing => []
  | .word latest => latest.reverse
  | .quoted _ _ latest => latest.reverse

theorem textOf_finish (reading : Reading) : textOf reading.finish = reading.text := by
  cases reading <;> simp [Reading.finish, Reading.text, textOf, text]

theorem textOf_append (first second : List Fragment) :
    textOf (first ++ second) = textOf first ++ textOf second :=
  List.flatMap_append

@[simp] theorem textOf_nil : textOf [] = [] := rfl

@[simp] theorem textOf_cons (fragment : Fragment) (rest : List Fragment) :
    textOf (fragment :: rest) = fragment.text ++ textOf rest := rfl

theorem textOf_begin (c : Char) : textOf (begin c).1 ++ (begin c).2.text = [c] := by
  unfold begin
  split
  · rfl
  · split <;> rfl

theorem textOf_step (reading : Reading) (c : Char) :
    textOf (reading.step c).1 ++ (reading.step c).2.text = reading.text ++ [c] := by
  cases reading with
  | nothing => exact textOf_begin c
  | word latest =>
    simp only [Reading.step]
    split
    · simp [Reading.text]
    · rw [textOf_cons, List.append_assoc, textOf_begin]
      rfl
  | quoted quote escaped latest =>
    cases escaped with
    | true => simp [Reading.step, Reading.text]
    | false =>
      simp only [Reading.step]
      split
      · simp [Reading.text]
      · split <;> simp [Reading.text, Fragment.text]

theorem textOf_readFrom (reading : Reading) (text : List Char) :
    textOf (readFrom reading text) = reading.text ++ text := by
  induction text generalizing reading with
  | nil => rw [readFrom, textOf_finish, List.append_nil]
  | cons c rest ih =>
    rw [readFrom, textOf_append, ih, ← List.append_assoc, textOf_step, List.append_assoc,
      List.singleton_append]

/-- Fragments are written back to the text that they were read from. -/
theorem textOf_ofText (text : List Char) : textOf (ofText text) = text :=
  textOf_readFrom .nothing text

theorem readFrom_sign {c : Char} (hquote : Literal.isQuote c = false) (hname : isNameChar c = false)
    (rest : List Char) : readFrom .nothing (c :: rest) = .sign c :: readFrom .nothing rest := by
  simp [readFrom, Reading.step, begin, hquote, hname]

theorem readFrom_begin {c : Char} (h : isNameChar c = true) (rest : List Char) :
    readFrom .nothing (c :: rest) = readFrom (.word [c]) rest := by
  simp [readFrom, Reading.step, begin, isQuote_of_isNameChar h, h]

theorem readFrom_word {latest word : List Char} (hword : word.all isNameChar = true)
    (rest : List Char) :
    readFrom (.word latest) (word ++ rest) = readFrom (.word (word.reverse ++ latest)) rest := by
  induction word generalizing latest with
  | nil => rfl
  | cons c word ih =>
    rw [List.all_cons, Bool.and_eq_true] at hword
    simp [readFrom, Reading.step, hword.1, ih hword.2]

/-- A word ends in front of any other character. -/
theorem readFrom_end {latest rest : List Char} (hrest : ∀ c ∈ rest.head?, isNameChar c = false) :
    readFrom (.word latest) rest = .word latest.reverse :: readFrom .nothing rest := by
  cases rest with
  | nil => rfl
  | cons c rest => simp [readFrom, Reading.step, hrest c rfl]

theorem readFrom_quoted {latest name : List Char} (hname : name.all isNameChar = true)
    (rest : List Char) :
    readFrom (.quoted '\'' false latest) (name ++ '\'' :: rest) =
      .quoted (latest.reverse ++ name ++ ['\'']) :: readFrom .nothing rest := by
  induction name generalizing latest with
  | nil => simp [readFrom, Reading.step]
  | cons c name ih =>
    rw [List.all_cons, Bool.and_eq_true] at hname
    have hbackslash : c ≠ '\\' := ne_of_isNameChar hname.1 (by decide)
    have hquote : c ≠ '\'' := ne_of_isNameChar hname.1 (by decide)
    simp [readFrom, Reading.step, hbackslash, hquote, ih hname.2]

/-! ### Tidy fragments -/

/-- Whether a fragment is a sign. -/
def isSign : Fragment → Bool
  | .sign _ => true
  | _ => false

/-- A fragment is what it claims to be, and holds no placeholder of the table if it is a name in
quotes. -/
inductive Whole (table : LiteralTable) : Fragment → Prop
  | word {letters : List Char} : letters ≠ [] → letters.all isNameChar = true →
      Whole table (.word letters)
  | sign {c : Char} : isNameChar c = false → Literal.isQuote c = false → Whole table (.sign c)
  | quoted {name : List Char} : name.all isNameChar = true → ¬ table.Mentions name →
      Whole table (.quoted ('\'' :: name ++ ['\'']))

/-- Whole fragments with a sign between words and names in quotes. -/
structure Tidy (table : LiteralTable) (fragments : List Fragment) : Prop where
  whole : ∀ fragment ∈ fragments, Whole table fragment
  apart : fragments.IsChain fun fragment next => fragment.isSign = true ∨ next.isSign = true

variable {table : LiteralTable}

theorem tidy_nil : Tidy table [] :=
  ⟨fun _ h => absurd h List.not_mem_nil, .nil⟩

theorem Tidy.sign {c : Char} {rest : List Fragment} (hname : isNameChar c = false)
    (hquote : Literal.isQuote c = false) (h : Tidy table rest) : Tidy table (.sign c :: rest) :=
  ⟨List.forall_mem_cons.mpr ⟨.sign hname hquote, h.whole⟩,
    List.isChain_cons.mpr ⟨fun _ _ => .inl rfl, h.apart⟩⟩

theorem Tidy.before_sign {fragment : Fragment} {rest : List Fragment}
    (hfragment : Whole table fragment) (hrest : ∀ next ∈ rest.head?, next.isSign = true)
    (h : Tidy table rest) : Tidy table (fragment :: rest) :=
  ⟨List.forall_mem_cons.mpr ⟨hfragment, h.whole⟩,
    List.isChain_cons.mpr ⟨fun next hnext => .inr (hrest next hnext), h.apart⟩⟩

theorem Tidy.before_sign_cons {fragment : Fragment} {c : Char} {rest : List Fragment}
    (hfragment : Whole table fragment) (h : Tidy table (.sign c :: rest)) :
    Tidy table (fragment :: .sign c :: rest) :=
  h.before_sign hfragment (by simp [isSign])

theorem Tidy.part {fragments part : List Fragment} (h : Tidy table fragments)
    (hpart : part <:+: fragments) : Tidy table part := by
  refine ⟨fun fragment hfragment => h.whole fragment (hpart.subset hfragment), ?_⟩
  obtain ⟨before, after, rfl⟩ := hpart
  exact (List.isChain_append.mp (List.isChain_append.mp h.apart).1).2.1

theorem Tidy.tail {fragment : Fragment} {rest : List Fragment} (h : Tidy table (fragment :: rest)) :
    Tidy table rest :=
  h.part (List.suffix_cons _ _).isInfix

theorem Tidy.sign_of_head? {fragment : Fragment} {rest : List Fragment}
    (h : Tidy table (fragment :: rest)) (hfragment : fragment.isSign = false) :
    ∀ next ∈ rest.head?, next.isSign = true := fun next hnext =>
  ((List.isChain_cons.mp h.apart).1 next hnext).resolve_left (by simp [hfragment])

/-- The text after a word or a name in quotes begins with another character than those of words. -/
theorem Tidy.isNameChar_head? {rest : List Fragment} (h : Tidy table rest)
    (hsign : ∀ next ∈ rest.head?, next.isSign = true) :
    ∀ c ∈ (textOf rest).head?, isNameChar c = false := by
  cases rest with
  | nil => exact fun _ hc => by cases hc
  | cons next rest =>
    cases h.whole next List.mem_cons_self with
    | word => cases hsign _ rfl
    | quoted => cases hsign _ rfl
    | sign hname =>
      rintro c hc
      obtain rfl := Option.some.inj hc
      exact hname

/-- Tidy fragments are read back from the text that they are written to. -/
theorem ofText_textOf {fragments : List Fragment} (h : Tidy table fragments) :
    ofText (textOf fragments) = fragments := by
  induction fragments with
  | nil => rfl
  | cons fragment rest ih =>
    have hrest := ih h.tail
    rw [ofText] at hrest ⊢
    rw [textOf_cons]
    cases h.whole fragment List.mem_cons_self with
    | sign hname hquote => rw [text, List.singleton_append, readFrom_sign hquote hname, hrest]
    | @word letters hne hletters =>
      obtain ⟨c, word, rfl⟩ := List.exists_cons_of_ne_nil hne
      rw [List.all_cons, Bool.and_eq_true] at hletters
      rw [text, List.cons_append, readFrom_begin hletters.1, readFrom_word hletters.2,
        readFrom_end (h.tail.isNameChar_head? (h.sign_of_head? rfl)), hrest]
      simp
    | @quoted name hname _ =>
      rw [text, List.cons_append, List.cons_append, List.append_assoc, List.singleton_append,
        readFrom]
      simp [Reading.step, begin, Literal.isQuote, readFrom_quoted hname, hrest]

/-- A word that is being read is followed by a sign. -/
theorem tidy_readFrom {text : List Char} (htext : ∀ c ∈ text, Literal.isQuote c = false) :
    Tidy table (readFrom .nothing text) ∧
      ∀ latest, latest ≠ [] → latest.all isNameChar = true →
        Tidy table (readFrom (.word latest) text) := by
  induction text with
  | nil =>
    refine ⟨tidy_nil, fun latest hne hlatest => ?_⟩
    exact tidy_nil.before_sign (.word (by simpa using hne) (by simpa using hlatest)) (by simp)
  | cons c rest ih =>
    obtain ⟨hc, hrest⟩ := List.forall_mem_cons.mp htext
    obtain ⟨ihNothing, ihWord⟩ := ih hrest
    by_cases hname : isNameChar c = true
    · refine ⟨?_, fun latest hne hlatest => ?_⟩
      · rw [readFrom_begin hname]
        exact ihWord [c] (by simp) (by simp [hname])
      · rw [readFrom]
        simp only [Reading.step, hname, if_true, List.nil_append]
        exact ihWord (c :: latest) (by simp) (by simp [hname, hlatest])
    · have hsign : Tidy table (readFrom .nothing (c :: rest)) := by
        rw [readFrom_sign hc (Bool.eq_false_iff.mpr hname)]
        exact ihNothing.sign (Bool.eq_false_iff.mpr hname) hc
      refine ⟨hsign, fun latest hne hlatest => ?_⟩
      rw [readFrom_end (by simp [hname])]
      rw [readFrom_sign hc (Bool.eq_false_iff.mpr hname)] at hsign ⊢
      exact hsign.before_sign_cons (.word (by simpa using hne) (by simpa using hlatest))

/-- A text without quotes is a sequence of words and signs. -/
theorem tidy_ofText {text : List Char} (h : ∀ c ∈ text, Literal.isQuote c = false) :
    Tidy table (ofText text) :=
  (tidy_readFrom h).1

end Fragment

end StreamQuery

/-!
## Putting different literals back

Two tables with the same placeholders restore tidy fragments to texts that differ only in the
contents of literals. Literals that end up side by side with the same quotes are one literal with a
doubled quote.
-/

namespace StreamQuery

/-- Literals that are related one by one and stand side by side with the same quotes. -/
inductive Joined (related : Literal → Literal → Prop) : Literal → Literal → Prop
  | one {literal filling : Literal} : related literal filling → Joined related literal filling
  | more {quote : Char} {contents filling tail other : List Char} :
      related ⟨quote, contents⟩ ⟨quote, filling⟩ → Joined related ⟨quote, tail⟩ ⟨quote, other⟩ →
      Joined related ⟨quote, contents ++ quote :: quote :: tail⟩
        ⟨quote, filling ++ quote :: quote :: other⟩

/-- Two texts of the same characters and of literals that are related, whatever follows them. -/
inductive Filled (related : Literal → Literal → Prop) : List Char → List Char → Prop
  | nil : Filled related [] []
  | plain {c : Char} {rest other : List Char} : Literal.isQuote c = false →
      Filled related rest other → Filled related (c :: rest) (c :: other)
  | literal {quote : Char} {contents filling rest other : List Char} :
      Literal.isQuote quote = true → Literal.Contents quote contents →
      Literal.Contents quote filling → related ⟨quote, contents⟩ ⟨quote, filling⟩ →
      Filled related rest other →
      Filled related (quote :: contents ++ quote :: rest) (quote :: filling ++ quote :: other)

variable {related : Literal → Literal → Prop}

namespace Literal

theorem Contents.append {quote : Char} {first second : List Char} (h : Contents quote first)
    (hsecond : Contents quote second) : Contents quote (first ++ second) := by
  induction h with
  | nil => exact hsecond
  | escaped c _ ih => exact .escaped c ih
  | doubled _ ih => exact .doubled ih
  | plain hne hbackslash _ ih => exact .plain hne hbackslash ih

end Literal

namespace Piece

theorem isOk_scan_plain {c : Char} (hc : Literal.isQuote c = false) (rest : List Char) :
    (scan (c :: rest)).isOk = (scan rest).isOk := by
  rw [scan_plain hc]
  cases scan rest <;> rfl

theorem isOk_scan_literal {quote : Char} {rest contents after : List Char}
    (hquote : Literal.isQuote quote = true)
    (hread : Literal.read? quote rest = some (contents, after)) :
    (scan (quote :: rest)).isOk = (scan after).isOk := by
  rw [scan_literal hquote hread]
  cases scan after <;> rfl

end Piece

namespace Filled

theorem append_plain {plain text other : List Char}
    (hplain : ∀ c ∈ plain, Literal.isQuote c = false) (h : Filled related text other) :
    Filled related (plain ++ text) (plain ++ other) := by
  induction plain with
  | nil => exact h
  | cons c plain ih =>
    obtain ⟨hc, hplain⟩ := List.forall_mem_cons.mp hplain
    exact .plain hc (ih hplain)

/-- The literals of the texts are found again where they were put, those side by side as one. -/
theorem refilled {text other : List Char} (h : Filled related text other) :
    Refilled (Joined related) text other ∧ (Piece.scan text).isOk = true := by
  induction h with
  | nil => exact ⟨.nil, by rw [Piece.scan_nil]; rfl⟩
  | plain hc _ ih => exact ⟨.plain hc ih.1, by rw [Piece.isOk_scan_plain hc, ih.2]⟩
  | @literal quote contents filling rest other hquote hcontents hfilling hrelated _ ih =>
    obtain ⟨hrefilled, hscan⟩ := ih
    by_cases hrest : ∀ c ∈ rest.head?, c ≠ quote
    · refine ⟨.literal hquote hcontents hfilling (.one hrelated) hrest hrefilled, ?_⟩
      rw [List.cons_append, Piece.isOk_scan_literal hquote
        (Literal.read?_append hquote hcontents hrest), hscan]
    · -- The literal that follows has the same quotes: both are one literal.
      cases hrefilled with
      | nil => simp at hrest
      | @plain c tail _ hc =>
        obtain rfl : c = quote := by simpa using hrest
        cases hquote.symm.trans hc
      | @unterminated c tail hc hread =>
        rw [Piece.scan_unterminated hc hread] at hscan
        cases hscan
      | @literal c tail filled after otherAfter _ htail hfilled hjoined hafter hrefilled =>
        obtain rfl : c = quote := by simpa using hrest
        have hwhole : Literal.Contents c (contents ++ c :: c :: tail) :=
          hcontents.append htail.doubled
        have hother : Literal.Contents c (filling ++ c :: c :: filled) :=
          hfilling.append hfilled.doubled
        have hrefilled := Refilled.literal hquote hwhole hother (.more hrelated hjoined) hafter
          hrefilled
        rw [List.cons_append, Piece.isOk_scan_literal hquote
          (Literal.read?_append hquote htail hafter)] at hscan
        refine ⟨by simpa using hrefilled, ?_⟩
        rw [← hscan, ← Piece.isOk_scan_literal hquote
          (Literal.read?_append hquote hwhole hafter)]
        simp

end Filled

namespace LiteralTable

variable {table others : LiteralTable}

/-- A literal and the same literal, or two literals behind the same placeholder. -/
def Swapped (table others : LiteralTable) (literal filling : Literal) : Prop :=
  literal = filling ∨
    ∃ placeholder, table.get? placeholder = some literal ∧ others.get? placeholder = some filling

/-- Two literals with the same quotes and contents that fit between them. -/
structure Fillings (literal filling : Literal) : Prop where
  quote : literal.quote = filling.quote
  isQuote : Literal.isQuote literal.quote = true
  contents : Literal.Contents literal.quote literal.text
  filling : Literal.Contents literal.quote filling.text

theorem mentions_iff (h : List.Forall₂ (SameEntry related) table others) (text : List Char) :
    table.Mentions text ↔ others.Mentions text := by
  unfold Mentions
  induction h with
  | nil => rfl
  | cons hentry _ ih => simp only [List.exists_mem_cons_iff, hentry.placeholder, ih]

/-! ### Texts in front of a sign -/

/-- A text in front of another one as restoring takes it apart: placeholders, whether the table has
them or not, and single characters. -/
inductive Parts (rest : List Char) : List Char → Prop
  | nil : Parts rest []
  | placeholder {word tail : List Char} : Placeholder.isWhole word = true → Parts rest tail →
      Parts rest (word ++ tail)
  | plain {c : Char} {tail : List Char} :
      (Placeholder.lettersAt? (c :: tail ++ rest)).isSome = false → Parts rest tail →
      Parts rest (c :: tail)

/-- No placeholder reaches over a character that is none of words. -/
theorem exists_prefix_of_lettersAt? {text rest : List Char}
    (hrest : ∀ c ∈ rest.head?, Fragment.isNameChar c = false)
    (h : (Placeholder.lettersAt? (text ++ rest)).isSome = true) :
    ∃ word tail, Placeholder.isWhole word = true ∧ text = word ++ tail := by
  obtain ⟨letters, hsome⟩ := Option.isSome_iff_exists.mp h
  obtain ⟨hlength, hletters, after, heq⟩ := Placeholder.lettersAt?_eq_some_iff.mp hsome
  have hwhole : Placeholder.isWhole ('_' :: '_' :: letters ++ ['_', '_']) = true :=
    Placeholder.isWhole_iff.mpr ⟨letters, hlength, hletters, rfl⟩
  have hwithin : '_' :: '_' :: letters ++ ['_', '_'] <+: text ++ rest := ⟨after, by simp [heq]⟩
  obtain ⟨tail, htail⟩ :=
    Fragment.prefix_of_all (Fragment.isNameChar_of_isWhole hwhole) hrest hwithin
  exact ⟨_, tail, hwhole, htail.symm⟩

theorem parts {rest : List Char} (hrest : ∀ c ∈ rest.head?, Fragment.isNameChar c = false)
    (text : List Char) : Parts rest text := by
  induction hlength : text.length using Nat.strongRecOn generalizing text with
  | ind length ih =>
    subst hlength
    cases text with
    | nil => exact .nil
    | cons c tail =>
      cases hfound : (Placeholder.lettersAt? (c :: tail ++ rest)).isSome with
      | false => exact .plain hfound (ih tail.length (Nat.lt_succ_self _) tail rfl)
      | true =>
        obtain ⟨word, after, hwhole, hparts⟩ := exists_prefix_of_lettersAt? hrest hfound
        have hshorter : after.length < (c :: tail).length := by
          have hsize := Placeholder.length_of_isWhole hwhole
          rw [hparts, List.length_append, hsize]
          exact Nat.lt_add_of_pos_left (by decide)
        rw [hparts]
        exact .placeholder hwhole (ih after.length hshorter after rfl)

theorem restoreFrom_whole {word : List Char} (quotes : Bool)
    (hwhole : Placeholder.isWhole word = true) (rest : List Char) :
    restoreFrom table quotes 0 (word ++ rest) =
      table.restored quotes word ++ restoreFrom table quotes 0 rest := by
  simp only [Placeholder.isWhole, Bool.and_eq_true, beq_iff_eq] at hwhole
  exact restoreFrom_found hwhole.1 (Placeholder.isSome_lettersAt?_append hwhole.2 rest)

/-- A text that mentions no placeholder of the table stays as it is. -/
theorem restoreFrom_not_mentions {text rest : List Char} (quotes : Bool)
    (hrest : ∀ c ∈ rest.head?, Fragment.isNameChar c = false) (htext : ¬ table.Mentions text) :
    restoreFrom table quotes 0 (text ++ rest) = text ++ restoreFrom table quotes 0 rest := by
  induction parts hrest text with
  | nil => rfl
  | @placeholder word tail hwhole _ ih =>
    have hget : table.get? word = none := by
      refine get?_eq_none fun entry hentry hword => htext ⟨entry, hentry, ?_⟩
      rw [hword]
      exact (List.prefix_append word tail).isInfix
    have htail : ¬ table.Mentions tail := fun h =>
      htext (h.of_part (List.suffix_append word tail).isInfix)
    rw [List.append_assoc, restoreFrom_whole quotes hwhole, restored, hget, ih htail,
      List.append_assoc]
  | @plain c tail hplain _ ih =>
    have htail : ¬ table.Mentions tail := fun h =>
      htext (h.of_part (List.suffix_cons c tail).isInfix)
    rw [List.cons_append] at hplain ⊢
    rw [restoreFrom_cons hplain, ih htail, List.cons_append]

/-- Words are filled with the literals of the two tables. -/
theorem filled_word {word rest : List Char} (h : List.Forall₂ (SameEntry Fillings) table others)
    (hword : word.all Fragment.isNameChar = true)
    (hrest : ∀ c ∈ rest.head?, Fragment.isNameChar c = false)
    (hfilled : Filled (Swapped table others) (restoreFrom table true 0 rest)
      (restoreFrom others true 0 rest)) :
    Filled (Swapped table others) (restoreFrom table true 0 (word ++ rest))
      (restoreFrom others true 0 (word ++ rest)) := by
  induction parts hrest word with
  | nil => exact hfilled
  | @placeholder word tail hwhole _ ih =>
    rw [List.all_append, Bool.and_eq_true] at hword
    rw [List.append_assoc, restoreFrom_whole true hwhole, restoreFrom_whole true hwhole]
    rcases get?_cases h word with ⟨hnone, hotherNone⟩ |
      ⟨literal, filling, hsome, hotherSome, -, hfilling⟩
    · rw [restored, hnone, restored, hotherNone]
      exact .append_plain (fun c hc => Fragment.isQuote_of_isNameChar
        (List.all_eq_true.mp hword.1 c hc)) (ih hword.2)
    · rw [restored, hsome, restored, hotherSome]
      obtain ⟨quote, contents⟩ := literal
      obtain ⟨otherQuote, filling⟩ := filling
      obtain ⟨rfl, hquote, hcontents, hfits⟩ := hfilling
      simpa [Literal.quoted] using Filled.literal hquote hcontents hfits
        (.inr ⟨word, hsome, hotherSome⟩) (ih hword.2)
  | @plain c tail hplain _ ih =>
    rw [List.all_cons, Bool.and_eq_true] at hword
    rw [List.cons_append] at hplain ⊢
    rw [restoreFrom_cons hplain, restoreFrom_cons hplain]
    exact .plain (Fragment.isQuote_of_isNameChar hword.1) (ih hword.2)

theorem contents_of_all {name : List Char} (h : name.all Fragment.isNameChar = true) :
    Literal.Contents '\'' name := by
  induction name with
  | nil => exact .nil
  | cons c name ih =>
    rw [List.all_cons, Bool.and_eq_true] at h
    exact .plain (Fragment.ne_of_isNameChar h.1 (by decide))
      (Fragment.ne_of_isNameChar h.1 (by decide)) (ih h.2)

theorem lettersAt?_sign {c : Char} (h : Fragment.isNameChar c = false) (rest : List Char) :
    (Placeholder.lettersAt? (c :: rest)).isSome = false := by
  refine Bool.eq_false_iff.mpr fun hfound => ?_
  obtain ⟨-, hfirst, -⟩ := Placeholder.getElem?_of_lettersAt? hfound
  obtain rfl : c = '_' := by simpa using hfirst
  revert h
  decide

/-- Tidy fragments are filled with the literals of the two tables. -/
theorem filled_textOf {fragments : List Fragment}
    (h : List.Forall₂ (SameEntry Fillings) table others) (htidy : Fragment.Tidy table fragments) :
    Filled (Swapped table others) (restoreFrom table true 0 (Fragment.textOf fragments))
      (restoreFrom others true 0 (Fragment.textOf fragments)) := by
  induction fragments with
  | nil => exact .nil
  | cons fragment rest ih =>
    have hrest := ih htidy.tail
    rw [Fragment.textOf_cons]
    cases htidy.whole fragment List.mem_cons_self with
    | @sign c hname hquote =>
      rw [Fragment.text, List.singleton_append, restoreFrom_cons (lettersAt?_sign hname _),
        restoreFrom_cons (lettersAt?_sign hname _)]
      exact .plain hquote hrest
    | @word letters hne hletters =>
      exact filled_word h hletters (htidy.tail.isNameChar_head? (htidy.sign_of_head? rfl)) hrest
    | @quoted name hname hmentions =>
      -- Both tables leave the name between the quotes as it is.
      have hsign : ∀ text : List Char, ∀ c ∈ ('\'' :: text).head?,
          Fragment.isNameChar c = false := by
        rintro text c hc
        obtain rfl := Option.some.inj hc
        decide
      have hquote : Fragment.isNameChar '\'' = false := by decide
      have hotherMentions : ¬ others.Mentions name := fun hother =>
        hmentions ((mentions_iff h name).mpr hother)
      rw [Fragment.text, List.cons_append, List.cons_append, List.append_assoc,
        List.singleton_append, restoreFrom_cons (lettersAt?_sign hquote _),
        restoreFrom_cons (lettersAt?_sign hquote _),
        restoreFrom_not_mentions true (hsign _) hmentions,
        restoreFrom_not_mentions true (hsign _) hotherMentions,
        restoreFrom_cons (lettersAt?_sign hquote _), restoreFrom_cons (lettersAt?_sign hquote _)]
      exact .literal rfl (contents_of_all hname) (contents_of_all hname) (.inl rfl) hrest

end LiteralTable

end StreamQuery
