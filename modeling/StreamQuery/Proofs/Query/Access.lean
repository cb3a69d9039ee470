import StreamQuery.Proofs.Query.Filling
import StreamQuery.Query.Binding
import StreamQuery.Query.Shorthand

/-!
# Item access in place of words

Shorthand for members and arrows, and the binding of columns, put item access in place of words and
of the signs before them. Tidy fragments stay tidy, provided that no word that is put between quotes
holds a literal.
-/

namespace StreamQuery

variable {table : LiteralTable}

/-- If a word holds a placeholder of the table, it is one. -/
def LiteralTable.Free (table : LiteralTable) (word : List Char) : Prop :=
  table.Mentions word → Placeholder.isWhole word = true

/-- A text of fewer characters than a placeholder mentions none. -/
theorem LiteralTable.not_mentions_of_length
    (hwhole : ∀ entry ∈ table, Placeholder.isWhole entry.1 = true) {text : List Char}
    (h : text.length < Placeholder.size) : ¬ table.Mentions text := by
  rintro ⟨entry, hentry, hwithin⟩
  have hle := List.IsInfix.length_le hwithin
  rw [Placeholder.length_of_isWhole (hwhole entry hentry)] at hle
  exact absurd hle (Nat.not_le_of_lt h)

namespace Fragment

/-- The words that shorthand takes for names hold no literals, unless they are literals. -/
structure Clear (table : LiteralTable) (fragments : List Fragment) : Prop where
  members : ∀ name, [.sign '.', .word name] <:+: fragments → table.Free name
  arrows : ∀ key, [.sign '-', .sign '>', .word key] <:+: fragments → table.Free key

/-- Fragments in which some words, and what stands right before them, are replaced by item access:
by a name without literals, by a word, or by a column. -/
inductive Accessed (table : LiteralTable) : List Fragment → List Fragment → Prop
  | nil : Accessed table [] []
  | keep (fragment : Fragment) {rest other : List Fragment} : Accessed table rest other →
      Accessed table (fragment :: rest) (fragment :: other)
  | name (dropped : List Fragment) {rest other : List Fragment} {name : List Char} :
      ¬ table.Mentions name → Accessed table rest other →
      Accessed table (dropped ++ .word name :: rest)
        (.sign '[' :: .quoted ('\'' :: name ++ ['\'']) :: .sign ']' :: other)
  | index (dropped : List Fragment) {rest other : List Fragment} {key : List Char} :
      Accessed table rest other →
      Accessed table (dropped ++ .word key :: rest)
        (.sign '[' :: .word key :: .sign ']' :: other)
  | column {rest other : List Fragment} (name : List Char) {base digits : List Char} :
      base ≠ [] → base.all isNameChar = true → ¬ table.Mentions base → digits ≠ [] →
      digits.all isNameChar = true → Accessed table rest other →
      Accessed table (.word name :: rest)
        (.word base :: .sign '[' :: .word digits :: .sign ']' :: other)

namespace Accessed

variable {fragments others : List Fragment}

theorem isSign_head? (h : Accessed table fragments others)
    (hsign : ∀ next ∈ fragments.head?, next.isSign = true) :
    ∀ next ∈ others.head?, next.isSign = true := by
  cases h with
  | nil => exact hsign
  | keep fragment => exact hsign
  | column name => cases hsign _ rfl
  | _ =>
    rintro next hnext
    obtain rfl := Option.some.inj hnext
    rfl

theorem tidy_brackets {fragment : Fragment} {rest : List Fragment}
    (hfragment : Whole table fragment) (h : Tidy table rest) :
    Tidy table (.sign '[' :: fragment :: .sign ']' :: rest) := by
  have hclose : Tidy table (.sign ']' :: rest) := h.sign (by decide) (by decide)
  exact (hclose.before_sign_cons hfragment).sign (by decide) (by decide)

theorem tidy (h : Accessed table fragments others) (htidy : Tidy table fragments) :
    Tidy table others := by
  induction h with
  | nil => exact tidy_nil
  | keep fragment hrest ih =>
    have hfragment := htidy.whole fragment List.mem_cons_self
    refine ⟨List.forall_mem_cons.mpr ⟨hfragment, (ih htidy.tail).whole⟩,
      List.isChain_cons.mpr ⟨fun next hnext => ?_, (ih htidy.tail).apart⟩⟩
    cases hsign : fragment.isSign with
    | true => exact .inl rfl
    | false => exact .inr (hrest.isSign_head? (htidy.sign_of_head? hsign) next hnext)
  | @name dropped rest _ name hname _ ih =>
    have hrest : Tidy table rest :=
      htidy.part ((List.suffix_cons _ _).trans (List.suffix_append _ _)).isInfix
    cases htidy.whole (.word name) (by simp) with
    | word _ hletters => exact tidy_brackets (.quoted hletters hname) (ih hrest)
  | @index dropped rest _ key _ ih =>
    have hrest : Tidy table rest :=
      htidy.part ((List.suffix_cons _ _).trans (List.suffix_append _ _)).isInfix
    exact tidy_brackets (htidy.whole (.word key) (by simp)) (ih hrest)
  | column name hbase hall _ hdigits hallDigits _ ih =>
    exact (tidy_brackets (.word hdigits hallDigits) (ih htidy.tail)).before_sign_cons
      (.word hbase hall)

theorem free_of_word {key : List Char} (h : Accessed table fragments others)
    (hkey : [.word key] <+: others) : [.word key] <+: fragments ∨ table.Free key := by
  cases h with
  | nil => exact .inl hkey
  | keep fragment =>
    simp only [List.cons_prefix_cons, List.nil_prefix, and_true] at hkey ⊢
    exact .inl hkey
  | column name _ _ hbase =>
    simp only [List.cons_prefix_cons, List.nil_prefix, and_true, Fragment.word.injEq] at hkey
    exact .inr fun hmentions => absurd (hkey ▸ hmentions) hbase
  | _ => simp at hkey

theorem free_of_arrowhead {key : List Char} (h : Accessed table fragments others)
    (hkey : [.sign '>', .word key] <+: others) :
    [.sign '>', .word key] <+: fragments ∨ table.Free key := by
  cases h with
  | nil => exact .inl hkey
  | keep fragment hrest =>
    rw [List.cons_prefix_cons] at hkey ⊢
    exact (hrest.free_of_word hkey.2).imp (fun h => ⟨hkey.1, h⟩) id
  | _ => simp at hkey

theorem arrow_brackets {key : List Char} {fragment : Fragment} {rest : List Fragment}
    (hfragment : fragment.isSign = false)
    (hkey : [.sign '-', .sign '>', .word key] <:+: .sign '[' :: fragment :: .sign ']' :: rest) :
    [.sign '-', .sign '>', .word key] <:+: rest := by
  have hne : fragment ≠ .sign '-' := by
    rintro rfl
    cases hfragment
  simpa [List.infix_cons_iff, hne.symm] using hkey

/-- No new arrow comes up. -/
theorem arrows (h : Accessed table fragments others)
    (harrows : ∀ key, [.sign '-', .sign '>', .word key] <:+: fragments → table.Free key)
    {key : List Char} (hkey : [.sign '-', .sign '>', .word key] <:+: others) : table.Free key := by
  induction h with
  | nil => exact harrows key hkey
  | @keep fragment rest other hrest ih =>
    rcases List.infix_cons_iff.mp hkey with hfront | hlater
    · rw [List.cons_prefix_cons] at hfront
      rcases hrest.free_of_arrowhead hfront.2 with harrowhead | hfree
      · exact harrows key (List.cons_prefix_cons.mpr ⟨hfront.1, harrowhead⟩).isInfix
      · exact hfree
    · exact ih (fun key h => harrows key (h.trans (List.suffix_cons _ _).isInfix)) hlater
  | name _ _ _ ih =>
    refine ih (fun key h => harrows key (h.trans ?_)) (arrow_brackets rfl hkey)
    exact ((List.suffix_cons _ _).trans (List.suffix_append _ _)).isInfix
  | index _ _ ih =>
    refine ih (fun key h => harrows key (h.trans ?_)) (arrow_brackets rfl hkey)
    exact ((List.suffix_cons _ _).trans (List.suffix_append _ _)).isInfix
  | column name _ _ _ _ _ _ ih =>
    refine ih (fun key h => harrows key (h.trans (List.suffix_cons _ _).isInfix)) ?_
    refine arrow_brackets rfl (List.infix_cons_iff.mp hkey |>.resolve_left ?_)
    simp

end Accessed

end Fragment

/-! ### Blanks at the ends -/

namespace Fragment

variable {p : Char → Bool}

/-- Without characters at the front other than quotes, tidy fragments stay tidy. -/
theorem exists_dropWhile (hp : p '\'' = false) {fragments : List Fragment}
    (h : Tidy table fragments) :
    ∃ others, (textOf fragments).dropWhile p = textOf others ∧ Tidy table others := by
  induction fragments with
  | nil => exact ⟨[], rfl, tidy_nil⟩
  | cons fragment rest ih =>
    cases h.whole fragment List.mem_cons_self with
    | @sign c hname hquote =>
      rw [textOf_cons, text, List.singleton_append]
      cases hc : p c with
      | true =>
        rw [List.dropWhile_cons_of_pos hc]
        exact ih h.tail
      | false => exact ⟨_, List.dropWhile_cons_of_neg (by simp [hc]), h⟩
    | @word letters _ hletters =>
      rw [textOf_cons, text, List.dropWhile_append]
      cases hdropped : letters.dropWhile p with
      | nil => exact ih h.tail
      | cons c dropped =>
        have hwithin : c :: dropped <:+ letters := hdropped ▸ List.dropWhile_suffix p
        have hall : (c :: dropped).all isNameChar = true :=
          List.all_eq_true.mpr fun d hd => List.all_eq_true.mp hletters d (hwithin.subset hd)
        exact ⟨.word (c :: dropped) :: rest, rfl,
          h.tail.before_sign (.word (by simp) hall) (h.sign_of_head? rfl)⟩
    | quoted => exact ⟨_, List.dropWhile_cons_of_neg (by simp [hp]), h⟩

theorem Tidy.append_whole {before : List Fragment} {fragment other : Fragment}
    (h : Tidy table (before ++ [fragment])) (hother : Whole table other)
    (hsign : other.isSign = fragment.isSign) : Tidy table (before ++ [other]) := by
  obtain ⟨hbefore, -, happart⟩ := List.isChain_append.mp h.apart
  refine ⟨fun found hfound => ?_, List.isChain_append.mpr ⟨hbefore, .singleton _, ?_⟩⟩
  · rcases List.mem_append.mp hfound with hmem | hmem
    · exact h.whole found (List.mem_append_left _ hmem)
    · obtain rfl := List.mem_singleton.mp hmem
      exact hother
  · rintro last hlast next hnext
    obtain rfl := Option.some.inj hnext
    rw [hsign]
    exact happart last hlast fragment rfl

/-- Without characters at the end other than quotes, tidy fragments stay tidy. -/
theorem exists_trimEnd (hp : p '\'' = false) {fragments : List Fragment}
    (h : Tidy table fragments) :
    ∃ others, Text.trimEnd p (textOf fragments) = textOf others ∧ Tidy table others := by
  unfold Text.trimEnd
  induction fragments using List.reverseRecOn with
  | nil => exact ⟨[], rfl, tidy_nil⟩
  | append_singleton before fragment ih =>
    have hbefore : Tidy table before := h.part (List.prefix_append _ _).isInfix
    rw [textOf_append, textOf_cons, textOf_nil, List.append_nil, List.reverse_append,
      List.dropWhile_append]
    cases h.whole fragment (by simp) with
    | @sign c hname hquote =>
      cases hc : p c with
      | true => simpa [text, hc] using ih hbefore
      | false =>
        exact ⟨_, by simp [textOf_append, text, hc], h⟩
    | @word letters _ hletters =>
      cases hdropped : (Fragment.word letters).text.reverse.dropWhile p with
      | nil => simpa using ih hbefore
      | cons c dropped =>
        have hwithin : c :: dropped <:+ letters.reverse := hdropped ▸ List.dropWhile_suffix p
        have hall : (c :: dropped).reverse.all isNameChar = true :=
          List.all_eq_true.mpr fun d hd => List.all_eq_true.mp hletters d
            (List.mem_reverse.mp (hwithin.subset (List.mem_reverse.mp hd)))
        refine ⟨before ++ [.word (c :: dropped).reverse], by simp [textOf_append, text], ?_⟩
        exact h.append_whole (.word (by simp) hall) rfl
    | quoted => exact ⟨_, by simp [textOf_append, text, hp], h⟩

theorem exists_trim (hp : p '\'' = false) {fragments : List Fragment}
    (h : Tidy table fragments) :
    ∃ others, Text.trim p (textOf fragments) = textOf others ∧ Tidy table others := by
  obtain ⟨dropped, htext, hdropped⟩ := exists_dropWhile hp h
  rw [Text.trim, Text.trimStart, htext]
  exact exists_trimEnd hp hdropped

end Fragment

/-! ### Shorthand -/

namespace Shorthand

open Fragment

variable {fragments : List Fragment}

theorem textOf_itemAccess (name : List Char) (rest : List Fragment) :
    textOf (.sign '[' :: .quoted ('\'' :: name ++ ['\'']) :: .sign ']' :: rest) =
      itemAccess name ++ textOf rest := by
  simp [itemAccess, text]

/-- Members become item access by names. -/
theorem accessed_expandMembers (previous : Option Fragment)
    (h : ∀ name, [.sign '.', .word name] <:+: fragments → table.Free name) :
    ∃ others, expandMembers previous fragments = textOf others ∧
      Accessed table fragments others := by
  fun_induction expandMembers previous fragments with
  | case1 previous name rest htaken ih =>
    obtain ⟨others, htext, hothers⟩ :=
      ih fun name hname => h name (hname.trans (List.suffix_append [_, _] rest).isInfix)
    have hname : ¬ table.Mentions name := by
      intro hmentions
      have hwhole := h name (List.prefix_append _ rest).isInfix hmentions
      simp [hwhole] at htaken
    exact ⟨_, by rw [textOf_itemAccess, htext], .name [.sign '.'] hname hothers⟩
  | case2 previous name rest _ ih =>
    obtain ⟨others, htext, hothers⟩ :=
      ih fun name hname => h name (hname.trans (List.suffix_append [_, _] rest).isInfix)
    exact ⟨_, by rw [htext]; rfl, .keep (.sign '.') (.keep (.word name) hothers)⟩
  | case3 previous fragment rest _ ih =>
    obtain ⟨others, htext, hothers⟩ :=
      ih fun name hname => h name (hname.trans (List.suffix_cons _ _).isInfix)
    exact ⟨fragment :: others, by rw [htext]; rfl, .keep fragment hothers⟩
  | case4 => exact ⟨[], rfl, .nil⟩

/-- Arrows become item access by names, numbers and literals. -/
theorem accessed_expandArrows
    (h : ∀ key, [.sign '-', .sign '>', .word key] <:+: fragments → table.Free key) :
    ∃ others, expandArrows fragments = textOf others ∧ Accessed table fragments others := by
  fun_induction expandArrows fragments with
  | case1 key rest ih =>
    obtain ⟨others, htext, hothers⟩ :=
      ih fun key hkey => h key (hkey.trans (List.suffix_append [_, _, _] rest).isInfix)
    have hfree : table.Free key := h key (List.prefix_append _ rest).isInfix
    rw [htext]
    unfold arrowAccess?
    split
    case h_1 access haccess =>
      split at haccess
      case isTrue =>
        obtain rfl := Option.some.inj haccess
        exact ⟨.sign '[' :: .word key :: .sign ']' :: others, by simp [text],
          .index [.sign '-', .sign '>'] hothers⟩
      case isFalse hwhole =>
        split at haccess
        case isFalse => cases haccess
        case isTrue =>
          obtain rfl := Option.some.inj haccess
          have hname : ¬ table.Mentions key := by
            intro hmentions
            simp [hfree hmentions] at hwhole
          exact ⟨_, (textOf_itemAccess key others).symm, .name [.sign '-', .sign '>'] hname hothers⟩
    case h_2 =>
      exact ⟨_, rfl, .keep (.sign '-') (.keep (.sign '>') (.keep (.word key) hothers))⟩
  | case2 fragment rest _ ih =>
    obtain ⟨others, htext, hothers⟩ :=
      ih fun key hkey => h key (hkey.trans (List.suffix_cons _ _).isInfix)
    exact ⟨fragment :: others, by rw [htext]; rfl, .keep fragment hothers⟩
  | case3 => exact ⟨[], rfl, .nil⟩

/-- After stars and leading dots, expanding the shorthand of a text without quotes gives tidy
fragments. -/
theorem exists_tidy {text : List Char} (hquotes : ∀ c ∈ text, Literal.isQuote c = false)
    (h : Clear table (ofText text)) :
    ∃ others, Text.trim Unicode.isWhitespace
        (expandArrows (ofText (expandMembers none (ofText text)))) = textOf others ∧
      Tidy table others := by
  obtain ⟨named, hnamed, haccessed⟩ := accessed_expandMembers none h.members
  have htidy := haccessed.tidy (tidy_ofText hquotes)
  rw [hnamed, ofText_textOf htidy]
  obtain ⟨expanded, hexpanded, harrows⟩ :=
    accessed_expandArrows fun key hkey => haccessed.arrows h.arrows hkey
  rw [hexpanded]
  exact exists_trim (by decide) (harrows.tidy htidy)

end Shorthand

/-! ### Columns -/

namespace ColumnBindings

open Fragment

theorem access_eq (index : Nat) :
    access index = "_values".toList ++ ('[' :: Number.digitsOf index ++ [']']) := by
  have hfront : "_values[".toList = "_values".toList ++ ['['] := by decide
  unfold access
  rw [hfront]
  generalize Number.digitsOf index = digits
  rw [List.append_assoc, List.append_assoc, List.singleton_append, List.cons_append]

theorem textOf_access (index : Nat) (rest : List Fragment) :
    textOf (.word "_values".toList :: .sign '[' :: .word (Number.digitsOf index) :: .sign ']' ::
      rest) = access index ++ textOf rest := by
  rw [access_eq]
  generalize Number.digitsOf index = digits
  generalize "_values".toList = base
  simp [text]

theorem digitsOf_spec (n : Nat) :
    Number.digitsOf n ≠ [] ∧ (Number.digitsOf n).all isNameChar = true := by
  refine ⟨Nat.toDigits_ne_nil, List.all_eq_true.mpr fun c hc => ?_⟩
  exact isNameChar_of_isDigit (Nat.isDigit_of_mem_toDigits (by decide) (Nat.le_refl 10) hc)

/-- Columns become access to their positions. -/
theorem accessed_bindFragments (hwhole : ∀ entry ∈ table, Placeholder.isWhole entry.1 = true)
    (bindings : ColumnBindings) (previous : Option Fragment) (fragments : List Fragment) :
    ∃ others, bindings.bindFragments previous fragments = textOf others ∧
      Accessed table fragments others := by
  induction fragments generalizing previous with
  | nil => exact ⟨[], rfl, .nil⟩
  | cons fragment rest ih =>
    obtain ⟨others, htext, hothers⟩ := ih (some fragment)
    have hkept : ∃ others, fragment.text ++ bindings.bindFragments (some fragment) rest =
        textOf others ∧ Accessed table (fragment :: rest) others :=
      ⟨fragment :: others, by rw [htext]; rfl, .keep fragment hothers⟩
    cases fragment with
    | quoted run => exact hkept
    | sign c => exact hkept
    | word letters =>
      rw [bindFragments]
      cases lookup? (String.ofList letters) bindings with
      | none => exact hkept
      | some index =>
        dsimp only
        split
        · exact hkept
        · obtain ⟨hdigits, hall⟩ := digitsOf_spec index
          have hbase : "_values".toList ≠ [] := by decide
          have hbaseNames : "_values".toList.all isNameChar = true := by decide
          rw [htext]
          exact ⟨_, (textOf_access index others).symm,
            .column letters hbase hbaseNames
              (LiteralTable.not_mentions_of_length hwhole (by decide)) hdigits hall hothers⟩

/-- Binding keeps fragments tidy. -/
theorem exists_bind (hwhole : ∀ entry ∈ table, Placeholder.isWhole entry.1 = true)
    (bindings : ColumnBindings) {fragments : List Fragment} (h : Tidy table fragments) :
    ∃ others, bindings.bind (textOf fragments) = textOf others ∧ Tidy table others := by
  obtain ⟨others, htext, haccessed⟩ := accessed_bindFragments hwhole bindings none fragments
  exact ⟨others, by rw [bind, ofText_textOf h, htext], haccessed.tidy h⟩

end ColumnBindings

end StreamQuery
