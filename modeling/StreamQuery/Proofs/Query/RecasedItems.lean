import StreamQuery.Proofs.Evaluation.LoweredNames
import StreamQuery.Proofs.Query.RecasedClauses
import StreamQuery.Proofs.Query.RecasedFragments
import StreamQuery.Query.Basic

/-!
# Items of recased clauses

A clause and the same clause with another spelling of a name that it calls have the same items:
they are cut at the same commas and keywords, and what is a number in one of them is so in the
other.
-/

namespace StreamQuery

open Unicode Fragment ColumnBindings

theorem isIdentifierChar_of_isWhitespace {c : Char} (h : isWhitespace c = true) :
    Selection.isIdentifierChar c = false :=
  isIdentifierChar_of_not_isNameChar (isNameChar_of_isWhitespace h)

theorem opensParenthesis_blanks {blanks : List Char} (h : blanks.all isWhitespace = true) :
    opensParenthesis blanks = false := by
  induction blanks with
  | nil => rfl
  | cons c blanks ih =>
    rw [List.all_cons, Bool.and_eq_true] at h
    rw [opensParenthesis_cons, if_pos h.1, ih h.2]

theorem between_blanks (text : List Char) {blanks : List Char}
    (h : blanks.all isWhitespace = true) : Between text blanks := by
  refine .inr ?_
  cases blanks with
  | nil => rfl
  | cons c blanks =>
    rw [List.all_cons, Bool.and_eq_true] at h
    exact isIdentifierChar_of_isWhitespace h.1

theorem mem_of_opensParenthesis {text : List Char} (h : opensParenthesis text = true) :
    '(' ∈ text :=
  List.mem_of_mem_filter (((opensParenthesis_iff text).mp h).subset List.mem_cons_self)

namespace Paired

variable {text other : List Char}

theorem symm (h : Paired text other) : Paired other text :=
  ⟨h.recased.plain h.plain, h.recased.symm⟩

theorem mem_iff (h : Paired text other) : '(' ∈ text ↔ '(' ∈ other :=
  h.sameLetters.mem_iff (by decide)

theorem eq_of_not_mem (h : Paired text other) (htext : '(' ∉ text) : other = text :=
  h.recased.eq_of_not_mem htext

/-- What stands behind characters of a class at the front. -/
theorem dropWhile {p : Char → Bool} (hcaseless : Caseless p)
    (hp : ∀ c, p c = true → Selection.isIdentifierChar c = false) (h : Paired text other) :
    Paired (text.dropWhile p) (other.dropWhile p) := by
  have hparts : Paired (text.takeWhile p ++ text.dropWhile p)
      (other.takeWhile p ++ other.dropWhile p) := by
    rwa [List.takeWhile_append_dropWhile, List.takeWhile_append_dropWhile]
  exact (hparts.of_append (h.sameLetters.takeWhile hcaseless).length_eq
    (between_of_last List.all_takeWhile hp)).1

theorem dropBlanks (h : Paired text other) :
    Paired (text.dropWhile isWhitespace) (other.dropWhile isWhitespace) :=
  h.dropWhile caseless_isWhitespace fun _ => isIdentifierChar_of_isWhitespace

theorem trimEnd (h : Paired text other) :
    Paired (Text.trimEnd isWhitespace text) (Text.trimEnd isWhitespace other) := by
  have hparts : ∀ text : List Char, text =
      Text.trimEnd isWhitespace text ++ (text.reverse.takeWhile isWhitespace).reverse := by
    intro text
    rw [Text.trimEnd, ← List.reverse_append, List.takeWhile_append_dropWhile, List.reverse_reverse]
  have hblanks : (text.reverse.takeWhile isWhitespace).reverse.all isWhitespace = true := by
    rw [List.all_reverse]
    exact List.all_takeWhile
  have hletters := ((h.sameLetters.reverse).dropWhile caseless_isWhitespace).reverse
  rw [hparts text, hparts other] at h
  exact (h.of_append hletters.length_eq (between_blanks _ hblanks)).2
    (opensParenthesis_blanks hblanks)

theorem trim (h : Paired text other) : Paired (Item.trim text) (Item.trim other) :=
  h.dropBlanks.trimEnd

/-- What is found in a text is found in the other one, if that is so for all texts. -/
theorem option_rel {α : Type} {find : List Char → Option α} {related : α → α → Prop}
    (h : Paired text other)
    (hfind : ∀ {text other}, Paired text other → ∀ found, find text = some found →
      ∃ otherFound, find other = some otherFound ∧ related found otherFound) :
    Option.Rel related (find text) (find other) := by
  cases htext : find text with
  | some found =>
    obtain ⟨otherFound, hother, hrelated⟩ := hfind h found htext
    rw [hother]
    exact .some hrelated
  | none =>
    cases hother : find other with
    | none => exact .none
    | some found =>
      obtain ⟨_, hsome, -⟩ := hfind h.symm found hother
      cases htext.symm.trans hsome

/-- The expression of a text. -/
theorem expand (h : Paired text other) :
    SameButCalls (Shorthand.expand text) (Shorthand.expand other) :=
  Shorthand.sameButCalls_expand h.recased h.plain

end Paired

namespace Item

variable {text other : List Char}

/-! ### Commas -/

theorem nesting_eq (depth : Int) {c d : Char} (h : c.toLower = d.toLower) :
    nesting depth c = nesting depth d := by
  have hletter : ∀ c : Char, c.isAlpha = true → nesting depth c = depth := by
    intro c hc
    have hne : ∀ d : Char, d.isAlpha = false → (c == d) = false := fun d hd =>
      beq_false_of_ne fun heq => by cases (heq ▸ hd).symm.trans hc
    simp [nesting, hne]
  by_cases heq : c = d
  · rw [heq]
  · obtain ⟨hc, hd⟩ := isAlpha_of_toLower_eq h heq
    rw [hletter c hc, hletter d hd]

theorem paired_splitFrom {depth : Int} {latest otherLatest : List Char}
    (hlatest : SameLetters latest otherLatest) (htext : SameLetters text other)
    (h : Paired (latest.reverse ++ text) (otherLatest.reverse ++ other)) :
    List.Forall₂ Paired (splitFrom depth none latest text)
      (splitFrom depth none otherLatest other) := by
  induction text generalizing depth latest otherLatest other with
  | nil =>
    rw [htext.of_nil] at h ⊢
    rw [List.append_nil, List.append_nil] at h
    exact .cons h.trim .nil
  | cons c rest ih =>
    obtain ⟨d, others, rfl, hc, hrest⟩ := htext.exists_of_cons
    have hcomma : (c == ',') = (d == ',') := (caseless_beq (by decide)).eq hc
    have hnesting := nesting_eq depth hc
    have hquote : Literal.isQuote c = false := h.plain c (by simp)
    have hother : Literal.isQuote d = false := (caseless_isQuote.eq hc).symm.trans hquote
    rw [splitFrom, splitFrom, hquote, hother, ← hcomma, ← hnesting]
    split
    case isTrue hcut =>
      obtain ⟨rfl, -⟩ : c = ',' ∧ _ := by simpa using hcut
      have hlength : latest.reverse.length = otherLatest.reverse.length := by
        rw [List.length_reverse, List.length_reverse, hlatest.length_eq]
      have hcut := h.of_append hlength (.inr rfl)
      refine .cons (hcut.2 rfl).trim (ih (.refl []) hrest ?_)
      have hbehind : Paired ([','] ++ rest) ([d] ++ others) := hcut.1
      exact (hbehind.of_append rfl (.inl rfl)).1
    case isFalse =>
      exact ih (.cons hc hlatest) hrest (by simpa using h)

/-- The items of a clause. -/
theorem paired_split (h : Paired text other) : List.Forall₂ Paired (split text) (split other) :=
  paired_splitFrom (.refl []) h.sameLetters h

/-! ### Keywords -/

variable {keyword : List Char}

theorem sameLetters_eq (keyword : List Char) (h : SameLetters text other) :
    sameLetters keyword text = sameLetters keyword other := by
  induction keyword generalizing text other with
  | nil =>
    cases text with
    | nil => rw [h.of_nil]
    | cons c rest =>
      obtain ⟨d, others, rfl, -, -⟩ := h.exists_of_cons
      rfl
  | cons e keyword ih =>
    cases text with
    | nil => rw [h.of_nil]
    | cons c rest =>
      obtain ⟨d, others, rfl, hc, hrest⟩ := h.exists_of_cons
      have hfold : fold c.toNat = fold d.toNat := caseless_fold.eq hc
      rw [sameLetters, sameLetters, ih hrest, sameLetter, sameLetter, hfold]

/-- The text behind a keyword. -/
theorem dropKeyword?_rel (keyword : List Char) (h : Paired text other) :
    Option.Rel Paired (dropKeyword? keyword text) (dropKeyword? keyword other) := by
  refine h.option_rel fun {text other} h found hfound => ?_
  rw [dropKeyword?] at hfound
  split at hfound
  case isFalse => cases hfound
  case isTrue hkeyword =>
    split at hfound
    case h_2 => cases hfound
    case h_1 c rest hdrop =>
      split at hfound
      case isFalse => cases hfound
      case isTrue hblank =>
        obtain rfl := Option.some.inj hfound
        obtain ⟨d, others, hother, hc, -⟩ :=
          SameLetters.exists_of_cons (hdrop ▸ h.sameLetters.drop keyword.length)
        have hd : isWhitespace d = true := (caseless_isWhitespace.eq hc).symm.trans hblank
        have htaken := h.sameLetters.take keyword.length
        refine ⟨others.dropWhile isWhitespace, ?_, Paired.dropBlanks ?_⟩
        · rw [dropKeyword?, ← sameLetters_eq keyword htaken, if_pos hkeyword, hother]
          exact if_pos hd
        · have hparts : Paired ((text.take keyword.length ++ [c]) ++ rest)
              ((other.take keyword.length ++ [d]) ++ others) := by
            rw [List.append_assoc, List.append_assoc, List.singleton_append, List.singleton_append,
              ← hdrop, ← hother, List.take_append_drop, List.take_append_drop]
            exact h
          refine (hparts.of_append ?_ (.inl ?_)).1
          · rw [List.length_append, List.length_append, htaken.length_eq]
            rfl
          · rw [List.getLast?_concat]
            exact isIdentifierChar_of_isWhitespace hblank

/-- A keyword does not begin with a parenthesis, nor does it end with one or hold one. -/
def Plain (keyword : List Char) : Prop :=
  keyword ≠ [] ∧ ∀ c ∈ keyword, sameLetter c '(' = false

instance (keyword : List Char) : Decidable (Plain keyword) :=
  inferInstanceAs (Decidable (_ ∧ _))

theorem not_mem_of_sameLetters (hkeyword : Plain keyword) (h : sameLetters keyword text = true) :
    '(' ∉ text := by
  obtain ⟨-, hkeyword⟩ := hkeyword
  induction keyword generalizing text with
  | nil =>
    cases text with
    | nil => exact List.not_mem_nil
    | cons => cases h
  | cons c keyword ih =>
    cases text with
    | nil => exact List.not_mem_nil
    | cons d rest =>
      obtain ⟨hc, hrest⟩ := List.forall_mem_cons.mp hkeyword
      rw [sameLetters, Bool.and_eq_true] at h
      intro hmem
      rcases List.mem_cons.mp hmem with rfl | hlater
      · cases hc.symm.trans h.1
      · exact ih h.2 hrest hlater

/-- No parenthesis stands in front of a keyword. -/
theorem opensParenthesis_of_dropKeyword? (hkeyword : Plain keyword) {found : List Char}
    (h : dropKeyword? keyword (text.dropWhile isWhitespace) = some found) :
    opensParenthesis text = false := by
  refine Bool.eq_false_iff.mpr fun hopens => ?_
  obtain ⟨e, letters, rfl⟩ := List.exists_cons_of_ne_nil hkeyword.1
  rw [opensParenthesis, beq_iff_eq] at hopens
  obtain ⟨tail, htail⟩ := List.head?_eq_some_iff.mp hopens
  rw [dropKeyword?, htail] at h
  split at h
  case isFalse => cases h
  case isTrue hletters =>
    exact not_mem_of_sameLetters hkeyword hletters List.mem_cons_self

theorem splitAtKeyword?_forward (hkeyword : Plain keyword) (front otherFront : List Char)
    (hfront : front.length = otherFront.length) (h : Paired (front ++ text) (otherFront ++ other))
    {before after : List Char}
    (hsplit : splitAtKeyword? keyword text = some (before, after)) :
    ∃ otherBefore otherAfter, splitAtKeyword? keyword other = some (otherBefore, otherAfter) ∧
      Paired (front ++ before) (otherFront ++ otherBefore) ∧ Paired after otherAfter := by
  induction text generalizing front otherFront other before after with
  | nil => cases hsplit
  | cons c rest ih =>
    have hletters : SameLetters (c :: rest) other := by
      have hdrop := h.sameLetters.drop front.length
      rwa [List.drop_left, hfront, List.drop_left] at hdrop
    obtain ⟨d, others, rfl, hc, hrest⟩ := hletters.exists_of_cons
    have hd : isWhitespace c = isWhitespace d := caseless_isWhitespace.eq hc
    have hparts : Paired ((front ++ [c]) ++ rest) ((otherFront ++ [d]) ++ others) := by
      simpa using h
    -- Both texts have the keyword behind a blank here, or neither has.
    rw [splitAtKeyword?_cons] at hsplit ⊢
    rw [← hd]
    have hkeys : Option.Rel Paired
        (if isWhitespace c then dropKeyword? keyword (rest.dropWhile isWhitespace) else none)
        (if isWhitespace c then dropKeyword? keyword (others.dropWhile isWhitespace)
          else none) := by
      split
      case isTrue hblank =>
        refine dropKeyword?_rel keyword (hparts.of_append (by simp [hfront]) (.inl ?_)).1.dropBlanks
        rw [List.getLast?_concat]
        exact isIdentifierChar_of_isWhitespace hblank
      case isFalse => exact .none
    split at hsplit
    case h_1 found hfound =>
      obtain ⟨rfl, rfl⟩ := Prod.mk.inj (Option.some.inj hsplit)
      rw [hfound] at hkeys
      generalize hother : (if isWhitespace c then
        dropKeyword? keyword (others.dropWhile isWhitespace) else none) = otherFound at hkeys
      cases hkeys with
      | @some _ otherFound hpaired =>
        refine ⟨[], otherFound, rfl, ?_, hpaired⟩
        split at hfound
        case isFalse => cases hfound
        case isTrue hblank =>
          rw [List.append_nil, List.append_nil]
          refine (h.of_append hfront (.inr (isIdentifierChar_of_isWhitespace hblank))).2 ?_
          rw [opensParenthesis_cons, if_pos hblank]
          exact opensParenthesis_of_dropKeyword? hkeyword hfound
    case h_2 hnone =>
      rw [hnone] at hkeys
      generalize hother : (if isWhitespace c then
        dropKeyword? keyword (others.dropWhile isWhitespace) else none) = otherFound at hkeys
      cases hkeys
      obtain ⟨⟨later, found⟩, hlater, heq⟩ := Option.map_eq_some_iff.mp hsplit
      obtain ⟨rfl, rfl⟩ := Prod.mk.inj heq
      obtain ⟨otherBefore, otherAfter, hsome, hbefore, hafter⟩ :=
        ih (front ++ [c]) (otherFront ++ [d]) (by simp [hfront]) hparts hlater
      refine ⟨d :: otherBefore, otherAfter, by rw [hsome]; rfl, by simpa using hbefore, hafter⟩

/-- The texts around a keyword between blanks. -/
theorem splitAtKeyword?_rel (hkeyword : Plain keyword) (h : Paired text other) :
    Option.Rel (fun parts others => Paired parts.1 others.1 ∧ Paired parts.2 others.2)
      (splitAtKeyword? keyword text) (splitAtKeyword? keyword other) :=
  h.option_rel fun h parts hparts => by
    obtain ⟨otherBefore, otherAfter, hother, hbefore, hafter⟩ :=
      splitAtKeyword?_forward hkeyword [] [] rfl h hparts
    exact ⟨(otherBefore, otherAfter), hother, hbefore, hafter⟩

/-- A keyword at the end and the text before it. -/
theorem splitLastKeyword?_rel (hkeyword : Plain keyword) (h : Paired text other) :
    Option.Rel (fun parts others => Paired parts.1 others.1 ∧ SameLetters parts.2 others.2)
      (splitLastKeyword? keyword text) (splitLastKeyword? keyword other) := by
  refine h.option_rel fun {text other} h parts hparts => ?_
  rw [splitLastKeyword?] at hparts
  split at hparts
  case isFalse => cases hparts
  case isTrue hfound =>
    obtain rfl := Option.some.inj hparts
    obtain ⟨hletters, hblank⟩ := Bool.and_eq_true_iff.mp hfound
    have hlength := h.length_eq
    have hfront := h.sameLetters.take (text.length - keyword.length)
    have hafter := h.sameLetters.drop (text.length - keyword.length)
    have hblanks :
        (other.take (text.length - keyword.length)).getLast?.any isWhitespace = true := by
      rw [← hblank, ← List.head?_reverse, ← List.head?_reverse]
      exact (hfront.reverse.head?_any_eq caseless_isWhitespace).symm
    have hbetween : Between (text.take (text.length - keyword.length))
        (text.drop (text.length - keyword.length)) := by
      obtain ⟨c, hlast, hc⟩ := (Option.any_eq_true _ _).mp hblank
      exact .inl (by rw [hlast]; exact isIdentifierChar_of_isWhitespace hc)
    have hopens : opensParenthesis (text.drop (text.length - keyword.length)) = false :=
      Bool.eq_false_iff.mpr fun hopens =>
        not_mem_of_sameLetters hkeyword hletters (mem_of_opensParenthesis hopens)
    have hbefore : Paired (text.take (text.length - keyword.length))
        (other.take (text.length - keyword.length)) := by
      rw [← List.take_append_drop (text.length - keyword.length) text,
        ← List.take_append_drop (text.length - keyword.length) other] at h
      exact (h.of_append hfront.length_eq hbetween).2 hopens
    refine ⟨(_, _), ?_, hbefore.trimEnd, hafter⟩
    rw [splitLastKeyword?, ← hlength, ← sameLetters_eq keyword hafter, hletters, hblanks]
    rfl

/-! ### Numbers -/

/-- A parenthesis is no digit. -/
theorem naturalOfDigits?_of_mem {digits : List Char} (h : '(' ∈ digits) :
    Number.naturalOfDigits? 10 digits = none := by
  have hfold : ∀ value : Nat, digits.foldlM (fun (value : Nat) c =>
      (Number.digitValue? 10 c).map (10 * value + ·)) value = none := by
    induction digits with
    | nil => cases h
    | cons c rest ih =>
      intro value
      rw [List.foldlM_cons]
      rcases List.mem_cons.mp h with rfl | hrest
      · rfl
      · cases (Number.digitValue? 10 c).map (10 * value + ·) with
        | none => rfl
        | some next => exact ih hrest next
  rw [Number.naturalOfDigits?, hfold]
  split <;> rfl

theorem mem_splitSign {c : Char} (hc : c ≠ '-' ∧ c ≠ '+') (h : c ∈ text) :
    c ∈ (Number.splitSign text).2 := by
  unfold Number.splitSign
  split
  · exact (List.mem_cons.mp h).resolve_left hc.1
  · exact (List.mem_cons.mp h).resolve_left hc.2
  · exact h

/-- Paired texts are the same number, or none. -/
theorem readInt64?_eq (h : Paired text other) :
    Number.readInt64? 10 text = Number.readInt64? 10 other := by
  have hnone : ∀ {text : List Char}, '(' ∈ text → Number.readInt64? 10 text = none := by
    intro text hmem
    have hdigits := mem_splitSign (by decide) hmem
    rcases hsplit : Number.splitSign text with ⟨negative, digits⟩
    rw [hsplit] at hdigits
    simp only [Number.readInt64?, hsplit, naturalOfDigits?_of_mem hdigits]
    rfl
  by_cases hmem : '(' ∈ text
  · rw [hnone hmem, hnone (h.mem_iff.mp hmem)]
  · rw [h.eq_of_not_mem hmem]

theorem columnNumber?_eq (clause : Clause) (h : Paired text other) :
    columnNumber? clause text = columnNumber? clause other := by
  rw [columnNumber?, columnNumber?, readInt64?_eq h.trim]

/-! ### Called names -/

theorem sameLetters_calledFrom {latest otherLatest : List Char}
    (hlatest : SameLetters latest otherLatest) (h : SameLetters text other) :
    List.Forall₂ SameLetters (calledFrom latest text) (calledFrom otherLatest other) := by
  induction text generalizing latest otherLatest other with
  | nil =>
    rw [h.of_nil]
    exact .nil
  | cons c rest ih =>
    obtain ⟨d, others, rfl, hc, hrest⟩ := h.exists_of_cons
    have hword : isWord c = isWord d := caseless_isWord.eq hc
    have hopens : (((c :: rest).dropWhile isWhitespace).head? == some '(') =
        (((d :: others).dropWhile isWhitespace).head? == some '(') := by
      have hany : ∀ text : List Char, (text.head? == some '(') = text.head?.any (· == '(') := by
        intro text
        cases text <;> rfl
      rw [hany, hany]
      exact (h.dropWhile caseless_isWhitespace).head?_any_eq (caseless_beq (by decide))
    rw [calledFrom, calledFrom, ← hword, ← hopens, ← hlatest.isEmpty_eq]
    split
    · exact ih (.cons hc hlatest) hrest
    · dsimp only
      split
      · exact .cons hlatest.reverse (ih (.refl []) hrest)
      · exact ih (.refl []) hrest

end Item

/-! ### Aggregates -/

namespace Query

variable {text other : List Char}

/-- Two texts with the same letters both call aggregates, or none does. -/
theorem isEmpty_aggregatesIn (h : SameLetters text other) :
    (aggregatesIn text).isEmpty = (aggregatesIn other).isEmpty := by
  have hnames := Item.sameLetters_calledFrom (.refl []) h
  rw [aggregatesIn, aggregatesIn, Item.calledNames, Item.calledNames]
  generalize Item.calledFrom [] text = names, Item.calledFrom [] other = others at hnames
  induction hnames with
  | nil => rfl
  | @cons name spelling names spellings hname _ ih =>
    have hsame : Aggregate.isName (String.ofList name) =
        Aggregate.isName (String.ofList spelling) :=
      congrArg Option.isSome (Aggregate.ofName?_eq (by
        rwa [String.toList_ofList, String.toList_ofList]))
    rw [List.map_cons, List.map_cons, List.filter_cons, List.filter_cons, ← hsame]
    split
    · rfl
    · exact ih

theorem alike_withoutAggregates (clause : Clause) (h : SameLetters text other) :
    Alike (fun _ _ => True) Eq (withoutAggregates clause text)
      (withoutAggregates clause other) := by
  have hempty := isEmpty_aggregatesIn h
  unfold withoutAggregates
  cases htext : aggregatesIn text with
  | nil =>
    cases hother : aggregatesIn other with
    | nil => exact .ok rfl
    | cons => rw [htext, hother] at hempty; cases hempty
  | cons =>
    cases hother : aggregatesIn other with
    | nil => rw [htext, hother] at hempty; cases hempty
    | cons => exact .error trivial

end Query

end StreamQuery
