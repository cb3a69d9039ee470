import StreamQuery.Proofs.Expr.Joining
import StreamQuery.Proofs.Query.Cutting

/-!
# Brackets of items

The items of a clause that closes only brackets it has opened do the same, and they have commas only
inside of brackets. Expanding shorthand, binding columns and putting literals back keep it so: item
access adds brackets in pairs, and what is inside of literals does not count.
-/

namespace StreamQuery

open Fragment

/-- Two texts with brackets and commas that nest alike. -/
def SameNesting (text other : List Char) : Prop :=
  ∀ depth, nest depth (textMarks text) = nest depth (textMarks other)

namespace SameNesting

variable {text other front : List Char}

theorem of_eq (h : textMarks text = textMarks other) : SameNesting text other :=
  fun depth => congrArg (nest depth) h

theorem trans {last : List Char} (h : SameNesting text other) (hlast : SameNesting other last) :
    SameNesting text last :=
  fun depth => (h depth).trans (hlast depth)

theorem append (front : List Char) (h : SameNesting text other) :
    SameNesting (front ++ text) (front ++ other) := by
  intro depth
  rw [textMarks_append, textMarks_append, nest_append, nest_append, funext h]

/-- A word may be put between brackets. -/
theorem brackets {word : List Char} (hfront : textMarks front = []) (hword : textMarks word = [])
    (h : SameNesting text other) : SameNesting ('[' :: word ++ ']' :: text) (front ++ other) := by
  intro depth
  have hopen : Mark.ofChar? '[' = some .opening := rfl
  have hclose : Mark.ofChar? ']' = some .closing := rfl
  simp [hfront, hword, hopen, hclose, Mark.step, h depth]

end SameNesting

theorem unmarking_isNameChar : Unmarking isNameChar := by
  unfold Unmarking
  decide

theorem textMarks_of_isNameChar {word : List Char} (h : word.all isNameChar = true) :
    textMarks word = [] :=
  unmarking_isNameChar.textMarks_eq_nil h

/-! ### Blanks -/

theorem textMarks_dropWhile {p : Char → Bool} (hp : Unmarking p) (text : List Char) :
    textMarks (text.dropWhile p) = textMarks text := by
  have hsplit : text.takeWhile p ++ text.dropWhile p = text := List.takeWhile_append_dropWhile
  rw [← congrArg textMarks hsplit, textMarks_append, hp.textMarks_eq_nil List.all_takeWhile,
    List.nil_append]

theorem textMarks_reverse (text : List Char) : textMarks text.reverse = (textMarks text).reverse :=
  List.filterMap_reverse

theorem textMarks_trim {p : Char → Bool} (hp : Unmarking p) (text : List Char) :
    textMarks (Text.trim p text) = textMarks text := by
  rw [Text.trim, Text.trimEnd, Text.trimStart, textMarks_reverse, textMarks_dropWhile hp,
    textMarks_reverse, List.reverse_reverse, textMarks_dropWhile hp]

/-! ### Shorthand -/

namespace Shorthand

theorem exists_dropStarCall? {text after : List Char} (h : dropStarCall? text = some after) :
    ∃ call, text = call ++ after ∧ textMarks call = [.opening, .closing] := by
  have hblanks : ∀ text : List Char, ∃ blanks, textMarks blanks = [] ∧
      text = blanks ++ text.dropWhile Unicode.isWhitespace := fun text =>
    ⟨text.takeWhile Unicode.isWhitespace,
      Lexer.unmarking_isWhitespace.textMarks_eq_nil List.all_takeWhile,
      List.takeWhile_append_dropWhile.symm⟩
  unfold dropStarCall? at h
  split at h
  case h_2 => cases h
  case h_1 rest hopen =>
  split at h
  case h_2 => cases h
  case h_1 others hstar =>
  split at h
  case h_2 => cases h
  case h_1 last hclose =>
  obtain ⟨first, hfirst, htext⟩ := hblanks text
  obtain ⟨second, hsecond, hrest⟩ := hblanks rest
  obtain ⟨third, hthird, hothers⟩ := hblanks others
  cases h
  refine ⟨first ++ '(' :: second ++ '*' :: third ++ [')'], ?_, ?_⟩
  · rw [htext, hopen, hrest, hstar, hothers, hclose]
    simp
  · have hparen : Mark.ofChar? '(' = some .opening := rfl
    have hstar : Mark.ofChar? '*' = none := rfl
    have hend : Mark.ofChar? ')' = some .closing := rfl
    simp [hfirst, hsecond, hthird, hparen, hstar, hend]

/-- A call of `*` is replaced by a call of something else. -/
theorem textMarks_replaceStarFrom {name replacement : List Char} (hname : textMarks name = [])
    (hreplacement : textMarks replacement = [.opening, .closing]) (previous : Option Char)
    (skip : Nat) (text : List Char) :
    textMarks (replaceStarFrom name replacement previous skip text) =
      textMarks (text.drop skip) := by
  induction text generalizing previous skip with
  | nil => rw [replaceStarFrom, List.drop_nil]
  | cons c rest ih =>
    cases skip with
    | succ skip => exact ih _ skip
    | zero =>
      rw [replaceStarFrom]
      split
      case h_2 => rw [textMarks_cons, ih, List.drop_zero, List.drop_zero, textMarks_cons]
      case h_1 after hafter =>
        split at hafter
        case isTrue => cases hafter
        case isFalse hcalls =>
          obtain ⟨call, hcall, hmarks⟩ := exists_dropStarCall? hafter
          obtain ⟨-, found, hfound⟩ : _ ∧ name <+: c :: rest := by simpa using hcalls
          have hwhole : c :: rest = name ++ call ++ after := by
            rw [← hfound, List.drop_left] at hcall
            rw [← hfound, hcall, List.append_assoc]
          have hne : name ++ call ≠ [] := by
            intro hnil
            rw [(List.append_eq_nil_iff.mp hnil).2] at hmarks
            cases hmarks
          obtain ⟨d, tail, htail⟩ := List.exists_cons_of_ne_nil hne
          rw [htail, List.cons_append] at hwhole
          obtain ⟨-, rfl⟩ := List.cons.inj hwhole
          rw [textMarks_append, ih, List.drop_zero, hwhole, ← List.cons_append, ← htail]
          simp [hname, hmarks, hreplacement]

theorem textMarks_expandStars (text : List Char) :
    textMarks (expandStars text) = textMarks text := by
  rw [expandStars, textMarks_replaceStarFrom (by decide) (by decide), List.drop_zero,
    textMarks_replaceStarFrom (by decide) (by decide), List.drop_zero]

theorem textMarks_expandLeadingDots (previous : Option Char) (fragments : List Fragment) :
    textMarks (expandLeadingDots previous fragments) = textMarks (textOf fragments) := by
  induction fragments generalizing previous with
  | nil => rfl
  | cons fragment rest ih =>
    have hdot : textMarks ['.'] = [] := rfl
    have hrow : textMarks "row.".toList = [] := by decide
    have hbare : textMarks "row".toList = [] := by decide
    rw [expandLeadingDots, textOf_cons, textMarks_append]
    split
    case isFalse => rw [textMarks_append, ih]
    case isTrue hdots =>
      obtain ⟨rfl, -⟩ := hdots
      rw [text, hdot, List.nil_append]
      split
      · split
        · rw [textMarks_append, hrow, ih]
          rfl
        split
        · exact ih _
        · rw [textMarks_append, hbare, ih]
          rfl
      · rw [textMarks_append, hbare, ih]
        rfl

variable {fragments : List Fragment}

theorem sameNesting_itemAccess {name text other front : List Char} (hfront : textMarks front = [])
    (hname : textMarks name = []) (h : SameNesting text other) :
    SameNesting (itemAccess name ++ text) (front ++ other) := by
  have hquoted : textMarks ('\'' :: name ++ ['\'']) = [] := by
    have hquote : Mark.ofChar? '\'' = none := rfl
    simp [hname, hquote]
  simpa [itemAccess] using SameNesting.brackets hfront hquoted h

theorem sameNesting_expandMembers (previous : Option Fragment)
    (hwords : ∀ word, .word word ∈ fragments → textMarks word = []) :
    SameNesting (expandMembers previous fragments) (textOf fragments) := by
  fun_induction expandMembers previous fragments with
  | case1 previous name rest _ ih =>
    have hname := hwords name (by simp)
    have hrest := ih fun word hword => hwords word (by simp [hword])
    have hfront : textMarks ('.' :: name) = [] := by
      have hdot : Mark.ofChar? '.' = none := rfl
      simp [hname, hdot]
    simpa [text] using sameNesting_itemAccess hfront hname hrest
  | case2 previous name rest _ ih =>
    simpa [text] using (ih fun word hword => hwords word (by simp [hword])).append ('.' :: name)
  | case3 previous fragment rest _ ih =>
    exact (ih fun word hword => hwords word (by simp [hword])).append fragment.text
  | case4 => exact .of_eq rfl

theorem sameNesting_expandArrows (hwords : ∀ word, .word word ∈ fragments → textMarks word = []) :
    SameNesting (expandArrows fragments) (textOf fragments) := by
  fun_induction expandArrows fragments with
  | case1 key rest ih =>
    have hkey := hwords key (by simp)
    have hrest := ih fun word hword => hwords word (by simp [hword])
    have hfront : textMarks ('-' :: '>' :: key) = [] := by
      have hdash : Mark.ofChar? '-' = none := rfl
      have hangle : Mark.ofChar? '>' = none := rfl
      simp [hkey, hdash, hangle]
    have htext : textOf (.sign '-' :: .sign '>' :: .word key :: rest) =
        '-' :: '>' :: key ++ textOf rest := by simp [text]
    rw [htext]
    unfold arrowAccess?
    split
    case h_2 => exact hrest.append _
    case h_1 access haccess =>
      split at haccess
      case isTrue =>
        cases haccess
        simpa using SameNesting.brackets hfront hkey hrest
      case isFalse =>
        split at haccess <;> cases haccess
        exact sameNesting_itemAccess hfront hkey hrest
  | case2 fragment rest _ ih =>
    exact (ih fun word hword => hwords word (by simp [hword])).append fragment.text
  | case3 => exact .of_eq rfl

end Shorthand

namespace Fragment

/-- What is being read is no word, or a word so far. -/
def Reading.Named : Reading → Prop
  | .word latest => latest.all isNameChar = true
  | _ => True

theorem all_of_word_mem_readFrom {reading : Reading} {text word : List Char} (hnamed : reading.Named)
    (h : .word word ∈ readFrom reading text) : word.all isNameChar = true := by
  induction text generalizing reading with
  | nil =>
    cases reading with
    | word latest =>
      obtain rfl : word = latest.reverse := by simpa [readFrom, Reading.finish] using h
      simpa [Reading.Named] using hnamed
    | _ => simp [readFrom, Reading.finish] at h
  | cons c rest ih =>
    have hbegin : .word word ∉ (begin c).1 ∧ (begin c).2.Named := by
      unfold begin
      split
      · exact ⟨by simp, trivial⟩
      split
      · exact ⟨by simp, by simpa [Reading.Named]⟩
      · exact ⟨by simp, trivial⟩
    rw [readFrom, List.mem_append] at h
    cases reading with
    | nothing => exact h.elim (fun hmem => absurd hmem hbegin.1) (ih hbegin.2)
    | word latest =>
      rw [Reading.step] at h
      split at h
      · rename_i hc
        refine h.elim (fun hmem => absurd hmem List.not_mem_nil) (ih ?_)
        simpa [Reading.Named, hc] using hnamed
      · rcases h with hmem | hmem
        · obtain rfl : word = latest.reverse := by simpa [hbegin.1] using hmem
          simpa [Reading.Named] using hnamed
        · exact ih hbegin.2 hmem
    | quoted quote escaped latest =>
      refine h.elim (fun hmem => ?_) (ih ?_)
      · cases escaped <;> simp only [Reading.step] at hmem <;> grind
      · cases escaped <;> simp only [Reading.step] <;> grind [Reading.Named]

theorem textMarks_of_word_mem {text word : List Char} (h : .word word ∈ ofText text) :
    textMarks word = [] :=
  textMarks_of_isNameChar (@all_of_word_mem_readFrom .nothing text word trivial h)

end Fragment

theorem Shorthand.sameNesting_expand (text : List Char) :
    SameNesting (expand text) text := by
  have htrim : ∀ text, SameNesting (Text.trim Unicode.isWhitespace text) text :=
    fun text => .of_eq (textMarks_trim Lexer.unmarking_isWhitespace text)
  have hmembers : ∀ text, SameNesting (expandMembers none (ofText text)) text := fun text => by
    simpa only [textOf_ofText] using
      sameNesting_expandMembers none fun word hword => textMarks_of_word_mem hword
  have harrows : ∀ text, SameNesting (expandArrows (ofText text)) text := fun text => by
    simpa only [textOf_ofText] using
      sameNesting_expandArrows fun word hword => textMarks_of_word_mem hword
  have hdots : ∀ text, SameNesting (expandLeadingDots none (ofText text)) text :=
    fun text => .of_eq ((textMarks_expandLeadingDots none _).trans (by rw [textOf_ofText]))
  exact (htrim _).trans ((harrows _).trans ((hmembers _).trans ((hdots _).trans
    (.of_eq (textMarks_expandStars text)))))

/-! ### Columns -/

namespace ColumnBindings

theorem sameNesting_bindFragments (bindings : ColumnBindings) (previous : Option Fragment)
    {fragments : List Fragment} (hwords : ∀ word, .word word ∈ fragments → textMarks word = []) :
    SameNesting (bindings.bindFragments previous fragments) (textOf fragments) := by
  induction fragments generalizing previous with
  | nil => exact .of_eq rfl
  | cons fragment rest ih =>
    have hrest := ih (some fragment) fun word hword => hwords word (by simp [hword])
    cases fragment with
    | quoted run => exact hrest.append run
    | sign c => exact hrest.append [c]
    | word letters =>
      rw [bindFragments]
      cases lookup? (String.ofList letters) bindings with
      | none => exact hrest.append letters
      | some index =>
        dsimp only
        split
        · exact hrest.append letters
        · have hbase : textMarks "_values".toList = [] := by decide
          have hdigits := textMarks_of_isNameChar (digitsOf_spec index).2
          rw [access_eq, List.append_assoc]
          have hletters := hwords letters (by simp)
          intro depth
          rw [textMarks_append, hbase, List.nil_append]
          simpa [text] using SameNesting.brackets hletters hdigits hrest depth

theorem sameNesting_bind (bindings : ColumnBindings) (text : List Char) :
    SameNesting (bindings.bind text) text := by
  simpa only [bind, textOf_ofText] using
    bindings.sameNesting_bindFragments none fun word hword => textMarks_of_word_mem hword

end ColumnBindings

/-! ### Items -/

namespace Item

/-- A text that closes only brackets it has opened. -/
def Nested (text : List Char) : Prop :=
  ∀ front ∈ text.inits, 0 ≤ front.foldl nesting 0

instance (text : List Char) : Decidable (Nested text) :=
  inferInstanceAs (Decidable (∀ front ∈ text.inits, 0 ≤ front.foldl nesting 0))

/-- A text that closes only brackets it has opened and has commas only inside of brackets. -/
def Inside (text : List Char) : Prop :=
  ∃ depth, nest 0 (textMarks text) = some depth

theorem Inside.of_prefix {text front : List Char} (h : Inside text) (hfront : front <+: text) :
    Inside front := by
  obtain ⟨depth, hdepth⟩ := h
  obtain ⟨rest, rfl⟩ := hfront
  rw [textMarks_append, nest_append] at hdepth
  obtain ⟨after, hafter, -⟩ := Option.bind_eq_some_iff.mp hdepth
  exact ⟨after, hafter⟩

theorem Inside.of_sameNesting {text other : List Char} (h : Inside text)
    (hsame : SameNesting other text) : Inside other :=
  h.imp fun _ hdepth => (hsame 0).trans hdepth

theorem Inside.trim {text : List Char} (h : Inside text) : Inside (trim text) :=
  h.of_sameNesting (.of_eq (textMarks_trim Lexer.unmarking_isWhitespace text))

theorem nesting_cases (depth : Int) (c : Char) :
    (Mark.ofChar? c = some .opening ∧ nesting depth c = depth + 1) ∨
    (Mark.ofChar? c = some .closing ∧ nesting depth c = depth - 1) ∨
    (Mark.ofChar? c = some .comma ∧ c = ',' ∧ nesting depth c = depth) ∨
    (Mark.ofChar? c = none ∧ nesting depth c = depth) := by
  unfold Mark.ofChar? nesting
  grind

/-- One character nests as its mark does. -/
theorem nest_ofChar? {depth after : Nat} {c : Char} (hcomma : c = ',' → depth ≠ 0)
    (h : nesting depth c = after) : nest depth (Mark.ofChar? c).toList = some after := by
  rcases nesting_cases depth c with ⟨hmark, hc⟩ | ⟨hmark, hc⟩ | ⟨hmark, rfl, hc⟩ | ⟨hmark, hc⟩
  all_goals rw [hmark]
  · obtain rfl : after = depth + 1 := by omega
    rfl
  · obtain rfl : depth = after + 1 := by omega
    rfl
  · obtain rfl : after = depth := by omega
    obtain ⟨outer, rfl⟩ := Nat.exists_eq_succ_of_ne_zero (hcomma rfl)
    rfl
  · obtain rfl : after = depth := by omega
    rfl

theorem inside_of_mem_splitFrom {depth : Nat} {latest text item : List Char}
    (hquotes : ∀ c ∈ text, Literal.isQuote c = false)
    (hlatest : nest 0 (textMarks latest.reverse) = some depth)
    (hnested : ∀ front, front <+: text → 0 ≤ front.foldl nesting depth)
    (h : item ∈ splitFrom depth none latest text) : Inside item := by
  have hread : Inside latest.reverse := ⟨depth, hlatest⟩
  induction text generalizing depth latest with
  | nil =>
    rw [splitFrom, List.mem_singleton] at h
    exact h ▸ hread.trim
  | cons c rest ih =>
    obtain ⟨hc, hrest⟩ := List.forall_mem_cons.mp hquotes
    have hlater : ∀ front, front <+: rest → 0 ≤ front.foldl nesting (nesting depth c) :=
      fun front hfront => hnested (c :: front) (List.cons_prefix_cons.mpr ⟨rfl, hfront⟩)
    rw [splitFrom] at h
    split at h
    case isTrue hcomma =>
      obtain ⟨rfl, rfl⟩ : c = ',' ∧ depth = 0 := by simpa using hcomma
      rcases List.mem_cons.mp h with rfl | hmem
      · exact hread.trim
      · exact ih hrest rfl hlater hmem ⟨0, rfl⟩
    case isFalse hcomma =>
      obtain ⟨after, hafter⟩ := Int.eq_ofNat_of_zero_le (hlater [] List.nil_prefix)
      rw [List.foldl_nil] at hafter
      rw [hafter] at hlater
      rw [hafter, if_neg (by simp [hc])] at h
      have hnest : nest 0 (textMarks (c :: latest).reverse) = some after := by
        have hchar : textMarks [c] = (Mark.ofChar? c).toList := by simp
        rw [List.reverse_cons, textMarks_append, nest_append, hlatest, Option.bind_some, hchar]
        exact nest_ofChar? (fun hcomma' hzero => hcomma (by simp [hcomma', hzero])) hafter
      exact ih hrest hnest hlater h ⟨after, hnest⟩

theorem Nested.foldl_nonneg {text front : List Char} (h : Nested text) (hfront : front <+: text) :
    0 ≤ front.foldl nesting 0 :=
  h front ((List.mem_inits front text).mpr hfront)

/-- The items of a clause that closes only brackets it has opened do the same. -/
theorem inside_of_mem_split {text item : List Char}
    (hquotes : ∀ c ∈ text, Literal.isQuote c = false) (hnested : Nested text)
    (h : item ∈ split text) : Inside item :=
  @inside_of_mem_splitFrom 0 [] text item hquotes rfl (fun _ hfront => hnested.foldl_nonneg hfront)
    h

end Item

namespace Selection

/-- The clause without its modifiers. -/
def withoutModifiers (text : List Char) : List Char :=
  (modifier "PARTIALS".toList
    (modifier "DISTINCT".toList (text.dropWhile Unicode.isWhitespace)).2).2

theorem withoutModifiers_suffix (text : List Char) : withoutModifiers text <:+ text :=
  (suffix_of_modifier _ _).trans ((suffix_of_modifier _ _).trans (List.dropWhile_suffix _))

theorem inside_item (literals : LiteralTable) {text : List Char} (h : Item.Inside text)
    {expression : String} (hexpression : Plan.itemText? (item literals text) = some expression) :
    Item.Inside expression.toList := by
  have hexpand : ∀ {part : List Char}, part <+: text →
      Item.Inside (String.ofList (Shorthand.expand part)).toList := fun hpart => by
    rw [String.toList_ofList]
    exact (h.of_prefix hpart).of_sameNesting (Shorthand.sameNesting_expand _)
  unfold item at hexpression
  cases hsplit : Item.splitAtKeyword? ['A', 'S'] text with
  | none =>
    simp only [hsplit] at hexpression
    split at hexpression
    · cases hexpression
    · obtain rfl := Option.some.inj hexpression
      exact hexpand (List.prefix_refl _)
  | some parts =>
    obtain ⟨before, given⟩ := parts
    simp only [hsplit] at hexpression
    split at hexpression
    · cases hexpression
    · obtain rfl := Option.some.inj hexpression
      exact hexpand (Item.prefix_of_splitAtKeyword? hsplit)

/-- The expressions of a `SELECT` clause that closes only brackets it has opened. -/
theorem inside_expressions (literals : LiteralTable) {text : List Char}
    (hquotes : ∀ c ∈ text, Literal.isQuote c = false) (h : Item.Nested (withoutModifiers text)) :
    ∀ expression ∈ (ofText literals text).items.filterMap Plan.itemText?,
      Item.Inside expression.toList := by
  intro expression hexpression
  obtain ⟨found, hfound, hexpression⟩ := List.mem_filterMap.mp hexpression
  obtain ⟨part, hpart, rfl⟩ := List.mem_map.mp hfound
  have hbody : ∀ c ∈ withoutModifiers text, Literal.isQuote c = false :=
    fun c hc => hquotes c ((withoutModifiers_suffix text).subset hc)
  exact inside_item literals (Item.inside_of_mem_split hbody h hpart) hexpression

end Selection

/-! ### Literals put back -/

namespace LiteralTable

/-- The literals of a table fit between their quotes. -/
def Proper (table : LiteralTable) : Prop :=
  ∀ entry ∈ table, Literal.isQuote entry.2.quote = true ∧
    Literal.Contents entry.2.quote entry.2.text

variable {table : LiteralTable}

theorem shown_word (hproper : table.Proper) {word rest : List Char} {marks : List Mark}
    (hword : word.all isNameChar = true) (hrest : ∀ c ∈ rest.head?, isNameChar c = false)
    (h : Shown (restoreFrom table true 0 rest) marks) :
    Shown (restoreFrom table true 0 (word ++ rest)) marks := by
  have hplain : ∀ {text rest : List Char}, text.all isNameChar = true → Shown rest marks →
      Shown (text ++ rest) marks := fun htext hshown => by
    simpa [textMarks_of_isNameChar htext] using hshown.append_plain
      fun c hc => isQuote_of_isNameChar (List.all_eq_true.mp htext c hc)
  induction parts hrest word with
  | nil => exact h
  | @placeholder word tail hwhole _ ih =>
    rw [List.all_append, Bool.and_eq_true] at hword
    rw [List.append_assoc, restoreFrom_whole true hwhole, restored]
    cases hget : table.get? word with
    | none => exact hplain hword.1 (ih hword.2)
    | some found =>
      obtain ⟨hquote, hcontents⟩ := hproper _ (mem_of_get? hget)
      simpa [Literal.quoted] using Shown.literal hquote hcontents (ih hword.2)
  | @plain c tail hstart _ ih =>
    rw [List.all_cons, Bool.and_eq_true] at hword
    rw [List.cons_append] at hstart ⊢
    rw [restoreFrom_cons hstart]
    have hc : [c].all isNameChar = true := by simp [hword.1]
    exact hplain hc (ih hword.2)

/-- Putting literals back into tidy fragments leaves their brackets and commas as they are. -/
theorem shown_textOf (hproper : table.Proper) {fragments : List Fragment}
    (htidy : Tidy table fragments) :
    Shown (restoreFrom table true 0 (textOf fragments)) (textMarks (textOf fragments)) := by
  induction fragments with
  | nil => exact .nil
  | cons fragment rest ih =>
    have hrest := ih htidy.tail
    rw [textOf_cons, textMarks_append]
    cases htidy.whole fragment List.mem_cons_self with
    | @sign c hname hquote =>
      rw [text, List.singleton_append, restoreFrom_cons (lettersAt?_sign hname _)]
      have hplain : ∀ d ∈ [c], Literal.isQuote d = false := by simp [hquote]
      exact hrest.append_plain hplain
    | @word letters hne hletters =>
      rw [text, textMarks_of_isNameChar hletters]
      exact shown_word hproper hletters (htidy.tail.isNameChar_head? (htidy.sign_of_head? rfl))
        hrest
    | @quoted name hname hmentions =>
      have hquote : isNameChar '\'' = false := by decide
      have hmarks : textMarks ('\'' :: name ++ ['\'']) = [] := by
        have hnone : Mark.ofChar? '\'' = none := rfl
        simp [textMarks_of_isNameChar hname, hnone]
      rw [text, hmarks, List.cons_append, List.cons_append, List.append_assoc,
        List.singleton_append, restoreFrom_cons (lettersAt?_sign hquote _),
        restoreFrom_not_mentions true (fun c hc => by cases hc; exact hquote) hmentions,
        restoreFrom_cons (lettersAt?_sign hquote _)]
      exact .literal rfl (contents_of_all hname) hrest

/-- Expressions that close only brackets they have opened do so when they are ready to be
compiled. -/
theorem Readable.selfContained (hwhole : ∀ entry ∈ table, Placeholder.isWhole entry.1 = true)
    (hproper : table.Proper) {expression : String} (h : table.Readable expression)
    (hinside : Item.Inside expression.toList) (bindings : ColumnBindings) :
    Expr.SelfContained (bindings.prepare table expression).toList := by
  obtain ⟨fragments, htext, htidy⟩ := h
  obtain ⟨bound, hbound, hboundTidy⟩ := bindings.exists_bind hwhole htidy
  obtain ⟨depth, hdepth⟩ := hinside.of_sameNesting (bindings.sameNesting_bind _)
  rw [htext, hbound] at hdepth
  rw [ColumnBindings.prepare, String.toList_ofList, htext, hbound]
  exact ⟨_, depth, shown_textOf hproper hboundTidy, hdepth⟩

/-- The literals of a text fit between their quotes. -/
theorem proper_of_extract {name : Nat → List Char} {text rewritten : List Char}
    (h : extract name text = .ok (rewritten, table)) : table.Proper := by
  obtain ⟨pieces, hscanned, -, -, rfl⟩ := Piece.of_extract h
  clear h
  generalize 0 = index
  induction hscanned generalizing index with
  | nil => exact fun entry hentry => absurd hentry List.not_mem_nil
  | plain _ _ ih => exact ih index
  | literal hquote hcontents _ _ ih =>
    exact List.forall_mem_cons.mpr ⟨⟨hquote, hcontents⟩, ih (index + 1)⟩

theorem isWhole_of_extract {name : Nat → List Char} {text rewritten : List Char}
    (hname : ∀ index, Placeholder.isWhole (name index) = true)
    (h : extract name text = .ok (rewritten, table)) :
    ∀ entry ∈ table, Placeholder.isWhole entry.1 = true := by
  obtain ⟨pieces, -, -, -, rfl⟩ := Piece.of_extract h
  clear h
  generalize 0 = index
  induction pieces generalizing index with
  | nil => exact fun entry hentry => absurd hentry List.not_mem_nil
  | cons piece rest ih =>
    cases piece with
    | plain c => exact ih index
    | literal found => exact List.forall_mem_cons.mpr ⟨hname index, ih (index + 1)⟩

end LiteralTable

end StreamQuery
