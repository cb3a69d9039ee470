import Mathlib.Data.List.Forall2
import StreamQuery.Proofs.Agreement
import StreamQuery.Proofs.Query.RecasedItems

/-!
# Queries under other spellings of functions

Reading a query and the same query with another spelling of a function that it calls takes the same
steps: both have the same clauses with the same items, and where one cannot be read the other one
cannot either.
-/

namespace StreamQuery

open Unicode Fragment

/-! ### Expressions, targets, keys and columns -/

/-- Two expressions that are the same but for the spelling of what they call. -/
def SameExpression (expression other : String) : Prop :=
  SameButCalls expression.toList other.toList

theorem Paired.sameExpression {text other : List Char} (h : Paired text other) :
    SameExpression (String.ofList (Shorthand.expand text))
      (String.ofList (Shorthand.expand other)) := by
  rw [SameExpression, String.toList_ofList, String.toList_ofList]
  exact h.expand

/-- Two calls of a format whose arguments are the same but for the spelling of what they call. -/
structure FormatCall.Recased (call other : FormatCall) : Prop where
  name : SameLetters call.name.toList other.name.toList
  arguments : List.Forall₂ SameExpression call.arguments other.arguments
  options : List.Forall₂ (fun entry other => entry.1 = other.1 ∧ SameExpression entry.2 other.2)
    call.options other.options

/-- Two targets that are the same but for the spelling of what they call. -/
inductive Target.Recased : Target → Target → Prop
  | format {call other : FormatCall} : call.Recased other → Recased (.format call) (.format other)
  | expression {text other : String} : SameExpression text other →
      Recased (.expression text) (.expression other)

/-- Two aims of an ordering that are the same but for the spelling of what they call. -/
inductive OrderTarget.Recased : OrderTarget → OrderTarget → Prop
  | expression {text other : String} : SameExpression text other →
      Recased (.expression text) (.expression other)
  | outputColumn (index : Nat) : Recased (.outputColumn index) (.outputColumn index)

/-- Two keys of an ordering that are the same but for the spelling of what they call. -/
structure OrderKey.Recased (key other : OrderKey) : Prop where
  target : key.target.Recased other.target
  descending : key.descending = other.descending
  nulls : key.nulls = other.nulls

/-- Two items of `SELECT` that are the same but for the spelling of what they call. Their columns
have the names that are given to them, or each has that of its own expression. -/
inductive SelectItem.Recased (literals : LiteralTable) : SelectItem → SelectItem → Prop
  | star : Recased literals .star .star
  | given {name spelling : List Char} {expression other : String} : Paired name spelling →
      SameExpression expression other →
      Recased literals (.column (String.ofList (literals.restore false name)) expression)
        (.column (String.ofList (literals.restore false spelling)) other)
  | derived {expression other : String} : SameExpression expression other →
      Recased literals
        (.column (String.ofList (Selection.columnName literals expression.toList)) expression)
        (.column (String.ofList (Selection.columnName literals other.toList)) other)

/-- Two queries that are the same but for the spelling of what they call, and for the names of
columns that have no other name. -/
structure Query.Recased (query other : Query) : Prop where
  imports : query.imports = other.imports
  items : List.Forall₂ (SelectItem.Recased query.literals) query.selection.items
    other.selection.items
  distinct : query.selection.distinct = other.selection.distinct
  partials : query.selection.partials = other.selection.partials
  source : Option.Rel Target.Recased query.source other.source
  explode : Option.Rel SameExpression query.explode other.explode
  condition : Option.Rel SameExpression query.condition other.condition
  groupBy : List.Forall₂ SameExpression query.groupBy other.groupBy
  orderBy : List.Forall₂ OrderKey.Recased query.orderBy other.orderBy
  limit : query.limit = other.limit
  offset : query.offset = other.offset
  target : query.target.Recased other.target
  literals : query.literals = other.literals

/-! ### Sources and targets -/

namespace Target

variable {text other : List Char}

/-- A word and what stands behind it. -/
theorem paired_dropWord (h : Paired text other) :
    Paired (text.dropWhile isWord) (other.dropWhile isWord) ∧
      SameLetters (text.takeWhile isWord) (other.takeWhile isWord) ∧
      (opensParenthesis (text.dropWhile isWord) = false →
        text.takeWhile isWord = other.takeWhile isWord) := by
  have hword := h.sameLetters.takeWhile caseless_isWord
  have hbetween : Between (text.takeWhile isWord) (text.dropWhile isWord) := by
    refine .inr ?_
    cases hrest : text.dropWhile isWord with
    | nil => rfl
    | cons c rest =>
      have hhead := List.head?_dropWhile_not isWord text
      rw [hrest] at hhead
      exact Bool.eq_false_iff.mpr fun hc => by
        cases (isWord_of_isIdentifierChar hc).symm.trans hhead
  have hparts : Paired (text.takeWhile isWord ++ text.dropWhile isWord)
      (other.takeWhile isWord ++ other.dropWhile isWord) := by
    rwa [List.takeWhile_append_dropWhile, List.takeWhile_append_dropWhile]
  obtain ⟨hrest, hfront⟩ := hparts.of_append hword.length_eq hbetween
  refine ⟨hrest, hword, fun hopens => ((hfront hopens).eq_of_not_mem fun hmem => ?_).symm⟩
  cases (List.all_eq_true.mp (List.all_takeWhile (l := text) (p := isWord)) _ hmem)

/-- A character that is no letter at the front of paired texts, and what stands behind it. -/
theorem exists_of_sign {c : Char} {rest : List Char} (hc : c.isAlpha = false)
    (hsign : Selection.isIdentifierChar c = false) (h : Paired (c :: rest) other) :
    ∃ others, other = c :: others ∧ Paired rest others := by
  obtain ⟨d, others, rfl, hd, -⟩ := h.sameLetters.exists_of_cons
  have hsame : (c == c) = (d == c) := (caseless_beq hc).eq hd
  obtain rfl : d = c := by simpa using hsame.symm
  have hparts : Paired ([d] ++ rest) ([d] ++ others) := h
  exact ⟨others, rfl, (hparts.of_append rfl (.inl hsign)).1⟩

theorem option?_rel (h : Paired text other) :
    Option.Rel (fun entry other => entry.1 = other.1 ∧ SameExpression entry.2 other.2)
      (option? text) (option? other) := by
  refine h.option_rel fun {text other} h entry hentry => ?_
  obtain ⟨hrest, -, hname⟩ := paired_dropWord h
  have hvalue := hrest.dropBlanks
  rw [option?] at hentry
  split at hentry
  case h_2 => cases hentry
  case h_1 first letters c rest hword hequals =>
    have hopens : opensParenthesis (text.dropWhile isWord) = false := by
      rw [opensParenthesis, hequals]
      rfl
    rw [hequals] at hvalue
    obtain ⟨behind, hother, hvalue⟩ := exists_of_sign (by decide) (by decide) hvalue
    obtain ⟨d, others, rfl, hd, -⟩ := hvalue.sameLetters.exists_of_cons
    have hsame : (c == '=') = (d == '=') := (caseless_beq (by decide)).eq hd
    split at hentry
    case isFalse => cases hentry
    case isTrue hstart =>
      obtain rfl := Option.some.inj hentry
      have hexpression := hvalue.sameExpression
      refine ⟨(String.ofList (text.takeWhile isWord),
        String.ofList (Shorthand.expand (d :: others))), ?_, rfl, hexpression⟩
      rw [bne, hsame] at hstart
      simp only [option?, ← hname hopens, hword, hother]
      exact if_pos hstart

/-- The arguments of calls of a format. -/
theorem splitArguments_rel (h : Paired text other) :
    List.Forall₂ SameExpression (splitArguments text).1 (splitArguments other).1 ∧
      List.Forall₂ (fun entry other => entry.1 = other.1 ∧ SameExpression entry.2 other.2)
        (splitArguments text).2 (splitArguments other).2 := by
  rw [splitArguments, splitArguments, ← h.trim.sameLetters.isEmpty_eq]
  split
  · exact ⟨.nil, .nil⟩
  · have hparts := Item.paired_split h
    refine ⟨?_, List.rel_filterMap (fun _ _ hpart => option?_rel hpart) hparts⟩
    refine List.rel_map (fun _ _ hpart => hpart.sameExpression)
      (List.rel_filter (fun part otherPart hpart => ?_) hparts)
    have hsame : (option? part).isNone = (option? otherPart).isNone := by
      have hoption := option?_rel hpart
      generalize option? part = option, option? otherPart = otherOption at hoption ⊢
      cases hoption <;> rfl
    exact iff_of_eq (congrArg (· = true) hsame)

/-- The text between the parentheses of a call. -/
theorem callText?_rel (h : Paired text other) :
    Option.Rel Paired (callText? text) (callText? other) := by
  refine h.option_rel fun {text other} h inner hinner => ?_
  unfold callText? at hinner
  split at hinner
  case h_1 =>
    obtain rfl := Option.some.inj hinner
    rw [h.sameLetters.of_nil]
    exact ⟨[], rfl, h.plain, .same []⟩
  case h_3 => cases hinner
  case h_2 rest =>
    obtain ⟨others, rfl, hrest⟩ := exists_of_sign (by decide) (by decide) h
    split at hinner
    case isFalse => cases hinner
    case isTrue hlast =>
      obtain rfl := Option.some.inj hinner
      rw [beq_iff_eq] at hlast
      obtain ⟨front, rfl⟩ := List.getLast?_eq_some_iff.mp hlast
      rw [List.dropLast_concat]
      obtain ⟨otherFront, otherLast, rfl⟩ : ∃ front last, others = front ++ [last] := by
        rcases List.eq_nil_or_concat' others with rfl | hothers
        · simpa using hrest.length_eq
        · exact hothers
      have hlength : front.length = otherFront.length := by simpa using hrest.length_eq
      obtain ⟨hlast, hinner⟩ := hrest.of_append hlength (.inr rfl)
      obtain ⟨behind, heq, -⟩ := exists_of_sign (by decide) (by decide) hlast
      obtain ⟨rfl, rfl⟩ := List.cons.inj heq
      refine ⟨otherFront, ?_, hinner rfl⟩
      rw [callText?, List.getLast?_concat, List.dropLast_concat]
      rfl

/-- The target of a clause. -/
theorem recased_ofText (formats : List String) (h : Paired text other) :
    (ofText formats text).Recased (ofText formats other) := by
  have htrim := h.trim
  obtain ⟨hrest, hname, -⟩ := paired_dropWord htrim
  have hcall := callText?_rel hrest.trim
  have hknown := congrArg (fun name => formats.contains (String.ofList name)) (upperText_eq hname)
  have hexpression := htrim.sameExpression
  simp only [ofText]
  rw [← hknown]
  generalize formats.contains _ = known
  generalize callText? (Item.trim ((Item.trim text).dropWhile isWord)) = inner,
    callText? (Item.trim ((Item.trim other).dropWhile isWord)) = otherInner at hcall
  cases known with
  | false => exact .expression hexpression
  | true =>
    cases hcall with
    | none => exact .expression hexpression
    | some hinner =>
      obtain ⟨harguments, hoptions⟩ := splitArguments_rel hinner
      refine .format ⟨?_, harguments, hoptions⟩
      rw [String.toList_ofList, String.toList_ofList]
      exact hname

end Target

/-! ### Keys of an ordering -/

namespace OrderKey

variable {text other : List Char}

theorem isKeyword_eq (keyword : String) (h : SameLetters text other) :
    isKeyword keyword text = isKeyword keyword other := by
  rw [isKeyword, isKeyword, h]

/-- One of two keywords at the end and the text before it. -/
theorem splitLastKeyword?_or_rel {keyword otherKeyword : List Char} (hkeyword : Item.Plain keyword)
    (hother : Item.Plain otherKeyword) (h : Paired text other) :
    Option.Rel (fun parts others => Paired parts.1 others.1 ∧ SameLetters parts.2 others.2)
      ((Item.splitLastKeyword? keyword text).or (Item.splitLastKeyword? otherKeyword text))
      ((Item.splitLastKeyword? keyword other).or (Item.splitLastKeyword? otherKeyword other)) := by
  have hfirst := Item.splitLastKeyword?_rel hkeyword h
  have hsecond := Item.splitLastKeyword?_rel hother h
  generalize Item.splitLastKeyword? keyword text = found,
    Item.splitLastKeyword? keyword other = otherFound at hfirst
  cases hfirst with
  | none => exact hsecond
  | some hparts => exact .some hparts

theorem splitNulls_rel (h : Paired text other) :
    (splitNulls text).1 = (splitNulls other).1 ∧
      Paired (splitNulls text).2 (splitNulls other).2 := by
  have hfirstPlain : Item.Plain "FIRST".toList := by decide
  have hlastPlain : Item.Plain "LAST".toList := by decide
  have hnullsPlain : Item.Plain "NULLS".toList := by decide
  have hlast := splitLastKeyword?_or_rel hfirstPlain hlastPlain h
  rw [splitNulls, splitNulls]
  generalize (Item.splitLastKeyword? "FIRST".toList text).or _ = last,
    (Item.splitLastKeyword? "FIRST".toList other).or _ = otherLast at hlast
  cases hlast with
  | none => exact ⟨rfl, h⟩
  | @some parts otherParts hparts =>
    have hnulls := Item.splitLastKeyword?_rel hnullsPlain hparts.1
    dsimp only
    generalize Item.splitLastKeyword? "NULLS".toList parts.1 = rest,
      Item.splitLastKeyword? "NULLS".toList otherParts.1 = otherRest at hnulls
    cases hnulls with
    | none => exact ⟨rfl, h⟩
    | some hrest => exact ⟨by rw [isKeyword_eq _ hparts.2], hrest.1⟩

theorem splitDirection_rel (h : Paired text other) :
    (splitDirection text).1 = (splitDirection other).1 ∧
      Paired (splitDirection text).2 (splitDirection other).2 := by
  have hdescPlain : Item.Plain "DESC".toList := by decide
  have hascPlain : Item.Plain "ASC".toList := by decide
  have hfound := splitLastKeyword?_or_rel hdescPlain hascPlain h
  rw [splitDirection, splitDirection]
  generalize (Item.splitLastKeyword? "DESC".toList text).or _ = found,
    (Item.splitLastKeyword? "DESC".toList other).or _ = otherFound at hfound
  cases hfound with
  | none => exact ⟨rfl, h⟩
  | some hparts => exact ⟨isKeyword_eq _ hparts.2, hparts.1⟩

theorem alike_ofText (h : Paired text other) :
    Alike (fun _ _ => True) Recased (ofText text) (ofText other) := by
  obtain ⟨hnulls, hrest⟩ := splitNulls_rel h.trimEnd
  obtain ⟨hdirection, hexpression⟩ := splitDirection_rel hrest
  simp only [ofText]
  rw [← hnulls, ← hdirection, ← Item.columnNumber?_eq .orderBy hexpression]
  refine (Alike.refl (fun _ => trivial) (Item.columnNumber? .orderBy _)).bind ?_
  rintro column _ rfl
  cases column with
  | none => exact .ok ⟨.expression hexpression.sameExpression, rfl, rfl⟩
  | some index => exact .ok ⟨.outputColumn index, rfl, rfl⟩

end OrderKey

/-! ### Output columns -/

namespace Selection

variable {text other : List Char}

theorem recased_item (literals : LiteralTable) (h : Paired text other) :
    SelectItem.Recased literals (item literals text) (item literals other) := by
  have hstar : ∀ {text other : List Char}, Paired text other →
      (Item.trim text == ['*']) = (Item.trim other == ['*']) := by
    intro text other h
    have hforward : ∀ {text other : List Char}, SameLetters text other → text = ['*'] →
        other = ['*'] := by
      rintro _ other h rfl
      exact h.eq_of_all (by decide)
    have hletters := h.trim.sameLetters
    exact Bool.eq_iff_iff.mpr (by
      rw [beq_iff_eq, beq_iff_eq]
      exact ⟨hforward hletters, hforward hletters.symm⟩)
  have hplain : Item.Plain ['A', 'S'] := by decide
  have hsplit := Item.splitAtKeyword?_rel hplain h
  unfold item
  generalize Item.splitAtKeyword? ['A', 'S'] text = parts,
    Item.splitAtKeyword? ['A', 'S'] other = otherParts at hsplit
  cases hsplit with
  | none =>
    simp only [← hstar h]
    split
    · exact .star
    · have hderived : SelectItem.Recased literals _ _ := .derived h.sameExpression
      rwa [String.toList_ofList, String.toList_ofList] at hderived
  | some hparts =>
    simp only [← hstar hparts.1]
    split
    · exact .star
    · exact .given hparts.2.trim hparts.1.sameExpression

theorem modifier_rel (keyword : List Char) (h : Paired text other) :
    (modifier keyword text).1 = (modifier keyword other).1 ∧
      Paired (modifier keyword text).2 (modifier keyword other).2 := by
  have hdrop := Item.dropKeyword?_rel keyword h
  unfold modifier
  generalize Item.dropKeyword? keyword text = rest,
    Item.dropKeyword? keyword other = otherRest at hdrop
  cases hdrop with
  | none => exact ⟨rfl, h⟩
  | some hrest => exact ⟨rfl, hrest⟩

/-- The clause of paired texts. -/
theorem recased_ofText (literals : LiteralTable) (h : Paired text other) :
    List.Forall₂ (SelectItem.Recased literals) (ofText literals text).items
        (ofText literals other).items ∧
      (ofText literals text).distinct = (ofText literals other).distinct ∧
      (ofText literals text).partials = (ofText literals other).partials := by
  obtain ⟨hdistinct, hrest⟩ := modifier_rel "DISTINCT".toList h.dropBlanks
  obtain ⟨hpartials, hitems⟩ := modifier_rel "PARTIALS".toList hrest
  refine ⟨?_, hdistinct, hpartials⟩
  exact List.rel_map (fun _ _ hitem => recased_item literals hitem) (Item.paired_split hitems)

end Selection

/-! ### Queries -/

theorem Alike.mapM {ε δ α β γ κ : Type} {errors : ε → δ → Prop} {related : α → β → Prop}
    {values : γ → κ → Prop} {read : α → Except ε γ} {otherRead : β → Except δ κ}
    (hread : ∀ item other, related item other → Alike errors values (read item) (otherRead other))
    {items : List α} {others : List β} (h : List.Forall₂ related items others) :
    Alike errors (List.Forall₂ values) (items.mapM read) (others.mapM otherRead) := by
  induction h with
  | nil => exact .ok .nil
  | @cons item other items others hitem _ ih =>
    rw [List.mapM_cons, List.mapM_cons]
    exact (hread item other hitem).bind fun _ _ hvalue =>
      ih.bind fun _ _ hvalues => .ok (.cons hvalue hvalues)

namespace Query

variable {text other : List Char}

theorem rowCount?_eq {text other : String} (h : Paired text.toList other.toList) :
    rowCount? text = rowCount? other := by
  rw [rowCount?, rowCount?, Item.readInt64?_eq h.trim]

theorem mem_dropWhile {p : Char → Bool} {c : Char} (hc : p c = false) (h : c ∈ text) :
    c ∈ text.dropWhile p := by
  rw [← List.takeWhile_append_dropWhile (p := p) (l := text), List.mem_append] at h
  refine h.resolve_left fun hmem => ?_
  cases hc.symm.trans (List.all_eq_true.mp List.all_takeWhile c hmem)

/-- A parenthesis behind a keyword stays. -/
theorem mem_of_dropKeyword? {keyword found : List Char} (hkeyword : Item.Plain keyword)
    (h : Item.dropKeyword? keyword text = some found) (hmem : '(' ∈ text) : '(' ∈ found := by
  rw [Item.dropKeyword?] at h
  split at h
  case isFalse => cases h
  case isTrue hletters =>
    rw [← List.take_append_drop keyword.length text, List.mem_append] at hmem
    have hbehind := hmem.resolve_left (Item.not_mem_of_sameLetters hkeyword hletters)
    split at h
    case h_2 => cases h
    case h_1 c rest hdrop =>
      split at h
      case isFalse => cases h
      case isTrue hc =>
        obtain rfl := Option.some.inj h
        rw [hdrop] at hbehind
        rcases List.mem_cons.mp hbehind with rfl | hrest
        · cases hc
        · exact mem_dropWhile (by decide) hrest

/-- An import has no parenthesis. -/
theorem importItem?_of_mem (h : '(' ∈ text) : importItem? text = none := by
  have hbehind : '(' ∈ text.dropWhile isWord := mem_dropWhile (by decide) h
  simp only [importItem?]
  split
  · rfl
  split
  case h_1 hnil =>
    rw [hnil] at hbehind
    cases hbehind
  case h_2 c rest hrest =>
    rw [hrest] at hbehind
    split
    · rfl
    case isFalse hc =>
      have hmem : '(' ∈ rest.dropWhile isWhitespace := by
        refine mem_dropWhile (by decide) ((List.mem_cons.mp hbehind).resolve_left ?_)
        rintro rfl
        exact hc (by decide)
      split
      case h_2 => rfl
      case h_1 given hgiven =>
        have hmem := mem_of_dropKeyword? (by decide) hgiven hmem
        refine if_neg fun hall => ?_
        cases List.all_eq_true.mp (Bool.and_eq_true_iff.mp hall).2 _ hmem

/-- What is imported. -/
theorem importItem?_eq (h : Paired text other) : importItem? text = importItem? other := by
  by_cases hmem : '(' ∈ text
  · rw [importItem?_of_mem hmem, importItem?_of_mem (h.mem_iff.mp hmem)]
  · rw [h.eq_of_not_mem hmem]

theorem alike_parseImports (h : Paired text other) :
    Alike (fun _ _ => True) Eq (parseImports text) (parseImports other) := by
  rw [← List.forall₂_eq_eq_eq]
  unfold parseImports
  refine Alike.mapM (fun item other hitem => ?_) (Item.paired_split h)
  rw [← importItem?_eq hitem]
  cases importItem? item with
  | none => exact .error trivial
  | some entry => exact .refl (fun _ => trivial) _

/-! ### Grouping -/

theorem alike_groupItem {literals : LiteralTable} {items others : List SelectItem}
    (hitems : List.Forall₂ (SelectItem.Recased literals) items others) (h : Paired text other) :
    Alike (fun _ _ => True) SameExpression (groupItem items text) (groupItem others other) := by
  rw [groupItem, groupItem, ← Item.columnNumber?_eq .groupBy h]
  refine (Alike.refl (fun _ => trivial) (Item.columnNumber? .groupBy text)).bind ?_
  rintro column _ rfl
  cases column with
  | none => exact .ok h.sameExpression
  | some index =>
    have hitem : Option.Rel (SelectItem.Recased literals) items[index]? others[index]? := by
      clear h
      induction hitems generalizing index with
      | nil => exact .none
      | cons hitem _ ih =>
        cases index with
        | zero => exact .some hitem
        | succ index => exact ih index
    have hlength := hitems.length_eq
    dsimp only [bind, Except.bind]
    generalize items[index]? = item, others[index]? = other at hitem ⊢
    cases hitem with
    | none => exact .error trivial
    | some hsame =>
      cases hsame with
      | star => exact .error trivial
      | given _ hexpression => exact .ok hexpression
      | derived hexpression => exact .ok hexpression

/-- None of the keys aggregates, or one of them does in both queries. -/
theorem alike_refuseAggregates {keys others : List String}
    (h : List.Forall₂ SameExpression keys others) :
    Alike (fun _ _ => True) Eq
      (forIn keys PUnit.unit fun key _ => do
        withoutAggregates .groupBy key.toList
        pure (ForInStep.yield PUnit.unit))
      (forIn others PUnit.unit fun key _ => do
        withoutAggregates .groupBy key.toList
        pure (ForInStep.yield PUnit.unit)) := by
  induction h with
  | nil => exact .ok rfl
  | @cons key other keys others hkey _ ih =>
    have hstep := alike_withoutAggregates .groupBy hkey.sameLetters
    rw [List.forIn_cons, List.forIn_cons, bind_assoc, bind_assoc]
    refine hstep.bind fun _ _ _ => ?_
    rw [pure_bind, pure_bind]
    exact ih

/-- The grouping expressions of paired texts. -/
theorem alike_parseGroupBy {literals : LiteralTable} {items others : List SelectItem}
    (hitems : List.Forall₂ (SelectItem.Recased literals) items others) (h : Paired text other) :
    Alike (fun _ _ => True) (List.Forall₂ SameExpression) (parseGroupBy items text)
      (parseGroupBy others other) := by
  rw [parseGroupBy, parseGroupBy]
  refine (Alike.mapM (fun _ _ hitem => alike_groupItem hitems hitem)
    (Item.paired_split h)).bind fun keys otherKeys hkeys => ?_
  exact (alike_refuseAggregates hkeys).bind fun _ _ _ => .ok hkeys

theorem sameExpression_overallGroup : SameExpression overallGroup overallGroup := by
  let fragment : Fragment := .quoted ('\'' :: "_OVERALL_".toList ++ ['\''])
  have hwhole : Whole [] fragment := .quoted (by decide) (not_mentions_nil _)
  refine ⟨[fragment], [fragment], by decide, by decide, .refl _ _, fun f hf => ?_, .singleton _⟩
  rw [List.mem_singleton.mp hf]
  exact hwhole

/-! ### The query -/

variable {α β : Type} {values : α → β → Prop}

theorem agree_semantic {result : Except SemanticFault α} {other : Except SemanticFault β}
    (h : Alike (fun _ _ => True) values result other) :
    Reporting.Agree (fun _ _ => True) values (semantic result) (semantic other) := by
  cases h with
  | ok hvalues => exact Reporting.agree_pure hvalues
  | error => exact Reporting.agree_throw trivial

theorem agree_certain {result : Except Error α} {other : Except Error β}
    (h : Alike (fun _ _ => True) values result other) :
    Reporting.Agree (fun _ _ => True) values (certain result) (certain other) := by
  cases h with
  | ok hvalues => exact Reporting.agree_pure hvalues
  | error => exact Reporting.agree_throw trivial

/-- The parts of clauses that are both there or both not. -/
theorem agree_optional {text other : Option String}
    (h : Option.Rel (fun text other => Paired text.toList other.toList) text other)
    {read : List Char → Reporting α} {otherRead : List Char → Reporting β}
    (hread : ∀ text other, Paired text other →
      Reporting.Agree (fun _ _ => True) values (read text) (otherRead other)) :
    Reporting.Agree (fun _ _ => True) (Option.Rel values) (optional text read)
      (optional other otherRead) := by
  cases h with
  | none => exact Reporting.agree_pure .none
  | some h =>
    refine Reporting.Agree.bind (hread _ _ h) fun _ _ hvalues => ?_
    exact Reporting.agree_pure (.some hvalues)

theorem rel_map {γ κ : Type} {related : γ → κ → Prop} {option : Option α} {other : Option β}
    {f : α → γ} {g : β → κ} (h : Option.Rel values option other)
    (hmap : ∀ value otherValue, values value otherValue → related (f value) (g otherValue)) :
    Option.Rel related (option.map f) (other.map g) := by
  cases h with
  | none => exact .none
  | some hvalues => exact .some (hmap _ _ hvalues)

theorem rel_getD {option : Option α} {other : Option β} {default : α} {otherDefault : β}
    (h : Option.Rel values option other) (hdefault : values default otherDefault) :
    values (option.getD default) (other.getD otherDefault) := by
  cases h with
  | none => exact hdefault
  | some hvalues => exact hvalues

theorem isEmpty_eq {items : List α} {others : List β} (h : List.Forall₂ values items others) :
    items.isEmpty = others.isEmpty := by
  cases h <;> rfl

/-- The last step of reading a query. -/
theorem agree_finish_recased {query other : Query} (h : Recased query other) {error : Error} :
    Reporting.Agree (fun _ _ => True) Recased
      (if (query.selection.distinct && !query.groupBy.isEmpty) = true then
        (do throw error; pure query) else pure query)
      (if (other.selection.distinct && !other.groupBy.isEmpty) = true then
        (do throw error; pure other) else pure other) := by
  rw [h.distinct, isEmpty_eq h.groupBy]
  split
  · exact fun _ => ⟨.error trivial, rfl⟩
  · exact Reporting.agree_pure h

/-- Clauses that are the same but for the spelling of a name give such queries, or no queries. -/
theorem agree_ofStructure_recased {clauses others : QueryStructure} (h : SameClauses clauses others)
    {rewritten otherRewritten : List Char} (hletters : SameLetters rewritten otherRewritten)
    (policy : WarningPolicy) (defaultTarget : String) (literals : LiteralTable) :
    Reporting.Agree (fun _ _ => True) Recased
      (ofStructure policy defaultTarget rewritten literals clauses)
      (ofStructure policy defaultTarget otherRewritten literals others) := by
  have hselect : Paired ((clauses.nonEmpty? .select).getD "").toList
      ((others.nonEmpty? .select).getD "").toList :=
    @rel_getD String String (fun text other => Paired text.toList other.toList) _ _ _ _
      (h.nonEmpty? .select) ⟨by decide, .same _⟩
  obtain ⟨hitems, hdistinct, hpartials⟩ := Selection.recased_ofText literals hselect
  have hexplode := rel_map (h.nonEmpty? .explode) fun _ _ hpaired => hpaired.sameExpression
  have hdefault : FormatCall.Recased ⟨defaultTarget, [], []⟩ ⟨defaultTarget, [], []⟩ :=
    ⟨.refl _, .nil, .nil⟩
  have htarget := rel_getD (rel_map (h.nonEmpty? .target)
    fun _ _ hpaired => Target.recased_ofText Target.writable hpaired)
    (.format hdefault)
  have hcount : ∀ clause, (clauses.nonEmpty? clause).bind rowCount? =
      (others.nonEmpty? clause).bind rowCount? := fun clause => by
    have hclause := h.nonEmpty? clause
    generalize clauses.nonEmpty? clause = text, others.nonEmpty? clause = other at hclause
    cases hclause with
    | none => rfl
    | some hpaired => exact rowCount?_eq hpaired
  simp only [ofStructure, pure_bind, ← isEmpty_aggregatesIn hletters]
  -- The clauses that can fail, in the order in which they are read.
  refine (agree_optional (h.nonEmpty? .imports) fun _ _ hpaired =>
    agree_certain (alike_parseImports hpaired)).bind fun imports otherImports himports => ?_
  have himports : imports.getD [] = otherImports.getD [] := rel_getD himports rfl
  refine (agree_optional (h.nonEmpty? .source) fun _ _ hpaired =>
    (agree_semantic (alike_withoutAggregates .source hpaired.sameLetters)).bind fun _ _ _ =>
      Reporting.agree_pure (Target.recased_ofText Target.readable hpaired)).bind
    fun source otherSource hsource => ?_
  refine (agree_optional (h.nonEmpty? .condition) fun _ _ hpaired =>
    (agree_semantic (alike_withoutAggregates .condition hpaired.sameLetters)).bind fun _ _ _ =>
      Reporting.agree_pure hpaired.sameExpression).bind
    fun condition otherCondition hcondition => ?_
  refine (agree_optional (h.nonEmpty? .orderBy) fun _ _ hpaired =>
    agree_semantic (Alike.mapM (fun _ _ hitem => OrderKey.alike_ofText hitem)
      (Item.paired_split hpaired))).bind fun orderBy otherOrderBy horderBy => ?_
  have horderBy := rel_getD horderBy .nil
  have hfinish : ∀ {groupBy otherGroupBy : List String},
      List.Forall₂ SameExpression groupBy otherGroupBy → Recased
        ⟨imports.getD [],
          Selection.ofText literals ((clauses.nonEmpty? .select).getD "").toList, source, _,
          condition, groupBy, orderBy.getD [], (clauses.nonEmpty? .limit).bind rowCount?,
          ((clauses.nonEmpty? .offset).bind rowCount?).getD 0, _, literals⟩
        ⟨otherImports.getD [],
          Selection.ofText literals ((others.nonEmpty? .select).getD "").toList, otherSource, _,
          otherCondition, otherGroupBy, otherOrderBy.getD [],
          (others.nonEmpty? .limit).bind rowCount?,
          ((others.nonEmpty? .offset).bind rowCount?).getD 0, _, literals⟩ :=
    fun hgroupBy => ⟨himports, hitems, hdistinct, hpartials, hsource, hexplode, hcondition,
      hgroupBy, horderBy, hcount .limit, by rw [hcount .offset], htarget, rfl⟩
  have hgroupBy := h.nonEmpty? .groupBy
  generalize clauses.nonEmpty? .groupBy = text, others.nonEmpty? .groupBy = other at hgroupBy ⊢
  cases hgroupBy with
  | some hpaired =>
    exact (agree_semantic (alike_parseGroupBy hitems hpaired)).bind
      fun _ _ hkeys => agree_finish_recased (hfinish hkeys)
  | none =>
    -- Both queries sort or aggregate, or neither does, so both have an overall group or neither.
    dsimp only
    rw [← isEmpty_eq horderBy]
    split
    · exact agree_finish_recased (hfinish .nil)
    have hoverall : List.Forall₂ SameExpression [overallGroup] [overallGroup] :=
      .cons sameExpression_overallGroup .nil
    split
    · exact (Reporting.Agree.refl (fun _ => trivial) (raise policy .uselessOrderBy)).bind
        fun _ _ _ => agree_finish_recased (hfinish hoverall)
    · exact agree_finish_recased (hfinish hoverall)

end Query

end StreamQuery
