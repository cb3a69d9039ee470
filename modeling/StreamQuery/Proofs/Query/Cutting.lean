import StreamQuery.Execution.Plan
import StreamQuery.Proofs.Computation
import StreamQuery.Proofs.Query.Apart

/-!
# Cutting a query into its parts

A query is cut at blanks, commas and keywords, and comments are left out. No new words come up:
the parts of the clauses between blanks are parts of the query.
-/

namespace StreamQuery

variable {table : LiteralTable}

/-- A part without a character lies on one side of it. -/
theorem within_or_within {part text rest : List Char} {c : Char} (hc : c ∉ part)
    (h : part <:+: text ++ c :: rest) : part <:+: text ∨ part <:+: rest := by
  rcases List.infix_append_iff.mp h with hwithin | hwithin | ⟨first, second, rfl, hfirst, hsecond⟩
  · exact .inl hwithin
  · rcases List.infix_cons_iff.mp hwithin with hfront | hlater
    · cases part with
      | nil => exact .inl List.nil_infix
      | cons d part => exact absurd ((List.cons_prefix_cons.mp hfront).1 ▸ List.mem_cons_self) hc
    · exact .inr hlater
  · cases second with
    | nil => exact .inl (by simpa using hfirst.isInfix)
    | cons d second =>
      obtain ⟨rfl, -⟩ := List.cons_prefix_cons.mp hsecond
      exact absurd (by simp) hc

/-! ### Comments and words -/

theorem prefix_of_dropComments {part text : List Char} (hpart : '\n' ∉ part) :
    (part <+: dropComments true text → part = []) ∧
      (part <+: dropComments false text → part <+: text) := by
  induction text generalizing part with
  | nil => exact ⟨fun h => List.prefix_nil.mp h, id⟩
  | cons c rest ih =>
    cases part with
    | nil => exact ⟨fun _ => rfl, fun _ => List.nil_prefix⟩
    | cons d part =>
      obtain ⟨hd, hrest⟩ : '\n' ≠ d ∧ '\n' ∉ part := by simpa using hpart
      by_cases hc : c = '\n'
      · subst hc
        have hne : ∀ text : List Char, ¬ d :: part <+: '\n' :: text := fun text h =>
          hd (List.cons_prefix_cons.mp h).1.symm
        exact ⟨fun h => absurd h (hne _), fun h => absurd h (hne _)⟩
      · simp only [dropComments, beq_iff_eq, hc, if_false, Bool.true_or, if_true, Bool.false_or]
        refine ⟨(ih hpart).1, fun h => ?_⟩
        split at h
        · cases (ih hpart).1 h
        · rw [List.cons_prefix_cons] at h ⊢
          exact ⟨h.1, (ih hrest).2 h.2⟩

/-- A part of a text without its comments that is on one line is a part of the text. -/
theorem within_dropComments {part text : List Char} {inComment : Bool} (hpart : '\n' ∉ part)
    (hne : part ≠ []) (h : part <:+: dropComments inComment text) : part <:+: text := by
  induction text generalizing inComment with
  | nil => exact h
  | cons c rest ih =>
    have hlater : part <:+: rest → part <:+: c :: rest :=
      fun hwithin => hwithin.trans (List.suffix_cons c rest).isInfix
    -- At the front the part is there before, for a comment goes to the end of the line.
    by_cases hfront : part <+: dropComments inComment (c :: rest)
    · cases inComment with
      | true => exact absurd ((prefix_of_dropComments hpart).1 hfront) hne
      | false => exact ((prefix_of_dropComments hpart).2 hfront).isInfix
    · rw [dropComments] at h hfront
      split at h
      case isTrue hnewline =>
        rw [if_pos hnewline] at hfront
        exact hlater (ih ((List.infix_cons_iff.mp h).resolve_left hfront))
      case isFalse hnewline =>
        rw [if_neg hnewline] at hfront
        split at h
        case isTrue => exact hlater (ih h)
        case isFalse hplain =>
          rw [if_neg hplain] at hfront
          exact hlater (ih ((List.infix_cons_iff.mp h).resolve_left hfront))

theorem within_of_mem_wordsBy {isGap : Char → Bool} {text word : List Char}
    (h : word ∈ Text.wordsBy isGap text) : word <:+: text := by
  have hgo : ∀ latest, word ∈ Text.wordsBy.go isGap text latest →
      word <:+: latest.reverse ++ text := by
    clear h
    induction text with
    | nil =>
      intro latest h
      rw [Text.wordsBy.go] at h
      split at h
      · cases h
      · rw [List.mem_singleton.mp h, List.append_nil]
    | cons c rest ih =>
      intro latest h
      have hrest : word ∈ Text.wordsBy.go isGap rest [] → word <:+: latest.reverse ++ c :: rest :=
        fun hmem => (ih [] hmem).trans
          ((List.suffix_cons c rest).trans (List.suffix_append _ _)).isInfix
      rw [Text.wordsBy.go] at h
      split at h
      · split at h
        · exact hrest h
        · rcases List.mem_cons.mp h with rfl | hmem
          · exact (List.prefix_append _ _).isInfix
          · exact hrest hmem
      · simpa using ih (c :: latest) h
  exact hgo [] h

theorem within_of_joinWords {part : List Char} {words : List (List Char)} (hpart : ' ' ∉ part)
    (hne : part ≠ []) (h : part <:+: [' '].intercalate words) :
    ∃ word ∈ words, part <:+: word := by
  induction words with
  | nil => exact absurd (List.infix_nil.mp h) hne
  | cons word rest ih =>
    cases rest with
    | nil =>
      rw [List.intercalate_singleton] at h
      exact ⟨word, List.mem_cons_self, h⟩
    | cons next rest =>
      rw [List.intercalate_cons_cons, List.append_assoc, List.singleton_append] at h
      rcases within_or_within hpart h with hword | hlater
      · exact ⟨word, List.mem_cons_self, hword⟩
      · obtain ⟨found, hfound, hwithin⟩ := ih hlater
        exact ⟨found, List.mem_cons_of_mem _ hfound, hwithin⟩

namespace QueryStructure

/-- The words of a section are words of the text. -/
theorem mem_of_sections {words : List (List Char)} :
    (∀ word ∈ (sections words).1, word ∈ words) ∧
      ∀ section_ ∈ (sections words).2, ∀ word ∈ section_.2, word ∈ words := by
  induction words with
  | nil => exact ⟨fun _ h => h, fun _ h => absurd h List.not_mem_nil⟩
  | cons first rest ih =>
    obtain ⟨hbefore, hlater⟩ := ih
    rw [sections]
    dsimp only
    split
    · refine ⟨fun _ h => absurd h List.not_mem_nil, List.forall_mem_cons.mpr ⟨?_, ?_⟩⟩
      · exact fun word hword => List.mem_cons_of_mem _ (hbefore word (List.mem_of_mem_drop hword))
      · exact fun section_ hsection word hword =>
          List.mem_cons_of_mem _ (hlater section_ hsection word hword)
    · refine ⟨fun word hword => ?_, fun section_ hsection word hword =>
        List.mem_cons_of_mem _ (hlater section_ hsection word hword)⟩
      rcases List.mem_cons.mp hword with rfl | hmem
      · exact List.mem_cons_self
      · exact List.mem_cons_of_mem _ (hbefore word hmem)

/-- Words of a text, joined by blanks, are as apart from literals as the text. -/
theorem apart_joinWords {text : List Char} (h : table.Apart text) {words : List (List Char)}
    (hwords : ∀ word ∈ words, word ∈ queryWords text) : table.Apart (joinWords words).toList := by
  refine h.of_telling fun part hpart hwithin => ?_
  have hblank : ' ' ∉ part := hpart.not_mem (by decide) rfl (by decide) (by decide) (by decide)
  have hnewline : '\n' ∉ part := hpart.not_mem (by decide) rfl (by decide) (by decide) (by decide)
  rw [joinWords, String.toList_ofList] at hwithin
  obtain ⟨word, hword, hwithin⟩ := within_of_joinWords hblank hpart.ne_nil hwithin
  exact within_dropComments hnewline hpart.ne_nil
    (hwithin.trans (within_of_mem_wordsBy (hwords word hword)))

/-- The clauses of a text are as apart from literals as the text. -/
theorem apart_of_ofText {text : List Char} {clauses : QueryStructure} (h : table.Apart text)
    (hclauses : ofText text = .ok clauses) : ∀ entry ∈ clauses, table.Apart entry.2.toList := by
  have hsections := (@mem_of_sections (queryWords text)).2
  unfold ofText at hclauses
  generalize sections (queryWords text) = found at hclauses hsections
  obtain ⟨before, later⟩ := found
  split at hclauses
  case h_1 => cases hclauses
  case h_2 => cases hclauses
  case h_3 heq =>
    cases heq
    split at hclauses
    case h_1 => cases hclauses
    case h_2 =>
      dsimp only at hclauses
      split at hclauses
      case isFalse => cases hclauses
      case isTrue =>
        cases hclauses
        intro entry hentry
        obtain ⟨section_, hsection, rfl⟩ := List.mem_map.mp hentry
        exact apart_joinWords h (hsections section_ hsection)

theorem mem_of_nonEmpty? {clauses : QueryStructure} {clause : Clause} {text : String}
    (h : clauses.nonEmpty? clause = some text) : (clause, text) ∈ clauses := by
  obtain ⟨⟨found, _⟩, hfind, rfl⟩ := Option.map_eq_some_iff.mp (Option.filter_eq_some_iff.mp h).1
  obtain rfl : found = clause := by simpa using List.find?_some hfind
  exact List.mem_of_find?_eq_some hfind

end QueryStructure

/-! ### Items -/

theorem prefix_of_trimEnd (p : Char → Bool) (text : List Char) : Text.trimEnd p text <+: text := by
  have h := List.reverse_prefix.mpr (List.dropWhile_suffix (l := text.reverse) p)
  rwa [List.reverse_reverse] at h

theorem trim_within (p : Char → Bool) (text : List Char) : Text.trim p text <:+: text :=
  (prefix_of_trimEnd p _).isInfix.trans (List.dropWhile_suffix p).isInfix

namespace Item

theorem within_of_mem_splitFrom {depth : Int} {quote : Option Char} {latest text item : List Char}
    (h : item ∈ splitFrom depth quote latest text) : item <:+: latest.reverse ++ text := by
  induction text generalizing depth quote latest with
  | nil =>
    rw [splitFrom, List.mem_singleton] at h
    rw [h, List.append_nil]
    exact trim_within _ _
  | cons c rest ih =>
    have hlonger : ∀ {depth quote}, item ∈ splitFrom depth quote (c :: latest) rest →
        item <:+: latest.reverse ++ c :: rest := fun hmem => by simpa using ih hmem
    cases quote with
    | some q => exact hlonger h
    | none =>
      rw [splitFrom] at h
      split at h
      case isFalse => exact hlonger h
      case isTrue =>
        rcases List.mem_cons.mp h with rfl | hmem
        · exact (trim_within _ _).trans (List.prefix_append _ _).isInfix
        · exact (ih hmem).trans ((List.suffix_cons c rest).trans (List.suffix_append _ _)).isInfix

theorem within_of_mem_split {text item : List Char} (h : item ∈ split text) : item <:+: text :=
  within_of_mem_splitFrom h

theorem suffix_of_dropKeyword? {keyword text rest : List Char}
    (h : dropKeyword? keyword text = some rest) : rest <:+ text := by
  unfold dropKeyword? at h
  split at h
  case isFalse => cases h
  case isTrue =>
    split at h
    case h_2 => cases h
    case h_1 c after hafter =>
      split at h
      case isFalse => cases h
      case isTrue =>
        obtain rfl := Option.some.inj h
        refine (List.dropWhile_suffix _).trans ((List.suffix_cons c after).trans ?_)
        exact hafter ▸ List.drop_suffix _ _

theorem prefix_of_splitLastKeyword? {keyword text before found : List Char}
    (h : splitLastKeyword? keyword text = some (before, found)) : before <+: text := by
  unfold splitLastKeyword? at h
  dsimp only at h
  split at h
  case isFalse => cases h
  case isTrue =>
    cases h
    exact (prefix_of_trimEnd _ _).trans (List.take_prefix _ _)

theorem splitAtKeyword?_nil (keyword : List Char) : splitAtKeyword? keyword [] = none := rfl

theorem splitAtKeyword?_cons (keyword : List Char) (c : Char) (rest : List Char) :
    splitAtKeyword? keyword (c :: rest) =
      match if Unicode.isWhitespace c then
          dropKeyword? keyword (rest.dropWhile Unicode.isWhitespace) else none with
      | some after => some ([], after)
      | none => (splitAtKeyword? keyword rest).map fun (before, after) => (c :: before, after) := by
  rfl

theorem prefix_of_splitAtKeyword? {keyword text before after : List Char}
    (h : splitAtKeyword? keyword text = some (before, after)) : before <+: text := by
  induction text generalizing before with
  | nil =>
    rw [splitAtKeyword?_nil] at h
    cases h
  | cons c rest ih =>
    rw [splitAtKeyword?_cons] at h
    split at h
    case h_1 =>
      obtain ⟨rfl, -⟩ := Prod.mk.inj (Option.some.inj h)
      exact List.nil_prefix
    case h_2 =>
      obtain ⟨⟨first, later⟩, hsplit, heq⟩ := Option.map_eq_some_iff.mp h
      cases heq
      exact List.cons_prefix_cons.mpr ⟨rfl, ih hsplit⟩

theorem sameLetters_self (keyword : List Char) : sameLetters keyword keyword = true := by
  induction keyword with
  | nil => rfl
  | cons c rest ih => rw [sameLetters, sameLetter, beq_self_eq_true, ih]; rfl

/-- A keyword between blanks is found. -/
theorem splitAtKeyword?_keyword {keyword rest : List Char}
    (hkeyword : ∀ c ∈ keyword, Unicode.isWhitespace c = false) (hne : keyword ≠ []) :
    splitAtKeyword? keyword (' ' :: (keyword ++ ' ' :: rest)) =
      some ([], rest.dropWhile Unicode.isWhitespace) := by
  obtain ⟨c, tail, rfl⟩ := List.exists_cons_of_ne_nil hne
  have hblank : Unicode.isWhitespace ' ' = true := by decide
  have hfound : dropKeyword? (c :: tail) (c :: tail ++ ' ' :: rest) =
      some (rest.dropWhile Unicode.isWhitespace) := by
    rw [dropKeyword?, List.take_left, List.drop_left, sameLetters_self]
    simp [hblank]
  have hkept : (c :: tail ++ ' ' :: rest).dropWhile Unicode.isWhitespace =
      c :: tail ++ ' ' :: rest :=
    List.dropWhile_cons_of_neg (by simp [hkeyword c List.mem_cons_self])
  rw [splitAtKeyword?_cons, if_pos hblank, hkept, hfound]

/-- A keyword between blanks behind a word is found. -/
theorem splitAtKeyword?_word {keyword front rest : List Char}
    (hfront : ∀ c ∈ front, Unicode.isWhitespace c = false)
    (hkeyword : ∀ c ∈ keyword, Unicode.isWhitespace c = false) (hne : keyword ≠ []) :
    splitAtKeyword? keyword (front ++ ' ' :: (keyword ++ ' ' :: rest)) =
      some (front, rest.dropWhile Unicode.isWhitespace) := by
  induction front with
  | nil => exact splitAtKeyword?_keyword hkeyword hne
  | cons c front ih =>
    obtain ⟨hc, hfront⟩ := List.forall_mem_cons.mp hfront
    have hplain : ¬Unicode.isWhitespace c = true := by simp [hc]
    rw [List.cons_append, splitAtKeyword?_cons, if_neg hplain, ih hfront]
    rfl

end Item

/-- An item that is given a name. -/
theorem Selection.item_named (literals : LiteralTable) {expression given : List Char}
    (hexpression : ∀ c ∈ expression, Unicode.isWhitespace c = false)
    (hstar : (Item.trim expression == ['*']) = false) :
    Selection.item literals (expression ++ ' ' :: (['A', 'S'] ++ ' ' :: given)) =
      .column (String.ofList (literals.restore false
          (Item.trim (given.dropWhile Unicode.isWhitespace))))
        (String.ofList (Shorthand.expand expression)) := by
  have hcut := @Item.splitAtKeyword?_word ['A', 'S'] expression given hexpression (by decide) (by decide)
  simp only [Selection.item, hcut, hstar]
  rfl

/-! ### Expressions -/

/-- The text of an expression is that of tidy fragments. -/
def LiteralTable.Readable (table : LiteralTable) (expression : String) : Prop :=
  ∃ fragments, expression.toList = Fragment.textOf fragments ∧ Fragment.Tidy table fragments

variable (hwhole : ∀ entry ∈ table, Placeholder.isWhole entry.1 = true)

include hwhole in
theorem LiteralTable.Apart.readable {text part : List Char} (h : table.Apart text)
    (hpart : part <:+: text) : table.Readable (String.ofList (Shorthand.expand part)) := by
  obtain ⟨fragments, htext, htidy⟩ := Shorthand.exists_tidy_expand hwhole (h.part hpart)
  exact ⟨fragments, by rw [String.toList_ofList, htext], htidy⟩

namespace Selection

theorem suffix_of_modifier (keyword text : List Char) : (modifier keyword text).2 <:+ text := by
  unfold modifier
  split
  case h_1 hrest => exact Item.suffix_of_dropKeyword? hrest
  case h_2 => exact List.suffix_refl _

include hwhole in
theorem readable_item (literals : LiteralTable) {text : List Char} (h : table.Apart text)
    {expression : String} (hexpression : Plan.itemText? (item literals text) = some expression) :
    table.Readable expression := by
  unfold item at hexpression
  cases hsplit : Item.splitAtKeyword? ['A', 'S'] text with
  | none =>
    simp only [hsplit] at hexpression
    split at hexpression
    · cases hexpression
    · obtain rfl := Option.some.inj hexpression
      exact h.readable hwhole (List.infix_refl _)
  | some parts =>
    obtain ⟨before, given⟩ := parts
    simp only [hsplit] at hexpression
    split at hexpression
    · cases hexpression
    · obtain rfl := Option.some.inj hexpression
      exact h.readable hwhole (Item.prefix_of_splitAtKeyword? hsplit).isInfix

include hwhole in
/-- The expressions of `SELECT` are readable. -/
theorem readable_expressions (literals : LiteralTable) {text : List Char} (h : table.Apart text) :
    ∀ expression ∈ (ofText literals text).items.filterMap Plan.itemText?,
      table.Readable expression := by
  intro expression hexpression
  obtain ⟨found, hfound, hexpression⟩ := List.mem_filterMap.mp hexpression
  obtain ⟨part, hpart, rfl⟩ := List.mem_map.mp hfound
  refine readable_item hwhole literals (h.part ((Item.within_of_mem_split hpart).trans ?_))
    hexpression
  exact ((suffix_of_modifier _ _).trans ((suffix_of_modifier _ _).trans
    (List.dropWhile_suffix _))).isInfix

end Selection

namespace OrderKey

theorem prefix_of_splitNulls (text : List Char) : (splitNulls text).2 <+: text := by
  unfold splitNulls
  dsimp only
  split
  case h_1 => exact List.prefix_refl _
  case h_2 before found hlast =>
    split
    case h_1 => exact List.prefix_refl _
    case h_2 hnulls =>
      refine (Item.prefix_of_splitLastKeyword? hnulls).trans ?_
      rcases Option.or_eq_some_iff.mp hlast with hfirst | ⟨-, hlast⟩
      · exact Item.prefix_of_splitLastKeyword? hfirst
      · exact Item.prefix_of_splitLastKeyword? hlast

theorem prefix_of_splitDirection (text : List Char) : (splitDirection text).2 <+: text := by
  unfold splitDirection
  dsimp only
  split
  case h_1 => exact List.prefix_refl _
  case h_2 hfound =>
    rcases Option.or_eq_some_iff.mp hfound with hdescending | ⟨-, hascending⟩
    · exact Item.prefix_of_splitLastKeyword? hdescending
    · exact Item.prefix_of_splitLastKeyword? hascending

include hwhole in
theorem readable_key {text : List Char} (h : table.Apart text) {key : OrderKey}
    (hkey : ofText text = .ok key) {expression : String}
    (hexpression : Plan.keyText? key = some expression) : table.Readable expression := by
  unfold ofText at hkey
  dsimp only at hkey
  obtain ⟨number, -, hkey⟩ := ok_of_bind hkey
  cases number with
  | some index =>
    cases hkey
    cases hexpression
  | none =>
    cases hkey
    obtain rfl := Option.some.inj hexpression
    exact h.readable hwhole ((prefix_of_splitDirection _).trans
      ((prefix_of_splitNulls _).trans (prefix_of_trimEnd _ _))).isInfix

include hwhole in
/-- The expressions of `ORDER BY` are readable. -/
theorem readable_expressions {text : List Char} (h : table.Apart text) {keys : List OrderKey}
    (hkeys : listOfText text = .ok keys) :
    ∀ expression ∈ keys.filterMap Plan.keyText?, table.Readable expression := by
  intro expression hexpression
  obtain ⟨key, hkey, hexpression⟩ := List.mem_filterMap.mp hexpression
  obtain ⟨item, hitem, hkey⟩ := exists_of_mem_mapM hkeys key hkey
  exact readable_key hwhole (h.part (Item.within_of_mem_split hitem)) hkey hexpression

end OrderKey

namespace Target

/-- The texts of the expressions of a source or a target. -/
def expressions : Target → List String
  | .format call => call.arguments ++ call.options.map (·.2)
  | .expression text => [text]

theorem option?_suffix {text : List Char} {name expression : String}
    (h : option? text = some (name, expression)) :
    ∃ part, part <:+ text ∧ expression = String.ofList (Shorthand.expand part) := by
  unfold option? at h
  dsimp only at h
  split at h
  case h_1 c rest _ htext =>
    split at h
    case isTrue =>
      cases h
      refine ⟨_, (List.suffix_cons '=' _).trans ?_, rfl⟩
      exact htext ▸ (List.dropWhile_suffix _).trans (List.dropWhile_suffix _)
    case isFalse => cases h
  case h_2 => cases h

theorem within_of_callText? {text inner : List Char} (h : callText? text = some inner) :
    inner <:+: text := by
  unfold callText? at h
  split at h
  case h_1 =>
    cases h
    exact List.infix_refl _
  case h_2 rest =>
    split at h
    · cases h
      exact (List.dropLast_prefix rest).isInfix.trans (List.suffix_cons _ rest).isInfix
    · cases h
  case h_3 => cases h

include hwhole in
theorem readable_arguments {text : List Char} (h : table.Apart text) :
    (∀ expression ∈ (splitArguments text).1, table.Readable expression) ∧
      ∀ option ∈ (splitArguments text).2, table.Readable option.2 := by
  unfold splitArguments
  split
  case isTrue => exact ⟨fun _ h => absurd h List.not_mem_nil, fun _ h => absurd h List.not_mem_nil⟩
  case isFalse =>
    refine ⟨fun expression hexpression => ?_, fun option hoption => ?_⟩
    · obtain ⟨part, hpart, rfl⟩ := List.mem_map.mp hexpression
      exact h.readable hwhole (Item.within_of_mem_split (List.mem_of_mem_filter hpart))
    · obtain ⟨part, hpart, hoption⟩ := List.mem_filterMap.mp hoption
      obtain ⟨given, hgiven, hexpression⟩ := option?_suffix hoption
      rw [hexpression]
      exact h.readable hwhole (hgiven.isInfix.trans (Item.within_of_mem_split hpart))

include hwhole in
/-- The expressions of a source or a target are readable. -/
theorem readable_expressions (formats : List String) {text : List Char} (h : table.Apart text) :
    ∀ expression ∈ (ofText formats text).expressions, table.Readable expression := by
  unfold ofText
  dsimp only
  split
  case h_1 inner _ hinner =>
    have hwithin : inner <:+: text := (within_of_callText? hinner).trans
      ((trim_within _ _).trans ((List.dropWhile_suffix _).isInfix.trans (trim_within _ _)))
    obtain ⟨harguments, hoptions⟩ := readable_arguments hwhole (h.part hwithin)
    intro expression hexpression
    rcases List.mem_append.mp hexpression with hmem | hmem
    · exact harguments expression hmem
    · obtain ⟨option, hoption, rfl⟩ := List.mem_map.mp hmem
      exact hoptions option hoption
  case h_2 =>
    intro expression hexpression
    obtain rfl := List.mem_singleton.mp hexpression
    exact h.readable hwhole (trim_within _ _)

end Target

namespace Query

include hwhole in
theorem readable_groupItem {items : List SelectItem}
    (hitems : ∀ expression ∈ items.filterMap Plan.itemText?, table.Readable expression)
    {text : List Char} (h : table.Apart text) {expression : String}
    (hexpression : groupItem items text = .ok expression) : table.Readable expression := by
  unfold groupItem at hexpression
  obtain ⟨number, -, hexpression⟩ := ok_of_bind hexpression
  cases number with
  | none =>
    rw [← Except.ok.inj hexpression]
    exact h.readable hwhole (List.infix_refl _)
  | some index =>
    dsimp only at hexpression
    split at hexpression
    case h_1 => cases hexpression
    case h_2 => cases hexpression
    case h_3 hitem =>
      cases hexpression
      exact hitems _ (List.mem_filterMap.mpr ⟨_, List.mem_of_getElem? hitem, rfl⟩)

include hwhole in
/-- The expressions of `GROUP BY` are readable. -/
theorem readable_groupBy {items : List SelectItem}
    (hitems : ∀ expression ∈ items.filterMap Plan.itemText?, table.Readable expression)
    {text : List Char} (h : table.Apart text) {keys : List String}
    (hkeys : parseGroupBy items text = .ok keys) :
    ∀ expression ∈ keys, table.Readable expression := by
  unfold parseGroupBy at hkeys
  obtain ⟨found, hfound, hkeys⟩ := ok_of_bind hkeys
  obtain ⟨_, -, hkeys⟩ := ok_of_bind hkeys
  cases hkeys
  intro expression hexpression
  obtain ⟨item, hitem, hexpression⟩ := exists_of_mem_mapM hfound expression hexpression
  exact readable_groupItem hwhole hitems (h.part (Item.within_of_mem_split hitem)) hexpression

include hwhole in
/-- The constant that all rows are grouped by holds no placeholder. -/
theorem readable_overallGroup : table.Readable overallGroup := by
  have hshort : ¬ table.Mentions "_OVERALL_".toList :=
    LiteralTable.not_mentions_of_length hwhole (by decide)
  have htidy : Fragment.Tidy table [.quoted ('\'' :: "_OVERALL_".toList ++ ['\''])] :=
    Fragment.tidy_nil.before_sign (.quoted (by decide) hshort) (by simp)
  exact ⟨_, by decide, htidy⟩

/-- The texts of all expressions of a query. -/
def expressions (query : Query) : List String :=
  query.selection.items.filterMap Plan.itemText? ++ query.explode.toList ++
    query.condition.toList ++ query.groupBy ++ query.orderBy.filterMap Plan.keyText? ++
    query.source.toList.flatMap Target.expressions ++ query.target.expressions

theorem yields_semantic {α : Type} {property : α → Prop} {result : Except SemanticFault α}
    (h : ∀ value, result = .ok value → property value) :
    Reporting.Yields property (semantic result) := by
  rintro before value hvalue
  cases result with
  | error fault => cases hvalue
  | ok found => exact h value (congrArg Except.ok (Except.ok.inj hvalue))

theorem yields_optional {α : Type} {property : α → Prop} {text : Option String}
    {read : List Char → Reporting α}
    (h : ∀ given, text = some given → Reporting.Yields property (read given.toList)) :
    Reporting.Yields (fun found => ∀ value ∈ found, property value) (optional text read) := by
  cases text with
  | none => exact Reporting.yields_pure (by simp)
  | some given =>
    simp only [optional, map_eq_pure_bind]
    refine (h given rfl).bind fun value hvalue => Reporting.yields_pure ?_
    rintro found hfound
    obtain rfl := Option.some.inj hfound
    exact hvalue

theorem readable_of_clauses {query : Query}
    (hitems : ∀ expression ∈ query.selection.items.filterMap Plan.itemText?,
      table.Readable expression)
    (hexplode : ∀ expression ∈ query.explode, table.Readable expression)
    (hcondition : ∀ expression ∈ query.condition, table.Readable expression)
    (hgroupBy : ∀ expression ∈ query.groupBy, table.Readable expression)
    (horderBy : ∀ expression ∈ query.orderBy.filterMap Plan.keyText?, table.Readable expression)
    (hsource : ∀ source ∈ query.source, ∀ expression ∈ source.expressions,
      table.Readable expression)
    (htarget : ∀ expression ∈ query.target.expressions, table.Readable expression) :
    ∀ expression ∈ query.expressions, table.Readable expression := by
  intro expression hexpression
  simp only [expressions, List.mem_append, Option.mem_toList, List.mem_flatMap] at hexpression
  rcases hexpression with (((((h | h) | h) | h) | h) | ⟨source, hmem, h⟩) | h
  · exact hitems _ h
  · exact hexplode _ h
  · exact hcondition _ h
  · exact hgroupBy _ h
  · exact horderBy _ h
  · exact hsource _ hmem _ h
  · exact htarget _ h

/-- The last step of reading a query. -/
theorem yields_finish {property : Query → Prop} {query : Query} (h : property query) (fails : Bool)
    (error : Error) :
    Reporting.Yields property
      (if fails = true then (do throw error; pure query) else pure query) := by
  cases fails with
  | true => exact (Reporting.yields_true _).bind fun _ _ => Reporting.yields_pure h
  | false => exact Reporting.yields_pure h

section Clauses

variable {clause : Option String} (hclause : ∀ text ∈ clause, table.Apart text.toList)

include hwhole hclause

theorem readable_explode :
    ∀ expression ∈ clause.map fun text => String.ofList (Shorthand.expand text.toList),
      table.Readable expression := by
  intro expression hexpression
  obtain ⟨text, htext, rfl⟩ := Option.map_eq_some_iff.mp hexpression
  exact (hclause text htext).readable hwhole (List.infix_refl _)

theorem readable_target (defaultTarget : String) :
    ∀ expression ∈ ((clause.map fun text => Target.ofText Target.writable text.toList).getD
      (.format ⟨defaultTarget, [], []⟩)).expressions, table.Readable expression := by
  cases clause with
  | none => exact fun _ hmem => absurd hmem List.not_mem_nil
  | some text =>
    rw [Option.map_some, Option.getD_some]
    exact Target.readable_expressions hwhole _ (hclause text rfl)

theorem yields_source :
    Reporting.Yields
      (fun source => ∀ value ∈ source, ∀ expression ∈ Target.expressions value,
        table.Readable expression)
      (optional clause fun text => do
        semantic (withoutAggregates .source text)
        return Target.ofText Target.readable text) :=
  yields_optional fun text htext => (Reporting.yields_true _).bind fun _ _ =>
    Reporting.yields_pure (Target.readable_expressions hwhole _ (hclause text htext))

theorem yields_condition :
    Reporting.Yields (fun condition => ∀ expression ∈ condition, table.Readable expression)
      (optional clause fun text => do
        semantic (withoutAggregates .condition text)
        return String.ofList (Shorthand.expand text)) :=
  yields_optional fun text htext => (Reporting.yields_true _).bind fun _ _ =>
    Reporting.yields_pure ((hclause text htext).readable hwhole (List.infix_refl _))

theorem yields_orderBy :
    Reporting.Yields
      (fun keys => ∀ expression ∈ (Option.getD keys []).filterMap Plan.keyText?,
        table.Readable expression)
      (optional clause fun text => semantic (OrderKey.listOfText text)) := by
  cases clause with
  | none => exact Reporting.yields_pure fun _ hmem => absurd hmem List.not_mem_nil
  | some text =>
    simp only [optional, map_eq_pure_bind]
    refine (yields_semantic fun _ hkeys => hkeys).bind fun keys hkeys => Reporting.yields_pure ?_
    exact OrderKey.readable_expressions hwhole (hclause text rfl) hkeys

end Clauses

include hwhole in
/-- The expressions of clauses that are apart from literals are readable. -/
theorem yields_ofStructure (policy : WarningPolicy) (defaultTarget : String)
    (rewritten : List Char) (literals : LiteralTable) {clauses : QueryStructure}
    (h : ∀ entry ∈ clauses, table.Apart entry.2.toList) :
    Reporting.Yields
      (fun query => query.literals = literals ∧
        ∀ expression ∈ query.expressions, table.Readable expression)
      (ofStructure policy defaultTarget rewritten literals clauses) := by
  have hclause : ∀ clause, ∀ text ∈ clauses.nonEmpty? clause, table.Apart text.toList :=
    fun clause text htext => h _ (QueryStructure.mem_of_nonEmpty? htext)
  have hselect : table.Apart ((clauses.nonEmpty? .select).getD "").toList := by
    cases hselect : clauses.nonEmpty? .select with
    | none => exact ⟨by simp, by simp, by simp⟩
    | some text => exact hclause _ _ hselect
  have hitems := Selection.readable_expressions hwhole literals hselect
  have hexplode := readable_explode hwhole (hclause .explode)
  have htarget := readable_target hwhole (hclause .target) defaultTarget
  simp only [ofStructure, pure_bind]
  generalize Selection.ofText literals ((clauses.nonEmpty? .select).getD "").toList = selection at *
  refine (Reporting.yields_true _).bind fun imports _ => ?_
  refine (yields_source hwhole (hclause .source)).bind fun source hsource => ?_
  refine (yields_condition hwhole (hclause .condition)).bind fun condition hcondition => ?_
  refine (yields_orderBy hwhole (hclause .orderBy)).bind fun orderBy horderBy => ?_
  split
  case h_1 text htext =>
    refine (yields_semantic fun _ hkeys =>
      readable_groupBy hwhole hitems (hclause _ _ htext) hkeys).bind fun groupBy hgroupBy =>
        yields_finish ?_ _ _
    exact ⟨rfl, readable_of_clauses hitems hexplode hcondition hgroupBy horderBy hsource htarget⟩
  case h_2 =>
    have hoverall : ∀ key ∈ [overallGroup], table.Readable key :=
      List.forall_mem_singleton.mpr (readable_overallGroup hwhole)
    split
    · refine yields_finish ?_ _ _
      exact ⟨rfl, readable_of_clauses hitems hexplode hcondition
        (fun _ hmem => absurd hmem List.not_mem_nil) horderBy hsource htarget⟩
    · split
      · refine (Reporting.yields_true _).bind fun _ _ => yields_finish ?_ _ _
        exact ⟨rfl,
          readable_of_clauses hitems hexplode hcondition hoverall horderBy hsource htarget⟩
      · refine yields_finish ?_ _ _
        exact ⟨rfl,
          readable_of_clauses hitems hexplode hcondition hoverall horderBy hsource htarget⟩

end Query

end StreamQuery
