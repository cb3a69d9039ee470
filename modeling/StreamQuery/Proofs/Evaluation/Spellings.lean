import StreamQuery.Proofs.Evaluation.Assignment
import StreamQuery.Proofs.Expr.MemberPaths

/-!
# The spellings of a column

A column is written by its name, as a member of the row behind a dot, behind `row` and a dot or
behind `row` and an arrow, and by its position. Each spelling takes its own way to the value:
names are bound in the text, the row is an object at run time. All of them read the value of the
column, unless the word that a spelling begins with is the name of a column itself.
-/

namespace StreamQuery

open Fragment Shorthand Lexer ColumnBindings LiteralTable

/-- The ways to write a column. -/
inductive ColumnSpelling where
  | name
  | leadingDot
  | dot
  | arrow
  | position
  deriving DecidableEq

namespace ColumnSpelling

/-- The text of a column with a name and a position. -/
def text (name : List Char) (index : Nat) : ColumnSpelling → List Char
  | .name => name
  | .leadingDot => '.' :: name
  | .dot => "row".toList ++ '.' :: name
  | .arrow => "row".toList ++ '-' :: '>' :: name
  | .position => access index

/-- What a column is parsed to, once the columns are bound. -/
def meaning (bindings : ColumnBindings) (name : String) (index : Nat) : ColumnSpelling → Expr
  | .name => (Expr.variable name).bindColumns bindings
  | .leadingDot | .dot | .arrow => .field ((Expr.variable "row").bindColumns bindings) name
  | .position =>
    Parser.applyIndex ((Expr.variable "_values").bindColumns bindings) (.literal (.ofNat index))

end ColumnSpelling

/-- A text that no pass has anything to expand in stays. -/
theorem Shorthand.expand_eq_self {text : List Char} (hstar : '*' ∉ text)
    (hdots : dotsAttached none (ofText text) = true)
    (hmembers : expandMembers none (ofText text) = text)
    (harrows : expandArrows (ofText text) = text)
    (hfirst : ∀ c ∈ text.head?, Unicode.isWhitespace c = false)
    (hlast : ∀ c ∈ text.getLast?, Unicode.isWhitespace c = false) : expand text = text := by
  rw [expand, expandStars_of_starFree (starFree_of_not_mem hstar),
    expandLeadingDots_of_dotsAttached hdots, textOf_ofText, hmembers, harrows]
  exact Member.trim_eq_self hfirst hlast

/-- Names that words of an expression may be: identifiers, keywords or not. -/
structure Nameable (name : List Char) : Prop where
  starts : startsWith isIdentifierStart name = true
  all : name.all isIdentifierPart = true

namespace Nameable

variable {name : List Char}

theorem ne_nil (h : Nameable name) : name ≠ [] := by
  rintro rfl
  cases h.starts

/-- A name that is made like a placeholder is no keyword. -/
theorem isIdentifier_of_isWhole (h : Nameable name) (hwhole : Placeholder.isWhole name = true) :
    isIdentifier name = true := by
  obtain ⟨letters, -, -, rfl⟩ := Placeholder.isWhole_iff.mp hwhole
  have hupper (text : List Char) :
      Unicode.upperText ('_' :: text) = '_' :: Unicode.upperText text := by
    rw [Unicode.upperText, List.flatMap_cons, show Unicode.upper '_' = ['_'] by decide]
    rfl
  have hkeyword : keyword?
      (String.ofList (Unicode.upperText ('_' :: '_' :: letters ++ ['_', '_']))) = none := by
    rw [List.cons_append, hupper]
    unfold keyword?
    split
    case h_17 => rfl
    -- No keyword begins with an underscore.
    all_goals
      rename_i hspelled
      have hchars := congrArg String.toList hspelled
      rw [String.toList_ofList] at hchars
      cases hchars
  rw [isIdentifier, h.starts, h.all, hkeyword]
  rfl

theorem contents (h : Nameable name) : Literal.Contents '\'' name := by
  have hall := List.all_eq_true.mp h.all
  clear h
  induction name with
  | nil => exact .nil
  | cons c name ih =>
    obtain ⟨hc, hname⟩ := List.forall_mem_cons.mp hall
    exact .plain (ne_of_isNameChar hc (by decide)) (ne_of_isNameChar hc (by decide)) (ih hname)

/-! ### Expanding the spellings -/

theorem expand_name (h : Nameable name) : expand name = name := by
  have hpath := @Member.expand_path [] name h.starts h.all (by simp)
  simpa using hpath

theorem expand_arrow (h : Nameable name) (hfree : Placeholder.isWhole name = false) :
    expand ("row".toList ++ '-' :: '>' :: name) = "row".toList ++ itemAccess name := by
  have hpath := @Member.expand_path [⟨.arrow, name⟩] "row".toList (by decide) (by decide)
    (List.forall_mem_singleton.mpr ⟨h.starts, h.all, hfree⟩)
  simpa [Member.write] using hpath

theorem not_mem (h : Nameable name) {c : Char} (hc : isNameChar c = false) : c ∉ name := by
  intro hmem
  cases hc.symm.trans (List.all_eq_true.mp h.all c hmem)

theorem startsWith_isNameChar (h : Nameable name) : startsWith isNameChar name = true := by
  obtain ⟨c, rest, rfl⟩ := List.exists_cons_of_ne_nil h.ne_nil
  exact isIdentifierPart_of_isIdentifierStart h.starts

theorem takeWhile_eq (h : Nameable name) : name.takeWhile isNameChar = name :=
  List.takeWhile_eq_self_iff.mpr (List.all_eq_true.mp h.all)

theorem dropWhile_eq (h : Nameable name) : name.dropWhile isNameChar = [] :=
  List.dropWhile_eq_nil_iff.mpr (List.all_eq_true.mp h.all)

theorem ofText_eq (h : Nameable name) : ofText name = [.word name] := by
  rw [ofText_frontWord h.startsWith_isNameChar, h.takeWhile_eq, h.dropWhile_eq]
  rfl

/-- A name behind a dot becomes item access, unless it is made like a placeholder. -/
theorem expand_dot (h : Nameable name) :
    expand ("row".toList ++ '.' :: name) =
      "row".toList ++ if Placeholder.isWhole name then '.' :: name else itemAccess name := by
  cases hwhole : Placeholder.isWhole name with
  | false =>
    have hpath := @Member.expand_path [⟨.dot, name⟩] "row".toList (by decide) (by decide)
      (List.forall_mem_singleton.mpr ⟨h.starts, h.all, hwhole⟩)
    simpa [Member.write] using hpath
  | true =>
    have hfragments : ofText ("row".toList ++ '.' :: name) =
        [.word "row".toList, .sign '.', .word name] := by
      rw [Member.ofText_row, h.ofText_eq]
    rw [if_pos rfl]
    refine expand_eq_self ?_ ?_ ?_ ?_ (by simp; decide) fun c hc => ?_
    · exact List.not_mem_append (by decide)
        (List.not_mem_cons_of_ne_of_not_mem (by decide) (h.not_mem (by decide)))
    · rw [hfragments]
      simp [dotsAttached, Fragment.text, show attachesDot 'w' = true by decide]
    · rw [hfragments]
      simp [expandMembers, Fragment.text, hwhole]
    · rw [hfragments]
      simp [expandArrows, Fragment.text]
    · rw [← List.singleton_append, ← List.append_assoc,
        List.getLast?_append_of_ne_nil _ h.ne_nil] at hc
      exact isWhitespace_of_isNameChar (List.all_eq_true.mp h.all c (List.mem_of_getLast? hc))

end Nameable

theorem Shorthand.expand_access (index : Nat) : expand (access index) = access index := by
  obtain ⟨hne, hall⟩ := digitsOf_spec index
  rw [access_eq]
  generalize Number.digitsOf index = digits at hne hall
  have hopen : startsWith isNameChar ('[' :: digits ++ [']']) = false :=
    show isNameChar '[' = false by decide
  have hclose : startsWith isNameChar [']'] = false := by decide
  have hfragments : ofText ("_values".toList ++ ('[' :: digits ++ [']'])) =
      [.word "_values".toList, .sign '[', .word digits, .sign ']'] := by
    rw [ofText_word (by decide) (List.all_eq_true.mp (by decide)) hopen, List.cons_append,
      ofText_sign (by decide) (by decide), ofText_word hne (List.all_eq_true.mp hall) hclose]
    rfl
  have hlast : ("_values".toList ++ ('[' :: digits ++ [']'])).getLast? = some ']' := by
    rw [← List.append_assoc, List.getLast?_concat]
  refine expand_eq_self ?_ ?_ ?_ ?_ (by simp; decide) (by rw [hlast]; simp; decide)
  · refine List.not_mem_append (by decide) (List.not_mem_append ?_ (by decide))
    refine List.not_mem_cons_of_ne_of_not_mem (by decide) fun hmem => ?_
    cases (List.all_eq_true.mp hall _ hmem).symm.trans (show isNameChar '*' = false by decide)
  · rw [hfragments]
    simp [dotsAttached, Fragment.text]
  · rw [hfragments]
    simp [expandMembers, Fragment.text]
  · rw [hfragments]
    simp [expandArrows, Fragment.text]

/-! ### What stands behind a word -/

variable {bindings : ColumnBindings} {literals : LiteralTable} {name tail : List Char}
  {ts : List Token} {index : Nat}

/-- A text that stands behind a word, is the same when columns are bound and literals are put back,
and has its tokens. -/
structure ColumnBindings.Untouched (bindings : ColumnBindings) (literals : LiteralTable)
    (tail : List Char) (ts : List Token) : Prop where
  front : startsWith isNameChar tail = false
  call : opensCall (ofText tail) = false
  bound : bindings.bindAfter false tail = tail
  restored : literals.restore true tail = tail
  tokens : tokens tail = .ok ts

namespace ColumnBindings.Untouched

theorem nil : Untouched bindings literals [] [] :=
  ⟨rfl, rfl, rfl, rfl, tokens_nil rfl⟩

theorem of_itemAccess (h : Nameable name) (hfree : ¬ literals.Mentions name) :
    Untouched bindings literals (itemAccess name) (nameTokens name) := by
  have htext : itemAccess name = '[' :: '\'' :: (name ++ '\'' :: [']']) := by
    simp [itemAccess]
  refine ⟨by rw [htext]; exact (show isNameChar '[' = false by decide),
    by rw [htext, opensCall_cons (by decide)]; decide, ?_, ?_, ?_⟩
  · rw [htext, bindAfter_sign (by decide) (by decide), bindAfter_quoted (by decide) h.contents,
      bindAfter_sign (by decide) (by decide), bindAfter_nil]
  · have hquote : startsWith isNameChar ('\'' :: [']']) = false := by decide
    rw [htext, restore_sign (by decide), restore_sign (by decide), restore_word hfree hquote,
      restore_sign (by decide), restore_sign (by decide)]
    rfl
  · have htokens := tokens_itemAccess h.all (@tokens_nil [] rfl)
    rwa [List.append_nil, List.append_nil] at htokens

theorem of_dot (h : Nameable name) (hwhole : Placeholder.isWhole name = true)
    (hfree : ¬ literals.Mentions name) :
    Untouched bindings literals ('.' :: name) [.symbol .dot, .identifier (String.ofList name)] := by
  refine ⟨show isNameChar '.' = false by decide, by rw [opensCall_cons (by decide)]; decide,
    ?_, ?_, ?_⟩
  · rw [bindAfter_sign (by decide) (by decide), show ('.' == '.') = true from rfl, bindAfter_true,
      h.takeWhile_eq, h.dropWhile_eq, bindAfter_nil, List.append_nil]
  · have hword := @restore_word literals [] name hfree rfl
    rw [List.append_nil] at hword
    rw [restore_sign (by decide), hword]
    simp [restore, restoreFrom]
  · have hname :=
      @tokens_identifier name (h.isIdentifier_of_isWhole hwhole) [] rfl [] (@tokens_nil [] rfl)
    rw [List.append_nil] at hname
    have hnumber : startsNumber '.' name = false := by
      obtain ⟨letters, -, -, rfl⟩ := Placeholder.isWhole_iff.mp hwhole
      rfl
    exact tokens_cons (by decide) (scanToken_sign hnumber rfl) hname

theorem of_index (hindex : index < 0x8000000000000000)
    (hwhole : ∀ entry ∈ literals, Placeholder.isWhole entry.1 = true)
    (hdigits : lookup? (String.ofList (Number.digitsOf index)) bindings = none) :
    Untouched bindings literals ('[' :: (Number.digitsOf index ++ [']']))
      [.symbol .leftBracket, .integer index, .symbol .rightBracket] := by
  obtain ⟨hne, hall⟩ := digitsOf_spec index
  have hclose : startsWith isNameChar [']'] = false := by decide
  have hshort := not_mentions_digitsOf hwhole index
  refine ⟨show isNameChar '[' = false by decide, by rw [opensCall_cons (by decide)]; decide,
    ?_, ?_, ?_⟩
  · rw [bindAfter_sign (by decide) (by decide), show ('[' == '.') = false from rfl,
      bindAfter_word hne (List.all_eq_true.mp hall) hclose, hdigits,
      bindAfter_sign (by decide) (by decide), bindAfter_nil]
  · rw [restore_sign (by decide), restore_word hshort hclose, restore_sign (by decide)]
    rfl
  · exact tokens_index hindex (tokens_nil rfl)

/-- A word is bound, or stays, and what stands behind it is a part of either. -/
theorem parse_word (h : Untouched bindings literals tail ts)
    (access : Parser.Derivation .suffixes ts) {word : List Char} (hword : Nameable word)
    (hkept : lookup? (String.ofList word) bindings = none → isIdentifier word = true)
    (hpositions : ∀ index ∈ lookup? (String.ofList word) bindings, index < 0x8000000000000000)
    (hwhole : ∀ entry ∈ literals, Placeholder.isWhole entry.1 = true)
    (hfree : ¬ literals.Mentions word) :
    Expr.parse (bindings.prepare literals (String.ofList (word ++ tail))) =
      .ok (access.value ((Expr.variable (String.ofList word)).bindColumns bindings)) := by
  have hbound := @bindAfter_word bindings false tail word hword.ne_nil
    (List.all_eq_true.mp hword.all) h.front
  rw [h.call, h.bound] at hbound
  rw [prepare, String.toList_ofList, bind_eq, hbound]
  cases hlookup : lookup? (String.ofList word) bindings with
  | none =>
    rw [Expr.bindColumns_unbound hlookup, restore_word hfree h.front, h.restored]
    exact Parser.parse_of_postfixed (.postfixed (.name _) access)
      (tokens_identifier (hkept hlookup) h.front h.tokens)
  | some index =>
    obtain ⟨number, hnumber⟩ := Parser.exists_integer index
    have hindex := hpositions index hlookup
    have hparse := Parser.parse_of_postfixed
      (.postfixed (.name "_values") (.suffixes (.index number) access))
      (tokens_access hindex h.tokens)
    simp only [Parser.Derivation.value, hnumber, Parser.applyIndex_values hindex] at hparse
    rw [Expr.bindColumns_bound hlookup, ← hparse]
    dsimp only
    rw [Bool.or_self, if_neg Bool.false_ne_true, restore_access hwhole, h.restored]

end ColumnBindings.Untouched

namespace ColumnSpelling

theorem nameable_row : Nameable "row".toList := ⟨by decide, by decide⟩

theorem nameable_values : Nameable "_values".toList := ⟨by decide, by decide⟩

/-- A member of the row in brackets. -/
theorem parse_brackets (hname : Nameable name)
    (hpositions : ∀ word, ∀ index ∈ lookup? word bindings, index < 0x8000000000000000)
    (hwhole : ∀ entry ∈ literals, Placeholder.isWhole entry.1 = true)
    (hfree : ¬ literals.Mentions name) :
    Expr.parse (bindings.prepare literals (String.ofList ("row".toList ++ itemAccess name))) =
      .ok (.field ((Expr.variable "row").bindColumns bindings) (String.ofList name)) := by
  obtain ⟨member, hmember⟩ := Parser.exists_named name
  have hparse := (Untouched.of_itemAccess hname hfree).parse_word (.suffixes member .noSuffix)
    nameable_row (fun _ => by decide) (hpositions _) hwhole
    (not_mentions_of_length hwhole (by decide))
  simp only [Parser.Derivation.value, hmember] at hparse
  exact hparse

/-- A member of the row behind a dot, expanded or not. -/
theorem parse_dot (hname : Nameable name)
    (hpositions : ∀ word, ∀ index ∈ lookup? word bindings, index < 0x8000000000000000)
    (hwhole : ∀ entry ∈ literals, Placeholder.isWhole entry.1 = true)
    (hfree : ¬ literals.Mentions name) :
    Expr.parse (bindings.prepare literals
      (String.ofList (expand ("row".toList ++ '.' :: name)))) =
        .ok (.field ((Expr.variable "row").bindColumns bindings) (String.ofList name)) := by
  rw [hname.expand_dot]
  cases hshape : Placeholder.isWhole name with
  | false => exact parse_brackets hname hpositions hwhole hfree
  | true =>
    have hparse := (Untouched.of_dot hname hshape hfree).parse_word
      (.suffixes (.field (String.ofList name) rfl) .noSuffix) nameable_row
      (fun _ => by decide) (hpositions _) hwhole (not_mentions_of_length hwhole (by decide))
    simp only [Parser.Derivation.value] at hparse
    exact hparse

/-- Each spelling of a column is parsed to what it means, once the columns are bound: also where the
word that it begins with is bound. -/
theorem parse_spelling (spelling : ColumnSpelling) (hname : Nameable name)
    (hfound : lookup? (String.ofList name) bindings = some index)
    (hpositions : ∀ word, ∀ index ∈ lookup? word bindings, index < 0x8000000000000000)
    (hdigits : lookup? (String.ofList (Number.digitsOf index)) bindings = none)
    (hwhole : ∀ entry ∈ literals, Placeholder.isWhole entry.1 = true)
    (hfree : ¬ literals.Mentions name)
    (harrow : spelling = .arrow → Placeholder.isWhole name = false) :
    Expr.parse (bindings.prepare literals (String.ofList (expand (spelling.text name index)))) =
      .ok (spelling.meaning bindings (String.ofList name) index) := by
  cases spelling with
  | name =>
    have hkept : lookup? (String.ofList name) bindings = none → isIdentifier name = true := by
      rw [hfound]
      simp
    have hparse := Untouched.nil.parse_word .noSuffix hname hkept (hpositions _) hwhole hfree
    rw [List.append_nil] at hparse
    rw [text, hname.expand_name, hparse]
    rfl
  | leadingDot =>
    rw [text, Member.expand_leadingDot hname.starts (hname.not_mem (by decide))]
    exact parse_dot hname hpositions hwhole hfree
  | dot => exact parse_dot hname hpositions hwhole hfree
  | arrow =>
    rw [text, hname.expand_arrow (harrow rfl)]
    exact parse_brackets hname hpositions hwhole hfree
  | position =>
    obtain ⟨number, hnumber⟩ := Parser.exists_integer index
    have hparse := (Untouched.of_index (hpositions _ index hfound) hwhole hdigits).parse_word
      (.suffixes (.index number) .noSuffix) nameable_values (fun _ => by decide) (hpositions _)
      hwhole (not_mentions_of_length hwhole (by decide))
    simp only [Parser.Derivation.value, hnumber] at hparse
    rw [text, expand_access, access_eq]
    exact hparse

end ColumnSpelling

/-! ### Columns of a header -/

namespace ColumnBindings

variable {count : Nat} {declared : List String} {key : String}

theorem ofDeclared_eq (count : Nat) (declared : List String) :
    ofDeclared count declared = insertEntries []
      ((List.range count).map (fun index => (defaultColumnName index, index)) ++
        (declared.take count).zip (List.range' 0 (declared.take count).length)) := by
  rw [ofDeclared, insertEntries, insertEntries, insertEntries, List.foldl_append,
    ← List.zipIdx_eq_zip_range']
  simp

/-- A word that is bound is a default name or a declared one, and its column is there. -/
theorem lookup?_ofDeclared_cases (h : lookup? key (ofDeclared count declared) = some index) :
    index < count ∧ (key = defaultColumnName index ∨ declared[index]? = some key) := by
  rw [ofDeclared_eq, lookup?_insertEntries, Option.map_eq_some_iff] at h
  obtain ⟨⟨found, position⟩, hlast, rfl⟩ := h
  obtain ⟨hmem, hkey⟩ := List.mem_filter.mp (List.mem_of_getLast? hlast)
  obtain rfl : found = key := by simpa using hkey
  rcases List.mem_append.mp hmem with hdefault | hdeclared
  · obtain ⟨other, hother, heq⟩ := List.mem_map.mp hdefault
    obtain ⟨rfl, rfl⟩ := Prod.mk.inj heq
    exact ⟨List.mem_range.mp hother, .inl rfl⟩
  · rw [← List.zipIdx_eq_zip_range', List.mem_zipIdx_iff_getElem?] at hdeclared
    rw [List.getElem?_take] at hdeclared
    split at hdeclared
    · next hcount => exact ⟨hcount, .inr hdeclared⟩
    · cases hdeclared

theorem findIdx?_of_nodup (hdistinct : declared.Nodup) (h : declared[index]? = some key) :
    declared.findIdx? (· == key) = some index := by
  obtain ⟨hindex, rfl⟩ := List.getElem?_eq_some_iff.mp h
  refine List.findIdx?_eq_some_iff_getElem.mpr ⟨hindex, by simp, fun other hother => ?_⟩
  intro heq
  have hsame := (hdistinct.getElem_inj_iff).mp (eq_of_beq heq)
  omega

theorem count_take_of_nodup (hdistinct : declared.Nodup) (count : Nat) (key : String) :
    (declared.take count).count key ≤ 1 :=
  List.nodup_iff_count_le_one.mp (hdistinct.sublist (List.take_sublist count declared)) key

/-- A declared name stands for its column. -/
theorem lookup?_ofDeclared (hdistinct : declared.Nodup) (hindex : index < count)
    (h : declared[index]? = some key) : lookup? key (ofDeclared count declared) = some index := by
  have htake : (declared.take count)[index]? = some key := by
    rw [List.getElem?_take_of_lt hindex, h]
  have hlength : index < (declared.take count).length := (List.getElem?_eq_some_iff.mp htake).1
  have htaken : (declared.take count).Nodup := hdistinct.sublist (List.take_sublist count declared)
  have hposition : (List.range' 0 (declared.take count).length)[index]? = some index := by
    rw [List.getElem?_range' hlength, Nat.zero_add, Nat.one_mul]
  have hnamed := Assignment.filter_zip_of_findIdx? (findIdx?_of_nodup htaken htake)
    (count_take_of_nodup htaken _ key) hposition
  rw [ofDeclared_eq, lookup?_insertEntries, List.filter_append, hnamed, List.getLast?_concat]
  rfl

/-- What begins with no `c` is no default name. -/
theorem ne_defaultColumnName (h : key.toList.head? ≠ some 'c') (index : Nat) :
    key ≠ defaultColumnName index := by
  rintro rfl
  rw [defaultColumnName, String.toList_append] at h
  exact h rfl

theorem lookup?_ofDeclared_eq_none (hdefault : key.toList.head? ≠ some 'c')
    (h : key ∉ declared) : lookup? key (ofDeclared count declared) = none := by
  refine Option.eq_none_iff_forall_ne_some.mpr fun index hlookup => ?_
  rcases (lookup?_ofDeclared_cases hlookup).2 with heq | hdeclared
  · exact ne_defaultColumnName hdefault index heq
  · exact h (List.mem_of_getElem? hdeclared)

/-- A number is no name of a column. -/
theorem lookup?_digitsOf (hnames : ∀ name ∈ declared, Nameable name.toList) (n : Nat) :
    lookup? (String.ofList (Number.digitsOf n)) (ofDeclared count declared) = none := by
  obtain ⟨c, digits, hdigits⟩ := List.exists_cons_of_ne_nil (digitsOf_spec n).1
  have hc : c.isDigit = true := Nat.isDigit_of_mem_toDigits (by decide) (Nat.le_refl 10)
    (show c ∈ Number.digitsOf n from hdigits ▸ List.mem_cons_self)
  refine lookup?_ofDeclared_eq_none ?_ fun hmem => ?_
  · rw [String.toList_ofList, hdigits]
    rintro heq
    obtain rfl := Option.some.inj heq
    revert hc
    decide
  · have hstarts := (hnames _ hmem).starts
    rw [String.toList_ofList, hdigits] at hstarts
    cases hstarts.symm.trans (isIdentifierStart_of_isDigit hc)

end ColumnBindings

/-! ### Reading a column -/

/-- A text that calls no aggregate for some rows only is compiled without warnings. -/
theorem Expr.compile_eq_pure {text : String} {e : Expr} (h : parse text = .ok e)
    (hquiet : e.conditionalAggregates = []) (policy : WarningPolicy) :
    compile policy text = pure e := by
  rw [compile, h]
  dsimp only
  rw [hquiet]
  rfl

namespace ColumnSpelling

/-- The word that a spelling begins with is no column, and the name behind an arrow is not made like
a placeholder. -/
def Uncaptured (names : List String) (name : String) : ColumnSpelling → Prop
  | .name => True
  | .leadingDot | .dot => "row" ∉ names
  | .arrow => "row" ∉ names ∧ Placeholder.isWhole name.toList = false
  | .position => "_values" ∉ names

/-- A spelling that is not captured means the column itself or a member of the row. -/
theorem meaning_cases (spelling : ColumnSpelling) {count : Nat} {names : List String}
    {name : String}
    (hfound : lookup? name (ofDeclared count names) = some index)
    (hindex : index < 0x8000000000000000) (h : spelling.Uncaptured names name) :
    spelling.meaning (ofDeclared count names) name index = .column index ∨
      spelling.meaning (ofDeclared count names) name index = .field (.variable "row") name := by
  have hunbound (word : String) (hdefault : word.toList.head? ≠ some 'c') (hword : word ∉ names) :
      (Expr.variable word).bindColumns (ofDeclared count names) = .variable word :=
    Expr.bindColumns_unbound (lookup?_ofDeclared_eq_none hdefault hword)
  have hrow (hword : "row" ∉ names) : Expr.field
      ((Expr.variable "row").bindColumns (ofDeclared count names)) name =
        .field (.variable "row") name := by
    rw [hunbound "row" (by decide) hword]
  cases spelling with
  | name => exact .inl (Expr.bindColumns_bound hfound)
  | leadingDot => exact .inr (hrow h)
  | dot => exact .inr (hrow h)
  | arrow => exact .inr (hrow h.1)
  | position =>
    left
    rw [meaning, hunbound "_values" (by decide) h, Parser.applyIndex_values hindex]

end ColumnSpelling

theorem Scope.evaluate_column {scope : Scope} {index : Nat} {value : Value}
    (h : scope.values[index]? = some value) : scope.evaluate (.column index) = pure value := by
  rw [Scope.evaluate, Scope.evaluateWith, h]
  rfl

/-- A member of the row is the value of its column. -/
theorem Scope.evaluate_member {scope : Scope} (hdistinct : scope.names.Nodup)
    (hrow : ∀ entries, scope.values ≠ [.object entries])
    (himport : lookup? "row" scope.session.imports = none) {name : String} {index : Nat}
    {value : Value} (hindex : scope.names[index]? = some name)
    (hvalue : scope.values[index]? = some value) :
    scope.evaluate (.field (.variable "row") name) = pure value := by
  have hmodule : scope.session.module? "row" = none := by
    rw [Session.module?, himport]
    split <;> rfl
  have hcollapses : Assignment.collapses scope.values = false := by
    unfold Assignment.collapses
    split
    · next only hvalues =>
      cases only with
      | object entries => exact absurd hvalues (hrow entries)
      | _ => rfl
    · rfl
  have hitem := Assignment.item_rowObject scope.values hcollapses
    (findIdx?_of_nodup hdistinct hindex) (count_take_of_nodup hdistinct _ name) hvalue
  simp only [Scope.evaluate, Scope.evaluateWith, Scope.moduleOf?, hmodule, Scope.resolve]
  exact congrArg Stateful.ofResult hitem

/-- All spellings of a column read its value, on every row with as many values as the header has
names and whatever variables there are: where the word that a spelling begins with is no column, no
module is imported as `row`, and the name behind an arrow is not made like a placeholder. -/
theorem columns_read_alike (spelling : ColumnSpelling) (policy : WarningPolicy) {scope : Scope}
    (hnames : ∀ name ∈ scope.names, Nameable name.toList) (hdistinct : scope.names.Nodup)
    (hlength : scope.values.length = scope.names.length)
    (hsize : scope.values.length ≤ 0x8000000000000000)
    (hrow : ∀ entries, scope.values ≠ [.object entries])
    (himport : lookup? "row" scope.session.imports = none) {literals : LiteralTable}
    (hwhole : ∀ entry ∈ literals, Placeholder.isWhole entry.1 = true) {name : String} {index : Nat}
    (hindex : scope.names[index]? = some name) (hfree : ¬ literals.Mentions name.toList)
    (huncaptured : spelling.Uncaptured scope.names name) :
    ∃ e value, scope.values[index]? = some value ∧
      Expr.compile policy ((ColumnBindings.ofDeclared scope.values.length scope.names).prepare
        literals (String.ofList (expand (spelling.text name.toList index)))) = pure e ∧
      scope.evaluate e = pure value := by
  have hcount : index < scope.values.length :=
    hlength ▸ (List.getElem?_eq_some_iff.mp hindex).1
  have hvalue : scope.values[index]? = some scope.values[index] := List.getElem?_eq_getElem hcount
  have hname := hnames name (List.mem_of_getElem? hindex)
  have hfound := lookup?_ofDeclared hdistinct hcount hindex
  have hpositions (word : String) : ∀ position ∈ lookup? word
      (ColumnBindings.ofDeclared scope.values.length scope.names),
      position < 0x8000000000000000 := fun position hposition =>
    Nat.lt_of_lt_of_le (lookup?_ofDeclared_cases hposition).1 hsize
  have hparse := spelling.parse_spelling hname (by rwa [String.ofList_toList]) hpositions
    (lookup?_digitsOf hnames index) hwhole hfree (by rintro rfl; exact huncaptured.2)
  rw [String.ofList_toList] at hparse
  rcases spelling.meaning_cases hfound (hpositions name index hfound) huncaptured with
    hmeans | hmeans
  · rw [hmeans] at hparse
    exact ⟨_, _, hvalue, Expr.compile_eq_pure hparse rfl policy, Scope.evaluate_column hvalue⟩
  · rw [hmeans] at hparse
    exact ⟨_, _, hvalue, Expr.compile_eq_pure hparse rfl policy,
      Scope.evaluate_member hdistinct hrow himport hindex hvalue⟩

/-- A row with a column that is named like a keyword, and a variable that is named like the row. -/
def Scope.keywordRow : Scope where
  session := { vars := [("row", .null)] }
  names := ["End", "b"]
  values := [.ofNat 7, .null]

/-- A keyword is read as a column behind a dot, whatever the variable `row` is. -/
theorem columns_read_alike_of_keyword :
    ∃ e value, Scope.keywordRow.values[0]? = some value ∧
      Expr.compile .fail ((ColumnBindings.ofDeclared 2 ["End", "b"]).prepare
        [("__aaaaaaaaaaaa__".toList, ⟨'\'', ['b']⟩)] (String.ofList (expand ".End".toList))) =
          pure e ∧
      Scope.keywordRow.evaluate e = pure value := by
  have hnames : ∀ name ∈ ["End", "b"], Nameable name.toList :=
    List.forall_mem_cons.mpr ⟨⟨by decide, by decide⟩,
      List.forall_mem_singleton.mpr ⟨by decide, by decide⟩⟩
  have hobject (entries : List (String × Value)) : [.ofNat 7, .null] ≠ [Value.object entries] := by
    simp
  have hwhole : ∀ entry ∈ [("__aaaaaaaaaaaa__".toList, Literal.mk '\'' ['b'])],
      Placeholder.isWhole entry.1 = true := by
    decide
  have hfree : ¬ LiteralTable.Mentions [("__aaaaaaaaaaaa__".toList, ⟨'\'', ['b']⟩)] "End".toList :=
    LiteralTable.not_mentions_of_length hwhole (by decide)
  have hrow : "row" ∉ ["End", "b"] := by decide
  exact @columns_read_alike .leadingDot .fail Scope.keywordRow hnames (by decide) rfl (by decide)
    hobject rfl _ hwhole "End" 0 rfl hfree hrow

namespace ColumnSpelling

/-- A spelling does not read the value of a column. -/
def Misreads (spelling : ColumnSpelling) (names : List String) (values : List Value)
    (index : Nat) : Prop :=
  (∀ name ∈ names, Nameable name.toList) ∧ names.Nodup ∧ values.length = names.length ∧
    ∃ name value e, names[index]? = some name ∧ values[index]? = some value ∧
      Expr.compile .report ((ColumnBindings.ofDeclared values.length names).prepare []
        (String.ofList (expand (spelling.text name.toList index)))) = pure e ∧
      Scope.evaluate { names, values } e ≠ pure value

/-- It is enough that the value of what is parsed is another one. -/
theorem Misreads.of_parse {spelling : ColumnSpelling} {names : List String} {values : List Value}
    {index : Nat} {name prepared : String} {value : Value} {e : Expr}
    {result : Except Error Value} (hnames : ∀ name ∈ names, Nameable name.toList)
    (hdistinct : names.Nodup) (hlength : values.length = names.length)
    (hindex : names[index]? = some name) (hvalue : values[index]? = some value)
    (hprepared : (ColumnBindings.ofDeclared values.length names).prepare []
      (String.ofList (expand (spelling.text name.toList index))) = prepared)
    (hparse : Expr.parse prepared = .ok e) (hquiet : e.conditionalAggregates = [])
    (hresult : ((Scope.evaluate { names, values } e).start {}).1 = result)
    (hother : result ≠ .ok value) : spelling.Misreads names values index := by
  refine ⟨hnames, hdistinct, hlength, name, value, e, hindex, hvalue, ?_, fun hsame => hother ?_⟩
  · rw [hprepared]
    exact Expr.compile_eq_pure hparse hquiet .report
  · rw [← hresult, hsame]
    rfl

end ColumnSpelling

/-- A column with the name of the row captures the word that stands for the dot in front of another
column, one with the name of the values captures the word in front of a position, and a name behind
an arrow that is made like a placeholder is taken for one. -/
theorem columns_not_read_alike :
    ColumnSpelling.leadingDot.Misreads ["row", "a"] [.ofNat 1, .ofNat 2] 1 ∧
    ColumnSpelling.position.Misreads ["_values", "a"]
      [.list [.ofNat 3, .ofNat 4], .ofNat 2] 1 ∧
    ColumnSpelling.arrow.Misreads ["__abcdefghijkl__", "a"] [.ofNat 1, .ofNat 2] 0 := by
  have hnames {first : String} (hfirst : Nameable first.toList) :
      ∀ name ∈ [first, "a"], Nameable name.toList :=
    List.forall_mem_cons.mpr ⟨hfirst, List.forall_mem_singleton.mpr ⟨by decide, by decide⟩⟩
  refine ⟨?_, ?_, ?_⟩
  · have hprepared : (ColumnBindings.ofDeclared 2 ["row", "a"]).prepare []
        (String.ofList (expand ".a".toList)) = "_values[0]['a']" := by decide
    have hparse : Expr.parse "_values[0]['a']" = .ok (.field (.column 0) "a") := by cbv
    exact .of_parse (hnames ⟨by decide, by decide⟩) (by decide) rfl rfl rfl hprepared
      hparse rfl rfl (by cbv; simp)
  · have hprepared : (ColumnBindings.ofDeclared 2 ["_values", "a"]).prepare []
        (String.ofList (expand "_values[1]".toList)) = "_values[0][1]" := by decide
    have hparse : Expr.parse "_values[0][1]" = .ok (.item (.column 0) (.literal (.ofNat 1))) := by
      cbv
    exact .of_parse (hnames ⟨by decide, by decide⟩) (by decide) rfl rfl rfl hprepared
      hparse rfl rfl (by cbv; simp)
  · have hprepared : (ColumnBindings.ofDeclared 2 ["__abcdefghijkl__", "a"]).prepare []
        (String.ofList (expand "row->__abcdefghijkl__".toList)) = "row[_values[0]]" := by decide
    have hparse : Expr.parse "row[_values[0]]" = .ok (.item (.variable "row") (.column 0)) := by cbv
    exact .of_parse (hnames ⟨by decide, by decide⟩) (by decide) rfl rfl rfl hprepared
      hparse rfl rfl (by cbv; simp)

end StreamQuery
