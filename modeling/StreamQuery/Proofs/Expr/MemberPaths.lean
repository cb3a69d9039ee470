import StreamQuery.Proofs.Query.Members

/-!
# Paths of members

A member of a value is written behind a dot, behind an arrow, or in quotes between brackets.
Expanding shorthand takes each of them to the brackets, so that paths with the same names mean the
same fields, however each member is written; a dot in front of all is a member of the row.
-/

namespace StreamQuery

open Fragment Shorthand Lexer ColumnBindings

/-! ### Members -/

/-- The ways to write a member of a value. -/
inductive Access where
  | dot
  | arrow
  | brackets
  deriving DecidableEq

/-- A member of a value, as it is written. -/
structure Member where
  access : Access
  name : List Char

namespace Member

/-- The text of a member. -/
def write : Member → List Char
  | ⟨.dot, name⟩ => '.' :: name
  | ⟨.arrow, name⟩ => '-' :: '>' :: name
  | ⟨.brackets, name⟩ => '[' :: '\'' :: name ++ ['\'', ']']

/-- The fragments of a member. -/
def fragments : Member → List Fragment
  | ⟨.dot, name⟩ => [.sign '.', .word name]
  | ⟨.arrow, name⟩ => [.sign '-', .sign '>', .word name]
  | ⟨.brackets, name⟩ => [.sign '[', .quoted ('\'' :: name ++ ['\'']), .sign ']']

/-- A member with brackets in the place of a dot. -/
def expandDot : Member → Member
  | ⟨.dot, name⟩ => ⟨.brackets, name⟩
  | member => member

/-- A member with brackets in the place of an arrow. -/
def expandArrow : Member → Member
  | ⟨.arrow, name⟩ => ⟨.brackets, name⟩
  | member => member

/-- A member has an identifier for its name, keyword or not, that is not made like the placeholder
of a literal. -/
structure Named (member : Member) : Prop where
  starts : startsWith isIdentifierStart member.name = true
  all : member.name.all isIdentifierPart = true
  free : Placeholder.isWhole member.name = false

variable {member : Member} {path : List Member}

theorem textOf_fragments (path : List Member) :
    textOf (path.flatMap fragments) = path.flatMap write := by
  induction path with
  | nil => rfl
  | cons member path ih =>
    obtain ⟨access, name⟩ := member
    rw [List.flatMap_cons, textOf_append, ih, List.flatMap_cons]
    cases access <;> simp [fragments, write, text]

/-- With its dots and its arrows expanded, a path is written in brackets. -/
theorem write_expanded (path : List Member) :
    (path.map fun member => member.expandDot.expandArrow).flatMap write =
      (path.map name).flatMap itemAccess := by
  rw [List.flatMap_map, List.flatMap_map]
  congr 1
  funext ⟨access, name⟩
  cases access <;> simp [expandDot, expandArrow, write, itemAccess]

theorem Named.expandDot (h : member.Named) : member.expandDot.Named := by
  obtain ⟨access, name⟩ := member
  cases access <;> exact ⟨h.starts, h.all, h.free⟩

theorem Named.expandArrow (h : member.Named) : member.expandArrow.Named := by
  obtain ⟨access, name⟩ := member
  cases access <;> exact ⟨h.starts, h.all, h.free⟩

theorem Named.ne_nil (h : member.Named) : member.name ≠ [] := by
  intro hnil
  have hstarts := h.starts
  rw [hnil] at hstarts
  cases hstarts

/-! ### Fragments of a path -/

/-- Every member begins with a sign. -/
theorem isSign_head? (path : List Member) :
    ∀ next ∈ (path.flatMap fragments).head?, next.isSign = true := by
  cases path with
  | nil => simp
  | cons member path =>
    obtain ⟨access, name⟩ := member
    cases access <;> simp [fragments, isSign]

/-- No member opens the arguments of a call. -/
theorem opensCall_eq (path : List Member) : opensCall (path.flatMap fragments) = false := by
  have hblank : Unicode.isWhitespace '.' = false ∧ Unicode.isWhitespace '-' = false ∧
      Unicode.isWhitespace '[' = false := by decide
  cases path with
  | nil => rfl
  | cons member path =>
    obtain ⟨access, name⟩ := member
    cases access <;> simp [fragments, opensCall, isBlank, hblank]

theorem tidy_word {word : List Char} (hne : word ≠ []) (hword : word.all isNameChar = true)
    {path : List Member} (h : Tidy [] (path.flatMap fragments)) :
    Tidy [] (.word word :: path.flatMap fragments) :=
  h.before_sign (.word hne hword) (isSign_head? path)

theorem tidy_fragments (h : ∀ member ∈ path, member.Named) :
    Tidy [] (path.flatMap fragments) := by
  induction path with
  | nil => exact tidy_nil
  | cons member path ih =>
    obtain ⟨hmember, hpath⟩ := List.forall_mem_cons.mp h
    obtain ⟨access, name⟩ := member
    have hword := tidy_word hmember.ne_nil hmember.all (ih hpath)
    have hquoted : Fragment.Whole [] (.quoted ('\'' :: name ++ ['\''])) := by
      refine .quoted hmember.all ?_
      rintro ⟨entry, hentry, -⟩
      cases hentry
    cases access with
    | dot => exact hword.sign (by decide) (by decide)
    | arrow => exact (hword.sign (by decide) (by decide)).sign (by decide) (by decide)
    | brackets =>
      have hclose : Tidy [] (.sign ']' :: path.flatMap fragments) :=
        (ih hpath).sign (by decide) (by decide)
      exact (hclose.before_sign_cons hquoted).sign (by decide) (by decide)

/-- A word and the path behind it are read to their fragments. -/
theorem ofText_path {word : List Char} (hne : word ≠ []) (hword : word.all isNameChar = true)
    (h : ∀ member ∈ path, member.Named) :
    ofText (word ++ path.flatMap write) = .word word :: path.flatMap fragments := by
  rw [← ofText_textOf (tidy_word hne hword (tidy_fragments h)), textOf_cons, textOf_fragments]
  rfl

/-- A dot may stand behind a word. -/
theorem attaches_word {word : List Char} (hne : word ≠ []) (hword : word.all isNameChar = true)
    (previous : Option Char) : (word.getLast?.or previous).any attachesDot = true := by
  obtain ⟨c, hc, hlast⟩ := getLast?_or hne previous
  have hname : isNameChar c = true := List.all_eq_true.mp hword c hc
  simp [hlast, attachesDot, hname]

/-- In a path every dot stands behind a value. -/
theorem dotsAttached_fragments (h : ∀ member ∈ path, member.Named) {previous : Option Char}
    (hprevious : previous.any attachesDot = true) :
    dotsAttached previous (path.flatMap fragments) = true := by
  induction path generalizing previous with
  | nil => rfl
  | cons member path ih =>
    obtain ⟨hmember, hpath⟩ := List.forall_mem_cons.mp h
    obtain ⟨access, name⟩ := member
    have hword (previous : Option Char) : dotsAttached previous
        (.word name :: path.flatMap fragments) = true := by
      simp [dotsAttached, text, ih hpath (attaches_word hmember.ne_nil hmember.all previous)]
    have hclose : dotsAttached (some ']') (path.flatMap fragments) = true :=
      ih hpath (by decide)
    cases access with
    | dot => simpa [fragments, dotsAttached, hprevious] using hword _
    | arrow => simpa [fragments, dotsAttached, text] using hword (some '>')
    | brackets => simpa [fragments, dotsAttached, text] using hclose

/-! ### Expanding a path -/

theorem expandMembers_fragments (h : ∀ member ∈ path, member.Named) {previous : Option Fragment}
    (hprevious : endsValue previous = true) :
    expandMembers previous (path.flatMap fragments) =
      (path.map expandDot).flatMap write := by
  induction path generalizing previous with
  | nil => rfl
  | cons member path ih =>
    obtain ⟨hmember, hpath⟩ := List.forall_mem_cons.mp h
    obtain ⟨access, name⟩ := member
    have hword := ih hpath (endsValue_word hmember.starts)
    have hclose := ih hpath (show endsValue (some (.sign ']')) = true by decide)
    have hstarts : startsName name = true := by
      obtain ⟨c, rest, rfl⟩ := List.exists_cons_of_ne_nil hmember.ne_nil
      exact hmember.starts
    cases access with
    | dot =>
      have htaken : (endsValue previous && startsName name &&
          !opensCall (path.flatMap fragments) && !Placeholder.isWhole name) = true := by
        have hfree : Placeholder.isWhole name = false := hmember.free
        simp [hprevious, hstarts, opensCall_eq, hfree]
      rw [List.flatMap_cons, fragments, List.cons_append, List.cons_append, List.nil_append,
        expandMembers, if_pos htaken, hword]
      simp [expandDot, write, itemAccess]
    | arrow => simp [fragments, expandMembers, expandDot, write, text, hword]
    | brackets => simp [fragments, expandMembers, expandDot, write, text, hclose]

theorem arrowAccess?_name {name : List Char} (h : (Member.mk .arrow name).Named) :
    arrowAccess? name = some (itemAccess name) := by
  obtain ⟨c, rest, rfl⟩ := List.exists_cons_of_ne_nil h.ne_nil
  have hdigit : c.isDigit = false := by
    refine Bool.eq_false_iff.mpr fun hdigit => ?_
    cases h.starts.symm.trans (isIdentifierStart_of_isDigit hdigit)
  simp [arrowAccess?, show Placeholder.isWhole (c :: rest) = false from h.free, hdigit]

theorem expandArrows_fragments (h : ∀ member ∈ path, member.Named) :
    expandArrows (path.flatMap fragments) = (path.map expandArrow).flatMap write := by
  induction path with
  | nil => rfl
  | cons member path ih =>
    obtain ⟨hmember, hpath⟩ := List.forall_mem_cons.mp h
    obtain ⟨access, name⟩ := member
    cases access with
    | dot => simp [fragments, expandArrows, expandArrow, write, text, ih hpath]
    | arrow =>
      simp [fragments, expandArrows, expandArrow, write, itemAccess, arrowAccess?_name hmember,
        ih hpath]
    | brackets => simp [fragments, expandArrows, expandArrow, write, text, ih hpath]

/-! ### Texts of paths -/

theorem trim_eq_self {p : Char → Bool} {text : List Char} (hfirst : ∀ c ∈ text.head?, p c = false)
    (hlast : ∀ c ∈ text.getLast?, p c = false) : Text.trim p text = text := by
  have hdrop : ∀ {text : List Char}, (∀ c ∈ text.head?, p c = false) → text.dropWhile p = text := by
    intro text h
    cases text with
    | nil => rfl
    | cons c rest => exact List.dropWhile_cons_of_neg (by simp [h c rfl])
  rw [Text.trim, Text.trimStart, hdrop hfirst, Text.trimEnd,
    hdrop (by rwa [List.head?_reverse]), List.reverse_reverse]

/-- Access to members ends in no blank. -/
theorem getLast?_itemAccess {base : List Char} (hbase : base.all isNameChar = true)
    (names : List (List Char)) :
    ∀ c ∈ (base ++ names.flatMap itemAccess).getLast?, Unicode.isWhitespace c = false := by
  rcases List.eq_nil_or_concat names with rfl | ⟨front, last, rfl⟩
  · intro c hc
    have hmem : c ∈ base := by simpa using List.mem_of_getLast? hc
    exact isWhitespace_of_isNameChar (List.all_eq_true.mp hbase c hmem)
  · intro c hc
    have hlast : (base ++ (front.concat last).flatMap itemAccess).getLast? = some ']' := by
      rw [List.concat_eq_append, List.flatMap_append, List.flatMap_singleton, itemAccess,
        ← List.append_assoc, ← List.append_assoc, List.getLast?_append]
      rfl
    obtain rfl := Option.some.inj (hlast.symm.trans hc)
    decide

theorem write_not_mem {c : Char} (hc : isNameChar c = false)
    (hsigns : c ∉ ['.', '-', '>', '[', '\'', ']']) (h : ∀ member ∈ path, member.Named) :
    c ∉ path.flatMap write := by
  intro hmem
  obtain ⟨⟨access, name⟩, hmember, hwithin⟩ := List.mem_flatMap.mp hmem
  have hname : c ∉ name := by
    intro hin
    cases hc.symm.trans (List.all_eq_true.mp (h _ hmember).all c hin)
  cases access <;> simp_all [write]

/-- Behind a word a path is expanded to access in brackets. -/
theorem expand_members {base : List Char} (hstarts : startsWith isIdentifierStart base = true)
    (hall : base.all isNameChar = true) (h : ∀ member ∈ path, member.Named) :
    Text.trim Unicode.isWhitespace
        (expandArrows (ofText (expandMembers none (ofText (base ++ path.flatMap write))))) =
      base ++ (path.map name).flatMap itemAccess := by
  have hne : base ≠ [] := by
    rintro rfl
    cases hstarts
  have hdots : ∀ member ∈ path.map expandDot, member.Named :=
    List.forall_mem_map.mpr fun member hmember => (h member hmember).expandDot
  have hwhole : expandArrows (ofText (expandMembers none (ofText (base ++ path.flatMap write)))) =
      base ++ (path.map name).flatMap itemAccess := by
    rw [ofText_path hne hall h, expandMembers_word,
      expandMembers_fragments h (endsValue_word hstarts), ofText_path hne hall hdots,
      expandArrows_word, expandArrows_fragments hdots, List.map_map, ← write_expanded]
    rfl
  rw [hwhole]
  refine trim_eq_self (fun c hc => ?_) (getLast?_itemAccess hall _)
  obtain ⟨d, rest, rfl⟩ := List.exists_cons_of_ne_nil hne
  obtain rfl := Option.some.inj hc
  exact isWhitespace_of_isNameChar (isIdentifierPart_of_isIdentifierStart hstarts)

theorem starFree_path {base : List Char} (hall : base.all isNameChar = true)
    (h : ∀ member ∈ path, member.Named) : StarFree (base ++ path.flatMap write) := by
  have hstar : isNameChar '*' = false := by decide
  refine starFree_of_not_mem (List.not_mem_append (fun hmem => ?_) (write_not_mem hstar ?_ h))
  · cases hstar.symm.trans (List.all_eq_true.mp hall _ hmem)
  · decide

/-- A path behind a word is expanded to access in brackets, however its members are written. -/
theorem expand_path {base : List Char} (hstarts : startsWith isIdentifierStart base = true)
    (hall : base.all isNameChar = true) (h : ∀ member ∈ path, member.Named) :
    expand (base ++ path.flatMap write) = base ++ (path.map name).flatMap itemAccess := by
  have hne : base ≠ [] := by
    rintro rfl
    cases hstarts
  have hdots : expandLeadingDots none (ofText (base ++ path.flatMap write)) =
      base ++ path.flatMap write := by
    have hattached : dotsAttached none (ofText (base ++ path.flatMap write)) = true := by
      rw [ofText_path hne hall h]
      simpa [dotsAttached, text] using dotsAttached_fragments h (attaches_word hne hall none)
    rw [expandLeadingDots_of_dotsAttached hattached, textOf_ofText]
  rw [expand, expandStars_of_starFree (starFree_path hall h)]
  rw [hdots, expand_members hstarts hall h]

/-- A member of the row is read to its fragments. -/
theorem ofText_row (text : List Char) :
    ofText ("row".toList ++ '.' :: text) = .word "row".toList :: .sign '.' :: ofText text := by
  have hdot : startsWith isNameChar ('.' :: text) = false := show isNameChar '.' = false by decide
  rw [ofText_word (by decide) (by decide) hdot, ofText_sign (by decide) (by decide)]

/-- A dot in front of a name stands for a member of the row. -/
theorem expand_leadingDot {text : List Char} (hstarts : startsWith isIdentifierStart text = true)
    (hstar : '*' ∉ text) : expand ('.' :: text) = expand ("row".toList ++ '.' :: text) := by
  obtain ⟨c, rest, rfl⟩ : ∃ c rest, text = c :: rest := by
    cases text with
    | nil => cases hstarts
    | cons c rest => exact ⟨c, rest, rfl⟩
  have hstart : (Unicode.isAlphabetic c || c == '_') = true := hstarts
  have hfirst : firstChar (ofText (c :: rest)) = some c := by
    rw [firstChar, textOf_ofText]
    rfl
  have hlead : expandLeadingDots none (ofText ('.' :: c :: rest)) =
      "row.".toList ++ expandLeadingDots (some '.') (ofText (c :: rest)) := by
    rw [ofText_sign (by decide) (by decide), expandLeadingDots, if_pos ⟨rfl, by simp⟩, hfirst]
    simp only [hstart, if_true]
    rfl
  have hlong : expandLeadingDots none (ofText ("row".toList ++ '.' :: c :: rest)) =
      "row.".toList ++ expandLeadingDots (some '.') (ofText (c :: rest)) := by
    have hword : Attached none (.word "row".toList :: .sign '.' :: ofText (c :: rest)) := by
      simp [Attached]
    have hsign : Attached (some 'w') (.sign '.' :: ofText (c :: rest)) := fun _ => by decide
    rw [ofText_row, expandLeadingDots_attached hword]
    exact congrArg ("row".toList ++ ·) (expandLeadingDots_attached hsign)
  have hfree : StarFree ('.' :: c :: rest) := starFree_of_not_mem (by simpa using hstar)
  have hfree' : StarFree ("row".toList ++ '.' :: c :: rest) :=
    starFree_of_not_mem (List.not_mem_append (by decide) (by simpa using hstar))
  rw [expand, expand, expandStars_of_starFree hfree, expandStars_of_starFree hfree', hlead, hlong]

/-- A dot in front of a path stands for a member of the row. -/
theorem expand_row {first : List Char} (hfirst : (Member.mk .dot first).Named)
    (h : ∀ member ∈ path, member.Named) :
    expand ('.' :: first ++ path.flatMap write) =
      "row".toList ++ (first :: path.map name).flatMap itemAccess := by
  obtain ⟨c, rest, hc⟩ := List.exists_cons_of_ne_nil hfirst.ne_nil
  have hpath : ∀ member ∈ ⟨.dot, first⟩ :: path, member.Named :=
    List.forall_mem_cons.mpr ⟨hfirst, h⟩
  have hstarts : startsWith isIdentifierStart (first ++ path.flatMap write) = true := by
    have hfront := hfirst.starts
    rw [show first = c :: rest from hc] at hfront ⊢
    exact hfront
  have hstar : '*' ∉ (⟨.dot, first⟩ :: path).flatMap write :=
    write_not_mem (by decide) (by decide) hpath
  have hwrite : '.' :: (first ++ path.flatMap write) = (⟨.dot, first⟩ :: path).flatMap write := rfl
  rw [List.cons_append, expand_leadingDot hstarts fun hmem => hstar (List.mem_cons_of_mem '.' hmem),
    hwrite]
  exact expand_path (by decide) (by decide) hpath

end Member

/-! ### Tokens of item access -/

namespace Lexer

theorem scanString_name {name : List Char} (hname : name.all isIdentifierPart = true)
    (rest : List Char) :
    scanString '\'' (name ++ '\'' :: ']' :: rest) = some (name, ']' :: rest) := by
  induction name with
  | nil => simp [scanString]
  | cons c name ih =>
    rw [List.all_cons, Bool.and_eq_true] at hname
    have hquote : c ≠ '\'' := ne_of_isNameChar hname.1 (by decide)
    have hbackslash : c ≠ '\\' := ne_of_isNameChar hname.1 (by decide)
    obtain ⟨d, tail, htail⟩ := List.exists_cons_of_ne_nil
      (show name ++ '\'' :: ']' :: rest ≠ [] by simp)
    rw [List.cons_append, htail, scanString]
    simp [hquote, hbackslash, ← htail, ih hname.2]

/-- The tokens of item access by a constant name. -/
def nameTokens (name : List Char) : List Token :=
  [.symbol .leftBracket, .string (String.ofList name), .symbol .rightBracket]

theorem tokens_itemAccess {name : List Char} (hname : name.all isIdentifierPart = true)
    {rest : List Char} {ts : List Token} (h : tokens rest = .ok ts) :
    tokens (itemAccess name ++ rest) = .ok (nameTokens name ++ ts) := by
  have hclose : tokens (']' :: rest) = .ok (.symbol .rightBracket :: ts) :=
    tokens_cons (by decide) rfl h
  have hscan : scanToken '\'' (name ++ '\'' :: ']' :: rest) =
      .ok (.string (String.ofList name), ']' :: rest) := by
    rw [scanToken_quote rfl, scanString_name hname]
  have hopen := @tokens_cons '[' _ _ _ _ (by decide) rfl (tokens_cons (by decide) hscan hclose)
  simpa [itemAccess, nameTokens] using hopen

/-- An identifier in front of another character than those of words. -/
theorem tokens_identifier {word : List Char} (hword : isIdentifier word = true) {rest : List Char}
    (hrest : startsWith isIdentifierPart rest = false) {ts : List Token}
    (h : tokens rest = .ok ts) :
    tokens (word ++ rest) = .ok (.identifier (String.ofList word) :: ts) := by
  obtain ⟨⟨hstarts, hall⟩, -⟩ : (startsWith isIdentifierStart word = true ∧
      word.all isIdentifierPart = true) ∧ _ := by simpa [isIdentifier] using hword
  cases word with
  | nil => cases hstarts
  | cons c word =>
    have hfront : (c :: word).takeWhile isIdentifierPart = c :: word :=
      List.takeWhile_eq_self_iff.mpr (List.all_eq_true.mp hall)
    have htokens := tokens_frontWord hstarts word hrest h
    rwa [hfront, wordToken_of_isIdentifier hword] at htokens

end Lexer

namespace Parser

/-! ### Fields of fields -/

variable {ts us : List Token}

theorem exists_layer {level : Layer} (d : Derivation (.operand level) ts) :
    ∃ (us : List Token) (whole : Derivation (.layer level) us), us = ts ∧ whole.value = d.value :=
  ⟨_, .layer d .noLinks, List.append_nil ts, rfl⟩

theorem exists_tighter {level next : Layer} (h : level.tighter? = some next)
    (d : Derivation (.layer next) ts) :
    ∃ (us : List Token) (whole : Derivation (.layer level) us), us = ts ∧ whole.value = d.value :=
  exists_layer (.tighter h d)

/-- A primary phrase with its fields and items is an expression. -/
theorem exists_expression (d : Derivation .postfixed ts) :
    ∃ whole : Derivation .expression ts, whole.value = d.value := by
  obtain ⟨_, product, rfl, hproduct⟩ := exists_layer (.signed (.unsigned (.base d)))
  obtain ⟨_, sum, rfl, hsum⟩ := @exists_tighter _ .additive _ rfl product
  obtain ⟨_, shift, rfl, hshift⟩ := @exists_tighter _ .shift _ rfl sum
  obtain ⟨_, bitAnd, rfl, hbitAnd⟩ := @exists_tighter _ .bitAnd _ rfl shift
  obtain ⟨_, bitXor, rfl, hbitXor⟩ := @exists_tighter _ .bitXor _ rfl bitAnd
  obtain ⟨_, bitOr, rfl, hbitOr⟩ := @exists_tighter _ .bitOr _ rfl bitXor
  obtain ⟨_, comparison, rfl, hcomparison⟩ := @exists_tighter _ .comparison _ rfl bitOr
  obtain ⟨_, conjunction, rfl, hconjunction⟩ := exists_layer (.negated (.comparison comparison))
  obtain ⟨_, disjunction, rfl, hdisjunction⟩ :=
    @exists_tighter _ .disjunction _ rfl conjunction
  obtain ⟨_, whole, rfl, hwhole⟩ := @exists_tighter _ .coalesce _ rfl disjunction
  refine ⟨.plain whole, ?_⟩
  calc whole.value = disjunction.value := hwhole
    _ = conjunction.value := hdisjunction
    _ = comparison.value := hconjunction
    _ = bitOr.value := hcomparison
    _ = bitXor.value := hbitOr
    _ = bitAnd.value := hbitXor
    _ = shift.value := hbitAnd
    _ = sum.value := hshift
    _ = product.value := hsum
    _ = d.value := hproduct

/-- A text with the tokens of a primary phrase with its fields and items is parsed as it. -/
theorem parse_of_postfixed {text : List Char} (d : Derivation .postfixed ts)
    (h : Lexer.tokens text = .ok ts) : Expr.parse (String.ofList text) = .ok d.value := by
  obtain ⟨whole, hwhole⟩ := exists_expression d
  refine Expr.parse_ok_iff.mpr ⟨ts, ?_, ?_⟩
  · rw [tokenize, String.toList_ofList, h]
  · rw [← hwhole]
    exact single_of_derivation whole

/-- A string is a key. -/
theorem exists_text (content : String) :
    ∃ d : Derivation .expression [.string content], d.value = .literal (.str content) :=
  exists_expression (.postfixed (.constant (.str content) (.string content)) .noSuffix)

/-- Item access by a name is a field. -/
theorem exists_named (name : List Char) :
    ∃ d : Derivation .suffix (nameTokens name),
      ∀ left, d.value left = .field left (String.ofList name) := by
  obtain ⟨key, hkey⟩ := exists_text (String.ofList name)
  refine ⟨.index key, fun left => ?_⟩
  simp only [Derivation.value, hkey]
  exact applyIndex_text left _

end Parser

/-- The field of a field, and so on along names. -/
def Expr.fieldsOf (base : Expr) (names : List (List Char)) : Expr :=
  names.foldl (fun e name => .field e (String.ofList name)) base

namespace Parser

theorem exists_fields (names : List (List Char)) :
    ∃ access : Derivation .suffixes (names.flatMap nameTokens),
      ∀ left, access.value left = left.fieldsOf names := by
  induction names with
  | nil => exact ⟨.noSuffix, fun _ => rfl⟩
  | cons name names ih =>
    obtain ⟨first, hfirst⟩ := exists_named name
    obtain ⟨rest, hrest⟩ := ih
    refine ⟨.suffixes first rest, fun left => ?_⟩
    simp only [Derivation.value, hfirst, hrest]
    rfl

end Parser

/-! ### Paths mean fields -/

namespace Expr

theorem parse_itemAccess {base : List Char} (hbase : isIdentifier base = true)
    {names : List (List Char)} (h : ∀ name ∈ names, name.all isIdentifierPart = true) :
    parse (String.ofList (base ++ names.flatMap itemAccess)) =
      .ok ((Expr.variable (String.ofList base)).fieldsOf names) := by
  have htokens : tokens (names.flatMap itemAccess) = .ok (names.flatMap nameTokens) := by
    induction names with
    | nil => exact tokens_nil rfl
    | cons name names ih =>
      obtain ⟨hname, hnames⟩ := List.forall_mem_cons.mp h
      exact tokens_itemAccess hname (ih hnames)
  have hfront : startsWith isIdentifierPart (names.flatMap itemAccess) = false := by
    have hopen : isIdentifierPart '[' = false := by decide
    cases names <;> simp [startsWith, itemAccess, hopen]
  obtain ⟨access, haccess⟩ := Parser.exists_fields names
  rw [Parser.parse_of_postfixed (.postfixed (.name _) access)
    (tokens_identifier hbase hfront htokens), Parser.Derivation.value, haccess]
  rfl

/-- Members behind dots, behind arrows and in brackets are interchangeable: a path behind an
identifier is expanded and parsed to the fields along its names, and with a dot in front to those
of the row. -/
theorem parse_path {base : List Char} (hbase : isIdentifier base = true) {path : List Member}
    (h : ∀ member ∈ path, member.Named) :
    expand (base ++ path.flatMap Member.write) =
        base ++ (path.map Member.name).flatMap itemAccess ∧
      parse (String.ofList (expand (base ++ path.flatMap Member.write))) =
        .ok ((Expr.variable (String.ofList base)).fieldsOf (path.map Member.name)) ∧
      ∀ first : List Char, (Member.mk .dot first).Named →
        parse (String.ofList (expand ('.' :: first ++ path.flatMap Member.write))) =
          .ok ((Expr.variable "row").fieldsOf (first :: path.map Member.name)) := by
  obtain ⟨⟨hstarts, hall⟩, -⟩ : (startsWith isIdentifierStart base = true ∧
      base.all isIdentifierPart = true) ∧ _ := by simpa [isIdentifier] using hbase
  have hexpand := Member.expand_path hstarts hall h
  have hnames : ∀ name ∈ path.map Member.name, name.all isIdentifierPart = true :=
    List.forall_mem_map.mpr fun member hmember => (h member hmember).all
  refine ⟨hexpand, by rw [hexpand, parse_itemAccess hbase hnames], fun first hfirst => ?_⟩
  rw [Member.expand_row hfirst h,
    parse_itemAccess (by decide) (List.forall_mem_cons.mpr ⟨hfirst.all, hnames⟩)]
  rw [String.ofList_toList]

/-- A keyword may be a member, also of a member with another spelling. -/
theorem parse_path_of_keywords :
    parse (String.ofList (expand "a.END->x['Not']".toList)) =
        .ok (.field (.field (.field (.variable "a") "END") "x") "Not") ∧
      parse (String.ofList (expand ".b.END->x['Not']".toList)) =
        .ok (.field (.field (.field (.field (.variable "row") "b") "END") "x") "Not") := by
  have hpath : ∀ member ∈ [⟨.dot, "END".toList⟩, ⟨.arrow, "x".toList⟩,
      ⟨.brackets, "Not".toList⟩], Member.Named member := by
    simp only [List.forall_mem_cons]
    exact ⟨⟨by decide, by decide, by decide⟩, ⟨by decide, by decide, by decide⟩,
      ⟨by decide, by decide, by decide⟩, by simp⟩
  obtain ⟨-, hbase, hrow⟩ := @parse_path "a".toList (by decide) _ hpath
  exact ⟨hbase, hrow "b".toList ⟨by decide, by decide, by decide⟩⟩

end Expr

end StreamQuery
