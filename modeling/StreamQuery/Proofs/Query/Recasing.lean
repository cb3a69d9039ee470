import StreamQuery.Proofs.Query.Binding
import StreamQuery.Proofs.Query.Comments
import StreamQuery.Proofs.Unicode.Letters
import StreamQuery.Query.Item

/-!
# Names of functions in either case

A text and the same text with another spelling of the name of a function that it calls: in other
cases of its letters. Both are cut at the same places, and what is cut out of them is again the same
but for such a name, as long as the name is not cut off from the parenthesis behind it.
-/

namespace StreamQuery

open Unicode Fragment ColumnBindings

/-- The names of all functions: aggregates, plain functions and functions of modules. -/
def functionNames : List String :=
  Aggregate.all.map Aggregate.name ++ Builtin.all.map Builtin.name ++
    MathFunction.all.map MathFunction.name ++ SearchFunction.all.map SearchFunction.name ++
    DocumentFunction.all.map DocumentFunction.name ++
    CalendarFunction.all.map CalendarFunction.name

/-- Two spellings of the name of a function, in ASCII letters of either case. -/
structure SameFunction (name spelling : List Char) : Prop where
  known : String.ofList (name.map Char.toLower) ∈ functionNames
  letters : SameLetters name spelling

/-- Names as functions have them: words of two letters and more that hold no placeholder and are no
keywords. -/
structure PlainName (name : List Char) : Prop where
  letters : (name.take 2).all Char.isAlpha = true
  length : 2 ≤ name.length
  chars : name.all Selection.isIdentifierChar = true
  single : ¬ ['_', '_'] <:+: name
  keyword : Lexer.keyword? (String.ofList (upperText name)) = none

theorem plainName_iff {name : List Char} :
    PlainName name ↔ (name.take 2).all Char.isAlpha = true ∧ 2 ≤ name.length ∧
      name.all Selection.isIdentifierChar = true ∧ ¬ ['_', '_'] <:+: name ∧
      Lexer.keyword? (String.ofList (upperText name)) = none :=
  ⟨fun h => ⟨h.letters, h.length, h.chars, h.single, h.keyword⟩,
    fun h => ⟨h.1, h.2.1, h.2.2.1, h.2.2.2.1, h.2.2.2.2⟩⟩

instance (name : List Char) : Decidable (PlainName name) :=
  decidable_of_iff _ plainName_iff.symm

theorem plainName_of_mem : ∀ name ∈ functionNames, PlainName name.toList := by
  decide +kernel

theorem caseless_isQuote : Caseless Literal.isQuote := by decide

theorem toNat_lt_of_isIdentifierChar {c : Char} (h : Selection.isIdentifierChar c = true) :
    c.toNat < 128 := by
  rcases Bool.or_eq_true_iff.mp h with halphanum | hunderscore
  · exact toNat_lt_of_isAlphanum halphanum
  · rw [beq_iff_eq.mp hunderscore]
    decide

theorem isNameChar_of_isIdentifierChar {c : Char} (h : Selection.isIdentifierChar c = true) :
    isNameChar c = true := by
  rcases Bool.or_eq_true_iff.mp h with halphanum | hunderscore
  · rcases Bool.or_eq_true_iff.mp halphanum with halpha | hdigit
    · exact isNameChar_of_isAlpha halpha
    · exact isNameChar_of_isDigit hdigit
  · rw [beq_iff_eq.mp hunderscore]
    decide

theorem isWord_of_isIdentifierChar {c : Char} (h : Selection.isIdentifierChar c = true) :
    isWord c = true := by
  rw [isWord, if_pos (toNat_lt_of_isIdentifierChar h)]
  exact h

namespace SameFunction

variable {name spelling : List Char}

theorem symm (h : SameFunction name spelling) : SameFunction spelling name :=
  ⟨by rw [← h.letters]; exact h.known, h.letters.symm⟩

/-- A name is plain in either case of its letters. -/
theorem plainName (h : SameFunction name spelling) : PlainName name := by
  have hplain := plainName_of_mem _ h.known
  rw [String.toList_ofList] at hplain
  have hletters := SameLetters.map_toLower name
  have hchars : Caseless Selection.isIdentifierChar := by decide
  refine ⟨(hletters.take 2).all_eq caseless_isAlpha ▸ hplain.letters,
    hletters.length_eq ▸ hplain.length, hletters.all_eq hchars ▸ hplain.chars,
    fun hwithin => hplain.single (hwithin.map Char.toLower),
    upperText_eq hletters ▸ hplain.keyword⟩

theorem isNameChar (h : SameFunction name spelling) : name.all isNameChar = true :=
  List.all_eq_true.mpr fun c hc =>
    isNameChar_of_isIdentifierChar (List.all_eq_true.mp h.plainName.chars c hc)

theorem ascii (h : SameFunction name spelling) : ∀ c ∈ name, c.toNat < 128 := fun c hc =>
  toNat_lt_of_isIdentifierChar (List.all_eq_true.mp h.plainName.chars c hc)

/-- A name begins with two letters. -/
theorem exists_letters (h : SameFunction name spelling) :
    ∃ c d rest, name = c :: d :: rest ∧ c.isAlpha = true ∧ d.isAlpha = true := by
  have hplain := h.plainName
  match name, hplain.length, hplain.letters with
  | c :: d :: rest, _, hletters => exact ⟨c, d, rest, rfl, by simpa using hletters⟩

theorem ne_nil (h : SameFunction name spelling) : name ≠ [] := by
  obtain ⟨c, d, rest, rfl, -⟩ := h.exists_letters
  exact List.cons_ne_nil _ _

end SameFunction

/-! ### Calls -/

/-- The characters of a text that are no blanks. -/
def solid (text : List Char) : List Char :=
  text.filter fun c => !isWhitespace c

theorem solid_append (text rest : List Char) : solid (text ++ rest) = solid text ++ solid rest :=
  List.filter_append ..

theorem solid_cons (c : Char) (rest : List Char) :
    solid (c :: rest) = if isWhitespace c then solid rest else c :: solid rest := by
  rw [solid, List.filter_cons]
  cases isWhitespace c <;> rfl

theorem opensParenthesis_iff (text : List Char) :
    opensParenthesis text = true ↔ ['('] <+: solid text := by
  induction text with
  | nil => simp [opensParenthesis, solid]
  | cons c rest ih =>
    rw [opensParenthesis_cons, solid_cons]
    split
    · exact ih
    · rw [beq_iff_eq, List.cons_prefix_cons, and_iff_left List.nil_prefix]
      exact eq_comm

/-- The aggregates whose argument may be a star. -/
def starCounts : List String := ["count_agg", "count_distinct_agg"]

/-- Whether the argument at the front of a text is a star. -/
def TakesStar (text : List Char) : Prop :=
  ['(', '*', ')'] <+: solid text

/-- A name is called in front of a text: a parenthesis is next to it. Where `stars` are not expanded
yet, it is not that of a count of `*`. -/
structure Calls (stars : Bool) (name rest : List Char) : Prop where
  opens : opensParenthesis rest = true
  argument : stars = true → String.ofList (name.map Char.toLower) ∈ starCounts → ¬ TakesStar rest

namespace Calls

variable {stars : Bool} {name spelling rest : List Char}

theorem congr (h : Calls stars name rest) (hletters : SameLetters name spelling) :
    Calls stars spelling rest :=
  ⟨h.opens, fun hstars hmem => h.argument hstars (by rwa [hletters])⟩

/-- A call stays one without what follows, as long as its parenthesis is not cut off. -/
theorem of_append {text : List Char} (h : Calls stars name (text ++ rest))
    (hrest : opensParenthesis rest = false) : Calls stars name text := by
  refine ⟨by rw [← opensParenthesis_append hrest]; exact h.opens, fun hstars hmem hstar => ?_⟩
  refine h.argument hstars hmem (hstar.trans ?_)
  rw [solid_append]
  exact List.prefix_append _ _

end Calls

/-! ### Places in a text -/

/-- What stands right before a character: a word, a dash, an arrow, or something else. -/
inductive Before where
  | free
  | word
  | dash
  | arrow
  deriving DecidableEq

namespace Before

/-- What stands before the character after `c`. -/
def next (before : Before) (c : Char) : Before :=
  if isNameChar c then .word
  else if c == '-' then .dash
  else if c == '>' && before == .dash then .arrow
  else .free

/-- What stands behind a text. -/
def behind (before : Before) (text : List Char) : Before :=
  text.foldl next before

/-- Whether a name at a place is no part of a word and no key behind an arrow. -/
def mayCall : Before → Bool
  | .free => true
  | .dash => true
  | .word => false
  | .arrow => false

theorem next_name {c : Char} (h : isNameChar c = true) (before : Before) :
    before.next c = .word := by
  rw [next, if_pos h]

/-- Of what stands before a character, only a dash counts, and only for the head of an arrow. -/
theorem next_cases (before : Before) (c : Char) :
    before.next c = free.next c ∨ (before.next c = .arrow ∧ free.next c = .free) := by
  unfold next
  split
  · exact .inl rfl
  split
  · exact .inl rfl
  split
  · exact .inr ⟨rfl, by simp⟩
  · exact .inl (by simp)

theorem behind_append (before : Before) (text rest : List Char) :
    before.behind (text ++ rest) = (before.behind text).behind rest :=
  List.foldl_append ..

theorem behind_word {before : Before} {word : List Char} (hne : word ≠ [])
    (hword : word.all isNameChar = true) : before.behind word = .word := by
  obtain ⟨front, c, rfl⟩ := List.eq_nil_or_concat' word |>.resolve_left hne
  rw [behind_append]
  rw [List.all_append, Bool.and_eq_true] at hword
  exact next_name (by simpa using hword.2) _

end Before

theorem next_blank {c : Char} (hc : isWhitespace c = true) (before : Before) :
    before.next c = .free := by
  have hdash : c ≠ '-' := by
    rintro rfl
    revert hc
    decide
  have hangle : c ≠ '>' := by
    rintro rfl
    revert hc
    decide
  simp [Before.next, isNameChar_of_isWhitespace hc, hdash, hangle]

/-! ### Recased texts -/

/-- A text behind a place and the same text with at most one of its calls under another spelling of
the name. -/
inductive Recased (stars : Bool) : Before → List Char → List Char → Prop
  | same {before : Before} (text : List Char) : Recased stars before text text
  | keep {before : Before} (c : Char) {rest other : List Char} :
      Recased stars (before.next c) rest other → Recased stars before (c :: rest) (c :: other)
  | called {before : Before} {name spelling rest : List Char} : before.mayCall = true →
      SameFunction name spelling → Calls stars name rest →
      Recased stars before (name ++ rest) (spelling ++ rest)

/-- A place in a text where no name of a function goes on. -/
def Between (text rest : List Char) : Prop :=
  text.getLast?.any Selection.isIdentifierChar = false ∨
    rest.head?.any Selection.isIdentifierChar = false

theorem between_of_last {text rest : List Char} {p : Char → Bool} (htext : text.all p = true)
    (hp : ∀ c, p c = true → Selection.isIdentifierChar c = false) : Between text rest := by
  refine .inl ?_
  cases hlast : text.getLast? with
  | none => rfl
  | some c => exact hp c (List.all_eq_true.mp htext c (List.mem_of_getLast? hlast))

theorem isIdentifierChar_of_not_isNameChar {c : Char} (h : isNameChar c = false) :
    Selection.isIdentifierChar c = false :=
  Bool.eq_false_iff.mpr fun hc => by cases h.symm.trans (isNameChar_of_isIdentifierChar hc)

namespace Recased

variable {stars : Bool} {before : Before} {text other rest : List Char}

theorem symm (h : Recased stars before text other) : Recased stars before other text := by
  induction h with
  | same text => exact .same text
  | keep c _ ih => exact .keep c ih
  | called hbefore hname hcalls => exact .called hbefore hname.symm (hcalls.congr hname.letters)

theorem sameLetters (h : Recased stars before text other) : SameLetters text other := by
  induction h with
  | same text => exact .refl text
  | keep c _ ih => exact .cons rfl ih
  | called _ hname _ => exact hname.letters.append (.refl _)

theorem length_eq (h : Recased stars before text other) : text.length = other.length :=
  h.sameLetters.length_eq

/-- A name has no quotes. -/
theorem plain (h : Recased stars before text other)
    (htext : ∀ c ∈ text, Literal.isQuote c = false) :
    ∀ c ∈ other, Literal.isQuote c = false := by
  have hcaseless : Caseless fun c => !Literal.isQuote c := caseless_isQuote.comp (!·)
  have hall : text.all (fun c => !Literal.isQuote c) = true :=
    List.all_eq_true.mpr fun c hc => by rw [htext c hc]; rfl
  rw [h.sameLetters.all_eq hcaseless] at hall
  exact fun c hc => by simpa using List.all_eq_true.mp hall c hc

/-- A text without parentheses calls nothing. -/
theorem eq_of_not_mem (h : Recased stars before text other) (htext : '(' ∉ text) :
    other = text := by
  induction h with
  | same => rfl
  | keep c _ ih => rw [ih fun hmem => htext (List.mem_cons_of_mem c hmem)]
  | @called _ name _ rest _ _ hcalls =>
    have hsolid := (opensParenthesis_iff rest).mp hcalls.opens
    have hmem : '(' ∈ rest := List.mem_of_mem_filter (hsolid.subset List.mem_cons_self)
    exact absurd (List.mem_append_right name hmem) htext

/-- Less may stand in front. -/
theorem free (h : Recased stars before text other) : Recased stars .free text other := by
  induction h with
  | same text => exact .same text
  | @keep before c _ _ hrest ih =>
    rcases before.next_cases c with heq | ⟨-, hfree⟩
    · exact .keep c (heq ▸ hrest)
    · exact .keep c (by rw [hfree]; exact ih)
  | called _ hname hcalls => exact .called rfl hname hcalls

/-- Where stars are expanded, there is no more to ask of a call. -/
theorem expanded (h : Recased stars before text other) : Recased false before text other := by
  induction h with
  | same text => exact .same text
  | keep c _ ih => exact .keep c ih
  | called hbefore hname hcalls =>
    exact .called hbefore hname ⟨hcalls.opens, fun hstars => by cases hstars⟩

theorem append_left (front : List Char) (h : Recased stars (before.behind front) rest other) :
    Recased stars before (front ++ rest) (front ++ other) := by
  induction front generalizing before with
  | nil => exact h
  | cons c front ih => exact .keep c (ih h)

/-- Where no name goes on both texts are cut at once. The first parts are recased if the call of the
first one does not reach over the cut. -/
theorem of_append (h : Recased stars before (text ++ rest) other) (hbetween : Between text rest) :
    ∃ front others, other = front ++ others ∧ SameLetters text front ∧
      Recased stars (before.behind text) rest others ∧
      (opensParenthesis rest = false → Recased stars before text front) := by
  generalize hall : text ++ rest = all at h
  induction h generalizing text with
  | same =>
    subst hall
    exact ⟨text, rest, rfl, .refl _, .same rest, fun _ => .same text⟩
  | @keep before c tail others htail ih =>
    cases text with
    | nil =>
      obtain rfl : rest = c :: tail := hall
      exact ⟨[], c :: others, rfl, .refl _, .keep c htail, fun _ => .same []⟩
    | cons d text =>
      obtain ⟨rfl, hrest⟩ := List.cons.inj hall
      have hlater : Between text rest := by
        refine hbetween.imp_left fun hlast => ?_
        cases text with
        | nil => rfl
        | cons => exact hlast
      obtain ⟨front, others, rfl, hletters, hrecased, hfront⟩ := ih hlater hrest
      exact ⟨d :: front, others, rfl, .cons rfl hletters, hrecased,
        fun hopens => .keep d (hfront hopens)⟩
  | @called before name spelling after hbefore hname hcalls =>
    rcases List.append_eq_append_iff.mp hall with ⟨tail, rfl, rfl⟩ | ⟨tail, rfl, rfl⟩
    · -- The name goes on behind the cut, so it begins there.
      cases text with
      | nil => exact ⟨[], _, rfl, .refl _, .called hbefore hname hcalls, fun _ => .same []⟩
      | cons c text =>
        cases tail with
        | nil =>
          rw [List.append_nil] at hname hcalls
          refine ⟨spelling, after, rfl, hname.letters, .same after, fun hopens => ?_⟩
          cases hopens.symm.trans hcalls.opens
        | cons d tail =>
          -- Within a name, characters of identifiers would stand on both sides of the cut.
          exfalso
          have hall := hname.plainName.chars
          rw [List.all_append, Bool.and_eq_true, List.all_cons (a := d), Bool.and_eq_true] at hall
          have hlast : (c :: text).getLast?.any Selection.isIdentifierChar = true := by
            rw [List.getLast?_eq_some_getLast (List.cons_ne_nil c text)]
            exact List.all_eq_true.mp hall.1 _ (List.getLast_mem _)
          rcases hbetween with hbefore | hafter
          · cases hlast.symm.trans hbefore
          · cases hall.2.1.symm.trans hafter
    · refine ⟨spelling ++ tail, rest, (List.append_assoc _ _ _).symm,
        hname.letters.append (.refl tail), .same rest, fun hopens => ?_⟩
      exact .called hbefore hname (hcalls.of_append hopens)

end Recased

end StreamQuery
