import StreamQuery.Proofs.Query.Longhand
import StreamQuery.Proofs.Query.RecasedShorthand

/-!
# Expanding and binding recased texts

The fragments of recased texts are the same but for the words that are called. Expanding members and
arrows and binding columns puts item access in the place of other words only, so that called words
stay called, under both spellings.
-/

namespace StreamQuery

open Unicode

namespace Fragment

/-- What stands behind a fragment. -/
def after (before : Before) : Fragment → Before
  | .sign c => before.next c
  | .word _ => .word
  | .quoted _ => .free

/-- Fragments behind a place, and the same fragments with other spellings of functions that are
called. -/
inductive SameCalls : Before → List Fragment → List Fragment → Prop
  | nil {before : Before} : SameCalls before [] []
  | keep {before : Before} (fragment : Fragment) {rest other : List Fragment} :
      SameCalls (fragment.after before) rest other →
      SameCalls before (fragment :: rest) (fragment :: other)
  | called {before : Before} {name spelling : List Char} {rest other : List Fragment} :
      before.mayCall = true → SameFunction name spelling → opensCall rest = true →
      SameCalls .word rest other →
      SameCalls before (.word name :: rest) (.word spelling :: other)

theorem opensCall_fragment (fragment : Fragment) (rest : List Fragment) :
    opensCall (fragment :: rest) =
      if fragment.isBlank then opensCall rest else fragment == .sign '(' := by
  rw [opensCall, opensCall, List.dropWhile_cons]
  split <;> rfl

theorem opensCall_concat {fragment : Fragment} (h : fragment ≠ .sign '(')
    (fragments : List Fragment) : opensCall (fragments ++ [fragment]) = opensCall fragments := by
  induction fragments with
  | nil =>
    rw [List.nil_append, opensCall_fragment, beq_false_of_ne h]
    split <;> rfl
  | cons first rest ih => rw [List.cons_append, opensCall_fragment, opensCall_fragment, ih]

/-- The parenthesis of a call is seen from the text and from its fragments. -/
theorem opensCall_ofText (text : List Char) : opensCall (ofText text) = opensParenthesis text := by
  induction text with
  | nil => rfl
  | cons c rest ih =>
    rw [opensParenthesis_cons]
    split
    case isTrue hblank => rw [ColumnBindings.opensCall_blank hblank, ih]
    case isFalse hblank =>
      exact ColumnBindings.opensCall_cons (Bool.eq_false_iff.mpr hblank) rest

namespace SameCalls

variable {before place : Before} {fragments others rest : List Fragment}

theorem refl (before : Before) (fragments : List Fragment) :
    SameCalls before fragments fragments := by
  induction fragments generalizing before with
  | nil => exact .nil
  | cons fragment rest ih => exact .keep fragment (ih _)

theorem opensCall_eq (h : SameCalls before fragments others) :
    opensCall fragments = opensCall others := by
  induction h with
  | nil => rfl
  | keep fragment _ ih => rw [opensCall_fragment, opensCall_fragment, ih]
  | called => rfl

theorem sameLetters (h : SameCalls before fragments others) :
    SameLetters (textOf fragments) (textOf others) := by
  induction h with
  | nil => exact .refl []
  | keep fragment _ ih => exact (SameLetters.refl fragment.text).append ih
  | called _ hname _ _ ih => exact hname.letters.append ih

/-- Behind a word no fragment is called, so it does not matter that the word is there. -/
theorem of_place (h : SameCalls before fragments others)
    (hplace : place = before ∨ (before = .word ∧ place = .free)) :
    SameCalls place fragments others := by
  cases h with
  | nil => exact .nil
  | keep fragment hrest =>
    rcases hplace with rfl | ⟨rfl, rfl⟩
    · exact .keep fragment hrest
    · refine .keep fragment ?_
      cases fragment with
      | sign c =>
        have hnext : after .word (.sign c) = after .free (.sign c) := by simp [after, Before.next]
        exact hnext ▸ hrest
      | word => exact hrest
      | quoted => exact hrest
  | called hbefore hname hopens hrest =>
    rcases hplace with rfl | ⟨rfl, -⟩
    · exact .called hbefore hname hopens hrest
    · cases hbefore

theorem free (h : SameCalls .word fragments others) : SameCalls .free fragments others :=
  h.of_place (.inr ⟨rfl, rfl⟩)

theorem whole {table : LiteralTable} {name spelling : List Char} (h : SameFunction name spelling) :
    Whole table (.word spelling) :=
  .word h.symm.ne_nil h.symm.isNameChar

theorem isSign_head? (h : SameCalls before fragments others)
    (hsign : ∀ next ∈ fragments.head?, next.isSign = true) :
    ∀ next ∈ others.head?, next.isSign = true := by
  cases h with
  | nil => exact hsign
  | keep => exact hsign
  | called => cases hsign _ rfl

/-- Fragments stay tidy under other spellings of what they call. -/
theorem tidy {table : LiteralTable} (h : SameCalls before fragments others)
    (htidy : Tidy table fragments) : Tidy table others := by
  induction h with
  | nil => exact htidy
  | keep fragment hrest ih =>
    have hfragment := htidy.whole fragment List.mem_cons_self
    cases fragment with
    | sign c =>
      cases hfragment with
      | sign hname hquote => exact (ih htidy.tail).sign hname hquote
    | word =>
      exact .before_sign hfragment (hrest.isSign_head? (htidy.sign_of_head? rfl)) (ih htidy.tail)
    | quoted =>
      exact .before_sign hfragment (hrest.isSign_head? (htidy.sign_of_head? rfl)) (ih htidy.tail)
  | called _ hname _ hrest ih =>
    exact .before_sign (whole hname) (hrest.isSign_head? (htidy.sign_of_head? rfl)) (ih htidy.tail)

/-- A last fragment is called by nothing. The fragments before it are called as they were, unless it
opened a call. -/
theorem of_concat {fragment : Fragment} (h : SameCalls before (fragments ++ [fragment]) others) :
    ∃ front, others = front ++ [fragment] ∧
      (fragment ≠ .sign '(' → SameCalls before fragments front) := by
  generalize hall : fragments ++ [fragment] = all at h
  induction h generalizing fragments with
  | nil => simp at hall
  | @keep before first rest other hrest ih =>
    cases fragments with
    | nil =>
      obtain ⟨rfl, rfl⟩ := List.cons.inj hall
      cases hrest
      exact ⟨[], rfl, fun _ => .nil⟩
    | cons found fragments =>
      obtain ⟨rfl, htail⟩ := List.cons.inj hall
      obtain ⟨front, rfl, hfront⟩ := ih htail
      exact ⟨found :: front, rfl, fun hne => .keep found (hfront hne)⟩
  | @called before name spelling rest other hbefore hname hopens _ ih =>
    cases fragments with
    | nil =>
      obtain ⟨rfl, rfl⟩ := List.cons.inj hall
      cases hopens
    | cons found fragments =>
      obtain ⟨rfl, rfl⟩ := List.cons.inj hall
      obtain ⟨front, rfl, hfront⟩ := ih rfl
      exact ⟨.word spelling :: front, rfl, fun hne =>
        .called hbefore hname (opensCall_concat hne fragments ▸ hopens) (hfront hne)⟩

end SameCalls

/-- The fragments of recased texts, from a place that is no word, and behind a word that is being
read. -/
theorem sameCalls_readFrom {before : Before} {text other : List Char}
    (h : Recased false before text other) (htext : ∀ c ∈ text, Literal.isQuote c = false) :
    (before ≠ .word → SameCalls before (readFrom .nothing text) (readFrom .nothing other)) ∧
      (before = .word → ∀ place latest,
        SameCalls place (readFrom (.word latest) text) (readFrom (.word latest) other)) := by
  induction h with
  | same => exact ⟨fun _ => .refl _ _, fun _ _ _ => .refl _ _⟩
  | @keep before c rest other hrest ih =>
    obtain ⟨hquote, hquotes⟩ := List.forall_mem_cons.mp htext
    obtain ⟨hnothing, hword⟩ := ih hquotes
    cases hc : isNameChar c with
    | true =>
      -- A word is read on.
      have hnext := hword (Before.next_name hc before)
      refine ⟨fun _ => ?_, fun _ place latest => ?_⟩
      · rw [readFrom_begin hc, readFrom_begin hc]
        exact hnext before [c]
      · have hletter : [c].all isNameChar = true := by simpa using hc
        have hstep : ∀ rest, readFrom (.word latest) (c :: rest) =
            readFrom (.word (c :: latest)) rest := fun rest => readFrom_word hletter rest
        rw [hstep, hstep]
        exact hnext place (c :: latest)
    | false =>
      -- A sign ends the word that is being read, if any.
      have hnext : before.next c ≠ .word := by
        rw [Before.next, if_neg (by simp [hc])]
        repeat' split
        all_goals simp
      have hsign : SameCalls before (readFrom .nothing (c :: rest))
          (readFrom .nothing (c :: other)) := by
        rw [readFrom_sign hquote hc, readFrom_sign hquote hc]
        exact .keep (.sign c) (hnothing hnext)
      refine ⟨fun _ => hsign, ?_⟩
      rintro rfl place latest
      rw [readFrom_end (by rintro _ ⟨⟩; exact hc), readFrom_end (by rintro _ ⟨⟩; exact hc)]
      exact .keep (.word latest.reverse) hsign
  | @called before name spelling rest hbefore hname hcalls =>
    refine ⟨fun _ => ?_, ?_⟩
    · have hfragments : ∀ {name spelling : List Char}, SameFunction name spelling →
          readFrom .nothing (name ++ rest) = .word name :: ofText rest := fun hname =>
        ColumnBindings.ofText_word hname.ne_nil (List.all_eq_true.mp hname.isNameChar)
          (startsWith_of_opensParenthesis hcalls.opens)
      rw [hfragments hname, hfragments hname.symm]
      exact .called hbefore hname (by rw [opensCall_ofText, hcalls.opens]) (.refl _ _)
    · rintro rfl
      cases hbefore

/-- The fragments of recased texts are the same but for what they call. -/
theorem sameCalls_ofText {text other : List Char} (h : Recased false .free text other)
    (htext : ∀ c ∈ text, Literal.isQuote c = false) :
    SameCalls .free (ofText text) (ofText other) :=
  (sameCalls_readFrom h htext).1 (by decide)

/-! ### Blanks at the ends -/

variable {before : Before} {fragments others : List Fragment}

/-- A fragment that is no blank begins and ends with another character. -/
theorem Whole.ends {table : LiteralTable} {fragment : Fragment} (h : Whole table fragment)
    (hblank : fragment.isBlank = false) :
    (∀ c ∈ fragment.text.head?, isWhitespace c = false) ∧
      (∀ c ∈ fragment.text.getLast?, isWhitespace c = false) ∧ fragment.text ≠ [] := by
  cases h with
  | @word letters hne hletters =>
    have hall : ∀ c ∈ letters, isWhitespace c = false := fun c hc =>
      ColumnBindings.isWhitespace_of_isNameChar (List.all_eq_true.mp hletters c hc)
    exact ⟨fun c hc => hall c (List.mem_of_mem_head? hc),
      fun c hc => hall c (List.mem_of_mem_getLast? hc), hne⟩
  | @sign c =>
    refine ⟨?_, ?_, by simp [text]⟩ <;> rintro _ ⟨⟩ <;> exact hblank
  | @quoted name =>
    have hquote : isWhitespace '\'' = false := by decide
    refine ⟨?_, fun c hc => ?_, by simp [text]⟩
    · rintro _ ⟨⟩
      exact hquote
    · rw [text, List.getLast?_concat] at hc
      obtain rfl := Option.some.inj hc
      exact hquote

theorem SameCalls.dropBlanks (h : SameCalls .free fragments others)
    (htidy : Tidy ([] : LiteralTable) fragments) :
    ∃ rest otherRest, (textOf fragments).dropWhile isWhitespace = textOf rest ∧
      (textOf others).dropWhile isWhitespace = textOf otherRest ∧
      SameCalls .free rest otherRest ∧ Tidy [] rest := by
  have hkept : ∀ {fragments : List Fragment} {fragment : Fragment},
      Whole ([] : LiteralTable) fragment → fragment.isBlank = false →
      (textOf (fragment :: fragments)).dropWhile isWhitespace = textOf (fragment :: fragments) := by
    intro fragments fragment hwhole hblank
    obtain ⟨hhead, -, hne⟩ := hwhole.ends hblank
    rw [textOf_cons]
    obtain ⟨c, letters, htext⟩ := List.exists_cons_of_ne_nil hne
    rw [htext] at hhead ⊢
    exact List.dropWhile_cons_of_neg (by simp [hhead c rfl])
  generalize hfree : Before.free = before at h
  induction h with
  | nil => exact ⟨[], [], rfl, rfl, .nil, tidy_nil⟩
  | @keep before fragment rest other hrest ih =>
    subst hfree
    cases hblank : fragment.isBlank with
    | false =>
      have hwhole := htidy.whole fragment List.mem_cons_self
      exact ⟨_, _, hkept hwhole hblank, hkept hwhole hblank, .keep fragment hrest, htidy⟩
    | true =>
      cases fragment with
      | word => cases hblank
      | quoted => cases hblank
      | sign c =>
        have hdropped : ∀ fragments, (textOf (.sign c :: fragments)).dropWhile isWhitespace =
            (textOf fragments).dropWhile isWhitespace := fun fragments =>
          List.dropWhile_cons_of_pos hblank
        rw [hdropped, hdropped]
        have hnext : after .free (.sign c) = .free := next_blank hblank .free
        obtain ⟨rest, otherRest, htext, hother, hsame, hrest⟩ := ih htidy.tail hnext.symm
        exact ⟨rest, otherRest, htext, hother, hnext ▸ hsame, hrest⟩
  | called hbefore hname hopens hrest =>
    exact ⟨_, _, hkept (htidy.whole _ List.mem_cons_self) rfl, hkept (SameCalls.whole hname) rfl,
      .called hbefore hname hopens hrest, htidy⟩

theorem SameCalls.trimEnd (h : SameCalls before fragments others)
    (htidy : Tidy ([] : LiteralTable) fragments) :
    ∃ front otherFront, Text.trimEnd isWhitespace (textOf fragments) = textOf front ∧
      Text.trimEnd isWhitespace (textOf others) = textOf otherFront ∧
      SameCalls before front otherFront ∧ Tidy [] front := by
  induction fragments using List.reverseRecOn generalizing others with
  | nil =>
    cases h
    exact ⟨[], [], rfl, rfl, .nil, tidy_nil⟩
  | append_singleton front fragment ih =>
    obtain ⟨otherFront, rfl, hfront⟩ := h.of_concat
    cases hblank : fragment.isBlank with
    | false =>
      obtain ⟨-, hlast, hne⟩ := (htidy.whole fragment (by simp)).ends hblank
      have hkept : ∀ front, Text.trimEnd isWhitespace (textOf (front ++ [fragment])) =
          textOf (front ++ [fragment]) := by
        intro front
        obtain ⟨letters, c, htext⟩ := (List.eq_nil_or_concat' fragment.text).resolve_left hne
        rw [htext, List.getLast?_concat] at hlast
        simp [Text.trimEnd, textOf_append, htext, hlast c rfl]
      exact ⟨_, _, hkept _, hkept _, h, htidy⟩
    | true =>
      cases fragment with
      | word => cases hblank
      | quoted => cases hblank
      | sign c =>
        have hdropped : ∀ front, Text.trimEnd isWhitespace (textOf (front ++ [.sign c])) =
            Text.trimEnd isWhitespace (textOf front) := by
          intro front
          have hc : isWhitespace c = true := hblank
          simp [Text.trimEnd, textOf_append, text, hc]
        rw [hdropped, hdropped]
        refine ih (hfront ?_) (htidy.part (List.prefix_append _ _).isInfix)
        rintro ⟨⟩
        exact absurd hblank (by decide)

/-- Without the blanks at their ends fragments are the same but for what they call. -/
theorem SameCalls.trim (h : SameCalls .free fragments others)
    (htidy : Tidy ([] : LiteralTable) fragments) :
    ∃ inner otherInner, Text.trim isWhitespace (textOf fragments) = textOf inner ∧
      Text.trim isWhitespace (textOf others) = textOf otherInner ∧
      SameCalls .free inner otherInner ∧ Tidy [] inner := by
  obtain ⟨rest, otherRest, hrest, hotherRest, hsame, htidyRest⟩ := h.dropBlanks htidy
  rw [Text.trim, Text.trim, Text.trimStart, Text.trimStart, hrest, hotherRest]
  exact hsame.trimEnd htidyRest

/-! ### Rewritten fragments -/

/-- Fragments are rewritten to one text and, under other spellings of what they call, to another
one: both are those of fragments that are the same but for what they call. -/
def SameRewriting (place : Before) (fragments : List Fragment) (text other : List Char) : Prop :=
  ∃ rewritten others, text = textOf rewritten ∧ other = textOf others ∧
    SameCalls place rewritten others ∧ Accessed [] fragments rewritten ∧
    (opensCall fragments = true → opensCall rewritten = true)

theorem not_mentions_nil (text : List Char) : ¬ LiteralTable.Mentions [] text := by
  rintro ⟨entry, hmem, -⟩
  cases hmem

namespace SameRewriting

variable {place : Before} {rest : List Fragment} {text other : List Char}

theorem nil : SameRewriting place [] [] [] :=
  ⟨[], [], rfl, rfl, .nil, .nil, id⟩

theorem keep (fragment : Fragment) (h : SameRewriting (fragment.after place) rest text other) :
    SameRewriting place (fragment :: rest) (fragment.text ++ text) (fragment.text ++ other) := by
  obtain ⟨rewritten, others, rfl, rfl, hsame, haccessed, hopens⟩ := h
  refine ⟨fragment :: rewritten, fragment :: others, rfl, rfl, .keep fragment hsame,
    .keep fragment haccessed, ?_⟩
  rw [opensCall_fragment, opensCall_fragment]
  split
  · exact hopens
  · exact id

theorem called {name spelling : List Char} (hplace : place.mayCall = true)
    (hname : SameFunction name spelling) (hopens : opensCall rest = true)
    (h : SameRewriting .word rest text other) :
    SameRewriting place (.word name :: rest) (name ++ text) (spelling ++ other) := by
  obtain ⟨rewritten, others, rfl, rfl, hsame, haccessed, hrest⟩ := h
  exact ⟨.word name :: rewritten, .word spelling :: others, rfl, rfl,
    .called hplace hname (hrest hopens) hsame, .keep _ haccessed, fun hopens => by cases hopens⟩

/-- Item access in the place of a word and of signs before it. -/
theorem accessed (place : Before) (dropped access : List Fragment)
    (haccess : ∀ rewritten, Accessed [] rest rewritten →
      Accessed [] (dropped ++ rest) (access ++ (.sign ']' :: rewritten)))
    (hopens : opensCall (dropped ++ rest) = false) (h : SameRewriting .free rest text other) :
    SameRewriting place (dropped ++ rest) (textOf access ++ ']' :: text)
      (textOf access ++ ']' :: other) := by
  obtain ⟨rewritten, others, rfl, rfl, hsame, haccessed, -⟩ := h
  have hclose : ∀ place : Before, place.next ']' = .free := fun place => by
    cases place <;> decide
  have hwritten : ∀ place, SameCalls place (access ++ .sign ']' :: rewritten)
      (access ++ .sign ']' :: others) := by
    clear haccess
    induction access with
    | nil => exact fun place => .keep (.sign ']') (by rw [after, hclose]; exact hsame)
    | cons fragment access ih => exact fun place => .keep fragment (ih _)
  have htext : ∀ fragments, textOf access ++ ']' :: textOf fragments =
      textOf (access ++ .sign ']' :: fragments) := fun fragments =>
    (textOf_append access (.sign ']' :: fragments)).symm
  refine ⟨_, _, htext _, htext _, hwritten place, haccess _ haccessed, fun htrue => ?_⟩
  cases hopens.symm.trans htrue

end SameRewriting

/-- Two texts of tidy fragments that are the same but for what they call. -/
def SameButCalls (text other : List Char) : Prop :=
  ∃ fragments others, text = textOf fragments ∧ other = textOf others ∧
    SameCalls .free fragments others ∧ Tidy [] fragments

theorem SameRewriting.sameButCalls {text other : List Char}
    (h : SameRewriting .free fragments text other) (htidy : Tidy [] fragments) :
    SameButCalls text other := by
  obtain ⟨rewritten, others, htext, hother, hsame, haccessed, -⟩ := h
  exact ⟨rewritten, others, htext, hother, hsame, haccessed.tidy htidy⟩

namespace SameButCalls

variable {text other : List Char}

theorem sameLetters (h : SameButCalls text other) : SameLetters text other := by
  obtain ⟨fragments, others, rfl, rfl, hsame, -⟩ := h
  exact hsame.sameLetters

/-- The fragments of both texts. -/
theorem sameCalls (h : SameButCalls text other) :
    SameCalls .free (ofText text) (ofText other) ∧ Tidy [] (ofText text) := by
  obtain ⟨fragments, others, rfl, rfl, hsame, htidy⟩ := h
  rw [ofText_textOf htidy, ofText_textOf (hsame.tidy htidy)]
  exact ⟨hsame, htidy⟩

theorem trim (h : SameButCalls text other) :
    SameButCalls (Text.trim isWhitespace text) (Text.trim isWhitespace other) := by
  obtain ⟨fragments, others, rfl, rfl, hsame, htidy⟩ := h
  exact hsame.trim htidy

end SameButCalls

end Fragment

/-! ### Members and arrows -/

namespace Shorthand

open Fragment

variable {before place : Before} {fragments others : List Fragment}

/-- The name of a function is a value in front of a dot. -/
theorem endsValue_of_name {name spelling : List Char} (h : SameFunction name spelling) :
    endsValue (some (.word name)) = true := by
  obtain ⟨c, d, rest, rfl, hc, -⟩ := h.exists_letters
  have hdigit : c.isDigit = false := Bool.eq_false_iff.mpr fun hdigit => by
    cases (isAlphabetic_of_isAlpha hc).symm.trans (Lexer.isAlphabetic_of_isDigit hdigit)
  simp [endsValue, hdigit]

theorem expandMembers_other {previous : Option Fragment} {fragment : Fragment}
    {rest : List Fragment} (h : ∀ name others, fragment = .sign '.' → rest = .word name :: others →
      False) :
    expandMembers previous (fragment :: rest) =
      fragment.text ++ expandMembers (some fragment) rest := by
  rw [expandMembers]
  exact h

/-- What members are expanded to is the same but for what is called. -/
theorem sameRewriting_expandMembers (previous other : Option Fragment)
    (h : SameCalls before fragments others) (hprevious : endsValue previous = endsValue other)
    (hplace : place = before ∨ (before = .word ∧ place = .free)) :
    SameRewriting place fragments (expandMembers previous fragments)
      (expandMembers other others) := by
  have hdot : ∀ place : Before, after place (.sign '.') = .free := fun place => by
    cases place <;> decide
  fun_induction expandMembers previous fragments generalizing before place other others with
  | case1 previous name rest htaken ih =>
    -- A member is no call, so that its name is the same in both texts.
    cases h.of_place hplace with
    | keep _ hword =>
      cases hword with
      | called _ _ hopens => simp [hopens] at htaken
      | @keep _ _ _ otherRest hrest =>
        have hother : (endsValue other && startsName name && !opensCall otherRest &&
            !Placeholder.isWhole name) = true := by
          rwa [← hprevious, ← hrest.opensCall_eq]
        rw [expandMembers, if_pos hother]
        have haccess := SameRewriting.accessed place [.sign '.', .word name]
          [.sign '[', .quoted ('\'' :: name ++ ['\''])]
          (fun rewritten haccessed => .name [.sign '.'] (not_mentions_nil name) haccessed) rfl
          (ih _ hrest rfl (.inr ⟨rfl, rfl⟩))
        simpa [itemAccess, text] using haccess
  | case2 previous name rest hkept ih =>
    -- A word behind a dot that is called or is no member.
    cases h.of_place hplace with
    | keep _ hword =>
      cases hword with
      | @called _ _ spelling _ otherRest hbefore hname hopens hrest =>
        have hother : (endsValue other && startsName spelling && !opensCall otherRest &&
            !Placeholder.isWhole spelling) = false := by
          simp [← hrest.opensCall_eq, hopens]
        rw [expandMembers, if_neg (by simp [hother])]
        have hvalue := (endsValue_of_name hname).trans (endsValue_of_name hname.symm).symm
        exact .keep (.sign '.')
          (.called (by rw [hdot]; rfl) hname hopens (ih _ hrest hvalue (.inl rfl)))
      | @keep _ _ _ otherRest hrest =>
        rw [hprevious, hrest.opensCall_eq] at hkept
        rw [expandMembers, if_neg hkept]
        exact .keep (.sign '.') (.keep (.word name) (ih _ hrest rfl (.inl rfl)))
  | case3 previous fragment rest hne ih =>
    cases h.of_place hplace with
    | @keep _ _ _ otherRest hrest =>
      -- What is no member in one text is none in the other.
      have hother : ∀ name others, fragment = .sign '.' → otherRest = .word name :: others →
          False := by
        rintro name others rfl rfl
        cases hrest with
        | keep => exact hne _ _ rfl rfl
        | called => exact hne _ _ rfl rfl
      rw [expandMembers_other hother]
      exact .keep fragment (ih _ hrest rfl (.inl rfl))
    | called hbefore hname hopens hrest =>
      rw [expandMembers_other fun _ _ hsign => by cases hsign]
      have hvalue := (endsValue_of_name hname).trans (endsValue_of_name hname.symm).symm
      exact .called hbefore hname hopens (ih _ hrest hvalue (.inl rfl))
  | case4 =>
    cases h
    exact .nil

theorem expandArrows_other {fragment : Fragment} {rest : List Fragment}
    (h : ∀ key others, fragment = .sign '-' → rest = .sign '>' :: .word key :: others → False) :
    expandArrows (fragment :: rest) = fragment.text ++ expandArrows rest := by
  rw [expandArrows]
  exact h

/-- What arrows are expanded to is the same but for what is called: no call stands behind an
arrow. -/
theorem sameRewriting_expandArrows (h : SameCalls before fragments others)
    (hplace : place = before ∨ (before = .word ∧ place = .free)) :
    SameRewriting place fragments (expandArrows fragments) (expandArrows others) := by
  fun_induction expandArrows fragments generalizing before place others with
  | case1 key rest ih =>
    have harrow : ∀ place : Before, after (after place (.sign '-')) (.sign '>') = .arrow :=
      fun place => by cases place <;> decide
    cases h.of_place hplace with
    | keep _ hhead =>
      cases hhead with
      | keep _ hkey =>
        -- Behind an arrow no call begins, so that the key is the same in both texts.
        rw [harrow] at hkey
        cases hkey with
        | called hbefore => cases hbefore
        | @keep _ _ _ otherRest hrest =>
          have hnext := ih hrest (.inr ⟨rfl, rfl⟩)
          rw [expandArrows]
          unfold arrowAccess?
          split
          case h_1 access haccess =>
            -- Digits are an index of a list, a name is one of a field.
            split at haccess
            case isTrue =>
              obtain rfl := Option.some.inj haccess
              have hindex := SameRewriting.accessed place
                [.sign '-', .sign '>', .word key] [.sign '[', .word key]
                (fun rewritten haccessed => .index [.sign '-', .sign '>'] haccessed) rfl hnext
              simpa [text] using hindex
            case isFalse =>
              split at haccess
              case isFalse => cases haccess
              case isTrue =>
                obtain rfl := Option.some.inj haccess
                have hname := SameRewriting.accessed place
                  [.sign '-', .sign '>', .word key] [.sign '[', .quoted ('\'' :: key ++ ['\''])]
                  (fun rewritten haccessed =>
                    .name [.sign '-', .sign '>'] (not_mentions_nil key) haccessed) rfl hnext
                simpa [itemAccess, text] using hname
          case h_2 =>
            exact .keep (.sign '-') (.keep (.sign '>') (.keep (.word key) (ih hrest (.inl rfl))))
  | case2 fragment rest hne ih =>
    cases h.of_place hplace with
    | @keep _ _ _ otherRest hrest =>
      -- What is no arrow in one text is none in the other.
      have hother : ∀ key others, fragment = .sign '-' →
          otherRest = .sign '>' :: .word key :: others → False := by
        rintro key others rfl rfl
        cases hrest with
        | keep _ hkey =>
          cases hkey with
          | keep => exact hne _ _ rfl rfl
          | called => exact hne _ _ rfl rfl
      rw [expandArrows_other hother]
      exact .keep fragment (ih hrest (.inl rfl))
    | called hbefore hname hopens hrest =>
      rw [expandArrows_other fun _ _ hsign => by cases hsign]
      exact .called hbefore hname hopens (ih hrest (.inl rfl))
  | case3 =>
    cases h
    exact .nil

/-- Expanding the shorthand of recased texts gives texts that are the same but for what they
call. -/
theorem sameButCalls_expand {text other : List Char} (h : Recased true .free text other)
    (htext : ∀ c ∈ text, Literal.isQuote c = false) :
    SameButCalls (expand text) (expand other) := by
  have hfree : ∀ name, LiteralTable.Free [] name := fun name hmentions =>
    absurd hmentions (not_mentions_nil name)
  have hapart : LiteralTable.Apart [] text := ⟨htext, fun name _ _ => hfree name,
    fun key _ _ => hfree key⟩
  have hstars := recased_expandStars h
  have hstarsApart := apart_expandStars hapart
  have hother := hstars.plain hstarsApart.quotes
  have hdots := recased_completeDots hstars (.inl rfl) none
  have hdotsApart := apart_expandLeadingDots (fun _ hmem => by cases hmem) hstarsApart
  rw [expand, expand]
  rw [expandLeadingDots_ofText hother]
  rw [expandLeadingDots_ofText hstarsApart.quotes] at hdotsApart ⊢
  have hmembers := sameRewriting_expandMembers none none (sameCalls_ofText hdots hdotsApart.quotes)
    rfl (.inl rfl)
  have hmembers := hmembers.sameButCalls (tidy_ofText hdotsApart.quotes)
  obtain ⟨hsame, htidy⟩ := hmembers.sameCalls
  exact ((sameRewriting_expandArrows hsame (.inl rfl)).sameButCalls htidy).trim

end Shorthand

/-! ### Columns -/

namespace ColumnBindings

open Fragment

variable {before place : Before} {fragments others : List Fragment}

/-- What columns are bound to is the same but for what is called. -/
theorem sameRewriting_bindFragments (bindings : ColumnBindings) (previous other : Option Fragment)
    (h : SameCalls before fragments others)
    (hprevious : (previous == some (.sign '.')) = (other == some (.sign '.')))
    (hplace : place = before ∨ (before = .word ∧ place = .free)) :
    SameRewriting place fragments (bindings.bindFragments previous fragments)
      (bindings.bindFragments other others) := by
  induction fragments generalizing before place previous other others with
  | nil =>
    cases h
    exact .nil
  | cons fragment rest ih =>
    cases h.of_place hplace with
    | @keep _ _ _ otherRest hrest =>
      have hkept := SameRewriting.keep fragment
        (ih (some fragment) (some fragment) hrest rfl (.inl rfl))
      cases fragment with
      | quoted => exact hkept
      | sign => exact hkept
      | word letters =>
        rw [bindFragments, bindFragments, ← hprevious, ← hrest.opensCall_eq]
        cases lookup? (String.ofList letters) bindings with
        | none => exact hkept
        | some index =>
          -- A member and a name that is called stay.
          dsimp only
          split
          · exact hkept
          · obtain ⟨hdigits, hall⟩ := digitsOf_spec index
            have hbase : "_values".toList ≠ [] := by decide
            have hbaseNames : "_values".toList.all isNameChar = true := by decide
            have haccess := SameRewriting.accessed place [.word letters]
              [.word "_values".toList, .sign '[', .word (Number.digitsOf index)]
              (fun rewritten haccessed => .column letters hbase hbaseNames
                (not_mentions_nil _) hdigits hall haccessed) rfl
              (ih (some (.word letters)) (some (.word letters)) hrest rfl (.inr ⟨rfl, rfl⟩))
            rw [access_eq]
            simpa [text] using haccess
    | @called _ name spelling _ otherRest hbefore hname hopens hrest =>
      have hwritten : ∀ (previous : Option Fragment) (word : List Char) (rest : List Fragment),
          opensCall rest = true → bindings.bindFragments previous (.word word :: rest) =
            word ++ bindings.bindFragments (some (.word word)) rest := by
        intro previous word rest hopens
        rw [bindFragments, hopens, Bool.or_true]
        cases lookup? (String.ofList word) bindings <;> rfl
      rw [hwritten _ _ _ hopens, hwritten _ _ _ (hrest.opensCall_eq ▸ hopens)]
      exact .called hbefore hname hopens (ih _ _ hrest rfl (.inl rfl))

/-- Binding columns keeps texts the same but for what they call. -/
theorem sameButCalls_bind (bindings : ColumnBindings) {text other : List Char}
    (h : SameButCalls text other) : SameButCalls (bindings.bind text) (bindings.bind other) := by
  obtain ⟨hsame, htidy⟩ := h.sameCalls
  exact (bindings.sameRewriting_bindFragments none none hsame rfl (.inl rfl)).sameButCalls htidy

end ColumnBindings

end StreamQuery
