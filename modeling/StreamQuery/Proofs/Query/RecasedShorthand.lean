import StreamQuery.Proofs.Query.Apart
import StreamQuery.Proofs.Query.Recasing

/-!
# Stars and leading dots of recased texts

The first steps of expanding shorthand replace calls of `*` and complete dots. They leave alone
every name that is called on something else, and the parenthesis behind it, so that recased texts
stay recased.
-/

namespace StreamQuery

open Unicode Fragment ColumnBindings

namespace Recased

variable {stars : Bool} {before : Before} {rest other : List Char}

/-- Where no name of a function may begin, both texts have the same character. -/
theorem of_cons {c : Char} (h : Recased stars before (c :: rest) other)
    (hc : before.mayCall = false ∨ c.isAlpha = false) :
    ∃ others, other = c :: others ∧ Recased stars (before.next c) rest others := by
  generalize htext : c :: rest = text at h
  cases h with
  | same =>
    subst htext
    exact ⟨rest, rfl, .same rest⟩
  | keep d hrest =>
    obtain ⟨rfl, rfl⟩ := List.cons.inj htext
    exact ⟨_, rfl, hrest⟩
  | called hbefore hname _ =>
    obtain ⟨d, e, tail, rfl, hd, -⟩ := hname.exists_letters
    obtain ⟨rfl, -⟩ := List.cons.inj htext
    rcases hc with hword | halpha
    · cases hword.symm.trans hbefore
    · cases halpha.symm.trans hd

/-- A word goes on in both texts. -/
theorem of_word {word : List Char} (hword : word.all isNameChar = true)
    (h : Recased stars .word (word ++ rest) other) :
    ∃ others, other = word ++ others ∧ Recased stars .word rest others := by
  induction word generalizing other with
  | nil => exact ⟨other, rfl, h⟩
  | cons c word ih =>
    rw [List.all_cons, Bool.and_eq_true] at hword
    obtain ⟨others, rfl, hrest⟩ := h.of_cons (.inl rfl)
    rw [Before.next_name hword.1] at hrest
    obtain ⟨others, rfl, hothers⟩ := ih hword.2 hrest
    exact ⟨others, rfl, hothers⟩

/-- Characters that are no letters are in both texts. -/
theorem of_signs {signs : List Char} (hsigns : signs.all (fun c => !c.isAlpha) = true)
    (h : Recased stars before (signs ++ rest) other) :
    ∃ others, other = signs ++ others ∧ Recased stars (before.behind signs) rest others := by
  induction signs generalizing before other with
  | nil => exact ⟨other, rfl, h⟩
  | cons c signs ih =>
    rw [List.all_cons, Bool.and_eq_true, Bool.not_eq_true'] at hsigns
    obtain ⟨others, rfl, hrest⟩ := h.of_cons (.inr hsigns.1)
    obtain ⟨others, rfl, hothers⟩ := ih hsigns.2 hrest
    exact ⟨others, rfl, hothers⟩

end Recased

theorem isAlpha_of_isWhitespace {c : Char} (h : isWhitespace c = true) : c.isAlpha = false :=
  Bool.eq_false_iff.mpr fun hc => by
    cases (isNameChar_of_isAlpha hc).symm.trans (isNameChar_of_isWhitespace h)

/-- No word goes on in front of a parenthesis. -/
theorem startsWith_of_opensParenthesis {text : List Char} (h : opensParenthesis text = true) :
    Lexer.startsWith isNameChar text = false := by
  cases text with
  | nil => rfl
  | cons c rest =>
    rw [opensParenthesis_cons] at h
    cases hc : isWhitespace c with
    | true => exact isNameChar_of_isWhitespace hc
    | false =>
      rw [hc, if_neg (by simp), beq_iff_eq] at h
      subst h
      exact (by decide : isNameChar '(' = false)

/-- A call stays one in front of another text that begins with the same signs. -/
theorem Calls.of_signs {stars : Bool} {name rest other : List Char} (h : Calls stars name rest)
    (hsigns : ∀ signs : List Char, signs.all (fun c => !c.isAlpha) = true →
      (signs <+: solid other ↔ signs <+: solid rest)) : Calls stars name other := by
  refine ⟨?_, fun hstars hmem hstar => h.argument hstars hmem ((hsigns _ (by decide)).mp hstar)⟩
  rw [opensParenthesis_iff, hsigns _ (by decide), ← opensParenthesis_iff]
  exact h.opens

namespace Shorthand

/-! ### Stars -/

/-- The text of a call of `*` behind the name: a parenthesis, a star and a parenthesis, with blanks
in front of each. -/
inductive StarCall : List Char → Prop
  | mk (first second third : List Char) : first.all isWhitespace = true →
      second.all isWhitespace = true → third.all isWhitespace = true →
      StarCall (first ++ '(' :: (second ++ '*' :: (third ++ [')'])))

theorem exists_starCall {text after : List Char} (h : dropStarCall? text = some after) :
    ∃ star, StarCall star ∧ text = star ++ after := by
  unfold dropStarCall? at h
  split at h
  case h_2 => cases h
  case h_1 rest hopen =>
  split at h
  case h_2 => cases h
  case h_1 others hstar =>
  split at h
  case h_2 => cases h
  case h_1 last hclose =>
  obtain rfl := Option.some.inj h
  refine ⟨_, .mk (text.takeWhile isWhitespace) (rest.takeWhile isWhitespace)
    (others.takeWhile isWhitespace) List.all_takeWhile List.all_takeWhile List.all_takeWhile, ?_⟩
  calc text = text.takeWhile isWhitespace ++ '(' :: rest := by
        rw [← hopen, List.takeWhile_append_dropWhile]
    _ = text.takeWhile isWhitespace ++ '(' :: (rest.takeWhile isWhitespace ++ '*' :: others) := by
        rw [← hstar, List.takeWhile_append_dropWhile]
    _ = text.takeWhile isWhitespace ++ '(' :: (rest.takeWhile isWhitespace ++
          '*' :: (others.takeWhile isWhitespace ++ ')' :: last)) := by
        rw [← hclose, List.takeWhile_append_dropWhile]
    _ = _ := by simp

namespace StarCall

variable {star : List Char}

theorem dropStarCall?_append (h : StarCall star) (rest : List Char) :
    dropStarCall? (star ++ rest) = some rest := by
  have hparen : isWhitespace '(' = false := by decide
  have hstar : isWhitespace '*' = false := by decide
  have hclose : isWhitespace ')' = false := by decide
  obtain ⟨first, second, third, hfirst, hsecond, hthird⟩ := h
  rw [List.all_eq_true] at hfirst hsecond hthird
  simp [dropStarCall?, List.dropWhile_append_of_pos hfirst, List.dropWhile_append_of_pos hsecond,
    List.dropWhile_append_of_pos hthird, hparen, hstar, hclose]

theorem signs (h : StarCall star) : star.all (fun c => !c.isAlpha) = true := by
  have hblanks : ∀ blanks : List Char, blanks.all isWhitespace = true →
      blanks.all (fun c => !c.isAlpha) = true := fun blanks hblanks =>
    List.all_eq_true.mpr fun c hc => by
      rw [isAlpha_of_isWhitespace (List.all_eq_true.mp hblanks c hc)]
      rfl
  have hplain : '('.isAlpha = false ∧ '*'.isAlpha = false ∧ ')'.isAlpha = false := by decide
  obtain ⟨first, second, third, hfirst, hsecond, hthird⟩ := h
  simp [List.all_append, hblanks, hfirst, hsecond, hthird, hplain]

theorem takesStar (h : StarCall star) (rest : List Char) : TakesStar (star ++ rest) := by
  have hblanks : ∀ blanks : List Char, blanks.all isWhitespace = true → solid blanks = [] :=
    fun blanks hblanks => List.filter_eq_nil_iff.mpr fun c hc => by
      rw [List.all_eq_true.mp hblanks c hc]
      decide
  have hparen : isWhitespace '(' = false := by decide
  have hstar : isWhitespace '*' = false := by decide
  have hclose : isWhitespace ')' = false := by decide
  obtain ⟨first, second, third, hfirst, hsecond, hthird⟩ := h
  simp [TakesStar, solid_append, solid_cons, hblanks, hfirst, hsecond, hthird, hparen, hstar,
    hclose]

/-- No word goes on behind the name. -/
theorem startsWith (h : StarCall star) (rest : List Char) :
    Lexer.startsWith isNameChar (star ++ rest) = false := by
  obtain ⟨first, second, third, hfirst, -, -⟩ := h
  cases first with
  | nil => exact (by decide : isNameChar '(' = false)
  | cons c first =>
    rw [List.all_cons, Bool.and_eq_true] at hfirst
    exact isNameChar_of_isWhitespace hfirst.1

theorem getLast? (h : StarCall star) : star.getLast? = some ')' := by
  obtain ⟨first, second, third, -, -, -⟩ := h
  rw [← List.cons_append, ← List.append_assoc, ← List.cons_append, ← List.append_assoc]
  exact List.getLast?_concat

theorem behind (h : StarCall star) (before : Before) : before.behind star = .free := by
  obtain ⟨first, second, third, -, -, -⟩ := h
  have hclose : ∀ before : Before, before.next ')' = .free := fun before => by
    cases before <;> decide
  simp [Before.behind, hclose]

end StarCall

/-- A call of `*` at the front of a text behind another character, and the text after it. -/
def starAt? (name : List Char) (previous : Option Char) (text : List Char) : Option (List Char) :=
  if previous.any isWord || !name.isPrefixOf text then none
  else dropStarCall? (text.drop name.length)

theorem starAt?_eq_some_iff {name text after : List Char} {previous : Option Char} :
    starAt? name previous text = some after ↔ previous.any isWord = false ∧
      ∃ star, StarCall star ∧ text = name ++ (star ++ after) := by
  rw [starAt?]
  split
  case isTrue h =>
    refine iff_of_false (fun hnone => by cases hnone) ?_
    rintro ⟨hprevious, star, -, rfl⟩
    rw [hprevious, List.isPrefixOf_iff_prefix.mpr (List.prefix_append _ _)] at h
    cases h
  case isFalse h =>
    rw [Bool.or_eq_true, not_or, Bool.not_eq_true, Bool.not_eq_true, Bool.not_eq_false'] at h
    obtain ⟨rest, rfl⟩ := List.isPrefixOf_iff_prefix.mp h.2
    rw [List.drop_left, and_iff_right h.1]
    refine ⟨fun hdrop => ?_, ?_⟩
    · obtain ⟨star, hstar, rfl⟩ := exists_starCall hdrop
      exact ⟨star, hstar, rfl⟩
    · rintro ⟨star, hstar, heq⟩
      rw [List.append_cancel_left heq]
      exact hstar.dropStarCall?_append after

variable {name replacement : List Char}

theorem replaceStarFrom_cons (previous : Option Char) (c : Char) (rest : List Char) :
    replaceStarFrom name replacement previous 0 (c :: rest) =
      match starAt? name previous (c :: rest) with
      | some after => replacement ++
        replaceStarFrom name replacement (some c) (rest.length - after.length) rest
      | none => c :: replaceStarFrom name replacement (some c) 0 rest :=
  rfl

theorem replaceStarFrom_skip (previous : Option Char) (skipped rest : List Char) :
    replaceStarFrom name replacement previous skipped.length (skipped ++ rest) =
      replaceStarFrom name replacement (skipped.getLast?.or previous) 0 rest := by
  induction skipped generalizing previous with
  | nil => rfl
  | cons c skipped ih =>
    rw [List.cons_append, List.length_cons, replaceStarFrom, ih, List.getLast?_cons]
    cases skipped.getLast? <;> rfl

/-- Only whether a word goes on matters of what stands before a text. -/
theorem replaceStarFrom_congr {previous other : Option Char}
    (h : previous.any isWord = other.any isWord) (text : List Char) :
    replaceStarFrom name replacement previous 0 text =
      replaceStarFrom name replacement other 0 text := by
  cases text with
  | nil => rfl
  | cons c rest => rw [replaceStarFrom_cons, replaceStarFrom_cons, starAt?, starAt?, h]

/-- Nothing is replaced within a word. -/
theorem replaceStarFrom_word {word : List Char} (hword : word.all isWord = true) {c : Char}
    (hc : isWord c = true) (rest : List Char) :
    replaceStarFrom name replacement (some c) 0 (word ++ rest) =
      word ++ replaceStarFrom name replacement (some c) 0 rest := by
  induction word generalizing c with
  | nil => rfl
  | cons d word ih =>
    rw [List.all_cons, Bool.and_eq_true] at hword
    have hnone : starAt? name (some c) (d :: (word ++ rest)) = none := by simp [starAt?, hc]
    have hsame : (some d).any isWord = (some c).any isWord := by simp [hword.1, hc]
    rw [List.cons_append, replaceStarFrom_cons, hnone, ih hword.2 hword.1,
      replaceStarFrom_congr hsame]
    rfl

/-- A call of `*` is replaced, and the text behind it goes on behind a parenthesis. -/
theorem replaceStarFrom_star {front after : List Char} {previous : Option Char}
    (hstar : starAt? name previous (front ++ after) = some after)
    (hlast : front.getLast? = some ')') :
    replaceStarFrom name replacement previous 0 (front ++ after) =
      replacement ++ replaceStarFrom name replacement (some ')') 0 after := by
  obtain ⟨c, skipped, rfl⟩ := List.exists_cons_of_ne_nil (l := front) (by
    rintro rfl
    cases hlast)
  have hskip : (skipped ++ after).length - after.length = skipped.length := by simp
  rw [List.cons_append] at hstar ⊢
  rw [replaceStarFrom_cons, hstar]
  dsimp only
  rw [hskip, replaceStarFrom_skip, ← hlast, List.getLast?_cons]
  cases skipped.getLast? <;> rfl

/-- The name of a function that is not called on `*` stays. -/
theorem replaceStarFrom_function {word spelling after : List Char} {previous : Option Char}
    (hname : SameFunction word spelling) (hnone : starAt? name previous (word ++ after) = none) :
    replaceStarFrom name replacement previous 0 (word ++ after) =
      word ++ replaceStarFrom name replacement (some 'a') 0 after := by
  have hchars := hname.plainName.chars
  obtain ⟨d, letters, rfl⟩ := List.exists_cons_of_ne_nil hname.ne_nil
  rw [List.all_cons, Bool.and_eq_true] at hchars
  have hd := isWord_of_isIdentifierChar hchars.1
  have hletters : letters.all isWord = true := List.all_eq_true.mpr fun e he =>
    isWord_of_isIdentifierChar (List.all_eq_true.mp hchars.2 e he)
  have hsame : (some d).any isWord = (some 'a').any isWord := by
    rw [Option.any_some, hd]
    decide
  rw [List.cons_append] at hnone ⊢
  rw [replaceStarFrom_cons, hnone]
  dsimp only
  rw [replaceStarFrom_word hletters hd, replaceStarFrom_congr hsame]
  rfl

/-- Names whose calls of `*` are replaced by other calls. -/
structure Replaces (name replacement : List Char) : Prop where
  known : String.ofList name ∈ starCounts
  tail : ∃ tail, replacement = name ++ '(' :: (tail ++ [')'])

theorem facts_of_mem_starCounts : ∀ name ∈ starCounts, name.toList.all isNameChar = true ∧
    name.toList.head?.any Char.isAlpha = true ∧ name.toList.map Char.toLower = name.toList := by
  decide

namespace Replaces

variable (h : Replaces name replacement)
include h

theorem chars : name.all isNameChar = true := by
  simpa using (facts_of_mem_starCounts _ h.known).1

theorem exists_cons : ∃ c tail, name = c :: tail ∧ c.isAlpha = true := by
  have hhead := (facts_of_mem_starCounts _ h.known).2.1
  rw [String.toList_ofList] at hhead
  cases name with
  | nil => cases hhead
  | cons c tail => exact ⟨c, tail, rfl, hhead⟩

theorem lowered : String.ofList (name.map Char.toLower) ∈ starCounts := by
  have hlowered := (facts_of_mem_starCounts _ h.known).2.2
  rw [String.toList_ofList] at hlowered
  rw [hlowered]
  exact h.known

theorem behind_replacement (before : Before) : before.behind replacement = .free := by
  obtain ⟨tail, rfl⟩ := h.tail
  have hclose : ∀ before : Before, before.next ')' = .free := fun before => by
    cases before <;> decide
  simp [Before.behind, hclose]

/-- The signs at the front of a text stay when calls of `*` are replaced. -/
theorem prefix_iff {signs : List Char} (hsigns : signs.all (fun c => !c.isAlpha) = true)
    (previous : Option Char) (text : List Char) :
    signs <+: solid (replaceStarFrom name replacement previous 0 text) ↔ signs <+: solid text := by
  induction text generalizing signs previous with
  | nil => rfl
  | cons c rest ih =>
    have hletter : ∀ {d : Char} {rest others : List Char}, d.isAlpha = true →
        (signs <+: solid (d :: rest) ↔ signs <+: solid (d :: others)) := by
      intro d rest others hd
      have hblank : isWhitespace d = false := isWhitespace_of_isNameChar (isNameChar_of_isAlpha hd)
      rw [solid_cons, solid_cons, hblank]
      cases signs with
      | nil => exact iff_of_true List.nil_prefix List.nil_prefix
      | cons e signs =>
        rw [List.all_cons, Bool.and_eq_true, Bool.not_eq_true'] at hsigns
        have hne : e ≠ d := fun heq => by cases (heq ▸ hsigns.1).symm.trans hd
        simp [hne]
    rw [replaceStarFrom_cons]
    cases hstar : starAt? name previous (c :: rest) with
    | some after =>
      obtain ⟨-, star, -, htext⟩ := starAt?_eq_some_iff.mp hstar
      obtain ⟨tail, rfl⟩ := h.tail
      obtain ⟨d, letters, rfl, hd⟩ := h.exists_cons
      obtain ⟨rfl, -⟩ := List.cons.inj htext
      exact hletter hd
    | none =>
      simp only [solid_cons]
      split
      · exact ih hsigns _
      · cases signs with
        | nil => exact iff_of_true List.nil_prefix List.nil_prefix
        | cons e signs =>
          rw [List.all_cons, Bool.and_eq_true] at hsigns
          rw [List.cons_prefix_cons, List.cons_prefix_cons, ih hsigns.2]

/-- A call of `*` is in both texts. -/
theorem starAt?_recased {before : Before} {previous : Option Char} {text other after : List Char}
    (hrecased : Recased true before text other) (hstar : starAt? name previous text = some after) :
    ∃ front others, text = front ++ after ∧ other = front ++ others ∧
      starAt? name previous other = some others ∧ Recased true .free after others ∧
      front.getLast? = some ')' := by
  obtain ⟨hprevious, star, hcall, rfl⟩ := starAt?_eq_some_iff.mp hstar
  have hchars := h.chars
  -- The name and the call behind it go on in the other text.
  obtain ⟨others, rfl, hafter⟩ : ∃ others, other = name ++ (star ++ others) ∧
      Recased true .free after others := by
    generalize htext : name ++ (star ++ after) = text at hrecased
    cases hrecased with
    | same => exact ⟨after, htext.symm, .same after⟩
    | @keep _ c rest other hrest =>
      obtain ⟨d, tail, rfl, hd⟩ := h.exists_cons
      obtain ⟨rfl, rfl⟩ := List.cons.inj htext
      rw [List.all_cons, Bool.and_eq_true] at hchars
      rw [Before.next_name hchars.1] at hrest
      obtain ⟨others, rfl, hstar⟩ := hrest.of_word hchars.2
      obtain ⟨others, rfl, hafter⟩ := hstar.of_signs hcall.signs
      exact ⟨others, rfl, hcall.behind _ ▸ hafter⟩
    | @called _ word spelling rest _ hname hcalls =>
      exfalso
      have hfront := takeWhile_append_word (List.all_eq_true.mp hchars) (hcall.startsWith after)
      have hword := takeWhile_append_word (List.all_eq_true.mp hname.isNameChar)
        (startsWith_of_opensParenthesis hcalls.opens)
      rw [htext] at hfront
      obtain rfl := hfront.1.symm.trans hword.1
      obtain rfl := hfront.2.symm.trans hword.2
      exact hcalls.argument rfl h.lowered (hcall.takesStar after)
  refine ⟨name ++ star, others, by rw [List.append_assoc], by rw [List.append_assoc],
    starAt?_eq_some_iff.mpr ⟨hprevious, star, hcall, rfl⟩, hafter, ?_⟩
  rw [List.getLast?_append, hcall.getLast?]
  rfl

/-- Replacing calls of `*` keeps texts recased. -/
theorem recased {before : Before} {text other : List Char}
    (hrecased : Recased true before text other) (previous : Option Char) :
    Recased true before (replaceStarFrom name replacement previous 0 text)
      (replaceStarFrom name replacement previous 0 other) := by
  -- A call that is replaced is longer than a character, so that the induction is on the length.
  induction hlength : text.length using Nat.strongRecOn generalizing before previous text other with
  | ind length ih =>
  subst hlength
  cases text with
  | nil =>
    rw [hrecased.sameLetters.of_nil]
    exact .same _
  | cons c rest =>
    cases hstar : starAt? name previous (c :: rest) with
    | some after =>
      obtain ⟨front, others, htext, rfl, hother, hafter, hlast⟩ := h.starAt?_recased hrecased hstar
      rw [htext, replaceStarFrom_star (htext ▸ hstar) hlast, replaceStarFrom_star hother hlast]
      refine .append_left replacement ?_
      rw [h.behind_replacement]
      refine ih _ ?_ hafter _ rfl
      have hne : front ≠ [] := by
        rintro rfl
        cases hlast
      rw [htext, List.length_append]
      have := List.length_pos_of_ne_nil hne
      omega
    | none =>
      have hother : starAt? name previous other = none := by
        cases hfound : starAt? name previous other with
        | none => rfl
        | some after =>
          obtain ⟨_, _, -, -, hsome, -⟩ := h.starAt?_recased hrecased.symm hfound
          cases hstar.symm.trans hsome
      generalize htext : c :: rest = text at hrecased
      cases hrecased with
      | same => exact .same _
      | keep d hrest =>
        obtain ⟨rfl, rfl⟩ := List.cons.inj htext
        rw [replaceStarFrom_cons, replaceStarFrom_cons, hstar, hother]
        exact .keep c (ih _ (Nat.lt_succ_self _) hrest _ rfl)
      | @called _ word spelling after hbefore hname hcalls =>
        rw [htext] at hstar
        rw [replaceStarFrom_function hname hstar, replaceStarFrom_function hname.symm hother]
        exact .called hbefore hname (hcalls.of_signs fun signs hsigns => h.prefix_iff hsigns _ _)

end Replaces

/-- Expanding stars keeps texts recased, and nothing more is to ask of a call. -/
theorem recased_expandStars {before : Before} {text other : List Char}
    (h : Recased true before text other) :
    Recased false before (expandStars text) (expandStars other) := by
  have hcount : Replaces "count_agg".toList "count_agg(1)".toList := ⟨by decide, ['1'], by decide⟩
  have hdistinct : Replaces "count_distinct_agg".toList "count_distinct_agg(_values)".toList :=
    ⟨by decide, "_values".toList, by decide⟩
  exact (hdistinct.recased (hcount.recased h none) none).expanded

/-! ### Leading dots -/

/-- What is written in front of a character for a dot that belongs to nothing before it. -/
def dotBefore (c : Char) : List Char :=
  if isAlphabetic c || c == '_' then "row.".toList
  else if c.isDigit then ['.']
  else "row".toList

/-- What is written in front of a text for a dot that belongs to nothing before it. -/
def leadingDot (text : List Char) : List Char :=
  (text.head?.map dotBefore).getD "row".toList

theorem isAlphabetic_of_isAlpha {c : Char} (h : c.isAlpha = true) : isAlphabetic c = true := by
  rw [isAlphabetic, if_pos (toNat_lt_of_isAlphanum (Bool.or_eq_true_iff.mpr (.inl h)))]
  exact h

theorem caseless_dotBefore : Caseless dotBefore := by decide

/-- A dot is still there, or is left out in front of what is no letter. -/
theorem behind_leadingDot (before : Before) (text : List Char) :
    before.behind (leadingDot text) = .free ∨
      (before.behind (leadingDot text) = .word ∧ text.head?.any Char.isAlpha = false) := by
  have hrow : before.behind "row.".toList = .free ∧ before.behind ['.'] = .free ∧
      before.behind "row".toList = .word := by
    cases before <;> decide
  cases text with
  | nil => exact .inr ⟨hrow.2.2, rfl⟩
  | cons c rest =>
    rw [leadingDot, List.head?_cons, Option.map_some, Option.getD_some, Option.any_some, dotBefore]
    split
    · exact .inl hrow.1
    split
    · exact .inl hrow.2.1
    · rename_i hname _
      refine .inr ⟨hrow.2.2, Bool.eq_false_iff.mpr fun halpha => hname ?_⟩
      rw [isAlphabetic_of_isAlpha halpha]
      rfl

/-- A text without quotes with its leading dots completed, character by character. -/
def completeDots (previous : Option Char) : List Char → List Char
  | [] => []
  | c :: rest =>
    (if c = '.' ∧ !previous.any attachesDot then leadingDot rest else [c]) ++
      completeDots (some c) rest

theorem completeDots_cons {previous : Option Char} {c : Char}
    (h : c = '.' → previous.any attachesDot = true) (rest : List Char) :
    completeDots previous (c :: rest) = c :: completeDots (some c) rest := by
  rw [completeDots, if_neg]
  · rfl
  · rintro ⟨hdot, hloose⟩
    simp [h hdot] at hloose

theorem ne_dot_of_isNameChar {c : Char} (h : isNameChar c = true) : c ≠ '.' :=
  ne_of_isNameChar h (by decide)

theorem expandLeadingDots_word (previous : Option Char) (c : Char) (latest : List Char)
    (rest : List Fragment) :
    expandLeadingDots previous (.word (c :: latest).reverse :: rest) =
      (c :: latest).reverse ++ expandLeadingDots (some c) rest := by
  rw [expandLeadingDots_attached (fun hdot => by cases hdot), Fragment.text, List.reverse_cons,
    List.getLast?_concat]
  rfl

theorem expandLeadingDots_sign {c : Char} {rest : List Char} (hquote : Literal.isQuote c = false)
    (hname : isNameChar c = false) (previous : Option Char)
    (hrest : expandLeadingDots (some c) (readFrom .nothing rest) = completeDots (some c) rest) :
    expandLeadingDots previous (readFrom .nothing (c :: rest)) =
      completeDots previous (c :: rest) := by
  have hfirst : firstChar (readFrom .nothing rest) = rest.head? :=
    congrArg List.head? (textOf_ofText rest)
  rw [readFrom_sign hquote hname, expandLeadingDots, completeDots, hfirst]
  simp only [Fragment.sign.injEq, Fragment.text, List.getLast?_singleton, Option.some_or, hrest]
  split
  case isTrue =>
    rw [leadingDot]
    cases rest.head? with
    | none => rfl
    | some d =>
      rw [Option.map_some, Option.getD_some, dotBefore]
      dsimp only
      repeat' split
      all_goals rfl
  case isFalse => rfl

theorem expandLeadingDots_ofText {text : List Char} (htext : ∀ c ∈ text, Literal.isQuote c = false)
    (previous : Option Char) :
    expandLeadingDots previous (ofText text) = completeDots previous text := by
  have hread : ∀ previous,
      expandLeadingDots previous (readFrom .nothing text) = completeDots previous text ∧
      ∀ c latest, expandLeadingDots previous (readFrom (.word (c :: latest)) text) =
        (c :: latest).reverse ++ completeDots (some c) text := by
    -- A text is read on in a word or not.
    induction text with
    | nil => exact fun previous => ⟨rfl, fun c latest => expandLeadingDots_word previous c latest []⟩
    | cons c rest ih =>
      obtain ⟨hquote, hquotes⟩ := List.forall_mem_cons.mp htext
      have ih := ih hquotes
      intro previous
      cases hname : isNameChar c with
      | true =>
        have hkept : ∀ previous, completeDots previous (c :: rest) =
            c :: completeDots (some c) rest := fun previous =>
          completeDots_cons (fun hdot => absurd hdot (ne_dot_of_isNameChar hname)) rest
        refine ⟨?_, fun d latest => ?_⟩
        · rw [readFrom_begin hname, (ih previous).2, hkept]
          rfl
        · have hletter : [c].all isNameChar = true := by simpa using hname
          have hstep : readFrom (.word (d :: latest)) (c :: rest) =
              readFrom (.word (c :: d :: latest)) rest := readFrom_word hletter rest
          rw [hstep, (ih previous).2, hkept, List.reverse_cons, List.append_assoc]
          rfl
      | false =>
        have hsign := fun previous => expandLeadingDots_sign hquote hname previous (ih (some c)).1
        refine ⟨hsign previous, fun d latest => ?_⟩
        rw [readFrom_end (by rintro _ ⟨⟩; exact hname), expandLeadingDots_word, hsign]
  exact (hread previous).1

/-- Completing dots keeps the parenthesis of a call. -/
theorem opensParenthesis_completeDots {text : List Char} (h : opensParenthesis text = true)
    (previous : Option Char) : opensParenthesis (completeDots previous text) = true := by
  induction text generalizing previous with
  | nil => exact h
  | cons c rest ih =>
    rw [opensParenthesis_cons] at h
    have hdot : c ≠ '.' := by
      rintro rfl
      revert h
      have hblank : isWhitespace '.' = false := by decide
      simp [hblank]
    rw [completeDots_cons (fun heq => absurd heq hdot), opensParenthesis_cons]
    split
    case isTrue hblank => exact ih (by rwa [if_pos hblank] at h) _
    case isFalse hblank => rwa [if_neg hblank] at h

/-- Only whether a dot would belong to it matters of what stands before a text. -/
theorem completeDots_congr {previous other : Option Char}
    (h : previous.any attachesDot = other.any attachesDot) (text : List Char) :
    completeDots previous text = completeDots other text := by
  cases text with
  | nil => rfl
  | cons c rest => rw [completeDots, completeDots, h]

theorem attachesDot_of_isNameChar {c : Char} (h : isNameChar c = true) : attachesDot c = true := by
  rw [attachesDot, h]
  rfl

theorem completeDots_word {word : List Char} (hword : word.all isNameChar = true) {c : Char}
    (hc : isNameChar c = true) (rest : List Char) :
    completeDots (some c) (word ++ rest) = word ++ completeDots (some c) rest := by
  induction word generalizing c with
  | nil => rfl
  | cons d word ih =>
    rw [List.all_cons, Bool.and_eq_true] at hword
    have hsame : (some d).any attachesDot = (some c).any attachesDot := by
      simp [attachesDot_of_isNameChar, hword.1, hc]
    rw [List.cons_append, completeDots_cons fun hdot => absurd hdot (ne_dot_of_isNameChar hword.1),
      ih hword.2 hword.1, completeDots_congr hsame]
    rfl

theorem completeDots_function {name spelling : List Char} (hname : SameFunction name spelling)
    (previous : Option Char) (rest : List Char) :
    completeDots previous (name ++ rest) = name ++ completeDots (some 'a') rest := by
  have hchars := hname.isNameChar
  obtain ⟨c, letters, rfl⟩ := List.exists_cons_of_ne_nil hname.ne_nil
  rw [List.all_cons, Bool.and_eq_true] at hchars
  have hsame : (some c).any attachesDot = (some 'a').any attachesDot := by
    rw [Option.any_some, attachesDot_of_isNameChar hchars.1]
    decide
  rw [List.cons_append, completeDots_cons fun hdot => absurd hdot (ne_dot_of_isNameChar hchars.1),
    completeDots_word hchars.2 hchars.1, completeDots_congr hsame]
  rfl

/-- Completing dots keeps texts recased. Behind a bare `row` no name follows. -/
theorem recased_completeDots {before place : Before} {text other : List Char}
    (h : Recased false before text other)
    (hplace : place = before ∨
      (before = .free ∧ place = .word ∧ text.head?.any Char.isAlpha = false))
    (previous : Option Char) :
    Recased false place (completeDots previous text) (completeDots previous other) := by
  induction h generalizing place previous with
  | same => exact .same _
  | @keep before c rest other hrest ih =>
    have hnext : place.next c = before.next c := by
      rcases hplace with rfl | ⟨rfl, rfl, -⟩
      · rfl
      · simp [Before.next]
    rw [completeDots, completeDots]
    split
    case isFalse =>
      exact .keep c (by rw [hnext]; exact ih (.inl rfl) _)
    case isTrue hdot =>
      obtain ⟨rfl, -⟩ := hdot
      have hfree : ∀ before : Before, before.next '.' = .free := fun before => by
        cases before <;> decide
      have hlead : leadingDot rest = leadingDot other := by
        rw [leadingDot, leadingDot, hrest.sameLetters.head?_map_eq caseless_dotBefore]
      rw [← hlead]
      exact .append_left _ (ih ((behind_leadingDot place rest).imp (·.trans (hfree _).symm)
        fun hword => ⟨hfree _, hword⟩) _)
  | @called before name spelling rest hbefore hname hcalls =>
    rw [completeDots_function hname, completeDots_function hname.symm]
    refine .called ?_ hname
      ⟨opensParenthesis_completeDots hcalls.opens _, fun hstars => by cases hstars⟩
    rcases hplace with rfl | ⟨-, -, halpha⟩
    · exact hbefore
    · obtain ⟨c, d, letters, rfl, hc, -⟩ := hname.exists_letters
      cases halpha.symm.trans hc

end Shorthand

end StreamQuery
