import Mathlib.Data.List.Forall2
import StreamQuery.Proofs.Query.Clauses
import StreamQuery.Proofs.Query.Recasing

/-!
# Clauses of recased queries

A query and the same query with another spelling of a name that it calls are taken apart at the same
keywords: their clauses are again the same but for such a name.
-/

namespace StreamQuery

open Unicode Fragment ColumnBindings

/-- Two texts without quotes that are the same but for the spelling of a name that is called. -/
structure Paired (text other : List Char) : Prop where
  plain : ∀ c ∈ text, Literal.isQuote c = false
  recased : Recased true .free text other

namespace Paired

variable {text other rest front others : List Char}

theorem sameLetters (h : Paired text other) : SameLetters text other := h.recased.sameLetters

theorem length_eq (h : Paired text other) : text.length = other.length := h.recased.length_eq

/-- Two texts in two parts of the same lengths. -/
theorem of_append (h : Paired (text ++ rest) (front ++ others))
    (hlength : text.length = front.length) (hbetween : Between text rest) :
    Paired rest others ∧ (opensParenthesis rest = false → Paired text front) := by
  obtain ⟨hplain, hrecased⟩ := h
  obtain ⟨first, second, heq, hletters, hrest, hfirst⟩ := hrecased.of_append hbetween
  obtain ⟨rfl, rfl⟩ := List.append_inj heq (hlength ▸ hletters.length_eq)
  rw [List.forall_mem_append] at hplain
  exact ⟨⟨hplain.2, hrest.free⟩, fun hopens => ⟨hplain.1, hfirst hopens⟩⟩

end Paired

/-! ### Blanks between words -/

/-- What was read of a text when its words are joined by single blanks: nothing yet, a word, or
blanks behind a word. -/
inductive Gap where
  | front
  | word
  | blank

/-- A text with single blanks between its words and none at its ends. -/
def squeeze : Gap → List Char → List Char
  | _, [] => []
  | .front, c :: rest =>
    if isWhitespace c then squeeze .front rest else c :: squeeze .word rest
  | .word, c :: rest =>
    if isWhitespace c then squeeze .blank rest else c :: squeeze .word rest
  | .blank, c :: rest =>
    if isWhitespace c then squeeze .blank rest else ' ' :: c :: squeeze .word rest

theorem squeeze_blank (gap : Gap) {c : Char} (hc : isWhitespace c = true) (rest : List Char) :
    ∃ later, squeeze gap (c :: rest) = squeeze later rest ∧ (later = .front ∨ later = .blank) := by
  cases gap with
  | front => exact ⟨.front, by rw [squeeze, if_pos hc], .inl rfl⟩
  | word => exact ⟨.blank, by rw [squeeze, if_pos hc], .inr rfl⟩
  | blank => exact ⟨.blank, by rw [squeeze, if_pos hc], .inr rfl⟩

theorem squeeze_plain (gap : Gap) {c : Char} (hc : isWhitespace c = false) (rest : List Char) :
    squeeze gap (c :: rest) =
      (if gap matches .blank then [' '] else []) ++ c :: squeeze .word rest := by
  cases gap <;> simp [squeeze, hc]

/-- The words of a text joined by blanks. -/
theorem intercalate_wordsBy (text : List Char) :
    [' '].intercalate (Text.wordsBy isWhitespace text) = squeeze .front text := by
  have hgo : ∀ rest : List Char,
      [' '].intercalate (Text.wordsBy.go isWhitespace rest []) = squeeze .front rest ∧
      (∀ word, word ≠ [] → [' '].intercalate (Text.wordsBy.go isWhitespace rest word) =
        word.reverse ++ squeeze .word rest) ∧
      ∀ word, [' '].intercalate (word :: Text.wordsBy.go isWhitespace rest []) =
        word ++ squeeze .blank rest := by
    intro rest
    induction rest with
    | nil =>
      refine ⟨rfl, fun word hne => ?_, fun word => ?_⟩
      · rw [Text.wordsBy.go, if_neg (by simpa using hne)]
        simp [squeeze]
      · simp [Text.wordsBy.go, squeeze]
    | cons c rest ih =>
      obtain ⟨hfront, hword, hblank⟩ := ih
      cases hc : isWhitespace c with
      | true =>
        refine ⟨?_, fun word hne => ?_, fun word => ?_⟩
        · simpa [Text.wordsBy.go, squeeze, hc] using hfront
        · simpa [Text.wordsBy.go, squeeze, hc, hne] using hblank word.reverse
        · simpa [Text.wordsBy.go, squeeze, hc] using hblank word
      | false =>
        have hlater := hword [c] (by simp)
        refine ⟨?_, fun word hne => ?_, fun word => ?_⟩
        · simpa [Text.wordsBy.go, squeeze, hc] using hlater
        · simpa [Text.wordsBy.go, squeeze, hc] using hword (c :: word) (by simp)
        · -- The word that begins here is behind a blank.
          obtain ⟨next, others, hnext⟩ :
              ∃ next others, Text.wordsBy.go isWhitespace rest [c] = next :: others := by
            refine List.exists_cons_of_ne_nil fun hnil => ?_
            rw [hnil] at hlater
            simp at hlater
          rw [Text.wordsBy.go, hc, if_neg (by simp), hnext, List.intercalate_cons_cons, ← hnext,
            hlater]
          simp [squeeze, hc]
  exact (hgo text).1

theorem solid_squeeze (gap : Gap) (text : List Char) : solid (squeeze gap text) = solid text := by
  have hblank : isWhitespace ' ' = true := by decide
  induction text generalizing gap with
  | nil => cases gap <;> rfl
  | cons c rest ih =>
    cases hc : isWhitespace c with
    | true =>
      obtain ⟨later, heq, -⟩ := squeeze_blank gap hc rest
      rw [heq, ih, solid_cons, if_pos hc]
    | false =>
      rw [squeeze_plain gap hc, solid_append, solid_cons, solid_cons, ih, hc]
      cases gap <;> simp [solid, hblank]

theorem squeeze_name {name : List Char} (hname : name.all isNameChar = true) (rest : List Char) :
    squeeze .word (name ++ rest) = name ++ squeeze .word rest := by
  induction name with
  | nil => rfl
  | cons c name ih =>
    rw [List.all_cons, Bool.and_eq_true] at hname
    rw [List.cons_append, squeeze, isWhitespace_of_isNameChar hname.1, if_neg (by simp), ih hname.2,
      List.cons_append]

theorem Calls.congr_rest {stars : Bool} {name rest other : List Char} (h : Calls stars name rest)
    (hsolid : solid other = solid rest) : Calls stars name other := by
  refine ⟨?_, fun hstars hmem => ?_⟩
  · rw [opensParenthesis_iff, hsolid, ← opensParenthesis_iff]
    exact h.opens
  · rw [TakesStar, hsolid]
    exact h.argument hstars hmem

/-- Joining the words of recased texts. Blanks that were left out may still be to come, so that it
does not matter what stands in front of them. -/
theorem recased_squeeze {stars : Bool} {before : Before} {text other : List Char}
    (h : Recased stars before text other) :
    Recased stars before (squeeze .word text) (squeeze .word other) ∧
      (before = .free → ∀ place, Recased stars place (squeeze .blank text) (squeeze .blank other)) ∧
      (before = .free →
        Recased stars before (squeeze .front text) (squeeze .front other)) := by
  induction h with
  | same text => exact ⟨.same _, fun _ _ => .same _, fun _ => .same _⟩
  | @keep before c rest other _ ih =>
    obtain ⟨hword, hblank, hfront⟩ := ih
    cases hc : isWhitespace c with
    | true =>
      have hfree := next_blank hc before
      simp only [squeeze, hc, if_true]
      refine ⟨hblank hfree before, fun _ => hblank hfree, ?_⟩
      rintro rfl
      exact hfree ▸ hfront hfree
    | false =>
      simp only [squeeze, hc, Bool.false_eq_true, if_false]
      refine ⟨.keep c hword, ?_, fun _ => .keep c hword⟩
      rintro rfl place
      exact .keep ' ' (by rw [next_blank (by decide)]; exact .keep c hword)
  | @called before name spelling rest hbefore hname hcalls =>
    have hcalled : ∀ {place : Before}, place.mayCall = true →
        Recased stars place (name ++ squeeze .word rest) (spelling ++ squeeze .word rest) :=
      fun hplace => .called hplace hname (hcalls.congr_rest (solid_squeeze .word rest))
    have hsqueeze : ∀ {name spelling : List Char} (gap : Gap), SameFunction name spelling →
        squeeze gap (name ++ rest) =
          (if gap matches .blank then [' '] else []) ++ (name ++ squeeze .word rest) := by
      intro name spelling gap hname
      have hnames := hname.isNameChar
      obtain ⟨c, tail, rfl⟩ := List.exists_cons_of_ne_nil hname.ne_nil
      rw [List.all_cons, Bool.and_eq_true] at hnames
      have hplain := isWhitespace_of_isNameChar hnames.1
      have hword := squeeze_name hnames.2 rest
      cases gap <;> simp [squeeze, hplain, hword]
    simp only [hsqueeze _ hname, hsqueeze _ hname.symm]
    refine ⟨hcalled hbefore, fun _ place => .keep ' ' ?_, fun _ => hcalled hbefore⟩
    rw [next_blank (by decide)]
    exact hcalled rfl

/-! ### Words with the same letters -/

theorem sameLetters_wordsBy {text other : List Char} (h : SameLetters text other) :
    List.Forall₂ SameLetters (Text.wordsBy isWhitespace text)
      (Text.wordsBy isWhitespace other) := by
  have hgo : ∀ {text other word spelling : List Char}, SameLetters text other →
      SameLetters word spelling → List.Forall₂ SameLetters
        (Text.wordsBy.go isWhitespace text word) (Text.wordsBy.go isWhitespace other spelling) := by
    intro text
    induction text with
    | nil =>
      intro other word spelling h hword
      rw [h.of_nil, Text.wordsBy.go, Text.wordsBy.go, hword.isEmpty_eq]
      split
      · exact .nil
      · exact .cons hword.reverse .nil
    | cons c rest ih =>
      intro other word spelling h hword
      obtain ⟨d, others, rfl, hc, hrest⟩ := h.exists_of_cons
      rw [Text.wordsBy.go, Text.wordsBy.go, caseless_isWhitespace.eq hc, hword.isEmpty_eq]
      split
      · split
        · exact ih hrest (.refl [])
        · exact .cons hword.reverse (ih hrest (.refl []))
      · exact ih hrest (.cons hc hword)
  exact hgo h (.refl [])

/-- Keywords are ASCII. -/
theorem Clause.ascii_words (clause : Clause) :
    ∀ word ∈ clause.words.map String.toList, ∀ c ∈ word, c.toNat < 128 := by
  cases clause <;> decide

theorem map_lowerText_eq_iff {words others keywords : List (List Char)}
    (h : List.Forall₂ SameLetters words others)
    (hkeywords : ∀ word ∈ keywords, ∀ c ∈ word, c.toNat < 128) :
    words.map lowerText = keywords ↔ others.map lowerText = keywords := by
  induction h generalizing keywords with
  | nil => rfl
  | cons hword _ ih =>
    cases keywords with
    | nil => simp
    | cons keyword keywords =>
      obtain ⟨hkeyword, hkeywords⟩ := List.forall_mem_cons.mp hkeywords
      rw [List.map_cons, List.map_cons, List.cons.injEq, List.cons.injEq,
        lowerText_eq_iff hkeyword hword, ih hkeywords]

namespace Clause

variable {clause : Clause} {words others key spelled : List (List Char)}

theorem begins_eq (clause : Clause) (h : List.Forall₂ SameLetters words others) :
    clause.begins words = clause.begins others := by
  rw [Bool.eq_iff_iff, begins, begins, beq_iff_eq, beq_iff_eq, eq_comm,
    map_lowerText_eq_iff (List.forall₂_take _ h) clause.ascii_words, eq_comm]

theorem startingAt?_eq (h : List.Forall₂ SameLetters words others) :
    startingAt? words = startingAt? others := by
  have hbegins : (begins · words) = (begins · others) := funext fun clause => clause.begins_eq h
  rw [startingAt?, startingAt?, hbegins]

theorem Spelled.congr (h : clause.Spelled key) (hkey : List.Forall₂ SameLetters key spelled) :
    clause.Spelled spelled :=
  (map_lowerText_eq_iff hkey clause.ascii_words).mp h

/-- No keyword holds a parenthesis. -/
theorem Spelled.not_mem (h : clause.Spelled key) : ∀ word ∈ key, '(' ∉ word := by
  intro word hword hmem
  have hkeyword : lowerText word ∈ clause.words.map String.toList :=
    h ▸ List.mem_map_of_mem hword
  have hlowered := ((lowerTextAfter_eq_iff (clause.ascii_words _ hkeyword) [] word).mp rfl).2
  have hnone : ∀ keyword ∈ clause.words.map String.toList, '(' ∉ keyword := by
    cases clause <;> decide
  exact hnone _ hkeyword (hlowered ▸ List.mem_flatMap.mpr ⟨'(', hmem, List.mem_singleton_self _⟩)

theorem Spelled.ne_nil (h : clause.Spelled key) : key ≠ [] := by
  rintro rfl
  cases clause <;> cases h

end Clause

/-- Two parts of the same clause with the same letters. -/
structure Part.Same (part other : Part) : Prop where
  clause : part.clause = other.clause
  key : List.Forall₂ SameLetters part.key other.key
  text : List.Forall₂ SameLetters part.text other.text

/-- Words with the same letters have the same parts. -/
theorem Sectioned.exists_same {words before others : List (List Char)} {parts : List Part}
    (h : Sectioned words before parts) (hsame : List.Forall₂ SameLetters words others) :
    ∃ front otherParts, Sectioned others front otherParts ∧
      List.Forall₂ SameLetters before front ∧ List.Forall₂ Part.Same parts otherParts := by
  induction h generalizing others with
  | nil =>
    cases hsame
    exact ⟨[], [], .nil, .nil, .nil⟩
  | word hstart _ ih =>
    cases hsame with
    | cons hword hrest =>
      obtain ⟨front, otherParts, hsectioned, hfront, hparts⟩ := ih hrest
      rw [Clause.startingAt?_eq (.cons hword hrest)] at hstart
      exact ⟨_ :: front, otherParts, .word hstart hsectioned, .cons hword hfront, hparts⟩
  | @keyword part words parts hkey _ ih =>
    have hkeys := List.forall₂_take part.key.length hsame
    have hwords := List.forall₂_drop part.key.length hsame
    rw [List.take_left] at hkeys
    rw [List.drop_left] at hwords
    obtain ⟨front, otherParts, hsectioned, hfront, hparts⟩ := ih hwords
    let otherPart : Part := ⟨part.clause, others.take part.key.length, front⟩
    have hother : Sectioned (otherPart.key ++ others.drop part.key.length) []
        (otherPart :: otherParts) := .keyword (hkey.congr hkeys) hsectioned
    rw [List.take_append_drop] at hother
    exact ⟨[], otherPart :: otherParts, hother, .nil, .cons ⟨rfl, hkeys, hfront⟩ hparts⟩

/-! ### Texts of clauses -/

/-- Words, each behind a blank. -/
def spaced (words : List (List Char)) : List Char :=
  words.flatMap (' ' :: ·)

theorem intercalate_cons (word : List Char) (rest : List (List Char)) :
    [' '].intercalate (word :: rest) = word ++ spaced rest := by
  induction rest generalizing word with
  | nil => simp [spaced]
  | cons next rest ih =>
    rw [List.intercalate_cons_cons, ih]
    simp [spaced]

theorem spaced_append (words rest : List (List Char)) :
    spaced (words ++ rest) = spaced words ++ spaced rest :=
  List.flatMap_append

theorem sameLetters_spaced {words others : List (List Char)}
    (h : List.Forall₂ SameLetters words others) : SameLetters (spaced words) (spaced others) := by
  induction h with
  | nil => exact .refl []
  | cons hword _ ih => exact (SameLetters.cons rfl hword).append ih

theorem between_spaced (text : List Char) (words : List (List Char)) :
    Between text (spaced words) := by
  refine .inr ?_
  cases words with
  | nil => rfl
  | cons => rfl

theorem opensParenthesis_key {clause : Clause} {key : List (List Char)} (hkey : clause.Spelled key)
    (hword : ∀ word ∈ key, Text.IsWord isWhitespace word) (rest : List (List Char)) :
    opensParenthesis (spaced (key ++ rest)) = false := by
  obtain ⟨first, later, rfl⟩ := List.exists_cons_of_ne_nil hkey.ne_nil
  have hfirst := hword first List.mem_cons_self
  have hnot := hkey.not_mem first List.mem_cons_self
  obtain ⟨c, tail, rfl⟩ := List.exists_cons_of_ne_nil hfirst.1
  have hblank : isWhitespace ' ' = true := by decide
  have hc : isWhitespace c = false := hfirst.2 c List.mem_cons_self
  have hne : c ≠ '(' := fun heq => hnot (heq ▸ List.mem_cons_self)
  simp [spaced, opensParenthesis_cons, hblank, hc, hne]

/-- Words cut out of the joined words at a keyword or at the end. -/
theorem paired_words {front text rest otherFront otherText otherRest : List (List Char)}
    (h : Paired (spaced (front ++ (text ++ rest)))
      (spaced (otherFront ++ (otherText ++ otherRest))))
    (hfront : List.Forall₂ SameLetters front otherFront)
    (htext : List.Forall₂ SameLetters text otherText)
    (hrest : opensParenthesis (spaced rest) = false) :
    Paired ([' '].intercalate text) ([' '].intercalate otherText) := by
  cases htext with
  | nil => exact ⟨by simp, .same _⟩
  | @cons word other words others hword hwords =>
    rw [spaced_append, spaced_append, spaced_append, spaced_append] at h
    have hbehind := (h.of_append (sameLetters_spaced hfront).length_eq (by
      rw [← spaced_append]
      exact between_spaced _ _)).1
    have hspaced := sameLetters_spaced (.cons hword hwords)
    have hcut := (hbehind.of_append hspaced.length_eq (between_spaced _ _)).2 hrest
    -- The blank in front of the first word is left out.
    rw [intercalate_cons, intercalate_cons]
    have hblank : Paired ([' '] ++ (word ++ spaced words)) ([' '] ++ (other ++ spaced others)) := by
      simpa [spaced] using hcut
    exact (hblank.of_append rfl (.inl (by decide))).1

/-- The texts of the parts of joined words. -/
theorem paired_parts {parts others : List Part} (hsame : List.Forall₂ Part.Same parts others)
    (hspelled : ∀ part ∈ parts, part.clause.Spelled part.key)
    (hwords : ∀ part ∈ parts, ∀ word ∈ part.key, Text.IsWord isWhitespace word)
    {front otherFront : List (List Char)} (hfront : List.Forall₂ SameLetters front otherFront)
    (h : Paired (spaced (front ++ parts.flatMap Part.words))
      (spaced (otherFront ++ others.flatMap Part.words))) :
    List.Forall₂ (fun part other => part.clause = other.clause ∧
      Paired ([' '].intercalate part.text) ([' '].intercalate other.text)) parts others := by
  induction hsame generalizing front otherFront with
  | nil => exact .nil
  | @cons part other parts others hpart hparts ih =>
    obtain ⟨_, hspelled⟩ := List.forall_mem_cons.mp hspelled
    obtain ⟨_, hwords⟩ := List.forall_mem_cons.mp hwords
    have hrest : opensParenthesis (spaced (parts.flatMap Part.words)) = false := by
      cases parts with
      | nil => rfl
      | cons next parts =>
        rw [List.flatMap_cons, Part.words, List.append_assoc]
        exact opensParenthesis_key (hspelled next List.mem_cons_self)
          (hwords next List.mem_cons_self) _
    have hkeyed := List.rel_append hfront hpart.key
    rw [List.flatMap_cons, List.flatMap_cons, Part.words, Part.words, List.append_assoc,
      List.append_assoc, ← List.append_assoc front, ← List.append_assoc otherFront] at h
    refine .cons ⟨hpart.clause, paired_words h hkeyed hpart.text hrest⟩ ?_
    rw [← List.append_assoc, ← List.append_assoc (otherFront ++ _)] at h
    exact ih hspelled hwords (List.rel_append hkeyed hpart.text) h

/-- Clauses one by one with texts that are the same but for the spelling of a name. -/
def SameClauses (clauses others : QueryStructure) : Prop :=
  List.Forall₂ (fun entry other => entry.1 = other.1 ∧ Paired entry.2.toList other.2.toList)
    clauses others

namespace QueryStructure

theorem firstMisplaced?_eq {clauses others : List (Clause × List (List Char))}
    (h : clauses.map (·.1) = others.map (·.1)) (previous : Option Clause) :
    firstMisplaced? previous clauses = firstMisplaced? previous others := by
  induction clauses generalizing others previous with
  | nil => rw [List.map_eq_nil_iff.mp h.symm]
  | cons entry rest ih =>
    obtain ⟨other, others, rfl, heq, hrest⟩ := List.map_eq_cons_iff.mp h.symm
    rw [firstMisplaced?, firstMisplaced?, heq, ih hrest.symm]

end QueryStructure

theorem SameClauses.nonEmpty? {clauses others : QueryStructure} (h : SameClauses clauses others)
    (clause : Clause) :
    Option.Rel (fun text other => Paired text.toList other.toList) (clauses.nonEmpty? clause)
      (others.nonEmpty? clause) := by
  have hget : Option.Rel (fun text other : String => Paired text.toList other.toList)
      (clauses.get? clause) (others.get? clause) := by
    unfold QueryStructure.get?
    induction h with
    | nil => exact .none
    | @cons entry other _ _ hentry _ ih =>
      rw [List.find?_cons, List.find?_cons, hentry.1]
      split
      · exact .some hentry.2
      · exact ih
  unfold QueryStructure.nonEmpty?
  revert hget
  generalize clauses.get? clause = found
  generalize others.get? clause = otherFound
  intro hget
  cases hget with
  | none => exact .none
  | @some text other hpaired =>
    have hempty : text.isEmpty = other.isEmpty := by
      rw [Bool.eq_iff_iff, String.isEmpty_iff, String.isEmpty_iff, ← String.toList_eq_nil_iff,
        ← String.toList_eq_nil_iff, ← List.isEmpty_iff, ← List.isEmpty_iff,
        hpaired.sameLetters.isEmpty_eq]
    rw [Option.filter_some, Option.filter_some, hempty]
    split
    · exact .some hpaired
    · exact .none

theorem mem_squeeze {gap : Gap} {text : List Char} {c : Char} (h : c ∈ squeeze gap text) :
    c = ' ' ∨ c ∈ text := by
  induction text generalizing gap with
  | nil => cases gap <;> cases h
  | cons d rest ih =>
    have hlater : ∀ {gap : Gap}, c ∈ squeeze gap rest → c = ' ' ∨ c ∈ d :: rest :=
      fun hmem => (ih hmem).imp_right (List.mem_cons_of_mem d)
    cases hd : isWhitespace d with
    | true =>
      obtain ⟨later, heq, -⟩ := squeeze_blank gap hd rest
      exact hlater (heq ▸ h)
    | false =>
      rw [squeeze_plain gap hd, List.mem_append, List.mem_cons] at h
      rcases h with hblank | rfl | hmem
      · split at hblank
        · exact .inl (List.mem_singleton.mp hblank)
        · cases hblank
      · exact .inr List.mem_cons_self
      · exact hlater hmem

/-- The joined words of paired texts. -/
theorem Paired.spaced {text other : List Char} (h : Paired text other) :
    Paired (spaced (Text.wordsBy isWhitespace text))
      (StreamQuery.spaced (Text.wordsBy isWhitespace other)) := by
  have hjoined : ∀ words : List (List Char),
      StreamQuery.spaced words = if words.isEmpty then [] else ' ' :: [' '].intercalate words := by
    intro words
    cases words with
    | nil => rfl
    | cons word rest =>
      rw [intercalate_cons]
      rfl
  have hempty := (sameLetters_wordsBy h.sameLetters)
  rw [hjoined, hjoined, intercalate_wordsBy, intercalate_wordsBy]
  generalize Text.wordsBy isWhitespace text = words at hempty
  generalize Text.wordsBy isWhitespace other = others at hempty
  cases hempty with
  | nil => exact ⟨by simp, .same []⟩
  | cons =>
    refine ⟨List.forall_mem_cons.mpr ⟨by decide, fun c hc => ?_⟩, .keep ' ' ?_⟩
    · rcases mem_squeeze hc with rfl | hmem
      · decide
      · exact h.plain c hmem
    · rw [next_blank (by decide)]
      exact (recased_squeeze h.recased).2.2 rfl

namespace QueryStructure

/-- The clauses of a text, as its parts give them. -/
theorem ofText_sectioned {text : List Char} {before : List (List Char)} {parts : List Part}
    (h : Sectioned (queryWords text) before parts) :
    ofText text =
      if parts.isEmpty then .error .selectMissing
      else match before with
        | first :: _ => .error (.misplacedStart (String.ofList first))
        | [] => match firstMisplaced? none (parts.map fun part => (part.clause, part.text)) with
          | some clause => .error (.misplacedClause clause)
          | none =>
            if (nonEmpty? (parts.map Part.entry) .select).isSome then .ok (parts.map Part.entry)
            else .error .selectMissing := by
  unfold ofText
  rw [h.sections_eq]
  cases parts with
  | nil => rfl
  | cons part parts =>
    cases before with
    | cons => rfl
    | nil =>
      simp only [List.map_cons, List.map_map, List.isEmpty_cons, Bool.false_eq_true, if_false]
      rfl

/-- Texts that are paired without their comments have the same clauses, or both have none. -/
theorem alike_ofText {text other : List Char}
    (h : Paired (dropComments false text) (dropComments false other)) :
    Alike (fun _ _ => True) SameClauses (ofText text) (ofText other) := by
  have hwords := sameLetters_wordsBy h.sameLetters
  obtain ⟨before, parts, hsectioned⟩ := Sectioned.exists_sectioned (queryWords text)
  obtain ⟨front, others, hother, hfront, hparts⟩ := hsectioned.exists_same hwords
  have hspaced : Paired (spaced (before ++ parts.flatMap Part.words))
      (spaced (front ++ others.flatMap Part.words)) := by
    rw [← hsectioned.words_eq, ← hother.words_eq]
    exact h.spaced
  have hpaired := paired_parts hparts hsectioned.spelled (fun part hpart word hword => by
    have hmem : word ∈ queryWords text := by
      rw [hsectioned.words_eq]
      exact List.mem_append_right _
        (List.mem_flatMap.mpr ⟨part, hpart, List.mem_append_left _ hword⟩)
    exact Text.isWord_of_mem_wordsBy hmem) hfront hspaced
  have hclauses : parts.map Part.clause = others.map Part.clause :=
    List.forall₂_eq_eq_eq ▸ List.forall₂_map_left_iff.mpr
      (List.forall₂_map_right_iff.mpr (hpaired.imp fun _ _ h => h.1))
  have hsame : SameClauses (parts.map Part.entry) (others.map Part.entry) :=
    List.forall₂_map_left_iff.mpr (List.forall₂_map_right_iff.mpr
      (hpaired.imp fun _ _ h => ⟨h.1, by simpa [Part.entry, joinWords] using h.2⟩))
  have hselect := hsame.nonEmpty? .select
  have horder : firstMisplaced? none (parts.map fun part => (part.clause, part.text)) =
      firstMisplaced? none (others.map fun part => (part.clause, part.text)) :=
    firstMisplaced?_eq (by rw [List.map_map, List.map_map]; exact hclauses) none
  have hempty : parts.isEmpty = others.isEmpty := by
    rw [← List.isEmpty_map (f := Part.clause), hclauses, List.isEmpty_map]
  rw [ofText_sectioned hsectioned, ofText_sectioned hother, horder, hempty]
  split
  · exact .error trivial
  cases hfront with
  | cons => exact .error trivial
  | nil =>
    dsimp only
    split
    · exact .error trivial
    · generalize nonEmpty? (parts.map Part.entry) .select = found at hselect
      generalize nonEmpty? (others.map Part.entry) .select = otherFound at hselect
      cases hselect with
      | none => exact .error trivial
      | some => exact .ok hsame

end QueryStructure

end StreamQuery
