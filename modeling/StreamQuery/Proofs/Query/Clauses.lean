import Mathlib.Data.List.Sort
import StreamQuery.Proofs.Query.Cutting

/-!
# Splitting a query into clauses

The words of a query are cut into parts, each a keyword and the words up to the next keyword. Nothing
is lost on the way: the parts written one after another are the words of the query again, and splitting
what was written gives the same clauses.
-/

namespace StreamQuery

/-! ### Words of a text -/

namespace Text

variable {isGap : Char → Bool}

theorem wordsBy_append_gap {gap : Char} (hgap : isGap gap = true) (text rest : List Char) :
    wordsBy isGap (text ++ gap :: rest) = wordsBy isGap text ++ wordsBy isGap rest := by
  have hgo : ∀ word, wordsBy.go isGap (text ++ gap :: rest) word =
      wordsBy.go isGap text word ++ wordsBy.go isGap rest [] := by
    induction text with
    | nil =>
      intro word
      by_cases hword : word = [] <;> simp [wordsBy.go, hgap, hword]
    | cons c text ih =>
      intro word
      by_cases hc : isGap c = true
      · by_cases hword : word = [] <;> simp [wordsBy.go, hc, hword, ih]
      · simp [wordsBy.go, hc, ih]
  exact hgo []

theorem wordsBy_intercalate {gap : Char} (hgap : isGap gap = true) (texts : List (List Char)) :
    wordsBy isGap ([gap].intercalate texts) = texts.flatMap (wordsBy isGap) := by
  induction texts with
  | nil => rfl
  | cons text texts ih =>
    cases texts with
    | nil => simp
    | cons next texts =>
      rw [List.intercalate_cons_cons, List.append_assoc, List.singleton_append,
        wordsBy_append_gap hgap, ih, List.flatMap_cons (x := text)]

/-- A text is a word if it is not empty and has no gap. -/
def IsWord (isGap : Char → Bool) (word : List Char) : Prop :=
  word ≠ [] ∧ ∀ c ∈ word, isGap c = false

theorem IsWord.wordsBy_eq {word : List Char} (h : IsWord isGap word) :
    wordsBy isGap word = [word] := by
  have hgo : ∀ rest latest : List Char, (∀ c ∈ rest, isGap c = false) → latest.reverse ++ rest ≠ [] →
      wordsBy.go isGap rest latest = [latest.reverse ++ rest] := by
    intro rest
    induction rest with
    | nil =>
      intro latest _ hne
      have hlatest : latest ≠ [] := by simpa using hne
      simp [wordsBy.go, hlatest]
    | cons c rest ih =>
      intro latest hplain _
      obtain ⟨hc, hrest⟩ := List.forall_mem_cons.mp hplain
      simp [wordsBy.go, hc, ih (c :: latest) hrest]
  exact hgo word [] h.2 h.1

theorem wordsBy_joined {gap : Char} (hgap : isGap gap = true) {words : List (List Char)}
    (h : ∀ word ∈ words, IsWord isGap word) : wordsBy isGap ([gap].intercalate words) = words := by
  rw [wordsBy_intercalate hgap]
  induction words with
  | nil => rfl
  | cons word words ih =>
    obtain ⟨hword, hwords⟩ := List.forall_mem_cons.mp h
    rw [List.flatMap_cons, hword.wordsBy_eq, ih hwords, List.singleton_append]

theorem isWord_of_mem_wordsBy {text word : List Char} (h : word ∈ wordsBy isGap text) :
    IsWord isGap word := by
  have hgo : ∀ latest : List Char, (∀ c ∈ latest, isGap c = false) →
      word ∈ wordsBy.go isGap text latest → IsWord isGap word := by
    have hlatest : ∀ latest : List Char, (∀ c ∈ latest, isGap c = false) → latest ≠ [] →
        IsWord isGap latest.reverse := fun latest hplain hne =>
      ⟨by simpa using hne, fun c hc => hplain c (List.mem_reverse.mp hc)⟩
    clear h
    induction text with
    | nil =>
      intro latest hplain hmem
      rw [wordsBy.go] at hmem
      split at hmem
      · cases hmem
      · next hne =>
        rw [List.mem_singleton.mp hmem]
        exact hlatest latest hplain (by simpa using hne)
    | cons c text ih =>
      intro latest hplain hmem
      rw [wordsBy.go] at hmem
      split at hmem
      · split at hmem
        · exact ih [] (by simp) hmem
        · next hne =>
          rcases List.mem_cons.mp hmem with rfl | hmem
          · exact hlatest latest hplain (by simpa using hne)
          · exact ih [] (by simp) hmem
      · next hc =>
        exact ih (c :: latest) (List.forall_mem_cons.mpr ⟨by simpa using hc, hplain⟩) hmem
  exact hgo [] (by simp) h

end Text

/-- A comment begins with `#`, and none is left. -/
theorem hash_not_mem_dropComments (inComment : Bool) (text : List Char) :
    '#' ∉ dropComments inComment text := by
  induction text generalizing inComment with
  | nil => simp [dropComments]
  | cons c text ih =>
    simp only [dropComments]
    split
    · next hnewline =>
      obtain rfl : c = '\n' := by simpa using hnewline
      simp [ih]
    · split
      · exact ih true
      · next hplain =>
        rw [List.mem_cons, not_or]
        exact ⟨fun heq => hplain (by simp [← heq]), ih false⟩

theorem dropComments_eq_self {text : List Char} (h : '#' ∉ text) : dropComments false text = text := by
  induction text with
  | nil => rfl
  | cons c text ih =>
    rw [List.mem_cons, not_or] at h
    simp [dropComments, Ne.symm h.1, ih h.2]

/-- What the words of a query are like: not empty, without blanks and without `#`. -/
def IsQueryWord (word : List Char) : Prop :=
  Text.IsWord Unicode.isWhitespace word ∧ '#' ∉ word

theorem isQueryWord_of_mem {text word : List Char} (h : word ∈ queryWords text) :
    IsQueryWord word :=
  ⟨Text.isWord_of_mem_wordsBy h, fun hhash =>
    hash_not_mem_dropComments false text ((within_of_mem_wordsBy h).subset hhash)⟩

theorem queryWords_of_no_hash {text : List Char} (h : '#' ∉ text) :
    queryWords text = Text.wordsBy Unicode.isWhitespace text := by
  rw [queryWords, dropComments_eq_self h]

/-! ### Keywords -/

namespace Clause

/-- Words that spell the keyword of a clause, in any case of their letters. -/
def Spelled (clause : Clause) (key : List (List Char)) : Prop :=
  key.map Unicode.lowerText = clause.words.map String.toList

/-- The words of the keyword as messages show them. -/
def keywordWords (clause : Clause) : List (List Char) :=
  clause.words.map fun word => Unicode.upperText word.toList

/-- Clauses in their mandatory order, none of them twice. -/
def InOrder (clauses : List Clause) : Prop :=
  clauses.Pairwise (·.rank < ·.rank)

/-- The clauses whose keywords are among words, from the left. -/
def found (words : List (List Char)) : List Clause :=
  words.tails.filterMap startingAt?

variable {clause : Clause} {words key : List (List Char)}

theorem keyword_toList (clause : Clause) :
    clause.keyword.toList = [' '].intercalate clause.keywordWords := by
  cases clause <;> decide

theorem spelled_keywordWords (clause : Clause) : clause.Spelled clause.keywordWords := by
  cases clause <;> (unfold Spelled; decide)

theorem isQueryWord_of_mem_keywordWords (clause : Clause) :
    ∀ word ∈ clause.keywordWords, IsQueryWord word := by
  unfold IsQueryWord Text.IsWord
  cases clause <;> decide

/-- A keyword is one word, or one word and `by`. -/
theorem words_one_or_by (clause : Clause) :
    (∃ first, clause.words = [first]) ∨ ∃ first, clause.words = [first, "by"] := by
  cases clause <;> simp [Clause.words]

theorem Spelled.one_or_by (h : clause.Spelled key) :
    (∃ first, key = [first] ∧ clause.words.length = 1) ∨
      ∃ first second, key = [first, second] ∧ clause.words.length = 2 ∧
        Unicode.lowerText second = "by".toList := by
  rcases clause.words_one_or_by with ⟨_, hwords⟩ | ⟨_, hwords⟩
  · rw [Spelled, hwords, List.map_singleton] at h
    obtain ⟨first, rfl, -⟩ := List.map_eq_singleton_iff.mp h
    exact .inl ⟨first, rfl, by rw [hwords]; rfl⟩
  · rw [Spelled, hwords, List.map_cons, List.map_singleton] at h
    obtain ⟨first, later, rfl, -, hlater⟩ := List.map_eq_cons_iff.mp h
    obtain ⟨second, rfl, hsecond⟩ := List.map_eq_singleton_iff.mp hlater
    exact .inr ⟨first, second, rfl, by rw [hwords]; rfl, hsecond⟩

theorem begins_iff : clause.begins words = true ↔
    ∃ key rest, words = key ++ rest ∧ clause.Spelled key := by
  rw [begins, beq_iff_eq]
  constructor
  · intro h
    exact ⟨_, _, (List.take_append_drop clause.words.length words).symm, h.symm⟩
  · rintro ⟨key, rest, rfl, hkey⟩
    have hlength : key.length = clause.words.length := by simpa using congrArg List.length hkey
    rw [← hlength, List.take_left, hkey]

theorem find?_first (clause : Clause) :
    all.find? (fun other => other.words.head? == clause.words.head?) = some clause := by
  cases clause <;> decide

/-- Keywords differ in their first words. -/
theorem eq_of_head? {other : Clause} (h : clause.words.head? = other.words.head?) :
    clause = other := by
  have hfind := find?_first clause
  rw [h, find?_first other] at hfind
  exact (Option.some.inj hfind).symm

theorem head?_of_begins (h : clause.begins words = true) :
    clause.words.head?.map String.toList = words.head?.map Unicode.lowerText := by
  rw [begins, beq_iff_eq] at h
  have hhead := congrArg List.head? h
  rw [List.head?_map, List.head?_map, List.head?_take] at hhead
  cases clause <;> simpa [Clause.words] using hhead

theorem begins_of_startingAt? (h : startingAt? words = some clause) : clause.begins words = true :=
  List.find?_some (p := fun clause : Clause => clause.begins words) h

/-- The keyword at the front of words is that of one clause only. -/
theorem startingAt?_eq_some_iff : startingAt? words = some clause ↔
    ∃ key rest, words = key ++ rest ∧ clause.Spelled key := by
  rw [← begins_iff]
  constructor
  · exact begins_of_startingAt?
  · intro h
    have hone : ∀ other : Clause, other.begins words = true → other = clause := by
      intro other hother
      apply eq_of_head?
      have hinjective : Function.Injective String.toList := fun _ _ => String.toList_inj.mp
      apply Option.map_injective hinjective
      rw [head?_of_begins hother, head?_of_begins h]
    cases hfind : startingAt? words with
    | none =>
      have hnone := List.find?_eq_none.mp hfind clause (by cases clause <;> decide)
      exact absurd h hnone
    | some other => rw [hone other (begins_of_startingAt? hfind)]

/-- The clause at the front of words does not depend on the case of the letters. -/
theorem startingAt?_congr {other : List (List Char)}
    (h : words.map Unicode.lowerText = other.map Unicode.lowerText) :
    startingAt? words = startingAt? other := by
  have hbegins : (begins · words) = (begins · other) := by
    funext clause
    rw [begins, begins, List.map_take, List.map_take, h]
  rw [startingAt?, startingAt?, hbegins]

/-- No clause begins with `by`. -/
theorem startingAt?_by {word : List Char} (h : Unicode.lowerText word = "by".toList)
    (rest : List (List Char)) : startingAt? (word :: rest) = none := by
  rw [startingAt?, List.find?_eq_none]
  intro clause _ hbegins
  have hhead := head?_of_begins hbegins
  rw [List.head?_cons, Option.map_some, h] at hhead
  revert hhead
  cases clause <;> decide

end Clause

namespace Clause

/-- A word follows the keyword of `SELECT`, and begins no clause itself. -/
def Selects (words : List (List Char)) : Prop :=
  ∃ key word rest, key :: word :: rest <:+ words ∧ Clause.select.Spelled [key] ∧
    startingAt? (word :: rest) = none

theorem not_selects_nil : ¬ Selects [] := by
  rintro ⟨key, word, rest, hsuffix, -⟩
  cases List.suffix_nil.mp hsuffix

theorem selects_cons_iff {first : List Char} {words : List (List Char)} :
    Selects (first :: words) ↔
      (Clause.select.Spelled [first] ∧ words ≠ [] ∧ startingAt? words = none) ∨ Selects words := by
  constructor
  · rintro ⟨key, word, rest, hsuffix, hkey, hstart⟩
    rcases List.suffix_cons_iff.mp hsuffix with heq | hsuffix
    · cases heq
      exact .inl ⟨hkey, by simp, hstart⟩
    · exact .inr ⟨key, word, rest, hsuffix, hkey, hstart⟩
  · rintro (⟨hkey, hne, hstart⟩ | ⟨key, word, rest, hsuffix, hkey, hstart⟩)
    · obtain ⟨word, rest, rfl⟩ := List.exists_cons_of_ne_nil hne
      exact ⟨first, word, rest, List.suffix_rfl, hkey, hstart⟩
    · exact ⟨key, word, rest, hsuffix.trans (List.suffix_cons _ _), hkey, hstart⟩

end Clause

/-! ### Parts of a query -/

/-- A part of a query: the keyword of a clause as it is written, and the words after it. -/
structure Part where
  clause : Clause
  key : List (List Char)
  text : List (List Char)

namespace Part

/-- All words of a part. -/
def words (part : Part) : List (List Char) :=
  part.key ++ part.text

/-- The clause with its text. -/
def entry (part : Part) : Clause × String :=
  (part.clause, QueryStructure.joinWords part.text)

/-- The part with its keyword as messages show it. -/
def canonical (part : Part) : Part :=
  { part with key := part.clause.keywordWords }

@[simp] theorem canonical_text (part : Part) : part.canonical.text = part.text := rfl

end Part

/-- Words are some words before the first keyword, and parts. No keyword is passed over: every word
that is not in a keyword begins none. -/
inductive Sectioned : List (List Char) → List (List Char) → List Part → Prop
  | nil : Sectioned [] [] []
  | word {word : List Char} {words before : List (List Char)} {parts : List Part} :
      Clause.startingAt? (word :: words) = none → Sectioned words before parts →
        Sectioned (word :: words) (word :: before) parts
  | keyword {part : Part} {words : List (List Char)} {parts : List Part} :
      part.clause.Spelled part.key → Sectioned words part.text parts →
        Sectioned (part.key ++ words) [] (part :: parts)

namespace Sectioned

variable {words before : List (List Char)} {parts : List Part}

theorem exists_sectioned (words : List (List Char)) : ∃ before parts, Sectioned words before parts := by
  induction hlength : words.length using Nat.strong_induction_on generalizing words with
  | _ length ih =>
    subst hlength
    cases words with
    | nil => exact ⟨[], [], .nil⟩
    | cons word rest =>
      cases hstart : Clause.startingAt? (word :: rest) with
      | none =>
        obtain ⟨before, parts, h⟩ := ih rest.length (by simp) rest rfl
        exact ⟨word :: before, parts, .word hstart h⟩
      | some clause =>
        obtain ⟨key, later, heq, hkey⟩ := Clause.startingAt?_eq_some_iff.mp hstart
        have hshorter : later.length < (word :: rest).length := by
          rw [heq, List.length_append]
          rcases hkey.one_or_by with ⟨_, rfl, -⟩ | ⟨_, _, rfl, -, -⟩ <;> simp
        obtain ⟨text, parts, h⟩ := ih later.length hshorter later rfl
        let part : Part := ⟨clause, key, text⟩
        have hpart : Sectioned (part.key ++ later) [] (part :: parts) := .keyword hkey h
        exact ⟨[], part :: parts, heq ▸ hpart⟩

/-- The parts written one after another are the words. -/
theorem words_eq (h : Sectioned words before parts) :
    words = before ++ parts.flatMap Part.words := by
  induction h with
  | nil => rfl
  | word _ _ ih => rw [ih, List.cons_append]
  | @keyword part words parts _ _ ih => rw [ih]; simp [Part.words]

theorem spelled (h : Sectioned words before parts) :
    ∀ part ∈ parts, part.clause.Spelled part.key := by
  induction h with
  | nil => simp
  | word _ _ ih => exact ih
  | keyword hkey _ ih => exact List.forall_mem_cons.mpr ⟨hkey, ih⟩

/-- A keyword at the front is the first part's. -/
theorem startingAt?_keyword {part : Part} (hkey : part.clause.Spelled part.key)
    (words : List (List Char)) : Clause.startingAt? (part.key ++ words) = some part.clause :=
  Clause.startingAt?_eq_some_iff.mpr ⟨part.key, words, rfl, hkey⟩

theorem isQueryWord {text : List Char} (h : Sectioned (queryWords text) before parts) :
    ∀ part ∈ parts, ∀ word ∈ part.text, IsQueryWord word := by
  intro part hpart word hword
  have hmem : word ∈ queryWords text := by
    rw [h.words_eq]
    exact List.mem_append_right _
      (List.mem_flatMap.mpr ⟨part, hpart, List.mem_append_right _ hword⟩)
  exact isQueryWord_of_mem hmem

/-- The splitter finds the parts. -/
theorem sections_eq (h : Sectioned words before parts) :
    QueryStructure.sections words = (before, parts.map fun part => (part.clause, part.text)) := by
  induction h with
  | nil => rfl
  | word hstart _ ih => simp [QueryStructure.sections, hstart, ih]
  | @keyword part words parts hkey _ ih =>
    have hstart := startingAt?_keyword hkey words
    rcases hkey.one_or_by with ⟨first, hfirst, hlength⟩ | ⟨first, second, hboth, hlength, hby⟩
    · rw [hfirst, List.singleton_append] at hstart ⊢
      simp [QueryStructure.sections, hstart, ih, hlength]
    · rw [hboth, List.cons_append, List.singleton_append] at hstart ⊢
      -- The second word of the keyword is on its own a word of the section, and dropped from it.
      simp [QueryStructure.sections, hstart, ih, hlength, Clause.startingAt?_by hby]

/-- The keywords found are those of the parts. -/
theorem found_eq (h : Sectioned words before parts) :
    Clause.found words = parts.map Part.clause := by
  induction h with
  | nil => rfl
  | @word word words _ _ hstart _ ih =>
    rw [Clause.found, List.tails_cons, List.filterMap_cons_none hstart]
    exact ih
  | @keyword part words parts hkey _ ih =>
    have hstart := startingAt?_keyword hkey words
    rcases hkey.one_or_by with ⟨first, hfirst, -⟩ | ⟨first, second, hboth, -, hby⟩
    · rw [hfirst, List.singleton_append] at hstart ⊢
      rw [Clause.found, List.tails_cons, List.filterMap_cons_some hstart, List.map_cons, ← ih]
      rfl
    · rw [hboth, List.cons_append, List.singleton_append] at hstart ⊢
      rw [Clause.found, List.tails_cons, List.filterMap_cons_some hstart, List.tails_cons,
        List.filterMap_cons_none (Clause.startingAt?_by hby words), List.map_cons, ← ih]
      rfl

theorem isSome_startingAt?_iff (h : Sectioned words before parts) :
    (Clause.startingAt? words).isSome = true ↔ before = [] ∧ parts ≠ [] := by
  cases h with
  | nil => simp [show Clause.startingAt? [] = none from rfl]
  | word hstart _ => simp [hstart]
  | keyword hkey _ => simp [startingAt?_keyword hkey]

/-- Keywords in another case are the same words up to the case of letters. -/
theorem lowerText_canonical (h : Sectioned words before parts) :
    ((parts.map Part.canonical).flatMap Part.words).map Unicode.lowerText =
      (parts.flatMap Part.words).map Unicode.lowerText := by
  induction h with
  | nil => rfl
  | word _ _ ih => exact ih
  | @keyword part _ _ hkey _ ih =>
    have hcanonical : part.canonical.key.map Unicode.lowerText =
        part.key.map Unicode.lowerText :=
      (Clause.spelled_keywordWords part.clause).trans hkey.symm
    simp only [List.map_cons, List.flatMap_cons, List.map_append, Part.words, hcanonical, ih,
      Part.canonical_text]

/-- Writing the keywords in another case leaves the parts as they are. -/
theorem canonical (h : Sectioned words before parts) :
    Sectioned (before ++ (parts.map Part.canonical).flatMap Part.words) before
      (parts.map Part.canonical) := by
  induction h with
  | nil => exact .nil
  | @word word words before parts hstart h ih =>
    rw [List.cons_append]
    refine .word ?_ ih
    rw [← hstart]
    apply Clause.startingAt?_congr
    rw [List.map_cons, List.map_cons, List.map_append, h.lowerText_canonical, ← List.map_append,
      ← h.words_eq]
  | @keyword part words parts _ _ ih =>
    rw [List.map_cons, List.flatMap_cons, List.nil_append, Part.words, List.append_assoc]
    exact .keyword (Clause.spelled_keywordWords part.clause) ih

theorem text_ne_nil_iff (h : Sectioned words before parts) :
    before ≠ [] ↔ words ≠ [] ∧ Clause.startingAt? words = none := by
  cases h with
  | nil => simp
  | word hstart _ => simp [hstart]
  | keyword hkey _ => simp [startingAt?_keyword hkey]

/-- The text of `SELECT` is not empty exactly if a word that begins no clause follows its keyword. -/
theorem selects_iff (h : Sectioned words before parts) :
    Clause.Selects words ↔ ∃ part ∈ parts, part.clause = .select ∧ part.text ≠ [] := by
  induction h with
  | nil => simp [Clause.not_selects_nil]
  | @word word words before parts hstart h ih =>
    have hkey : ¬ Clause.select.Spelled [word] := fun hkey => by
      have hfront := Clause.startingAt?_eq_some_iff.mpr ⟨[word], words, rfl, hkey⟩
      cases hstart.symm.trans hfront
    rw [Clause.selects_cons_iff, ih]
    simp [hkey]
  | @keyword part words parts hkey h ih =>
    have hstart := startingAt?_keyword hkey words
    -- The keyword of `SELECT` at the front makes it the clause of the part.
    have hselect : ∀ first rest, part.key ++ words = first :: rest →
        Clause.select.Spelled [first] → part.clause = .select := fun first rest heq hfirst => by
      have hfront := Clause.startingAt?_eq_some_iff.mpr ⟨[first], rest, heq, hfirst⟩
      exact Option.some.inj (hstart.symm.trans hfront)
    simp only [List.exists_mem_cons_iff, ← ih, h.text_ne_nil_iff]
    rcases hkey.one_or_by with ⟨first, hfirst, -⟩ | ⟨first, second, hboth, hlength, hby⟩
    · rw [hfirst, List.singleton_append, Clause.selects_cons_iff]
      have hiff : Clause.select.Spelled [first] ↔ part.clause = .select :=
        ⟨hselect first words (by rw [hfirst]; rfl), fun heq => heq ▸ hfirst ▸ hkey⟩
      rw [hiff]
    · -- Neither word of a keyword that ends in `by` is that of `SELECT`.
      rw [hboth, List.cons_append, List.singleton_append, Clause.selects_cons_iff,
        Clause.selects_cons_iff]
      have hne : part.clause ≠ .select := fun heq => by rw [heq] at hlength; cases hlength
      have hfirst : ¬ Clause.select.Spelled [first] := fun hkey =>
        hne (hselect first (second :: words) (by rw [hboth]; rfl) hkey)
      have hsecond : ¬ Clause.select.Spelled [second] := fun hkey => by
        have hfront := Clause.startingAt?_eq_some_iff.mpr ⟨[second], words, rfl, hkey⟩
        cases (Clause.startingAt?_by hby words).symm.trans hfront
      simp [hfirst, hsecond, hne]

end Sectioned

/-! ### Splitting and writing -/

namespace QueryStructure

/-- The clauses present in their order, each keyword before its text. -/
def rendered (structure_ : QueryStructure) : List Char :=
  [' '].intercalate (Clause.all.filterMap fun clause =>
    (structure_.get? clause).map fun text => clause.keyword.toList ++ ' ' :: text.toList)

variable {text : List Char} {words before : List (List Char)} {parts : List Part}

/-- No clause is misplaced exactly if each comes after the one before it. -/
theorem firstMisplaced?_eq_none_iff (previous : Option Clause)
    (clauses : List (Clause × List (List Char))) :
    firstMisplaced? previous clauses = none ↔
      (previous.toList ++ clauses.map Prod.fst).IsChain (·.rank < ·.rank) := by
  induction clauses generalizing previous with
  | nil => cases previous <;> simp [firstMisplaced?]
  | cons entry clauses ih =>
    obtain ⟨clause, text⟩ := entry
    have hrest := ih (some clause)
    rw [Option.toList_some, List.singleton_append] at hrest
    cases previous with
    | none => simpa [firstMisplaced?] using hrest
    | some before =>
      rw [List.map_cons, Option.toList_some, List.singleton_append, List.isChain_cons_cons, ← hrest]
      by_cases hrank : clause.rank ≤ before.rank
      · simp [firstMisplaced?, hrank, Nat.not_lt.mpr hrank]
      · simp [firstMisplaced?, hrank, Nat.not_le.mp hrank]

theorem firstMisplaced?_none_iff (clauses : List (Clause × List (List Char))) :
    firstMisplaced? none clauses = none ↔ Clause.InOrder (clauses.map Prod.fst) := by
  have : Trans (fun a b : Clause => a.rank < b.rank) (fun a b : Clause => a.rank < b.rank)
      (fun a b : Clause => a.rank < b.rank) := ⟨Nat.lt_trans⟩
  rw [firstMisplaced?_eq_none_iff]
  exact List.isChain_iff_pairwise

/-- With the clauses in order, the text of a clause is that of its part. -/
theorem get?_entries (hordered : Clause.InOrder (parts.map Part.clause))
    {clause : Clause} {text : String} :
    get? (parts.map Part.entry) clause = some text ↔ (clause, text) ∈ parts.map Part.entry := by
  induction parts with
  | nil => simp [get?]
  | cons part parts ih =>
    obtain ⟨hlater, hordered⟩ := List.pairwise_cons.mp hordered
    rw [List.map_cons, List.mem_cons]
    by_cases hclause : part.clause = clause
    · subst hclause
      have hnot : (part.clause, text) ∉ parts.map Part.entry := by
        intro hmem
        obtain ⟨other, hother, heq⟩ := List.mem_map.mp hmem
        have hsame : other.clause = part.clause := congrArg Prod.fst heq
        have hlt := hlater other.clause (List.mem_map_of_mem hother)
        exact Nat.lt_irrefl _ (hsame ▸ hlt)
      simp only [hnot, or_false]
      simp [get?, Part.entry, eq_comm]
    · have hfind := ih hordered
      rw [← hfind]
      simp [get?, Part.entry, hclause, Ne.symm hclause]

/-- With the clauses in order, those present in their order are all there are. -/
theorem filterMap_get?_entries (hordered : Clause.InOrder (parts.map Part.clause)) :
    Clause.all.filterMap (fun clause =>
      (get? (parts.map Part.entry) clause).map fun text => (clause, text)) =
        parts.map Part.entry := by
  let inOrder (a b : Clause × String) : Prop := a.1.rank < b.1.rank
  have : Std.Irrefl inOrder := ⟨fun _ => Nat.lt_irrefl _⟩
  have : Std.Antisymm inOrder := ⟨fun _ _ h h' => absurd h (Nat.lt_asymm h')⟩
  apply List.Pairwise.eq_of_mem_iff (r := inOrder)
  · have hall : Clause.all.Pairwise (·.rank < ·.rank) := by decide
    refine hall.filterMap _ fun a b hlt c hc d hd => ?_
    obtain ⟨_, -, rfl⟩ := Option.map_eq_some_iff.mp hc
    obtain ⟨_, -, rfl⟩ := Option.map_eq_some_iff.mp hd
    exact hlt
  · rw [Clause.InOrder, List.pairwise_map] at hordered
    exact List.pairwise_map.mpr hordered
  · rintro ⟨clause, text⟩
    have hmem : clause ∈ Clause.all := by cases clause <;> decide
    rw [← get?_entries hordered, List.mem_filterMap]
    simp [hmem]

theorem rendered_entries (hordered : Clause.InOrder (parts.map Part.clause)) :
    rendered (parts.map Part.entry) = [' '].intercalate (parts.map fun part =>
      part.clause.keyword.toList ++ ' ' :: (joinWords part.text).toList) := by
  have hmap := congrArg (List.map fun entry : Clause × String =>
    entry.1.keyword.toList ++ ' ' :: entry.2.toList) (filterMap_get?_entries hordered)
  rw [List.map_filterMap, List.map_map] at hmap
  simp only [Option.map_map] at hmap
  rw [rendered]
  exact congrArg _ hmap

theorem joinWords_eq_empty_iff (hwords : ∀ word ∈ words, IsQueryWord word) :
    joinWords words = "" ↔ words = [] := by
  constructor
  · intro h
    have htext : [' '].intercalate words = [] := by simpa [joinWords] using h
    have hblank : Unicode.isWhitespace ' ' = true := by decide
    rw [← Text.wordsBy_joined hblank fun word hword => (hwords word hword).1, htext]
    rfl
  · rintro rfl
    rfl

/-- The words of a part with its keyword as messages show it. -/
theorem wordsBy_entry {part : Part} (hwords : ∀ word ∈ part.text, IsQueryWord word) :
    Text.wordsBy Unicode.isWhitespace
      (part.clause.keyword.toList ++ ' ' :: (joinWords part.text).toList) =
        part.canonical.words := by
  have hkeyword := Clause.isQueryWord_of_mem_keywordWords part.clause
  rw [Text.wordsBy_append_gap (by decide), Clause.keyword_toList, joinWords, String.toList_ofList,
    Text.wordsBy_joined (by decide) fun word hword => (hkeyword word hword).1,
    Text.wordsBy_joined (by decide) fun word hword => (hwords word hword).1]
  rfl

theorem hash_not_mem_joined {texts : List (List Char)} (h : ∀ text ∈ texts, '#' ∉ text) :
    '#' ∉ [' '].intercalate texts := by
  intro hmem
  obtain ⟨text, htext, hwithin⟩ := within_of_joinWords (by decide) (by simp)
    (List.singleton_infix_iff '#' _ |>.mpr hmem)
  exact h text htext ((List.singleton_infix_iff '#' _).mp hwithin)

/-- The words of what is written are the keywords and the words of the texts. -/
theorem queryWords_rendered (hordered : Clause.InOrder (parts.map Part.clause))
    (hwords : ∀ part ∈ parts, ∀ word ∈ part.text, IsQueryWord word) :
    queryWords (rendered (parts.map Part.entry)) =
      (parts.map Part.canonical).flatMap Part.words := by
  have hhash : '#' ∉ rendered (parts.map Part.entry) := by
    rw [rendered_entries hordered]
    apply hash_not_mem_joined
    intro text htext
    obtain ⟨part, hpart, rfl⟩ := List.mem_map.mp htext
    have hkeyword : '#' ∉ part.clause.keyword.toList := by
      cases part.clause <;> decide
    have htext : '#' ∉ (joinWords part.text).toList := by
      rw [joinWords, String.toList_ofList]
      exact hash_not_mem_joined fun word hword => (hwords part hpart word hword).2
    simp [hkeyword, htext]
  rw [queryWords_of_no_hash hhash, rendered_entries hordered, Text.wordsBy_intercalate (by decide),
    List.flatMap_map, List.flatMap_map]
  exact List.flatMap_congr fun part hpart => wordsBy_entry (hwords part hpart)

/-- The clauses of parts have a `SELECT` that is not empty exactly if a part is one. -/
theorem isSome_nonEmpty?_entries (hordered : Clause.InOrder (parts.map Part.clause))
    (hwords : ∀ part ∈ parts, ∀ word ∈ part.text, IsQueryWord word) (clause : Clause) :
    (nonEmpty? (parts.map Part.entry) clause).isSome = true ↔
      ∃ part ∈ parts, part.clause = clause ∧ part.text ≠ [] := by
  simp only [Option.isSome_iff_exists, nonEmpty?, Option.filter_eq_some_iff, get?_entries hordered]
  constructor
  · rintro ⟨text, hmem, hne⟩
    obtain ⟨part, hpart, heq⟩ := List.mem_map.mp hmem
    obtain ⟨rfl, rfl⟩ := Prod.mk.inj heq
    refine ⟨part, hpart, rfl, fun hempty => ?_⟩
    rw [hempty] at hne
    cases hne
  · rintro ⟨part, hpart, rfl, hne⟩
    refine ⟨joinWords part.text, List.mem_map.mpr ⟨part, hpart, rfl⟩, ?_⟩
    have hjoined : joinWords part.text ≠ "" := fun h =>
      hne ((joinWords_eq_empty_iff (hwords part hpart)).mp h)
    simpa using hjoined

/-- What it takes for words in parts to be clauses, and which. -/
theorem ofText_eq_ok_iff (h : Sectioned (queryWords text) before parts)
    {structure_ : QueryStructure} :
    ofText text = .ok structure_ ↔
      before = [] ∧ parts ≠ [] ∧ Clause.InOrder (parts.map Part.clause) ∧
        (∃ part ∈ parts, part.clause = .select ∧ part.text ≠ []) ∧
        structure_ = parts.map Part.entry := by
  have hmisplaced := firstMisplaced?_none_iff (parts.map fun part => (part.clause, part.text))
  have hentries : (parts.map fun part => (part.clause, part.text)).map (fun entry =>
      (entry.1, joinWords entry.2)) = parts.map Part.entry := List.map_map
  have hselect (hordered : Clause.InOrder (parts.map Part.clause)) :=
    isSome_nonEmpty?_entries hordered h.isQueryWord .select
  have hempty : (parts.map fun part => (part.clause, part.text)) = [] ↔ parts = [] :=
    List.map_eq_nil_iff
  rw [List.map_map] at hmisplaced
  rw [ofText, h.sections_eq]
  -- The splitter goes by its own pairs, of which the three facts above say all that is needed.
  generalize (parts.map fun part => (part.clause, part.text)) = clauses at *
  cases before with
  | cons word before => cases clauses <;> simp
  | nil =>
    cases clauses with
    | nil => simp [hempty.mp rfl]
    | cons clause clauses =>
      have hparts : parts ≠ [] := fun hnil => by simp [hnil] at hempty
      dsimp only
      rw [hentries]
      cases hfirst : firstMisplaced? none (clause :: clauses) with
      | some misplaced =>
        have hnot : ¬ Clause.InOrder (parts.map Part.clause) := fun hordered => by
          cases hfirst.symm.trans (hmisplaced.mpr hordered)
        simp [hnot]
      | none =>
        have hordered : Clause.InOrder (parts.map Part.clause) := hmisplaced.mp hfirst
        dsimp only
        split
        · next hsome =>
          constructor
          · intro hok
            cases hok
            exact ⟨rfl, hparts, hordered, (hselect hordered).mp hsome, rfl⟩
          · rintro ⟨-, -, -, -, rfl⟩
            rfl
        · next hnone =>
          constructor
          · intro hok
            cases hok
          · rintro ⟨-, -, -, hselected, -⟩
            exact absurd ((hselect hordered).mpr hselected) hnone

/-- Splitting is lossless and keeps the order. A text has clauses exactly if its first word begins one,
the keywords are in order, and the text of `SELECT` is not empty. Then its words are parts, each a
keyword in some case and the words of a text; the clauses are those of the parts; what is written for
them has the same words, up to the case of the keywords, and is split into the same clauses. -/
theorem split_lossless (text : List Char) :
    ((∃ structure_, ofText text = .ok structure_) ↔
      (Clause.startingAt? (queryWords text)).isSome = true ∧
        Clause.InOrder (Clause.found (queryWords text)) ∧ Clause.Selects (queryWords text)) ∧
    ∀ structure_, ofText text = .ok structure_ →
      ∃ parts : List Part,
        queryWords text = parts.flatMap (fun part => part.key ++ part.text) ∧
        (∀ part ∈ parts, part.clause.Spelled part.key) ∧
        parts.map Part.clause = Clause.found (queryWords text) ∧
        structure_ = parts.map (fun part => (part.clause, joinWords part.text)) ∧
        queryWords (rendered structure_) =
          parts.flatMap (fun part => part.clause.keywordWords ++ part.text) ∧
        ofText (rendered structure_) = .ok structure_ := by
  obtain ⟨before, parts, h⟩ := Sectioned.exists_sectioned (queryWords text)
  have hok := @ofText_eq_ok_iff text before parts h
  constructor
  · rw [h.isSome_startingAt?_iff, h.found_eq, h.selects_iff]
    constructor
    · rintro ⟨structure_, hsome⟩
      obtain ⟨hbefore, hparts, hordered, hselect, -⟩ := hok.mp hsome
      exact ⟨⟨hbefore, hparts⟩, hordered, hselect⟩
    · rintro ⟨⟨hbefore, hparts⟩, hordered, hselect⟩
      exact ⟨_, hok.mpr ⟨hbefore, hparts, hordered, hselect, rfl⟩⟩
  · intro structure_ hsome
    obtain ⟨rfl, hparts, hordered, hselect, rfl⟩ := hok.mp hsome
    have hrendered := queryWords_rendered hordered h.isQueryWord
    refine ⟨parts, h.words_eq, h.spelled, h.found_eq.symm, rfl, ?_, ?_⟩
    · rw [hrendered, List.flatMap_map]
      rfl
    · have hsectioned : Sectioned (queryWords (rendered (parts.map Part.entry))) []
          (parts.map Part.canonical) := hrendered ▸ h.canonical
      obtain ⟨part, hpart, hclause, htext⟩ := hselect
      apply (ofText_eq_ok_iff hsectioned).mpr
      refine ⟨rfl, by simpa using hparts, ?_,
        ⟨part.canonical, List.mem_map_of_mem hpart, hclause, htext⟩, ?_⟩
      · rw [List.map_map]
        exact hordered
      · rw [List.map_map]
        rfl

/-- Keywords in several cases over two lines, one of them in a comment, a lone `group` and `by`, and a
clause without text. -/
def scatteredKeywords : List Char :=
  "sElect group, x # from y\n by FROM order\nBY x limit 1".toList

theorem split_lossless_of_scatteredKeywords :
    ∃ structure_, ofText scatteredKeywords = .ok structure_ ∧
      structure_ = [(.select, "group, x by"), (.source, ""), (.orderBy, "x"), (.limit, "1")] ∧
      ofText (rendered structure_) = .ok structure_ := by
  have hok : ofText scatteredKeywords =
      .ok [(.select, "group, x by"), (.source, ""), (.orderBy, "x"), (.limit, "1")] :=
    eq_ok_of_toOption (by decide)
  obtain ⟨-, -, -, -, -, -, hagain⟩ := (split_lossless scatteredKeywords).2 _ hok
  exact ⟨_, hok, rfl, hagain⟩

end QueryStructure

end StreamQuery
