import StreamQuery.Unicode.Property

/-!
# Blanks are neither letters nor numbers

A code point that is found in a set lies in one of the ranges that the set was made of. The ranges
of letters and numbers leave out the blanks, so that blanks separate words.
-/

namespace StreamQuery.Unicode

/-- Whether a code point lies in a range. -/
def Within (code : Nat) (range : Nat × Nat) : Prop :=
  range.1 ≤ code ∧ code ≤ range.2

namespace CodePointSet

variable {code : Nat}

theorem exists_of_search {set : CodePointSet} {low high : Nat}
    (h : contains.search set code low high = true) : ∃ range ∈ set.ranges, Within code range := by
  fun_induction contains.search set code low high with
  | case1 => cases h
  | case2 low high hlt middle first last hrange hbefore ih => exact ih h
  | case3 low high hlt middle first last hrange hbefore hafter ih => exact ih h
  | case4 low high hlt middle first last hrange hbefore hafter =>
    exact ⟨_, Array.mem_of_getElem? hrange, by unfold Within; omega⟩
  | case5 => cases h

theorem exists_of_contains {set : CodePointSet} (h : set.contains code = true) :
    ∃ range ∈ set.ranges, Within code range :=
  exists_of_search h

/-- Joining ranges that touch adds no code points. -/
theorem exists_of_joinOnto {current range : Nat × Nat} {rest : List (Nat × Nat)}
    (h : range ∈ joinOnto current rest) (hcode : Within code range) :
    ∃ found ∈ current :: rest, Within code found := by
  fun_induction joinOnto current rest with
  | case1 => exact ⟨range, h, hcode⟩
  | case2 current next rest htouch ih =>
    obtain ⟨found, hfound, hwithin⟩ := ih h
    rcases List.mem_cons.mp hfound with rfl | hrest
    · unfold Within at hwithin ⊢
      by_cases hcurrent : code ≤ current.2
      · exact ⟨current, List.mem_cons_self, hwithin.1, hcurrent⟩
      · exact ⟨next, by simp, by omega, by omega⟩
    · exact ⟨found, by simp [hrest], hwithin⟩
  | case3 current next rest htouch ih =>
    rcases List.mem_cons.mp h with rfl | hrest
    · exact ⟨range, List.mem_cons_self, hcode⟩
    · obtain ⟨found, hfound, hwithin⟩ := ih hrest
      exact ⟨found, List.mem_cons_of_mem _ hfound, hwithin⟩

theorem exists_of_ofRanges {ranges : List (Nat × Nat)} {range : Nat × Nat}
    (h : range ∈ (ofRanges ranges).ranges) (hcode : Within code range) :
    ∃ found ∈ ranges, Within code found := by
  have hsorted : ∀ sorted : List (Nat × Nat), range ∈ (ofSorted sorted).ranges →
      ∃ found ∈ sorted, Within code found := by
    intro sorted hmem
    cases sorted with
    | nil => simp [ofSorted] at hmem
    | cons first rest => exact exists_of_joinOnto (by simpa [ofSorted] using hmem) hcode
  obtain ⟨found, hfound, hwithin⟩ := hsorted _ h
  exact ⟨found, (List.mergeSort_perm _ _).mem_iff.mp hfound, hwithin⟩

/-- A set has none of some code points. -/
def Without (codes : List Nat) (set : CodePointSet) : Prop :=
  ∀ code ∈ codes, ∀ range ∈ set.ranges, ¬Within code range

variable {codes : List Nat}

theorem Without.contains_eq_false {set : CodePointSet} (h : set.Without codes)
    (hcode : code ∈ codes) : set.contains code = false := by
  refine Bool.eq_false_iff.mpr fun hcontains => ?_
  obtain ⟨range, hrange, hwithin⟩ := exists_of_contains hcontains
  exact h code hcode range hrange hwithin

theorem without_unionAll {sets : List CodePointSet} (h : ∀ set ∈ sets, set.Without codes) :
    (unionAll sets).Without codes := by
  intro code hcode range hrange hwithin
  obtain ⟨found, hfound, hwithin⟩ := exists_of_ofRanges hrange hwithin
  obtain ⟨set, hset, hfound⟩ := List.mem_flatMap.mp hfound
  exact h set hset code hcode found (Array.mem_toList_iff.mp hfound) hwithin

/-- Whether a line of ranges leaves out some code points. -/
def leavesOut (codes : List Nat) (line : List Char) : Bool :=
  ((fields ' ' line).flatMap rangesOfText).all fun range =>
    codes.all fun code => code < range.1 || range.2 < code

theorem without_ofLines {lines : List String}
    (h : ∀ line ∈ lines, leavesOut codes line.toList = true) : (ofLines lines).Without codes := by
  intro code hcode range hrange hwithin
  obtain ⟨found, hfound, hwithin⟩ := exists_of_ofRanges hrange hwithin
  obtain ⟨line, hline, hfound⟩ := List.mem_flatMap.mp hfound
  have hleft := List.all_eq_true.mp (List.all_eq_true.mp (h line hline) found hfound) code hcode
  unfold Within at hwithin
  simp only [Bool.or_eq_true, decide_eq_true_eq] at hleft
  omega

/-- A line is looked at as the list of its characters. -/
theorem leavesOut_cons {chars : List Char} {lines : List String}
    (h : leavesOut codes chars = true) (hlines : ∀ line ∈ lines, leavesOut codes line.toList = true) :
    ∀ line ∈ String.ofList chars :: lines, leavesOut codes line.toList = true :=
  List.forall_mem_cons.mpr ⟨by rwa [String.toList_ofList], hlines⟩

end CodePointSet

open CodePointSet

/-- The blanks beyond ASCII. -/
def blanks : List Nat :=
  [0x85, 0xA0, 0x1680, 0x2000, 0x2001, 0x2002, 0x2003, 0x2004, 0x2005, 0x2006, 0x2007, 0x2008,
    0x2009, 0x200A, 0x2028, 0x2029, 0x202F, 0x205F, 0x3000]

/-- The sets that letters and numbers are made of have no blanks. -/
theorem without_categories : ∀ set ∈ [Category.uppercaseLetterSet, Category.lowercaseLetterSet,
    Category.titlecaseLetterSet, Category.modifierLetterSet, Category.otherLetterSet,
    otherAlphabeticSet, Category.decimalNumberSet, Category.letterNumberSet,
    Category.otherNumberSet], set.Without blanks := by
  simp only [List.forall_mem_cons]
  refine ⟨?_, ?_, ?_, ?_, ?_, ?_, ?_, ?_, ?_, by simp⟩
  all_goals
    refine without_ofLines ?_
    repeat' first
      | exact fun _ h => absurd h List.not_mem_nil
      | refine leavesOut_cons (by decide +kernel) ?_

theorem without_letterSet : letterSet.Without blanks :=
  without_unionAll fun set h => without_categories set (List.mem_append_left
    [otherAlphabeticSet, Category.decimalNumberSet, Category.letterNumberSet,
      Category.otherNumberSet] h)

theorem without_alphabeticSet : alphabeticSet.Without blanks := by
  have hletters := without_letterSet
  have hsets := without_categories
  simp only [List.forall_mem_cons] at hsets
  obtain ⟨-, -, -, -, -, halphabetic, -, hletterNumbers, -⟩ := hsets
  refine without_unionAll ?_
  simp only [List.forall_mem_cons]
  exact ⟨hletters, hletterNumbers, halphabetic, by simp⟩

theorem without_numberSet : numberSet.Without blanks :=
  without_unionAll fun set h => without_categories set (List.mem_append_right
    [Category.uppercaseLetterSet, Category.lowercaseLetterSet, Category.titlecaseLetterSet,
      Category.modifierLetterSet, Category.otherLetterSet, otherAlphabeticSet] h)

theorem toNat_of_isWhitespace {c : Char} (h : isWhitespace c = true) :
    c.toNat < 33 ∨ c.toNat ∈ blanks := by
  simp only [isWhitespace, Bool.or_eq_true, Bool.and_eq_true, decide_eq_true_eq,
    beq_iff_eq] at h
  simp only [blanks, List.mem_cons, List.not_mem_nil, or_false]
  omega

/-- Blanks are neither letters nor numbers. -/
theorem isAlphanumeric_of_isWhitespace {c : Char} (h : isWhitespace c = true) :
    isAlphanumeric c = false := by
  rcases toNat_of_isWhitespace h with hascii | hblank
  · have hcontrols : ∀ n : Fin 33, isAlphanumeric (Char.ofNat n) = false := by decide
    have hfound := hcontrols ⟨c.toNat, hascii⟩
    rwa [Char.ofNat_toNat] at hfound
  · have hascii : ¬c.toNat < 128 := by
      have hbeyond : ∀ code ∈ blanks, ¬code < 128 := by decide
      exact hbeyond _ hblank
    rw [isAlphanumeric, isAlphabetic, isNumeric, if_neg hascii, if_neg hascii,
      without_alphabeticSet.contains_eq_false hblank, without_numberSet.contains_eq_false hblank]
    rfl

end StreamQuery.Unicode
