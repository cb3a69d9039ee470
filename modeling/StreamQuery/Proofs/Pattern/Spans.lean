import Mathlib.Data.List.Infix
import StreamQuery.Pattern.Simplified

/-!
# What patterns match

The meaning of a pattern is a relation between the places of a text where a match begins and ends.
It does not depend on how the pattern was simplified.
-/

namespace StreamQuery.Pattern

/-- A number of steps in a row from one place to another. -/
def Times (spans : Nat → Nat → Prop) : Nat → Nat → Nat → Prop
  | 0, first, last => first = last
  | count + 1, first, last => ∃ middle, spans first middle ∧ Times spans count middle last

mutual

/-- Whether a pattern matches a text between two places. -/
def Spans (text : List Char) : Pattern → Nat → Nat → Prop
  | .empty, first, last => first = last
  | .verbatim chars, first, last => chars <+: text.drop first ∧ last = first + chars.length
  | .one set, first, last =>
    (∃ c, text[first]? = some c ∧ set.contains c.toNat = true) ∧ last = first + 1
  | .test condition, first, last =>
    condition.holds (if first = 0 then none else text[first - 1]?) text[first]? = true ∧
      first = last
  | .group _ _ inner, first, last => Spans text inner first last
  | .sequence parts, first, last => SpansAll text parts first last
  | .choice branches, first, last => SpansAny text branches first last
  | .repeated inner least most _, first, last =>
    ∃ count, least ≤ count ∧ (∀ bound, most = some bound → count ≤ bound) ∧
      Times (Spans text inner) count first last
termination_by structural pattern => pattern

/-- Whether patterns in a row match a text between two places. -/
def SpansAll (text : List Char) : List Pattern → Nat → Nat → Prop
  | [], first, last => first = last
  | part :: rest, first, last =>
    ∃ middle, Spans text part first middle ∧ SpansAll text rest middle last
termination_by structural parts => parts

/-- Whether one of some patterns matches a text between two places. -/
def SpansAny (text : List Char) : List Pattern → Nat → Nat → Prop
  | [], _, _ => False
  | branch :: rest, first, last => Spans text branch first last ∨ SpansAny text rest first last
termination_by structural branches => branches

end

/-- Whether a pattern matches somewhere in a text. -/
def Occurs (pattern : Pattern) (text : List Char) : Prop :=
  ∃ first last, first ≤ text.length ∧ Spans text pattern first last

variable {text : List Char} {first last : Nat}

/-! ### Sequences -/

theorem spansAll_append (parts others : List Pattern) :
    SpansAll text (parts ++ others) first last ↔
      ∃ middle, SpansAll text parts first middle ∧ SpansAll text others middle last := by
  induction parts generalizing first with
  | nil => simp [SpansAll]
  | cons part rest ih =>
    simp only [List.cons_append, SpansAll, ih]
    constructor
    · rintro ⟨between, hpart, middle, hrest, hothers⟩
      exact ⟨middle, ⟨between, hpart, hrest⟩, hothers⟩
    · rintro ⟨middle, ⟨between, hpart, hrest⟩, hothers⟩
      exact ⟨between, hpart, middle, hrest, hothers⟩

theorem spansAll_singleton (part : Pattern) :
    SpansAll text [part] first last ↔ Spans text part first last := by
  simp [SpansAll]

theorem spansAll_parts (pattern : Pattern) :
    SpansAll text pattern.parts first last ↔ Spans text pattern first last := by
  cases pattern with
  | empty => simp [parts, SpansAll, Spans]
  | sequence inner => simp [parts, Spans]
  | _ => exact spansAll_singleton _

theorem spansAll_flatMap_parts (patterns : List Pattern) :
    SpansAll text (patterns.flatMap parts) first last ↔ SpansAll text patterns first last := by
  induction patterns generalizing first with
  | nil => rfl
  | cons pattern rest ih =>
    simp only [List.flatMap_cons, spansAll_append, spansAll_parts, ih, SpansAll]

/-- Two texts in a row are one. -/
theorem spans_verbatim_append (chars more : List Char) :
    Spans text (.verbatim (chars ++ more)) first last ↔
      ∃ middle, Spans text (.verbatim chars) first middle ∧
        Spans text (.verbatim more) middle last := by
  simp only [Spans]
  constructor
  · rintro ⟨⟨rest, htext⟩, rfl⟩
    rw [List.append_assoc] at htext
    refine ⟨_, ⟨⟨more ++ rest, htext⟩, rfl⟩, ?_, by rw [List.length_append, Nat.add_assoc]⟩
    rw [← List.drop_drop, ← htext, List.drop_left]
    exact ⟨rest, rfl⟩
  · rintro ⟨_, ⟨⟨rest, htext⟩, rfl⟩, hmore, rfl⟩
    rw [← List.drop_drop, ← htext, List.drop_left] at hmore
    obtain ⟨others, rfl⟩ := hmore
    exact ⟨⟨others, by rw [← htext, List.append_assoc]⟩, by rw [List.length_append, Nat.add_assoc]⟩

theorem spansAll_prepend (part : Pattern) (others : List Pattern) :
    SpansAll text (prepend part others) first last ↔
      SpansAll text (part :: others) first last := by
  unfold prepend
  split
  · next chars more rest =>
    simp only [SpansAll, spans_verbatim_append]
    constructor
    · rintro ⟨between, ⟨middle, hchars, hmore⟩, hrest⟩
      exact ⟨middle, hchars, between, hmore, hrest⟩
    · rintro ⟨middle, hchars, between, hmore, hrest⟩
      exact ⟨between, ⟨middle, hchars, hmore⟩, hrest⟩
  · rfl

theorem spansAll_foldr_prepend (patterns : List Pattern) :
    SpansAll text (patterns.foldr prepend []) first last ↔ SpansAll text patterns first last := by
  induction patterns generalizing first with
  | nil => rfl
  | cons pattern rest ih => simp only [List.foldr_cons, spansAll_prepend, SpansAll, ih]

/-- Patterns made one match as they do in a row. -/
theorem spans_ofParts (patterns : List Pattern) :
    Spans text (ofParts patterns) first last ↔ SpansAll text patterns first last := by
  rw [← spansAll_flatMap_parts, ← spansAll_foldr_prepend]
  unfold ofParts
  split
  · next h => rw [h, Spans, SpansAll]
  · next h => rw [h, spansAll_singleton]
  · rw [Spans]

end StreamQuery.Pattern
