import Mathlib.Data.List.Forall2
import StreamQuery.Text.Wildcard

/-!
# Wildcard matching

A pattern matches the texts that can be cut into one piece for each of its characters. The matcher
goes through a text from its end and knows for every suffix of the pattern whether it matches the
text seen so far; here this row is shown to be right after every character.
-/

namespace StreamQuery.Wildcard

/-! ### Pieces of texts -/

/-- Whether a character of a pattern stands for a piece of a text: `%` for any piece, `_` for one
character and all others for themselves. -/
def Takes (element : Char) (piece : List Char) : Prop :=
  if element = '%' then True
  else if element = '_' then piece.length = 1
  else piece = [element]

/-- Whether a text can be cut into pieces, one for each character of a pattern. -/
def CutsInto (pattern text : List Char) : Prop :=
  ∃ pieces : List (List Char), pieces.flatten = text ∧ List.Forall₂ Takes pattern pieces

variable {element c : Char} {pattern text : List Char}

@[simp] theorem takes_run (piece : List Char) : Takes '%' piece :=
  trivial

theorem takes_one_iff (piece : List Char) : Takes '_' piece ↔ ∃ c, piece = [c] :=
  List.length_eq_one_iff

theorem takes_exactly_iff (hrun : element ≠ '%') (hone : element ≠ '_') (piece : List Char) :
    Takes element piece ↔ piece = [element] := by
  rw [Takes, if_neg hrun, if_neg hone]

theorem cutsInto_nil_iff : CutsInto [] text ↔ text = [] := by
  constructor
  · rintro ⟨pieces, rfl, hpieces⟩
    cases hpieces
    rfl
  · rintro rfl
    exact ⟨[], rfl, .nil⟩

theorem cutsInto_cons_iff :
    CutsInto (element :: pattern) text ↔
      ∃ piece rest, text = piece ++ rest ∧ Takes element piece ∧ CutsInto pattern rest := by
  constructor
  · rintro ⟨pieces, rfl, hpieces⟩
    cases hpieces with
    | @cons _ piece _ others hpiece hothers =>
      exact ⟨piece, others.flatten, List.flatten_cons, hpiece, others, rfl, hothers⟩
  · rintro ⟨piece, rest, rfl, hpiece, pieces, rfl, hpieces⟩
    exact ⟨piece :: pieces, List.flatten_cons, .cons hpiece hpieces⟩

/-- A run takes no character, or one more. -/
theorem cutsInto_run_cons_iff :
    CutsInto ('%' :: pattern) (c :: text) ↔
      CutsInto ('%' :: pattern) text ∨ CutsInto pattern (c :: text) := by
  simp only [cutsInto_cons_iff, takes_run, true_and]
  constructor
  · rintro ⟨piece, rest, htext, hrest⟩
    cases piece with
    | nil => exact .inr (htext ▸ hrest)
    | cons d piece =>
      obtain ⟨-, htext⟩ := List.cons_eq_cons.mp htext
      exact .inl ⟨piece, rest, htext, hrest⟩
  · rintro (⟨piece, rest, rfl, hrest⟩ | hrest)
    · exact ⟨c :: piece, rest, rfl, hrest⟩
    · exact ⟨[], c :: text, rfl, hrest⟩

theorem cutsInto_run_nil_iff : CutsInto ('%' :: pattern) [] ↔ CutsInto pattern [] := by
  simp [cutsInto_cons_iff]

theorem cutsInto_one_iff :
    CutsInto ('_' :: pattern) text ↔ ∃ c rest, text = c :: rest ∧ CutsInto pattern rest := by
  simp only [cutsInto_cons_iff, takes_one_iff]
  constructor
  · rintro ⟨_, rest, rfl, ⟨c, rfl⟩, hrest⟩
    exact ⟨c, rest, rfl, hrest⟩
  · rintro ⟨c, rest, rfl, hrest⟩
    exact ⟨[c], rest, rfl, ⟨c, rfl⟩, hrest⟩

theorem cutsInto_exactly_iff (hrun : element ≠ '%') (hone : element ≠ '_') :
    CutsInto (element :: pattern) text ↔
      ∃ rest, text = element :: rest ∧ CutsInto pattern rest := by
  simp only [cutsInto_cons_iff, takes_exactly_iff hrun hone]
  constructor
  · rintro ⟨_, rest, rfl, rfl, hrest⟩
    exact ⟨rest, rfl, hrest⟩
  · rintro ⟨rest, rfl, hrest⟩
    exact ⟨[element], rest, rfl, rfl, hrest⟩

/-! ### The matcher -/

/-- The characters of a pattern are `%`, `_` and all others. -/
theorem ofChar_cases (element : Char) :
    (element = '%' ∧ ofChar element = .run) ∨ (element = '_' ∧ ofChar element = .one) ∨
      (element ≠ '%' ∧ element ≠ '_' ∧ ofChar element = .exactly element) := by
  unfold ofChar
  by_cases hrun : element = '%'
  · exact .inl ⟨hrun, by simp [hrun]⟩
  · by_cases hone : element = '_'
    · exact .inr (.inl ⟨hone, by simp [hone]⟩)
    · exact .inr (.inr ⟨hrun, hone, by simp [hrun, hone]⟩)

/-- A row that is right about a text: it tells of every suffix of the pattern, longest first,
whether the suffix matches the text. -/
def Tells (text : List Char) : List Char → List Bool → Prop
  | [], row => ∃ matched, row = [matched] ∧ (matched = true ↔ CutsInto [] text)
  | element :: pattern, row => ∃ matched rest, row = matched :: rest ∧
      (matched = true ↔ CutsInto (element :: pattern) text) ∧ Tells text pattern rest

theorem Tells.headD_iff {row : List Bool} (h : Tells text pattern row) :
    row.headD false = true ↔ CutsInto pattern text := by
  cases pattern with
  | nil =>
    obtain ⟨matched, rfl, hmatched⟩ := h
    exact hmatched
  | cons element pattern =>
    obtain ⟨matched, rest, rfl, hmatched, -⟩ := h
    exact hmatched

theorem Tells.tail {row : List Bool} (h : Tells text (element :: pattern) row) :
    Tells text pattern row.tail := by
  obtain ⟨matched, rest, rfl, -, hrest⟩ := h
  exact hrest

theorem tells_emptyRow (pattern : List Char) : Tells [] pattern (emptyRow (parse pattern)) := by
  induction pattern with
  | nil => exact ⟨true, rfl, by simp [cutsInto_nil_iff]⟩
  | cons element pattern ih =>
    refine ⟨_, _, rfl, ?_, ih⟩
    obtain ⟨rfl, hrun⟩ | ⟨rfl, hone⟩ | ⟨hrun, hone, hexactly⟩ := ofChar_cases element
    · rw [hrun, cutsInto_run_nil_iff, ← ih.headD_iff]
      simp [parse]
    · simp [hone, cutsInto_one_iff]
    · simp [hexactly, cutsInto_exactly_iff hrun hone]

theorem tells_stepRow {row : List Bool} (h : Tells text pattern row) :
    Tells (c :: text) pattern (stepRow c (parse pattern) row) := by
  induction pattern generalizing row with
  | nil => exact ⟨false, rfl, by simp [cutsInto_nil_iff]⟩
  | cons element pattern ih =>
    refine ⟨_, _, rfl, ?_, ih h.tail⟩
    have htail := h.tail.headD_iff
    obtain ⟨rfl, hrun⟩ | ⟨rfl, hone⟩ | ⟨hrun, hone, hexactly⟩ := ofChar_cases element
    · rw [cutsInto_run_cons_iff, ← h.headD_iff, ← (ih h.tail).headD_iff]
      simp [hrun, parse]
    · have hcut : CutsInto ('_' :: pattern) (c :: text) ↔ CutsInto pattern text := by
        simp [cutsInto_one_iff]
      rw [hcut, ← htail, hone]
    · have hcut : CutsInto (element :: pattern) (c :: text) ↔
          element = c ∧ CutsInto pattern text := by
        simp [cutsInto_exactly_iff hrun hone, eq_comm]
      rw [hcut, ← htail, hexactly, Bool.and_eq_true, beq_iff_eq]

/-- The matcher accepts exactly the texts that can be cut into pieces. -/
theorem matchesAll_iff (pattern text : List Char) :
    matchesAll (parse pattern) text = true ↔ CutsInto pattern text := by
  have hrow : Tells text pattern
      (text.foldr (fun c row => stepRow c (parse pattern) row) (emptyRow (parse pattern))) := by
    induction text with
    | nil => exact tells_emptyRow pattern
    | cons c text ih => exact tells_stepRow ih
  exact hrow.headD_iff

end StreamQuery.Wildcard
