import StreamQuery.Proofs.Query.Apart

/-!
# Texts without shorthand

Expanding shorthand changes a text only where it is shorthand: where an aggregate is called on `*`,
where a dot neither belongs to what stands before it nor to the digits behind it, and where an arrow
is. What is left for such texts are members behind dots.
-/

namespace StreamQuery.Shorthand

open Fragment

/-! ### Stars -/

/-- No aggregate is called on `*`, not even within quotes. -/
def StarFree (text : List Char) : Prop :=
  ∀ name ∈ ["count_agg".toList, "count_distinct_agg".toList], ∀ front rest,
    text = front ++ (name ++ rest) → front.getLast?.any Unicode.isWord = false →
      dropStarCall? rest = none

theorem replaceStarFrom_of_none {name text : List Char} {previous : Option Char}
    (h : ∀ front rest, text = front ++ (name ++ rest) →
      (front.getLast?.or previous).any Unicode.isWord = false → dropStarCall? rest = none)
    (replacement : List Char) : replaceStarFrom name replacement previous 0 text = text := by
  induction text generalizing previous with
  | nil => rfl
  | cons c rest ih =>
    have hrest : replaceStarFrom name replacement (some c) 0 rest = rest := by
      refine ih fun front after hafter hword => h (c :: front) after (by rw [hafter]; rfl) ?_
      cases front with
      | nil => exact hword
      | cons d front => rwa [List.getLast?_cons_cons]
    rw [replaceStarFrom]
    split
    case h_1 after hafter =>
      split at hafter
      case isTrue => cases hafter
      case isFalse hcalls =>
        obtain ⟨hword, hname⟩ : previous.any Unicode.isWord = false ∧ name <+: c :: rest := by
          simpa using hcalls
        obtain ⟨behind, hbehind⟩ := hname
        rw [← hbehind, List.drop_left, h [] behind hbehind.symm hword] at hafter
        cases hafter
    case h_2 => rw [hrest]

theorem expandStars_of_starFree {text : List Char} (h : StarFree text) :
    expandStars text = text := by
  have hkept (name : List Char) (hname : name ∈ ["count_agg".toList, "count_distinct_agg".toList])
      (replacement : List Char) : replaceStarFrom name replacement none 0 text = text :=
    replaceStarFrom_of_none (fun front rest => (Option.or_none).symm ▸ h name hname front rest)
      replacement
  rw [expandStars, hkept _ (by simp), hkept _ (by simp)]

theorem mem_of_dropStarCall? {text after : List Char} (h : dropStarCall? text = some after) :
    '*' ∈ text := by
  unfold dropStarCall? at h
  split at h
  · next rest hopen =>
    split at h
    · next _ hstar =>
      have hrest := (List.dropWhile_suffix _).subset (hstar ▸ List.mem_cons_self)
      exact (List.dropWhile_suffix _).subset (hopen ▸ List.mem_cons_of_mem _ hrest)
    · cases h
  · cases h

theorem starFree_of_not_mem {text : List Char} (h : '*' ∉ text) : StarFree text := by
  rintro name _ front rest rfl _
  cases hcall : dropStarCall? rest with
  | none => rfl
  | some after =>
    have hstar := List.mem_append_right name (mem_of_dropStarCall? hcall)
    exact absurd (List.mem_append_right front hstar) h

/-! ### Leading dots -/

/-- Whether every dot belongs to what stands before it, or to the digits behind it. -/
def dotsAttached (previous : Option Char) : List Fragment → Bool
  | [] => true
  | fragment :: rest =>
    (fragment != .sign '.' || previous.any attachesDot || (firstChar rest).any Char.isDigit) &&
      dotsAttached (fragment.text.getLast?.or previous) rest

theorem expandLeadingDots_of_dotsAttached {previous : Option Char} {fragments : List Fragment}
    (h : dotsAttached previous fragments = true) :
    expandLeadingDots previous fragments = textOf fragments := by
  induction fragments generalizing previous with
  | nil => rfl
  | cons fragment rest ih =>
    rw [dotsAttached, Bool.and_eq_true] at h
    obtain ⟨hfragment, hrest⟩ := h
    by_cases hattached : Attached previous (fragment :: rest)
    · rw [expandLeadingDots_attached hattached, ih hrest, textOf_cons]
    · obtain ⟨hdot, hloose⟩ := Classical.not_imp.mp hattached
      obtain rfl : fragment = .sign '.' := by simpa using hdot
      have hdigit : (firstChar rest).any Char.isDigit = true := by
        simpa [Bool.eq_false_iff.mpr hloose] using hfragment
      obtain ⟨c, hfirst, hc⟩ := (Option.any_eq_true _ _).mp hdigit
      have hunderscore : c ≠ '_' := by
        rintro rfl
        revert hc
        decide
      have hletter : (Unicode.isAlphabetic c || c == '_') = false := by
        simp [Lexer.isAlphabetic_of_isDigit hc, hunderscore]
      rw [expandLeadingDots, if_pos ⟨rfl, by simpa using hloose⟩, hfirst]
      simp only [hletter, hc, Bool.false_eq_true, if_false, if_true, ih hrest]
      rfl

/-! ### Members and arrows -/

theorem expandMembers_word (previous : Option Fragment) (word : List Char) (rest : List Fragment) :
    expandMembers previous (.word word :: rest) =
      word ++ expandMembers (some (.word word)) rest := by
  simp [expandMembers, text]

theorem expandArrows_word (word : List Char) (rest : List Fragment) :
    expandArrows (.word word :: rest) = word ++ expandArrows rest := by
  simp [expandArrows, text]

end StreamQuery.Shorthand
