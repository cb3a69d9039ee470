import Mathlib.Data.List.Basic
import StreamQuery.Unicode.Case

/-!
# Letters in either case

Two texts that differ only in the case of ASCII letters. What looks at characters without telling
the cases of these letters apart looks at both texts in the same way; so do the case mappings.
-/

namespace StreamQuery.Unicode

/-- The capital letters of ASCII. -/
def capitals : List Char :=
  "ABCDEFGHIJKLMNOPQRSTUVWXYZ".toList

/-- A function of characters does not tell the cases of ASCII letters apart. -/
def Caseless {α : Type} (f : Char → α) : Prop :=
  ∀ c ∈ capitals, f c = f c.toLower

instance {α : Type} [DecidableEq α] (f : Char → α) : Decidable (Caseless f) :=
  inferInstanceAs (Decidable (∀ c ∈ capitals, f c = f c.toLower))

theorem mem_capitals {c : Char} (h : c.isUpper = true) : c ∈ capitals := by
  have hletters : ∀ n < 26, Char.ofNat (65 + n) ∈ capitals := by decide
  have hrange : 65 ≤ c.val ∧ c.val ≤ 90 := of_decide_eq_true h
  obtain ⟨hlow, hhigh⟩ : 65 ≤ c.toNat ∧ c.toNat ≤ 90 :=
    hrange.imp UInt32.le_iff_toNat_le.mp UInt32.le_iff_toNat_le.mp
  have hletter := hletters (c.toNat - 65) (by omega)
  rwa [show 65 + (c.toNat - 65) = c.toNat by omega, Char.ofNat_toNat] at hletter

theorem toLower_of_not_isUpper {c : Char} (h : c.isUpper = false) : c.toLower = c :=
  dif_neg (of_decide_eq_false h)

/-- A capital letter or a small one: the characters that have another case in ASCII. -/
theorem isAlpha_of_toLower_eq {c d : Char} (h : c.toLower = d.toLower) (hne : c ≠ d) :
    c.isAlpha = true ∧ d.isAlpha = true := by
  have hletters : ∀ c ∈ capitals, c.isAlpha = true ∧ c.toLower.isAlpha = true := by decide
  cases hc : c.isUpper <;> cases hd : d.isUpper
  · exact absurd (by rwa [toLower_of_not_isUpper hc, toLower_of_not_isUpper hd] at h) hne
  · rw [toLower_of_not_isUpper hc] at h
    exact h ▸ (hletters d (mem_capitals hd)).symm
  · rw [toLower_of_not_isUpper hd] at h
    exact h ▸ hletters c (mem_capitals hc)
  · exact ⟨(hletters c (mem_capitals hc)).1, (hletters d (mem_capitals hd)).1⟩

namespace Caseless

variable {α β : Type} {f : Char → α}

theorem toLower (h : Caseless f) (c : Char) : f c.toLower = f c := by
  cases hupper : c.isUpper with
  | true => exact (h c (mem_capitals hupper)).symm
  | false => rw [toLower_of_not_isUpper hupper]

theorem eq (h : Caseless f) {c d : Char} (hsame : c.toLower = d.toLower) : f c = f d := by
  rw [← h.toLower c, ← h.toLower d, hsame]

theorem comp (h : Caseless f) (g : α → β) : Caseless fun c => g (f c) :=
  fun c hc => congrArg g (h c hc)

end Caseless

theorem caseless_isWhitespace : Caseless isWhitespace := by decide

theorem caseless_isWord : Caseless isWord := by decide

theorem caseless_isDigit : Caseless Char.isDigit := by decide

theorem caseless_isAlpha : Caseless Char.isAlpha := by decide

theorem caseless_toLower : Caseless Char.toLower := by decide

theorem caseless_upper : Caseless upper := by decide

theorem caseless_lower : Caseless lower := by decide

theorem caseless_fold : Caseless fun c => fold c.toNat := by decide

/-- Whether a character is one that is no letter of ASCII. -/
theorem caseless_beq {d : Char} (h : d.isAlpha = false) : Caseless (· == d) := by
  have hletters : ∀ c ∈ capitals, c.isAlpha = true ∧ c.toLower.isAlpha = true := by decide
  intro c hc
  have hne : ∀ {e : Char}, e.isAlpha = true → (e == d) = false := by
    intro e he
    refine beq_false_of_ne ?_
    rintro rfl
    cases h.symm.trans he
  change (c == d) = (c.toLower == d)
  rw [hne (hletters c hc).1, hne (hletters c hc).2]

/-! ### Texts -/

/-- Two texts are the same but for the case of ASCII letters. -/
def SameLetters (text other : List Char) : Prop :=
  text.map Char.toLower = other.map Char.toLower

instance (text other : List Char) : Decidable (SameLetters text other) :=
  inferInstanceAs (Decidable (text.map Char.toLower = other.map Char.toLower))

namespace SameLetters

variable {text other rest others : List Char}

@[refl] theorem refl (text : List Char) : SameLetters text text := rfl

theorem symm (h : SameLetters text other) : SameLetters other text := Eq.symm h

theorem trans (h : SameLetters text other) (hother : SameLetters other others) :
    SameLetters text others := Eq.trans h hother

theorem map_toLower (text : List Char) : SameLetters text (text.map Char.toLower) := by
  rw [SameLetters, List.map_map]
  exact List.map_congr_left fun c _ => (caseless_toLower.toLower c).symm

theorem length_eq (h : SameLetters text other) : text.length = other.length := by
  simpa using congrArg List.length h

theorem append (h : SameLetters text other) (hrest : SameLetters rest others) :
    SameLetters (text ++ rest) (other ++ others) := by
  rw [SameLetters, List.map_append, List.map_append, h, hrest]

theorem cons {c d : Char} (hc : c.toLower = d.toLower) (h : SameLetters rest others) :
    SameLetters (c :: rest) (d :: others) := by
  rw [SameLetters, List.map_cons, List.map_cons, hc, h]

theorem of_cons {c d : Char} (h : SameLetters (c :: rest) (d :: others)) :
    c.toLower = d.toLower ∧ SameLetters rest others :=
  List.cons.inj h

theorem of_nil (h : SameLetters [] other) : other = [] :=
  List.map_eq_nil_iff.mp h.symm

theorem exists_of_cons {c : Char} (h : SameLetters (c :: rest) other) :
    ∃ d others, other = d :: others ∧ c.toLower = d.toLower ∧ SameLetters rest others := by
  cases other with
  | nil => cases h
  | cons d others => exact ⟨d, others, rfl, h.of_cons⟩

theorem isEmpty_eq (h : SameLetters text other) : text.isEmpty = other.isEmpty := by
  cases text with
  | nil => rw [h.of_nil]
  | cons c rest =>
    obtain ⟨_, _, rfl, -⟩ := h.exists_of_cons
    rfl

theorem take (h : SameLetters text other) (count : Nat) :
    SameLetters (text.take count) (other.take count) := by
  rw [SameLetters, List.map_take, List.map_take, h]

theorem drop (h : SameLetters text other) (count : Nat) :
    SameLetters (text.drop count) (other.drop count) := by
  rw [SameLetters, List.map_drop, List.map_drop, h]

theorem reverse (h : SameLetters text other) : SameLetters text.reverse other.reverse := by
  rw [SameLetters, List.map_reverse, List.map_reverse, h]

variable {α : Type} {f : Char → α} {p : Char → Bool}

theorem map_eq (hf : Caseless f) (h : SameLetters text other) : text.map f = other.map f := by
  have hmap : ∀ text : List Char, text.map f = (text.map Char.toLower).map f := fun text => by
    simp [Function.comp_def, hf.toLower]
  rw [hmap text, hmap other, h]

theorem all_eq (hp : Caseless p) (h : SameLetters text other) : text.all p = other.all p := by
  have hall : ∀ text : List Char, text.all p = (text.map p).all id := fun text => by simp
  rw [hall, hall, h.map_eq hp]

theorem head?_map_eq (hf : Caseless f) (h : SameLetters text other) :
    text.head?.map f = other.head?.map f := by
  rw [← List.head?_map, ← List.head?_map, h.map_eq hf]

theorem head?_any_eq (hp : Caseless p) (h : SameLetters text other) :
    text.head?.any p = other.head?.any p := by
  cases text with
  | nil => rw [h.of_nil]
  | cons c rest =>
    obtain ⟨d, others, rfl, hc, -⟩ := h.exists_of_cons
    exact hp.eq hc

theorem flatMap_eq {f : Char → List α} (hf : Caseless f) (h : SameLetters text other) :
    text.flatMap f = other.flatMap f := by
  rw [List.flatMap, List.flatMap, h.map_eq hf]

theorem takeWhile (hp : Caseless p) (h : SameLetters text other) :
    SameLetters (text.takeWhile p) (other.takeWhile p) := by
  have hmap : ∀ text : List Char,
      (text.takeWhile p).map Char.toLower = (text.map Char.toLower).takeWhile p := fun text => by
    rw [List.takeWhile_map, Function.comp_def]
    simp only [hp.toLower]
  rw [SameLetters, hmap, hmap, h]

theorem dropWhile (hp : Caseless p) (h : SameLetters text other) :
    SameLetters (text.dropWhile p) (other.dropWhile p) := by
  have hmap : ∀ text : List Char,
      (text.dropWhile p).map Char.toLower = (text.map Char.toLower).dropWhile p := fun text => by
    rw [List.dropWhile_map, Function.comp_def]
    simp only [hp.toLower]
  rw [SameLetters, hmap, hmap, h]

/-- A character that is no letter of ASCII is in both texts or in none. -/
theorem mem_iff {d : Char} (hd : d.isAlpha = false) (h : SameLetters text other) :
    d ∈ text ↔ d ∈ other := by
  have hmem : ∀ text : List Char, d ∈ text ↔ true ∈ text.map (· == d) := fun text => by simp
  rw [hmem, hmem, h.map_eq (caseless_beq hd)]

/-- A text without letters of ASCII is the same text. -/
theorem eq_of_all (htext : text.all (fun c => !c.isAlpha) = true) (h : SameLetters text other) :
    other = text := by
  induction text generalizing other with
  | nil => exact h.of_nil
  | cons c rest ih =>
    obtain ⟨d, others, rfl, hc, hrest⟩ := h.exists_of_cons
    obtain ⟨halpha, hall⟩ := Bool.and_eq_true_iff.mp (List.all_cons ▸ htext)
    rw [ih hall hrest]
    by_cases hne : c = d
    · rw [hne]
    · rw [(isAlpha_of_toLower_eq hc hne).1] at halpha
      cases halpha

end SameLetters

/-! ### Case mappings -/

variable {text other : List Char}

theorem upperText_eq (h : SameLetters text other) : upperText text = upperText other :=
  h.flatMap_eq caseless_upper

/-- The lowercase form of a text is ASCII only where no capital sigma is looked at in its word. -/
theorem lowerTextAfter_eq_iff {keyword : List Char} (hkeyword : ∀ c ∈ keyword, c.toNat < 128)
    (before text : List Char) :
    lowerTextAfter before text = keyword ↔
      (∀ c ∈ text, c.toNat ≠ 0x3A3) ∧ text.flatMap lower = keyword := by
  induction text generalizing before keyword with
  | nil => simp [lowerTextAfter]
  | cons c rest ih =>
    rw [lowerTextAfter, List.flatMap_cons]
    have hsplit : ∀ {front rest : List Char}, front ++ rest = keyword →
        keyword.drop front.length = rest := by
      rintro front rest rfl
      exact List.drop_left
    have hdrop : ∀ count, ∀ c ∈ keyword.drop count, c.toNat < 128 := fun count c hc =>
      hkeyword c (List.mem_of_mem_drop hc)
    by_cases hsigma : c.toNat = 0x3A3
    · have hfinal : ¬ (Char.ofNat 0x3C2).toNat < 128 := by decide
      have hmedial : ¬ (Char.ofNat 0x3C3).toNat < 128 := by decide
      simp only [hsigma, beq_self_eq_true, if_true, List.mem_cons, forall_eq_or_imp, ne_eq,
        not_true_eq_false, false_and, iff_false]
      rintro rfl
      split at hkeyword
      · exact hfinal (hkeyword _ (by simp))
      · exact hmedial (hkeyword _ (by simp))
    · have hplain : (c.toNat == 0x3A3) = false := beq_false_of_ne hsigma
      simp only [hplain, Bool.false_eq_true, if_false, List.mem_cons, forall_eq_or_imp, ne_eq,
        hsigma, not_false_eq_true, true_and]
      constructor
      · intro h
        obtain ⟨hrest, hflat⟩ :=
          (ih (hdrop _) (c :: before)).mp (hsplit h).symm
        exact ⟨hrest, by rw [hflat]; exact h ▸ by rw [List.drop_left]⟩
      · rintro ⟨hrest, h⟩
        have hflat := (ih (hdrop _) (c :: before)).mpr ⟨hrest, (hsplit h).symm⟩
        rw [hflat, ← h, List.drop_left]

/-- Two texts with the same letters have the same keyword as their lowercase form, or both have
another one. -/
theorem lowerText_eq_iff {keyword : List Char} (hkeyword : ∀ c ∈ keyword, c.toNat < 128)
    (h : SameLetters text other) : lowerText text = keyword ↔ lowerText other = keyword := by
  have hsigma : ∀ text : List Char, (∀ c ∈ text, c.toNat ≠ 0x3A3) ↔ Char.ofNat 0x3A3 ∉ text := by
    intro text
    constructor
    · exact fun hall hmem => hall _ hmem rfl
    · rintro hnot c hc heq
      exact hnot (by rwa [← heq, Char.ofNat_toNat])
  rw [lowerText, lowerText, lowerTextAfter_eq_iff hkeyword, lowerTextAfter_eq_iff hkeyword, hsigma,
    hsigma, h.mem_iff (by decide), h.flatMap_eq caseless_lower]

/-- A name in ASCII is the lowercase form of two names with the same letters, or of none. -/
theorem eq_toLower_iff {item name other : String} (hitem : ∀ c ∈ item.toList, c.toNat < 128)
    (h : SameLetters name.toList other.toList) :
    item = toLower name ↔ item = toLower other := by
  have heq : ∀ name : String, item = toLower name ↔ lowerText name.toList = item.toList := by
    intro name
    rw [toLower, ← String.toList_inj, String.toList_ofList]
    exact eq_comm
  rw [heq, heq]
  exact lowerText_eq_iff hitem h

/-- Names in ASCII are looked up alike under names with the same letters. -/
theorem find?_toLower {α : Type} {items : List α} {nameOf : α → String}
    (hnames : ∀ item ∈ items, ∀ c ∈ (nameOf item).toList, c.toNat < 128) {name other : String}
    (h : SameLetters name.toList other.toList) :
    items.find? (fun item => nameOf item == toLower name) =
      items.find? (fun item => nameOf item == toLower other) := by
  induction items with
  | nil => rfl
  | cons item items ih =>
    obtain ⟨hname, hrest⟩ := List.forall_mem_cons.mp hnames
    have hsame : (nameOf item == toLower name) = (nameOf item == toLower other) :=
      Bool.eq_iff_iff.mpr (by rw [beq_iff_eq, beq_iff_eq, eq_toLower_iff hname h])
    rw [List.find?_cons, List.find?_cons, ih hrest, hsame]

end StreamQuery.Unicode
