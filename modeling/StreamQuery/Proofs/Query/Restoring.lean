import Mathlib.Data.List.Infix
import StreamQuery.Proofs.Computation
import StreamQuery.Proofs.Query.Piece

/-!
# Putting literals back

Restoring looks for words shaped like placeholders from the left. Placeholders that do not occur in
a text are found again in the rewritten text, unless the text in front of a literal begins such a
word itself: two underscores and twelve letters take the underscores of the placeholder along.
-/

namespace StreamQuery

namespace Placeholder

theorem lettersAt?_eq_some_iff {text letters : List Char} :
    lettersAt? text = some letters ↔
      letters.length = letterCount ∧ letters.all Char.isAlpha = true ∧
        ∃ rest, text = '_' :: '_' :: letters ++ '_' :: '_' :: rest := by
  constructor
  · intro h
    unfold lettersAt? at h
    split at h
    case h_2 => cases h
    case h_1 rest =>
      simp only at h
      split at h
      case isFalse => cases h
      case isTrue hletters =>
        split at h
        case h_2 => cases h
        case h_1 tail hdrop =>
          cases h
          refine ⟨hletters.1, hletters.2, tail, ?_⟩
          rw [List.cons_append, List.cons_append, ← hdrop, List.take_append_drop]
  · rintro ⟨hlength, hletters, rest, rfl⟩
    have htake : (letters ++ '_' :: '_' :: rest).take letterCount = letters := by
      rw [← hlength, List.take_left]
    have hdrop : (letters ++ '_' :: '_' :: rest).drop letterCount = '_' :: '_' :: rest := by
      rw [← hlength, List.drop_left]
    simp only [List.cons_append, lettersAt?, htake, hdrop, hlength, hletters, and_self, if_true]

theorem isWhole_iff {text : List Char} :
    isWhole text = true ↔ ∃ letters, letters.length = letterCount ∧
      letters.all Char.isAlpha = true ∧ text = '_' :: '_' :: letters ++ ['_', '_'] := by
  simp only [isWhole, Bool.and_eq_true, beq_iff_eq, Option.isSome_iff_exists,
    lettersAt?_eq_some_iff]
  constructor
  · rintro ⟨hsize, letters, hlength, hletters, rest, rfl⟩
    obtain rfl : rest = [] := by
      simpa [size, hlength] using hsize
    exact ⟨letters, hlength, hletters, rfl⟩
  · rintro ⟨letters, hlength, hletters, rfl⟩
    exact ⟨by simp [size, hlength], letters, hlength, hletters, [], rfl⟩

example : isWhole "__abcdefghijkl__".toList = true ∧ isWhole "__abcdefghijk__".toList = false := by
  decide +kernel

theorem length_of_isWhole {text : List Char} (h : isWhole text = true) : text.length = size := by
  simp only [isWhole, Bool.and_eq_true, beq_iff_eq] at h
  exact h.1

theorem lettersOf_spec (count n : Nat) :
    (lettersOf count n).length = count ∧ (lettersOf count n).all Char.isAlpha = true := by
  have hletter : ∀ digit : Fin 26, (Char.ofNat ('a'.toNat + digit)).isAlpha = true := by decide
  induction count generalizing n with
  | zero => exact ⟨rfl, rfl⟩
  | succ count ih =>
    obtain ⟨hlength, hletters⟩ := ih (n / 26)
    refine ⟨congrArg Nat.succ hlength, ?_⟩
    rw [lettersOf, List.all_cons, hletters, Bool.and_true]
    exact hletter ⟨n % 26, Nat.mod_lt n (by decide)⟩

theorem isWhole_ofNumber (n : Nat) : isWhole (ofNumber n) = true :=
  isWhole_iff.mpr ⟨_, (lettersOf_spec _ n).1, (lettersOf_spec _ n).2, rfl⟩

/-- Whether a placeholder stands at the front is seen from the characters of one. -/
theorem isSome_lettersAt?_append {text : List Char} (h : (lettersAt? text).isSome = true)
    (rest : List Char) : (lettersAt? (text ++ rest)).isSome = true := by
  obtain ⟨letters, hsome⟩ := Option.isSome_iff_exists.mp h
  obtain ⟨hlength, hletters, tail, rfl⟩ := lettersAt?_eq_some_iff.mp hsome
  exact Option.isSome_iff_exists.mpr ⟨letters, lettersAt?_eq_some_iff.mpr
    ⟨hlength, hletters, tail ++ rest, by simp⟩⟩

/-- The characters of a placeholder at the front of a text: underscores around letters. -/
theorem getElem?_of_lettersAt? {text : List Char} (h : (lettersAt? text).isSome = true) :
    size ≤ text.length ∧ text[0]? = some '_' ∧
      ∀ index, 2 ≤ index → index < letterCount + 2 → text[index]? ≠ some '_' := by
  obtain ⟨letters, hsome⟩ := Option.isSome_iff_exists.mp h
  obtain ⟨hlength, hletters, tail, rfl⟩ := lettersAt?_eq_some_iff.mp hsome
  refine ⟨by simp [size, hlength], rfl, fun index hfirst hlast => ?_⟩
  obtain ⟨offset, rfl⟩ := Nat.exists_eq_add_of_le' hfirst
  have hoffset : offset < letters.length := by omega
  simp only [List.cons_append, List.getElem?_cons_succ, List.getElem?_append_left hoffset]
  intro hunderscore
  have := List.all_eq_true.mp hletters '_' (List.mem_of_getElem? hunderscore)
  revert this
  decide

/-- A prefix that reaches past the letters shows whether a placeholder stands at the front. -/
theorem isSome_lettersAt?_of_append {text rest : List Char} (hlength : size ≤ text.length)
    (h : (lettersAt? (text ++ rest)).isSome = true) : (lettersAt? text).isSome = true := by
  obtain ⟨letters, hsome⟩ := Option.isSome_iff_exists.mp h
  obtain ⟨hletters, hall, tail, heq⟩ := lettersAt?_eq_some_iff.mp hsome
  have hfront : '_' :: '_' :: letters ++ ['_', '_'] <+: text := by
    have hword : '_' :: '_' :: letters ++ ['_', '_'] <+: text ++ rest := ⟨tail, by simp [heq]⟩
    refine List.prefix_of_prefix_length_le hword (List.prefix_append _ _) ?_
    rw [List.length_append, List.length_cons, List.length_cons, hletters]
    exact hlength
  obtain ⟨after, rfl⟩ := hfront
  exact Option.isSome_iff_exists.mpr ⟨letters, lettersAt?_eq_some_iff.mpr
    ⟨hletters, hall, after, by simp⟩⟩

end Placeholder

namespace LiteralTable

/-- The placeholders of a table fit a text: they are pairwise different and do not occur in it. -/
structure Fits (table : LiteralTable) (text : List Char) : Prop where
  whole : ∀ entry ∈ table, Placeholder.isWhole entry.1 = true
  nodup : (table.map (·.1)).Nodup
  absent : ∀ entry ∈ table, ¬ entry.1 <:+: text

variable {table : LiteralTable}

theorem fits_iff {text : List Char} :
    table.Fits text ↔ table.all (fun entry => Placeholder.isWhole entry.1) = true ∧
      (table.map (·.1)).Nodup ∧ table.all (fun entry => !decide (entry.1 <:+: text)) = true := by
  simp only [List.all_eq_true, Bool.not_eq_true', decide_eq_false_iff_not]
  exact ⟨fun h => ⟨h.whole, h.nodup, h.absent⟩, fun h => ⟨h.1, h.2.1, h.2.2⟩⟩

instance (text : List Char) : Decidable (table.Fits text) :=
  decidable_of_iff _ fits_iff.symm

theorem mem_of_get? {placeholder : List Char} {literal : Literal}
    (h : table.get? placeholder = some literal) : (placeholder, literal) ∈ table := by
  obtain ⟨⟨key, found⟩, hfind, rfl⟩ := Option.map_eq_some_iff.mp h
  obtain rfl : key = placeholder := by simpa using List.find?_some hfind
  exact List.mem_of_find?_eq_some hfind

theorem get?_of_mem {placeholder : List Char} {literal : Literal}
    (hnodup : (table.map (·.1)).Nodup) (h : (placeholder, literal) ∈ table) :
    table.get? placeholder = some literal := by
  unfold get?
  induction table with
  | nil => cases h
  | cons entry rest ih =>
    obtain ⟨hentry, hrest⟩ := List.nodup_cons.mp hnodup
    rcases List.mem_cons.mp h with rfl | hmem
    · simp
    · have hne : entry.1 ≠ placeholder := by
        rintro rfl
        exact hentry (List.mem_map.mpr ⟨_, hmem, rfl⟩)
      simpa [hne] using ih hrest hmem

theorem get?_eq_none {placeholder : List Char} (h : ∀ entry ∈ table, entry.1 ≠ placeholder) :
    table.get? placeholder = none := by
  simpa [get?] using h

/-! ### Restoring step by step -/

theorem restoreFrom_skip (quotes : Bool) (skipped rest : List Char) :
    restoreFrom table quotes skipped.length (skipped ++ rest) =
      restoreFrom table quotes 0 rest := by
  induction skipped with
  | nil => rfl
  | cons c skipped ih => simpa [restoreFrom] using ih

theorem restoreFrom_cons {quotes : Bool} {c : Char} {rest : List Char}
    (h : (Placeholder.lettersAt? (c :: rest)).isSome = false) :
    restoreFrom table quotes 0 (c :: rest) = c :: restoreFrom table quotes 0 rest := by
  simp [restoreFrom, h]

/-- A word shaped like a placeholder is replaced as a whole. -/
theorem restoreFrom_found {quotes : Bool} {word rest : List Char}
    (hlength : word.length = Placeholder.size)
    (h : (Placeholder.lettersAt? (word ++ rest)).isSome = true) :
    restoreFrom table quotes 0 (word ++ rest) =
      table.restored quotes word ++ restoreFrom table quotes 0 rest := by
  obtain ⟨c, tail, rfl⟩ : ∃ c tail, word = c :: tail := by
    cases word with
    | nil => cases hlength
    | cons c tail => exact ⟨c, tail, rfl⟩
  have htake : (c :: (tail ++ rest)).take Placeholder.size = c :: tail := by
    rw [← hlength, ← List.cons_append, List.take_left]
  have hskip : Placeholder.size - 1 = tail.length := by
    rw [← hlength]
    rfl
  rw [List.cons_append] at h ⊢
  rw [restoreFrom, if_pos h, htake, hskip, restoreFrom_skip]

theorem restoreFrom_placeholder {quotes : Bool} {placeholder : List Char} {literal : Literal}
    (hwhole : Placeholder.isWhole placeholder = true)
    (hget : table.get? placeholder = some literal) (rest : List Char) :
    restoreFrom table quotes 0 (placeholder ++ rest) =
      (if quotes then literal.quoted else literal.text) ++ restoreFrom table quotes 0 rest := by
  have hfound : (Placeholder.lettersAt? placeholder).isSome = true := by
    simp only [Placeholder.isWhole, Bool.and_eq_true] at hwhole
    exact hwhole.2
  rw [restoreFrom_found (Placeholder.length_of_isWhole hwhole)
    (Placeholder.isSome_lettersAt?_append hfound rest), restored, hget]

end LiteralTable

namespace Piece

open LiteralTable

/-- The characters up to the next literal and the first ones of its placeholder. -/
def front : List Piece → List Char
  | [] => []
  | .plain c :: rest => c :: front rest
  | .literal _ :: _ => ['_', '_']

/-- Whether a word shaped like a placeholder runs into a literal. The first `skip` characters
belong to such a word already found. -/
def runsInto : Nat → List Piece → Bool
  | _, [] => false
  | 0, .literal _ :: rest => runsInto 0 rest
  | _ + 1, .literal _ :: _ => true
  | skip + 1, .plain _ :: rest => runsInto skip rest
  | 0, .plain c :: rest =>
    runsInto (if (Placeholder.lettersAt? (c :: front rest)).isSome then Placeholder.size - 1 else 0)
      rest

/-- The pieces of characters outside of literals. -/
def plains (chars : List Char) : List Piece :=
  chars.map .plain

theorem textOf_append (first second : List Piece) :
    textOf (first ++ second) = textOf first ++ textOf second :=
  List.flatMap_append

@[simp] theorem textOf_plains (chars : List Char) : textOf (plains chars) = chars := by
  induction chars with
  | nil => rfl
  | cons c chars ih => exact congrArg (c :: ·) ih

theorem rewrite_plains (name : Nat → List Char) (index : Nat) (chars : List Char)
    (rest : List Piece) :
    rewrite name index (plains chars ++ rest) = chars ++ rewrite name index rest := by
  induction chars with
  | nil => rfl
  | cons c chars ih => exact congrArg (c :: ·) ih

theorem tableOf_plains (name : Nat → List Char) (index : Nat) (chars : List Char)
    (rest : List Piece) : tableOf name index (plains chars ++ rest) = tableOf name index rest := by
  induction chars with
  | nil => rfl
  | cons c chars ih => exact ih

theorem front_plains (chars : List Char) (rest : List Piece) :
    front (plains chars ++ rest) = chars ++ front rest := by
  induction chars with
  | nil => rfl
  | cons c chars ih => exact congrArg (c :: ·) ih

theorem runsInto_plains (chars : List Char) (rest : List Piece) :
    runsInto chars.length (plains chars ++ rest) = runsInto 0 rest := by
  induction chars with
  | nil => rfl
  | cons c chars ih => exact ih

theorem runsInto_literal {chars : List Char} {skip : Nat} (h : chars.length < skip)
    (found : Literal) (rest : List Piece) :
    runsInto skip (plains chars ++ .literal found :: rest) = true := by
  induction chars generalizing skip with
  | nil =>
    obtain ⟨skip, rfl⟩ := Nat.exists_eq_succ_of_ne_zero (Nat.ne_of_gt h)
    rfl
  | cons c chars ih =>
    obtain ⟨skip, rfl⟩ := Nat.exists_eq_succ_of_ne_zero (Nat.ne_of_gt (Nat.zero_lt_of_lt h))
    exact ih (Nat.lt_of_succ_lt_succ h)

/-- Pieces begin with so many plain characters, or with fewer before a literal or the end. -/
theorem plains_cases (count : Nat) (pieces : List Piece) :
    (∃ chars rest, chars.length = count ∧ pieces = plains chars ++ rest) ∨
    (∃ chars found rest, chars.length < count ∧
      pieces = plains chars ++ .literal found :: rest) ∨
    ∃ chars, chars.length < count ∧ pieces = plains chars := by
  induction count generalizing pieces with
  | zero => exact .inl ⟨[], pieces, rfl, rfl⟩
  | succ count ih =>
    match pieces with
    | [] => exact .inr (.inr ⟨[], Nat.zero_lt_succ _, rfl⟩)
    | .literal found :: rest => exact .inr (.inl ⟨[], found, rest, Nat.zero_lt_succ _, rfl⟩)
    | .plain c :: rest =>
      rcases ih rest with ⟨chars, later, hlength, rfl⟩ | ⟨chars, found, later, hlength, rfl⟩ |
        ⟨chars, hlength, rfl⟩
      · exact .inl ⟨c :: chars, later, by simp [hlength], rfl⟩
      · exact .inr (.inl ⟨c :: chars, found, later, by simpa using hlength, rfl⟩)
      · exact .inr (.inr ⟨c :: chars, by simpa using hlength, rfl⟩)

/-- A placeholder that begins in front of a literal is seen from the underscores of the
placeholder of the literal. -/
theorem isSome_lettersAt?_rewrite {name : Nat → List Char} {index : Nat} {c : Char}
    {rest : List Piece}
    (hnames : ∀ entry ∈ tableOf name index rest, Placeholder.isWhole entry.1 = true) :
    (Placeholder.lettersAt? (c :: rewrite name index rest)).isSome =
      (Placeholder.lettersAt? (c :: front rest)).isSome := by
  rcases plains_cases Placeholder.size rest with ⟨chars, later, hlength, rfl⟩ |
    ⟨chars, found, later, hlength, rfl⟩ | ⟨chars, -, rfl⟩
  · have hsize : Placeholder.size ≤ (c :: chars).length := by simp [hlength]
    rw [rewrite_plains, front_plains, ← List.cons_append, ← List.cons_append]
    exact Bool.eq_iff_iff.mpr
      ⟨fun h => Placeholder.isSome_lettersAt?_append
        (Placeholder.isSome_lettersAt?_of_append hsize h) _,
      fun h => Placeholder.isSome_lettersAt?_append
        (Placeholder.isSome_lettersAt?_of_append hsize h) _⟩
  · rw [tableOf_plains] at hnames
    obtain ⟨letters, -, -, hname⟩ :=
      Placeholder.isWhole_iff.mp (hnames _ List.mem_cons_self)
    change name index = _ at hname
    rw [rewrite_plains, front_plains]
    simp only [rewrite, front, hname]
    rw [show chars ++ ('_' :: '_' :: letters ++ ['_', '_'] ++ rewrite name (index + 1) later) =
      chars ++ ['_', '_'] ++ (letters ++ ['_', '_'] ++ rewrite name (index + 1) later) by simp,
      ← List.cons_append]
    refine Bool.eq_iff_iff.mpr ⟨fun h => ?_, fun h => Placeholder.isSome_lettersAt?_append h _⟩
    by_cases hlong : Placeholder.size ≤ (c :: (chars ++ ['_', '_'])).length
    · exact Placeholder.isSome_lettersAt?_of_append hlong h
    · -- An underscore of the placeholder would have to be one of its twelve letters.
      exfalso
      simp only [List.length_cons, List.length_append, List.length_nil, Placeholder.size] at hlong
      obtain ⟨-, -, hletters⟩ := Placeholder.getElem?_of_lettersAt? h
      rcases Nat.eq_zero_or_pos chars.length with hzero | hpos
      · obtain rfl := List.length_eq_zero_iff.mp hzero
        exact hletters 2 (Nat.le_refl _) (by decide) rfl
      · refine hletters (chars.length + 1) (by omega) (by omega) ?_
        simp
  · rw [show plains chars = plains chars ++ [] by simp, rewrite_plains, front_plains]
    rfl

/-- A word shaped like a placeholder that runs into a literal takes underscores of the placeholder
along, so that the text is not given back. -/
theorem restoreFrom_rewrite_ne {table : LiteralTable} {name : Nat → List Char} {index : Nat}
    {c : Char} {chars : List Char} {found : Literal} (rest : List Piece)
    (hquotes : ∀ entry ∈ table, Literal.isQuote entry.2.quote = true)
    (hquote : Literal.isQuote found.quote = true)
    (hwhole : Placeholder.isWhole (name index) = true)
    (hword : (Placeholder.lettersAt? (c :: (chars ++ ['_', '_']))).isSome = true)
    (hshort : chars.length < Placeholder.size - 1) :
    restoreFrom table true 0 (c :: (chars ++ (name index ++ rewrite name (index + 1) rest))) ≠
      c :: (chars ++ (found.quoted ++ textOf rest)) := by
  have hne : ∀ quote, Literal.isQuote quote = true → quote ≠ '_' := by
    rintro quote hquote rfl
    cases hquote
  obtain ⟨hlong, hfirst, -⟩ := Placeholder.getElem?_of_lettersAt? hword
  obtain rfl : c = '_' := by simpa using hfirst
  simp only [List.length_cons, List.length_append, List.length_nil, Placeholder.size,
    Placeholder.letterCount] at hlong hshort
  -- The word ends with one or two underscores of the placeholder.
  obtain ⟨taken, left, hunderscores, hlength⟩ : ∃ taken left,
      ['_', '_'] = '_' :: taken ++ left ∧
        ('_' :: chars ++ '_' :: taken).length = Placeholder.size := by
    rcases (by omega : chars.length = 13 ∨ chars.length = 14) with h | h
    · exact ⟨['_'], [], rfl, by simp [h, Placeholder.size, Placeholder.letterCount]⟩
    · exact ⟨[], ['_'], rfl, by simp [h, Placeholder.size, Placeholder.letterCount]⟩
  obtain ⟨letters, -, -, hname⟩ := Placeholder.isWhole_iff.mp hwhole
  have hsplit : '_' :: (chars ++ (name index ++ rewrite name (index + 1) rest)) =
      ('_' :: chars ++ '_' :: taken) ++
        (left ++ (letters ++ ['_', '_'] ++ rewrite name (index + 1) rest)) := by
    rw [hname, show '_' :: '_' :: letters ++ ['_', '_'] =
      '_' :: taken ++ left ++ (letters ++ ['_', '_']) by rw [← hunderscores]; rfl]
    simp
  have hfound : (Placeholder.lettersAt? (('_' :: chars ++ '_' :: taken) ++
      (left ++ (letters ++ ['_', '_'] ++ rewrite name (index + 1) rest)))).isSome = true := by
    rw [hunderscores] at hword
    have := Placeholder.isSome_lettersAt?_append hword
      (letters ++ ['_', '_'] ++ rewrite name (index + 1) rest)
    simpa using this
  rw [hsplit, restoreFrom_found hlength hfound, restored]
  cases hget : table.get? ('_' :: chars ++ '_' :: taken) with
  | none =>
    intro heq
    simp only [List.cons_append, List.append_assoc, List.cons_inj_right,
      List.append_cancel_left_eq, Literal.quoted, List.cons.injEq] at heq
    exact hne _ hquote heq.1.symm
  | some literal =>
    intro heq
    simp only [if_pos, Literal.quoted, List.cons_append, List.cons.injEq] at heq
    exact hne _ (hquotes _ (mem_of_get? hget)) heq.1

/-- Restoring gives a text back if and only if no word shaped like a placeholder runs into a
literal. -/
theorem restoreFrom_rewrite_iff {table : LiteralTable} {name : Nat → List Char}
    (hwhole : ∀ entry ∈ table, Placeholder.isWhole entry.1 = true)
    (hnodup : (table.map (·.1)).Nodup)
    (hquotes : ∀ entry ∈ table, Literal.isQuote entry.2.quote = true)
    (pieces : List Piece) (index : Nat)
    (habsent : ∀ entry ∈ table, ¬ entry.1 <:+: textOf pieces)
    (hpart : ∀ entry ∈ tableOf name index pieces, entry ∈ table) :
    restoreFrom table true 0 (rewrite name index pieces) = textOf pieces ↔
      runsInto 0 pieces = false := by
  induction hcount : pieces.length using Nat.strongRecOn generalizing pieces index with
  | ind count ih =>
    subst hcount
    have hnames : ∀ {later : List Piece} {index : Nat},
        (∀ entry ∈ tableOf name index later, entry ∈ table) →
        ∀ entry ∈ tableOf name index later, Placeholder.isWhole entry.1 = true :=
      fun h entry hentry => hwhole entry (h entry hentry)
    match pieces with
    | [] => simp [rewrite, restoreFrom, runsInto]
    | .literal found :: rest =>
      have hmem : (name index, found) ∈ table := hpart _ List.mem_cons_self
      have hrest := ih rest.length (Nat.lt_succ_self _) rest (index + 1)
        (fun entry hentry hwithin => habsent entry hentry
          (hwithin.trans (List.suffix_append _ _).isInfix))
        (fun entry hentry => hpart entry (List.mem_cons_of_mem _ hentry)) rfl
      rw [rewrite, restoreFrom_placeholder (hwhole _ hmem) (get?_of_mem hnodup hmem),
        textOf_literal, if_pos rfl, List.append_cancel_left_eq, hrest]
      simp only [runsInto]
    | .plain c :: rest =>
      have hfound : (Placeholder.lettersAt? (c :: rewrite name index rest)).isSome =
          (Placeholder.lettersAt? (c :: front rest)).isSome :=
        isSome_lettersAt?_rewrite (hnames hpart)
      rw [rewrite, textOf_plain, runsInto]
      cases hword : (Placeholder.lettersAt? (c :: front rest)).isSome with
      | false =>
        rw [restoreFrom_cons (hfound.trans hword), List.cons_inj_right, if_neg (by simp)]
        exact ih rest.length (Nat.lt_succ_self _) rest index
          (fun entry hentry hwithin => habsent entry hentry
            (hwithin.trans (List.suffix_cons _ _).isInfix)) hpart rfl
      | true =>
        rw [if_pos rfl]
        rcases plains_cases (Placeholder.size - 1) rest with ⟨chars, later, hlength, rfl⟩ |
          ⟨chars, found, later, hlength, rfl⟩ | ⟨chars, hlength, rfl⟩
        · -- The word is made of characters of the text, so that it is no placeholder of the table.
          rw [tableOf, tableOf_plains] at hpart
          have hnone : table.get? (c :: chars) = none := get?_eq_none fun entry hentry heq =>
            habsent entry hentry ⟨[], textOf later, by simp [heq, textOf_append]⟩
          have hsize : (c :: chars).length = Placeholder.size := by
            rw [List.length_cons, hlength]
            rfl
          have hshorter : later.length < (Piece.plain c :: (plains chars ++ later)).length := by
            rw [List.length_cons, List.length_append]
            omega
          have hlater := ih later.length hshorter later index
            (fun entry hentry hwithin => habsent entry hentry
              (hwithin.trans ⟨c :: chars, [], by simp [textOf_append]⟩)) hpart rfl
          rw [rewrite_plains, ← hlength, runsInto_plains, ← hlater, textOf_append, textOf_plains,
            ← List.cons_append, restoreFrom_found hsize, restored, hnone, ← List.cons_append,
            List.append_cancel_left_eq]
          rw [rewrite_plains] at hfound
          rw [List.cons_append, hfound, hword]
        · rw [tableOf, tableOf_plains] at hpart
          have hmem : (name index, found) ∈ table := hpart _ List.mem_cons_self
          rw [front_plains] at hword
          have hne := restoreFrom_rewrite_ne later hquotes (hquotes _ hmem)
            (hwhole _ hmem) hword hlength
          rw [runsInto_literal hlength, rewrite_plains, textOf_append, textOf_plains]
          exact iff_of_false hne (by simp)
        · -- No word fits between the character and the end of the text.
          have hlong := (Placeholder.getElem?_of_lettersAt? hword).1
          rw [← List.append_nil (plains chars), front_plains] at hlong
          simp [front, Placeholder.size, Placeholder.letterCount] at hlong hlength
          omega

/-- The quotes of the literals of a text are quotes. -/
theorem isQuote_of_mem_tableOf {name : Nat → List Char} {pieces : List Piece} {index : Nat}
    (h : Scanned pieces) : ∀ entry ∈ tableOf name index pieces,
      Literal.isQuote entry.2.quote = true := by
  induction h generalizing index with
  | nil => exact fun entry hentry => absurd hentry List.not_mem_nil
  | plain _ _ ih => exact ih
  | literal hquote _ _ _ ih => exact List.forall_mem_cons.mpr ⟨hquote, ih⟩

end Piece

namespace LiteralTable

/-- Whether two underscores and twelve letters in front of a literal, read from the left, begin a
word shaped like a placeholder: `__abcdefghijkl'x'` or `__abcdefghijkl_'x'`. -/
def runsIntoLiteral (text : List Char) : Bool :=
  match Piece.scan text with
  | .ok pieces => Piece.runsInto 0 pieces
  | .error _ => false

/-- Restoring undoes extracting, for all placeholders that fit a text, if and only if no word
shaped like a placeholder runs into a literal of the text. -/
theorem restore_extract_iff {name : Nat → List Char} {text rewritten : List Char}
    {table : LiteralTable} (hextract : extract name text = .ok (rewritten, table))
    (hfits : table.Fits text) :
    table.restore true rewritten = text ↔ runsIntoLiteral text = false := by
  obtain ⟨pieces, hscanned, rfl, rfl, rfl⟩ := Piece.of_extract hextract
  rw [runsIntoLiteral, Piece.scan_textOf hscanned]
  exact Piece.restoreFrom_rewrite_iff hfits.whole hfits.nodup
    (Piece.isQuote_of_mem_tableOf hscanned) pieces 0 hfits.absent fun _ hentry => hentry

/-- A text with a word shaped like a placeholder, underscores beside literals, adjacent literals, a
doubled quote and escapes. -/
def amongWords : List Char :=
  "__abcdefghijkl__'it''s'_\"a\\\"b\"'c'__".toList

theorem restore_extract_of_amongWords :
    ∃ rewritten table,
      extract (Placeholder.fresh amongWords) amongWords = .ok (rewritten, table) ∧
        table.Fits amongWords ∧ runsIntoLiteral amongWords = false ∧
        table.restore true rewritten = amongWords := by
  have hextract : extract (Placeholder.fresh amongWords) amongWords =
      .ok ("__abcdefghijkl____aaaaaaaaaaaa_____baaaaaaaaaaa____caaaaaaaaaaa____".toList,
        [("__aaaaaaaaaaaa__".toList, ⟨'\'', "it''s".toList⟩),
          ("__baaaaaaaaaaa__".toList, ⟨'"', "a\\\"b".toList⟩),
          ("__caaaaaaaaaaa__".toList, ⟨'\'', "c".toList⟩)]) :=
    eq_ok_of_toOption (by decide +kernel)
  have hapart : runsIntoLiteral amongWords = false := by decide +kernel
  refine ⟨_, _, hextract, ?fits, hapart, (restore_extract_iff hextract ?fits).mpr hapart⟩
  decide

/-- The placeholder of a literal after two underscores and twelve letters is taken for a part of a
word, and stays. -/
theorem restore_extract_not_id :
    ∃ text rewritten table,
      extract (Placeholder.fresh text) text = .ok (rewritten, table) ∧ table.Fits text ∧
        table.restore true rewritten ≠ text := by
  refine ⟨"__abcdefghijkl'x'".toList, "__abcdefghijkl__aaaaaaaaaaaa__".toList,
    [("__aaaaaaaaaaaa__".toList, ⟨'\'', ['x']⟩)], eq_ok_of_toOption ?_, ?_, ?_⟩
  all_goals decide +kernel

end LiteralTable

end StreamQuery
