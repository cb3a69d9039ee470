import StreamQuery.Function.Search
import StreamQuery.Proofs.Pattern.Spans
import StreamQuery.Proofs.Text.Wildcards
import StreamQuery.Value.Arithmetic

/-!
# Wildcard patterns as regular expressions

A wildcard pattern can be written as a regular expression for whole texts, and its size is that of
the expression. Here the expression is read, and what it matches is compared with the pieces that
the wildcards stand for.
-/

namespace StreamQuery

namespace Wildcard

open Pattern

/-- A character of a pattern written as a regular expression. -/
def written (element : Char) : List Char :=
  if element = '%' then ['.', '*']
  else if element = '_' then ['.']
  else if isMeta element then ['\\', element]
  else [element]

/-- The regular expression of a pattern: the dot stands also for line breaks, and the whole text has
to match. -/
def translation (pattern : List Char) : List Char :=
  "(?s)^".toList ++ pattern.flatMap written ++ ['$']

variable {element : Char} {pattern : List Char}

/-! ### Reading the expression -/

/-- What a character of a pattern is read as. -/
def form (element : Char) : Form :=
  if element = '%' then .repeated .dot 0 none true
  else if element = '_' then .dot
  else .literal ⟨element, false⟩

section Reading

variable (groups : GroupNames) (parts branches : List Form) (outer : List OpenGroup) (fuel : Nat)
  {rest : List Char}

theorem body?_literal (hplain : isMeta element = false) :
    body? false groups parts branches outer (fuel + 1) (element :: rest) =
      body? false groups (.literal ⟨element, false⟩ :: parts) branches outer fuel rest := by
  rw [body?]
  simp only [skip, Bool.false_eq_true, if_false]
  split
  case h_14 heq =>
    obtain ⟨rfl, rfl⟩ := List.cons.inj heq
    rfl
  case h_1 heq => cases heq
  all_goals
    next heq =>
      obtain ⟨rfl, -⟩ := List.cons.inj heq
      exact absurd hplain (by decide)

theorem mem_of_isMeta (hmeta : isMeta element = true) :
    element ∈ ['\\', '.', '+', '*', '?', '(', ')', '|', '[', ']', '\x7b', '\x7d', '^', '$', '#',
      '&', '-', '~'] :=
  List.mem_of_elem_eq_true hmeta

theorem escape?_meta (hmeta : isMeta element = true) :
    escape? false (element :: rest) = some (.literal ⟨element, false⟩, rest) := by
  have hmem := mem_of_isMeta hmeta
  simp only [List.mem_cons, List.not_mem_nil, or_false] at hmem
  rcases hmem with rfl | rfl | rfl | rfl | rfl | rfl | rfl | rfl | rfl | rfl | rfl | rfl | rfl |
    rfl | rfl | rfl | rfl | rfl <;> rfl

theorem body?_escaped (hmeta : isMeta element = true) :
    body? false groups parts branches outer (fuel + 1) ('\\' :: element :: rest) =
      body? false groups (.literal ⟨element, false⟩ :: parts) branches outer fuel rest := by
  rw [body?]
  simp only [skip, Bool.false_eq_true, if_false, escape?_meta hmeta]

theorem body?_dot :
    body? false groups parts branches outer (fuel + 1) ('.' :: rest) =
      body? false groups (.dot :: parts) branches outer fuel rest := by
  rw [body?]
  rfl

/-- A repetition is greedy unless a question mark comes after it. -/
theorem body?_run (hrest : rest.head? ≠ some '?') :
    body? false groups parts branches outer (fuel + 2) ('.' :: '*' :: rest) =
      body? false groups (.repeated .dot 0 none true :: parts) branches outer fuel rest := by
  rw [body?_dot, body?]
  simp only [skip, Bool.false_eq_true, if_false, repeatLast?]
  split
  · exact absurd rfl hrest
  · rfl

theorem body?_written (element : Char) (hrest : rest.head? ≠ some '?')
    (hfuel : (written element ++ rest).length < fuel) :
    ∃ left, rest.length < left ∧
      body? false groups parts branches outer fuel (written element ++ rest) =
        body? false groups (form element :: parts) branches outer left rest := by
  unfold written form at *
  by_cases hrun : element = '%'
  · rw [if_pos hrun, List.length_append] at hfuel
    obtain ⟨left, rfl⟩ : ∃ left, fuel = left + 2 := ⟨fuel - 2, by simp at hfuel; omega⟩
    refine ⟨left, by simp at hfuel; omega, ?_⟩
    rw [if_pos hrun, if_pos hrun]
    exact body?_run groups parts branches outer left hrest
  obtain ⟨left, rfl⟩ : ∃ left, fuel = left + 1 := ⟨fuel - 1, by omega⟩
  by_cases hone : element = '_'
  · rw [if_neg hrun, if_pos hone, List.length_append] at hfuel
    refine ⟨left, by simp at hfuel; omega, ?_⟩
    rw [if_neg hrun, if_pos hone, if_neg hrun, if_pos hone]
    exact body?_dot groups parts branches outer left
  rw [if_neg hrun, if_neg hone] at hfuel
  rw [if_neg hrun, if_neg hone, if_neg hrun, if_neg hone]
  cases hmeta : isMeta element with
  | true =>
    rw [if_pos hmeta, List.length_append] at hfuel
    rw [if_pos rfl]
    exact ⟨left, by simp at hfuel; omega, body?_escaped groups parts branches outer left hmeta⟩
  | false =>
    rw [hmeta, if_neg Bool.false_ne_true, List.length_append] at hfuel
    rw [if_neg Bool.false_ne_true]
    exact ⟨left, by simp at hfuel; omega, body?_literal groups parts branches outer left hmeta⟩

end Reading

/-- No expression begins with a question mark. -/
theorem head?_written (pattern : List Char) :
    (pattern.flatMap written ++ ['$']).head? ≠ some '?' := by
  cases pattern with
  | nil => decide
  | cons element rest =>
    rw [List.flatMap_cons, List.append_assoc]
    unfold written
    split
    · simp
    · split
      · simp
      · split
        · simp
        · next hplain =>
          intro h
          obtain rfl := Option.some.inj h
          exact hplain (by decide)

theorem body?_elements (parts : List Form) (fuel : Nat)
    (hfuel : (pattern.flatMap written ++ ['$']).length < fuel) :
    body? false {} parts [] [] fuel (pattern.flatMap written ++ ['$']) =
      some (Form.ofParts (parts.reverse ++ pattern.map form ++ [.anchor .dollar])) := by
  induction pattern generalizing parts fuel with
  | nil =>
    obtain ⟨left, rfl⟩ : ∃ left, fuel = left + 2 := ⟨fuel - 2, by simp at hfuel; omega⟩
    have hend : body? false {} parts [] [] (left + 2) ['$'] =
        some (Form.ofParts (.anchor .dollar :: parts).reverse) := rfl
    simpa using hend
  | cons element rest ih =>
    rw [List.flatMap_cons, List.append_assoc] at hfuel ⊢
    obtain ⟨left, hleft, hbody⟩ := body?_written {} parts [] [] fuel element (head?_written rest)
      hfuel
    rw [hbody, ih (form element :: parts) left hleft]
    simp

/-- What the whole expression is read as. -/
def wholeForm (pattern : List Char) : Form :=
  .sequence (.setFlags [(.dotAll, true)] :: .anchor .caret ::
    (pattern.map form ++ [.anchor .dollar]))

theorem nesting_wholeForm (pattern : List Char) : (wholeForm pattern).nesting ≤ 2 := by
  have hform : ∀ element, (form element).nesting ≤ 1 := by
    intro element
    unfold form
    split
    · exact Nat.le_refl 1
    · split <;> exact Nat.zero_le 1
  have hall : Form.nestingOfAll (pattern.map form ++ [.anchor .dollar]) ≤ 1 := by
    induction pattern with
    | nil => exact Nat.zero_le 1
    | cons element rest ih => exact Nat.max_le.mpr ⟨hform element, ih⟩
  simp only [wholeForm, Form.nesting, Form.nestingOfAll]
  omega

theorem ofText?_translation (pattern : List Char) :
    Form.ofText? (translation pattern) = some (wholeForm pattern) := by
  have hbody : body? false {} [] [] [] ((translation pattern).length + 1) (translation pattern) =
      some (wholeForm pattern) := by
    have hlength : (translation pattern).length =
        (pattern.flatMap written ++ ['$']).length + 3 + 2 := by
      simp [translation]
    have hstart : ∀ fuel rest, body? false {} [] [] [] (fuel + 2) ("(?s)^".toList ++ rest) =
        body? false {} [.anchor .caret, .setFlags [(.dotAll, true)]] [] [] fuel rest :=
      fun _ _ => rfl
    rw [hlength, translation, List.append_assoc, hstart, body?_elements _ _ (by omega)]
    rfl
  have hnesting := nesting_wholeForm pattern
  rw [Form.ofText?, hbody]
  exact if_pos (Nat.le_trans hnesting (by decide))

/-! ### The meaning of the expression -/

/-- The pattern that a character of a wildcard pattern stands for. -/
def meant (element : Char) : Pattern :=
  if element = '%' then .repeated (.one .all) 0 none true
  else if element = '_' then .one .all
  else .verbatim [element]

/-- The parts of the pattern that a wildcard pattern stands for. -/
def wholeParts (pattern : List Char) : List Pattern :=
  .empty :: .test .textStart :: (pattern.map meant ++ [.test .textEnd])

theorem meaning?_form (element : Char) :
    (form element).meaning? { dotAll := true } = some (meant element, { dotAll := true }) := by
  unfold form meant
  split
  · rfl
  · split <;> rfl

theorem meaningOfAll?_elements (pattern : List Char) :
    Form.meaningOfAll? { dotAll := true } (pattern.map form ++ [.anchor .dollar]) =
      some (pattern.map meant ++ [.test .textEnd], { dotAll := true }) := by
  induction pattern with
  | nil => rfl
  | cons element rest ih =>
    simp only [List.map_cons, List.cons_append, Form.meaningOfAll?, meaning?_form, ih,
      Option.bind_eq_bind, Option.bind_some]

theorem ofText?_eq_ofParts (pattern : List Char) :
    Pattern.ofText? (translation pattern) = some (ofParts (wholeParts pattern)) := by
  have hmeaning : (wholeForm pattern).meaning? {} =
      some (ofParts (wholeParts pattern), { dotAll := true }) := by
    have hstart : Form.meaningOfAll? {} (.setFlags [(.dotAll, true)] :: .anchor .caret ::
        (pattern.map form ++ [.anchor .dollar])) =
        some (wholeParts pattern, { dotAll := true }) := by
      have hflags : ({} : Flags).after [(.dotAll, true)] = { dotAll := true } := rfl
      simp only [Form.meaningOfAll?, Form.meaning?, hflags, meaningOfAll?_elements,
        Option.bind_eq_bind, Option.bind_some]
      rfl
    rw [wholeForm, Form.meaning?, hstart]
    rfl
  rw [Pattern.ofText?, ofText?_translation]
  simp only [Option.bind_eq_bind, Option.bind_some, hmeaning]

/-! ### What the expression matches -/

variable {text : List Char} {first last : Nat}

theorem contains_all (c : Char) : Unicode.CodePointSet.all.contains c.toNat = true := by
  have hlast : ¬ Unicode.lastCodePoint < c.toNat := by
    have hvalid : c.toNat.isValidChar := c.valid
    unfold Nat.isValidChar at hvalid
    simp only [Unicode.lastCodePoint]
    omega
  rw [Unicode.CodePointSet.contains, Unicode.CodePointSet.contains.search]
  simp [Unicode.CodePointSet.all, hlast]

theorem spans_all_iff :
    Spans text (.one .all) first last ↔ first < text.length ∧ last = first + 1 := by
  simp only [Spans, contains_all, and_true, ← Option.isSome_iff_exists, isSome_getElem?]

theorem times_all_iff (count : Nat) (hfirst : first ≤ text.length) :
    Times (Spans text (.one .all)) count first last ↔
      last = first + count ∧ last ≤ text.length := by
  induction count generalizing first with
  | zero =>
    simp only [Times]
    omega
  | succ count ih =>
    simp only [Times, spans_all_iff]
    constructor
    · rintro ⟨_, ⟨hmore, rfl⟩, hrest⟩
      obtain ⟨hlast, hend⟩ := (ih hmore).mp hrest
      exact ⟨by omega, hend⟩
    · rintro ⟨hlast, hend⟩
      exact ⟨first + 1, ⟨by omega, rfl⟩, (ih (by omega)).mpr ⟨by omega, hend⟩⟩

/-- What a character of a pattern stands for matches the pieces that it takes. -/
theorem spans_meant_iff (element : Char) (hfirst : first ≤ text.length) :
    Spans text (meant element) first last ↔
      ∃ piece, Takes element piece ∧ piece <+: text.drop first ∧ last = first + piece.length := by
  unfold meant Takes
  by_cases hrun : element = '%'
  · simp only [if_pos hrun, Spans, true_and]
    constructor
    · rintro ⟨count, -, -, hcount⟩
      obtain ⟨hlast, hend⟩ := (times_all_iff count hfirst).mp hcount
      refine ⟨(text.drop first).take count, List.take_prefix _ _, ?_⟩
      rw [List.length_take, List.length_drop]
      omega
    · rintro ⟨piece, hpiece, hlast⟩
      have hlength := hpiece.length_le
      rw [List.length_drop] at hlength
      exact ⟨piece.length, Nat.zero_le _, by simp,
        (times_all_iff _ hfirst).mpr ⟨hlast, by omega⟩⟩
  by_cases hone : element = '_'
  · simp only [if_neg hrun, if_pos hone, spans_all_iff]
    constructor
    · rintro ⟨hmore, hlast⟩
      refine ⟨[text[first]], rfl, ?_, hlast⟩
      rw [List.drop_eq_getElem_cons hmore]
      exact ⟨_, rfl⟩
    · rintro ⟨piece, hpiece, hprefix, hlast⟩
      have hlength := hprefix.length_le
      rw [List.length_drop] at hlength
      omega
  · simp [if_neg hrun, if_neg hone, Spans]

theorem spansAll_meant_iff (pattern : List Char) (hfirst : first ≤ text.length) :
    SpansAll text (pattern.map meant) first last ↔
      ∃ matched, CutsInto pattern matched ∧ matched <+: text.drop first ∧
        last = first + matched.length := by
  induction pattern generalizing first with
  | nil =>
    simp only [List.map_nil, SpansAll, cutsInto_nil_iff]
    constructor
    · rintro rfl
      exact ⟨[], rfl, List.nil_prefix, rfl⟩
    · rintro ⟨_, rfl, -, hlast⟩
      exact hlast.symm
  | cons element rest ih =>
    simp only [List.map_cons, SpansAll, cutsInto_cons_iff]
    constructor
    · rintro ⟨middle, hpiece, hrest⟩
      obtain ⟨piece, htakes, ⟨after, hafter⟩, rfl⟩ := (spans_meant_iff element hfirst).mp hpiece
      have hlength : first + piece.length ≤ text.length := by
        have := congrArg List.length hafter
        rw [List.length_append, List.length_drop] at this
        omega
      obtain ⟨matched, hcuts, hmatched, rfl⟩ := (ih hlength).mp hrest
      rw [← List.drop_drop, ← hafter, List.drop_left] at hmatched
      refine ⟨piece ++ matched, ⟨piece, matched, rfl, htakes, hcuts⟩, ?_,
        by rw [List.length_append, Nat.add_assoc]⟩
      rw [← hafter]
      exact List.prefix_append_right_inj piece |>.mpr hmatched
    · rintro ⟨_, ⟨piece, matched, rfl, htakes, hcuts⟩, ⟨after, hafter⟩, rfl⟩
      have hlength := congrArg List.length hafter
      rw [List.length_append, List.length_append, List.length_drop] at hlength
      refine ⟨first + piece.length, (spans_meant_iff element hfirst).mpr ⟨piece, htakes,
        ⟨matched ++ after, by rw [← hafter, List.append_assoc]⟩, rfl⟩,
        (ih (by omega)).mpr ⟨matched, hcuts, ?_, by rw [List.length_append, Nat.add_assoc]⟩⟩
      rw [← List.drop_drop, ← hafter, List.append_assoc, List.drop_left]
      exact List.prefix_append matched after

theorem holds_textEnd_iff {before : Option Char} (place : Nat) :
    PositionTest.textEnd.holds before text[place]? = true ↔ text.length ≤ place := by
  simp [PositionTest.holds]

theorem holds_textStart_iff {after : Option Char} (hfirst : first ≤ text.length) :
    PositionTest.textStart.holds (if first = 0 then none else text[first - 1]?) after = true ↔
      first = 0 := by
  by_cases hzero : first = 0
  · simp [hzero, PositionTest.holds]
  · simp only [PositionTest.holds, if_neg hzero, Option.isNone_iff_eq_none,
      List.getElem?_eq_none_iff]
    omega

/-- The expression occurs in exactly the texts that can be cut into pieces. -/
theorem occurs_translation_iff (pattern text : List Char) :
    Occurs (ofParts (wholeParts pattern)) text ↔ CutsInto pattern text := by
  simp only [Occurs, spans_ofParts, wholeParts, SpansAll, Spans, spansAll_append,
    holds_textEnd_iff]
  constructor
  · rintro ⟨first, last, hfirst, _, rfl, _, ⟨hstart, rfl⟩, middle, hspans, _, ⟨hend, rfl⟩, rfl⟩
    obtain rfl := (holds_textStart_iff hfirst).mp hstart
    obtain ⟨matched, hcuts, hmatched, rfl⟩ := (spansAll_meant_iff pattern hfirst).mp hspans
    rw [List.drop_zero] at hmatched
    rw [Nat.zero_add] at hend
    rwa [hmatched.eq_of_length_le hend] at hcuts
  · intro hcuts
    refine ⟨0, text.length, Nat.zero_le _, 0, rfl, 0,
      ⟨(holds_textStart_iff (Nat.zero_le _)).mpr rfl, rfl⟩, text.length, ?_, _,
      ⟨Nat.le_refl _, rfl⟩, rfl⟩
    exact (spansAll_meant_iff pattern (Nat.zero_le _)).mpr
      ⟨text, hcuts, List.prefix_refl _, (Nat.zero_add _).symm⟩

/-! ### The size of the expression -/

/-- The bytes of a text. -/
def byteSize (text : List Char) : Nat := (String.ofList text).utf8ByteSize

theorem byteSize_append (text more : List Char) :
    byteSize (text ++ more) = byteSize text + byteSize more := by
  rw [byteSize, String.ofList_append, String.utf8ByteSize_append]
  rfl

theorem byteSize_singleton (c : Char) : byteSize [c] = c.utf8Size :=
  String.utf8ByteSize_singleton

theorem byteSize_written (element : Char) : byteSize (written element) = (ofChar element).size := by
  obtain ⟨rfl, hrun⟩ | ⟨rfl, hone⟩ | ⟨hrun, hone, hexactly⟩ := ofChar_cases element
  · decide
  · decide
  · rw [written, if_neg hrun, if_neg hone, hexactly, size]
    cases hmeta : isMeta element with
    | true =>
      have hsize : ∀ c ∈ ['\\', '.', '+', '*', '?', '(', ')', '|', '[', ']', '\x7b', '\x7d', '^',
          '$', '#', '&', '-', '~'], byteSize ['\\', c] = 2 := by decide
      exact hsize element (mem_of_isMeta hmeta)
    | false => exact byteSize_singleton element

/-- The size of a pattern is that of its expression. -/
theorem byteSize_translation (pattern : List Char) :
    byteSize (translation pattern) = patternSize (parse pattern) := by
  have helements : ∀ start, ((parse pattern).map size).foldl (· + ·) start =
      start + byteSize (pattern.flatMap written) := by
    induction pattern with
    | nil => exact fun _ => rfl
    | cons element rest ih =>
      intro start
      rw [List.flatMap_cons, byteSize_append, byteSize_written, ← Nat.add_assoc, ← ih]
      rfl
  have hends : byteSize "(?s)^".toList = 5 ∧ byteSize ['$'] = 1 := by decide
  rw [translation, byteSize_append, byteSize_append, patternSize, helements, hends.1, hends.2]
  omega

theorem length_le_byteSize (pattern : List Char) :
    pattern.length + 6 ≤ byteSize (translation pattern) := by
  have hsize : ∀ element, 1 ≤ size element := by
    intro element
    unfold size
    split
    · decide
    · decide
    · split
      · decide
      · exact Char.utf8Size_pos _
  have helements : ∀ start, start + pattern.length ≤
      ((parse pattern).map size).foldl (· + ·) start := by
    induction pattern with
    | nil => exact fun start => Nat.le_refl start
    | cons element rest ih =>
      intro start
      have hrest := ih (start + size (ofChar element))
      have helement := hsize (ofChar element)
      exact Nat.le_trans (by rw [List.length_cons]; omega) hrest
  rw [byteSize_translation, patternSize]
  have := helements 6
  omega

/-! ### The memory of the expression -/

theorem boundOfAll_append (parts others : List Pattern) :
    Footprint.boundOfAll (parts ++ others) =
      Footprint.boundOfAll parts + Footprint.boundOfAll others := by
  induction parts with
  | nil => simp [Footprint.boundOfAll]
  | cons part rest ih =>
    simp only [List.cons_append, Footprint.boundOfAll, ih]
    omega

theorem boundOfAll_prepend_le (part : Pattern) (others : List Pattern) :
    Footprint.boundOfAll (prepend part others) ≤ Footprint.boundOfAll (part :: others) := by
  unfold prepend
  split
  · simp only [Footprint.boundOfAll, Footprint.bound, List.length_append, Nat.add_mul]
    omega
  · exact Nat.le_refl _

theorem boundOfAll_parts_le (pattern : Pattern) :
    Footprint.boundOfAll pattern.parts ≤ Footprint.bound pattern + 2 * Footprint.branchSize := by
  cases pattern with
  | empty => exact Nat.zero_le _
  | sequence inner => exact Nat.le_add_right _ _
  | _ => exact Nat.le_refl _

/-- Patterns made one take no more than they do in a row. -/
theorem bound_ofParts_le (patterns : List Pattern) :
    Footprint.bound (ofParts patterns) ≤ Footprint.boundOfAll patterns + Footprint.stateSize := by
  have hparts : Footprint.boundOfAll (patterns.flatMap parts) ≤
      Footprint.boundOfAll patterns := by
    induction patterns with
    | nil => exact Nat.le_refl _
    | cons pattern rest ih =>
      have hpattern := boundOfAll_parts_le pattern
      rw [List.flatMap_cons, boundOfAll_append, Footprint.boundOfAll]
      omega
  have hfolded : ∀ others : List Pattern, Footprint.boundOfAll (others.foldr prepend []) ≤
      Footprint.boundOfAll others := by
    intro others
    induction others with
    | nil => exact Nat.le_refl _
    | cons pattern rest ih =>
      refine Nat.le_trans (boundOfAll_prepend_le pattern _) ?_
      simp only [Footprint.boundOfAll]
      omega
  have hall := Nat.le_trans (hfolded _) hparts
  unfold ofParts
  split
  · exact Nat.le_add_left _ _
  · next h =>
    rw [h, Footprint.boundOfAll] at hall
    omega
  · exact Nat.le_trans hall (Nat.le_add_right _ _)

theorem bound_meant_le (element : Char) : Footprint.bound (meant element) ≤ 3000 := by
  unfold meant
  split
  · decide
  · split
    · decide
    · exact Nat.le_of_ble_eq_true rfl

/-- The automata of an expression of at most 1000 bytes are not too large. -/
theorem isAffordable_translation (h : byteSize (translation pattern) ≤ 1000) :
    (ofParts (wholeParts pattern)).isAffordable = true := by
  have hlength := length_le_byteSize pattern
  have helements : Footprint.boundOfAll (pattern.map meant) ≤ 3008 * pattern.length := by
    clear h hlength
    induction pattern with
    | nil => exact Nat.le_refl _
    | cons element rest ih =>
      have helement := bound_meant_le element
      simp only [List.map_cons, Footprint.boundOfAll, List.length_cons, Footprint.branchSize]
      omega
  have hbound := bound_ofParts_le (wholeParts pattern)
  simp only [wholeParts, Footprint.boundOfAll, Footprint.bound, boundOfAll_append,
    Footprint.stateSize, Footprint.branchSize] at hbound
  rw [isAffordable, Bool.or_eq_true]
  refine .inl (decide_eq_true ?_)
  simp only [wholeParts, Footprint.stateSize, Footprint.limit]
  omega

end Wildcard

namespace Value

open Wildcard Pattern

/-- What matching a text with a wildcard pattern gives. -/
structure MatchesByPieces (text pattern : String) : Prop where
  fits : byteSize (translation pattern.toList) ≤ 1000 → ∃ matched : Bool,
    (matched = true ↔ CutsInto pattern.toList text.toList) ∧
      applyBinary .like (.str text) (.str pattern) = .ok (.bool matched) ∧
      applyBinary .notLike (.str text) (.str pattern) = .ok (.bool !matched)
  tooLong : 1000 < byteSize (translation pattern.toList) →
    applyBinary .like (.str text) (.str pattern) = .error (.eval .patternTooLong) ∧
      applyBinary .notLike (.str text) (.str pattern) = .error (.eval .patternTooLong)
  translated : byteSize (translation pattern.toList) ≤ 1000 → ∃ expression : Pattern,
    Pattern.ofText? (translation pattern.toList) = some expression ∧
      expression.isAffordable = true ∧
      (Occurs expression text.toList ↔ CutsInto pattern.toList text.toList)

/-- A text is like a pattern exactly if it can be cut into pieces that the characters of the pattern
take, which is also what the pattern matches as a regular expression. Only patterns whose expression
has more than 1000 bytes are refused. -/
theorem like_iff_pieces (text pattern : String) : MatchesByPieces text pattern where
  fits hfits := by
    rw [byteSize_translation] at hfits
    have hlike : like text pattern =
        .ok (matchesAll (parse pattern.toList) text.toList) := if_neg (Nat.not_lt.mpr hfits)
    refine ⟨_, matchesAll_iff pattern.toList text.toList, ?_, ?_⟩
    all_goals
      simp only [applyBinary, applyStrict, likeValues, hlike]
      rfl
  tooLong hlong := by
    rw [byteSize_translation] at hlong
    have hlike : like text pattern = .error (.eval .patternTooLong) := if_pos hlong
    constructor
    all_goals
      simp only [applyBinary, applyStrict, likeValues, hlike]
      rfl
  translated hfits := ⟨_, ofText?_eq_ofParts pattern.toList, isAffordable_translation hfits,
    occurs_translation_iff pattern.toList text.toList⟩

example : applyBinary .like (.str "a.b\nc") (.str "a.%c") = .ok (.bool true) := rfl

end Value

end StreamQuery
