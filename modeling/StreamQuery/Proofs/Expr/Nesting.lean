import Mathlib.Data.List.Forall2
import StreamQuery.Proofs.Expr.Unambiguity

/-!
# Brackets and commas

An expression closes its brackets, and all its commas stand in brackets. Commas outside of brackets
therefore show where the expressions of a list end, as long as no part of the list closes a bracket
that it has not opened.
-/

namespace StreamQuery

/-- Characters and tokens that structure a list. -/
inductive Mark where
  | opening
  | closing
  | comma
  deriving DecidableEq

/-- The nesting after a mark, if no bracket is closed that is not open and no comma stands outside
of brackets. -/
def Mark.step : Mark → Nat → Option Nat
  | .opening, depth => some (depth + 1)
  | .closing, depth + 1 => some depth
  | .comma, depth + 1 => some (depth + 1)
  | _, 0 => none

/-- The nesting after marks. -/
def nest (depth : Nat) (marks : List Mark) : Option Nat :=
  marks.foldlM (fun depth mark => mark.step depth) depth

@[simp] theorem nest_nil (depth : Nat) : nest depth [] = some depth := rfl

@[simp] theorem nest_cons (depth : Nat) (mark : Mark) (marks : List Mark) :
    nest depth (mark :: marks) = (mark.step depth).bind (nest · marks) := rfl

theorem nest_append (depth : Nat) (marks others : List Mark) :
    nest depth (marks ++ others) = (nest depth marks).bind (nest · others) :=
  List.foldlM_append

theorem Mark.step_add {mark : Mark} {depth after : Nat} (h : mark.step depth = some after)
    (more : Nat) : mark.step (depth + more) = some (after + more) := by
  cases mark with
  | opening =>
    cases h
    rw [Mark.step, Nat.add_right_comm]
  | closing =>
    cases depth with
    | zero => cases h
    | succ depth =>
      cases h
      rw [Nat.add_right_comm, Mark.step]
  | comma =>
    cases depth with
    | zero => cases h
    | succ depth =>
      cases h
      rw [Nat.add_right_comm, Mark.step]

/-- Marks nest the same way in more brackets. -/
theorem nest_add {depth after : Nat} {marks : List Mark} (h : nest depth marks = some after)
    (more : Nat) : nest (depth + more) marks = some (after + more) := by
  induction marks generalizing depth with
  | nil =>
    obtain rfl := Option.some.inj h
    rfl
  | cons mark marks ih =>
    obtain ⟨middle, hmark, hmarks⟩ := Option.bind_eq_some_iff.mp h
    rw [nest_cons, mark.step_add hmark, Option.bind_some]
    exact ih hmarks

/-- The mark that a symbol makes. -/
def Symbol.mark? : Symbol → Option Mark
  | .leftParen | .leftBracket | .leftBrace => some .opening
  | .rightParen | .rightBracket | .rightBrace => some .closing
  | .comma => some .comma
  | _ => none

/-- The mark that a token makes. -/
def Token.mark? : Token → Option Mark
  | .symbol s => s.mark?
  | _ => none

@[simp] theorem Token.mark?_symbol (symbol : Symbol) : (Token.symbol symbol).mark? = symbol.mark? :=
  rfl

/-- The marks of tokens. -/
def marksOf (tokens : List Token) : List Mark :=
  tokens.filterMap Token.mark?

@[simp] theorem marksOf_nil : marksOf [] = [] := rfl

@[simp] theorem marksOf_append (tokens others : List Token) :
    marksOf (tokens ++ others) = marksOf tokens ++ marksOf others :=
  List.filterMap_append

@[simp] theorem marksOf_cons (token : Token) (rest : List Token) :
    marksOf (token :: rest) = token.mark?.toList ++ marksOf rest := by
  rw [marksOf, List.filterMap_cons]
  cases token.mark? <;> rfl

namespace Parser

/-! ### Derivations -/

/-- How many brackets stand around a phrase at least: items and entries are separated by commas. -/
def Category.brackets : Category → Nat
  | .items | .entries => 1
  | _ => 0

theorem marksOf_of_spells {level : Layer} {os : List Token} {op : BinaryOp}
    (h : Spells level os op) : marksOf os = [] := by
  cases h <;> rfl

theorem marksOf_nullTestTokens (negated : Bool) : marksOf (nullTestTokens negated) = [] := by
  cases negated <;> rfl

theorem mark?_of_sign {symbol : Symbol} {op : UnaryOp} (h : Sign symbol op) :
    symbol.mark? = none := by
  cases h <;> rfl

theorem mark?_of_fieldName? {token : Token} {name : String} (h : fieldName? token = some name) :
    token.mark? = none := by
  unfold fieldName? at h
  split at h <;> first | rfl | cases h

theorem mark?_of_constant {token : Token} {value : Value} (h : Constant token value) :
    token.mark? = none := by
  cases h <;> rfl

/-- A phrase leaves the nesting as it was. -/
theorem Derivation.nest_marksOf {c : Category} {ts : List Token} (d : Derivation c ts)
    {depth : Nat} (h : c.brackets ≤ depth) : nest depth (marksOf ts) = some depth := by
  induction d generalizing depth with
  | noLinks | noSuffix | absent | noItems | noEntries | noBranches | noDefault | name | bareKey =>
    rfl
  | constant value hconstant => simp [mark?_of_constant hconstant]
  | plain _ ih | tighter _ _ ih | negated _ ih | signed _ ih | comparison _ ih | unsigned _ ih
  | base _ ih | present _ ih | computedKey _ _ ih =>
    exact ih (Nat.zero_le _)
  | lastItem _ ih => exact ih (Nat.zero_le _)
  | operation op hspells _ _ ihright ihrest =>
    simp [nest_append, marksOf_of_spells hspells, ihright (Nat.zero_le _), ihrest (Nat.zero_le _)]
  | nullTest negated _ ih => simp [marksOf_nullTestTokens, ih (Nat.zero_le _)]
  | sign op hsign _ ih => simp [mark?_of_sign hsign, ih (Nat.zero_le _)]
  | not _ ih | default _ ih => simp [Symbol.mark?, ih (Nat.zero_le _)]
  | layer _ _ ihfirst ihrest | postfixed _ _ ihfirst ihrest | suffixes _ _ ihfirst ihrest
  | raised _ _ ihfirst ihrest =>
    simp [nest_append, Symbol.mark?, ihfirst (Nat.zero_le _), ihrest (Nat.zero_le _)]
  | question _ _ _ ihfirst ihsecond ihthird | choice _ _ _ ihfirst ihsecond ihthird
  | branch _ _ _ ihfirst ihsecond ihthird =>
    simp [nest_append, Symbol.mark?, ihfirst (Nat.zero_le _), ihsecond (Nat.zero_le _),
      ihthird (Nat.zero_le _)]
  | field name hname => simp [mark?_of_fieldName? hname, Symbol.mark?]
  | method name hname _ ih =>
    simp [nest_append, mark?_of_fieldName? hname, Symbol.mark?, Mark.step, ih (Nat.succ_pos _)]
  | index _ ih | parentheses _ ih =>
    simp [nest_append, Symbol.mark?, Mark.step, ih (Nat.zero_le _)]
  | slice _ _ ihstart ihstop =>
    simp [nest_append, Symbol.mark?, Mark.step, ihstart (Nat.zero_le _), ihstop (Nat.zero_le _)]
  | call _ _ ih | list _ ih | object _ ih =>
    simp [nest_append, Token.mark?, Symbol.mark?, Mark.step, ih (Nat.succ_pos _)]
  | emptyTuple => simp [Symbol.mark?, Mark.step]
  | tuple _ _ ihfirst ihrest =>
    simp [nest_append, Symbol.mark?, Mark.step, ihfirst (Nat.zero_le _), ihrest (Nat.succ_pos _)]
  | case _ _ _ _ _ ihoperand ihcondition ihresult ihrest ihotherwise =>
    simp [nest_append, Symbol.mark?, ihoperand (Nat.zero_le _), ihcondition (Nat.zero_le _),
      ihresult (Nat.zero_le _), ihrest (Nat.zero_le _), ihotherwise (Nat.zero_le _)]
  | item _ _ ihfirst ihrest =>
    obtain ⟨outer, rfl⟩ := Nat.exists_eq_succ_of_ne_zero (Nat.ne_zero_of_lt h)
    simp [nest_append, Symbol.mark?, Mark.step, ihfirst (Nat.zero_le _), ihrest (Nat.succ_pos _)]
  | lastEntry _ _ ihkey ihvalue =>
    simp [nest_append, Symbol.mark?, ihkey (Nat.zero_le _), ihvalue (Nat.zero_le _)]
  | entry _ _ _ ihkey ihvalue ihrest =>
    obtain ⟨outer, rfl⟩ := Nat.exists_eq_succ_of_ne_zero (Nat.ne_zero_of_lt h)
    simp [nest_append, Symbol.mark?, Mark.step, ihkey (Nat.zero_le _), ihvalue (Nat.zero_le _),
      ihrest (Nat.succ_pos _)]

/-! ### Lists of expressions -/

/-- Token lists with a comma between two of them. -/
def separated (parts : List (List Token)) : List Token :=
  [Token.symbol .comma].intercalate parts

@[simp] theorem separated_singleton (part : List Token) : separated [part] = part :=
  List.intercalate_singleton

theorem separated_cons {parts : List (List Token)} (h : parts ≠ []) (part : List Token) :
    separated (part :: parts) = part ++ .symbol .comma :: separated parts := by
  rw [separated, List.intercalate_cons_of_ne_nil h, List.append_assoc, List.singleton_append,
    separated]

/-- Tokens that are parsed as an expression. -/
def Spelled (tokens : List Token) (e : Expr) : Prop :=
  single tokens = .ok e

theorem several_last {tokens : List Token} {e : Expr} (hopens : Opens 2 tokens)
    (h : Finds (expression tokens) e []) : several tokens = .ok [e] := by
  obtain ⟨_, hexpression⟩ := h
  obtain ⟨token, tail, rfl, hrank⟩ := hopens
  rw [several, hexpression]
  · rfl
  · rintro rfl
    exact absurd hrank (by decide)

theorem several_cons {tokens rest : List Token} {e : Expr} {others : List Expr}
    (hopens : Opens 2 tokens) (h : Finds (expression tokens) e (.symbol .comma :: rest))
    (hrest : several rest = .ok others) : several tokens = .ok (e :: others) := by
  obtain ⟨_, hexpression⟩ := h
  obtain ⟨token, tail, rfl, hrank⟩ := hopens
  rw [several, hexpression]
  · simp only [bind, Except.bind]
    rw [hrest]
    rfl
  · rintro rfl
    exact absurd hrank (by decide)

/-- Expressions that are parsed by themselves are parsed as a list. -/
theorem several_of_spelled {parts : List (List Token)} {exprs : List Expr} (hne : parts ≠ [])
    (h : List.Forall₂ Spelled parts exprs) : several (separated parts) = .ok exprs := by
  induction h with
  | nil => exact absurd rfl hne
  | @cons part e parts exprs hpart hparts ih =>
    obtain ⟨d, rfl⟩ := derivation_of_single hpart
    have hopens := d.opens 2 rfl
    cases hparts with
    | nil =>
      have hfinds := d.reads [] (by decide)
      rw [List.append_nil] at hfinds
      rw [separated_singleton]
      exact several_last hopens hfinds
    | cons hnext hrest =>
      rw [separated_cons (List.cons_ne_nil _ _)]
      exact several_cons (hopens.append _) (d.reads _ (lt_reach (by decide) _))
        (ih (List.cons_ne_nil _ _))

/-- A list of expressions that is parsed consists of expressions between commas. -/
theorem spelled_of_several {tokens : List Token} {exprs : List Expr}
    (h : several tokens = .ok exprs) :
    ∃ parts, parts ≠ [] ∧ tokens = separated parts ∧ List.Forall₂ Spelled parts exprs := by
  induction hlength : tokens.length using Nat.strongRecOn generalizing tokens exprs with
  | ind length ih =>
    subst hlength
    rw [several.eq_def] at h
    split at h
    case h_1 => cases h
    case h_2 => cases h
    case h_3 token tail hcomma =>
      obtain ⟨⟨first, rest, hrest⟩, hfirst, h⟩ := ok_of_bind h
      obtain ⟨front, d, htokens, rfl⟩ := derives_of_expression hfirst
      dsimp only at h htokens
      split at h
      case h_1 =>
        cases h
        rw [List.append_nil] at htokens
        exact ⟨[front], List.cons_ne_nil _ _, by rw [separated_singleton, htokens],
          .cons (single_of_derivation d) .nil⟩
      case h_2 after =>
        rw [List.length_cons] at hrest
        obtain ⟨others, hothers, h⟩ := ok_of_bind h
        cases h
        obtain ⟨parts, hne, rfl, hparts⟩ := ih after.length (by omega) hothers rfl
        exact ⟨front :: parts, List.cons_ne_nil _ _, by rw [separated_cons hne, htokens],
          .cons (single_of_derivation d) hparts⟩
      case h_3 => cases h

/-! ### Commas outside of brackets -/

/-- Marks that close no bracket from before and have no commas outside of brackets. -/
def Inside (tokens : List Token) : Prop :=
  ∃ depth, nest 0 (marksOf tokens) = some depth

theorem nest_of_spelled {tokens : List Token} {e : Expr} (h : Spelled tokens e) :
    nest 0 (marksOf tokens) = some 0 := by
  obtain ⟨d, -⟩ := derivation_of_single h
  exact d.nest_marksOf (Nat.le_refl 0)

/-- Where the nesting is back at its beginning a part cannot go on with a comma. -/
theorem not_inside_comma {depth : Nat} {front rest : List Token}
    (hfront : nest depth (marksOf front) = some 0) :
    ¬Inside (front ++ .symbol .comma :: rest) := by
  rintro ⟨after, h⟩
  have hadded := nest_add h depth
  rw [Nat.zero_add, marksOf_append, nest_append, hfront] at hadded
  simp [Symbol.mark?, Mark.step] at hadded

/-- In parts without commas outside of brackets, a comma where all brackets are closed stands
between two parts. -/
theorem exists_boundary {parts : List (List Token)} (hne : parts ≠ [])
    (hparts : ∀ part ∈ parts, Inside part) {depth : Nat} {front rest : List Token}
    (hfront : nest depth (marksOf front) = some 0)
    (heq : front ++ .symbol .comma :: rest = separated parts) :
    ∃ before after, before ≠ [] ∧ after ≠ [] ∧ parts = before ++ after ∧
      front = separated before ∧ rest = separated after := by
  induction parts generalizing depth front with
  | nil => exact absurd rfl hne
  | cons part parts ih =>
    obtain ⟨hpart, hparts⟩ := List.forall_mem_cons.mp hparts
    cases parts with
    | nil =>
      rw [separated_singleton] at heq
      exact absurd (heq ▸ hpart) (not_inside_comma hfront)
    | cons next parts =>
      rw [separated_cons (List.cons_ne_nil _ _)] at heq
      rcases List.append_eq_append_iff.mp heq with ⟨more, rfl, hmore⟩ | ⟨more, rfl, hmore⟩
      · cases more with
        | nil =>
          refine ⟨_, next :: parts, by simp, by simp, List.singleton_append.symm, ?_, ?_⟩
          · rw [separated_singleton, List.append_nil]
          · exact (List.cons.inj hmore).2
        | cons token more =>
          obtain ⟨rfl, -⟩ := List.cons.inj hmore
          exact absurd hpart (not_inside_comma hfront)
      · cases more with
        | nil =>
          refine ⟨[part], next :: parts, by simp, by simp, rfl, ?_, ?_⟩
          · rw [separated_singleton, List.append_nil]
          · exact (List.cons.inj hmore).2.symm
        | cons token more =>
          obtain ⟨rfl, hrest⟩ := List.cons.inj hmore
          -- The comma behind the part stands in brackets of what came before.
          obtain ⟨depth, hdepth⟩ : ∃ depth, nest depth (marksOf more) = some 0 := by
            rw [marksOf_append, nest_append] at hfront
            obtain ⟨middle, -, hmiddle⟩ := Option.bind_eq_some_iff.mp hfront
            rw [marksOf_cons, Token.mark?_symbol] at hmiddle
            obtain ⟨after, -, hafter⟩ := Option.bind_eq_some_iff.mp hmiddle
            exact ⟨after, hafter⟩
          obtain ⟨before, after, hbefore, hafter, hsplit, rfl, rfl⟩ :=
            ih (List.cons_ne_nil _ _) hparts hdepth hrest.symm
          exact ⟨part :: before, after, by simp, hafter, by rw [hsplit]; rfl,
            (separated_cons hbefore part).symm, rfl⟩

/-- As many expressions as there are parts are the parts. -/
theorem eq_of_separated {parts others : List (List Token)} (hparts : parts ≠ [])
    (hbalanced : ∀ part ∈ parts, nest 0 (marksOf part) = some 0) (hothers : others ≠ [])
    (hinside : ∀ part ∈ others, Inside part) (heq : separated parts = separated others) :
    parts.length ≤ others.length ∧ (parts.length = others.length → parts = others) := by
  induction parts generalizing others with
  | nil => exact absurd rfl hparts
  | cons part parts ih =>
    obtain ⟨hpart, hlater⟩ := List.forall_mem_cons.mp hbalanced
    cases parts with
    | nil =>
      refine ⟨List.length_pos_iff.mpr hothers, fun hlength => ?_⟩
      obtain ⟨other, rfl⟩ := List.length_eq_one_iff.mp hlength.symm
      rw [separated_singleton, separated_singleton] at heq
      rw [heq]
    | cons next parts =>
      rw [separated_cons (List.cons_ne_nil _ _)] at heq
      obtain ⟨before, after, hbefore, hafter, rfl, rfl, hrest⟩ :=
        exists_boundary hothers hinside hpart heq
      have hinsideAfter : ∀ part ∈ after, Inside part :=
        fun part hmem => hinside part (List.mem_append_right before hmem)
      obtain ⟨hle, hsame⟩ := ih (List.cons_ne_nil _ _) hlater hafter hinsideAfter hrest
      have hpositive := List.length_pos_iff.mpr hbefore
      rw [List.length_append, List.length_cons]
      refine ⟨by omega, fun hlength => ?_⟩
      obtain ⟨only, rfl⟩ := List.length_eq_one_iff.mp (show before.length = 1 by omega)
      rw [hsame (by simp only [List.length_cons, List.length_nil] at *; omega),
        separated_singleton]
      rfl

/-- The nesting rises by the brackets that are opened and falls by those that are closed. -/
theorem count_of_nest {depth after : Nat} {marks : List Mark} (h : nest depth marks = some after) :
    depth + marks.count .opening = after + marks.count .closing := by
  induction marks generalizing depth with
  | nil => simpa using h
  | cons mark marks ih =>
    obtain ⟨middle, hmark, hmarks⟩ := Option.bind_eq_some_iff.mp h
    have hcount := ih hmarks
    cases mark with
    | opening =>
      cases hmark
      simp
      omega
    | closing =>
      cases depth with
      | zero => cases hmark
      | succ depth =>
        cases hmark
        simp
        omega
    | comma =>
      cases depth with
      | zero => cases hmark
      | succ depth =>
        cases hmark
        simpa using hcount

/-- How many brackets of a kind parts have in all. -/
def total (mark : Mark) : List (List Token) → Nat
  | [] => 0
  | part :: parts => (marksOf part).count mark + total mark parts

theorem count_separated {mark : Mark} (hmark : mark ≠ .comma) (parts : List (List Token)) :
    (marksOf (separated parts)).count mark = total mark parts := by
  induction parts with
  | nil => rfl
  | cons part parts ih =>
    cases parts with
    | nil => simp [total]
    | cons next parts =>
      rw [separated_cons (List.cons_ne_nil _ _), marksOf_append, marksOf_cons, List.count_append,
        List.count_append, ih]
      cases mark <;> simp_all [total, Symbol.mark?]

theorem total_le {parts : List (List Token)} (h : ∀ part ∈ parts, Inside part) :
    total .closing parts ≤ total .opening parts := by
  induction parts with
  | nil => exact Nat.le_refl 0
  | cons part parts ih =>
    obtain ⟨⟨depth, hpart⟩, hparts⟩ := List.forall_mem_cons.mp h
    have hcount := count_of_nest hpart
    have hle := ih hparts
    simp only [total] at hle ⊢
    omega

/-- Parts that close as many brackets in all as they open each close all of theirs. -/
theorem balanced_of_total {parts : List (List Token)} (h : ∀ part ∈ parts, Inside part)
    (htotal : total .opening parts = total .closing parts) :
    ∀ part ∈ parts, nest 0 (marksOf part) = some 0 := by
  induction parts with
  | nil => exact fun _ hmem => absurd hmem List.not_mem_nil
  | cons part parts ih =>
    obtain ⟨⟨depth, hpart⟩, hparts⟩ := List.forall_mem_cons.mp h
    have hcount := count_of_nest hpart
    have hle := total_le hparts
    simp only [total] at htotal hle
    refine List.forall_mem_cons.mpr ⟨?_, ih hparts (by omega)⟩
    rw [hpart]
    congr 1
    omega

theorem total_of_balanced {parts : List (List Token)}
    (h : ∀ part ∈ parts, nest 0 (marksOf part) = some 0) :
    total .opening parts = total .closing parts := by
  induction parts with
  | nil => rfl
  | cons part parts ih =>
    obtain ⟨hpart, hparts⟩ := List.forall_mem_cons.mp h
    have hcount := count_of_nest hpart
    have heq := ih hparts
    simp only [total] at heq ⊢
    omega

/-- A list of expressions is parsed from parts one by one, if no part closes a bracket that it has
not opened or has a comma outside of brackets. -/
theorem several_separated {parts : List (List Token)} {exprs : List Expr} (hne : parts ≠ [])
    (hinside : ∀ part ∈ parts, Inside part) :
    several (separated parts) = .ok exprs ↔ List.Forall₂ Spelled parts exprs := by
  refine ⟨fun h => ?_, several_of_spelled hne⟩
  obtain ⟨others, hothers, heq, hspelled⟩ := spelled_of_several h
  have hbalanced : ∀ part ∈ others, nest 0 (marksOf part) = some 0 :=
    ((List.forall₂_and_left _ _).mp (hspelled.imp fun _ _ h => ⟨nest_of_spelled h, h⟩)).1
  -- The parts close all their brackets, as the expressions do in all.
  have htotal : total .opening parts = total .closing parts := by
    rw [← count_separated (by simp), ← count_separated (by simp), heq,
      count_separated (by simp), count_separated (by simp), total_of_balanced hbalanced]
  have hparts := balanced_of_total hinside htotal
  obtain ⟨hle, -⟩ := eq_of_separated hne hparts hothers
    (fun part hmem => ⟨0, hbalanced part hmem⟩) heq
  obtain ⟨hge, hsame⟩ := eq_of_separated hothers hbalanced hne hinside heq.symm
  obtain rfl := hsame (Nat.le_antisymm hge hle)
  exact hspelled

end Parser

end StreamQuery
