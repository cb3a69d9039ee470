import StreamQuery.Proofs.Expr.MemberPaths

/-!
# Members of expressions, spelled in two ways

The grammar takes a name behind a dot and the same name as a constant between brackets for the same
field. Tokens in which some members that are not called are written in the other way therefore make
up the same phrases, with the same meaning.
-/

namespace StreamQuery.Parser

open Token ColumnBindings Lexer

/-! ### Respelled tokens -/

/-- Tokens in which some of the members behind dots are written as item access by their names. What
is called stays a method. -/
inductive Respelled : List Token → List Token → Prop
  | nil : Respelled [] []
  | keep (token : Token) {ts us : List Token} (rest : Respelled ts us) :
      Respelled (token :: ts) (token :: us)
  | member {token : Token} {name : List Char} {ts us : List Token}
      (hname : ∀ found ∈ fieldName? token, found = String.ofList name)
      (hcall : opensArguments ts = false) (rest : Respelled ts us) :
      Respelled (.symbol .dot :: token :: ts) (nameTokens name ++ us)

namespace Respelled

variable {ts us vs ws : List Token}

theorem of_nil (h : Respelled [] ws) : ws = [] := by
  cases h
  rfl

/-- Every token but a dot stays. -/
theorem of_cons {token : Token} (htoken : token.isDot = false) (h : Respelled (token :: ts) ws) :
    ∃ us, ws = token :: us ∧ Respelled ts us := by
  cases h with
  | keep _ hrest => exact ⟨_, rfl, hrest⟩
  | member => cases htoken

theorem eq_singleton {token : Token} (htoken : token.isDot = false) (h : Respelled [token] ws) :
    ws = [token] := by
  obtain ⟨us, rfl, hus⟩ := h.of_cons htoken
  rw [hus.of_nil]

/-- Tokens are respelled in two parts, if the first one does not end in a dot. -/
theorem of_append {dotted : Bool} (hts : endsDotted dotted ts = false)
    (h : Respelled (ts ++ us) ws) :
    ∃ vs rest, ws = vs ++ rest ∧ Respelled ts vs ∧ Respelled us rest := by
  generalize hall : ts ++ us = all at h
  induction h generalizing ts dotted with
  | nil =>
    obtain ⟨rfl, rfl⟩ := List.append_eq_nil_iff.mp hall
    exact ⟨[], [], rfl, .nil, .nil⟩
  | keep token hrest ih =>
    cases ts with
    | nil =>
      obtain rfl : us = _ := hall
      exact ⟨[], _, rfl, .nil, .keep token hrest⟩
    | cons first ts =>
      obtain ⟨rfl, htail⟩ := List.cons.inj hall
      have hend : endsDotted first.isDot ts = false := hts
      obtain ⟨vs, rest, rfl, hvs, hus⟩ := ih hend htail
      exact ⟨_, rest, rfl, .keep first hvs, hus⟩
  | @member token name others _ hname hcall hrest ih =>
    match ts, hall, hts with
    | [], hall, _ =>
      obtain rfl : us = _ := hall
      exact ⟨[], _, rfl, .nil, .member hname hcall hrest⟩
    | [first], hall, hts =>
      obtain ⟨rfl, -⟩ := List.cons.inj hall
      cases hts
    | first :: second :: ts, hall, hts =>
      obtain ⟨rfl, htail⟩ := List.cons.inj hall
      obtain ⟨rfl, hothers⟩ := List.cons.inj htail
      have hend : endsDotted second.isDot ts = false := hts
      obtain ⟨vs, rest, rfl, hvs, hus⟩ := ih hend hothers
      refine ⟨_, rest, (List.append_assoc _ _ _).symm, .member hname ?_ hvs, hus⟩
      cases ts with
      | nil => rfl
      | cons next ts =>
        rw [← hothers] at hcall
        cases next <;> exact hcall

theorem append (h : Respelled ts us) {others : List Token} {symbol : Symbol}
    (hsymbol : symbol ≠ .leftParen) (hrest : Respelled (.symbol symbol :: vs) others) :
    Respelled (ts ++ .symbol symbol :: vs) (us ++ others) := by
  induction h with
  | nil => exact hrest
  | keep token _ ih => exact .keep token ih
  | member hname hcall _ ih =>
    rw [List.append_assoc]
    refine .member hname ?_ ih
    exact opensArguments_append hcall (beq_false_of_ne hsymbol)

end Respelled

/-! ### Respelled phrases -/

/-- A phrase of respelled tokens is respelled part by part. -/
theorem splits_respelled : Splits Respelled where
  nil h := h.of_nil
  symbol hs h := h.of_cons (beq_false_of_ne hs)
  append hts _ h := h.of_append hts
  colon hts h := by
    obtain ⟨vs, _, rfl, hvs, hrest⟩ := h.of_append hts
    obtain ⟨rest, rfl, hus⟩ := hrest.of_cons rfl
    exact ⟨vs, rest, rfl, hvs.append (by decide) (.keep _ .nil), hus⟩
  comma h := by
    cases h with
    | keep _ hrest => exact .keep _ hrest

/-- A field behind a dot is the item access by its name. -/
theorem respelled_field {token : Token} {name : String} (hname : fieldName? token = some name) :
    (Derivation.field name hname).Carried Respelled Eq := by
  intro us h
  cases h with
  | keep _ hrest =>
    rw [hrest.eq_singleton (isDot_of_fieldName? hname)]
    exact ⟨_, .field name hname, rfl, fun _ _ => congrArg (Expr.field · name)⟩
  | @member _ word _ _ hword _ hrest =>
    obtain ⟨item, hitem⟩ := exists_named word
    refine ⟨_, item, ?_, ?_⟩
    · rw [hrest.of_nil, List.append_nil]
    · rintro left _ rfl
      rw [hitem, ← hword name hname, Derivation.value]

/-- A method is called, so it stays behind its dot. -/
theorem respelled_method {token : Token} {name : String} (hname : fieldName? token = some name)
    {arguments : Derivation .items ts} (harguments : arguments.Carried Respelled Eq) :
    (Derivation.method name hname arguments).Carried Respelled Eq := by
  intro us h
  cases h with
  | keep _ hrest =>
    obtain ⟨_, rfl, hcall⟩ := hrest.of_cons (isDot_of_fieldName? hname)
    obtain ⟨_, rfl, hts⟩ := splits_respelled.brackets arguments (by decide) (by decide) hcall
    obtain ⟨_, inner, rfl, hinner⟩ := harguments hts
    refine ⟨_, .method name hname inner, rfl, ?_⟩
    rintro left _ rfl
    have hsame : arguments.value = inner.value := List.forall₂_eq_eq_eq ▸ hinner
    simp only [Derivation.value, hsame]
  | member _ hcall => cases hcall

theorem respelled_call (name : String) {arguments : Derivation .items ts}
    (harguments : arguments.Carried Respelled Eq) :
    (Derivation.call name arguments).Carried Respelled Eq := by
  intro us h
  obtain ⟨_, rfl, hafter⟩ := h.of_cons rfl
  obtain ⟨_, rfl, hts⟩ := splits_respelled.brackets arguments (by decide) (by decide) hafter
  obtain ⟨_, inner, rfl, hinner⟩ := harguments hts
  have hsame : arguments.value = inner.value := List.forall₂_eq_eq_eq ▸ hinner
  exact carried_of_primary (.call name inner) (congrArg (Expr.call name) hsame)

/-- Every phrase means the same when its members are respelled. -/
theorem carries_respelled : Carries Respelled Eq where
  toSplits := splits_respelled
  toCongruent := Expr.congruent_eq
  field h := respelled_field h
  method h _ _ ih := respelled_method h ih
  constant h := by
    intro us htokens
    rw [htokens.eq_singleton (isDot_of_constant h)]
    exact carried_of_primary (.constant _ h) rfl
  name name := by
    intro us h
    rw [h.eq_singleton rfl]
    exact carried_of_primary (.name name) rfl
  call name _ _ ih := respelled_call name ih
  bareKey name := by
    intro us h
    rw [(splits_respelled.of_key (.bareKey name) h).eq_singleton rfl]
    exact ⟨_, .bareKey name, rfl, rfl⟩
  bare h := by
    cases h with
    | keep _ hrest =>
      cases hrest
      rfl

/-- Tokens that are parsed as an expression are parsed as the same one when they are respelled. -/
theorem Spelled.respelled {e : Expr} (h : Spelled ts e) (hus : Respelled ts us) : Spelled us e := by
  obtain ⟨_, hother, rfl⟩ := h.carried carries_respelled hus
  exact hother

end StreamQuery.Parser
