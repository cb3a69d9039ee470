import StreamQuery.Proofs.Execution.Plan
import StreamQuery.Proofs.Query.Nesting
import StreamQuery.Proofs.Query.Piece

/-!
# Clauses in one go

Compiling the items of a clause in one go and compiling them one by one come to the same: to the
same expressions, or to the error of the first item that does not compile. This takes items that
close only brackets they have opened; brackets that are left open in one item and closed in another
make expressions of parts of items.
-/

namespace StreamQuery

namespace Reporting

variable {α : Type}

theorem Gives.attempt {computation : Reporting α} {result : Except Error α}
    (h : computation.Gives result) : computation.attempt.Gives (.ok result) := by
  obtain ⟨raised, h⟩ := h
  refine ⟨raised, fun before => ?_⟩
  change (Except.ok <$> computation.run).run before = _
  rw [StateT.run_map, h]
  rfl

theorem gives_raiseAll_report (warnings : List Warning) :
    (raiseAll .report warnings).Gives (.ok ()) := by
  induction warnings with
  | nil => exact gives_pure ()
  | cons warning rest ih =>
    have hraise : (raise .report warning).Gives (.ok ()) := ⟨[warning], fun _ => rfl⟩
    exact hraise.bind ih

/-- Warnings stop nothing unless they are errors. -/
theorem gives_raiseAll_iff {policy : WarningPolicy} {warnings : List Warning} :
    (raiseAll policy warnings).Gives (.ok ()) ↔ (policy = .fail → warnings = []) := by
  cases policy with
  | report => simpa using gives_raiseAll_report warnings
  | fail =>
    cases warnings with
    | nil => exact ⟨fun _ _ => rfl, fun _ => gives_pure ()⟩
    | cons warning rest =>
      refine ⟨fun h => ?_, fun h => nomatch h rfl⟩
      have hraise : (raise .fail warning).Gives (.error (.warning warning)) := gives_throw _
      cases h.unique hraise.bind_error

end Reporting

open Reporting

theorem exists_of_forall₂ {α β : Type} {related : α → β → Prop} {items : List α} {values : List β}
    (h : List.Forall₂ related items values) : ∀ item ∈ items, ∃ value, related item value :=
  ((List.forall₂_and_left _ _).mp (h.imp fun _ value hvalue => ⟨⟨value, hvalue⟩, hvalue⟩)).1

namespace Expr

section Raising

variable {α : Type} {about : α → List Warning}

theorem gives_raising_report (parsed : Except SyntaxFault α) :
    (raising .report about parsed).Gives (parsed.mapError .syntaxFault) := by
  cases parsed with
  | error fault => exact gives_throw _
  | ok value => exact (gives_raiseAll_report _).bind (gives_pure value)

/-- What is parsed is found unless there is a warning about it where warnings are errors. -/
theorem gives_raising_ok_iff {policy : WarningPolicy} {parsed : Except SyntaxFault α} {value : α} :
    (raising policy about parsed).Gives (.ok value) ↔
      parsed = .ok value ∧ (policy = .fail → about value = []) := by
  cases parsed with
  | error fault => exact ⟨fun h => (nomatch h.unique (gives_throw _)), fun h => (nomatch h.1)⟩
  | ok found =>
    constructor
    · intro h
      obtain ⟨_, hraised, hlast⟩ := h.of_bind (settles_raiseAll _ _) fun _ => settles_pure _
      obtain rfl := Except.ok.inj (hlast.unique (gives_pure _))
      exact ⟨rfl, gives_raiseAll_iff.mp hraised⟩
    · rintro ⟨hfound, hsilent⟩
      obtain rfl := Except.ok.inj hfound
      exact (gives_raiseAll_iff.mpr hsilent).bind (gives_pure _)

end Raising

theorem gives_compile (text : String) :
    (compile .report text).Gives ((parse text).mapError .syntaxFault) :=
  compile_eq .report text ▸ gives_raising_report _

theorem gives_compileList (text : String) :
    (compileList .report text).Gives ((parseList text).mapError .syntaxFault) :=
  compileList_eq .report text ▸ gives_raising_report _

theorem gives_compile_ok_iff {text : String} {expr : Expr} :
    (compile .report text).Gives (.ok expr) ↔ parse text = .ok expr := by
  constructor
  · intro h
    cases hparse : parse text with
    | error fault => cases (hparse ▸ gives_compile text).unique h
    | ok found => cases (hparse ▸ gives_compile text).unique h; rfl
  · intro h
    have hgives := gives_compile text
    rwa [h] at hgives

/-- A text compiles to the expression it is parsed to. Where warnings are errors it must not call
aggregates for some rows only. -/
theorem compile_ok_iff {policy : WarningPolicy} {text : String} {expr : Expr} :
    (compile policy text).Gives (.ok expr) ↔
      parse text = .ok expr ∧ (policy = .fail → expr.conditionalAggregates = []) := by
  rw [compile_eq, gives_raising_ok_iff, warnings_eq_nil_iff, List.forall_mem_singleton]

theorem compileList_ok_iff {policy : WarningPolicy} {text : String} {exprs : List Expr} :
    (compileList policy text).Gives (.ok exprs) ↔ parseList text = .ok exprs ∧
      (policy = .fail → ∀ expr ∈ exprs, expr.conditionalAggregates = []) := by
  rw [compileList_eq, gives_raising_ok_iff, warnings_eq_nil_iff]

end Expr

/-- A `SELECT` clause in which no modifier can stand at the front. -/
theorem Selection.withoutModifiers_of_plain {text : List Char}
    (hblanks : text.dropWhile Unicode.isWhitespace = text)
    (hplain : (text.drop 8).head?.any Unicode.isWhitespace = false) :
    Selection.withoutModifiers text = text := by
  rw [Selection.withoutModifiers, hblanks, Query.modifier_eq "DISTINCT".toList hplain,
    Query.modifier_eq "PARTIALS".toList hplain]

theorem Selection.ofText_of_plain (literals : LiteralTable) {text : List Char}
    (hblanks : text.dropWhile Unicode.isWhitespace = text)
    (hplain : (text.drop 8).head?.any Unicode.isWhitespace = false) :
    Selection.ofText literals text =
      ⟨(Item.split text).map (Selection.item literals), false, false⟩ := by
  rw [Selection.ofText, hblanks, Query.modifier_eq "DISTINCT".toList hplain]
  dsimp only
  rw [Query.modifier_eq "PARTIALS".toList hplain]

/-- The expressions of a `SELECT` clause that closes only brackets it has opened do so, too. -/
theorem Selection.selfContained_expressions {table : LiteralTable} {text query rewritten : List Char}
    {name : Nat → List Char} (hname : ∀ index, Placeholder.isWhole (name index) = true)
    (hextract : LiteralTable.extract name query = .ok (rewritten, table)) (hapart : table.Apart text)
    (hnested : Item.Nested (Selection.withoutModifiers text)) (bindings : ColumnBindings) :
    ∀ item ∈ (Selection.ofText table text).items.filterMap Plan.itemText?,
      Expr.SelfContained (bindings.prepare table item).toList := by
  have hwhole := LiteralTable.isWhole_of_extract hname hextract
  have hreadable := Selection.readable_expressions hwhole table hapart
  have hinside := Selection.inside_expressions table hapart.quotes hnested
  exact fun item hitem => (hreadable item hitem).selfContained hwhole
    (LiteralTable.proper_of_extract hextract) (hinside item hitem) bindings

namespace Plan

variable (clause : Clause)

/-! ### Items with their positions -/

theorem gives_compileAt_ok (location : Location) {text : String} {expr : Expr}
    (h : Expr.parse text = .ok expr) : (compileAt .report location text).Gives (.ok expr) :=
  (h ▸ Expr.gives_compile text).attempt.bind (gives_pure expr)

theorem gives_compileAt_error (location : Location) {text : String} {fault : SyntaxFault}
    (h : Expr.parse text = .error fault) : (compileAt .report location text).Gives
      (.error (.compile location text (.syntaxFault fault))) :=
  (h ▸ Expr.gives_compile text).attempt.bind (gives_throw _)

theorem gives_compileEach_error {before after : List (Nat × String)} {position : Nat}
    {text : String} {fault : SyntaxFault}
    (hbefore : ∀ item ∈ before, ∃ expr, Expr.parse item.2 = .ok expr)
    (h : Expr.parse text = .error fault) :
    (compileEach .report clause (before ++ (position, text) :: after)).Gives
      (.error (.compile ⟨clause, some position⟩ text (.syntaxFault fault))) := by
  induction before with
  | nil => exact (gives_compileAt_error _ h).bind_error
  | cons item before ih =>
    obtain ⟨⟨expr, hitem⟩, hbefore⟩ := List.forall_mem_cons.mp hbefore
    exact (gives_compileAt_ok _ hitem).bind (ih hbefore).bind_error

/-! ### Items in one go -/

section List

variable {items : List (Nat × String)} {clause}

/-- As many expressions as there are items are taken for theirs. -/
theorem gives_compileList_joined {exprs : List Expr} (hne : items ≠ [])
    (h : Expr.parseList (", ".intercalate (items.map (·.2))) = .ok exprs)
    (hlength : exprs.length = items.length) :
    (compileList .report clause items).Gives (.ok exprs) := by
  have hjoined := Expr.gives_compileList (", ".intercalate (items.map (·.2)))
  rw [h] at hjoined
  unfold compileList
  rw [if_neg (by simpa using hne)]
  refine hjoined.attempt.bind ?_
  simp only [Except.mapError]
  rw [if_pos hlength]
  exact gives_pure exprs

/-! ### Items under any policy -/

variable {policy : WarningPolicy}

theorem compileAt_ok_iff {location : Location} {text : String} {expr : Expr} :
    (compileAt policy location text).Gives (.ok expr) ↔
      (Expr.compile policy text).Gives (.ok expr) := by
  obtain ⟨result, hresult⟩ := Expr.compile_settles policy text
  cases result with
  | error error =>
    exact ⟨fun h => (nomatch h.unique (hresult.attempt.bind (gives_throw _))),
      fun h => (nomatch h.unique hresult)⟩
  | ok found =>
    have hat : (compileAt policy location text).Gives (.ok found) :=
      hresult.attempt.bind (gives_pure found)
    exact ⟨fun h => h.unique hat ▸ hresult, fun h => h.unique hresult ▸ hat⟩

theorem compileEach_ok_iff {exprs : List Expr} :
    (compileEach policy clause items).Gives (.ok exprs) ↔
      List.Forall₂ (fun item expr => (Expr.compile policy item.2).Gives (.ok expr)) items exprs := by
  constructor
  · intro h
    induction items generalizing exprs with
    | nil =>
      obtain rfl := Except.ok.inj (h.unique (gives_pure _))
      exact .nil
    | cons item rest ih =>
      obtain ⟨expr, hexpr, hnext⟩ := h.of_bind (compileAt_settles policy _ _)
        fun _ => (compileEach_settles policy clause rest).bind fun _ => settles_pure _
      obtain ⟨others, hothers, hlast⟩ :=
        hnext.of_bind (compileEach_settles policy clause rest) fun _ => settles_pure _
      obtain rfl := Except.ok.inj (hlast.unique (gives_pure _))
      exact .cons (compileAt_ok_iff.mp hexpr) (ih hothers)
  · intro h
    induction h with
    | nil => exact gives_pure []
    | cons hitem _ ih => exact (compileAt_ok_iff.mpr hitem).bind (ih.bind (gives_pure _))

theorem compiles_iff {exprs : List Expr} :
    List.Forall₂ (fun item expr => (Expr.compile policy item.2).Gives (.ok expr)) items exprs ↔
      List.Forall₂ (fun item expr => Expr.parse item.2 = .ok expr) items exprs ∧
        (policy = .fail → ∀ expr ∈ exprs, expr.conditionalAggregates = []) := by
  constructor
  · intro h
    induction h with
    | nil => exact ⟨.nil, fun _ _ hmem => absurd hmem List.not_mem_nil⟩
    | cons hitem _ ih =>
      obtain ⟨hparse, hsilent⟩ := Expr.compile_ok_iff.mp hitem
      exact ⟨.cons hparse ih.1, fun hpolicy =>
        List.forall_mem_cons.mpr ⟨hsilent hpolicy, ih.2 hpolicy⟩⟩
  · rintro ⟨hparses, hsilent⟩
    induction hparses with
    | nil => exact .nil
    | cons hparse _ ih =>
      simp only [List.forall_mem_cons] at hsilent
      exact .cons (Expr.compile_ok_iff.mpr ⟨hparse, fun hpolicy => (hsilent hpolicy).1⟩)
        (ih fun hpolicy => (hsilent hpolicy).2)

/-- Items that compile one by one compile in one go. -/
theorem gives_compileList_of_each {exprs : List Expr}
    (h : List.Forall₂ (fun item expr => (Expr.compile policy item.2).Gives (.ok expr)) items
      exprs) : (compileList policy clause items).Gives (.ok exprs) := by
  unfold compileList
  by_cases hempty : items = []
  · subst hempty
    cases h
    exact gives_pure []
  · rw [if_neg (by simpa using hempty)]
    obtain ⟨hparses, hsilent⟩ := compiles_iff.mp h
    have hjoined := Expr.compileList_ok_iff.mpr ⟨Expr.parseList_of_each (by simpa using hempty)
      (List.forall₂_map_left_iff.mpr hparses), hsilent⟩
    refine hjoined.attempt.bind ?_
    dsimp only
    rw [if_pos h.length_eq.symm]
    exact gives_pure exprs

/-- Items that close only brackets they have opened compile in one go as they do one by one. -/
theorem gives_compileList {result : Except Error (List Expr)}
    (hself : ∀ item ∈ items, Expr.SelfContained item.2.toList)
    (h : (compileEach policy clause items).Gives result) :
    (compileList policy clause items).Gives result := by
  cases result with
  | ok exprs => exact gives_compileList_of_each (compileEach_ok_iff.mp h)
  | error error =>
    have hne : items ≠ [] := by
      rintro rfl
      cases h.unique (gives_pure [])
    unfold compileList
    rw [if_neg (by simpa using hne)]
    obtain ⟨joint, hjoint⟩ := Expr.compileList_settles policy (", ".intercalate (items.map (·.2)))
    refine hjoint.attempt.bind ?_
    cases joint with
    | error other => exact h.bind_error
    | ok found =>
      -- All items would compile by themselves.
      obtain ⟨hparse, hsilent⟩ := Expr.compileList_ok_iff.mp hjoint
      have hparses := List.forall₂_map_left_iff.mp ((Expr.parseList_intercalate
        (by simpa using hne) (List.forall_mem_map.mpr hself)).mp hparse)
      have heach : (compileEach policy clause items).Gives (.ok found) :=
        compileEach_ok_iff.mpr (compiles_iff.mpr ⟨hparses, hsilent⟩)
      cases h.unique heach

/-- Such items compile to the expressions that they compile to one by one. -/
theorem compiles_of_compileList {exprs : List Expr}
    (hself : ∀ item ∈ items, Expr.SelfContained item.2.toList)
    (h : (compileList policy clause items).Gives (.ok exprs)) :
    List.Forall₂ (fun item expr => (Expr.compile policy item.2).Gives (.ok expr)) items exprs := by
  obtain ⟨result, heach⟩ := compileEach_settles policy clause items
  obtain rfl := (gives_compileList hself heach).unique h
  exact compileEach_ok_iff.mp heach

end List

/-! ### The first item that does not compile -/

/-- The text at an index does not compile, and all texts before it do. -/
structure FirstFault (compiles : String → Except Error Expr → Prop) (texts : List (Option String))
    (index : Nat) (text : String) (error : Error) : Prop where
  found : texts[index]? = some (some text)
  fails : compiles text (.error error)
  earlier : ∀ before < index, ∀ other, texts[before]? = some (some other) →
    ∃ expr, compiles other (.ok expr)

section FirstFault

variable {compiles : String → Except Error Expr → Prop} {texts : List (Option String)}

theorem FirstFault.cons {index : Nat} {text : String} {error : Error} {first : Option String}
    (hfirst : ∀ text, first = some text → ∃ expr, compiles text (.ok expr))
    (h : FirstFault compiles texts index text error) :
    FirstFault compiles (first :: texts) (index + 1) text error where
  found := h.found
  fails := h.fails
  earlier before hlt other hother := by
    cases before with
    | zero => exact hfirst other (Option.some.inj hother)
    | succ before => exact h.earlier before (Nat.lt_of_succ_lt_succ hlt) other hother

/-- Either all texts compile or there is a first one that does not. -/
theorem compiled_or_firstFault (htotal : ∀ text, ∃ result, compiles text result)
    (texts : List (Option String)) :
    (∃ exprs, List.Forall₂ (fun text expr => compiles text (.ok expr)) (texts.filterMap id)
      exprs) ∨
    ∃ index text error, FirstFault compiles texts index text error := by
  induction texts with
  | nil => exact .inl ⟨[], .nil⟩
  | cons first rest ih =>
    cases first with
    | none =>
      exact ih.imp id fun ⟨index, text, error, h⟩ => ⟨index + 1, text, error, h.cons (by simp)⟩
    | some text =>
      obtain ⟨_ | expr, hresult⟩ := htotal text
      · exact .inr ⟨0, text, _, rfl, hresult, by simp⟩
      · refine ih.imp (fun ⟨exprs, hexprs⟩ => ⟨expr :: exprs, .cons hresult hexprs⟩) ?_
        rintro ⟨index, other, error, h⟩
        refine ⟨index + 1, other, error, h.cons ?_⟩
        rintro _ ⟨⟩
        exact ⟨expr, hresult⟩

theorem map_numbered (position : Nat) (texts : List (Option String)) :
    (numbered position texts).map (·.2) = texts.filterMap id := by
  induction texts generalizing position with
  | nil => rfl
  | cons text rest ih =>
    cases text with
    | none => exact ih (position + 1)
    | some text => exact congrArg (text :: ·) (ih (position + 1))

/-- A text has its index from the first position on, counting also what is no text. -/
theorem exists_numbered {index : Nat} {text : String} (h : texts[index]? = some (some text))
    (position : Nat) :
    ∃ before after, numbered position texts = before ++ (position + index, text) :: after ∧
      ∀ item ∈ before, ∃ earlier < index, texts[earlier]? = some (some item.2) := by
  induction texts generalizing index position with
  | nil => cases h
  | cons first rest ih =>
    cases index with
    | zero =>
      obtain rfl := Option.some.inj h
      exact ⟨[], numbered (position + 1) rest, rfl, fun _ hmem => absurd hmem List.not_mem_nil⟩
    | succ index =>
      obtain ⟨before, after, hsplit, hbefore⟩ := @ih index h (position + 1)
      have hlater : ∀ item ∈ before,
          ∃ earlier < index + 1, (first :: rest)[earlier]? = some (some item.2) :=
        fun item hitem => by
          obtain ⟨earlier, hlt, hearlier⟩ := hbefore item hitem
          exact ⟨earlier + 1, Nat.succ_lt_succ hlt, hearlier⟩
      rw [Nat.add_right_comm, Nat.add_assoc] at hsplit
      cases first with
      | none => exact ⟨before, after, hsplit, hlater⟩
      | some found =>
        refine ⟨(position, found) :: before, after, congrArg ((position, found) :: ·) hsplit, ?_⟩
        exact List.forall_mem_cons.mpr ⟨⟨0, Nat.succ_pos _, rfl⟩, hlater⟩

end FirstFault

section Clause

variable {clause} {prepare : String → String} {texts : List (Option String)}

theorem selfContained_numbered
    (hself : ∀ text ∈ texts.filterMap id, Expr.SelfContained (prepare text).toList) :
    ∀ item ∈ (numbered 1 texts).map fun (position, text) => (position, prepare text),
      Expr.SelfContained item.2.toList := by
  intro item hitem
  obtain ⟨given, hgiven, rfl⟩ := List.mem_map.mp hitem
  exact hself given.2 (map_numbered 1 texts ▸ List.mem_map_of_mem hgiven)

/-- Items that compile one by one compile to the same expressions in one go, whatever brackets
they leave open or close. -/
theorem gives_compileClause_ok {policy : WarningPolicy} {exprs : List Expr}
    (h : List.Forall₂ (fun text expr => (Expr.compile policy (prepare text)).Gives (.ok expr))
      (texts.filterMap id) exprs) :
    (compileClause policy clause prepare texts).Gives (.ok exprs) := by
  refine gives_compileList_of_each ?_
  rw [← map_numbered 1 texts, List.forall₂_map_left_iff] at h
  exact List.forall₂_map_left_iff.mpr h

theorem gives_compileClause_error {index : Nat} {text : String} {error : Error}
    (hself : ∀ text ∈ texts.filterMap id, Expr.SelfContained (prepare text).toList)
    (h : FirstFault (fun text => (Expr.compile .report (prepare text)).Gives) texts index text
      error) :
    (compileClause .report clause prepare texts).Gives
      (.error (.compile ⟨clause, some (index + 1)⟩ (prepare text) error)) := by
  obtain ⟨before, after, hsplit, hbefore⟩ := exists_numbered h.found 1
  have hself := selfContained_numbered hself
  unfold compileClause
  rw [hsplit, List.map_append, List.map_cons] at hself ⊢
  cases hparse : Expr.parse (prepare text) with
  | ok expr => cases h.fails.unique (Expr.gives_compile_ok_iff.mpr hparse)
  | error fault =>
    have hcause := (hparse ▸ Expr.gives_compile (prepare text)).unique h.fails
    cases hcause
    rw [Nat.add_comm index 1]
    refine gives_compileList hself (gives_compileEach_error _ (List.forall_mem_map.mpr
      fun item hitem => ?_) hparse)
    obtain ⟨earlier, hlt, hearlier⟩ := hbefore item hitem
    obtain ⟨expr, hexpr⟩ := h.earlier earlier hlt item.2 hearlier
    exact ⟨expr, Expr.gives_compile_ok_iff.mp hexpr⟩

/-- A clause of items that close only brackets they have opened compiles to the expressions of the
items one by one, or fails at the first item that does not compile. -/
theorem gives_compileClause
    (hself : ∀ text ∈ texts.filterMap id, Expr.SelfContained (prepare text).toList) :
    (∀ exprs, (compileClause .report clause prepare texts).Gives (.ok exprs) →
      List.Forall₂ (fun text expr => (Expr.compile .report (prepare text)).Gives (.ok expr))
        (texts.filterMap id) exprs) ∧
    ((¬∃ exprs, (compileClause .report clause prepare texts).Gives (.ok exprs)) →
      ∃ index text error,
        FirstFault (fun text => (Expr.compile .report (prepare text)).Gives) texts index text
          error ∧
        (compileClause .report clause prepare texts).Gives
          (.error (.compile ⟨clause, some (index + 1)⟩ (prepare text) error))) := by
  have hcases := compiled_or_firstFault
    (fun text => Expr.compile_settles .report (prepare text)) texts
  refine ⟨fun exprs h => ?_, fun hnone => ?_⟩
  · rcases hcases with ⟨others, hothers⟩ | ⟨index, text, error, hfault⟩
    · cases h.unique (gives_compileClause_ok hothers)
      exact hothers
    · cases h.unique (gives_compileClause_error hself hfault)
  · rcases hcases with ⟨others, hothers⟩ | ⟨index, text, error, hfault⟩
    · exact absurd ⟨others, gives_compileClause_ok hothers⟩ hnone
    · exact ⟨index, text, error, hfault, gives_compileClause_error hself hfault⟩

/-- Whatever the policy, a clause of items that close only brackets they have opened compiles to
nothing but the expressions that the items compile to one by one. -/
theorem compiles_of_compileClause {policy : WarningPolicy} {exprs : List Expr}
    (hself : ∀ text ∈ texts.filterMap id, Expr.SelfContained (prepare text).toList)
    (h : (compileClause policy clause prepare texts).Gives (.ok exprs)) :
    List.Forall₂ (fun text expr => (Expr.compile policy (prepare text)).Gives (.ok expr))
      (texts.filterMap id) exprs := by
  have hcompiles := compiles_of_compileList (selfContained_numbered hself) h
  rw [List.forall₂_map_left_iff] at hcompiles
  rwa [← map_numbered 1 texts, List.forall₂_map_left_iff]

end Clause

/-! ### Items of `SELECT` -/

/-- Compiling the items of a `SELECT` clause in one go and one by one, for all columns. Items that
compile one by one do so in one go. A clause that closes only brackets it has opened compiles to
nothing else: it fails at the position of the first item that does not compile. Its literals are
taken out, and no dot or arrow stands right before a word that holds one. -/
theorem compileClause_select (table : LiteralTable) (text : List Char) (bindings : ColumnBindings) :
    let items := (Selection.ofText table text).items
    let compiles := fun item => (Expr.compile .report (bindings.prepare table item)).Gives
    let compiled := compileClause .report .select (bindings.prepare table) (items.map itemText?)
    (∀ exprs, List.Forall₂ (fun item expr => compiles item (.ok expr)) (items.filterMap itemText?)
      exprs → compiled.Gives (.ok exprs)) ∧
    ∀ name query rewritten, (∀ index, Placeholder.isWhole (name index) = true) →
      LiteralTable.extract name query = .ok (rewritten, table) → table.Apart text →
      Item.Nested (Selection.withoutModifiers text) →
      (∀ exprs, compiled.Gives (.ok exprs) →
        List.Forall₂ (fun item expr => compiles item (.ok expr)) (items.filterMap itemText?)
          exprs) ∧
      ((¬∃ exprs, compiled.Gives (.ok exprs)) → ∃ index item error,
        FirstFault compiles (items.map itemText?) index item error ∧
        compiled.Gives
          (.error (.compile ⟨.select, some (index + 1)⟩ (bindings.prepare table item) error))) := by
  have htexts : ((Selection.ofText table text).items.map itemText?).filterMap id =
      (Selection.ofText table text).items.filterMap itemText? := by
    rw [List.filterMap_map]
    rfl
  refine ⟨fun exprs h => gives_compileClause_ok (htexts.symm ▸ h), ?_⟩
  intro name query rewritten hname hextract hapart hnested
  have hself := Selection.selfContained_expressions hname hextract hapart hnested bindings
  rw [← htexts] at hself
  have hclause := @gives_compileClause .select _ _ hself
  rw [htexts] at hclause
  exact hclause

/-- A clause whose third item, counting the star, leaves a bracket open. -/
theorem compileClause_select_of_open :
    let table : LiteralTable := [("__aaaaaaaaaaaa__".toList, ⟨'\'', ['x']⟩)]
    let text := "*,__aaaaaaaaaaaa__+1,(b".toList
    table.Apart text ∧ Item.Nested (Selection.withoutModifiers text) ∧
    ∃ error, (compileClause .report .select (ColumnBindings.prepare [] table)
      ((Selection.ofText table text).items.map itemText?)).Gives
        (.error (.compile ⟨.select, some 3⟩ "(b" error)) := by
  intro table text
  have hextract : LiteralTable.extract Placeholder.ofNumber "*,'x'+1,(b".toList =
      .ok (text, table) := eq_ok_of_toOption (by decide +kernel)
  have hapart : table.Apart text := by
    have hdot : '.' ∉ text := by decide
    have hdash : '-' ∉ text := by decide
    exact ⟨by decide, fun _ _ h => absurd (h.subset List.mem_cons_self) hdot,
      fun _ _ h => absurd (h.subset List.mem_cons_self) hdash⟩
  have hmodifiers : Selection.withoutModifiers text = text :=
    Selection.withoutModifiers_of_plain (by decide) (by decide)
  have hnested : Item.Nested (Selection.withoutModifiers text) := by
    rw [hmodifiers]
    decide
  have hitems : (Selection.ofText table text).items.map itemText? =
      [none, some "__aaaaaaaaaaaa__+1", some "(b"] := by
    change ((Item.split (Selection.withoutModifiers text)).map (Selection.item table)).map
      itemText? = _
    rw [hmodifiers]
    decide
  have hparses : (Expr.parse (ColumnBindings.prepare [] table "__aaaaaaaaaaaa__+1")).isOk = true :=
    by decide +kernel
  have hfails : (Expr.parse (ColumnBindings.prepare [] table "(b")).isOk = false := by
    decide +kernel
  obtain ⟨expr, hexpr⟩ := exists_of_isOk hparses
  obtain ⟨honly, hfirst⟩ := (compileClause_select table text []).2 _ _ _
    Placeholder.isWhole_ofNumber hextract hapart hnested
  refine ⟨hapart, hnested, ?_⟩
  have hopen : "(b" ∈ (Selection.ofText table text).items.filterMap itemText? := by
    have hmem : some "(b" ∈ (Selection.ofText table text).items.map itemText? := by
      rw [hitems]
      decide
    simpa using hmem
  obtain ⟨index, item, error, hfault, hgives⟩ := hfirst fun ⟨exprs, hexprs⟩ => by
    obtain ⟨found, hfound⟩ := exists_of_forall₂ (honly exprs hexprs) "(b" hopen
    rw [Expr.gives_compile_ok_iff.mp hfound] at hfails
    cases hfails
  have hfound := hfault.found
  rw [hitems] at hfound
  -- The second item compiles, so that the third one fails first.
  match index, hfound with
  | 1, hfound =>
    cases hfound
    cases hfault.fails.unique (Expr.gives_compile_ok_iff.mpr hexpr)
  | 2, hfound =>
    cases hfound
    exact ⟨error, hgives⟩

/-- A clause whose first item leaves a bracket open that its second item closes. -/
theorem ofText_open : Selection.ofText [] "(1 AS x),2),3".toList =
    ⟨[.column "x)" "(1", .column "_2_3" "2),3"], false, false⟩ := by
  have hsplit : Item.split "(1 AS x),2),3".toList = ["(1 AS x)".toList, "2),3".toList] := by
    decide
  have hfirst : Selection.item [] "(1 AS x)".toList = .column "x)" "(1" := by
    have hnamed := @Selection.item_named [] ['(', '1'] ['x', ')'] (by decide) (by decide)
    exact hnamed.trans (by decide)
  have hsecond : Selection.item [] "2),3".toList = .column "_2_3" "2),3" := by decide
  rw [Selection.ofText_of_plain [] (by decide) (by decide), hsplit, List.map_cons, List.map_cons,
    hfirst, hsecond, List.map_nil]

/-- A bracket that is open at the end of an item, where its name begins, may be closed in the next
one: in one go both compile to expressions of parts of the items, one by one neither does. -/
theorem compileClause_select_not_each :
    let texts := (Selection.ofText [] "(1 AS x),2),3".toList).items.map itemText?
    let prepare := ColumnBindings.prepare [] []
    (∃ exprs, exprs.length = 2 ∧
      (compileClause .report .select prepare texts).Gives (.ok exprs)) ∧
    ∃ error, FirstFault (fun text => (Expr.compile .report (prepare text)).Gives) texts 0 "(1"
      error := by
  intro texts prepare
  have htexts : texts = [some "(1", some "2),3"] :=
    congrArg (fun selection => selection.items.map itemText?) ofText_open
  obtain ⟨exprs, hexprs, hlength⟩ :
      ∃ exprs, Expr.parseList (", ".intercalate [prepare "(1", prepare "2),3"]) = .ok exprs ∧
        exprs.length = 2 := by
    have hcount : (Expr.parseList (", ".intercalate [prepare "(1", prepare "2),3"])).toOption.map
        List.length = some 2 := by decide +kernel
    obtain ⟨exprs, hexprs, hlength⟩ := Option.map_eq_some_iff.mp hcount
    exact ⟨exprs, eq_ok_of_toOption hexprs, hlength⟩
  have hfails : (Expr.parse (prepare "(1")).isOk = false := by decide +kernel
  refine ⟨⟨exprs, hlength, ?_⟩, ?_⟩
  · rw [htexts]
    exact @gives_compileList_joined .select [(1, prepare "(1"), (2, prepare "2),3")] exprs (by simp)
      hexprs hlength
  · have halone := Expr.gives_compile (prepare "(1")
    cases hparse : Expr.parse (prepare "(1") with
    | ok expr =>
      rw [hparse] at hfails
      cases hfails
    | error fault =>
      rw [hparse] at halone
      exact ⟨_, by rw [htexts]; rfl, halone, by simp⟩

end Plan

end StreamQuery
