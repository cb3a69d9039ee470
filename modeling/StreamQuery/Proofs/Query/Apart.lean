import StreamQuery.Proofs.Query.Access

/-!
# Texts whose names are apart from literals

A clause text in which no word right behind a dot or an arrow holds a placeholder, unless it is
one, is expanded to tidy fragments. The property only depends on parts of the text without blanks,
so it passes from a query to the items of its clauses.
-/

namespace StreamQuery

/-- A text without quotes in which no word right behind a dot or an arrow holds a placeholder of the
table, unless it is one. -/
structure LiteralTable.Apart (table : LiteralTable) (text : List Char) : Prop where
  quotes : ∀ c ∈ text, Literal.isQuote c = false
  members : ∀ name, name.all Fragment.isNameChar = true → '.' :: name <:+: text → table.Free name
  arrows : ∀ key, key.all Fragment.isNameChar = true → '-' :: '>' :: key <:+: text →
    table.Free key

variable {table : LiteralTable}

namespace LiteralTable

/-- The parts of a text that tell whether it is apart from literals. -/
inductive Telling : List Char → Prop
  | quote {c : Char} : Literal.isQuote c = true → Telling [c]
  | member {name : List Char} : name.all Fragment.isNameChar = true → Telling ('.' :: name)
  | arrow {key : List Char} : key.all Fragment.isNameChar = true → Telling ('-' :: '>' :: key)

theorem Telling.not_mem {part : List Char} (h : Telling part) {d : Char}
    (hd : Fragment.isNameChar d = false) (hquote : Literal.isQuote d = false) (hdot : d ≠ '.')
    (hdash : d ≠ '-') (hangle : d ≠ '>') : d ∉ part := by
  have hname : ∀ name : List Char, name.all Fragment.isNameChar = true → d ∉ name :=
    fun name hname hmem => by cases hd.symm.trans (List.all_eq_true.mp hname d hmem)
  cases h with
  | @quote c hc =>
    rintro hmem
    obtain rfl := List.mem_singleton.mp hmem
    cases hquote.symm.trans hc
  | member h => simp [hdot, hname _ h]
  | arrow h => simp [hdash, hangle, hname _ h]

theorem Telling.ne_nil {part : List Char} (h : Telling part) : part ≠ [] := by
  cases h <;> simp

theorem Telling.head {part : List Char} (h : Telling part) :
    ∀ c ∈ part.head?, Literal.isQuote c = true ∨ c = '.' ∨ c = '-' := by
  cases h with
  | quote hc =>
    rintro d hd
    obtain rfl := Option.some.inj hd
    exact .inl hc
  | member => simp
  | arrow => simp

/-- A text is as apart from literals as one that has its telling parts. -/
theorem Apart.of_telling {text other : List Char} (h : table.Apart text)
    (hparts : ∀ part, Telling part → part <:+: other → part <:+: text) : table.Apart other where
  quotes c hc := by
    refine Bool.eq_false_iff.mpr fun hquote => ?_
    obtain ⟨before, after, rfl⟩ := List.append_of_mem hc
    have hwithin : [c] <:+: text := hparts [c] (.quote hquote) ⟨before, after, by simp⟩
    cases (h.quotes c (hwithin.subset List.mem_cons_self)).symm.trans hquote
  members name hname hwithin := h.members name hname (hparts _ (.member hname) hwithin)
  arrows key hkey hwithin := h.arrows key hkey (hparts _ (.arrow hkey) hwithin)

theorem Apart.part {text part : List Char} (h : table.Apart text) (hpart : part <:+: text) :
    table.Apart part :=
  h.of_telling fun _ _ hwithin => hwithin.trans hpart

open Fragment

theorem Apart.clear {text : List Char} (h : table.Apart text) : Clear table (ofText text) := by
  have htidy : Tidy table (ofText text) := tidy_ofText h.quotes
  have hwithin : ∀ {part : List Fragment}, part <:+: ofText text → textOf part <:+: text := by
    rintro part ⟨before, after, heq⟩
    refine ⟨textOf before, textOf after, ?_⟩
    rw [← textOf_append, ← textOf_append, heq, textOf_ofText]
  have hword : ∀ {word : List Char} {part : List Fragment}, .word word ∈ part →
      part <:+: ofText text → word.all isNameChar = true := by
    intro word part hmem hpart
    cases htidy.whole _ (hpart.subset hmem) with
    | word _ hletters => exact hletters
  refine ⟨fun name hname => ?_, fun key hkey => ?_⟩
  · exact h.members name (hword (by simp) hname) (by simpa [Fragment.text] using hwithin hname)
  · exact h.arrows key (hword (by simp) hkey) (by simpa [Fragment.text] using hwithin hkey)

end LiteralTable

namespace Shorthand

open Fragment LiteralTable

/-! ### Aggregates of stars -/

section Stars

variable {name replacement tail : List Char}

/-- What stands at the front of the expanded text without a parenthesis was there before. -/
theorem prefix_of_replaceStarFrom (hreplacement : replacement = name ++ '(' :: tail)
    {part text : List Char} {previous : Option Char} (hpart : part.all (· != '(') = true)
    (h : part <+: replaceStarFrom name replacement previous 0 text) : part <+: text := by
  induction text generalizing part previous with
  | nil => exact h
  | cons c rest ih =>
    rw [replaceStarFrom] at h
    split at h
    -- The name and the parenthesis behind it were put for the same name.
    case h_1 after hafter =>
      have hname : name.isPrefixOf (c :: rest) = true := by
        by_contra hname
        simp [hname] at hafter
      rw [hreplacement, List.append_assoc] at h
      have hfront : part <+: name := prefix_of_all hpart (by simp) h
      exact hfront.trans (List.isPrefixOf_iff_prefix.mp hname)
    case h_2 =>
      cases part with
      | nil => exact List.nil_prefix
      | cons d part =>
        rw [List.all_cons, Bool.and_eq_true] at hpart
        rw [List.cons_prefix_cons] at h ⊢
        exact ⟨h.1, ih hpart.2 h.2⟩

theorem within_replaceStarFrom (hreplacement : replacement = name ++ '(' :: tail)
    {part text : List Char} {previous : Option Char} {skip : Nat}
    (hpart : part.all (· != '(') = true) (hne : part ≠ [])
    (hhead : ∀ c ∈ part.head?, c ∉ replacement)
    (h : part <:+: replaceStarFrom name replacement previous skip text) : part <:+: text := by
  induction text generalizing previous skip with
  | nil => exact h
  | cons c rest ih =>
    have hlater : part <:+: rest → part <:+: c :: rest :=
      fun hwithin => hwithin.trans (List.suffix_cons c rest).isInfix
    cases skip with
    | succ skip => exact hlater (ih h)
    | zero =>
      rw [replaceStarFrom] at h
      split at h
      case h_1 => exact hlater (ih (within_of_append hne hhead h))
      case h_2 hnone =>
        rcases List.infix_cons_iff.mp h with hfront | hwithin
        · obtain ⟨d, part, rfl⟩ := List.exists_cons_of_ne_nil hne
          rw [List.all_cons, Bool.and_eq_true] at hpart
          rw [List.cons_prefix_cons] at hfront
          exact (List.cons_prefix_cons.mpr
            ⟨hfront.1, prefix_of_replaceStarFrom hreplacement hpart.2 hfront.2⟩).isInfix
        · exact hlater (ih hwithin)

theorem apart_replaceStarFrom (hreplacement : replacement = name ++ '(' :: tail)
    (hplain : replacement.all (fun c => !Literal.isQuote c && c != '.' && c != '-') = true)
    {text : List Char} (h : table.Apart text) :
    table.Apart (replaceStarFrom name replacement none 0 text) := by
  refine h.of_telling fun part hpart hwithin => ?_
  have hparen : '(' ∉ part := hpart.not_mem (by decide) rfl (by decide) (by decide) (by decide)
  refine within_replaceStarFrom hreplacement ?_ hpart.ne_nil (fun c hc hmem => ?_) hwithin
  · exact List.all_eq_true.mpr fun c hc => bne_iff_ne.mpr fun heq => hparen (heq ▸ hc)
  · have hchar := List.all_eq_true.mp hplain c hmem
    simp only [Bool.and_eq_true, Bool.not_eq_true', bne_iff_ne] at hchar
    rcases hpart.head c hc with hquote | hdot | hdash
    · cases hchar.1.1.symm.trans hquote
    · exact hchar.1.2 hdot
    · exact hchar.2 hdash

theorem apart_expandStars {text : List Char} (h : table.Apart text) :
    table.Apart (expandStars text) := by
  have hcount : "count_agg(1)".toList = "count_agg".toList ++ '(' :: ['1', ')'] := by decide
  have hdistinct : "count_distinct_agg(_values)".toList =
      "count_distinct_agg".toList ++ '(' :: "_values)".toList := by decide
  exact apart_replaceStarFrom hdistinct (by decide) (apart_replaceStarFrom hcount (by decide) h)

end Stars

/-! ### Leading dots -/

section Dots

variable {fragments : List Fragment} {previous : Option Char}

/-- A dot is kept if it belongs to what stands before it. -/
def Attached (previous : Option Char) (fragments : List Fragment) : Prop :=
  fragments.head? = some (.sign '.') → previous.any attachesDot = true

/-- What may be written for a dot: with `row` in front, the dot as it is, or `row` in its place if
no name follows. -/
inductive Lead (rest : List Fragment) : List Char → Prop
  | row : Lead rest ['r', 'o', 'w', '.']
  | dot : Lead rest ['.']
  | bare : (∀ c ∈ firstChar rest, c ≠ '_') → Lead rest ['r', 'o', 'w']

theorem expandLeadingDots_attached {fragment : Fragment} {rest : List Fragment}
    (h : Attached previous (fragment :: rest)) :
    expandLeadingDots previous (fragment :: rest) =
      fragment.text ++ expandLeadingDots (fragment.text.getLast?.or previous) rest := by
  rw [expandLeadingDots, if_neg]
  rintro ⟨rfl, hattaches⟩
  simp [h rfl] at hattaches

theorem expandLeadingDots_cases (previous : Option Char) (fragment : Fragment)
    (rest : List Fragment) :
    Attached previous (fragment :: rest) ∨
    (fragment = .sign '.' ∧ ∃ lead, Lead rest lead ∧
      expandLeadingDots previous (fragment :: rest) =
        lead ++ expandLeadingDots (some '.') rest) := by
  by_cases hattached : Attached previous (fragment :: rest)
  · exact .inl hattached
  · obtain ⟨hdot, hloose⟩ := Classical.not_imp.mp hattached
    obtain rfl : fragment = .sign '.' := by simpa using hdot
    refine .inr ⟨rfl, ?_⟩
    have hrow : "row.".toList = ['r', 'o', 'w', '.'] := by decide
    have hbare : "row".toList = ['r', 'o', 'w'] := by decide
    rw [expandLeadingDots, if_pos ⟨rfl, by simpa using hloose⟩, hrow, hbare]
    cases hfirst : firstChar rest with
    | none => exact ⟨_, .bare (by simp [hfirst]), rfl⟩
    | some c =>
      dsimp only
      split
      · exact ⟨_, .row, rfl⟩
      · split
        · exact ⟨_, .dot, rfl⟩
        · rename_i hname _
          refine ⟨_, .bare ?_, rfl⟩
          rintro d hd rfl
          rw [hfirst] at hd
          obtain rfl := Option.some.inj hd
          simp at hname

theorem Attached.before_sign {rest : List Fragment} {c : Char} (hc : attachesDot c = true) :
    Attached (some c) rest :=
  fun _ => hc

/-- A sign in front stays in front. -/
theorem isNameChar_head_expandLeadingDots (htidy : Tidy table fragments)
    (hattached : Attached previous fragments)
    (hsign : ∀ next ∈ fragments.head?, next.isSign = true) :
    ∀ c ∈ (expandLeadingDots previous fragments).head?, isNameChar c = false := by
  cases fragments with
  | nil => exact fun c hc => by cases hc
  | cons fragment rest =>
    rw [expandLeadingDots_attached hattached]
    cases htidy.whole fragment List.mem_cons_self with
    | sign hname =>
      rintro c hc
      obtain rfl := Option.some.inj hc
      exact hname
    | word => cases hsign _ rfl
    | quoted => cases hsign _ rfl

theorem getLast?_or {word : List Char} (hne : word ≠ []) (previous : Option Char) :
    ∃ c ∈ word, word.getLast?.or previous = some c := by
  rw [List.getLast?_eq_some_getLast hne]
  exact ⟨word.getLast hne, List.getLast_mem hne, rfl⟩

theorem eq_nil_of_prefix {name rest : List Char} {c : Char} (hname : name.all isNameChar = true)
    (hc : isNameChar c = false) (h : name <+: c :: rest) : name = [] := by
  cases name with
  | nil => rfl
  | cons d name =>
    obtain ⟨rfl, -⟩ := List.cons_prefix_cons.mp h
    rw [List.all_cons, hc] at hname
    cases hname

/-- The word at the front of the expanded text is there before, unless a dot in front of it is
replaced. -/
theorem prefix_of_expandLeadingDots (htidy : Tidy table fragments)
    (hattached : Attached previous fragments) {name : List Char}
    (hname : name.all isNameChar = true) (h : name <+: expandLeadingDots previous fragments) :
    name <+: textOf fragments := by
  cases fragments with
  | nil => exact h
  | cons fragment rest =>
    rw [expandLeadingDots_attached hattached] at h
    cases htidy.whole fragment List.mem_cons_self with
    | sign hc => exact eq_nil_of_prefix hname hc h ▸ List.nil_prefix
    | quoted => exact eq_nil_of_prefix hname (by decide) h ▸ List.nil_prefix
    | @word letters hne hletters =>
      obtain ⟨c, hc, hlast⟩ := getLast?_or hne previous
      have hattaches : attachesDot c = true := by
        simp [attachesDot, List.all_eq_true.mp hletters c hc]
      rw [text, hlast] at h
      exact (prefix_of_all hname (isNameChar_head_expandLeadingDots htidy.tail
        (.before_sign hattaches) (htidy.sign_of_head? rfl)) h).trans (List.prefix_append _ _)

theorem free_of_length (hwhole : ∀ entry ∈ table, Placeholder.isWhole entry.1 = true)
    {word : List Char} (h : word.length < Placeholder.size) : table.Free word :=
  fun hmentions => absurd hmentions (not_mentions_of_length hwhole h)

/-- With `row` in front a word that is no placeholder does not become one that is mentioned. -/
theorem free_row (hwhole : ∀ entry ∈ table, Placeholder.isWhole entry.1 = true)
    {word : List Char} (hfirst : ∀ c ∈ word.head?, c ≠ '_') (h : table.Free word) :
    table.Free (['r', 'o', 'w'] ++ word) := by
  rintro ⟨entry, hentry, hwithin⟩
  obtain ⟨letters, -, -, hplaceholder⟩ := Placeholder.isWhole_iff.mp (hwhole entry hentry)
  have hword : entry.1 <:+: word := by
    refine within_of_append (by simp [hplaceholder]) ?_ hwithin
    simp [hplaceholder]
  obtain ⟨others, -, -, hothers⟩ := Placeholder.isWhole_iff.mp (h ⟨entry, hentry, hword⟩)
  exact absurd rfl (hfirst '_' (by simp [hothers]))

/-- The word at the front of the expanded text is free, if those there before are. -/
theorem free_of_prefix (hwhole : ∀ entry ∈ table, Placeholder.isWhole entry.1 = true)
    (htidy : Tidy table fragments) (hapart : table.Apart (textOf fragments))
    (hfree : ∀ name, name.all isNameChar = true → name <+: textOf fragments → table.Free name)
    {name : List Char} (hname : name.all isNameChar = true)
    (h : name <+: expandLeadingDots previous fragments) : table.Free name := by
  cases fragments with
  | nil => exact hfree name hname h
  | cons fragment rest =>
    rcases expandLeadingDots_cases previous fragment rest with hattached | ⟨rfl, lead, hlead, hout⟩
    · exact hfree name hname (prefix_of_expandLeadingDots htidy hattached hname h)
    · rw [hout] at h
      cases hlead with
      | dot =>
        obtain rfl := eq_nil_of_prefix hname (by decide) h
        exact free_of_length hwhole (by decide)
      | row =>
        change name <+: ['r', 'o', 'w'] ++ '.' :: expandLeadingDots (some '.') rest at h
        have hrow : name <+: ['r', 'o', 'w'] := prefix_of_all hname (by simp; decide) h
        exact free_of_length hwhole (Nat.lt_of_le_of_lt hrow.length_le (by decide))
      | bare hfirst =>
        -- The word goes on behind `row` with what was a name after the dot.
        rcases List.prefix_or_prefix_of_prefix h (List.prefix_append _ _) with hrow | ⟨word, rfl⟩
        · exact free_of_length hwhole (Nat.lt_of_le_of_lt hrow.length_le (by decide))
        · rw [List.prefix_append_right_inj] at h
          rw [List.all_append, Bool.and_eq_true] at hname
          have hword := prefix_of_expandLeadingDots htidy.tail (.before_sign (by decide)) hname.2 h
          have hmember : '.' :: word <+: textOf (.sign '.' :: rest) :=
            List.cons_prefix_cons.mpr ⟨rfl, hword⟩
          refine free_row hwhole (fun c hc => hfirst c ?_)
            (hapart.members word hname.2 hmember.isInfix)
          cases word with
          | nil => cases hc
          | cons d word =>
            obtain ⟨after, hafter⟩ := hword
            rw [firstChar, ← hafter]
            exact hc

theorem apart_tail {fragment : Fragment} {rest : List Fragment}
    (h : table.Apart (textOf (fragment :: rest))) : table.Apart (textOf rest) :=
  h.part (List.suffix_append _ _).isInfix

theorem eq_sign_of_mem {fragment : Fragment} (h : Whole table fragment) {c : Char}
    (hname : isNameChar c = false) (hquote : c ≠ '\'') (hc : c ∈ fragment.text) :
    fragment = .sign c := by
  cases h with
  | sign => rw [List.mem_singleton.mp hc]
  | word _ hletters => cases hname.symm.trans (List.all_eq_true.mp hletters c hc)
  | @quoted name hall _ =>
    have hmem : c ∈ name := by simpa [text, hquote] using hc
    cases hname.symm.trans (List.all_eq_true.mp hall c hmem)

/-- A name after a dot of the expanded text is free. -/
theorem free_of_member (htidy : Tidy table fragments) (hapart : table.Apart (textOf fragments))
    {name : List Char} (hname : name.all isNameChar = true)
    (h : '.' :: name <:+: expandLeadingDots previous fragments) : table.Free name := by
  induction fragments generalizing previous with
  | nil => exact hapart.members name hname h
  | cons fragment rest ih =>
    have hlater : ∀ {previous text}, '.' ∉ text →
        '.' :: name <:+: text ++ expandLeadingDots previous rest → table.Free name :=
      fun hnot hwithin => ih htidy.tail (apart_tail hapart)
        (within_of_append (by simp) (by simpa using hnot) hwithin)
    -- Behind a dot, whether it was there before or not, the text goes on as it was.
    have hdot : fragment = .sign '.' →
        '.' :: name <:+: '.' :: expandLeadingDots (some '.') rest → table.Free name := by
      rintro rfl hwithin
      rcases List.infix_cons_iff.mp hwithin with hfront | hwithin
      · have hword := prefix_of_expandLeadingDots htidy.tail (.before_sign (by decide)) hname
          (List.cons_prefix_cons.mp hfront).2
        exact hapart.members name hname (List.cons_prefix_cons.mpr ⟨rfl, hword⟩).isInfix
      · exact ih htidy.tail (apart_tail hapart) hwithin
    rcases expandLeadingDots_cases previous fragment rest with hattached | ⟨rfl, lead, hlead, hout⟩
    · rw [expandLeadingDots_attached hattached] at h
      by_cases hmem : '.' ∈ fragment.text
      · obtain rfl := eq_sign_of_mem (htidy.whole fragment List.mem_cons_self) (by decide)
          (by decide) hmem
        exact hdot rfl h
      · exact hlater hmem h
    · rw [hout] at h
      cases hlead with
      | dot => exact hdot rfl h
      | row =>
        change '.' :: name <:+: ['r', 'o', 'w'] ++ '.' :: expandLeadingDots (some '.') rest at h
        exact hdot rfl (within_of_append (by simp) (by simp) h)
      | bare => exact hlater (by simp) h

theorem text_ne_nil {fragment : Fragment} (h : Whole table fragment) : fragment.text ≠ [] := by
  cases h with
  | word hne => exact hne
  | _ => simp [text]

theorem eq_of_arrowhead (htidy : Tidy table fragments) {key : List Char}
    (h : '>' :: key <+: expandLeadingDots previous fragments) :
    ∃ rest, fragments = .sign '>' :: rest ∧ key <+: expandLeadingDots (some '>') rest := by
  cases fragments with
  | nil => simp [expandLeadingDots] at h
  | cons fragment rest =>
    rcases expandLeadingDots_cases previous fragment rest with hattached | ⟨rfl, lead, hlead, hout⟩
    · rw [expandLeadingDots_attached hattached] at h
      have hwhole := htidy.whole fragment List.mem_cons_self
      obtain ⟨c, tail, htext⟩ := List.exists_cons_of_ne_nil (text_ne_nil hwhole)
      have hmem : '>' ∈ fragment.text := by
        rw [htext] at h ⊢
        exact (List.cons_prefix_cons.mp h).1 ▸ List.mem_cons_self
      obtain rfl := eq_sign_of_mem hwhole (by decide) (by decide) hmem
      exact ⟨rest, rfl, (List.cons_prefix_cons.mp h).2⟩
    · rw [hout] at h
      cases hlead <;> cases (List.cons_prefix_cons.mp h).1

/-- A key after an arrow of the expanded text is free. -/
theorem free_of_arrow (hwhole : ∀ entry ∈ table, Placeholder.isWhole entry.1 = true)
    (htidy : Tidy table fragments) (hapart : table.Apart (textOf fragments)) {key : List Char}
    (hkey : key.all isNameChar = true)
    (h : '-' :: '>' :: key <:+: expandLeadingDots previous fragments) : table.Free key := by
  induction fragments generalizing previous with
  | nil => exact hapart.arrows key hkey h
  | cons fragment rest ih =>
    have hlater : ∀ {previous text}, '-' ∉ text →
        '-' :: '>' :: key <:+: text ++ expandLeadingDots previous rest → table.Free key :=
      fun hnot hwithin => ih htidy.tail (apart_tail hapart)
        (within_of_append (by simp) (by simpa using hnot) hwithin)
    rcases expandLeadingDots_cases previous fragment rest with hattached | ⟨rfl, lead, hlead, hout⟩
    · rw [expandLeadingDots_attached hattached] at h
      by_cases hmem : '-' ∈ fragment.text
      · obtain rfl := eq_sign_of_mem (htidy.whole fragment List.mem_cons_self) (by decide)
          (by decide) hmem
        -- The arrow begins here or later; if here, the sign after the dash was there before.
        rcases List.infix_cons_iff.mp h with hfront | hwithin
        · obtain ⟨rest, rfl, hafter⟩ :=
            eq_of_arrowhead htidy.tail (List.cons_prefix_cons.mp hfront).2
          refine free_of_prefix hwhole htidy.tail.tail (apart_tail (apart_tail hapart))
            (fun name hname hfront => hapart.arrows name hname ?_) hkey hafter
          exact (List.cons_prefix_cons.mpr
            ⟨rfl, List.cons_prefix_cons.mpr ⟨rfl, hfront⟩⟩).isInfix
        · exact ih htidy.tail (apart_tail hapart) hwithin
      · exact hlater hmem h
    · rw [hout] at h
      exact hlater (by cases hlead <;> simp) h

theorem mem_expandLeadingDots {c : Char} (h : c ∈ expandLeadingDots previous fragments) :
    c ∈ textOf fragments ∨ c ∈ ['r', 'o', 'w', '.'] := by
  induction fragments generalizing previous with
  | nil => exact .inl h
  | cons fragment rest ih =>
    rw [textOf_cons, List.mem_append]
    rcases expandLeadingDots_cases previous fragment rest with hattached | ⟨rfl, lead, hlead, hout⟩
    · rw [expandLeadingDots_attached hattached, List.mem_append] at h
      rcases h with hmem | hmem
      · exact .inl (.inl hmem)
      · exact (ih hmem).imp_left .inr
    · rw [hout, List.mem_append] at h
      rcases h with hmem | hmem
      · refine .inr ?_
        have hlead : lead <:+: ['r', 'o', 'w', '.'] := by
          cases hlead <;> decide
        exact hlead.subset hmem
      · exact (ih hmem).imp_left .inr

theorem apart_expandLeadingDots (hwhole : ∀ entry ∈ table, Placeholder.isWhole entry.1 = true)
    {text : List Char} (h : table.Apart text) :
    table.Apart (expandLeadingDots none (ofText text)) := by
  have htidy : Tidy table (ofText text) := tidy_ofText h.quotes
  have hapart : table.Apart (textOf (ofText text)) := (textOf_ofText text).symm ▸ h
  refine ⟨fun c hc => ?_, fun name hname => free_of_member htidy hapart hname,
    fun key hkey => free_of_arrow hwhole htidy hapart hkey⟩
  rcases mem_expandLeadingDots hc with hmem | hmem
  · exact hapart.quotes c hmem
  · exact Literal.isQuote_eq_false_of_all (by decide) c hmem

end Dots

/-- The shorthand of a text that is apart from literals expands to tidy fragments. -/
theorem exists_tidy_expand (hwhole : ∀ entry ∈ table, Placeholder.isWhole entry.1 = true)
    {text : List Char} (h : table.Apart text) :
    ∃ fragments, expand text = textOf fragments ∧ Tidy table fragments := by
  have hdots := apart_expandLeadingDots hwhole (apart_expandStars h)
  exact exists_tidy hdots.quotes hdots.clear

end Shorthand

end StreamQuery
