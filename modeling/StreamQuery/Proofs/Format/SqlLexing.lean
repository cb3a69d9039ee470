import StreamQuery.Format.Sql
import StreamQuery.Proofs.Json.Texts

/-!
# The tokens of statements

The lexical structure of SQL as far as values need it: words, numbers, punctuation, and texts and
names in quotes, where a quote that is doubled stands for itself. What the writer quotes is one
token whatever it holds, and so are the texts of numbers.
-/

namespace StreamQuery.Sql

/-- A token. -/
inductive Token where
  | word (text : String)
  | number (text : String)
  | name (text : String)
  | text (text : String)
  | mark (c : Char)
  deriving DecidableEq

/-- The token of what stands in quotes: double quotes enclose names. -/
def Token.ofQuoted (quote : Char) (content : String) : Token :=
  if quote = '"' then .name content else .text content

/-- Where the next character stands; what belongs to its token so far is given with the latest
character first. -/
inductive LexPlace where
  | between
  | sign
  | word (latest : List Char)
  | number (latest : List Char)
  | quoted (quote : Char) (latest : List Char)
  | closing (quote : Char) (latest : List Char)

/-- Punctuation. -/
def isMark (c : Char) : Bool :=
  c == '(' || c == ')' || c == ',' || c == ';'

/-- A character between tokens. -/
def isGap (c : Char) : Bool :=
  c == ' ' || c == '\n'

/-- A character of a word. -/
def isWordChar (c : Char) : Bool :=
  c.isAlphanum || c == '_'

/-- Whether a number goes on with a character: a sign only comes after the letter of the
exponent. -/
def continuesNumber (previous : Option Char) (c : Char) : Bool :=
  c.isDigit || c == '.' || c == 'e' || ((c == '+' || c == '-') && previous == some 'e')

namespace LexPlace

/-- The token that ends in a place, if the text may end there. -/
def finish : LexPlace → Option (List Token)
  | .between => some []
  | .sign => none
  | .word latest => some [.word (String.ofList latest.reverse)]
  | .number latest => some [.number (String.ofList latest.reverse)]
  | .quoted _ _ => none
  | .closing quote latest => some [.ofQuoted quote (String.ofList latest.reverse)]

/-- The token of a character that starts one, if it is a token on its own, and the place after
it. -/
def start (c : Char) : Option (List Token × LexPlace) :=
  if isGap c then some ([], .between)
  else if isMark c then some ([.mark c], .between)
  else if c == '\'' || c == '"' then some ([], .quoted c [])
  else if c == '-' then some ([], .sign)
  else if c.isDigit then some ([], .number [c])
  else if isWordChar c then some ([], .word [c])
  else none

/-- A character after the token that ends in a place. -/
def restart (place : LexPlace) (c : Char) : Option (List Token × LexPlace) := do
  let done ← place.finish
  let (tokens, next) ← start c
  some (done ++ tokens, next)

/-- The tokens that end with a character, and the place after it. -/
def step (place : LexPlace) (c : Char) : Option (List Token × LexPlace) :=
  match place with
  | .between => start c
  | .sign => if c.isDigit then some ([], .number [c, '-']) else none
  | .word latest => if isWordChar c then some ([], .word (c :: latest)) else place.restart c
  | .number latest =>
    if continuesNumber latest.head? c then some ([], .number (c :: latest)) else place.restart c
  | .quoted quote latest =>
    some ([], if c = quote then .closing quote latest else .quoted quote (c :: latest))
  | .closing quote latest =>
    if c = quote then some ([], .quoted quote (c :: latest)) else place.restart c

/-- The tokens of a text from a place on. -/
def lex (place : LexPlace) : List Char → Option (List Token)
  | [] => place.finish
  | c :: rest => do
    let (tokens, next) ← place.step c
    let more ← next.lex rest
    some (tokens ++ more)

end LexPlace

open LexPlace

variable {c quote : Char} {text rest : List Char} {latest : List Char}

/-! ### Ends of tokens -/

/-- Whether a text ends or goes on with what separates tokens. -/
def Separated (rest : List Char) : Prop :=
  ∀ c, rest.head? = some c → isMark c = true ∨ isGap c = true

theorem separated_cons (h : (isMark c || isGap c) = true) (rest : List Char) :
    Separated (c :: rest) := by
  rintro d hd
  obtain rfl := Option.some.inj hd
  simpa using h

/-- What separates tokens belongs to none of them. -/
theorem separator (h : isMark c = true ∨ isGap c = true) :
    c ≠ '\'' ∧ c ≠ '"' ∧ isWordChar c = false ∧ ∀ previous, continuesNumber previous c = false := by
  simp only [isMark, isGap, Bool.or_eq_true, beq_iff_eq] at h
  rcases h with (((rfl | rfl) | rfl) | rfl) | (rfl | rfl)
  all_goals exact ⟨by decide, by decide, by decide, fun _ => rfl⟩

/-- A token that ends where another one starts is followed by the tokens of the rest. -/
theorem lex_of_restart (place : LexPlace) {done : List Token} (hdone : place.finish = some done)
    (hrest : ∀ c, rest.head? = some c → place.step c = place.restart c) :
    place.lex rest = (between.lex rest).map (done ++ ·) := by
  cases rest with
  | nil => rw [lex, hdone, lex, finish, Option.map_some, List.append_nil]
  | cons c rest =>
    rw [lex, hrest c rfl, restart, hdone, lex, step]
    cases start c with
    | none => rfl
    | some pair =>
      cases hmore : pair.2.lex rest <;> simp [hmore]

/-! ### Single characters -/

theorem lex_silent {place next : LexPlace} (h : place.step c = some ([], next)) (rest : List Char) :
    place.lex (c :: rest) = next.lex rest := by
  rw [lex, h]
  cases hmore : next.lex rest <;> simp [hmore]

theorem lex_mark (h : isMark c = true) (rest : List Char) :
    between.lex (c :: rest) = (between.lex rest).map (.mark c :: ·) := by
  have hgap : isGap c = false := by
    simp only [isMark, Bool.or_eq_true, beq_iff_eq] at h
    rcases h with ((rfl | rfl) | rfl) | rfl <;> rfl
  rw [lex, step, start, hgap, h]
  cases hmore : between.lex rest <;> simp [hmore]

theorem lex_gap (h : isGap c = true) (rest : List Char) :
    between.lex (c :: rest) = between.lex rest :=
  lex_silent (by rw [step, start, h]; rfl) rest

/-! ### Quotes -/

/-- Each character of a text by itself, where one of them is replaced. -/
theorem replace_singleton (quote : Char) (replacement text : List Char) :
    Text.replace [quote] replacement text =
      text.flatMap fun c => if c = quote then replacement else [c] := by
  have hcut : Text.cut [quote] text = Text.cutFrom [quote] 0 text := rfl
  rw [Text.replace, hcut]
  clear hcut
  induction text with
  | nil => rfl
  | cons c text ih =>
    rw [List.flatMap_cons, ← ih, Text.cutFrom]
    have hne : Text.cutFrom [quote] 0 text ≠ [] := by
      cases text with
      | nil => exact List.cons_ne_nil _ _
      | cons d rest =>
        rw [Text.cutFrom]
        split
        · exact List.cons_ne_nil _ _
        · split <;> exact List.cons_ne_nil _ _
    by_cases heq : c = quote
    · rw [if_pos (by simp [heq]), if_pos heq]
      obtain ⟨first, others, hcut⟩ := List.exists_cons_of_ne_nil hne
      simp [hcut]
    · rw [if_neg (by simpa using Ne.symm heq), if_neg heq]
      obtain ⟨first, others, hcut⟩ := List.exists_cons_of_ne_nil hne
      rw [hcut]
      cases others <;> simp

/-- The content of quotes, where the quote is doubled. -/
theorem lex_content (quote : Char) (content rest latest : List Char) :
    (LexPlace.quoted quote latest).lex
        ((content.flatMap fun c => if c = quote then [quote, quote] else [c]) ++ rest) =
      (LexPlace.quoted quote (content.reverse ++ latest)).lex rest := by
  induction content generalizing latest with
  | nil => rfl
  | cons c content ih =>
    rw [List.flatMap_cons, List.append_assoc, List.reverse_cons, List.append_assoc,
      List.singleton_append, ← ih]
    by_cases hquote : c = quote
    · subst hquote
      have hfirst : (LexPlace.quoted c latest).step c = some ([], .closing c latest) := by
        rw [step, if_pos rfl]
      have hsecond : (LexPlace.closing c latest).step c = some ([], .quoted c (c :: latest)) := by
        rw [step, if_pos rfl]
      rw [if_pos rfl, List.cons_append, lex_silent hfirst, List.cons_append, lex_silent hsecond]
      rfl
    · rw [if_neg hquote]
      exact lex_silent (by rw [step, if_neg hquote]) _

/-- What is in quotes is one token, and holds what was quoted, whatever follows but the quote. -/
theorem lex_quoted (hquote : quote = '\'' ∨ quote = '"') (content : String)
    (hrest : rest.head? ≠ some quote) :
    between.lex ((quoted quote content).toList ++ rest) =
      (between.lex rest).map (.ofQuoted quote content :: ·) := by
  have hopen : between.step quote = some ([], .quoted quote []) := by
    rcases hquote with rfl | rfl <;> rfl
  have hclose : (LexPlace.quoted quote (content.toList.reverse ++ [])).step quote =
      some ([], .closing quote content.toList.reverse) := by
    rw [List.append_nil, step, if_pos rfl]
  have hfinish : (LexPlace.closing quote content.toList.reverse).finish =
      some [.ofQuoted quote content] := by
    rw [finish, List.reverse_reverse, String.ofList_toList]
  rw [quoted, String.toList_ofList, replace_singleton, List.cons_append, List.cons_append,
    lex_silent hopen, List.append_assoc, lex_content, List.singleton_append, lex_silent hclose]
  refine lex_of_restart _ hfinish fun c hc => ?_
  rw [step, if_neg]
  rintro rfl
  exact hrest hc

/-! ### Words and numbers -/

theorem lex_wordChars {word : List Char} (hword : ∀ c ∈ word, isWordChar c = true)
    (latest rest : List Char) :
    (LexPlace.word latest).lex (word ++ rest) =
      (LexPlace.word (word.reverse ++ latest)).lex rest := by
  induction word generalizing latest with
  | nil => rfl
  | cons c word ih =>
    rw [List.cons_append, lex_silent (by rw [step, if_pos (hword c List.mem_cons_self)]),
      ih fun d hd => hword d (List.mem_cons_of_mem c hd)]
    simp

theorem lex_word {c : Char} {word : List Char} (hstart : between.step c = some ([], .word [c]))
    (hword : ∀ c ∈ word, isWordChar c = true) (hrest : Separated rest) :
    between.lex (c :: word ++ rest) =
      (between.lex rest).map (.word (String.ofList (c :: word)) :: ·) := by
  have hfinish : (LexPlace.word (word.reverse ++ [c])).finish =
      some [.word (String.ofList (c :: word))] := by
    simp [finish]
  rw [List.cons_append, lex_silent hstart, lex_wordChars hword]
  refine lex_of_restart _ hfinish fun d hd => ?_
  obtain ⟨-, -, hseparator, -⟩ := separator (hrest d hd)
  rw [step, hseparator]
  rfl

/-- Whether characters continue a number that ends in `previous` so far. -/
def Continues (previous : Char) : List Char → Prop
  | [] => True
  | c :: rest => continuesNumber (some previous) c = true ∧ Continues c rest

theorem lex_numberChars {number : List Char} {previous : Char} (h : Continues previous number)
    (latest rest : List Char) :
    (LexPlace.number (previous :: latest)).lex (number ++ rest) =
      (LexPlace.number (number.reverse ++ previous :: latest)).lex rest := by
  induction number generalizing previous latest with
  | nil => rfl
  | cons c number ih =>
    obtain ⟨hc, hnumber⟩ := h
    rw [List.cons_append, lex_silent (by rw [step, List.head?_cons, if_pos hc]), ih hnumber]
    simp

/-- The text of a number: a digit and what continues it, perhaps after a sign. -/
def IsNumber (text : List Char) : Prop :=
  ∃ digit number, digit.isDigit = true ∧ Continues digit number ∧
    (text = digit :: number ∨ text = '-' :: digit :: number)

theorem lex_of_number (latest : List Char) (hrest : Separated rest) :
    (LexPlace.number latest).lex rest =
      (between.lex rest).map (.number (String.ofList latest.reverse) :: ·) := by
  refine lex_of_restart (.number latest) rfl fun c hc => ?_
  obtain ⟨-, -, -, hseparator⟩ := separator (hrest c hc)
  rw [step, hseparator]
  rfl

theorem start_digit (h : c.isDigit = true) : between.step c = some ([], .number [c]) := by
  have hother : ∀ d : Char, d.isDigit = false → c ≠ d := by
    rintro d hd rfl
    rw [h] at hd
    cases hd
  have hgap : isGap c = false := by
    simp [isGap, hother ' ' rfl, hother '\n' rfl]
  have hmark : isMark c = false := by
    simp [isMark, hother '(' rfl, hother ')' rfl, hother ',' rfl, hother ';' rfl]
  simp [step, start, hgap, hmark, hother '\'' rfl, hother '"' rfl, hother '-' rfl, h]

/-- The text of a number is one token. -/
theorem lex_number {number : List Char} (h : IsNumber number) (hrest : Separated rest) :
    between.lex (number ++ rest) =
      (between.lex rest).map (.number (String.ofList number) :: ·) := by
  obtain ⟨digit, number, hdigit, hnumber, rfl | rfl⟩ := h
  · rw [List.cons_append, lex_silent (start_digit hdigit), lex_numberChars hnumber,
      lex_of_number _ hrest]
    simp
  · have hsign : between.step '-' = some ([], .sign) := rfl
    have hfirst : sign.step digit = some ([], .number [digit, '-']) := by
      rw [step, if_pos hdigit]
    rw [List.cons_append, List.cons_append, lex_silent hsign, lex_silent hfirst,
      lex_numberChars hnumber, lex_of_number _ hrest]
    simp

/-! ### The texts of numbers -/

section Numbers

open Number

/-- A character of a number without exponent. -/
def IsPlain (c : Char) : Prop := c.isDigit = true ∨ c = '.'

theorem continues_append {number more : List Char} (hnumber : ∀ c ∈ number, IsPlain c)
    (hmore : ∀ previous, Continues previous more) (previous : Char) :
    Continues previous (number ++ more) := by
  induction number generalizing previous with
  | nil => exact hmore previous
  | cons c number ih =>
    refine ⟨?_, ih (fun d hd => hnumber d (List.mem_cons_of_mem c hd)) c⟩
    rcases hnumber c List.mem_cons_self with hdigit | rfl
    · simp [continuesNumber, hdigit]
    · rfl

theorem continues_of_plain {number : List Char} (h : ∀ c ∈ number, IsPlain c) (previous : Char) :
    Continues previous number := by
  have hnil : ∀ last, Continues last [] := fun _ => trivial
  have happend := continues_append h hnil previous
  rwa [List.append_nil] at happend

theorem plain_of_digits {digits : List Char} (h : ∀ c ∈ digits, c.isDigit = true) :
    ∀ c ∈ digits, IsPlain c :=
  fun c hc => .inl (h c hc)

theorem isDigit_digitsOf (n : Nat) : ∀ c ∈ digitsOf n, c.isDigit = true :=
  fun _ hc => isDigit_of_mem_digitsOf hc

/-- The text of a number without sign and exponent. -/
theorem exists_of_plain {text : List Char} (hhead : ∃ c, text.head? = some c ∧ c.isDigit = true)
    (hplain : ∀ c ∈ text, IsPlain c) :
    ∃ digit number, text = digit :: number ∧ digit.isDigit = true ∧ Continues digit number := by
  obtain ⟨digit, hdigit, hisDigit⟩ := hhead
  cases text with
  | nil => cases hdigit
  | cons c number =>
    obtain rfl := Option.some.inj hdigit
    exact ⟨c, number, rfl, hisDigit,
      continues_of_plain (fun d hd => hplain d (List.mem_cons_of_mem c hd)) c⟩

theorem plain_of_mem_writePositional {style : Notation} {decimal : Decimal} {c : Char}
    (h : c ∈ style.writePositional decimal) : IsPlain c := by
  have hdigits := isDigit_digitsOf decimal.digits
  unfold Notation.writePositional at h
  dsimp only at h
  split at h
  · rw [List.mem_append, List.mem_append] at h
    obtain (h | h) | h := h
    · exact .inl (hdigits c h)
    · exact .inl (isDigit_of_mem_zeros h)
    · split at h
      · rcases (by simpa using h : c = '.' ∨ c = '0') with rfl | rfl
        · exact .inr rfl
        · exact .inl rfl
      · cases h
  · have hpadded : ∀ c ∈ List.replicate
        ((-decimal.exponent).toNat + 1 - (digitsOf decimal.digits).length) '0' ++
        digitsOf decimal.digits, c.isDigit = true :=
      fun c hc => (List.mem_append.mp hc).elim isDigit_of_mem_zeros (hdigits c)
    rw [List.mem_append, List.mem_cons] at h
    obtain h | rfl | h := h
    · exact .inl (hpadded c (List.mem_of_mem_take h))
    · exact .inr rfl
    · exact .inl (hpadded c (List.mem_of_mem_drop h))

theorem continues_exponent (style : Notation) (leading : Int) (previous : Char) :
    Continues previous ('e' :: (if leading < 0 then ['-'] else
      if style.exponentPlus then ['+'] else []) ++ digitsOf leading.natAbs) := by
  have hdigits := plain_of_digits (isDigit_digitsOf leading.natAbs)
  refine ⟨by simp [continuesNumber], ?_⟩
  split
  · exact ⟨rfl, continues_of_plain hdigits _⟩
  · split
    · exact ⟨rfl, continues_of_plain hdigits _⟩
    · exact continues_of_plain hdigits _

theorem exists_of_writeScientific (style : Notation) (decimal : Decimal) :
    ∃ digit number, style.writeScientific decimal = digit :: number ∧ digit.isDigit = true ∧
      Continues digit number := by
  have hdigits := isDigit_digitsOf decimal.digits
  unfold Notation.writeScientific
  dsimp only
  cases h : digitsOf decimal.digits with
  | nil => exact absurd h (digitsOf_ne_nil _)
  | cons digit rest =>
    rw [h] at hdigits
    have hdigit := hdigits digit List.mem_cons_self
    have hrest := plain_of_digits fun c hc => hdigits c (List.mem_cons_of_mem digit hc)
    cases rest with
    | nil => exact ⟨digit, _, rfl, hdigit, continues_exponent style decimal.leading digit⟩
    | cons second rest =>
      have hfraction : ∀ c ∈ '.' :: second :: rest, IsPlain c :=
        List.forall_mem_cons.mpr ⟨.inr rfl, hrest⟩
      have hnumber := continues_append hfraction (continues_exponent style decimal.leading) digit
      exact ⟨digit, _, rfl, hdigit, by simpa using hnumber⟩

/-- The text of a finite float is that of a number. -/
theorem isNumber_writeFinite (style : Notation) (x : Float) : IsNumber (style.writeFinite x) := by
  have hmagnitude : ∃ digit number, style.magnitudeText x = digit :: number ∧
      digit.isDigit = true ∧ Continues digit number := by
    unfold Notation.magnitudeText
    dsimp only
    split
    · refine ⟨'0', _, rfl, rfl, ?_⟩
      split
      · exact ⟨rfl, rfl, trivial⟩
      · trivial
    · split
      · exact exists_of_plain (style.head?_writePositional _) fun c => plain_of_mem_writePositional
      · exact exists_of_writeScientific style _
  obtain ⟨digit, number, htext, hdigit, hnumber⟩ := hmagnitude
  refine ⟨digit, number, hdigit, hnumber, ?_⟩
  rw [Notation.writeFinite_eq, htext]
  split
  · exact .inr rfl
  · exact .inl rfl

/-- The text of an integer is that of a number. -/
theorem isNumber_intText (n : Int) : IsNumber (Json.intText n) := by
  have hdigits := isDigit_digitsOf n.natAbs
  obtain ⟨digit, number, htext, hdigit, hnumber⟩ :=
    exists_of_plain (head?_digits (digitsOf_ne_nil n.natAbs) hdigits) (plain_of_digits hdigits)
  refine ⟨digit, number, hdigit, hnumber, ?_⟩
  rw [Json.intText, htext]
  split
  · exact .inr rfl
  · exact .inl rfl

end Numbers

end StreamQuery.Sql
