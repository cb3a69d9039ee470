import StreamQuery.Format.Call
import StreamQuery.Proofs.Format.SqlLexing

/-!
# Statements read back

Insert statements are read by their tokens. What a writer wrote reads as statements of full chunks
and a last one of what remains, and together they hold the rows that were written.
-/

namespace StreamQuery.Sql

/-! ### Statements and their tokens -/

/-- What stands for a value in a row. -/
inductive Cell where
  | null
  | flag (b : Bool)
  | number (text : String)
  | text (text : String)
  deriving DecidableEq

namespace Cell

/-- What stands for a value: a number is its text, and a list or an object is its JSON text. -/
def ofValue : Value → Cell
  | .null => .null
  | .bool b => .flag b
  | .int n => .number (Value.int n).toJson
  | .float x => .number (Value.float x).toJson
  | .str s => .text s
  | .list items => .text (Value.list items).toJson
  | .object entries => .text (Value.object entries).toJson

def token : Cell → Token
  | .null => .word "NULL"
  | .flag true => .word "TRUE"
  | .flag false => .word "FALSE"
  | .number digits => .number digits
  | .text content => .text content

def ofToken? : Token → Option Cell
  | .word word =>
    if word = "NULL" then some .null
    else if word = "TRUE" then some (.flag true)
    else if word = "FALSE" then some (.flag false)
    else none
  | .number digits => some (.number digits)
  | .text content => some (.text content)
  | .name _ | .mark _ => none

end Cell

/-- An insert statement. -/
structure Statement where
  table : String
  columns : List String
  rows : List (List Cell)
  deriving DecidableEq

/-- The statement of some rows. -/
def Statement.ofRows (table : String) (columns : List String) (rows : List (List Value)) :
    Statement :=
  ⟨table, columns, rows.map (·.map Cell.ofValue)⟩

/-- The tokens of items with commas between them. -/
def commas (items : List (List Token)) : List Token :=
  [.mark ','].intercalate items

/-- The tokens of a list in parentheses, whose items are one token each. -/
def listed (items : List Token) : List Token :=
  .mark '(' :: commas (items.map ([·])) ++ [.mark ')']

/-- The tokens of a statement. -/
def Statement.tokens (statement : Statement) : List Token :=
  .word "INSERT" :: .word "INTO" :: .name statement.table ::
    (listed (statement.columns.map .name) ++ .word "VALUES" ::
      (commas (statement.rows.map fun row => listed (row.map Cell.token)) ++ [.mark ';']))

/-! ### Reading -/

variable {α : Type}

/-- The items after the first one of a list, up to its end. -/
def moreItems? (read? : Token → Option α) : List Token → Option (List α × List Token)
  | .mark ')' :: rest => some ([], rest)
  | .mark ',' :: token :: rest => do
    let item ← read? token
    let (items, rest) ← moreItems? read? rest
    some (item :: items, rest)
  | _ => none

/-- The items of a list in parentheses. -/
def items? (read? : Token → Option α) : List Token → Option (List α × List Token)
  | .mark '(' :: .mark ')' :: rest => some ([], rest)
  | .mark '(' :: token :: rest => do
    let item ← read? token
    let (items, rest) ← moreItems? read? rest
    some (item :: items, rest)
  | _ => none

/-- Rows with commas between them, up to the end of their statement. -/
def rows? : Nat → List Token → Option (List (List Cell) × List Token)
  | 0, _ => none
  | fuel + 1, tokens => do
    let (row, rest) ← items? Cell.ofToken? tokens
    match rest with
    | .mark ';' :: rest => some ([row], rest)
    | .mark ',' :: rest =>
      let (rows, rest) ← rows? fuel rest
      some (row :: rows, rest)
    | _ => none

/-- The name that a token is. -/
def Token.name? : Token → Option String
  | .name content => some content
  | _ => none

/-- A statement and the tokens after it. -/
def statement? : List Token → Option (Statement × List Token)
  | .word "INSERT" :: .word "INTO" :: .name table :: rest => do
    let (columns, rest) ← items? Token.name? rest
    match rest with
    | .word "VALUES" :: rest =>
      let (rows, rest) ← rows? rest.length rest
      some (⟨table, columns, rows⟩, rest)
    | _ => none
  | _ => none

/-- The statements of some tokens. -/
def statements? : Nat → List Token → Option (List Statement)
  | _, [] => some []
  | 0, _ :: _ => none
  | fuel + 1, token :: rest => do
    let (statement, rest) ← statement? (token :: rest)
    let statements ← statements? fuel rest
    some (statement :: statements)

/-- The statements of a text. -/
def read? (text : String) : Option (List Statement) := do
  let tokens ← LexPlace.between.lex text.toList
  statements? tokens.length tokens

/-! ### Tokens are read as what they were made from -/

theorem intercalate_cons (separator : α) (first : List α) (rest : List (List α)) :
    [separator].intercalate (first :: rest) = first ++ rest.flatMap (separator :: ·) := by
  induction rest generalizing first with
  | nil => simp
  | cons second rest ih =>
    rw [List.intercalate_cons_cons, ih, List.flatMap_cons, List.append_assoc]
    rfl

theorem commas_cons (first : List Token) (rest : List (List Token)) :
    commas (first :: rest) = first ++ rest.flatMap (.mark ',' :: ·) :=
  intercalate_cons _ _ _

section Lists

variable {read? : Token → Option α} {token : α → Token}

theorem listed_cons (token : Token) (tokens : List Token) :
    listed (token :: tokens) =
      .mark '(' :: token :: (tokens.flatMap ([.mark ',', ·]) ++ [.mark ')']) := by
  rw [listed, List.map_cons, commas_cons, List.flatMap_map]
  rfl

theorem moreItems?_tokens (hread : ∀ item, read? (token item) = some item) (items : List α)
    (rest : List Token) :
    moreItems? read? ((items.map token).flatMap ([.mark ',', ·]) ++ .mark ')' :: rest) =
      some (items, rest) := by
  induction items with
  | nil => rfl
  | cons item items ih =>
    rw [List.map_cons, List.flatMap_cons, List.append_assoc, List.cons_append,
      List.singleton_append, moreItems?, hread, ih]
    rfl

theorem items?_listed (hread : ∀ item, read? (token item) = some item)
    (hmark : ∀ c, read? (.mark c) = none) (items : List α) (rest : List Token) :
    items? read? (listed (items.map token) ++ rest) = some (items, rest) := by
  cases items with
  | nil => rfl
  | cons item items =>
    have hne : token item ≠ .mark ')' := by
      intro heq
      have hitem := hread item
      rw [heq, hmark] at hitem
      cases hitem
    rw [List.map_cons, listed_cons, List.cons_append, List.cons_append, List.append_assoc,
      List.singleton_append, items?, hread, Option.bind_eq_bind, Option.bind_some,
      moreItems?_tokens hread]
    · rfl
    · exact hne

end Lists

theorem Cell.ofToken?_token (cell : Cell) : ofToken? cell.token = some cell := by
  rcases cell with _ | (_ | _) | _ | _ <;> rfl

/-- The rows of a statement are read as they are, if there is one. -/
theorem rows?_tokens {fuel : Nat} {rows : List (List Cell)} (hrows : rows ≠ [])
    (hfuel : rows.length ≤ fuel) (rest : List Token) :
    rows? fuel (commas (rows.map fun row => listed (row.map Cell.token)) ++ .mark ';' :: rest) =
      some (rows, rest) := by
  induction fuel generalizing rows with
  | zero => exact absurd (List.eq_nil_of_length_eq_zero (Nat.le_zero.mp hfuel)) hrows
  | succ fuel ih =>
    obtain ⟨row, rows, rfl⟩ := List.exists_cons_of_ne_nil hrows
    have hrow := items?_listed Cell.ofToken?_token (fun _ => rfl) row
    rw [List.map_cons, commas_cons, List.append_assoc, rows?, hrow]
    cases rows with
    | nil => rfl
    | cons second rows =>
      have hmore := ih (List.cons_ne_nil second rows) (Nat.le_of_succ_le_succ hfuel)
      rw [List.map_cons, commas_cons, List.append_assoc] at hmore
      simp [hmore]

theorem length_le_length_flatMap {β : Type} (items : List β) (tokens : β → List Token)
    (h : ∀ item ∈ items, tokens item ≠ []) : items.length ≤ (items.flatMap tokens).length := by
  rw [List.length_flatMap, ← List.length_map (fun item => (tokens item).length)]
  refine List.length_le_sum_of_one_le _ fun n hn => ?_
  obtain ⟨item, hitem, rfl⟩ := List.mem_map.mp hn
  exact List.length_pos_iff.mpr (h item hitem)

/-- A statement with rows is read as it is. -/
theorem statement?_tokens {statement : Statement} (hrows : statement.rows ≠ [])
    (rest : List Token) : statement? (statement.tokens ++ rest) = some (statement, rest) := by
  obtain ⟨table, columns, rows⟩ := statement
  have hread : ∀ column, Token.name? (.name column) = some column := fun _ => rfl
  have hcolumns := items?_listed hread (fun _ => rfl) columns
  have hlength : rows.length ≤
      (commas (rows.map fun row => listed (row.map Cell.token)) ++ .mark ';' :: rest).length := by
    obtain ⟨row, more, rfl⟩ := List.exists_cons_of_ne_nil hrows
    have hmore := length_le_length_flatMap
      (more.map fun row => listed (row.map Cell.token)) (.mark ',' :: ·)
      fun _ _ => List.cons_ne_nil _ _
    simp only [List.map_cons, commas_cons, List.length_append, List.length_cons] at hmore ⊢
    rw [List.length_map] at hmore
    omega
  have hvalues := rows?_tokens hrows hlength rest
  rw [Statement.tokens, List.cons_append, List.cons_append, List.cons_append, List.append_assoc,
    List.cons_append, List.append_assoc, List.singleton_append, statement?, hcolumns,
    Option.bind_eq_bind, Option.bind_some]
  simp only [hvalues, Option.bind_eq_bind, Option.bind_some]

/-- Statements with rows are read as they are. -/
theorem statements?_tokens {fuel : Nat} {statements : List Statement}
    (hrows : ∀ statement ∈ statements, statement.rows ≠ []) (hfuel : statements.length ≤ fuel) :
    statements? fuel (statements.flatMap Statement.tokens) = some statements := by
  induction statements generalizing fuel with
  | nil => cases fuel <;> rfl
  | cons statement statements ih =>
    obtain ⟨fuel, rfl⟩ : ∃ n, fuel = n + 1 := ⟨fuel - 1, by simp at hfuel; omega⟩
    have hfirst := statement?_tokens (hrows statement List.mem_cons_self)
      (statements.flatMap Statement.tokens)
    have hmore := ih (fun s hs => hrows s (List.mem_cons_of_mem statement hs))
      (Nat.le_of_succ_le_succ hfuel)
    rw [List.flatMap_cons]
    rw [Statement.tokens, List.cons_append] at hfirst ⊢
    rw [statements?, hfirst, Option.bind_eq_bind, Option.bind_some]
    dsimp only
    rw [hmore]
    rfl

/-! ### The tokens of what is written -/

/-- Whether a text is lexed to some tokens where it ends or what separates tokens follows. -/
def Lexes (text : List Char) (tokens : List Token) : Prop :=
  ∀ rest, Separated rest →
    LexPlace.between.lex (text ++ rest) = (LexPlace.between.lex rest).map (tokens ++ ·)

section Lexes

variable {text more : List Char} {tokens others : List Token} {c : Char}

theorem lexes_nil : Lexes [] [] :=
  fun _ _ => Option.map_id'.symm

theorem lexes_append (htext : Lexes text tokens) (hmore : Lexes more others)
    (hseparated : ∀ rest, Separated rest → Separated (more ++ rest)) :
    Lexes (text ++ more) (tokens ++ others) := by
  intro rest hrest
  rw [List.append_assoc, htext _ (hseparated rest hrest), hmore rest hrest, Option.map_map]
  exact congrFun (congrArg _ (funext fun _ => (List.append_assoc _ _ _).symm)) _

theorem lexes_mark (hc : isMark c = true) (htext : Lexes text tokens) :
    Lexes (c :: text) (.mark c :: tokens) := by
  intro rest hrest
  rw [List.cons_append, lex_mark hc, htext rest hrest, Option.map_map]
  rfl

theorem lexes_gap (hc : isGap c = true) (htext : Lexes text tokens) : Lexes (c :: text) tokens := by
  intro rest hrest
  rw [List.cons_append, lex_gap hc, htext rest hrest]

theorem lexes_word (c : Char) (word : List Char)
    (hstart : LexPlace.between.step c = some ([], .word [c]))
    (hword : word.all isWordChar = true) :
    Lexes (c :: word) [.word (String.ofList (c :: word))] :=
  fun _ hrest => lex_word hstart (List.all_eq_true.mp hword) hrest

theorem lexes_quoted {quote : Char} (hquote : quote = '\'' ∨ quote = '"') (content : String) :
    Lexes (quoted quote content).toList [.ofQuoted quote content] := by
  intro rest hrest
  refine lex_quoted hquote content fun hhead => ?_
  obtain ⟨hsingle, hdouble, -⟩ := separator (hrest quote hhead)
  exact hquote.elim hsingle hdouble

theorem lexes_number {number : List Char} (h : IsNumber number) :
    Lexes (String.ofList number).toList [.number (String.ofList number)] := by
  rw [String.toList_ofList]
  exact fun _ hrest => lex_number h hrest

/-- A value is one token. -/
theorem lexes_literal (value : Value) :
    Lexes (literal value).toList [(Cell.ofValue value).token] := by
  have hquoted (content : String) : Lexes (quoted '\'' content).toList [.text content] :=
    lexes_quoted (.inl rfl) content
  cases value with
  | null => exact lexes_word 'N' ['U', 'L', 'L'] rfl rfl
  | bool b =>
    cases b with
    | true => exact lexes_word 'T' ['R', 'U', 'E'] rfl rfl
    | false => exact lexes_word 'F' ['A', 'L', 'S', 'E'] rfl rfl
  | int n => exact lexes_number (isNumber_intText n.val)
  | float x => exact lexes_number (isNumber_writeFinite Number.jsonNotation x.val)
  | str s => exact hquoted s
  | list items => exact hquoted _
  | object entries => exact hquoted _

theorem separated_flatMap {α : Type} (items : List α) (write : α → List Char) {rest : List Char}
    (hrest : Separated rest) : Separated (items.flatMap (',' :: write ·) ++ rest) := by
  cases items with
  | nil => exact hrest
  | cons item items => exact separated_cons rfl _

theorem lexes_flatMap {α : Type} {items : List α} {write : α → List Char}
    {tokens : α → List Token} (h : ∀ item ∈ items, Lexes (write item) (tokens item)) :
    Lexes (items.flatMap (',' :: write ·)) (items.flatMap (.mark ',' :: tokens ·)) := by
  induction items with
  | nil => exact lexes_nil
  | cons item items ih =>
    rw [List.flatMap_cons, List.flatMap_cons]
    exact lexes_append (lexes_mark rfl (h item List.mem_cons_self))
      (ih fun other hother => h other (List.mem_cons_of_mem item hother))
      fun _ hrest => separated_flatMap items write hrest

/-- Items with commas between them. -/
theorem lexes_commas {α : Type} (items : List α) {write : α → String} {tokens : α → List Token}
    (h : ∀ item ∈ items, Lexes (write item).toList (tokens item)) :
    Lexes (",".intercalate (items.map write)).toList (commas (items.map tokens)) := by
  cases items with
  | nil => exact lexes_nil
  | cons item items =>
    rw [String.toList_intercalate, List.map_cons, List.map_cons, List.map_cons, commas_cons]
    have hcomma : ",".toList = [','] := rfl
    rw [hcomma, intercalate_cons, List.flatMap_map, List.flatMap_map, List.flatMap_map]
    exact lexes_append (h item List.mem_cons_self)
      (lexes_flatMap fun other hother => h other (List.mem_cons_of_mem item hother))
      fun _ hrest => separated_flatMap items _ hrest

/-- A list in parentheses. -/
theorem lexes_listed {α : Type} (items : List α) {write : α → String} {token : α → Token}
    (h : ∀ item ∈ items, Lexes (write item).toList [token item]) :
    Lexes ('(' :: (",".intercalate (items.map write)).toList ++ [')'])
      (listed (items.map token)) := by
  have hitems := lexes_append (lexes_commas items h) (lexes_mark (c := ')') rfl lexes_nil)
    fun rest _ => separated_cons rfl _
  rw [listed, List.map_map]
  exact lexes_mark (c := '(') rfl hitems

theorem lexes_tuple (values : List Value) :
    Lexes (tuple values).toList (listed ((values.map Cell.ofValue).map Cell.token)) := by
  rw [tuple, String.toList_append, String.toList_append, List.map_map]
  exact lexes_listed values fun value _ => lexes_literal value

/-- A word and what follows it after a blank. -/
theorem lexes_wordThen (word : List Char) (hword : Lexes word tokens) (hmore : Lexes more others) :
    Lexes (word ++ ' ' :: more) (tokens ++ others) :=
  lexes_append hword (lexes_gap rfl hmore) fun _ _ => separated_cons rfl _

theorem lexes_name (content : String) : Lexes (name content).toList [.name content] :=
  lexes_quoted (.inr rfl) content

theorem lexes_statementHead (table : String) (columns : List String) :
    Lexes (statementHead table columns).toList
      (.word "INSERT" :: .word "INTO" :: .name table :: listed (columns.map .name)) := by
  have hcolumns := lexes_listed columns fun column _ => lexes_name column
  have htable := lexes_append (lexes_name table) hcolumns fun _ _ => separated_cons rfl _
  have hinto := lexes_wordThen _ (lexes_word 'I' ['N', 'T', 'O'] rfl rfl) htable
  have hinsert := lexes_wordThen _ (lexes_word 'I' ['N', 'S', 'E', 'R', 'T'] rfl rfl) hinto
  simpa [statementHead] using hinsert

/-- A statement is written as its tokens, whatever follows it. -/
theorem lex_statement (table : String) (columns : List String) (rows : List (List Value))
    (rest : List Char) :
    LexPlace.between.lex
        ((statement (statementHead table columns) (rows.map tuple)).toList ++ rest) =
      (LexPlace.between.lex rest).map
        ((Statement.ofRows table columns rows).tokens ++ ·) := by
  have hrows := lexes_append (lexes_commas rows fun values _ => lexes_tuple values)
    (lexes_mark (c := ';') rfl lexes_nil) fun _ _ => separated_cons rfl _
  have hvalues := lexes_wordThen _ (lexes_word 'V' ['A', 'L', 'U', 'E', 'S'] rfl rfl) hrows
  have hstatement := lexes_wordThen _ (lexes_statementHead table columns) hvalues
  -- The statement ends with its line, so that what follows need not be a separator.
  have hline := hstatement ('\n' :: rest) (separated_cons rfl rest)
  rw [lex_gap rfl] at hline
  simpa [statement, Statement.ofRows, Statement.tokens, Function.comp_def] using hline

end Lexes

/-! ### Chunks of rows -/

/-- Rows in chunks of at most `size` and none without rows, as few as it takes. -/
structure Chunked (size : Nat) (rows : List α) (chunks : List (List α)) : Prop where
  flatten : chunks.flatten = rows
  bounds : ∀ chunk ∈ chunks, 0 < chunk.length ∧ chunk.length ≤ size
  count : chunks.length = (rows.length + size - 1) / size

namespace Chunked

variable {size : Nat} {rows chunk : List α} {chunks : List (List α)}

theorem nil (hsize : 0 < size) : Chunked size ([] : List α) [] where
  flatten := rfl
  bounds := fun _ h => absurd h List.not_mem_nil
  count := (Nat.div_eq_of_lt (by simp; omega)).symm

theorem last (hrows : 0 < rows.length) (hsize : rows.length ≤ size) : Chunked size rows [rows] where
  flatten := by simp
  bounds := by simpa using ⟨hrows, hsize⟩
  count := (Nat.div_eq_of_lt_le (by simp; omega) (by simp; omega)).symm

theorem cons (hchunk : chunk.length = size) (hsize : 0 < size) (h : Chunked size rows chunks) :
    Chunked size (chunk ++ rows) (chunk :: chunks) where
  flatten := by rw [List.flatten_cons, h.flatten]
  bounds := List.forall_mem_cons.mpr ⟨by omega, h.bounds⟩
  count := by
    have hadd : (chunk ++ rows).length + size - 1 = rows.length + size - 1 + size := by
      rw [List.length_append]
      omega
    rw [List.length_cons, h.count, hadd, Nat.add_div_right _ hsize]

end Chunked

/-! ### What a writer writes -/

section Writer

variable {state : State}

/-- A row waits while it does not complete a chunk. -/
theorem write_row_waits (values : List Value)
    (h : state.latest.length + 1 < state.settings.chunkSize) :
    (TextWriter.sql state).write (.row values) =
      ("", .sql { state with latest := tuple values :: state.latest }) := by
  have hwaits : ¬ state.settings.chunkSize ≤ (tuple values :: state.latest).length := by
    rw [List.length_cons]
    omega
  rw [TextWriter.write, State.write, if_neg hwaits]

/-- A row that completes a chunk is written with it. -/
theorem write_row_full (values : List Value)
    (h : state.settings.chunkSize ≤ state.latest.length + 1) :
    (TextWriter.sql state).write (.row values) =
      (statement state.head (tuple values :: state.latest).reverse,
        .sql { state with latest := [] }) := by
  rw [TextWriter.write, State.write, if_pos (by rwa [List.length_cons])]
  rfl

/-- The rows that wait at the end are the last chunk. -/
theorem textOf_flush (pending : List (List Value))
    (hpending : state.latest = (pending.map tuple).reverse)
    (hlength : pending.length < state.settings.chunkSize) :
    ∃ chunks, Chunked state.settings.chunkSize pending chunks ∧
      (TextWriter.textOf (.sql state) [.flush]).toList =
        chunks.flatMap fun chunk => (statement state.head (chunk.map tuple)).toList := by
  rw [TextWriter.textOf, TextWriter.write, State.write, State.release]
  cases pending with
  | nil =>
    rw [if_pos (by rw [hpending]; rfl)]
    exact ⟨[], .nil state.settings.positive, rfl⟩
  | cons first pending =>
    rw [if_neg (by simp [hpending]), hpending, List.reverse_reverse]
    exact ⟨[first :: pending], .last (Nat.zero_lt_succ _) hlength.le, by simp [TextWriter.textOf]⟩

/-- Rows are written in chunks, of which the rows that wait are the beginning. -/
theorem textOf_rows (state : State) (pending rows : List (List Value))
    (hpending : state.latest = (pending.map tuple).reverse)
    (hlength : pending.length < state.settings.chunkSize) :
    ∃ chunks, Chunked state.settings.chunkSize (pending ++ rows) chunks ∧
      (TextWriter.textOf (.sql state) (rows.map .row ++ [.flush])).toList =
        chunks.flatMap fun chunk => (statement state.head (chunk.map tuple)).toList := by
  have hsize := state.settings.positive
  induction rows generalizing state pending with
  | nil =>
    rw [List.append_nil]
    exact textOf_flush pending hpending hlength
  | cons values rows ih =>
    have hcount : state.latest.length = pending.length := by
      rw [hpending, List.length_reverse, List.length_map]
    have hnext : tuple values :: state.latest = ((pending ++ [values]).map tuple).reverse := by
      simp [hpending]
    rw [List.map_cons, List.cons_append, TextWriter.textOf, ← List.singleton_append,
      ← List.append_assoc]
    by_cases hfull : state.settings.chunkSize ≤ state.latest.length + 1
    · obtain ⟨chunks, hchunks, htext⟩ :=
        ih { state with latest := [] } [] rfl hsize hsize
      refine ⟨(pending ++ [values]) :: chunks, .cons ?_ hsize hchunks, ?_⟩
      · simp only [List.length_append, List.length_singleton]
        omega
      · rw [write_row_full values hfull, hnext, List.reverse_reverse, List.flatMap_cons]
        dsimp only
        rw [String.toList_append, htext]
    · obtain ⟨chunks, hchunks, htext⟩ :=
        ih { state with latest := tuple values :: state.latest } (pending ++ [values])
          hnext (by simp; omega) hsize
      refine ⟨chunks, hchunks, ?_⟩
      rw [write_row_waits values (by omega)]
      dsimp only
      rw [String.toList_append, htext]
      rfl

end Writer

theorem lex_statements (table : String) (columns : List String)
    (chunks : List (List (List Value))) :
    LexPlace.between.lex (chunks.flatMap fun rows =>
        (statement (statementHead table columns) (rows.map tuple)).toList) =
      some ((chunks.map (Statement.ofRows table columns)).flatMap Statement.tokens) := by
  induction chunks with
  | nil => rfl
  | cons rows chunks ih =>
    rw [List.flatMap_cons, lex_statement, ih]
    rfl

/-- Statements with rows are read from their text. -/
theorem read?_statements {table : String} {columns : List String}
    {chunks : List (List (List Value))} (hchunks : ∀ rows ∈ chunks, rows ≠ []) {text : String}
    (htext : text.toList = chunks.flatMap fun rows =>
      (statement (statementHead table columns) (rows.map tuple)).toList) :
    read? text = some (chunks.map (Statement.ofRows table columns)) := by
  have hrows : ∀ statement ∈ chunks.map (Statement.ofRows table columns), statement.rows ≠ [] := by
    intro statement hstatement
    obtain ⟨rows, hmem, rfl⟩ := List.mem_map.mp hstatement
    simpa [Statement.ofRows] using hchunks rows hmem
  have hlength := length_le_length_flatMap (chunks.map (Statement.ofRows table columns))
    Statement.tokens fun _ _ => List.cons_ne_nil _ _
  rw [read?, htext, lex_statements, Option.bind_eq_bind, Option.bind_some,
    statements?_tokens hrows hlength]

/-- A doubled quote does not end its text. -/
example : read? "INSERT INTO \"t\"(\"a\") VALUES ('it''s',1);\n" =
    some [⟨"t", ["a"], [[.text "it's", .number "1"]]⟩] := by
  decide

/-- What a writer writes of rows reads as statements of these rows, in chunks of the size that is
set, the last one with what remains; each name and each value is one token by itself. -/
theorem output_read_back (settings : Settings) (columns : List String)
    (rows : List (List Value)) :
    (∃ statements,
      read? (TextWriter.textOf (.sql { settings := settings })
        (.header columns :: (rows.map .row ++ [.flush]))) = some statements ∧
      statements.length = (rows.length + settings.chunkSize - 1) / settings.chunkSize ∧
      (∀ statement ∈ statements, statement.table = settings.table ∧ statement.columns = columns ∧
        0 < statement.rows.length ∧ statement.rows.length ≤ settings.chunkSize) ∧
      statements.flatMap (·.rows) = rows.map (·.map Cell.ofValue)) ∧
    (∀ content, LexPlace.between.lex (name content).toList = some [.name content]) ∧
    ∀ value, LexPlace.between.lex (literal value).toList = some [(Cell.ofValue value).token] := by
  have alone : ∀ {text : List Char} {tokens : List Token}, Lexes text tokens →
      LexPlace.between.lex text = some tokens := by
    intro text tokens h
    have hend : Separated [] := by
      rintro c ⟨⟩
    simpa [LexPlace.lex, LexPlace.finish] using h [] hend
  refine ⟨?_, fun content => alone (lexes_name content), fun value => alone (lexes_literal value)⟩
  obtain ⟨chunks, hchunks, htext⟩ := textOf_rows
    { settings := settings, head := statementHead settings.table columns } [] rows
    rfl settings.positive
  have hread := read?_statements
    (fun rows hrows => List.length_pos_iff.mp (hchunks.bounds rows hrows).1) htext
  refine ⟨chunks.map (Statement.ofRows settings.table columns), ?_, ?_, ?_, ?_⟩
  · rw [TextWriter.textOf, TextWriter.write, State.write]
    simpa using hread
  · rw [List.length_map, hchunks.count, List.nil_append]
  · intro statement hstatement
    obtain ⟨chunk, hchunk, rfl⟩ := List.mem_map.mp hstatement
    simpa [Statement.ofRows] using hchunks.bounds chunk hchunk
  · have hflatten := congrArg (List.map (List.map Cell.ofValue)) hchunks.flatten
    rw [List.nil_append, List.map_flatten] at hflatten
    rw [← hflatten, List.flatMap_map]
    rfl

end StreamQuery.Sql
