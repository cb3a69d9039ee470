import Mathlib.Data.List.Forall2
import StreamQuery.Format.Csv
import StreamQuery.Proofs.Value.Integers

/-!
# Reading delimited fields

A reader delivers the header and then every record behind it, wherever its sample ends. Cells of
columns of numbers become numbers; a cell becomes null only if it is blank, if a warning names it or
if it reads as a float that no value holds.
-/

namespace StreamQuery.Csv

/-! ### Readers -/

namespace Reader

variable (reader : Reader)

/-- What is left of a reader: its header, and then what remains of the sample and behind it. -/
def remaining : Source :=
  (reader.header.map pullHeader).toList ++
    (reader.sample.map Except.ok ++ reader.unread).map (pullRow reader.kinds)

/-- A step delivers the first of what is left. -/
theorem remaining_eq_cons {after : Reader} {pull : Pull}
    (h : reader.next? = some (pull, after)) : reader.remaining = pull :: after.remaining := by
  obtain ⟨kinds, header, sample, unread⟩ := reader
  unfold next? at h
  split at h
  case h_1 => cases h; simp_all [remaining]
  case h_2 => cases h; simp_all [remaining]
  case h_3 => cases h; simp_all [remaining]
  case h_4 => cases h

theorem remaining_eq_nil (h : reader.next? = none) : reader.remaining = [] := by
  obtain ⟨kinds, header, sample, unread⟩ := reader
  unfold next? at h
  split at h <;> simp_all [remaining]

/-- Reading to the end delivers all that is left. -/
theorem drain_eq_remaining : reader.drain = reader.remaining := by
  fun_induction drain reader with
  | case1 reader pull after h ih => rw [ih, remaining_eq_cons reader h]
  | case2 reader h => exact (remaining_eq_nil reader h).symm

end Reader

/-! ### Samples -/

/-- The sample and what is behind it are the records. -/
theorem takeSample_append {count : Nat} {records unread : List (Except FormatFault Record)}
    {sample : List Record} (h : takeSample count records = .ok (sample, unread)) :
    sample.map .ok ++ unread = records ∧ sample.length = min count records.length := by
  fun_induction takeSample count records generalizing sample unread with
  | case1 records =>
    cases h
    simp
  | case2 => cases h; simp
  | case3 count record records ih =>
    cases record with
    | error fault => cases h
    | ok record =>
      cases hrest : takeSample count records with
      | error fault =>
        rw [hrest] at h
        cases h
      | ok rest =>
        rw [hrest] at h
        cases h
        obtain ⟨hrecords, hlength⟩ := ih hrest
        exact ⟨congrArg _ hrecords, by simp only [List.length_cons]; omega⟩

/-- The records of a reader with a header set by its options: the header if it has one, and the
rows. -/
def headerOf (headed : Bool) (records : List Record) : Option Record :=
  if headed then records.head? else none

/-- The records behind the header. -/
def rowsOf (headed : Bool) (records : List Record) : List Record :=
  if headed then records.tail else records

/-- A value that a cell is delivered as: its text, the number it reads as, or null. -/
def Reads (cell : String) (value : Value) : Prop :=
  value = .str cell ∨
    (∃ n, Number.readInt64? 10 (trimmed cell) = some n ∧ value = .ofInt n) ∨
    (∃ x, Number.readFloat? (trimmed cell) = some x ∧ value = .ofFloat x) ∨
    value = .null

/-- Whether a pull delivers a record cell by cell. -/
def Delivers (record : Record) (pull : Pull) : Prop :=
  ∃ values, pull.result = .ok (.row values) ∧ List.Forall₂ Reads record values

theorem headD_eq_getD (kinds : List CellKind) : kinds.headD .text = kinds.getD 0 .text := by
  cases kinds <;> rfl

theorem getD_tail (kinds : List CellKind) (i : Nat) :
    kinds.tail.getD i .text = kinds.getD (i + 1) .text := by
  cases kinds <;> rfl

/-- The cells of a record are converted one by one. -/
theorem forall₂_cellValues {related : String → Value → Prop} {kinds : List CellKind}
    {record : Record} (h : ∀ i cell, record[i]? = some cell →
      related cell (cellValue (kinds.getD i .text) cell).1) :
    List.Forall₂ related record ((cellValues kinds record).map (·.1)) := by
  induction record generalizing kinds with
  | nil => exact .nil
  | cons cell rest ih =>
    refine .cons ?_ (ih fun i other hother => ?_)
    · rw [headD_eq_getD]
      exact h 0 cell rfl
    · rw [getD_tail]
      exact h (i + 1) other hother

theorem le_foldl_max {numbers : List Nat} {n start : Nat} (h : n ≤ start ∨ n ∈ numbers) :
    n ≤ numbers.foldl max start := by
  induction numbers generalizing start with
  | nil => exact h.resolve_right (List.not_mem_nil)
  | cons first rest ih =>
    refine ih ?_
    rcases h with h | h
    · exact .inl (Nat.le_trans h (Nat.le_max_left _ _))
    · obtain rfl | h := List.mem_cons.mp h
      · exact .inl (Nat.le_max_right _ _)
      · exact .inr h

theorem CellKind.rank_join (a b : CellKind) : (a.join b).rank = max a.rank b.rank := by
  cases a <;> cases b <;> rfl

theorem CellKind.rank_le_rank_text (kind : CellKind) : kind.rank ≤ CellKind.text.rank := by
  cases kind <;> decide

theorem CellKind.rank_ofCells (cells : List String) :
    (ofCells cells).rank = (cells.map fun cell => (ofCell cell).rank).foldl max 0 := by
  have hfold : ∀ (kinds : List CellKind) (start : CellKind),
      (kinds.foldl join start).rank = (kinds.map rank).foldl max start.rank := by
    intro kinds
    induction kinds with
    | nil => exact fun _ => rfl
    | cons kind rest ih =>
      intro start
      rw [List.foldl_cons, ih, rank_join, List.map_cons, List.foldl_cons]
  rw [ofCells, hfold, List.map_map]
  rfl

/-- The kind of a column is at least as wide as that of each of its cells. -/
theorem rank_ofCell_le {records : List Record} {record : Record} (hrecord : record ∈ records)
    {i : Nat} {cell : String} (hcell : record[i]? = some cell) :
    (CellKind.ofCell cell).rank ≤ ((columnKinds records).getD i .text).rank := by
  have hwidth : i < (records.map List.length).foldl max 0 := by
    have hlength := (List.getElem?_eq_some_iff.mp hcell).1
    exact Nat.lt_of_lt_of_le hlength (le_foldl_max (.inr (List.mem_map_of_mem hrecord)))
  have hkind : (columnKinds records).getD i .text = .ofCells (columnCells records i) := by
    simp [columnKinds, List.getD_eq_getElem?_getD, hwidth]
  have hmem : cell ∈ columnCells records i := List.mem_filterMap.mpr ⟨record, hrecord, hcell⟩
  rw [hkind, CellKind.rank_ofCells]
  exact le_foldl_max (.inr (List.mem_map.mpr ⟨cell, hmem, rfl⟩))

/-! ### Numbers in cells -/

section Numbers

open Number

theorem isDigit_of_digitValue? {c : Char} (h : (digitValue? 10 c).isSome = true) :
    c.isDigit = true := by
  by_contra hdigit
  have hplain : ¬ ('0' ≤ c && c ≤ '9') = true := by
    simpa [Char.isDigit, Char.le_def] using hdigit
  have hvalue : digitValue? 10 c = none := by
    refine if_neg ?_
    rw [if_neg hplain]
    split
    · omega
    · split <;> omega
  rw [hvalue] at h
  cases h

theorem isDigit_of_naturalOfDigits? {digits : List Char}
    (h : (naturalOfDigits? 10 digits).isSome = true) :
    digits ≠ [] ∧ ∀ c ∈ digits, c.isDigit = true := by
  unfold naturalOfDigits? at h
  split at h
  · cases h
  · next hne =>
    refine ⟨by simpa using hne, ?_⟩
    clear hne
    generalize 0 = start at h
    induction digits generalizing start with
    | nil => nofun
    | cons c rest ih =>
      rw [List.foldlM_cons] at h
      cases hvalue : digitValue? 10 c with
      | none =>
        rw [hvalue] at h
        cases h
      | some value =>
        rw [hvalue] at h
        have hrest := ih _ h
        have hdigit := isDigit_of_digitValue? (Option.isSome_of_eq_some hvalue)
        exact List.forall_mem_cons.mpr ⟨hdigit, hrest⟩

/-- Every integer can be read as a float. -/
theorem isSome_readFloat?_of_readInt64? {text : List Char}
    (h : (readInt64? 10 text).isSome = true) : (readFloat? text).isSome = true := by
  have hdigits : (naturalOfDigits? 10 (splitSign text).2).isSome = true := by
    unfold readInt64? at h
    cases hnumber : naturalOfDigits? 10 (splitSign text).2 with
    | none => simp [hnumber] at h
    | some n => rfl
  obtain ⟨hne, hall⟩ := isDigit_of_naturalOfDigits? hdigits
  have hwhole : ((splitSign text).2.takeWhile Char.isDigit) = (splitSign text).2 :=
    List.takeWhile_eq_self_iff.mpr hall
  have hafter : ((splitSign text).2.dropWhile Char.isDigit) = [] :=
    List.dropWhile_eq_nil_iff.mpr hall
  simp only [readFloat?]
  split
  · rfl
  · split
    · rfl
    · simp [readUnsignedFloat?, hwhole, hafter, hne, readExponent?]

end Numbers

/-! ### Cells without a value -/

/-- A cell with nothing but blanks. -/
def Blank (cell : String) : Prop := (trimmed cell).isEmpty = true

/-- A cell that reads as a float that no value holds: an infinity, or no number. -/
def Unholdable (cell : String) : Prop :=
  ∃ x, Number.readFloat? (trimmed cell) = some x ∧ x.isFinite = false

theorem isFinite_of_ofFloat_null {x : Float} (h : Value.ofFloat x = .null) :
    x.isFinite = false := by
  by_contra hfinite
  obtain ⟨y, -, hvalue⟩ := Value.exists_ofFloat (Bool.eq_true_of_not_eq_false hfinite)
  rw [hvalue] at h
  cases h

theorem ofInt_ne_null_of_readInt64? {text : List Char} {n : Int}
    (h : Number.readInt64? 10 text = some n) : Value.ofInt n ≠ .null := by
  have hfits : InInt64 n := by
    unfold Number.readInt64? at h
    cases hnumber : Number.naturalOfDigits? 10 (Number.splitSign text).2 with
    | none => simp [hnumber] at h
    | some magnitude =>
      simp only [hnumber, Option.bind_eq_bind, Option.bind_some,
        Option.ite_none_right_eq_some] at h
      obtain ⟨hfits, hn⟩ := h
      exact Option.some.inj hn ▸ hfits
  obtain ⟨m, -, hvalue⟩ := Value.exists_ofInt hfits
  rw [hvalue]
  nofun

/-- A cell becomes null if it is blank, if it reads as a float that no value holds, or with a
warning that names it. -/
theorem cellValue_null {kind : CellKind} {cell : String} (h : (cellValue kind cell).1 = .null) :
    Blank cell ∨ (kind = .float ∧ Unholdable cell) ∨
      ∃ target, (cellValue kind cell).2 = some (.unconvertible (.str cell) target) := by
  cases kind with
  | blank => cases h
  | text => cases h
  | int =>
    simp only [cellValue, numericCell] at h ⊢
    split at h
    · exact .inl ‹_›
    · next hblank =>
      rw [if_neg hblank]
      cases hread : Number.readInt64? 10 (trimmed cell) with
      | none => exact .inr (.inr ⟨.int, rfl⟩)
      | some n =>
        rw [hread] at h
        exact absurd h (ofInt_ne_null_of_readInt64? hread)
  | float =>
    simp only [cellValue, numericCell] at h ⊢
    split at h
    · exact .inl ‹_›
    · next hblank =>
      rw [if_neg hblank]
      cases hread : Number.readFloat? (trimmed cell) with
      | none => exact .inr (.inr ⟨.float, rfl⟩)
      | some x =>
        rw [hread] at h
        exact .inr (.inl ⟨trivial, x, hread, isFinite_of_ofFloat_null h⟩)

/-- No cell is reported in a column at least as wide as the cell. -/
theorem cellValue_silent {kind : CellKind} {cell : String}
    (h : (CellKind.ofCell cell).rank ≤ kind.rank) : (cellValue kind cell).2 = none := by
  simp only [CellKind.ofCell] at h
  cases kind with
  | blank => rfl
  | text => rfl
  | int =>
    simp only [cellValue, numericCell]
    split
    · rfl
    · next hblank =>
      rw [if_neg hblank] at h
      split at h
      · next hread =>
        obtain ⟨n, hn⟩ := Option.isSome_iff_exists.mp hread
        rw [hn]
        rfl
      · split at h <;> exact absurd h (by decide)
  | float =>
    simp only [cellValue, numericCell]
    split
    · rfl
    · next hblank =>
      rw [if_neg hblank] at h
      have hfloat : (Number.readFloat? (trimmed cell)).isSome = true := by
        split at h
        · next hread => exact isSome_readFloat?_of_readInt64? hread
        · split at h
          · assumption
          · exact absurd h (by decide)
      obtain ⟨x, hx⟩ := Option.isSome_iff_exists.mp hfloat
      rw [hx]
      rfl

/-! ### Nulls -/

/-- A row in which every null is accounted for: the cell is blank, reads as a float that no value
holds, or is named by a warning. -/
def Accounted (record : Record) (pull : Pull) : Prop :=
  ∃ values, pull.result = .ok (.row values) ∧ List.Forall₂ (fun cell value => value = .null →
    Blank cell ∨ Unholdable cell ∨ ∃ target, .unconvertible (.str cell) target ∈ pull.warnings)
    record values

/-- What a record gives that is not sampled: a row, or the fault of reading it. -/
def AccountedOrFaulty : Except FormatFault Record → Pull → Prop
  | .ok record, pull => Accounted record pull
  | .error fault, pull => pull = ⟨[], .error (.format fault)⟩

/-- How the pulls of a source account for the records of an input: a header, the rows of the sample,
which give no warning, and what is behind it. -/
structure Accounts (settings : ReaderSettings) (input : Input) (source : Source)
    (header : Option Record) (sample : List Record) (unread : List (Except FormatFault Record))
    (rows rest : Source) : Prop where
  records : (header.toList ++ sample).map .ok ++ unread = settings.dialect.read input
  sampled : (header.toList ++ sample).length =
    min (max settings.sampleSize 1) (settings.dialect.read input).length
  delivered : source = (header.map pullHeader).toList ++ rows ++ rest
  rows : List.Forall₂ (fun record pull => Accounted record pull ∧ pull.warnings = []) sample rows
  rest : List.Forall₂ AccountedOrFaulty unread rest

theorem getElem?_cellValues (kinds : List CellKind) (record : Record) (i : Nat) :
    (cellValues kinds record)[i]? = record[i]?.map (cellValue (kinds.getD i .text)) := by
  induction record generalizing kinds i with
  | nil => rfl
  | cons cell rest ih =>
    cases i with
    | zero => rw [cellValues, headD_eq_getD, List.getElem?_cons_zero, List.getElem?_cons_zero,
        Option.map_some]
    | succ i => rw [cellValues, List.getElem?_cons_succ, ih, getD_tail, List.getElem?_cons_succ]

theorem accounted_pullRow (kinds : List CellKind) (record : Record) :
    Accounted record (pullRow kinds (.ok record)) := by
  refine ⟨_, rfl, forall₂_cellValues fun i cell hcell hnull => ?_⟩
  obtain hblank | ⟨-, hfloat⟩ | ⟨target, hwarning⟩ := cellValue_null hnull
  · exact .inl hblank
  · exact .inr (.inl hfloat)
  · have hmem : cellValue (kinds.getD i .text) cell ∈ cellValues kinds record := by
      refine List.mem_iff_getElem?.mpr ⟨i, ?_⟩
      rw [getElem?_cellValues, hcell, Option.map_some]
    exact .inr (.inr ⟨target, List.mem_filterMap.mpr ⟨_, hmem, hwarning⟩⟩)

/-- Records of the sample that decided the kinds give no warning. -/
theorem warnings_pullRow {kinds : List CellKind} {sample : List Record} {record : Record}
    (hkinds : kinds = [] ∨ kinds = columnKinds sample) (hrecord : record ∈ sample) :
    (pullRow kinds (.ok record)).warnings = [] := by
  rw [pullRow, List.filterMap_eq_nil_iff]
  intro value hvalue
  obtain ⟨i, hi⟩ := List.mem_iff_getElem?.mp hvalue
  rw [getElem?_cellValues] at hi
  obtain ⟨cell, hcell, rfl⟩ := Option.map_eq_some_iff.mp hi
  apply cellValue_silent
  obtain rfl | rfl := hkinds
  · exact (CellKind.ofCell cell).rank_le_rank_text
  · exact rank_ofCell_le hrecord hcell

theorem accountedOrFaulty_pullRow (kinds : List CellKind) (record : Except FormatFault Record) :
    AccountedOrFaulty record (pullRow kinds record) := by
  cases record with
  | ok record => exact accounted_pullRow kinds record
  | error fault => rfl

/-- A source accounts for every null: a cell that is not blank becomes null only with a warning that
names it, or if it reads as a float that no value holds. Records of the sample give no warning. -/
theorem nulls_accounted {settings : ReaderSettings} {input : Input} {source : Source}
    (h : settings.source input = .ok source) :
    ∃ header sample unread rows rest,
      Accounts settings input source header sample unread rows rest := by
  rw [ReaderSettings.source, ReaderSettings.reader] at h
  cases htaken : takeSample (max settings.sampleSize 1) (settings.dialect.read input) with
  | error fault =>
    rw [htaken] at h
    cases h
  | ok taken =>
    obtain ⟨taken, unread⟩ := taken
    rw [htaken] at h
    obtain ⟨hrecords, hlength⟩ := takeSample_append htaken
    have hsource := (Except.ok.inj h).symm
    rw [Reader.drain_eq_remaining, Reader.remaining] at hsource
    dsimp only at hsource
    generalize settings.header.getD (detectsHeader taken) = hasHeader at hsource
    have hsplit : (if hasHeader = true then taken.head? else none).toList ++
        (if hasHeader = true then taken.tail else taken) = taken := by
      cases hasHeader
      · rfl
      · cases taken <;> rfl
    generalize (if hasHeader = true then taken.head? else none) = header at hsource hsplit
    generalize (if hasHeader = true then taken.tail else taken) = sample at hsource hsplit
    have hkinds : (if settings.inferKinds = true then columnKinds sample else []) = [] ∨
        (if settings.inferKinds = true then columnKinds sample else []) = columnKinds sample := by
      cases settings.inferKinds
      · exact .inl rfl
      · exact .inr rfl
    generalize (if settings.inferKinds = true then columnKinds sample else []) = kinds
      at hsource hkinds
    refine ⟨header, sample, unread, sample.map fun record => pullRow kinds (.ok record),
      unread.map (pullRow kinds), hsplit ▸ hrecords, hsplit ▸ hlength, ?_, ?_, ?_⟩
    · simp [hsource]
    · rw [List.forall₂_map_right_iff, List.forall₂_same]
      exact fun record hrecord =>
        ⟨accounted_pullRow kinds record, warnings_pullRow hkinds hrecord⟩
    · rw [List.forall₂_map_right_iff, List.forall₂_same]
      exact fun record _ => accountedOrFaulty_pullRow kinds record

/-- A number in the sample, and a word behind it that is none. -/
theorem nulls_accounted_of_word :
    let settings : ReaderSettings := { header := some false, sampleSize := 1 }
    let input : Input := ⟨[49, 10, 120, 10], none⟩
    ∃ source, settings.source input = .ok source ∧ ∃ header sample unread rows rest,
      Accounts settings input source header sample unread rows rest :=
  ⟨_, rfl, nulls_accounted rfl⟩

/-- A cell that reads as no number, in the sample with a float, becomes null without a warning. -/
theorem null_unaccounted :
    let settings : ReaderSettings := { header := some false }
    let input : Input := ⟨[49, 46, 53, 10, 110, 97, 110, 10], none⟩
    settings.dialect.read input = [.ok ["1.5"], .ok ["nan"]] ∧ ¬ Blank "nan" ∧
      ∃ source, settings.source input = .ok source ∧
        source[1]? = some ⟨[], .ok (.row [.null])⟩ := by
  have hnan : cellValue .float "nan" = (.null, none) := by
    have hvalue : Value.ofFloat (0.0 / 0.0) = .null := dif_neg (by decide +kernel)
    rw [← hvalue]
    rfl
  refine ⟨rfl, by unfold Blank; decide, Reader.drain ⟨[.float], none, [["1.5"], ["nan"]], []⟩, rfl,
    ?_⟩
  simp [Reader.drain_eq_remaining, Reader.remaining, pullRow, cellValues, hnan]

end StreamQuery.Csv
