import StreamQuery.Format.Call
import StreamQuery.Format.Lines
import StreamQuery.Proofs.Json.Reading

/-!
# JSON lines

Bytes are read back line by line, and rows that were written as lines of JSON are read back from
them.
-/

/-!
## Lines of bytes

A text in UTF-8 is read back from its bytes, and lines that hold no line feed and no carriage return
are read back from what is written line by line.
-/

namespace StreamQuery

namespace Bytes

/-! ### Texts in UTF-8 -/

theorem toList_loop (bytes : ByteArray) (i : Nat) (front : List UInt8) :
    ByteArray.toList.loop bytes i front = front.reverse ++ bytes.data.toList.drop i := by
  induction i, front using ByteArray.toList.loop.induct bytes with
  | case1 i front hlt ih =>
    have hi : i < bytes.data.toList.length := by simpa using hlt
    have hget : bytes.get! i = bytes.data.toList[i] := by
      rw [Array.getElem_toList]
      exact getElem!_pos bytes.data i (by simpa using hlt)
    rw [ByteArray.toList.loop, if_pos hlt, ih, List.drop_eq_getElem_cons hi, hget]
    simp
  | case2 i front hge =>
    have hlength : bytes.data.toList.length ≤ i := by simpa using hge
    rw [ByteArray.toList.loop, if_neg hge, List.drop_eq_nil_of_le hlength, List.append_nil]

theorem toList_eq (bytes : ByteArray) : bytes.toList = bytes.data.toList := by
  rw [ByteArray.toList, toList_loop]
  rfl

/-- The bytes of a text are those of its characters. -/
theorem ofText_eq (text : String) : ofText text = text.toList.flatMap String.utf8EncodeChar := by
  rw [ofText, toList_eq]
  change text.toByteArray.data.toList = _
  rw [← String.utf8Encode_toList]
  exact List.toList_data_toByteArray

theorem ofText_append (text other : String) :
    ofText (text ++ other) = ofText text ++ ofText other := by
  rw [ofText_eq, ofText_eq, ofText_eq, String.toList_append, List.flatMap_append]

theorem text?_ofText (text : String) : text? (ofText text) = some text := by
  have hbytes : (⟨(ofText text).toArray⟩ : ByteArray) = text.toByteArray := by
    rw [ofText, toList_eq]
    rfl
  rw [text?, hbytes, String.fromUTF8?, dif_pos text.isValidUTF8]
  rfl

/-- The bytes of a character that is no control character are no control characters. -/
theorem toNat_of_mem_utf8EncodeChar {c : Char} (h : 32 ≤ c.toNat) {byte : UInt8}
    (hmem : byte ∈ String.utf8EncodeChar c) : 32 ≤ byte.toNat := by
  have hvalue : c.val.toNat = c.toNat := rfl
  unfold String.utf8EncodeChar at hmem
  dsimp only at hmem
  rw [hvalue] at hmem
  have hbyte (n : Nat) : (UInt8.ofNat n).toNat = n % 256 := UInt8.toNat_ofNat'
  split at hmem
  · obtain rfl := List.mem_singleton.mp hmem
    rw [hbyte]
    omega
  · -- Every other byte has its highest bit.
    repeat' split at hmem
    all_goals
      simp only [List.mem_cons, List.not_mem_nil, or_false] at hmem
      rcases hmem with rfl | rfl | hmem <;> (try rcases hmem with rfl | rfl) <;> rw [hbyte] <;>
        omega

/-! ### Lines -/

/-- Whether bytes hold nothing that ends a line. -/
def Unbroken (bytes : Bytes) : Prop :=
  ∀ byte ∈ bytes, byte ≠ lineFeed ∧ byte ≠ carriageReturn

theorem linesAfter_append {line : Bytes} (h : line.Unbroken) (before rest : Bytes) :
    linesAfter before (line ++ rest) = linesAfter (line.reverse ++ before) rest := by
  induction line generalizing before with
  | nil => rfl
  | cons byte line ih =>
    have hbyte := (h byte List.mem_cons_self).1
    rw [List.cons_append, linesAfter, if_neg (by simpa using hbyte),
      ih fun other hother => h other (List.mem_cons_of_mem _ hother)]
    simp

theorem finishLine_reverse {line : Bytes} (h : line.Unbroken) : finishLine line.reverse = line := by
  have hlast : (line.reverse.head? == some carriageReturn) = false := by
    refine beq_false_of_ne fun hhead => ?_
    exact (h carriageReturn (List.mem_reverse.mp (List.mem_of_mem_head? hhead))).2 rfl
  rw [finishLine, hlast, if_neg Bool.false_ne_true, List.reverse_reverse]

/-- Lines that are written one by one are read back. -/
theorem lines_flatMap {written : List Bytes} (h : ∀ line ∈ written, line.Unbroken) :
    lines (written.flatMap (· ++ [lineFeed])) = written := by
  unfold lines
  induction written with
  | nil => rfl
  | cons line written ih =>
    have hline := h line List.mem_cons_self
    rw [List.flatMap_cons, List.append_assoc, linesAfter_append hline, List.append_nil,
      List.singleton_append, linesAfter, if_pos (beq_self_eq_true _), finishLine_reverse hline,
      ih fun other hother => h other (List.mem_cons_of_mem _ hother)]

end Bytes

/-!
## Lines of JSON read back

The writer of JSON lines puts one line per row, whatever the values hold, since JSON texts have no
control characters. The reader finds the documents of the rows in these lines.
-/

namespace Json

/-! ### No control characters -/

theorem toNat_hexDigit : ∀ n < 16, 32 ≤ (hexDigit n).toNat := by
  decide

theorem toNat_of_mem_stringChar {c d : Char} (h : d ∈ stringChar c) : 32 ≤ d.toNat := by
  have hescape (letter : Char) (hletter : 32 ≤ letter.toNat) (h : d ∈ ['\\', letter]) :
      32 ≤ d.toNat := by
    obtain rfl | h := List.mem_cons.mp h
    · decide
    · obtain rfl := List.mem_singleton.mp h
      exact hletter
  unfold stringChar at h
  split at h
  · exact hescape _ (by decide) h
  split at h
  · exact hescape _ (by decide) h
  split at h
  · exact hescape _ (by decide) h
  split at h
  · exact hescape _ (by decide) h
  split at h
  · exact hescape _ (by decide) h
  split at h
  · exact hescape _ (by decide) h
  split at h
  · exact hescape _ (by decide) h
  split at h
  · next hcontrol =>
    simp only [List.mem_cons, List.not_mem_nil, or_false] at h
    rcases h with rfl | rfl | rfl | rfl | rfl | rfl
    · decide
    · decide
    · decide
    · decide
    · exact toNat_hexDigit _ (by omega)
    · exact toNat_hexDigit _ (by omega)
  · next hcontrol =>
    obtain rfl := List.mem_singleton.mp h
    omega

theorem toNat_of_isNumberChar {c : Char} (h : Number.isNumberChar c = true) : 32 ≤ c.toNat := by
  simp only [Number.isNumberChar, Bool.or_eq_true, beq_iff_eq] at h
  rcases h with (((h | rfl) | rfl) | rfl) | rfl
  · simp only [Char.isDigit, Bool.and_eq_true, decide_eq_true_eq] at h
    have hlow : (48 : UInt32).toNat ≤ c.val.toNat := UInt32.le_iff_toNat_le.mp h.1
    change 32 ≤ c.val.toNat
    exact Nat.le_trans (by decide) hlow
  all_goals decide

/-- Whether a text has no control characters. -/
def Printable (text : List Char) : Prop :=
  ∀ c ∈ text, 32 ≤ c.toNat

theorem Printable.append {left right : List Char} (hleft : Printable left)
    (hright : Printable right) : Printable (left ++ right) :=
  List.forall_mem_append.mpr ⟨hleft, hright⟩

theorem Printable.cons {c : Char} {rest : List Char} (hc : 32 ≤ c.toNat) (h : Printable rest) :
    Printable (c :: rest) :=
  List.forall_mem_cons.mpr ⟨hc, h⟩

theorem printable_stringText (content : List Char) : Printable (stringText content) := by
  refine Printable.append (Printable.cons (by decide) fun c hc => ?_) (by simp [Printable])
  obtain ⟨d, -, hd⟩ := List.mem_flatMap.mp hc
  exact toNat_of_mem_stringChar hd

mutual

theorem printable_text : ∀ value : Value, Printable (text value)
  | .null => by simp [Printable, text]
  | .bool true => by simp [Printable, text]
  | .bool false => by simp [Printable, text]
  | .int _ => fun _ hc => toNat_of_isNumberChar (isNumberChar_of_mem_intText hc)
  | .float _ => fun _ hc =>
    toNat_of_isNumberChar (Number.jsonNotation.isNumberChar_of_mem_writeFinite hc)
  | .str s => printable_stringText s.toList
  | .list items =>
    (Printable.cons (by decide) (printable_itemsText items)).append (by simp [Printable])
  | .object entries =>
    (Printable.cons (by decide) (printable_entriesText entries)).append (by simp [Printable])

theorem printable_itemsText : ∀ items : List Value, Printable (itemsText items)
  | [] => by simp [Printable, itemsText]
  | item :: rest => (printable_text item).append (printable_itemsTail rest)

theorem printable_itemsTail : ∀ items : List Value, Printable (itemsTail items)
  | [] => by simp [Printable, itemsTail]
  | item :: rest =>
    (Printable.cons (c := ',') (by decide) (printable_text item)).append (printable_itemsTail rest)

theorem printable_entriesText : ∀ entries : List (String × Value), Printable (entriesText entries)
  | [] => by simp [Printable, entriesText]
  | (key, value) :: rest => by
    rw [entriesText]
    exact ((printable_stringText key.toList).append
      (Printable.cons (c := ':') (by decide) (printable_text value))).append
        (printable_entriesTail rest)

theorem printable_entriesTail : ∀ entries : List (String × Value), Printable (entriesTail entries)
  | [] => by simp [Printable, entriesTail]
  | (key, value) :: rest => by
    rw [entriesTail]
    exact ((Printable.cons (c := ',') (by decide) (printable_stringText key.toList)).append
      (Printable.cons (c := ':') (by decide) (printable_text value))).append
        (printable_entriesTail rest)

end

theorem unbroken_toJson (value : Value) : (Bytes.ofText value.toJson).Unbroken := by
  intro byte hbyte
  rw [Bytes.ofText_eq, Value.toJson, String.toList_ofList] at hbyte
  obtain ⟨c, hc, hbyte⟩ := List.mem_flatMap.mp hbyte
  have hlow := Bytes.toNat_of_mem_utf8EncodeChar (printable_text value c hc) hbyte
  constructor <;> (rintro rfl; exact absurd hlow (by decide))

end Json

namespace JsonLines

variable {columns : List String} {values : List Value}

/-- What a row stands for: the object of its values by column name, or its only value if that is an
object in a column named `json` or `col1`. -/
def rowObject (columns : List String) (values : List Value) : Value :=
  match columns, values with
  | ["json"], [.object entries] => .object entries
  | ["col1"], [.object entries] => .object entries
  | columns, values => .object (columns.zip values)

theorem keysOf_zip (h : values.length = columns.length) :
    keysOf (columns.zip values) = columns :=
  List.map_fst_zip h.ge

/-- The document of a row is its object: different names need no inserting. -/
theorem document_eq (hnames : columns.Nodup) (hlength : values.length = columns.length) :
    document columns values = rowObject columns values := by
  have hkeyed : insertEntries [] (columns.zip values) = columns.zip values :=
    insertEntries_of_nodup (by rwa [keysOf_zip hlength])
  have hdefault : defaultColumnName 0 = "col1" := by decide
  unfold document
  dsimp only
  rw [hkeyed, hdefault]
  unfold rowObject columnName
  split
  · next name entries =>
    by_cases hjson : name = "json"
    · subst hjson
      rfl
    · by_cases hcol : name = "col1"
      · subst hcol
        rfl
      · simp [hjson, hcol]
  · next hne =>
    split
    · exact absurd rfl (hne _ _ rfl)
    · exact absurd rfl (hne _ _ rfl)
    · rfl

/-- A row's object nests one level deeper than its values. -/
theorem storable_rowObject (hnames : columns.Nodup) (hlength : values.length = columns.length)
    {depth : Nat} (h : ∀ value ∈ values, Json.Storable depth value) :
    Json.Storable (depth + 1) (rowObject columns values) := by
  have hkeyed : Json.Storable (depth + 1) (.object (columns.zip values)) :=
    .object (by rwa [keysOf_zip hlength]) fun entry hentry =>
      h entry.2 (List.of_mem_zip hentry).2
  unfold rowObject
  split
  · exact (h _ List.mem_cons_self).succ
  · exact (h _ List.mem_cons_self).succ
  · exact hkeyed

/-! ### The lines of a run -/

/-- The bytes of rows are their documents, each ended by a line feed. -/
theorem bytes_rows (columns : List String) (rows : List (List Value)) :
    Bytes.ofText ((TextWriter.json columns).textOf (rows.map .row ++ [.flush])) =
      (rows.map fun values => Bytes.ofText (document columns values).toJson).flatMap
        (· ++ [lineFeed]) := by
  induction rows with
  | nil => rw [Bytes.ofText_eq]; rfl
  | cons values rows ih =>
    have htext : (TextWriter.json columns).textOf ((values :: rows).map .row ++ [.flush]) =
        (document columns values).toJson ++ "\n" ++
          (TextWriter.json columns).textOf (rows.map .row ++ [.flush]) := rfl
    have hbreak : Bytes.ofText "\n" = [lineFeed] := by rw [Bytes.ofText_eq]; rfl
    rw [htext, Bytes.ofText_append, Bytes.ofText_append, ih, hbreak]
    rfl

theorem bytes_textOf (columns : List String) (rows : List (List Value)) :
    Bytes.ofText ((TextWriter.json []).textOf (.header columns :: rows.map .row ++ [.flush])) =
      (rows.map fun values => Bytes.ofText (document columns values).toJson).flatMap
        (· ++ [lineFeed]) := by
  have hheader : (TextWriter.json []).textOf (.header columns :: rows.map .row ++ [.flush]) =
      "" ++ (TextWriter.json columns).textOf (rows.map .row ++ [.flush]) := rfl
  rw [hheader, String.empty_append, bytes_rows]

/-- The line of an object is read as a row of it. -/
theorem pullLine?_object {entries : List (String × Value)}
    (h : Json.Storable Json.depthLimit (.object entries)) (number : Nat) :
    pullLine? number (.ok (Value.object entries).toJson) =
      some ⟨[], .ok (.row [.object entries])⟩ := by
  have hbrace : (Value.object entries).toJson.toList.all Unicode.isWhitespace = false := by
    have hspace : Unicode.isWhitespace '\x7b' = false := by decide
    rw [Value.toJson, String.toList_ofList, Json.text, List.cons_append, List.all_cons, hspace,
      Bool.false_and]
  rw [pullLine?, hbrace, if_neg Bool.false_ne_true, Json.read?_toJson h]

theorem exists_rowObject (columns : List String) (values : List Value) :
    ∃ entries, rowObject columns values = .object entries := by
  unfold rowObject
  split <;> exact ⟨_, rfl⟩

theorem pullLines_rowObject (columns : List String) {rows : List (List Value)}
    (h : ∀ values ∈ rows, Json.Storable Json.depthLimit (rowObject columns values))
    (number : Nat) :
    pullLines number (rows.map fun values => .ok (rowObject columns values).toJson) =
      rows.map fun values => ⟨[], .ok (.row [rowObject columns values])⟩ := by
  induction rows generalizing number with
  | nil => rfl
  | cons values rows ih =>
    obtain ⟨entries, hentries⟩ := exists_rowObject columns values
    have hfirst := h values List.mem_cons_self
    rw [hentries] at hfirst
    rw [List.map_cons, List.map_cons, pullLines, hentries, pullLine?_object hfirst,
      ih fun other hother => h other (List.mem_cons_of_mem _ hother)]
    rfl

/-- Lines of JSON are read back: what is written of rows is a line for each, and reading the lines
gives the objects of the rows, in order. -/
theorem source_textOf {columns : List String} {rows : List (List Value)} (hnames : columns.Nodup)
    (hlength : ∀ values ∈ rows, values.length = columns.length)
    (h : ∀ values ∈ rows, ∀ value ∈ values, Json.Storable 99 value) :
    let bytes := Bytes.ofText
      ((TextWriter.json []).textOf (.header columns :: rows.map .row ++ [.flush]))
    bytes.lines = (rows.map fun values => Bytes.ofText (rowObject columns values).toJson) ∧
      source { bytes := bytes } =
        ⟨[], .ok (.header ["json"])⟩ ::
          rows.map fun values => ⟨[], .ok (.row [rowObject columns values])⟩ := by
  intro bytes
  have hdocuments : (rows.map fun values => Bytes.ofText (document columns values).toJson) =
      rows.map fun values => Bytes.ofText (rowObject columns values).toJson :=
    List.map_congr_left fun values hvalues => by
      rw [document_eq hnames (hlength values hvalues)]
  have hlines : bytes.lines =
      rows.map fun values => Bytes.ofText (rowObject columns values).toJson := by
    rw [show bytes = _ from bytes_textOf columns rows, hdocuments]
    refine Bytes.lines_flatMap fun line hline => ?_
    obtain ⟨values, -, rfl⟩ := List.mem_map.mp hline
    exact Json.unbroken_toJson _
  have htexts : ({ bytes := bytes } : Input).lines =
      rows.map fun values => .ok (rowObject columns values).toJson := by
    rw [Input.lines, hlines, List.map_map, Option.toList_none, List.map_nil, List.append_nil]
    exact List.map_congr_left fun values _ => by
      rw [Function.comp_apply, Bytes.text?_ofText]
  refine ⟨hlines, ?_⟩
  rw [source, htexts, pullLines_rowObject]
  · rfl
  · exact fun values hvalues =>
      (storable_rowObject hnames (hlength values hvalues) (h values hvalues)).mono (by decide)

/-- The lines of two rows whose strings hold a quote and a line break, and whose second column holds
an object. -/
theorem source_textOf_of_nested :
    let columns := ["a", "b c"]
    let rows : List (List Value) :=
      [[.ofInt (-7), .object [("k", .list [.null, .bool true])]], [.str "x\n\"y", .list []]]
    let bytes := Bytes.ofText
      ((TextWriter.json []).textOf (.header columns :: rows.map .row ++ [.flush]))
    bytes.lines = (rows.map fun values => Bytes.ofText (rowObject columns values).toJson) ∧
      source { bytes := bytes } =
        ⟨[], .ok (.header ["json"])⟩ ::
          rows.map fun values => ⟨[], .ok (.row [rowObject columns values])⟩ := by
  refine source_textOf (by decide) (by simp) ?_
  have hint : Json.Storable 99 (.ofInt (-7)) := .int ⟨-7, by decide, by decide⟩
  have hlist : Json.Storable 98 (.list [.null, .bool true]) := by
    refine .list fun item hitem => ?_
    simp only [List.mem_cons, List.not_mem_nil, or_false] at hitem
    obtain rfl | rfl := hitem
    · exact .null
    · exact .bool true
  have hobject : Json.Storable 99 (.object [("k", .list [.null, .bool true])]) := by
    refine .object (by decide) fun entry hentry => ?_
    obtain rfl := List.mem_singleton.mp hentry
    exact hlist
  intro values hvalues value hvalue
  simp only [List.mem_cons, List.not_mem_nil, or_false] at hvalues
  obtain rfl | rfl := hvalues <;> simp only [List.mem_cons, List.not_mem_nil, or_false] at hvalue
  · obtain rfl | rfl := hvalue
    · exact hint
    · exact hobject
  · obtain rfl | rfl := hvalue
    · exact .str _
    · exact .list (by simp)

end JsonLines

end StreamQuery
