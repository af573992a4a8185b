import Ubiq.Foundation.BinaryFloat
import Ubiq.Foundation.Fallible
import Ubiq.Foundation.GoJson
import Ubiq.Shard.Backend

/-!
# The rows of `SQLShardBackend`

The two conversions of the SQL backend, which `Backend` leaves open. `ExportRange`
puts the columns of a row into a `map[string]any`, byte slices as strings, and
marshals it; `Import` unmarshals into a `map[string]any`, where every number is a
`float64`, and hands the values to an `INSERT`.

What the database makes of an `INSERT` is a parameter, and `Exact` says what is assumed of it:
an integer that a column returns is the number that was inserted, a byte string the string that
was. `restored_iff` then separates what the two programs lose from what the database changes.
-/

namespace Ubiq.Shard

open Foundation
open Foundation.GoJson
open Foundation.Json (Value Chunk)

/-! ## Values and rows -/

/-- The values of columns, as the driver scans them. -/
inductive SqlValue
  | null
  | integer (value : Int64)
  | text (value : { text : Bytes // Utf8.valid text = true })
  | bytes (value : Bytes)
  /-- A finite `float64`, by what `Marshal` and `Sprint` write. -/
  | real (json printed : Bytes)
deriving DecidableEq

/-- Nulls, integers, texts and byte strings. -/
def SqlValue.isPlain : SqlValue → Bool
  | .real _ _ => false
  | _ => true

/-- The columns of a row by their names. -/
abbrev Columns := SortedTable Bytes SqlValue

/-- A letter or an underscore. -/
def isWordStart (c : UInt8) : Bool :=
  (65 ≤ c && c ≤ 90) || (97 ≤ c && c ≤ 122) || c = 95

/-- `sqlIdentifier`: `^[A-Za-z_][A-Za-z0-9_]*$`. -/
def sqlIdentifier : Bytes → Bool
  | [] => false
  | c :: rest => isWordStart c && rest.all fun next => isWordStart next || Json.isDigit next

/-! ## `ExportRange` -/

/-- What `json.Marshal` makes of a scanned value; a byte slice is a string by then. -/
def exportValue : SqlValue → Value (List Chunk)
  | .null => .null
  | .integer value => intValue value.toInt
  | .text value => stringValue value.1
  | .bytes value => stringValue value
  | .real json _ => .number json

/-- `fmt.Sprint` of a scanned value. -/
def sprint : SqlValue → Bytes
  | .null => ascii "<nil>"
  | .integer value => intText value.toInt
  | .text value => value.1
  | .bytes value => value
  | .real _ printed => printed

/-- `json.Marshal` of the columns; the keys of a map are sorted. -/
def marshalColumns (columns : Columns) : Bytes :=
  Json.render (.object (columns.rows.map fun column => (quote column.1, exportValue column.2)))

/-! ## `Import` -/

/-- What `json.Unmarshal` stores in an `any`. -/
inductive Any
  | nil
  | bool (value : Bool)
  /-- A `float64` read from an integer. -/
  | float (value : Int)
  /-- A number with a fraction or an exponent, or beyond `int64`, by its text. -/
  | decimal (text : Bytes)
  | string (text : Bytes)
  /-- A slice or a map, which no driver takes as a parameter. -/
  | composite
deriving DecidableEq, Repr

/-- The significant bits of a `float64`. -/
def float64Bits : Nat := 53

/-- `json.Unmarshal` into an `any`. -/
def readAny : Value (List Chunk) → Option Any
  | .null => some .nil
  | .bool value => some (.bool value)
  | .number text =>
      match parseInt64 text with
      | some value => some (.float (BinaryFloat.round float64Bits value))
      | none => some (.decimal text)
  | .string body => (unquote body).map .string
  | .array _ => some .composite
  | .object _ => some .composite

/-- One entry of the map. -/
def readField (member : List Chunk × Value (List Chunk)) : Option (Bytes × Any) :=
  match unquote member.1, readAny member.2 with
  | some name, some value => some (name, value)
  | _, _ => none

/-- `json.Unmarshal` into a `map[string]any`; `null` leaves the map without entries. -/
def unmarshalFields (data : Bytes) : Option (SortedTable Bytes Any) :=
  match scan data with
  | some (.object members) => (members.mapM readField).map SortedTable.ofRows
  | some .null => some .empty
  | _ => none

/-- A table of a SQL backend. `insert` is the `INSERT` with these parameters in its columns: the row
that is then scanned, or nothing if the statement fails. -/
structure SqlTable where
  keyColumn : Bytes
  insert : SortedTable Bytes Any → Option Columns

namespace SqlTable

/-- The row that `Import` inserts for a document. -/
def importColumns (table : SqlTable) (data : Bytes) : Option Columns :=
  match unmarshalFields data with
  | none => none
  | some fields =>
      if (fields.rows.all fun field => sqlIdentifier field.1) = true then table.insert fields
      else none

/-- The key of a row: `fmt.Sprint` of its key column. -/
def keyOf (table : SqlTable) (columns : Columns) : Bytes :=
  ((columns.lookup table.keyColumn).map sprint).getD []

/-- `SQLShardBackend`. -/
def backend (table : SqlTable) : Backend Columns where
  engine := .sql
  encode _ columns := some (marshalColumns columns)
  decode data := (table.importColumns data).map fun columns => (table.keyOf columns, columns)

/-- What is assumed of the database. A column may return a value of another type than it was
given, as SQLite returns a `float64` for one that is no `int64`, and a text for a string in a
column of byte strings. -/
structure Exact (table : SqlTable) : Prop where
  integer : ∀ fields stored name number value, table.insert fields = some stored →
    fields.lookup name = some (.float number) → stored.lookup name = some (.integer value) →
      value.toInt = number
  bytes : ∀ fields stored name text value, table.insert fields = some stored →
    fields.lookup name = some (.string text) → stored.lookup name = some (.bytes value) →
      value = text

end SqlTable

/-- A row whose column names are identifiers. -/
structure Row where
  columns : Columns
  named : ∀ column ∈ columns.rows, sqlIdentifier column.1 = true
  plain : ∀ column ∈ columns.rows, column.2.isPlain = true

/-! ## One value -/

/-- The parameter that says the whole value. -/
def parameter : SqlValue → Any
  | .null => .nil
  | .integer value => .float value.toInt
  | .text value => .string value.1
  | .bytes value => .string value
  | .real json _ => .decimal json

/-- The value that `Import` reads for an exported one. -/
def imported : SqlValue → Any
  | .integer value => .float (BinaryFloat.round float64Bits value.toInt)
  | .bytes value => .string (Utf8.repair value)
  | value => parameter value

/-- What JSON and `float64` keep. -/
def SqlValue.Lossless : SqlValue → Prop
  | .integer value => BinaryFloat.Representable float64Bits value.toInt
  | .bytes value => Utf8.valid value = true
  | _ => True

theorem imported_of_lossless {value : SqlValue} (h : value.Lossless) :
    imported value = parameter value := by
  cases value with
  | integer value => exact congrArg Any.float ((BinaryFloat.round_eq_self_iff _ _).mpr h)
  | bytes value => exact congrArg Any.string (Utf8.repair_of_valid h)
  | _ => rfl

theorem isInt64_toInt (value : Int64) : IsInt64 value.toInt :=
  ⟨value.le_toInt, value.toInt_lt⟩

theorem wellFormed_exportValue {value : SqlValue} (h : value.isPlain = true) :
    Json.WellFormed (exportValue value) := by
  cases value with
  | null => trivial
  | integer value => exact wellFormed_intValue value.toInt
  | text value => exact wellFormed_stringValue value.1
  | bytes value => exact wellFormed_stringValue value
  | real json printed => cases h

theorem depth_exportValue (value : SqlValue) : (exportValue value).depth = 0 := by
  cases value <;> rfl

theorem readAny_exportValue {value : SqlValue} (h : value.isPlain = true) :
    readAny (exportValue value) = some (imported value) := by
  cases value with
  | null => rfl
  | integer value =>
      simp only [exportValue, intValue, readAny, parseInt64_intText (isInt64_toInt value), imported]
  | text value =>
      simp only [exportValue, stringValue, readAny, unquote_quote, imported, parameter,
        Utf8.repair_of_valid value.2, Option.map_some]
  | bytes value =>
      simp only [exportValue, stringValue, readAny, unquote_quote, imported, Option.map_some]
  | real json printed => cases h

/-! ## One row -/

theorem word_le {c : UInt8} (h : (isWordStart c || Json.isDigit c) = true) : c ≤ 0x7F := by
  simp only [isWordStart, Json.isDigit, Bool.or_eq_true, Bool.and_eq_true, decide_eq_true_eq] at h
  rcases h with ((⟨-, hc⟩ | ⟨-, hc⟩) | rfl) | ⟨-, hc⟩
  · exact hc.trans (by decide)
  · exact hc.trans (by decide)
  · decide
  · exact hc.trans (by decide)

theorem ascii_of_sqlIdentifier {name : Bytes} (h : sqlIdentifier name = true) :
    ∀ byte ∈ name, byte ≤ 0x7F := by
  cases name with
  | nil => cases h
  | cons c rest =>
      obtain ⟨hc, hrest⟩ := Bool.and_eq_true_iff.mp h
      refine List.forall_mem_cons.mpr ⟨word_le (by rw [hc, Bool.true_or]), ?_⟩
      exact fun byte hbyte => word_le (List.all_eq_true.mp hrest byte hbyte)

theorem readField_column {column : Bytes × SqlValue} (h : sqlIdentifier column.1 = true)
    (hplain : column.2.isPlain = true) :
    readField (quote column.1, exportValue column.2) = some (column.1, imported column.2) := by
  have hname : Utf8.repair column.1 = column.1 :=
    Utf8.repair_of_valid (Utf8.valid_of_ascii (ascii_of_sqlIdentifier h))
  simp only [readField, unquote_quote, hname, readAny_exportValue hplain]

/-- The document of a row is scanned again. -/
theorem scan_marshalColumns {columns : Columns}
    (h : ∀ column ∈ columns.rows, column.2.isPlain = true) :
    scan (marshalColumns columns) =
      some (.object (columns.rows.map fun column => (quote column.1, exportValue column.2))) := by
  have hwellFormed : Json.WellFormed
      (.object (columns.rows.map fun column => (quote column.1, exportValue column.2))) := by
    rw [Json.wellFormed_object, List.forall_mem_map]
    exact fun column hcolumn =>
      ⟨wellFormed_quote column.1, wellFormed_exportValue (h column hcolumn)⟩
  have hdepth : (Value.object
      (columns.rows.map fun column => (quote column.1, exportValue column.2))).depth = 1 := by
    have hzero : ∀ rows : List (Bytes × SqlValue),
        Value.depths (rows.map fun column => exportValue column.2) = 0 := by
      intro rows
      induction rows with
      | nil => rfl
      | cons row rest ih => rw [List.map_cons, Value.depths_cons, depth_exportValue, ih]; rfl
    rw [Value.depth_object, List.map_map]
    exact congrArg (· + 1) (hzero columns.rows)
  rw [scan, marshalColumns, Json.parse_render hwellFormed, Option.filter_some, hdepth]
  rfl

/-- `Import` reads the columns back, with the imported values. -/
theorem unmarshalFields_marshalColumns (row : Row) :
    unmarshalFields (marshalColumns row.columns) = some (row.columns.mapValues imported) := by
  have hfields : (row.columns.rows.map fun column => (quote column.1, exportValue column.2)).mapM
      readField = some (row.columns.mapValues imported).rows := by
    rw [List.mapM_map]
    exact Fallible.mapM_eq_some_map_iff.mpr fun column hcolumn =>
      readField_column (row.named column hcolumn) (row.plain column hcolumn)
  rw [unmarshalFields, scan_marshalColumns row.plain]
  simp only [hfields, Option.map_some, SortedTable.ofRows_rows]

namespace SqlTable

variable {table : SqlTable} {row : Row}

/-- The parameters that `Import` makes of a row go into the `INSERT`. -/
theorem importColumns_marshalColumns (table : SqlTable) (row : Row) :
    table.importColumns (marshalColumns row.columns) =
      table.insert (row.columns.mapValues imported) := by
  have hnames : ((row.columns.mapValues imported).rows.all fun field => sqlIdentifier field.1) =
      true :=
    List.all_eq_true.mpr (List.forall_mem_map.mpr row.named)
  rw [importColumns, unmarshalFields_marshalColumns]
  exact if_pos hnames

/-- A row that loses nothing reaches the `INSERT` with its own values. -/
theorem mapValues_imported (h : ∀ column ∈ row.columns.rows, column.2.Lossless) :
    row.columns.mapValues imported = row.columns.mapValues parameter := by
  have hrows : (row.columns.mapValues imported).rows = (row.columns.mapValues parameter).rows :=
    List.map_congr_left fun column hcolumn =>
      congrArg (Prod.mk column.1) (imported_of_lossless (h column hcolumn))
  rw [← SortedTable.ofRows_rows (row.columns.mapValues imported), hrows, SortedTable.ofRows_rows]

/-- A row that comes back as it was has lost nothing. -/
theorem Exact.lossless (h : table.Exact)
    (hinsert : table.insert (row.columns.mapValues imported) = some row.columns) :
    ∀ column ∈ row.columns.rows, column.2.Lossless := by
  rintro ⟨name, value⟩ hcolumn
  have hstored := SortedTable.mem_rows_iff.mp hcolumn
  have hfield : (row.columns.mapValues imported).lookup name = some (imported value) :=
    SortedTable.lookup_mapValues_eq_some_iff.mpr ⟨value, hstored, rfl⟩
  cases value with
  | integer value =>
      have hround := h.integer _ _ name _ value hinsert hfield hstored
      exact (BinaryFloat.round_eq_self_iff _ _).mp hround.symm
  | bytes value =>
      have hrepair := h.bytes _ _ name _ value hinsert hfield hstored
      exact Utf8.repair_eq_self_iff.mp hrepair.symm
  | _ => trivial

/-- **One row.** A document is imported as the row it was made from exactly if the row loses
nothing and the database returns what it is given. -/
theorem importColumns_eq_self_iff (h : table.Exact) (row : Row) :
    table.importColumns (marshalColumns row.columns) = some row.columns ↔
      (∀ column ∈ row.columns.rows, column.2.Lossless) ∧
        table.insert (row.columns.mapValues parameter) = some row.columns := by
  rw [importColumns_marshalColumns]
  constructor
  · intro hinsert
    have hlossless := h.lossless hinsert
    rw [mapValues_imported hlossless] at hinsert
    exact ⟨hlossless, hinsert⟩
  · rintro ⟨hlossless, hinsert⟩
    rw [mapValues_imported hlossless]
    exact hinsert

/-! ## Migrated rows -/

/-- Every document that an export has for the row, imported into the empty table, gives
the row again, with the same value in every column. -/
def Restored (table : SqlTable) (row : Row) : Prop :=
  ∀ source start stop after limit batch,
    table.backend.exportRange source start stop after limit = some batch →
    ∀ document ∈ batch.documents, source.lookup document.key = some row.columns →
      ∃ stored, table.backend.importAll .empty [document] = some stored ∧
        stored.lookup (table.keyOf row.columns) = some row.columns

/-- An import into the empty table inserts what the document is read as. -/
theorem importAll_empty_iff {document : ShardDocument} {columns : Columns} :
    (∃ stored, table.backend.importAll .empty [document] = some stored ∧
        stored.lookup (table.keyOf columns) = some columns) ↔
      table.importColumns document.data = some columns := by
  have himport : table.backend.importAll .empty [document] =
      (table.importColumns document.data).map fun columns =>
        SortedTable.empty.insertNew (table.keyOf columns) columns := by
    simp [Backend.importAll, Backend.importOne, backend, Function.comp_def]
  rw [himport]
  constructor
  · rintro ⟨stored, hstored, hlookup⟩
    obtain ⟨inserted, hinserted, rfl⟩ := Option.map_eq_some_iff.mp hstored
    rw [SortedTable.lookup_insertNew] at hlookup
    split at hlookup
    · rw [hinserted, hlookup]
    · cases hlookup
  · intro hcolumns
    refine ⟨_, by rw [hcolumns, Option.map_some], ?_⟩
    rw [SortedTable.lookup_insertNew, if_pos ⟨rfl, rfl⟩]

/-- The document of an exported row. -/
theorem data_of_exportRange {source : Rows Columns} {start stop after : Bytes} {limit : Nat}
    {columns : Columns} {batch : ShardBatch}
    (h : table.backend.exportRange source start stop after limit = some batch)
    {document : ShardDocument} (hmem : document ∈ batch.documents)
    (hlookup : source.lookup document.key = some columns) :
    document.data = marshalColumns columns := by
  obtain ⟨value, hvalue, -, hencode⟩ := (exported_of_exportRange h).sound document hmem
  have hcolumns : value = columns := Option.some.inj (hvalue.symm.trans hlookup)
  exact (Option.some.inj hencode).symm.trans (congrArg marshalColumns hcolumns)

/-- Every row is exported from some table. -/
theorem exists_exportRange (table : SqlTable) (key : Bytes) (columns : Columns) :
    ∃ source start stop after limit batch,
      table.backend.exportRange source start stop after limit = some batch ∧
      ∃ document ∈ batch.documents, source.lookup document.key = some columns := by
  have hrange : exportable key (key ++ [0]) [] key = true := by
    have hlt : key < key ++ [0] := by
      induction key with
      | nil => decide
      | cons c rest ih => exact List.cons_lt_cons_iff.mpr (Or.inr ⟨rfl, ih⟩)
    simp [exportable, inRange, hlt]
  refine ⟨SortedTable.empty.put key columns, key, key ++ [0], [], 1,
    ⟨[⟨key, marshalColumns columns⟩], key, false⟩, ?_, ⟨key, marshalColumns columns⟩,
    List.mem_cons_self, ?_⟩
  · simp [Backend.exportRange, SortedTable.scan, SortedTable.put, SortedTable.empty,
      SortedTable.putRow, hrange, Backend.documents, backend]
  · rw [SortedTable.lookup_put, if_pos rfl]

theorem restored_iff_importColumns (table : SqlTable) (row : Row) :
    table.Restored row ↔ table.importColumns (marshalColumns row.columns) = some row.columns := by
  constructor
  · intro hrestored
    obtain ⟨source, start, stop, after, limit, batch, hexport, document, hmem, hlookup⟩ :=
      exists_exportRange table (table.keyOf row.columns) row.columns
    rw [← data_of_exportRange hexport hmem hlookup]
    exact importAll_empty_iff.mp
      (hrestored source start stop after limit batch hexport document hmem hlookup)
  · intro himport source start stop after limit batch hexport document hmem hlookup
    rw [importAll_empty_iff, data_of_exportRange hexport hmem hlookup]
    exact himport

/-- **Row fidelity.** A row arrives as it was exactly if its integers are floats and its byte
strings UTF-8, and the database returns these values as it is given them. -/
theorem restored_iff (table : SqlTable) (h : table.Exact) (row : Row) :
    table.Restored row ↔
      (∀ column ∈ row.columns.rows, column.2.Lossless) ∧
        table.insert (row.columns.mapValues parameter) = some row.columns := by
  rw [restored_iff_importColumns, importColumns_eq_self_iff h]

/-- The account `a`, with the digest of its last statement. -/
def account (balance : Int64) (digest : Option Bytes) : Row where
  columns :=
    { rows :=
        [(ascii "balance", .integer balance), (ascii "digest", (digest.map .bytes).getD .null),
          (ascii "id", .text ⟨ascii "a", by decide +kernel⟩)]
      sorted := by
        have hkeys : [ascii "balance", ascii "digest", ascii "id"].Pairwise (· < ·) := by
          decide +kernel
        exact List.pairwise_map.mp hkeys }
  named := by
    intro column hcolumn
    simp only [List.mem_cons, List.not_mem_nil, or_false] at hcolumn
    rcases hcolumn with rfl | rfl | rfl
    · rfl
    · rfl
    · rfl
  plain := by
    intro column hcolumn
    simp only [List.mem_cons, List.not_mem_nil, or_false] at hcolumn
    rcases hcolumn with rfl | rfl | rfl
    · rfl
    · cases digest <;> rfl
    · rfl

/-- What a column without a type of its own returns. -/
def untyped : Any → SqlValue
  | .nil => .null
  | .bool value => .integer (if value then 1 else 0)
  | .float value =>
      if IsInt64 value then .integer (Int64.ofInt value) else .real (intText value) (intText value)
  | .decimal text => .real text text
  | .string text => if h : Utf8.valid text = true then .text ⟨text, h⟩ else .bytes text
  | .composite => .null

/-- A table of such columns. -/
def accounts : SqlTable where
  keyColumn := ascii "id"
  insert fields := some (fields.mapValues untyped)

theorem exact_accounts : accounts.Exact where
  integer := by
    intro fields stored name number value hinsert hfield hstored
    cases hinsert
    obtain ⟨any, hany, hvalue⟩ := SortedTable.lookup_mapValues_eq_some_iff.mp hstored
    obtain rfl : any = .float number := Option.some.inj (hany.symm.trans hfield)
    rw [untyped] at hvalue
    split_ifs at hvalue with hrange
    rw [← SqlValue.integer.inj hvalue, Int64.toInt_ofInt_of_le hrange.1 hrange.2]
  bytes := by
    intro fields stored name text value hinsert hfield hstored
    cases hinsert
    obtain ⟨any, hany, hvalue⟩ := SortedTable.lookup_mapValues_eq_some_iff.mp hstored
    obtain rfl : any = .string text := Option.some.inj (hany.symm.trans hfield)
    rw [untyped] at hvalue
    split_ifs at hvalue
    exact (SqlValue.bytes.inj hvalue).symm

theorem restored_account : accounts.Restored (account 4503599627370497 none) := by
  refine (restored_iff accounts exact_accounts (account 4503599627370497 none)).mpr ⟨?_, ?_⟩
  · intro column hcolumn
    simp only [account, List.mem_cons, List.not_mem_nil, or_false] at hcolumn
    rcases hcolumn with rfl | rfl | rfl
    · exact (BinaryFloat.round_eq_self_iff _ _).mp (by decide +kernel)
    · trivial
    · trivial
  · rfl

/-- The balance 2^53 + 1 is read as the float 2^53, and the byte 0xFF as a replacement
character, so that no exact database returns them. -/
theorem not_restored_large_binary :
    accounts.Exact ∧ ∀ table : SqlTable, table.Exact →
      ¬table.Restored (account 9007199254740993 none) ∧
        ¬table.Restored (account 0 (some [0xFF])) := by
  refine ⟨exact_accounts, fun table h => ⟨?_, ?_⟩⟩
  · intro hrestored
    rw [restored_iff_importColumns, importColumns_eq_self_iff h] at hrestored
    have hbalance : BinaryFloat.Representable float64Bits 9007199254740993 :=
      hrestored.1 _ List.mem_cons_self
    rw [← BinaryFloat.round_eq_self_iff] at hbalance
    exact absurd hbalance (by decide +kernel)
  · intro hrestored
    rw [restored_iff_importColumns, importColumns_eq_self_iff h] at hrestored
    have hdigest : Utf8.valid [0xFF] = true :=
      hrestored.1 _ (List.mem_cons_of_mem _ List.mem_cons_self)
    exact absurd hdigest (by decide +kernel)

end SqlTable

end Ubiq.Shard
