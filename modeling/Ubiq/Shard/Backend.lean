import Ubiq.Foundation.Format
import Ubiq.Foundation.SortedTable

/-!
# Shard backends

`SQLShardBackend` and `MongoShardBackend`. A backend is a table sorted by its
string key. A document travels as a JSON text: `encode` is what `ExportRange` does
with a row, `decode` what `Import` makes of the text, the key included. The two
engines differ in `Import`: SQL inserts the batch in one transaction and keeps
existing rows, Mongo replaces them one at a time.
-/

namespace Ubiq.Shard

open Foundation

structure ShardDocument where
  key : Bytes
  data : Bytes
deriving DecidableEq, Repr

structure ShardBatch where
  documents : List ShardDocument
  next : Bytes
  done : Bool
deriving DecidableEq, Repr

/-- The two implementations of `ShardBackend`. -/
inductive Engine
  | sql
  | mongo
deriving DecidableEq, Repr

/-- The rows of a backend. -/
abbrev Rows (δ : Type) := SortedTable Bytes δ

/-- An engine with its conversions between rows and JSON. -/
structure Backend (δ : Type) where
  engine : Engine
  encode : Bytes → δ → Option Bytes
  decode : Bytes → Option (Bytes × δ)

variable {δ : Type}

/-- `key >= start AND key < end`. -/
def inRange (start stop key : Bytes) : Bool :=
  start ≤ key ∧ key < stop

/-- The filter of `ExportRange`: in the range and, unless `after` is empty, behind it. -/
def exportable (start stop after key : Bytes) : Bool :=
  inRange start stop key ∧ (after = [] ∨ after < key)

namespace Backend

/-- The documents of exported rows; a row that does not encode fails the export. -/
def documents (backend : Backend δ) : List (Bytes × δ) → Option (List ShardDocument)
  | [] => some []
  | row :: rest =>
      match backend.encode row.1 row.2, backend.documents rest with
      | some data, some later => some (⟨row.1, data⟩ :: later)
      | _, _ => none

def exportRange (backend : Backend δ) (rows : Rows δ) (start stop after : Bytes) (limit : Nat) :
    Option ShardBatch :=
  (backend.documents (rows.scan (exportable start stop after) limit)).map fun documents =>
    { documents := documents
      next := (documents.getLast?.map ShardDocument.key).getD []
      done := documents.length < limit }

/-- One document of an `Import`: `ON CONFLICT DO NOTHING`, or `ReplaceOne` with upsert. -/
def importOne (backend : Backend δ) (rows : Rows δ) (document : ShardDocument) :
    Option (Rows δ) :=
  (backend.decode document.data).map fun (key, value) =>
    match backend.engine with
    | .sql => rows.insertNew key value
    | .mongo => rows.put key value

/-- The transaction of the SQL `Import`. -/
def importAll (backend : Backend δ) (rows : Rows δ) (documents : List ShardDocument) :
    Option (Rows δ) :=
  documents.foldlM backend.importOne rows

end Backend

def countRange (rows : Rows δ) (start stop : Bytes) : Nat :=
  rows.count (inRange start stop)

def deleteRange (rows : Rows δ) (start stop : Bytes) : Rows δ :=
  rows.restrict fun key => !inRange start stop key

/-! ## Facts about the operations -/

/-- The exported text of a row, imported again, is that row. -/
def Survives (source destination : Backend δ) (key : Bytes) (value : δ) : Prop :=
  ∀ data, source.encode key value = some data → destination.decode data = some (key, value)

theorem lookup_deleteRange (rows : Rows δ) (start stop key : Bytes) :
    (deleteRange rows start stop).lookup key =
      if inRange start stop key then none else rows.lookup key := by
  unfold deleteRange
  rw [SortedTable.lookup_restrict]
  cases inRange start stop key <;> rfl

variable {key : Bytes}

theorem inRange_of_exportable {start stop after : Bytes}
    (h : exportable start stop after key = true) : inRange start stop key = true := by
  simp only [exportable, decide_eq_true_eq] at h
  exact h.1

variable {backend : Backend δ} {documents : List ShardDocument}

/-- An export succeeds on its first row and on the rest. -/
theorem documents_cons_eq_some_iff {row : Bytes × δ} {rest : List (Bytes × δ)} :
    backend.documents (row :: rest) = some documents ↔
      ∃ data later, backend.encode row.1 row.2 = some data ∧
        backend.documents rest = some later ∧ ⟨row.1, data⟩ :: later = documents := by
  rw [Backend.documents]
  cases backend.encode row.1 row.2 with
  | none => simp
  | some data => cases backend.documents rest <;> simp

theorem map_encode_of_documents {rows : List (Bytes × δ)}
    (h : backend.documents rows = some documents) :
    rows.map (fun row => (backend.encode row.1 row.2).map (ShardDocument.mk row.1)) =
      documents.map some := by
  induction rows generalizing documents with
  | nil =>
      cases h
      rfl
  | cons row rest ih =>
      obtain ⟨data, later, hdata, hlater, rfl⟩ := documents_cons_eq_some_iff.mp h
      simp [hdata, ih hlater]

variable {document : ShardDocument}

/-- Every document is the text of a row. -/
theorem row_of_document {rows : List (Bytes × δ)} (h : backend.documents rows = some documents)
    (hmem : document ∈ documents) :
    ∃ value, (document.key, value) ∈ rows ∧
      backend.encode document.key value = some document.data := by
  have hsome := List.mem_map_of_mem (f := some) hmem
  rw [← map_encode_of_documents h] at hsome
  obtain ⟨row, hrow, heq⟩ := List.mem_map.mp hsome
  obtain ⟨data, hdata, rfl⟩ := Option.map_eq_some_iff.mp heq
  exact ⟨row.2, hrow, hdata⟩

variable {value : δ}

/-- Every row has its document. -/
theorem document_of_row {rows : List (Bytes × δ)} (h : backend.documents rows = some documents)
    (hmem : (key, value) ∈ rows) :
    ∃ data, ⟨key, data⟩ ∈ documents ∧ backend.encode key value = some data := by
  have hsome := map_encode_of_documents h ▸ List.mem_map_of_mem hmem
  obtain ⟨document, hdocument, heq⟩ := List.mem_map.mp hsome
  obtain ⟨data, hdata, rfl⟩ := Option.map_eq_some_iff.mp heq.symm
  exact ⟨data, hdocument, hdata⟩

/-- **What an export returns**: texts of rows of the range behind the checkpoint, and
of all such rows up to `next`, or of all of them when it is done. -/
structure Exported (backend : Backend δ) (rows : Rows δ) (start stop after : Bytes)
    (batch : ShardBatch) : Prop where
  sound : ∀ document ∈ batch.documents, ∃ value, rows.lookup document.key = some value ∧
    exportable start stop after document.key = true ∧
    backend.encode document.key value = some document.data
  complete : ∀ key value, exportable start stop after key = true →
    rows.lookup key = some value → batch.done = true ∨ batch.next ≠ [] ∧ key ≤ batch.next →
    ∃ data, ⟨key, data⟩ ∈ batch.documents ∧ backend.encode key value = some data

variable {rows : Rows δ}

theorem exported_of_exportRange {start stop after : Bytes} {limit : Nat} {batch : ShardBatch}
    (h : backend.exportRange rows start stop after limit = some batch) :
    Exported backend rows start stop after batch := by
  unfold Backend.exportRange at h
  obtain ⟨documents, hdocuments, rfl⟩ := Option.map_eq_some_iff.mp h
  constructor
  · intro document hmem
    obtain ⟨value, hrow, hencode⟩ := row_of_document hdocuments hmem
    obtain ⟨hpass, hlookup⟩ := SortedTable.mem_scan hrow
    exact ⟨value, hlookup, hpass, hencode⟩
  · intro key value hpass hlookup hseen
    refine document_of_row hdocuments ?_
    rcases hseen with hdone | ⟨hnonempty, hle⟩
    · -- a batch below the limit holds the whole scan
      refine SortedTable.mem_scan_of_short ?_ hpass hlookup
      have hlength := congrArg List.length (map_encode_of_documents hdocuments)
      rw [List.length_map, List.length_map] at hlength
      rw [hlength]
      simpa using hdone
    · -- `next` is the key of the last row of the scan
      obtain ⟨last, hlast⟩ : ∃ last, documents.getLast? = some last :=
        Option.ne_none_iff_exists'.mp fun hnone => hnonempty (by simp [hnone])
      have hnext : key ≤ last.key := by simpa [hlast] using hle
      obtain ⟨lastValue, hlastRow, -⟩ :=
        row_of_document hdocuments (List.mem_of_getLast? hlast)
      exact SortedTable.mem_scan_of_le_last hlastRow hnext hpass hlookup

/-- Whether importing a key writes it: Mongo always, SQL when it is new. -/
def Backend.overwrites (backend : Backend δ) (rows : Rows δ) (key : Bytes) : Bool :=
  backend.engine = .mongo ∨ (rows.lookup key).isNone

variable {next : Rows δ}

/-- **What the import of a document does**: it writes one row, or nothing. -/
theorem lookup_importOne (h : backend.importOne rows document = some next) :
    ∃ key value, backend.decode document.data = some (key, value) ∧
      ∀ other, next.lookup other =
        if other = key ∧ backend.overwrites rows key = true then some value
        else rows.lookup other := by
  unfold Backend.importOne at h
  obtain ⟨⟨key, value⟩, hdecode, rfl⟩ := Option.map_eq_some_iff.mp h
  refine ⟨key, value, hdecode, fun other => ?_⟩
  cases hengine : backend.engine with
  | sql =>
      have hwrites : backend.overwrites rows key = true ↔ rows.lookup key = none := by
        simp [Backend.overwrites, hengine]
      rw [if_congr (and_congr_right fun _ => hwrites) rfl rfl]
      convert SortedTable.lookup_insertNew rows key value other
  | mongo =>
      have hwrites : backend.overwrites rows key = true := by
        simp [Backend.overwrites, hengine]
      rw [if_congr (and_iff_left hwrites) rfl rfl]
      convert SortedTable.lookup_put rows key value other

/-- **Import rule.** What every document of a batch preserves, the batch preserves. -/
theorem importAll_induction {motive : Rows δ → Prop}
    (hone : ∀ rows next document, document ∈ documents → motive rows →
      backend.importOne rows document = some next → motive next) (hrows : motive rows)
    (h : backend.importAll rows documents = some next) :
    motive next := by
  induction documents generalizing rows with
  | nil =>
      cases h
      exact hrows
  | cons document rest ih =>
      obtain ⟨middle, hmiddle, hrest⟩ := Option.bind_eq_some_iff.mp h
      exact ih (fun rows next other hmem => hone rows next other (List.mem_cons_of_mem _ hmem))
        (hone _ _ _ List.mem_cons_self hrows hmiddle) hrest

/-- An import removes no key. -/
theorem lookup_eq_none_of_importOne (h : backend.importOne rows document = some next)
    (hnone : next.lookup key = none) : rows.lookup key = none := by
  obtain ⟨written, value, -, hlookup⟩ := lookup_importOne h
  rw [hlookup] at hnone
  split at hnone
  · cases hnone
  · exact hnone

theorem lookup_eq_none_of_importAll (h : backend.importAll rows documents = some next)
    (hnone : next.lookup key = none) : rows.lookup key = none := by
  refine importAll_induction
    (motive := fun after => after.lookup key = none → rows.lookup key = none) ?_ id h hnone
  exact fun before after document _ hbefore hone hafter =>
    hbefore (lookup_eq_none_of_importOne hone hafter)

/-- A row after an import is an old row or comes from a document that was written. -/
theorem lookup_importAll_cases (h : backend.importAll rows documents = some next)
    (hlookup : next.lookup key = some value) :
    rows.lookup key = some value ∨ ∃ document ∈ documents,
      backend.decode document.data = some (key, value) ∧ backend.overwrites rows key = true := by
  refine (importAll_induction (motive := fun after =>
    (after.lookup key = none → rows.lookup key = none) ∧
      (after.lookup key = some value → rows.lookup key = some value ∨ ∃ document ∈ documents,
        backend.decode document.data = some (key, value) ∧ backend.overwrites rows key = true))
    ?_ ⟨id, Or.inl⟩ h).2 hlookup
  rintro before after document hmem ⟨hnone, hsome⟩ hone
  refine ⟨fun hafter => hnone (lookup_eq_none_of_importOne hone hafter), fun hafter => ?_⟩
  obtain ⟨written, document', hdecode, hlookup⟩ := lookup_importOne hone
  rw [hlookup] at hafter
  split at hafter
  · next hwrite =>
      cases hafter
      obtain ⟨rfl, hover⟩ := hwrite
      refine Or.inr ⟨document, hmem, hdecode, ?_⟩
      -- a key that is absent now was absent at the start of the batch
      simp only [Backend.overwrites, Option.isNone_iff_eq_none, decide_eq_true_eq] at hover ⊢
      exact hover.imp_right hnone
  · exact hsome hafter

/-- Every imported document leaves its key behind. -/
theorem lookup_importAll_ne_none (h : backend.importAll rows documents = some next)
    (hmem : document ∈ documents) (hdecode : backend.decode document.data = some (key, value)) :
    next.lookup key ≠ none := by
  induction documents generalizing rows with
  | nil => cases hmem
  | cons first rest ih =>
      obtain ⟨middle, hmiddle, hrest⟩ := Option.bind_eq_some_iff.mp h
      rcases List.mem_cons.mp hmem with rfl | hlater
      · intro hnone
        have hgone : middle.lookup key = none := lookup_eq_none_of_importAll hrest hnone
        obtain ⟨written, other, hother, hlookup⟩ := lookup_importOne hmiddle
        obtain ⟨rfl, rfl⟩ : key = written ∧ value = other := by
          simpa using hdecode.symm.trans hother
        -- the key was absent before, so either engine has written it
        have hbefore := lookup_eq_none_of_importOne hmiddle hgone
        simp [hlookup, Backend.overwrites, hbefore] at hgone
      · exact ih hrest hlater

/-! ## Tables compared on a range -/

/-- On a range, every row of one table is a row of the other. -/
def Within (range : Bytes → Bool) (small large : Rows δ) : Prop :=
  ∀ key value, range key = true → small.lookup key = some value →
    large.lookup key = some value

namespace Within

variable {range : Bytes → Bool} {first second third : Rows δ}

theorem refl (range : Bytes → Bool) (rows : Rows δ) : Within range rows rows :=
  fun _ _ _ hlookup => hlookup

theorem trans (h : Within range first second) (h' : Within range second third) :
    Within range first third :=
  fun key value hkey hlookup => h' key value hkey (h key value hkey hlookup)

theorem of_empty (h : ∀ key, range key = true → first.lookup key = none) :
    Within range first second :=
  fun key value hkey hlookup => by simp [h key hkey] at hlookup

theorem ne_none (h : Within range first second) (hkey : range key = true)
    (hlookup : first.lookup key ≠ none) : second.lookup key ≠ none := by
  obtain ⟨value, hvalue⟩ := Option.ne_none_iff_exists'.mp hlookup
  simp [h key value hkey hvalue]

theorem count_eq (h : Within range first second) (h' : Within range second first) :
    first.count range = second.count range :=
  SortedTable.count_congr fun _ hkey => ⟨h.ne_none hkey, h'.ne_none hkey⟩

/-- A part with as many rows is the whole. -/
theorem of_count_eq (h : Within range first second)
    (hcount : second.count range = first.count range) : Within range second first := by
  intro key value hkey hlookup
  have hsome : first.lookup key ≠ none :=
    SortedTable.lookup_ne_none_of_count_eq (fun k htest => h.ne_none htest) hcount hkey
      (by simp [hlookup])
  obtain ⟨other, hother⟩ := Option.ne_none_iff_exists'.mp hsome
  have heq : some value = some other := hlookup.symm.trans (h key other hkey hother)
  rw [hother, heq]

theorem deleteRange (h : Within range first second) (start stop : Bytes) :
    Within range (deleteRange first start stop) second := by
  intro key value hkey hlookup
  rw [lookup_deleteRange] at hlookup
  split at hlookup
  · cases hlookup
  · exact h key value hkey hlookup

/-- Tables within each other agree. -/
theorem antisymm (h : Within range first second) (h' : Within range second first)
    (hkey : range key = true) : first.lookup key = second.lookup key :=
  Option.ext fun value => ⟨h key value hkey, h' key value hkey⟩

end Within

/-! ## A table of two text columns -/

/-- The JSON object of a row with the columns `body` and `id`, sorted by name. -/
def textColumns : Format (Bytes × Bytes) :=
  .seq (.tagged (ascii "\x7b\"body\":") (.closed .quoted (ascii ",")))
    (.tagged (ascii "\"id\":") (.closed .quoted (ascii "\x7d")))

/-- A backend whose documents are texts. -/
def textTable (engine : Engine) : Backend Bytes where
  engine := engine
  encode key body := some (textColumns.print (body, key))
  decode text := (textColumns.read text).map fun row => (row.1.2, row.1.1)

theorem survives_textTable (first second : Engine) (key body : Bytes) :
    Survives (textTable first) (textTable second) key body := by
  rintro data ⟨⟩
  have hread := textColumns.read_print (body, key) []
  rw [List.append_nil] at hread
  show (textColumns.read _).map _ = _
  rw [hread, Option.map_some]

end Ubiq.Shard
