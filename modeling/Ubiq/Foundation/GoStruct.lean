import Ubiq.Foundation.GoJson

/-!
# Structs of `encoding/json`

A struct is written as an object with one member for every field that is not omitted, in the order
of the fields. It is read member by member: a key names the field with this name, or else one with
the same name up to case; an unknown key is skipped; a later member overwrites an earlier one.
-/

namespace Ubiq.Foundation.GoJson

open Json (Chunk Value Member)

/-- The upper case of an ASCII letter. -/
def upper (c : UInt8) : UInt8 := if 97 ≤ c ∧ c ≤ 122 then c - 32 else c

/-- `foldName`: the long s and the Kelvin sign fold to ASCII letters. -/
def foldName (text : Bytes) : Bytes :=
  (Utf8.pieces text).flatMap fun piece =>
    match piece.bytes with
    | [c] => [upper c]
    | [a, b] => if a = 0xC5 ∧ b = 0xBF then [83] else [a, b]
    | [a, b, c] => if a = 0xE2 ∧ b = 0x84 ∧ c = 0xAA then [75] else [a, b, c]
    | bytes => bytes

/-- The field that a key names. -/
def findField {φ : Type} (all : List φ) (name : φ → Bytes) (key : Bytes) : Option φ :=
  (all.find? fun field => name field = key).or
    (all.find? fun field => foldName (name field) = foldName key)

/-- The fields of a struct type. -/
structure Struct (φ : Type) where
  all : List φ
  name : φ → Bytes
  found : ∀ field ∈ all, findField all name (name field) = some field
  plain : ∀ field ∈ all, ∀ c ∈ name field, c ≤ 0x7F ∧ (Chunk.plain c).wellFormed = true

namespace Struct

variable {φ σ : Type} (struct : Struct φ)

/-- The members of a struct, without the omitted fields. -/
def members (value : φ → Option (Value (List Chunk))) : List (List Chunk × Value (List Chunk)) :=
  struct.all.filterMap fun field =>
    (value field).map fun result => (Json.plainBody (struct.name field), result)

/-- One member of an object. -/
def readMember (store : σ → φ → Member → Option σ) (state : σ) (member : Member) : Option σ :=
  match unquote member.key with
  | none => none
  | some key =>
      match findField struct.all struct.name key with
      | none => some state
      | some field => store state field member

/-- The object in front of a text, read into a struct that holds `old`. -/
def read (store : σ → φ → Member → Option σ) (old : σ) (source : Bytes) : Option σ :=
  match Json.members source with
  | none => none
  | some found => found.foldlM (struct.readMember store) old

/-- `Unmarshal` into a struct that holds `old`; `null` leaves it. -/
def readStruct (store : σ → φ → Member → Option σ) (old : σ) (member : Member) : Option σ :=
  match member.value with
  | .null => some old
  | .object _ => struct.read store old member.source
  | _ => none

/-- `Unmarshal` into a pointer to a struct; a nil pointer gets a new struct `zero`. -/
def readPointer (store : σ → φ → Member → Option σ) (zero : σ) (old : Option σ)
    (member : Member) : Option (Option σ) :=
  match member.value with
  | .null => some none
  | .object _ => (struct.read store (old.getD zero) member.source).map some
  | _ => none

theorem wellFormed_members {value : φ → Option (Value (List Chunk))}
    (h : ∀ field ∈ struct.all, ∀ result ∈ value field, Json.WellFormed result) :
    Json.WellFormed (.object (struct.members value)) := by
  rw [Json.wellFormed_object]
  intro member hmember
  obtain ⟨field, hfield, hvalue⟩ := List.mem_filterMap.mp hmember
  obtain ⟨result, hresult, rfl⟩ := Option.map_eq_some_iff.mp hvalue
  exact ⟨Json.wellFormed_plainBody fun c hc => (struct.plain field hfield c hc).2,
    h field hfield result hresult⟩

/-- One written field. -/
theorem readMember_written (store : σ → φ → Member → Option σ) (state : σ) {field : φ}
    (h : field ∈ struct.all) (source : Bytes) (result : Value (List Chunk)) :
    struct.readMember store state ⟨Json.plainBody (struct.name field), source, result⟩ =
      store state field ⟨Json.plainBody (struct.name field), source, result⟩ := by
  have hkey : unquote (Json.plainBody (struct.name field)) = some (struct.name field) :=
    unquote_plainBody fun c hc => (struct.plain field h c hc).1
  simp only [readMember, hkey, struct.found field h]

/-- The step that stores a field if it is written. -/
def storeField (store : σ → φ → Member → Option σ) (value : φ → Option (Value (List Chunk)))
    (state : σ) (field : φ) : Option σ :=
  match value field with
  | none => some state
  | some result =>
      store state field ⟨Json.plainBody (struct.name field), Json.render result, result⟩

/-- The members that some of the fields were written to are read in turn. -/
theorem foldlM_written (store : σ → φ → Member → Option σ)
    (value : φ → Option (Value (List Chunk))) {fields : List φ} (h : fields ⊆ struct.all)
    (old : σ) :
    ((fields.filterMap fun field =>
        (value field).map fun result => (Json.plainBody (struct.name field), result)).map
          fun entry => Member.mk entry.1 (Json.render entry.2) entry.2).foldlM
        (struct.readMember store) old =
      fields.foldlM (struct.storeField store value) old := by
  induction fields generalizing old with
  | nil => rfl
  | cons field fields ih =>
      obtain ⟨hfield, hrest⟩ := List.cons_subset.mp h
      cases hvalue : value field with
      | none => simp [hvalue, storeField, ih hrest]
      | some result =>
          simp [hvalue, storeField, ih hrest, struct.readMember_written store old hfield]

/-- **A written struct is read field by field.** -/
theorem read_render {value : φ → Option (Value (List Chunk))}
    (h : ∀ field ∈ struct.all, ∀ result ∈ value field, Json.WellFormed result)
    (store : σ → φ → Member → Option σ) (old : σ) :
    struct.read store old (Json.render (.object (struct.members value))) =
      struct.all.foldlM (struct.storeField store value) old := by
  rw [read, Json.members_render (struct.wellFormed_members h)]
  exact struct.foldlM_written store value (List.Subset.refl _) old

end Struct
end Ubiq.Foundation.GoJson
