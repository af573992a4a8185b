import Ubiq.Foundation.Format

/-!
# Event streams

The line grammar of server-sent events. A line ends with LF, CR or CR LF; it holds the name of
a field, a colon, one space that may be missing, and the value. An empty line dispatches the event
that the fields before it make up.

* `lines_append` takes one line off a text, and `field_append` reads one field.
* `id_of_mem_events` says that an id never spans lines, whatever the text is.
-/

namespace Ubiq.Foundation.EventStream

/-! ## Lines -/

/-- The other byte that ends a line. -/
def carriageReturn : UInt8 := 13

/-- A text without an end of a line. -/
def OneLine (text : Bytes) : Prop :=
  ∀ byte ∈ text, byte ≠ newline ∧ byte ≠ carriageReturn

instance instDecidableOneLine (text : Bytes) : Decidable (OneLine text) :=
  List.decidableBAll _ text

/-- The lines of a text behind the start of a line. Directly behind a CR an LF belongs to the same
end of a line. What follows the last end of a line is dropped. -/
def linesFrom (returned : Bool) (line : Bytes) : Bytes → List Bytes
  | [] => []
  | byte :: rest =>
      if byte = carriageReturn then line :: linesFrom true [] rest
      else if byte = newline then
        -- behind a CR the line is still empty and has been counted
        if returned then linesFrom false line rest else line :: linesFrom false [] rest
      else linesFrom false (line ++ [byte]) rest

/-- The lines of a text. -/
def lines (text : Bytes) : List Bytes :=
  linesFrom false [] text

variable {text line name id : Bytes} {keepsId : Bytes → Bool}

theorem linesFrom_append (h : OneLine text) (line rest : Bytes) :
    linesFrom false line (text ++ newline :: rest) = (line ++ text) :: lines rest := by
  induction text generalizing line with
  | nil =>
      rw [List.nil_append, List.append_nil, linesFrom, if_neg (by decide), if_pos rfl]
      rfl
  | cons byte text ih =>
      obtain ⟨hbyte, htext⟩ := List.forall_mem_cons.mp h
      rw [List.cons_append, linesFrom, if_neg hbyte.2, if_neg hbyte.1, ih htext, List.append_assoc,
        List.singleton_append]

/-- The first line of a text. -/
theorem lines_append (h : OneLine text) (rest : Bytes) :
    lines (text ++ newline :: rest) = text :: lines rest :=
  linesFrom_append h [] rest

theorem oneLine_nil : OneLine [] := List.forall_mem_nil _

theorem OneLine.append {first second : Bytes} (hfirst : OneLine first) (hsecond : OneLine second) :
    OneLine (first ++ second) :=
  List.forall_mem_append.mpr ⟨hfirst, hsecond⟩

theorem OneLine.of_subset {part : Bytes} (h : OneLine text) (hpart : part ⊆ text) :
    OneLine part := fun byte hbyte => h byte (hpart hbyte)

theorem oneLine_of_mem_linesFrom {returned : Bool} (h : OneLine line) :
    ∀ found ∈ linesFrom returned line text, OneLine found := by
  induction text generalizing returned line with
  | nil => exact List.forall_mem_nil _
  | cons byte rest ih =>
      rw [linesFrom]
      split
      · exact List.forall_mem_cons.mpr ⟨h, ih oneLine_nil⟩
      · next hreturn =>
          split
          · split
            · exact ih h
            · exact List.forall_mem_cons.mpr ⟨h, ih oneLine_nil⟩
          · next hnewline =>
              exact ih (h.append (List.forall_mem_singleton.mpr ⟨hnewline, hreturn⟩))

/-! ## Fields -/

/-- The name and the value of a field; a line without a colon is a name. -/
def field (line : Bytes) : Bytes × Bytes :=
  match Format.readUntil 58 line with
  | none => (line, [])
  | some (name, value) => (name, if value.head? = some 32 then value.tail else value)

theorem field_append (h : 58 ∉ name) (value : Bytes) :
    field (name ++ 58 :: 32 :: value) = (name, value) := by
  rw [field, Format.readUntil_append h]
  rfl

theorem field_subset (line : Bytes) : (field line).2 ⊆ line := by
  unfold field
  split
  · exact List.nil_subset line
  · next name value hread =>
      have hvalue : value ⊆ line := by
        rw [← Format.append_of_readUntil hread]
        exact List.Subset.trans (List.subset_cons_self _ _) (List.subset_append_right _ _)
      dsimp only
      split
      · exact List.Subset.trans (List.tail_subset value) hvalue
      · exact hvalue

/-! ## Events -/

/-- An event as a client sees it. -/
structure Event where
  id : Option Bytes
  name : Bytes
  data : Bytes
deriving DecidableEq, Repr

/-- What has been read of the next event; the id stays when an event is dispatched. -/
structure Pending where
  id : Option Bytes := none
  name : Bytes := []
  data : List Bytes := []
deriving DecidableEq, Repr

/-- A client may ignore an id, as one with a NUL byte; `keepsId` says which ids it takes. -/
def Pending.take (keepsId : Bytes → Bool) (pending : Pending) (line : Bytes) : Pending :=
  let (name, value) := field line
  if name = ascii "id" then
    if keepsId value then { pending with id := some value } else pending
  else if name = ascii "event" then { pending with name := value }
  else if name = ascii "data" then { pending with data := pending.data ++ [value] }
  else pending

/-- An event without data is dropped. -/
def Pending.dispatch (pending : Pending) : Option Event :=
  if pending.data = [] then none
  else some
    { id := pending.id
      name := if pending.name = [] then ascii "message" else pending.name
      data := List.intercalate [newline] pending.data }

/-- The events of the given lines. -/
def eventsFrom (keepsId : Bytes → Bool) : Pending → List Bytes → List Event
  | _, [] => []
  | pending, line :: rest =>
      if line = [] then pending.dispatch.toList ++ eventsFrom keepsId { id := pending.id } rest
      else eventsFrom keepsId (pending.take keepsId line) rest

/-- The events of a stream. -/
def events (keepsId : Bytes → Bool) (text : Bytes) : List Event :=
  eventsFrom keepsId {} (lines text)

section

variable (pending : Pending) (value : Bytes)

theorem take_id (h : keepsId value = true) :
    pending.take keepsId (ascii "id: " ++ value) = { pending with id := some value } := by
  have hline : ascii "id: " ++ value = ascii "id" ++ 58 :: 32 :: value := rfl
  rw [hline, Pending.take, field_append (by decide)]
  exact (if_pos rfl).trans (if_pos h)

theorem take_event :
    pending.take keepsId (ascii "event: " ++ value) = { pending with name := value } := by
  have hline : ascii "event: " ++ value = ascii "event" ++ 58 :: 32 :: value := rfl
  rw [hline, Pending.take, field_append (by decide)]
  exact (if_neg (by decide)).trans (if_pos rfl)

theorem take_data :
    pending.take keepsId (ascii "data: " ++ value) =
      { pending with data := pending.data ++ [value] } := by
  have hline : ascii "data: " ++ value = ascii "data" ++ 58 :: 32 :: value := rfl
  rw [hline, Pending.take, field_append (by decide)]
  exact (if_neg (by decide)).trans ((if_neg (by decide)).trans (if_pos rfl))

/-- A line that is not empty is a field. -/
theorem eventsFrom_cons (h : line ≠ []) (rest : List Bytes) :
    eventsFrom keepsId pending (line :: rest) =
      eventsFrom keepsId (pending.take keepsId line) rest := by
  rw [eventsFrom, if_neg h]

end

/-- **One event**: its three fields on a line each, and an empty line. -/
theorem events_fields {data : Bytes} (hid : OneLine id) (hkept : keepsId id = true)
    (hname : OneLine name) (hnamed : name ≠ []) (hdata : OneLine data) :
    events keepsId (ascii "id: " ++ id ++ newline :: (ascii "event: " ++ name ++ newline ::
      (ascii "data: " ++ data ++ newline :: [newline]))) = [⟨some id, name, data⟩] := by
  have hfirst : OneLine (ascii "id: ") := by decide +kernel
  have hsecond : OneLine (ascii "event: ") := by decide +kernel
  have hthird : OneLine (ascii "data: ") := by decide +kernel
  have hlast : lines [newline] = [[]] := by decide
  rw [events, lines_append (hfirst.append hid), lines_append (hsecond.append hname),
    lines_append (hthird.append hdata), hlast]
  rw [eventsFrom_cons _ (by simp [ascii]), take_id _ _ hkept, eventsFrom_cons _ (by simp [ascii]),
    take_event, eventsFrom_cons _ (by simp [ascii]), take_data]
  have hdispatch : Pending.dispatch ⟨some id, name, [data]⟩ = some ⟨some id, name, data⟩ := by
    simp [Pending.dispatch, hnamed, List.intercalate]
  show eventsFrom keepsId ⟨some id, name, [data]⟩ [[]] = _
  rw [eventsFrom, if_pos rfl, hdispatch]
  rfl

/-- An event without an id, in front of other ones. -/
theorem events_frame {data : Bytes} (hname : OneLine name) (hnamed : name ≠ [])
    (hdata : OneLine data) (rest : Bytes) :
    events keepsId (ascii "event: " ++ name ++ newline ::
      (ascii "data: " ++ data ++ newline :: newline :: rest)) =
        ⟨none, name, data⟩ :: events keepsId rest := by
  have hfirst : OneLine (ascii "event: ") := by decide +kernel
  have hsecond : OneLine (ascii "data: ") := by decide +kernel
  have hblank : lines (newline :: rest) = [] :: lines rest := lines_append oneLine_nil rest
  rw [events, lines_append (hfirst.append hname), lines_append (hsecond.append hdata), hblank,
    eventsFrom_cons _ (by simp [ascii]), take_event, eventsFrom_cons _ (by simp [ascii]), take_data]
  simp [eventsFrom, Pending.dispatch, hnamed, List.intercalate, events]

/-- The id after a line is the id before it, or one that the client takes from the line. -/
theorem id_take {pending : Pending} (h : id ∈ (pending.take keepsId line).id) :
    id ∈ pending.id ∨ id ⊆ line ∧ keepsId id = true := by
  unfold Pending.take at h
  dsimp only at h
  split at h
  · split at h
    · next hkept =>
        obtain rfl : (field line).2 = id := Option.some.inj h
        exact Or.inr ⟨field_subset line, hkept⟩
    · exact Or.inl h
  · split at h
    · exact Or.inl h
    · split at h <;> exact Or.inl h

/-- **Run lemma.** The id of an event comes from one line, and the client takes it. -/
theorem id_of_mem_eventsFrom {pending : Pending} {found : List Bytes}
    (hpending : ∀ id ∈ pending.id, OneLine id ∧ keepsId id = true)
    (hfound : ∀ line ∈ found, OneLine line) :
    ∀ event ∈ eventsFrom keepsId pending found, ∀ id ∈ event.id,
      OneLine id ∧ keepsId id = true := by
  induction found generalizing pending with
  | nil => exact List.forall_mem_nil _
  | cons line rest ih =>
      obtain ⟨hline, hrest⟩ := List.forall_mem_cons.mp hfound
      intro event hevent id hid
      rw [eventsFrom] at hevent
      split at hevent
      · rw [List.mem_append, Option.mem_toList] at hevent
        rcases hevent with hdispatched | hlater
        · unfold Pending.dispatch at hdispatched
          split at hdispatched
          · cases hdispatched
          · cases hdispatched
            exact hpending id hid
        · have hafter : ∀ id ∈ ({ id := pending.id } : Pending).id,
              OneLine id ∧ keepsId id = true := hpending
          exact ih hafter hrest event hlater id hid
      · -- a field: only the field `id` changes the id, and its value is a part of the line
        refine ih (fun other hother => ?_) hrest event hevent id hid
        rcases id_take hother with hbefore | ⟨hpart, hkept⟩
        · exact hpending other hbefore
        · exact ⟨hline.of_subset hpart, hkept⟩

/-- The id of an event is on one line, and the client takes it. -/
theorem id_of_mem_events {event : Event} (hevent : event ∈ events keepsId text)
    (hid : event.id = some id) : OneLine id ∧ keepsId id = true := by
  have hnone : ∀ id ∈ ({} : Pending).id, OneLine id ∧ keepsId id = true := by
    intro id hmem
    cases hmem
  exact id_of_mem_eventsFrom hnone (oneLine_of_mem_linesFrom oneLine_nil) event hevent id hid

end Ubiq.Foundation.EventStream
