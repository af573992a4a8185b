import Ubiq.Control.Outbox
import Ubiq.Security.DigestTransport

/-!
# Ingested events and their transports

`Server.ingest` stores an event, publishes it on a transport and, if that fails, keeps
it in the outbox, from which `RunMaintenance` publishes it later. The state of the
server is the database with the outbox, together with what the calls have done so far:
the events that were accepted for a transport, and the calls of `Publish` that returned
nil. The SQL statements succeed; the results of the transports are part of the schedule.

An event whose transport is not in the registry is stored, and `ingest` returns before it
reaches the outbox. `covered_iff` says that no other event gets lost.
-/

namespace Ubiq.Ingest

open Foundation
open Message
open Control

/-- `Server`, with the names in its registry. -/
structure Server where
  json : Json
  registry : List Bytes
  defaultTransport : Bytes := []

/-- An envelope on its way to a transport. -/
structure Routed where
  envelope : Envelope
  transport : Bytes
deriving DecidableEq, Repr

/-- The tables of the server and what its calls have done. -/
structure State where
  db : Database := {}
  outbox : Outbox := {}
  /-- The events that a call of `ingest` created, with their transport unless it is empty. -/
  accepted : List Routed := []
  /-- The calls of a transport's `Publish` that returned nil. -/
  published : List Routed := []

/-- `_ = s.Store.MarkOutboxDelivered(ctx, record.Seq, now)`. -/
def State.marked (state : State) (record : OutboxRecord) (nowMs : Int) : State :=
  { state with outbox := (state.outbox.markOutboxDelivered record.seq nowMs).1 }

/-- The same after the transport has published the record. -/
def State.delivered (state : State) (record : OutboxRecord) (envelope : Envelope)
    (nowMs : Int) : State :=
  { state.marked record nowMs with
    published := state.published ++ [⟨envelope, record.transport⟩] }

/-- The errors of `ingest`; `transport` is one of a transport's `Publish`. -/
inductive IngestError
  | store (err : Control.Error)
  | unknownTransport (name : Bytes)
  | transport
deriving DecidableEq, Repr

/-- Their messages, where the server or the store makes them. -/
def IngestError.message (quote : Bytes → Bytes) : IngestError → Option Bytes
  | .store err => err.message quote
  | .unknownTransport name => some (ascii "unknown transport " ++ quote name)
  | .transport => none

/-- What `ingest` returns. -/
structure Reply where
  stored : Option Envelope := none
  created : Bool := false
  err : Option IngestError := none
deriving DecidableEq, Repr

/-- The results of `ingest` for an event that is dispatched; without a transport the
envelope is not returned. -/
def Reply.ofDispatch (stored : Envelope) (created : Bool) : Option IngestError → Reply
  | some (.unknownTransport name) => { err := some (.unknownTransport name) }
  | err => { stored := some stored, created := created, err := err }

/-- `Store.Publish` with its second statement. -/
def storePublish (json : Json) (db : Database) (envelope : Envelope) (now : Int) : Effect :=
  let first := publish json db envelope now false
  match first.pending with
  | [] => first
  | next :: _ =>
      let second := resume json first.db next false
      { db := second.db
        reply :=
          match first.reply with
          | .inFlight => second.reply
          | reply => reply }

namespace Server

/-- `if transport=="" {transport=s.DefaultTransport}`. -/
def resolve (server : Server) (transport : Bytes) : Bytes :=
  if transport = [] then server.defaultTransport else transport

/-- What `ingest` does with a created event and its transport. -/
def dispatch (server : Server) (state : State) (routed : Routed) (publishOk : Bool)
    (sentAtMs : Int) : State × Option IngestError :=
  if routed.transport ∈ server.registry then
    if publishOk then ({ state with published := state.published ++ [routed] }, none)
    else
      let raw := (server.json.marshal routed.envelope).getD []
      match state.outbox.enqueueOutbox routed.envelope.id routed.transport raw (sentAtMs + 1000) with
      | .ok outbox => ({ state with outbox := outbox }, some .transport)
      | .error _ => (state, some .transport)
  else (state, some (.unknownTransport routed.transport))

/-- `ingest`; `sentAtMs` is the clock when the transport has failed. -/
def ingest (server : Server) (state : State) (envelope : Envelope) (transport : Bytes)
    (nowMs : Int) (publishOk : Bool) (sentAtMs : Int) : State × Reply :=
  let effect := storePublish server.json state.db envelope nowMs
  let state := { state with db := effect.db }
  match effect.reply with
  | .published stored created =>
      let name := server.resolve transport
      if name ≠ [] ∧ created = true then
        let routed : Routed := ⟨stored, name⟩
        let accepted := { state with accepted := state.accepted ++ [routed] }
        let sent := server.dispatch accepted routed publishOk sentAtMs
        (sent.1, .ofDispatch stored created sent.2)
      else (state, { stored := some stored, created := created })
  | .failed err => (state, { err := some (.store err) })
  | _ => (state, {})

/-- The status that `handlePublish` answers: `body` is the decoded body of the request.
It passes the event of the path and the `transport` of the query on. -/
def handlePublish (server : Server) (state : State) (pathEvent : Bytes) (body : Option Envelope)
    (transport : Bytes) (nowMs : Int) (publishOk : Bool) (sentAtMs : Int) : State × Nat :=
  match body with
  | none => (state, 400)
  | some envelope =>
      if envelope.event ≠ pathEvent then (state, 400)
      else
        let result := server.ingest state envelope transport nowMs publishOk sentAtMs
        match result.2.err, result.2.created with
        | some _, _ => (result.1, 502)
        | none, true => (result.1, 202)
        | none, false => (result.1, 200)

/-- The loop over the outbox: `budget` iterations are left, and `outcomes` are the results
of the calls of `Publish`. -/
def drain (server : Server) (nowMs : Int) : Nat → List Bool → State → State
  | 0, _, state => state
  | budget + 1, outcomes, state =>
      match state.outbox.nextOutbox nowMs with
      | none => state
      | some record =>
          match server.json.unmarshal record.payload with
          | none => server.drain nowMs budget outcomes (state.marked record nowMs)
          | some envelope =>
              if record.transport ∈ server.registry ∧ outcomes.head? = some true then
                server.drain nowMs budget outcomes.tail (state.delivered record envelope nowMs)
              else state

/-- A tick of `RunMaintenance`. -/
def maintain (server : Server) (state : State) (nowMs : Int) (outcomes : List Bool) : State :=
  server.drain nowMs 64 outcomes
    { state with db := (requeueExpired state.db nowMs false).db }

end Server

/-- A call of `ingest`, or a tick. -/
inductive Action
  | ingest (envelope : Envelope) (transport : Bytes) (nowMs : Int) (publishOk : Bool)
      (sentAtMs : Int)
  | tick (nowMs : Int) (outcomes : List Bool)
deriving DecidableEq, Repr

/-- The state after a call. -/
def Server.step (server : Server) (state : State) : Action → State
  | .ingest envelope transport nowMs publishOk sentAtMs =>
      (server.ingest state envelope transport nowMs publishOk sentAtMs).1
  | .tick nowMs outcomes => server.maintain state nowMs outcomes

/-! ## What may happen to an accepted event -/

/-- `encoding/json` as documented: `Unmarshal` reads what `Marshal` has written, and empty
input is an error. -/
structure Codec (json : Json) : Prop where
  reads : ∀ envelope raw, json.marshal envelope = some raw → (json.unmarshal raw).isSome
  nil : json.unmarshal [] = none

theorem codec_encodingJson : Codec Security.encodingJson where
  reads envelope raw h := by
    obtain ⟨hrange, hmarshal⟩ := Security.encodingJson_marshal_iff.mp h
    obtain ⟨payload, hread⟩ := unmarshal_of_marshal hrange hmarshal
    exact Option.isSome_of_eq_some hread
  nil := rfl

/-- The store has no event with the key or the id of the envelope and can take it. -/
def Fresh (json : Json) (db : Database) (envelope : Envelope) : Prop :=
  envelope.validate json.valid = .ok () ∧ (json.marshal envelope).isSome = true ∧
    ∀ row ∈ db.events, row.idempotencyKey ≠ envelope.idempotencyKey ∧ row.id ≠ envelope.id

instance (json : Json) (db : Database) (envelope : Envelope) :
    Decidable (Fresh json db envelope) :=
  inferInstanceAs (Decidable (_ ∧ _ ∧ _))

/-- The stored envelope itself, or what its JSON is read back as. -/
def CopyOf (json : Json) (stored copy : Envelope) : Prop :=
  copy = stored ∨ ∃ raw, json.marshal stored = some raw ∧ json.unmarshal raw = some copy

variable {routed : Routed}

namespace State

/-- The transport's `Publish` has returned nil for the event. -/
def Sent (json : Json) (state : State) (routed : Routed) : Prop :=
  ∃ copy, CopyOf json routed.envelope copy ∧ ⟨copy, routed.transport⟩ ∈ state.published

/-- The outbox holds an undelivered record of the event for the transport. -/
def Queued (json : Json) (state : State) (routed : Routed) : Prop :=
  ∃ row ∈ state.outbox.rows, row.eventId = routed.envelope.id ∧
    row.transport = routed.transport ∧ row.deliveredAtMs = none ∧
    json.marshal routed.envelope = some row.payload

/-- Every accepted event has reached its transport or the outbox. -/
def Covered (json : Json) (state : State) : Prop :=
  ∀ routed ∈ state.accepted, state.Sent json routed ∨ state.Queued json routed

theorem Sent.of_subset {json : Json} {state next : State} (h : state.Sent json routed)
    (hsubset : state.published ⊆ next.published) :
    next.Sent json routed := by
  obtain ⟨copy, hcopy, hmem⟩ := h
  exact ⟨copy, hcopy, hsubset hmem⟩

theorem Queued.of_subset {json : Json} {state next : State} (h : state.Queued json routed)
    (hsubset : state.outbox.rows ⊆ next.outbox.rows) :
    next.Queued json routed := by
  obtain ⟨row, hmem, hrow⟩ := h
  exact ⟨row, hsubset hmem, hrow⟩

end State

/-- A call that creates an event for a transport finds the transport in the registry. -/
def Server.Routable (server : Server) (state : State) : Action → Prop
  | .ingest envelope transport _ _ _ =>
      Fresh server.json state.db envelope → server.resolve transport ≠ [] →
        server.resolve transport ∈ server.registry
  | .tick _ _ => True

instance (server : Server) (state : State) (action : Action) :
    Decidable (server.Routable state action) :=
  match action with
  | .ingest _ _ _ _ _ => inferInstanceAs (Decidable (_ → _ → _))
  | .tick _ _ => instDecidableTrue

/-! ## The calls -/

section Calls

variable {json : Json} {db : Database} {envelope : Envelope} {now : Int}

/-- An insert takes place exactly when neither unique column is taken. -/
theorem insertEvent_spec (db : Database) (row : EventRow) :
    ((∀ other ∈ db.events, other.idempotencyKey ≠ row.idempotencyKey ∧ other.id ≠ row.id) ∧
        db.insertEvent row = .inserted { db with events := db.events ++ [row] }) ∨
      ((¬∀ other ∈ db.events, other.idempotencyKey ≠ row.idempotencyKey ∧ other.id ≠ row.id) ∧
        (db.insertEvent row = .ignored ∨ db.insertEvent row = .failed)) := by
  unfold Database.insertEvent
  split
  · rename_i hkey
    obtain ⟨other, hmem, heq⟩ := List.any_eq_true.mp hkey
    exact Or.inr ⟨fun h => (h other hmem).1 (of_decide_eq_true heq), Or.inl rfl⟩
  · rename_i hkey
    split
    · rename_i hid
      obtain ⟨other, hmem, heq⟩ := List.any_eq_true.mp hid
      exact Or.inr ⟨fun h => (h other hmem).2 (of_decide_eq_true heq), Or.inr rfl⟩
    · rename_i hid
      refine Or.inl ⟨fun other hmem => ⟨fun heq => hkey ?_, fun heq => hid ?_⟩, rfl⟩
      · exact List.any_eq_true.mpr ⟨other, hmem, decide_eq_true heq⟩
      · exact List.any_eq_true.mpr ⟨other, hmem, decide_eq_true heq⟩

/-- The second query of a publication reports that nothing was created. -/
theorem reply_resume_select_ne {key : Bytes} {stored : Envelope} :
    (resume json db (.selectEnvelope key) false).reply ≠ .published stored true := by
  intro h
  simp only [resume, Bool.false_eq_true, if_false] at h
  split at h
  · cases h
  · split at h <;> cases h

/-- `Store.Publish` reports a created event exactly for a fresh envelope. -/
theorem reply_storePublish_iff {stored : Envelope} :
    (storePublish json db envelope now).reply = .published stored true ↔
      stored = envelope ∧ Fresh json db envelope := by
  unfold storePublish publish Fresh
  cases hvalid : envelope.validate json.valid with
  | error err => simp
  | ok _ =>
      cases hmarshal : json.marshal envelope with
      | none => simp
      | some raw =>
          simp only [Bool.false_eq_true, if_false]
          rcases insertEvent_spec db
            { id := envelope.id, idempotencyKey := envelope.idempotencyKey,
              eventName := envelope.event, envelope := raw, state := .published,
              createdAtMs := envelope.createdAtMs, updatedAtMs := now } with
            ⟨hrows, hinsert⟩ | ⟨hrows, hinsert | hinsert⟩
          · rw [hinsert]
            constructor
            · intro h
              cases h
              exact ⟨rfl, trivial, rfl, hrows⟩
            · rintro ⟨rfl, -⟩
              rfl
          · rw [hinsert]
            exact iff_of_false reply_resume_select_ne fun h => hrows h.2.2.2
          · rw [hinsert]
            exact iff_of_false (fun h => by cases h) fun h => hrows h.2.2.2

/-- A valid envelope has an id. -/
theorem id_ne_nil_of_fresh (h : Fresh json db envelope) : envelope.id ≠ [] :=
  (Envelope.validate_eq_ok_iff.mp h.1).1.1

theorem marshal_of_fresh (hcodec : Codec json) (h : Fresh json db envelope) :
    ∃ raw, json.marshal envelope = some raw ∧ raw ≠ [] ∧ (json.unmarshal raw).isSome = true := by
  obtain ⟨raw, hraw⟩ := Option.isSome_iff_exists.mp h.2.1
  have hreads := hcodec.reads envelope raw hraw
  refine ⟨raw, hraw, ?_, hreads⟩
  rintro rfl
  rw [hcodec.nil] at hreads
  cases hreads

end Calls

/-- What holds in every run: only registered transports publish and have records, and the
records can be read. -/
structure Sound (server : Server) (state : State) : Prop where
  published : ∀ routed ∈ state.published, routed.transport ∈ server.registry
  registered : ∀ row ∈ state.outbox.rows, row.transport ∈ server.registry
  readable : ∀ row ∈ state.outbox.rows, (server.json.unmarshal row.payload).isSome = true

section Steps

variable {server : Server} {state : State} {db : Database}

theorem sound_start (server : Server) : Sound server {} :=
  ⟨fun _ h => absurd h List.not_mem_nil, fun _ h => absurd h List.not_mem_nil,
    fun _ h => absurd h List.not_mem_nil⟩

/-- An event for an unregistered transport reaches neither the transport nor the outbox. -/
theorem Sound.not_reached (h : Sound server state) (hname : routed.transport ∉ server.registry) :
    ¬(state.Sent server.json routed ∨ state.Queued server.json routed) := by
  rintro (⟨copy, -, hmem⟩ | ⟨row, hmem, -, htransport, -⟩)
  · exact hname (h.published ⟨copy, routed.transport⟩ hmem)
  · exact hname (htransport ▸ h.registered row hmem)

/-- What `ingest` does with an accepted event. -/
theorem dispatch_spec (hcodec : Codec server.json) (hfresh : Fresh server.json db routed.envelope)
    (hname : routed.transport ≠ []) (state : State) (publishOk : Bool) (sentAtMs : Int) :
    (routed.transport ∉ server.registry ∧
      (server.dispatch state routed publishOk sentAtMs).1 = state) ∨
    (routed.transport ∈ server.registry ∧
      (server.dispatch state routed publishOk sentAtMs).1 =
        { state with published := state.published ++ [routed] }) ∨
    ∃ raw, routed.transport ∈ server.registry ∧ server.json.marshal routed.envelope = some raw ∧
      (server.json.unmarshal raw).isSome = true ∧
      (server.dispatch state routed publishOk sentAtMs).1 =
        { state with
          outbox := state.outbox.insert routed.envelope.id routed.transport raw
            (sentAtMs + 1000) } := by
  by_cases hregistered : routed.transport ∈ server.registry
  · cases publishOk with
    | true => exact Or.inr (Or.inl ⟨hregistered, by simp [Server.dispatch, hregistered]⟩)
    | false =>
        obtain ⟨raw, hraw, hne, hreads⟩ := marshal_of_fresh hcodec hfresh
        refine Or.inr (Or.inr ⟨raw, hregistered, hraw, hreads, ?_⟩)
        simp [Server.dispatch, hregistered, hraw,
          Outbox.enqueueOutbox_eq_ok (id_ne_nil_of_fresh hfresh) hname hne]
  · exact Or.inl ⟨hregistered, by simp [Server.dispatch, hregistered]⟩

theorem Sound.publish (h : Sound server state) (hregistered : routed.transport ∈ server.registry) :
    Sound server { state with published := state.published ++ [routed] } := by
  refine ⟨?_, h.registered, h.readable⟩
  exact List.forall_mem_append.mpr ⟨h.published, List.forall_mem_singleton.mpr hregistered⟩

theorem Sound.enqueue (h : Sound server state) {eventId transport raw : Bytes}
    (hregistered : transport ∈ server.registry)
    (hreads : (server.json.unmarshal raw).isSome = true) (availableAtMs : Int) :
    Sound server
      { state with outbox := state.outbox.insert eventId transport raw availableAtMs } := by
  refine ⟨h.published, ?_, ?_⟩
  · exact List.forall_mem_append.mpr ⟨h.registered, List.forall_mem_singleton.mpr hregistered⟩
  · exact List.forall_mem_append.mpr ⟨h.readable, List.forall_mem_singleton.mpr hreads⟩

theorem Sound.dispatch (hcodec : Codec server.json) (hfresh : Fresh server.json db routed.envelope)
    (hname : routed.transport ≠ []) (h : Sound server state) (publishOk : Bool) (sentAtMs : Int) :
    Sound server (server.dispatch state routed publishOk sentAtMs).1 := by
  rcases dispatch_spec hcodec hfresh hname state publishOk sentAtMs with
    ⟨-, hnext⟩ | ⟨hregistered, hnext⟩ | ⟨raw, hregistered, -, hreads, hnext⟩
  · rw [hnext]
    exact h
  · rw [hnext]
    exact h.publish hregistered
  · rw [hnext]
    exact h.enqueue hregistered hreads _

/-- An event for a registered transport is published or queued; others stay covered. -/
theorem reached_dispatch (hcodec : Codec server.json)
    (hfresh : Fresh server.json db routed.envelope) (hname : routed.transport ≠ [])
    (publishOk : Bool) (sentAtMs : Int) {other : Routed}
    (h : other = routed ∧ routed.transport ∈ server.registry ∨
      state.Sent server.json other ∨ state.Queued server.json other) :
    (server.dispatch state routed publishOk sentAtMs).1.Sent server.json other ∨
      (server.dispatch state routed publishOk sentAtMs).1.Queued server.json other := by
  rcases dispatch_spec hcodec hfresh hname state publishOk sentAtMs with
    ⟨hnot, hnext⟩ | ⟨-, hnext⟩ | ⟨raw, -, hraw, -, hnext⟩
  · rw [hnext]
    exact h.resolve_left fun hsame => hnot hsame.2
  · rw [hnext]
    rcases h with ⟨rfl, -⟩ | hsent | hqueued
    · exact Or.inl ⟨other.envelope, Or.inl rfl, List.mem_append_right _ List.mem_cons_self⟩
    · exact Or.inl (hsent.of_subset (List.subset_append_left _ _))
    · exact Or.inr hqueued
  · rw [hnext]
    rcases h with ⟨rfl, -⟩ | hsent | hqueued
    · exact Or.inr ⟨_, List.mem_append_right _ List.mem_cons_self, rfl, rfl, rfl, hraw⟩
    · exact Or.inl hsent
    · exact Or.inr (hqueued.of_subset (List.subset_append_left _ _))

/-- A call of `ingest` either accepts nothing or dispatches the event it has accepted. -/
theorem ingest_spec (server : Server) (state : State) (envelope : Envelope) (transport : Bytes)
    (nowMs : Int) (publishOk : Bool) (sentAtMs : Int) :
    (∃ db, (server.ingest state envelope transport nowMs publishOk sentAtMs).1 =
        { state with db := db } ∧
      ¬(Fresh server.json state.db envelope ∧ server.resolve transport ≠ [])) ∨
    ∃ db, (server.ingest state envelope transport nowMs publishOk sentAtMs).1 =
        (server.dispatch
          { state with
            db := db
            accepted := state.accepted ++ [⟨envelope, server.resolve transport⟩] }
          ⟨envelope, server.resolve transport⟩ publishOk sentAtMs).1 ∧
      Fresh server.json state.db envelope ∧ server.resolve transport ≠ [] := by
  have hcreated := @reply_storePublish_iff server.json state.db envelope nowMs
  unfold Server.ingest
  cases hreply : (storePublish server.json state.db envelope nowMs).reply with
  | published stored created =>
      simp only [hreply]
      by_cases hroute : server.resolve transport ≠ [] ∧ created = true
      · rw [if_pos hroute]
        obtain ⟨hname, rfl⟩ := hroute
        obtain ⟨rfl, hfresh⟩ := hcreated.mp hreply
        exact Or.inr ⟨_, rfl, hfresh, hname⟩
      · rw [if_neg hroute]
        refine Or.inl ⟨_, rfl, fun h => hroute ⟨h.2, ?_⟩⟩
        have hsame := hreply.symm.trans (hcreated.mpr ⟨rfl, h.1⟩)
        cases hsame
        rfl
  | _ =>
      simp only [hreply]
      refine Or.inl ⟨_, rfl, fun h => ?_⟩
      have hsame := hreply.symm.trans (hcreated.mpr ⟨rfl, h.1⟩)
      cases hsame

theorem Sound.delivered (h : Sound server state) {record : OutboxRecord}
    (hregistered : record.transport ∈ server.registry) (copy : Envelope) (nowMs : Int) :
    Sound server (state.delivered record copy nowMs) := by
  have hpublished : Sound server
      { state with published := state.published ++ [⟨copy, record.transport⟩] } :=
    h.publish hregistered
  refine ⟨hpublished.published, fun row hmem => ?_, fun row hmem => ?_⟩
  · obtain ⟨before, hbefore, rfl | rfl⟩ := Outbox.exists_of_mem_mark hmem
    · exact h.registered _ hbefore
    · exact h.registered before hbefore
  · obtain ⟨before, hbefore, rfl | rfl⟩ := Outbox.exists_of_mem_mark hmem
    · exact h.readable _ hbefore
    · exact h.readable before hbefore

/-- The published record is marked, and the others are kept. -/
theorem reached_delivered {nowMs : Int} {record : OutboxRecord} {copy : Envelope}
    (hnext : state.outbox.nextOutbox nowMs = some record)
    (hcopy : server.json.unmarshal record.payload = some copy)
    (h : state.Sent server.json routed ∨ state.Queued server.json routed) :
    (state.delivered record copy nowMs).Sent server.json routed ∨
      (state.delivered record copy nowMs).Queued server.json routed := by
  rcases h with hsent | ⟨row, hmem, hevent, htransport, hpending, hpayload⟩
  · exact Or.inl (hsent.of_subset (List.subset_append_left _ _))
  · obtain ⟨chosen, hchosen, -, rfl⟩ := Outbox.row_of_nextOutbox hnext
    by_cases hseq : row.seq = chosen.seq
    · have hsame : row = chosen :=
        List.inj_on_of_nodup_map state.outbox.nodup_seq hmem hchosen hseq
      subst hsame
      refine Or.inl ⟨copy, Or.inr ⟨row.payload, hpayload, hcopy⟩, ?_⟩
      rw [← htransport]
      exact List.mem_append_right _ List.mem_cons_self
    · exact Or.inr ⟨row, Outbox.mem_mark_of_ne hmem hseq nowMs, hevent, htransport, hpending,
        hpayload⟩

/-- The loop over readable records preserves what each published record preserves. -/
theorem drain_induction {motive : State → Prop} {nowMs : Int}
    (hsound : ∀ state, motive state → Sound server state)
    (hstep : ∀ state record copy, motive state →
      state.outbox.nextOutbox nowMs = some record →
      server.json.unmarshal record.payload = some copy → record.transport ∈ server.registry →
      motive (state.delivered record copy nowMs))
    (hstart : motive state) (budget : Nat) (outcomes : List Bool) :
    motive (server.drain nowMs budget outcomes state) := by
  induction budget generalizing outcomes state with
  | zero => exact hstart
  | succ budget ih =>
      unfold Server.drain
      cases hnext : state.outbox.nextOutbox nowMs with
      | none => exact hstart
      | some record =>
          obtain ⟨row, hrow, -, hrecord⟩ := Outbox.row_of_nextOutbox hnext
          -- a record that could not be read would be marked without having been published
          have hreadable := (hsound state hstart).readable row hrow
          obtain ⟨copy, hcopy⟩ := Option.isSome_iff_exists.mp hreadable
          have hunmarshal : server.json.unmarshal record.payload = some copy := by
            rw [hrecord]
            exact hcopy
          simp only [hunmarshal]
          split
          · rename_i hpublish
            exact ih (hstep state record copy hstart hnext hunmarshal hpublish.1) outcomes.tail
          · exact hstart

theorem Sound.withDb (h : Sound server state) (db : Database) (accepted : List Routed) :
    Sound server { state with db := db, accepted := accepted } :=
  ⟨h.published, h.registered, h.readable⟩

theorem sound_step (hcodec : Codec server.json) (h : Sound server state) (action : Action) :
    Sound server (server.step state action) := by
  cases action with
  | tick nowMs outcomes =>
      exact drain_induction (fun _ h => h)
        (fun state record copy h _ _ hregistered => h.delivered hregistered copy nowMs)
        (h.withDb _ state.accepted) 64 outcomes
  | ingest envelope transport nowMs publishOk sentAtMs =>
      rcases ingest_spec server state envelope transport nowMs publishOk sentAtMs with
        ⟨db, hnext, -⟩ | ⟨db, hnext, hfresh, hname⟩
      · rw [Server.step, hnext]
        exact h.withDb db state.accepted
      · rw [Server.step, hnext]
        have hrouted : Fresh server.json state.db
            (Routed.mk envelope (server.resolve transport)).envelope := hfresh
        exact Sound.dispatch hcodec hrouted hname (h.withDb db _) publishOk sentAtMs

/-- A tick loses no event. -/
theorem covered_tick (h : Sound server state) (hcovered : state.Covered server.json)
    (nowMs : Int) (outcomes : List Bool) :
    (server.step state (.tick nowMs outcomes)).Covered server.json := by
  have hdrain := drain_induction
    (motive := fun state => Sound server state ∧ state.Covered server.json) (fun _ h => h.1)
    (fun state record copy h hnext hcopy hregistered =>
      ⟨h.1.delivered hregistered copy nowMs, fun routed hmem =>
        reached_delivered hnext hcopy (h.2 routed hmem)⟩)
    ⟨h.withDb (requeueExpired state.db nowMs false).db state.accepted, hcovered⟩ 64 outcomes
  exact hdrain.2

@[simp] theorem accepted_dispatch (routed : Routed) (publishOk : Bool) (sentAtMs : Int) :
    (server.dispatch state routed publishOk sentAtMs).1.accepted = state.accepted := by
  unfold Server.dispatch
  split
  · split
    · rfl
    · simp only
      split <;> rfl
  · rfl

/-- **One call keeps every accepted event covered exactly when it finds the transport.** -/
theorem covered_step_iff (hcodec : Codec server.json) (h : Sound server state)
    (hcovered : state.Covered server.json) (action : Action) :
    (server.step state action).Covered server.json ↔ server.Routable state action := by
  cases action with
  | tick nowMs outcomes => exact iff_of_true (covered_tick h hcovered nowMs outcomes) trivial
  | ingest envelope transport nowMs publishOk sentAtMs =>
      have hsound := sound_step hcodec h (.ingest envelope transport nowMs publishOk sentAtMs)
      rw [Server.step] at hsound ⊢
      rcases ingest_spec server state envelope transport nowMs publishOk sentAtMs with
        ⟨db, hnext, hnone⟩ | ⟨db, hnext, hfresh, hname⟩
      · rw [hnext]
        exact iff_of_true hcovered fun hfresh hname => absurd ⟨hfresh, hname⟩ hnone
      · rw [hnext] at hsound ⊢
        constructor
        · -- without a transport the accepted event is nowhere
          intro hafter _ _
          by_contra hunknown
          exact hsound.not_reached hunknown
            (hafter ⟨envelope, server.resolve transport⟩ (by simp))
        · intro hroutable other hmem
          rw [accepted_dispatch] at hmem
          refine reached_dispatch hcodec hfresh hname publishOk sentAtMs ?_
          rcases List.mem_append.mp hmem with hold | hnew
          · exact Or.inr (hcovered other hold)
          · exact Or.inl ⟨List.mem_singleton.mp hnew, hroutable hfresh hname⟩

end Steps

/-- **No accepted event is lost.** After every call of a run each accepted event has been
published on its transport or waits in the outbox, exactly when every call that creates an
event for a transport finds the transport in the registry. -/
theorem covered_iff (server : Server) (hcodec : Codec server.json) (actions : List Action) :
    Execution.Along server.step
        (fun state action => (server.step state action).Covered server.json) {} actions ↔
      Execution.Along server.step server.Routable {} actions := by
  refine Execution.along_iff
    (motive := fun state => Sound server state ∧ state.Covered server.json)
    (fun state action h hnext => ⟨sound_step hcodec h.1 action, hnext⟩)
    (fun state action h => covered_step_iff hcodec h.1 h.2 action) ⟨sound_start server, ?_⟩ actions
  exact fun routed hmem => absurd hmem List.not_mem_nil

/-- A server with one transport. -/
def memoryServer : Server where
  json := Broker.orderCodec
  registry := [ascii "memory"]
  defaultTransport := ascii "memory"

theorem codec_orderCodec : Codec Broker.orderCodec := by
  refine ⟨fun envelope raw h => ?_, by decide +kernel⟩
  have hknown : (Broker.orderCodec.unmarshal (Broker.orderJson "create")).isSome = true ∧
      (Broker.orderCodec.unmarshal (Broker.orderJson "cancel")).isSome = true := by
    decide +kernel
  simp only [Broker.orderCodec] at h
  split at h
  · cases h
    exact hknown.1
  · split at h
    · cases h
      exact hknown.2
    · cases h

/-- The transport is down when the event arrives and back at the second tick; a retry of the
client in between creates nothing. -/
def outage : List Action :=
  [.ingest (Broker.order "create") [] 0 false 10, .tick 500 [], .tick 1010 [false],
    .ingest (Broker.order "create") [] 1020 true 1020, .tick 2000 [true]]

theorem covered_outage :
    Execution.Along memoryServer.step
      (fun state action => (memoryServer.step state action).Covered memoryServer.json) {} outage ∧
    (Execution.run memoryServer.step {} outage).published =
      [⟨Broker.order "create", ascii "memory"⟩] := by
  have hrun : Execution.Along memoryServer.step memoryServer.Routable {} outage ∧
      (Execution.run memoryServer.step {} outage).published =
        [⟨Broker.order "create", ascii "memory"⟩] := by
    decide +kernel
  exact ⟨(covered_iff memoryServer codec_orderCodec outage).mpr hrun.1, hrun.2⟩

/-- The event is stored and its transport is unknown. -/
theorem not_covered_unknownTransport :
    ¬Execution.Along memoryServer.step
      (fun state action => (memoryServer.step state action).Covered memoryServer.json) {}
      [.ingest (Broker.order "create") (ascii "nats") 0 true 0] := by
  rintro ⟨hcovered, -⟩
  have hsound : Sound memoryServer (memoryServer.step {}
      (.ingest (Broker.order "create") (ascii "nats") 0 true 0)) :=
    sound_step codec_orderCodec (sound_start memoryServer) _
  refine hsound.not_reached (by decide +kernel)
    (hcovered ⟨Broker.order "create", ascii "nats"⟩ (by decide +kernel))

/-! ## A retry hides the loss -/

/-- No later call repairs the loss: an event for an unknown transport is never published on it or
queued for it. -/
theorem not_reached_run {server : Server} (hcodec : Codec server.json) {state : State}
    (h : Sound server state) (hunknown : routed.transport ∉ server.registry)
    (actions : List Action) :
    ¬((Execution.run server.step state actions).Sent server.json routed ∨
      (Execution.run server.step state actions).Queued server.json routed) := by
  have hrun := Execution.invariant_run_of_step (motive := Sound server)
    (fun state action h => sound_step hcodec h action) h actions
  exact hrun.not_reached hunknown

section Retry

variable {json : Json} {db : Database} {envelope : Envelope}

/-- The database after the insert, and the row that a second publication finds. -/
theorem storePublish_of_fresh (hfresh : Fresh json db envelope) (nowMs : Int) :
    ∃ raw row, json.marshal envelope = some raw ∧ row.envelope = raw ∧
      row.idempotencyKey = envelope.idempotencyKey ∧
      (storePublish json db envelope nowMs).db.events = db.events ++ [row] := by
  obtain ⟨hvalid, hmarshal, hrows⟩ := hfresh
  obtain ⟨raw, hraw⟩ := Option.isSome_iff_exists.mp hmarshal
  unfold storePublish publish
  simp only [hvalid, hraw, Bool.false_eq_true, if_false]
  rcases insertEvent_spec db
    { id := envelope.id, idempotencyKey := envelope.idempotencyKey,
      eventName := envelope.event, envelope := raw, state := .published,
      createdAtMs := envelope.createdAtMs, updatedAtMs := nowMs } with
    ⟨-, hinsert⟩ | ⟨hnot, -⟩
  · rw [hinsert]
    exact ⟨raw, _, rfl, rfl, rfl, rfl⟩
  · exact absurd hrows hnot

/-- A second publication of the envelope reports the stored copy as not created. -/
theorem reply_storePublish_again (hcodec : Codec json) (hfresh : Fresh json db envelope)
    (nowMs laterMs : Int) :
    ∃ copy, CopyOf json envelope copy ∧
      (storePublish json (storePublish json db envelope nowMs).db envelope laterMs).reply =
        .published copy false := by
  obtain ⟨raw, row, hraw, rfl, hkey, hevents⟩ := storePublish_of_fresh hfresh nowMs
  obtain ⟨copy, hcopy⟩ := Option.isSome_iff_exists.mp (hcodec.reads envelope row.envelope hraw)
  refine ⟨copy, Or.inr ⟨row.envelope, hraw, hcopy⟩, ?_⟩
  have htaken : (storePublish json db envelope nowMs).db.events.any
      (fun other => other.idempotencyKey = envelope.idempotencyKey) = true := by
    rw [hevents]
    simp [hkey]
  have hfind : (storePublish json db envelope nowMs).db.events.find?
      (fun other => other.idempotencyKey = envelope.idempotencyKey) = some row := by
    rw [hevents, List.find?_append, List.find?_eq_none.mpr]
    · simp [hkey]
    · intro other hmem
      simpa using (hfresh.2.2 other hmem).1
  generalize (storePublish json db envelope nowMs).db = stored at htaken hfind
  unfold storePublish publish Database.insertEvent
  simp only [hfresh.1, hraw, Bool.false_eq_true, if_false, if_pos htaken, resume, hfind, hcopy]

/-- **A retry hides the loss.** The first request of an event for an unknown transport is answered
with an error and its retry with success, and no call before or after them brings the event to
its transport or to the outbox. -/
theorem retry_unknownTransport (server : Server) (hcodec : Codec server.json)
    (before later : List Action) {transport : Bytes}
    (hfresh : Fresh server.json (Execution.run server.step {} before).db envelope)
    (hname : server.resolve transport ≠ []) (hunknown : server.resolve transport ∉ server.registry)
    (nowMs sentAtMs laterMs againMs : Int) (publishOk againOk : Bool) :
    let first := server.handlePublish (Execution.run server.step {} before) envelope.event
      (some envelope) transport nowMs publishOk sentAtMs
    let second := server.handlePublish first.1 envelope.event (some envelope) transport laterMs
      againOk againMs
    first.2 = 502 ∧ second.2 = 200 ∧
      ¬((Execution.run server.step second.1 later).Sent server.json
          ⟨envelope, server.resolve transport⟩ ∨
        (Execution.run server.step second.1 later).Queued server.json
          ⟨envelope, server.resolve transport⟩) := by
  have hsound := Execution.invariant_run_of_step (motive := Sound server)
    (fun state action h => sound_step hcodec h action) (sound_start server) before
  generalize Execution.run server.step {} before = state at hfresh hsound ⊢
  have hreply : (storePublish server.json state.db envelope nowMs).reply =
      .published envelope true := reply_storePublish_iff.mpr ⟨rfl, hfresh⟩
  obtain ⟨copy, -, hagain⟩ := reply_storePublish_again hcodec hfresh nowMs laterMs
  have hfirst : server.ingest state envelope transport nowMs publishOk sentAtMs =
      ({ state with
          db := (storePublish server.json state.db envelope nowMs).db
          accepted := state.accepted ++ [⟨envelope, server.resolve transport⟩] },
        { err := some (.unknownTransport (server.resolve transport)) }) := by
    simp [Server.ingest, hreply, hname, Server.dispatch, hunknown, Reply.ofDispatch]
  simp only [Server.handlePublish, hfirst, ne_eq, not_true_eq_false, if_false, true_and]
  constructor
  · simp [Server.ingest, hagain]
  · -- the retry has created nothing, so its state is the first one with another database
    simp only [Server.ingest, hagain, Bool.false_eq_true, and_false, if_false]
    exact not_reached_run hcodec (hsound.withDb _ _) hunknown later

/-- The transport of the order is not registered. -/
theorem retry_unknownTransport_nats :
    (memoryServer.handlePublish {} (Broker.order "create").event (some (Broker.order "create"))
      (ascii "nats") 0 true 0).2 = 502 := by
  have hfresh : Fresh memoryServer.json (Execution.run memoryServer.step {} []).db
      (Broker.order "create") := by decide +kernel
  exact (retry_unknownTransport memoryServer codec_orderCodec [] [.tick 2000 [true]] hfresh
    (by decide +kernel) (by decide +kernel) 0 0 5 5 true true).1

end Retry

end Ubiq.Ingest
