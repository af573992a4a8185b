import Mathlib.Data.List.MinMax
import Mathlib.Data.Prod.Lex
import Ubiq.Control.Store
import Ubiq.Foundation.Lease

/-!
# Fencing and single settlement in the control store

What a run does to one event is a history of observations, and the rows of the
event follow the lease automaton through it. `Simulates` relates the two tables
to the automaton's state; `Simulates.step` and `Invariant.run` are the refinement.
Every statement about whole runs is then read off the automaton.

* `publish_cases`, `claim_cases`, `markReceived_cases`, `settle_cases` list what the
  operations can do to the tables.
* `fenced` collects the guarantees for one event in any run.
-/

namespace Ubiq.Control

open Foundation
open Message
open Lease

/-- Observations of one event: workers are texts, times are clock readings in
milliseconds, a settlement has the kind of its frame. -/
abbrev Seen := Observation Bytes Int ControlKind

/-- The state of one event in the automaton. -/
abbrev EventTrack := Track Bytes Int ControlKind

/-- What an action and its effect show of an event. -/
def observe (event : Bytes) (action : Action) (effect : Effect) : List Seen :=
  match action, effect.reply with
  | .publish envelope _ _, .published _ true => if envelope.id = event then [.published] else []
  -- the row is leased even when the caller gets an error for its envelope
  | .claim workerId lease now _, _ =>
      match effect.leased with
      | some row =>
          if row.id = event then [.claimed ⟨workerId, row.fencingToken, claimUntil now lease⟩]
          else []
      | none => []
  | .markReceived frame now _, .done =>
      if frame.eventId = event then [.received frame.workerId frame.fencingToken.toNat now] else []
  | .settle frame now _, .done =>
      if frame.eventId = event then
        [.settled ⟨frame.kind, frame.workerId, frame.fencingToken.toNat⟩ now]
      else []
  | .requeueExpired now _, .requeued _ => [.requeued now]
  | _, _ => []

/-- What a run shows of an event. -/
def observations (json : Json) (event : Bytes) : ControlStore → List Action → List Seen
  | _, [] => []
  | store, action :: rest =>
      observe event action (store.effect json action) ++
        observations json event (store.step json action) rest

theorem observations_append (json : Json) (event : Bytes) (store : ControlStore)
    (first second : List Action) :
    observations json event store (first ++ second) =
      observations json event store first ++
        observations json event (store.run json first) second := by
  induction first generalizing store with
  | nil => rfl
  | cons action rest ih =>
      simp only [List.cons_append, observations, ih, List.append_assoc]
      rfl

/-! ## What the operations do to the tables -/

/-- Primary keys. -/
structure Database.WellFormed (db : Database) : Prop where
  events : (db.events.map EventRow.id).Nodup
  settlements : (db.settlements.map SettlementRow.eventId).Nodup

/-- A row as `Publish` inserts it. -/
structure EventRow.Fresh (row : EventRow) : Prop where
  state : row.state = .published
  owner : row.owner = none
  leaseUntilMs : row.leaseUntilMs = none
  attempt : row.attempt = 0
  fencingToken : row.fencingToken = 0

variable {row : EventRow} {test : EventRow → Bool} {change : EventRow → EventRow}
  {frame : ControlFrame} {now : Int} {store : ControlStore} {settlement : Option SettlementRow}
  {action : Action}

variable {db next : Database} {track : EventTrack}

theorem insertEvent_inserted (h : db.insertEvent row = .inserted next) :
    next = { db with events := db.events ++ [row] } ∧ ∀ other ∈ db.events, other.id ≠ row.id := by
  unfold Database.insertEvent at h
  split at h
  · cases h
  split at h
  · cases h
  · next hid =>
      cases h
      refine ⟨rfl, ?_⟩
      simpa using hid

/-- The effect of a call that changes no table and has no history to insert. -/
structure Effect.Idle (db : Database) (effect : Effect) : Prop where
  db : effect.db = db
  pending : ∀ row, .history row ∉ effect.pending
  reply : effect.reply = .inFlight ∨ ∃ err, effect.reply = .failed err
  leased : effect.leased = none

theorem Effect.idle_failed (db : Database) (err : Error) :
    Effect.Idle db { db := db, reply := .failed err } :=
  ⟨rfl, fun _ => List.not_mem_nil, Or.inr ⟨err, rfl⟩, rfl⟩

/-- A publication inserts a fresh row under a new id, or changes nothing. -/
theorem publish_cases (json : Json) (db : Database) (envelope : Envelope) (now : Int)
    (fails : Bool) :
    (publish json db envelope now fails).Idle db ∨
    ∃ row : EventRow, row.id = envelope.id ∧ row.Fresh ∧
      (∀ other ∈ db.events, other.id ≠ row.id) ∧ envelope.validate json.valid = .ok () ∧
      json.marshal envelope = some row.envelope ∧
      publish json db envelope now fails =
        { db := { db with events := db.events ++ [row] }
          pending := [.history { eventId := envelope.id, state := .published, atMs := now }]
          reply := .published envelope true } := by
  unfold publish
  cases hvalid : envelope.validate json.valid with
  | error err => exact Or.inl (Effect.idle_failed db _)
  | ok _ =>
      cases hraw : json.marshal envelope with
      | none => exact Or.inl (Effect.idle_failed db _)
      | some raw =>
          cases fails with
          | true => exact Or.inl (Effect.idle_failed db _)
          | false =>
              simp only [Bool.false_eq_true, if_false]
              split
              · exact Or.inl (Effect.idle_failed db _)
              · next next hinsert =>
                  obtain ⟨rfl, hnew⟩ := insertEvent_inserted hinsert
                  exact Or.inr ⟨_, rfl, ⟨rfl, rfl, rfl, rfl, rfl⟩, hnew, trivial, rfl, rfl⟩
              · exact Or.inl ⟨rfl, by simp, Or.inl rfl, rfl⟩

/-- `ORDER BY created_at_ms, id` as an order of keys. -/
def EventRow.key (row : EventRow) : Int ×ₗ Bytes := toLex (row.createdAtMs, row.id)

theorem sortsBefore_iff {first second : EventRow} :
    Database.sortsBefore first second = true ↔ first.key ≤ second.key := by
  simp [Database.sortsBefore, EventRow.key, Prod.Lex.toLex_le_toLex]

/-- A claim takes the first of the claimable rows. -/
theorem candidate_eq_argmin (rows : List EventRow) :
    Database.candidate rows = (rows.filter Database.claimable).argmin EventRow.key := by
  induction rows with
  | nil => rfl
  | cons row rest ih =>
      rw [Database.candidate, ih]
      cases hrow : Database.claimable row with
      | false =>
          rw [List.filter_cons_of_neg (by simp [hrow])]
          cases (rest.filter Database.claimable).argmin EventRow.key <;> simp
      | true =>
          rw [List.filter_cons_of_pos hrow, List.argmin_cons]
          cases (rest.filter Database.claimable).argmin EventRow.key with
          | none => rfl
          | some best => simp [sortsBefore_iff, ← not_le, ite_not]

theorem candidate_spec {rows : List EventRow} (h : Database.candidate rows = some row) :
    row ∈ rows ∧ Database.claimable row = true := by
  rw [candidate_eq_argmin] at h
  exact List.mem_filter.mp (List.argmin_mem h)

/-- Lookups see an update of `events` one row at a time. -/
theorem event_updateEvents (hkey : ∀ row, (change row).id = row.id) (id : Bytes) :
    (db.updateEvents test change).event id =
      (db.event id).map fun row => if test row then change row else row :=
  Table.lookup_update hkey id

theorem Database.WellFormed.updateEvents (h : db.WellFormed)
    (hkey : ∀ row, (change row).id = row.id) : (db.updateEvents test change).WellFormed where
  events := by
    show ((Table.update test change db.events).map EventRow.id).Nodup
    rw [Table.map_key_update hkey]
    exact h.events
  settlements := h.settlements

/-- `Claim` with a candidate: the row as the update has left it comes back. -/
theorem claim_of_candidate (json : Json) (hformed : db.WellFormed)
    {workerId : Bytes} (hworker : workerId ≠ []) {lease : Int} (hlease : 0 < lease) (now : Int)
    (h : Database.candidate db.events = some row) :
    claim json db workerId lease now false =
      { db := db.updateEvents (fun other => other.id = row.id)
          (Database.leaseRow workerId (claimUntil now lease) now)
        pending := (json.unmarshal row.envelope).toList.map fun envelope =>
          .history
            { eventId := envelope.id, state := .leased, workerId := some workerId,
              fencingToken := some (row.fencingToken + 1), atMs := now }
        reply := match json.unmarshal row.envelope with
          | none => .failed .json
          | some envelope => .claimed
              { envelope := envelope
                lease :=
                  { eventId := envelope.id, workerId := workerId, untilMs := claimUntil now lease,
                    attempt := row.attempt + 1, fencingToken := row.fencingToken + 1 }
                state := .leased }
        leased := some (Database.leaseRow workerId (claimUntil now lease) now row) } := by
  have hlookup : db.event row.id = some row :=
    (Table.lookup_eq_some_iff hformed.events).mpr ⟨(candidate_spec h).1, rfl⟩
  have hreturning : (db.updateEvents (fun other => decide (other.id = row.id))
      (Database.leaseRow workerId (claimUntil now lease) now)).event row.id =
        some (Database.leaseRow workerId (claimUntil now lease) now row) := by
    rw [event_updateEvents (Database.id_leaseRow _ _ _), hlookup]
    simp
  have harguments : ¬(workerId = [] ∨ lease ≤ 0) := not_or.mpr ⟨hworker, not_le.mpr hlease⟩
  simp only [claim, if_neg harguments, Bool.false_eq_true, if_false, Database.claimUpdate, h,
    hreturning]
  show (match json.unmarshal row.envelope with | none => _ | some envelope => _) = _
  cases json.unmarshal row.envelope with
  | none => rfl
  | some envelope => rfl

theorem claim_of_no_candidate (json : Json) {workerId : Bytes}
    (hworker : workerId ≠ []) {lease : Int} (hlease : 0 < lease) (now : Int)
    (h : Database.candidate db.events = none) :
    claim json db workerId lease now false =
      { db := db, reply := .failed .nothingAvailable } := by
  have harguments : ¬(workerId = [] ∨ lease ≤ 0) := not_or.mpr ⟨hworker, not_le.mpr hlease⟩
  simp only [claim, if_neg harguments, Bool.false_eq_true, if_false, Database.claimUpdate, h]

/-- A claim leases the candidate, or changes nothing. -/
theorem claim_cases (json : Json) (hformed : db.WellFormed) (workerId : Bytes)
    (lease now : Int) (fails : Bool) :
    (claim json db workerId lease now fails).Idle db ∨
    ∃ row, db.event row.id = some row ∧ Database.claimable row = true ∧
      (claim json db workerId lease now fails).db = db.updateEvents (fun other => other.id = row.id)
        (Database.leaseRow workerId (claimUntil now lease) now) ∧
      (claim json db workerId lease now fails).leased =
        some (Database.leaseRow workerId (claimUntil now lease) now row) := by
  by_cases harguments : workerId = [] ∨ lease ≤ 0
  · rw [claim, if_pos harguments]
    exact Or.inl (Effect.idle_failed db _)
  obtain ⟨hworker, hlease⟩ := not_or.mp harguments
  cases fails with
  | true =>
      rw [claim, if_neg harguments]
      exact Or.inl (Effect.idle_failed db _)
  | false =>
      cases hcandidate : Database.candidate db.events with
      | none =>
          rw [claim_of_no_candidate json hworker (not_le.mp hlease) now hcandidate]
          exact Or.inl (Effect.idle_failed db _)
      | some row =>
          obtain ⟨hmem, hclaimable⟩ := candidate_spec hcandidate
          have hlookup : db.event row.id = some row :=
            (Table.lookup_eq_some_iff hformed.events).mpr ⟨hmem, rfl⟩
          rw [claim_of_candidate json hformed hworker (not_le.mp hlease) now hcandidate]
          exact Or.inr ⟨row, hlookup, hclaimable, rfl, rfl⟩

/-- A guarded update of one event affects its row or none. -/
theorem affected_event (hformed : db.WellFormed) {id : Bytes}
    (htest : ∀ row, test row = true → row.id = id) :
    Table.affected test db.events = 1 ∧ (∃ row, db.event id = some row ∧ test row = true) ∨
      Table.affected test db.events = 0 := by
  have haffected := Table.affected_by_key hformed.events htest
  cases hrow : db.event id with
  | none =>
      right
      rw [haffected, show Table.lookup EventRow.id id db.events = none from hrow]
      rfl
  | some row =>
      rw [haffected, show Table.lookup EventRow.id id db.events = some row from hrow]
      by_cases hpass : test row = true
      · exact Or.inl ⟨by simp [hpass], row, rfl, hpass⟩
      · exact Or.inr (by simp [hpass])

theorem id_of_receivable (h : Database.receivable frame now row = true) :
    row.id = frame.eventId := by
  simp only [Database.receivable, decide_eq_true_eq] at h
  exact h.1

theorem id_of_settleable (h : Database.settleable frame now row = true) :
    row.id = frame.eventId := by
  simp only [Database.settleable, decide_eq_true_eq] at h
  exact h.1

/-- `MarkReceived` succeeds on the row that its clause admits, or changes nothing. -/
theorem markReceived_cases (hformed : db.WellFormed) (frame : ControlFrame)
    (now : Int) (fails : Bool) :
    (markReceived db frame now fails).Idle db ∨
    ∃ row log, db.event frame.eventId = some row ∧ Database.receivable frame now row = true ∧
      log.eventId = frame.eventId ∧ log.state = .received ∧
      markReceived db frame now fails =
        { db := db.updateEvents (Database.receivable frame now) (Database.receiveRow now)
          pending := [.history log]
          reply := .done } := by
  unfold markReceived
  split
  · exact Or.inl (Effect.idle_failed db _)
  cases frame.validate with
  | error err => exact Or.inl (Effect.idle_failed db _)
  | ok _ =>
      cases fails with
      | true => exact Or.inl (Effect.idle_failed db _)
      | false =>
          simp only [Bool.false_eq_true, if_false]
          rcases affected_event hformed (fun _ => id_of_receivable) with
            ⟨hone, row, hrow, hpass⟩ | hzero
          · rw [hone, if_neg (by simp)]
            exact Or.inr ⟨row, _, hrow, hpass, rfl, rfl, rfl⟩
          · rw [hzero, if_pos (by simp), Database.updateEvents, Table.update_of_affected_zero hzero]
            exact Or.inl (Effect.idle_failed db _)

/-- `Settle` succeeds on the row that its clause admits, or changes nothing. -/
theorem settle_cases (hformed : db.WellFormed) (frame : ControlFrame)
    (now : Int) (fails : Bool) :
    (settle db frame now fails).Idle db ∧
      (fails = false → (frame.kind = .settledOk ∨ frame.kind = .settledError) →
        frame.validate = .ok () → ∀ row ∈ db.events, ¬Database.settleable frame now row = true) ∨
    ((frame.kind = .settledOk ∨ frame.kind = .settledError) ∧ frame.validate = .ok ()) ∧
    ∃ row log, db.event frame.eventId = some row ∧ Database.settleable frame now row = true ∧
      log.eventId = frame.eventId ∧ log.state = settleTarget frame.kind ∧
      settle db frame now fails =
        { db := ((db.updateEvents (Database.settleable frame now)
            (Database.releaseRow (settleTarget frame.kind) now)).insertSettlement
              { eventId := frame.eventId, kind := frame.kind, workerId := frame.workerId,
                fencingToken := frame.fencingToken.toNat, atMs := frame.atMs,
                evidence := frame.evidence }).insertHistory log
          reply := .done } := by
  unfold settle
  split
  · next hkind =>
      exact Or.inl ⟨Effect.idle_failed db _, fun _ hsettles => absurd hsettles (not_or.mpr hkind)⟩
  next hkind =>
  cases frame.validate with
  | error err => exact Or.inl ⟨Effect.idle_failed db _, nofun⟩
  | ok _ =>
      cases fails with
      | true => exact Or.inl ⟨Effect.idle_failed db _, nofun⟩
      | false =>
          simp only [Bool.false_eq_true, if_false]
          rcases affected_event hformed (fun _ => id_of_settleable) with
            ⟨hone, row, hrow, hpass⟩ | hzero
          · rw [hone, if_neg (by simp)]
            exact Or.inr ⟨⟨by tauto, trivial⟩, row, _, hrow, hpass, rfl, rfl, rfl⟩
          · -- the transaction is rolled back
            rw [hzero, if_pos (by simp)]
            exact Or.inl ⟨Effect.idle_failed db _, fun _ _ _ => List.countP_eq_zero.mp hzero⟩

/-- The statements of calls in flight leave the two tables alone. -/
theorem resume_tables (json : Json) (db : Database) (pending : Pending) (fails : Bool) :
    (resume json db pending fails).db.events = db.events ∧
      (resume json db pending fails).db.settlements = db.settlements := by
  cases pending with
  | history row => cases fails <;> exact ⟨rfl, rfl⟩
  | selectEnvelope idempotencyKey =>
      unfold resume
      cases fails with
      | true => exact ⟨rfl, rfl⟩
      | false =>
          simp only [Bool.false_eq_true, if_false]
          cases db.events.find? fun row => row.idempotencyKey = idempotencyKey with
          | none => exact ⟨rfl, rfl⟩
          | some row =>
              simp only
              cases json.unmarshal row.envelope <;> exact ⟨rfl, rfl⟩

theorem effect_resume_tables (json : Json) (store : ControlStore) (index : Nat) (fails : Bool) :
    (store.effect json (.resume index fails)).db.events = store.db.events ∧
      (store.effect json (.resume index fails)).db.settlements = store.db.settlements := by
  unfold ControlStore.effect
  dsimp only
  cases store.pending[index]? with
  | none => exact ⟨rfl, rfl⟩
  | some pending => exact resume_tables json store.db pending fails

theorem Database.WellFormed.of_tables (h : db.WellFormed)
    (hevents : next.events = db.events) (hsettlements : next.settlements = db.settlements) :
    next.WellFormed :=
  ⟨hevents ▸ h.events, hsettlements ▸ h.settlements⟩

theorem Database.events_insertSettlement (db : Database) (row : SettlementRow) :
    (db.insertSettlement row).events = db.events := by
  unfold Database.insertSettlement
  split <;> rfl

theorem Database.WellFormed.insertSettlement (h : db.WellFormed)
    (row : SettlementRow) : (db.insertSettlement row).WellFormed := by
  unfold Database.insertSettlement
  split
  · exact h
  · next hany =>
      have hnew : ∀ other ∈ db.settlements, other.eventId ≠ row.eventId := by simpa using hany
      exact ⟨h.events, Keyed.nodup_concat h.settlements hnew⟩

/-- Primary keys stay unique. -/
theorem Database.WellFormed.effect (h : store.db.WellFormed) (json : Json) (action : Action) :
    (store.effect json action).db.WellFormed := by
  cases action with
  | publish envelope now fails =>
      show (publish json store.db envelope now fails).db.WellFormed
      rcases publish_cases json store.db envelope now fails with
        hidle | ⟨row, -, -, hnew, -, -, heffect⟩
      · rw [hidle.db]
        exact h
      · rw [heffect]
        exact ⟨Keyed.nodup_concat h.events hnew, h.settlements⟩
  | claim workerId lease now fails =>
      show (claim json store.db workerId lease now fails).db.WellFormed
      rcases claim_cases json h workerId lease now fails with hidle | ⟨row, -, -, hdb, -⟩
      · rw [hidle.db]
        exact h
      · rw [hdb]
        exact h.updateEvents (Database.id_leaseRow _ _ _)
  | markReceived frame now fails =>
      show (markReceived store.db frame now fails).db.WellFormed
      rcases markReceived_cases h frame now fails with hidle | ⟨row, log, -, -, -, -, heffect⟩
      · rw [hidle.db]
        exact h
      · rw [heffect]
        exact h.updateEvents (Database.id_receiveRow _)
  | settle frame now fails =>
      show (settle store.db frame now fails).db.WellFormed
      rcases settle_cases h frame now fails with ⟨hidle, -⟩ | ⟨-, row, log, -, -, -, -, heffect⟩
      · rw [hidle.db]
        exact h
      · rw [heffect]
        have hupdated : (store.db.updateEvents (Database.settleable frame now)
            (Database.releaseRow (settleTarget frame.kind) now)).WellFormed :=
          h.updateEvents (Database.id_releaseRow _ _)
        exact (hupdated.insertSettlement _).of_tables rfl rfl
  | requeueExpired now fails =>
      cases fails with
      | true => exact h
      | false => exact h.updateEvents (Database.id_releaseRow _ _)
  | resume index fails =>
      obtain ⟨hevents, hsettlements⟩ := effect_resume_tables json store index fails
      exact h.of_tables hevents hsettlements

/-! ## The refinement -/

/-- The two rows of an event against the automaton. -/
inductive PhaseMatches : Option EventRow → Option SettlementRow → EventTrack → Prop
  | absent : PhaseMatches none none Track.init
  | waiting (row : EventRow) (claims : List (Grant Bytes Int))
      (hstate : row.state = .published ∨ row.state = .expired)
      (howner : row.owner = none) (hlease : row.leaseUntilMs = none)
      (htoken : row.fencingToken = claims.length) (hattempt : row.attempt = claims.length) :
      PhaseMatches (some row) none ⟨claims, .waiting⟩
  | held (row : EventRow) (claims : List (Grant Bytes Int)) (grant : Grant Bytes Int)
      (received : Bool) (hstate : row.state = if received then .received else .leased)
      (howner : row.owner = some grant.worker) (hlease : row.leaseUntilMs = some grant.deadline)
      (htoken : row.fencingToken = claims.length) (hattempt : row.attempt = claims.length)
      (hlatest : grant.token = claims.length) :
      PhaseMatches (some row) none ⟨claims, .held grant received⟩
  | settled (row : EventRow) (settlement : SettlementRow) (claims : List (Grant Bytes Int))
      (verdict : Verdict Bytes ControlKind)
      (hkind : verdict.kind = .settledOk ∨ verdict.kind = .settledError)
      (hstate : row.state = settleTarget verdict.kind)
      (howner : row.owner = none) (hlease : row.leaseUntilMs = none)
      (htoken : row.fencingToken = claims.length) (hattempt : row.attempt = claims.length)
      (hlatest : verdict.token = claims.length)
      (hrecorded : settlement.kind = verdict.kind ∧ settlement.workerId = verdict.worker ∧
        settlement.fencingToken = verdict.token) :
      PhaseMatches (some row) (some settlement) ⟨claims, .settled verdict⟩

/-- The tables follow the automaton for one event. -/
structure Simulates (db : Database) (event : Bytes) (track : EventTrack) : Prop where
  sound : track.Sound
  rows : PhaseMatches (db.event event) (db.settlement event) track

/-- A claimable row waits in the automaton. -/
theorem PhaseMatches.waiting_of_claimable
    (h : PhaseMatches (some row) settlement track) (hclaimable : Database.claimable row = true) :
    settlement = none ∧ track.phase = .waiting ∧ row.fencingToken = track.claims.length ∧
      row.attempt = track.claims.length := by
  simp only [Database.claimable, decide_eq_true_eq] at hclaimable
  cases h with
  | waiting _ claims hstate howner hlease htoken hattempt => exact ⟨rfl, rfl, htoken, hattempt⟩
  | held _ claims grant received hstate =>
      cases received <;> simp [hstate] at hclaimable
  | settled _ settlement claims verdict hkind hstate =>
      rcases hkind with hkind | hkind <;> simp [hstate, hkind, settleTarget] at hclaimable

/-- A row in a leased state is held in the automaton. -/
theorem PhaseMatches.held_of_leased (h : PhaseMatches (some row) settlement track)
    (hleased : row.state = .leased ∨ row.state = .received) :
    settlement = none ∧ ∃ grant received, track.phase = .held grant received ∧
      (row.state = if received then .received else .leased) ∧
      row.owner = some grant.worker ∧ row.leaseUntilMs = some grant.deadline ∧
      row.fencingToken = track.claims.length ∧ row.attempt = track.claims.length ∧
      grant.token = track.claims.length := by
  cases h with
  | waiting _ claims hstate =>
      rcases hstate with hstate | hstate <;> simp [hstate] at hleased
  | held _ claims grant received hstate howner hlease htoken hattempt hlatest =>
      exact ⟨rfl, grant, received, rfl, hstate, howner, hlease, htoken, hattempt, hlatest⟩
  | settled _ settlement claims verdict hkind hstate =>
      rcases hkind with hkind | hkind <;> simp [hstate, hkind, settleTarget] at hleased

/-- A settled row is settled in the automaton. -/
theorem PhaseMatches.settled_of_state
    (h : PhaseMatches (some row) settlement track) (hsettled : row.state.settled = true) :
    ∃ verdict, track.phase = .settled verdict := by
  cases h with
  | waiting _ claims hstate =>
      rcases hstate with hstate | hstate <;> simp [hstate, DeliveryState.settled] at hsettled
  | held _ claims grant received hstate =>
      cases received <;> simp [hstate, DeliveryState.settled] at hsettled
  | settled _ settlement claims verdict => exact ⟨verdict, rfl⟩

/-- Token and attempt count the claims. -/
theorem PhaseMatches.counts (h : PhaseMatches (some row) settlement track) :
    row.fencingToken = track.claims.length ∧ row.attempt = track.claims.length := by
  cases h with
  | waiting _ claims _ _ _ htoken hattempt => exact ⟨htoken, hattempt⟩
  | held _ claims _ _ _ _ _ htoken hattempt => exact ⟨htoken, hattempt⟩
  | settled _ _ claims _ _ _ _ _ htoken hattempt => exact ⟨htoken, hattempt⟩

/-- Two rows that match the same settled event agree. -/
theorem PhaseMatches.eq_of_settled {other : Option EventRow} {second : Option SettlementRow}
    {verdict : Verdict Bytes ControlKind}
    (h : PhaseMatches (some row) settlement track) (hother : PhaseMatches other second track)
    (hphase : track.phase = .settled verdict) :
    ∃ later, other = some later ∧ later.state = row.state ∧ later.owner = row.owner ∧
      later.fencingToken = row.fencingToken := by
  cases h with
  | waiting => cases hphase
  | held => cases hphase
  | settled _ _ claims _ _ hstate howner _ htoken =>
      cases hother with
      | settled later _ _ _ _ hlaterState hlaterOwner _ hlaterToken =>
          exact ⟨later, rfl, hlaterState.trans hstate.symm, hlaterOwner.trans howner.symm,
            hlaterToken.trans htoken.symm⟩

/-- A settlement belongs to a settled row. -/
theorem PhaseMatches.row_of_settlement {row : Option EventRow} {settlement : SettlementRow}
    (h : PhaseMatches row (some settlement) track) :
    ∃ settled, row = some settled ∧ settled.state.settled = true := by
  cases h with
  | settled settled _ claims verdict hkind hstate =>
      refine ⟨settled, rfl, ?_⟩
      rcases hkind with hkind | hkind <;>
        simp [hstate, hkind, settleTarget, DeliveryState.settled]

/-- A settled row has a settlement. -/
theorem PhaseMatches.settlement_of_row
    (h : PhaseMatches (some row) settlement track) (hsettled : row.state.settled = true) :
    ∃ recorded, settlement = some recorded := by
  obtain ⟨verdict, hphase⟩ := h.settled_of_state hsettled
  cases h with
  | waiting => cases hphase
  | held => cases hphase
  | settled _ recorded => exact ⟨recorded, rfl⟩

/-- The settlement repeats the verdict. -/
theorem PhaseMatches.recorded {settlement : SettlementRow}
    (h : PhaseMatches (some row) (some settlement) track) :
    ∃ verdict, track.phase = .settled verdict ∧
      (settlement.kind = .settledOk ∧ row.state = .settledOk ∨
        settlement.kind = .settledError ∧ row.state = .settledError) ∧
      settlement.workerId = verdict.worker ∧ settlement.fencingToken = verdict.token ∧
      settlement.fencingToken = row.fencingToken := by
  cases h with
  | settled _ _ claims verdict hkind hstate howner hlease htoken hattempt hlatest hrecorded =>
      obtain ⟨hsame, hworker, htokens⟩ := hrecorded
      refine ⟨verdict, rfl, ?_, hworker, htokens, ?_⟩
      · rcases hkind with hkind | hkind
        · exact Or.inl ⟨hsame.trans hkind, by rw [hstate, hkind]; rfl⟩
        · exact Or.inr ⟨hsame.trans hkind, by rw [hstate, hkind]; rfl⟩
      · rw [htokens, hlatest, htoken]

namespace Simulates

variable {db next : Database} {event : Bytes} {track : EventTrack} {effect : Effect}

/-- Only the rows of the event matter. -/
theorem of_rows (h : Simulates db event track) (hevent : next.event event = db.event event)
    (hsettlement : next.settlement event = db.settlement event) : Simulates next event track where
  sound := h.sound
  rows := by
    rw [hevent, hsettlement]
    exact h.rows

/-- What the effect of an action shows of an event is accepted, and its rows still match. -/
def Accepted (event : Bytes) (track : EventTrack) (action : Action) (effect : Effect) : Prop :=
  ∃ reached, track.follow (observe event action effect) = some reached ∧
    Simulates effect.db event reached

/-- An effect that shows nothing of the event and leaves its rows alone. -/
theorem silent (h : Simulates db event track) (hnothing : observe event action effect = [])
    (hevent : effect.db.event event = db.event event)
    (hsettlement : effect.db.settlement event = db.settlement event) :
    Accepted event track action effect :=
  ⟨track, by rw [hnothing]; rfl, h.of_rows hevent hsettlement⟩

theorem idle (h : Simulates db event track) (action : Action) (hidle : effect.Idle db) :
    Accepted event track action effect := by
  refine h.silent ?_ (by rw [hidle.db]) (by rw [hidle.db])
  have hleased := hidle.leased
  rcases hidle.reply with hreply | ⟨err, hreply⟩ <;> cases action <;> simp [observe, hreply, hleased]

/-- An accepted history keeps the automaton sound, so only the rows are left to match. -/
theorem advance (h : Simulates db event track) (later : EventTrack)
    (hfollow : track.follow (observe event action effect) = some later)
    (hrows : PhaseMatches (effect.db.event event) (effect.db.settlement event) later) :
    Accepted event track action effect :=
  ⟨later, hfollow, h.sound.follow hfollow, hrows⟩

/-- An update whose test names another event leaves this one alone. -/
theorem event_updateEvents_ne (hkey : ∀ row, (change row).id = row.id) {id : Bytes}
    (htest : ∀ row, test row = true → row.id = id) (hne : id ≠ event) :
    (db.updateEvents test change).event event = db.event event :=
  Table.lookup_update_of_ne hkey htest hne

theorem publish (h : Simulates db event track) (json : Json) (envelope : Envelope) (now : Int)
    (fails : Bool) :
    Accepted event track (.publish envelope now fails)
      (Control.publish json db envelope now fails) := by
  rcases publish_cases json db envelope now fails with
    hidle | ⟨row, hid, hfresh, hnew, -, -, heffect⟩
  · exact h.idle _ hidle
  · rw [heffect]
    have hevent : Table.lookup EventRow.id event (db.events ++ [row]) =
      if row.id = event then some row else db.event event := Table.lookup_concat hnew event
    by_cases hsame : row.id = event
    · rw [if_pos hsame] at hevent
      have habsent : db.event event = none := Table.lookup_eq_none_iff.mpr (hsame ▸ hnew)
      have hrows := h.rows
      rw [habsent] at hrows
      generalize hold : db.settlement event = old at hrows
      -- an event without a row has never been heard of
      cases hrows with
      | absent =>
          refine h.advance ⟨[], .waiting⟩ ?_ ?_
          · simp [observe, ← hid, hsame, Track.follow, Track.step, Track.init]
          · rw [Database.event, hevent]
            show PhaseMatches (some row) (db.settlement event) _
            rw [hold]
            exact .waiting row [] (Or.inl hfresh.state) hfresh.owner hfresh.leaseUntilMs
              hfresh.fencingToken hfresh.attempt
    · rw [if_neg hsame] at hevent
      exact h.silent (by simp [observe, ← hid, hsame]) hevent rfl

theorem claim (h : Simulates db event track) (hformed : db.WellFormed) (json : Json)
    (workerId : Bytes) (lease now : Int) (fails : Bool) :
    Accepted event track (.claim workerId lease now fails)
      (Control.claim json db workerId lease now fails) := by
  rcases claim_cases json hformed workerId lease now fails with
    hidle | ⟨row, hrow, hclaimable, hdb, hleased⟩
  · exact h.idle _ hidle
  · by_cases hsame : row.id = event
    · subst hsame
      have hrows := h.rows
      rw [hrow] at hrows
      obtain ⟨hnone, hwaiting, htoken, hattempt⟩ := hrows.waiting_of_claimable hclaimable
      refine h.advance
        ⟨track.claims ++ [⟨workerId, row.fencingToken + 1, claimUntil now lease⟩],
          .held ⟨workerId, row.fencingToken + 1, claimUntil now lease⟩ false⟩ ?_ ?_
      · simp [observe, hleased, Database.leaseRow, Track.follow, Track.step, hwaiting, htoken]
      · rw [hdb, event_updateEvents (Database.id_leaseRow _ _ _), hrow,
          show (db.updateEvents _ _).settlement row.id = none from hnone]
        simp only [Option.map_some, decide_true, if_true]
        refine .held _ _ _ _ rfl rfl rfl ?_ ?_ ?_
        · simp [Database.leaseRow, htoken]
        · simp [Database.leaseRow, hattempt]
        · simp [htoken]
    · refine h.silent (by simp [observe, hleased, Database.id_leaseRow, hsame]) ?_ (by rw [hdb]; rfl)
      rw [hdb]
      refine event_updateEvents_ne (Database.id_leaseRow _ _ _) ?_ hsame
      exact fun other hother => by simpa using hother

/-- What the clauses of `MarkReceived` and `Settle` say about the current grant. -/
theorem current_of_clause {grant : Grant Bytes Int} {claims : Nat}
    (howner : row.owner = some frame.workerId)
    (htoken : row.fencingToken = frame.fencingToken.toNat)
    (hafter : Database.leaseAfter row now = true) (hworker : row.owner = some grant.worker)
    (hlease : row.leaseUntilMs = some grant.deadline) (hcount : row.fencingToken = claims)
    (hlatest : grant.token = claims) :
    Track.Current grant frame.workerId frame.fencingToken.toNat now := by
  refine ⟨Option.some.inj (hworker.symm.trans howner), ?_, ?_⟩
  · rw [hlatest, ← hcount, htoken]
  · simpa [Database.leaseAfter, hlease] using hafter

theorem markReceived (h : Simulates db event track) (hformed : db.WellFormed)
    (frame : ControlFrame) (now : Int) (fails : Bool) :
    Accepted event track (.markReceived frame now fails)
      (Control.markReceived db frame now fails) := by
  rcases markReceived_cases hformed frame now fails with
    hidle | ⟨row, log, hrow, hpass, -, -, heffect⟩
  · exact h.idle _ hidle
  · rw [heffect]
    by_cases hsame : frame.eventId = event
    · subst hsame
      have hrows := h.rows
      rw [hrow] at hrows
      have hclause := hpass
      simp only [Database.receivable, decide_eq_true_eq] at hclause
      obtain ⟨-, howner, htoken, hstate, hafter⟩ := hclause
      obtain ⟨hnone, grant, received, hphase, hheld, hworker, hlease, hcount, hattempt, hlatest⟩ :=
        hrows.held_of_leased (Or.inl hstate)
      -- the clause asks for `leased`, so receipt was not reported before
      obtain rfl : received = false := by
        cases received
        · rfl
        · simp [hstate] at hheld
      have hcurrent := current_of_clause howner htoken hafter hworker hlease hcount hlatest
      refine h.advance ⟨track.claims, .held grant true⟩ ?_ ?_
      · simp [observe, Track.follow, Track.step, hphase, hcurrent]
      · rw [event_updateEvents (Database.id_receiveRow _), hrow,
          show (db.updateEvents _ _).settlement frame.eventId = none from hnone]
        simp only [Option.map_some, hpass, if_true]
        exact .held _ _ _ _ rfl hworker hlease hcount hattempt hlatest
    · refine h.silent (by simp [observe, hsame]) ?_ rfl
      exact event_updateEvents_ne (Database.id_receiveRow _) (fun _ => id_of_receivable) hsame

/-- The settlement of an event that has none. -/
theorem settlement_insertSettlement {row : SettlementRow} (hnone : db.settlement row.eventId = none)
    (id : Bytes) :
    (db.insertSettlement row).settlement id =
      if row.eventId = id then some row else db.settlement id := by
  have hnew : ∀ other ∈ db.settlements, other.eventId ≠ row.eventId :=
    Table.lookup_eq_none_iff.mp hnone
  have hany : ¬(db.settlements.any fun other => other.eventId = row.eventId) = true := by
    simpa using hnew
  unfold Database.insertSettlement
  rw [if_neg hany]
  exact Table.lookup_concat hnew id

theorem event_insertSettlement (row : SettlementRow) (id : Bytes) :
    (db.insertSettlement row).event id = db.event id := by
  rw [Database.event, Database.events_insertSettlement]
  rfl

theorem settle (h : Simulates db event track) (hformed : db.WellFormed) (frame : ControlFrame)
    (now : Int) (fails : Bool) (hother : ∃ other, Simulates db frame.eventId other) :
    Accepted event track (.settle frame now fails) (Control.settle db frame now fails) := by
  rcases settle_cases hformed frame now fails with
    ⟨hidle, -⟩ | ⟨⟨hkind, -⟩, row, log, hrow, hpass, -, -, heffect⟩
  · exact h.idle _ hidle
  · have hclause := hpass
    simp only [Database.settleable, decide_eq_true_eq] at hclause
    obtain ⟨-, howner, htoken, hstate, hafter⟩ := hclause
    -- whoever is leased has no settlement yet
    have hfree : db.settlement frame.eventId = none := by
      obtain ⟨other, hsim⟩ := hother
      have hrows := hsim.rows
      rw [hrow] at hrows
      exact (hrows.held_of_leased hstate).1
    rw [heffect]
    by_cases hsame : frame.eventId = event
    · subst hsame
      have hrows := h.rows
      rw [hrow] at hrows
      obtain ⟨-, grant, received, hphase, hheld, hworker, hlease, hcount, hattempt, hlatest⟩ :=
        hrows.held_of_leased hstate
      have hcurrent := current_of_clause howner htoken hafter hworker hlease hcount hlatest
      refine h.advance
        ⟨track.claims, .settled ⟨frame.kind, frame.workerId, frame.fencingToken.toNat⟩⟩ ?_ ?_
      · simp [observe, Track.follow, Track.step, hphase, hcurrent]
      · show PhaseMatches ((Database.insertSettlement _ _).event frame.eventId)
          ((Database.insertSettlement _ _).settlement frame.eventId) _
        rw [event_insertSettlement, event_updateEvents (Database.id_releaseRow _ _), hrow,
          settlement_insertSettlement hfree, if_pos rfl]
        simp only [Option.map_some, hpass, if_true]
        exact .settled _ _ _ _ hkind rfl rfl rfl hcount hattempt (htoken.symm.trans hcount)
          ⟨rfl, rfl, rfl⟩
    · refine h.silent (by simp [observe, hsame]) ?_ ?_
      · show (Database.insertSettlement _ _).event event = db.event event
        rw [event_insertSettlement]
        exact event_updateEvents_ne (Database.id_releaseRow _ _) (fun _ => id_of_settleable) hsame
      · show (Database.insertSettlement _ _).settlement event = db.settlement event
        rw [settlement_insertSettlement hfree, if_neg hsame]
        rfl

theorem requeueExpired (h : Simulates db event track) (now : Int) (fails : Bool) :
    Accepted event track (.requeueExpired now fails) (Control.requeueExpired db now fails) := by
  cases fails with
  | true => exact h.idle _ (Effect.idle_failed db _)
  | false =>
      have hrows := h.rows
      have hevent : (Control.requeueExpired db now false).db.event event =
          (db.event event).map fun row =>
            if Database.overdue now row then Database.releaseRow .expired now row else row :=
        event_updateEvents (Database.id_releaseRow _ _) event
      have hsettlement : (Control.requeueExpired db now false).db.settlement event =
          db.settlement event := rfl
      have hshown : observe event (.requeueExpired now false)
          (Control.requeueExpired db now false) = [.requeued now] := rfl
      generalize hold : db.event event = old at hrows hevent
      generalize hkept : db.settlement event = kept at hrows hsettlement
      cases hrows with
      | absent =>
          refine h.advance _ rfl ?_
          rw [hevent, hsettlement]
          exact .absent
      | waiting row claims hstate howner hlease htoken hattempt =>
          have hnot : Database.overdue now row = false := by
            simp [Database.overdue, hlease]
          refine h.advance _ rfl ?_
          rw [hevent, hsettlement, Option.map_some, hnot]
          exact .waiting row claims hstate howner hlease htoken hattempt
      | held row claims grant received hstate howner hlease htoken hattempt hlatest =>
          have hleased : row.state = .leased ∨ row.state = .received := by
            cases received <;> simp [hstate]
          by_cases hdue : grant.deadline ≤ now
          · have hover : Database.overdue now row = true := by
              simp [Database.overdue, hlease, hleased, hdue]
            refine h.advance ⟨claims, .waiting⟩ ?_ ?_
            · simp [hshown, Track.follow, Track.step, hdue]
            · rw [hevent, hsettlement, Option.map_some, hover]
              exact .waiting _ claims (Or.inr rfl) rfl rfl htoken hattempt
          · have hnot : Database.overdue now row = false := by
              simp [Database.overdue, hlease, hdue]
            refine h.advance ⟨claims, .held grant received⟩ ?_ ?_
            · simp [hshown, Track.follow, Track.step, hdue]
            · rw [hevent, hsettlement, Option.map_some, hnot]
              exact .held row claims grant received hstate howner hlease htoken hattempt hlatest
      | settled row settlement claims verdict hkind hstate howner hlease htoken hattempt hlatest
          hrecorded =>
          have hnot : Database.overdue now row = false := by
            simp [Database.overdue, hlease]
          refine h.advance _ rfl ?_
          rw [hevent, hsettlement, Option.map_some, hnot]
          exact .settled row settlement claims verdict hkind hstate howner hlease htoken hattempt
            hlatest hrecorded

/-- **Step lemma**: what an action shows of an event is accepted, and the rows
still match. -/
theorem step (h : Simulates store.db event track) (hformed : store.db.WellFormed)
    (hall : ∀ id, ∃ other, Simulates store.db id other) (json : Json) (action : Action) :
    ∃ reached, track.follow (observe event action (store.effect json action)) = some reached ∧
      Simulates (store.step json action).db event reached := by
  cases action with
  | publish envelope now fails => exact h.publish json envelope now fails
  | claim workerId lease now fails => exact h.claim hformed json workerId lease now fails
  | markReceived frame now fails => exact h.markReceived hformed frame now fails
  | settle frame now fails => exact h.settle hformed frame now fails (hall frame.eventId)
  | requeueExpired now fails => exact h.requeueExpired now fails
  | resume index fails =>
      obtain ⟨hevents, hsettlements⟩ := effect_resume_tables json store index fails
      refine ⟨track, rfl, h.of_rows ?_ ?_⟩
      · exact congrArg (Table.lookup EventRow.id event) hevents
      · exact congrArg (Table.lookup SettlementRow.eventId event) hsettlements

end Simulates

/-- The whole store against the automata of all events. -/
structure Invariant (store : ControlStore) (tracks : Bytes → EventTrack) : Prop where
  formed : store.db.WellFormed
  simulates : ∀ event, Simulates store.db event (tracks event)

theorem invariant_empty : Invariant {} fun _ => Track.init where
  formed := ⟨List.nodup_nil, List.nodup_nil⟩
  simulates _ := ⟨Track.sound_init, .absent⟩

/-- **Run lemma**: every event follows its automaton through every run. -/
theorem Invariant.run (json : Json) {tracks : Bytes → EventTrack} (h : Invariant store tracks)
    (schedule : List Action) :
    ∃ reached : Bytes → EventTrack,
      (∀ event, (tracks event).follow (observations json event store schedule) =
        some (reached event)) ∧ Invariant (store.run json schedule) reached := by
  induction schedule generalizing store tracks with
  | nil => exact ⟨tracks, fun _ => rfl, h⟩
  | cons action rest ih =>
      -- one step for all events at once: `settle` needs the automaton of its own event
      have hstep := fun event => (h.simulates event).step h.formed
        (fun id => ⟨_, h.simulates id⟩) json action
      choose middle hfollow hsimulates using hstep
      obtain ⟨reached, hrest, hend⟩ := ih ⟨h.formed.effect json action, hsimulates⟩
      refine ⟨reached, fun event => ?_, hend⟩
      rw [observations, Track.follow_append, hfollow]
      exact hrest event

/-! ## Guarantees for one event -/

/-- The grants of an event in a run that starts with empty tables. -/
def leases (json : Json) (event : Bytes) (schedule : List Action) : List (Grant Bytes Int) :=
  grants (observations json event {} schedule)

/-- The frame of a `MarkReceived` or a `Settle`, and its clock reading. -/
def Action.report? : Action → Option (ControlFrame × Int)
  | .markReceived frame now _ | .settle frame now _ => some (frame, now)
  | _ => none

/-- Fencing and single settlement of an event over a run. -/
structure Fenced (json : Json) (schedule : List Action) (event : Bytes) : Prop where
  /-- The tokens of successive claims are one, two, three and so on. -/
  tokens : (leases json event schedule).map Grant.token =
    List.range' 1 (leases json event schedule).length
  /-- The token of the row counts the claims, and so does its attempt. -/
  attempts : ∀ row ∈ (ControlStore.run json {} schedule).db.events, row.id = event →
    row.fencingToken = row.attempt ∧ row.attempt = (leases json event schedule).length
  /-- Reports succeed for the latest claim only, before its deadline, and before a
  sweep at or past the deadline has released it. -/
  holder : ∀ before action after frame now, schedule = before ++ action :: after →
    action.report? = some (frame, now) → frame.eventId = event →
    ((ControlStore.run json {} before).effect json action).reply = .done →
    ∃ grant, (leases json event before).getLast? = some grant ∧
      grant.worker = frame.workerId ∧ grant.token = frame.fencingToken.toNat ∧
      now < grant.deadline ∧
      ∀ early sweep late, before = early ++ .requeueExpired sweep false :: late →
        leases json event early = leases json event before → sweep < grant.deadline
  /-- No second settlement succeeds. -/
  single : ∀ first frame now fails second other again failsAgain third,
    schedule = first ++ .settle frame now fails :: second ++ .settle other again failsAgain :: third →
    frame.eventId = event → other.eventId = event →
    ((ControlStore.run json {} first).effect json (.settle frame now fails)).reply = .done →
    ((ControlStore.run json {} (first ++ .settle frame now fails :: second)).effect json
      (.settle other again failsAgain)).reply ≠ .done
  /-- A settled row keeps its state, owner and token. -/
  frozen : ∀ before after, schedule = before ++ after →
    ∀ row ∈ (ControlStore.run json {} before).db.events, row.id = event →
      row.state.settled = true →
      ∃ later ∈ (ControlStore.run json {} schedule).db.events, later.id = event ∧
        later.state = row.state ∧ later.owner = row.owner ∧ later.fencingToken = row.fencingToken
  /-- There is a settlement exactly for a settled row. -/
  settlements : (∃ settlement ∈ (ControlStore.run json {} schedule).db.settlements,
      settlement.eventId = event) ↔
    ∃ row ∈ (ControlStore.run json {} schedule).db.events, row.id = event ∧
      row.state.settled = true
  /-- The settlement has the kind, worker and token of the row and its last claim. -/
  recorded : ∀ settlement ∈ (ControlStore.run json {} schedule).db.settlements,
    settlement.eventId = event →
    ∀ row ∈ (ControlStore.run json {} schedule).db.events, row.id = event →
      (settlement.kind = .settledOk ∧ row.state = .settledOk ∨
        settlement.kind = .settledError ∧ row.state = .settledError) ∧
      settlement.fencingToken = row.fencingToken ∧
      ∃ grant, (leases json event schedule).getLast? = some grant ∧
        settlement.workerId = grant.worker ∧ settlement.fencingToken = grant.token

section Guarantees

variable (json : Json) (event : Bytes) {before : List Action}

/-- Every event follows the automaton through a run from empty tables. -/
theorem follows (schedule : List Action) :
    ∃ track, Track.init.follow (observations json event {} schedule) = some track ∧
      track.claims = leases json event schedule ∧
      Simulates (ControlStore.run json {} schedule).db event track ∧
      (ControlStore.run json {} schedule).db.WellFormed ∧
      ∀ id, ∃ other, Simulates (ControlStore.run json {} schedule).db id other := by
  obtain ⟨reached, hfollow, hinvariant⟩ := invariant_empty.run json schedule
  refine ⟨reached event, hfollow event, ?_, hinvariant.simulates event, hinvariant.formed,
    fun id => ⟨_, hinvariant.simulates id⟩⟩
  rw [Track.claims_follow (hfollow event)]
  rfl

/-- A successful report is an accepted observation of the current grant. -/
theorem held_of_report (action : Action) (hreport : action.report? = some (frame, now))
    (hevent : frame.eventId = event)
    (hdone : ((ControlStore.run json {} before).effect json action).reply = .done)
    (hfollow : Track.init.follow (observations json event {} before) = some track) :
    ∃ grant received, track.phase = .held grant received ∧
      Track.Current grant frame.workerId frame.fencingToken.toNat now := by
  obtain ⟨same, hsame, -, hsimulates, hformed, hall⟩ := follows json event before
  obtain rfl : same = track := Option.some.inj (hsame.symm.trans hfollow)
  -- the automaton has accepted the report, and `effect_of_step` says under which guard
  obtain ⟨reached, hstep, -⟩ := hsimulates.step hformed hall json action
  cases action with
  | markReceived other at' fails =>
      obtain ⟨rfl, rfl⟩ : other = frame ∧ at' = now := by simpa [Action.report?] using hreport
      simp only [observe, hdone, hevent, if_true] at hstep
      obtain ⟨middle, haccepted, -⟩ := Track.follow_cons_eq_some_iff.mp hstep
      cases Track.effect_of_step haccepted with
      | received grant _ _ _ hphase hcurrent => exact ⟨grant, false, hphase, hcurrent⟩
  | settle other at' fails =>
      obtain ⟨rfl, rfl⟩ : other = frame ∧ at' = now := by simpa [Action.report?] using hreport
      simp only [observe, hdone, hevent, if_true] at hstep
      obtain ⟨middle, haccepted, -⟩ := Track.follow_cons_eq_some_iff.mp hstep
      cases Track.effect_of_step haccepted with
      | settled grant received _ _ hphase hcurrent => exact ⟨grant, received, hphase, hcurrent⟩
  | _ => cases hreport

/-- A row of the table is the row of its event. -/
theorem event_of_mem (hformed : db.WellFormed) (hrow : row ∈ db.events)
    (hid : row.id = event) : db.event event = some row :=
  (Table.lookup_eq_some_iff hformed.events).mpr ⟨hrow, hid⟩

theorem settlement_of_mem (hformed : db.WellFormed) {row : SettlementRow}
    (hrow : row ∈ db.settlements) (hid : row.eventId = event) : db.settlement event = some row :=
  (Table.lookup_eq_some_iff hformed.settlements).mpr ⟨hrow, hid⟩

/-- Reports succeed for the current holder only. -/
theorem holder_of_report (hreport : action.report? = some (frame, now))
    (hevent : frame.eventId = event)
    (hdone : ((ControlStore.run json {} before).effect json action).reply = .done) :
    ∃ grant, (leases json event before).getLast? = some grant ∧
      grant.worker = frame.workerId ∧ grant.token = frame.fencingToken.toNat ∧
      now < grant.deadline ∧
      ∀ early sweep late, before = early ++ .requeueExpired sweep false :: late →
        leases json event early = leases json event before → sweep < grant.deadline := by
  obtain ⟨track, hfollow, hclaims, hsimulates, -⟩ := follows json event before
  obtain ⟨grant, received, hheld, hworker, htoken, hdeadline⟩ :=
    held_of_report json event action hreport hevent hdone hfollow
  refine ⟨grant, hclaims ▸ hsimulates.sound.held grant received hheld, hworker, htoken, hdeadline,
    ?_⟩
  rintro early sweep late rfl hsame
  have hsplit : observations json event {} (early ++ .requeueExpired sweep false :: late) =
      observations json event {} early ++ .requeued sweep ::
        observations json event ((ControlStore.run json {} early).step json
          (.requeueExpired sweep false)) late := by
    rw [observations_append]
    rfl
  rw [hsplit] at hfollow
  refine Track.now_lt_deadline Track.sound_init hfollow hheld ?_
  -- the grants after the sweep are what the run has beyond those before it
  unfold leases at hsame
  rw [hsplit, grants_append, grants_cons] at hsame
  simpa [Observation.grant?] using hsame

/-- After a settlement no report succeeds. -/
theorem not_done_after_settle {first second : List Action} {other : ControlFrame} {again : Int}
    {fails failsAgain : Bool} (hframe : frame.eventId = event) (hother : other.eventId = event)
    (hdone : ((ControlStore.run json {} first).effect json (.settle frame now fails)).reply = .done) :
    ((ControlStore.run json {} (first ++ .settle frame now fails :: second)).effect json
      (.settle other again failsAgain)).reply ≠ .done := by
  intro hagain
  have hsplit : observations json event {} (first ++ .settle frame now fails :: second) =
      observations json event {} first ++
        .settled ⟨frame.kind, frame.workerId, frame.fencingToken.toNat⟩ now ::
          observations json event ((ControlStore.run json {} first).step json
            (.settle frame now fails)) second := by
    rw [observations_append]
    simp [observations, observe, hdone, hframe]
  obtain ⟨track, hfollow, -⟩ := follows json event (first ++ .settle frame now fails :: second)
  obtain ⟨grant, received, hheld, -⟩ :=
    held_of_report json event (.settle other again failsAgain) rfl hother hagain hfollow
  rw [hsplit] at hfollow
  obtain ⟨start, -, hrest⟩ := Track.follow_append_eq_some_iff.mp hfollow
  obtain ⟨settled, hstep, hsecond⟩ := Track.follow_cons_eq_some_iff.mp hrest
  cases Track.effect_of_step hstep with
  | settled _ _ verdict _ _ _ =>
      rw [Track.settled_follow hsecond rfl] at hheld
      cases hheld

/-- A settled row keeps its state, owner and token. -/
theorem frozen_of_settled {after : List Action}
    (hrow : row ∈ (ControlStore.run json {} before).db.events) (hid : row.id = event)
    (hsettled : row.state.settled = true) :
    ∃ later ∈ (ControlStore.run json {} (before ++ after)).db.events, later.id = event ∧
      later.state = row.state ∧ later.owner = row.owner ∧
      later.fencingToken = row.fencingToken := by
  obtain ⟨earlier, hearlier, -, hsimulates, hformed, -⟩ := follows json event before
  obtain ⟨track, hfollow, -, hlater, -⟩ := follows json event (before ++ after)
  have hrows := hsimulates.rows
  rw [event_of_mem event hformed hrow hid] at hrows
  obtain ⟨verdict, hphase⟩ := hrows.settled_of_state hsettled
  rw [observations_append, Track.follow_append, hearlier, Option.bind_some] at hfollow
  obtain rfl := Track.settled_follow hfollow hphase
  obtain ⟨later, hevent, hsame⟩ := hrows.eq_of_settled hlater.rows hphase
  obtain ⟨hmem, hlaterId⟩ := Table.mem_of_lookup hevent
  exact ⟨later, hmem, hlaterId, hsame⟩

end Guarantees

/-- **Fencing and single settlement**, for every event in every run: any number of
workers, any interleaving of their statements, any clock readings. -/
theorem fenced (json : Json) (schedule : List Action) (event : Bytes) :
    Fenced json schedule event := by
  obtain ⟨track, hfollow, hclaims, hsimulates, hformed, -⟩ := follows json event schedule
  have hrows := hsimulates.rows
  refine
    { tokens := hclaims ▸ hsimulates.sound.numbered
      attempts := ?_
      holder := ?_
      single := ?_
      frozen := ?_
      settlements := ?_
      recorded := ?_ }
  · intro row hrow hid
    rw [event_of_mem event hformed hrow hid] at hrows
    obtain ⟨htoken, hattempt⟩ := hrows.counts
    exact ⟨htoken.trans hattempt.symm, hclaims ▸ hattempt⟩
  · rintro before action after frame now rfl hreport hevent hdone
    exact holder_of_report json event hreport hevent hdone
  · rintro first frame now fails second other again failsAgain third rfl hframe hother hdone
    exact not_done_after_settle json event hframe hother hdone
  · rintro before after rfl row hrow hid hsettled
    exact frozen_of_settled json event hrow hid hsettled
  · constructor
    · rintro ⟨settlement, hmem, hid⟩
      rw [settlement_of_mem event hformed hmem hid] at hrows
      obtain ⟨row, hrow, hsettled⟩ := hrows.row_of_settlement
      obtain ⟨hrowMem, hrowId⟩ := Table.mem_of_lookup hrow
      exact ⟨row, hrowMem, hrowId, hsettled⟩
    · rintro ⟨row, hmem, hid, hsettled⟩
      rw [event_of_mem event hformed hmem hid] at hrows
      obtain ⟨settlement, hsettlement⟩ := hrows.settlement_of_row hsettled
      exact ⟨settlement, Table.mem_of_lookup hsettlement⟩
  · intro settlement hmem hid row hrow hrowId
    rw [event_of_mem event hformed hrow hrowId, settlement_of_mem event hformed hmem hid] at hrows
    obtain ⟨verdict, hphase, hkind, hworker, htoken, hcount⟩ := hrows.recorded
    obtain ⟨grant, hlast, hgrantWorker, hgrantToken⟩ := hsimulates.sound.settled verdict hphase
    refine ⟨hkind, hcount, grant, hclaims ▸ hlast, ?_, ?_⟩
    · rw [hworker, hgrantWorker]
    · rw [htoken, hgrantToken]

/-- An envelope and its JSON. -/
def invoice : Envelope where
  id := ascii "evt-2"
  event := ascii "Financial.createInvoice.request"
  correlationId := ascii "corr-1"
  causationId := ascii "cause-1"
  idempotencyKey := ascii "idem-2"
  schemaId := ascii "Financial.createInvoice.request@1"
  payload := ascii "\x7b\"invoice\":\"A-1\"\x7d"
  guarantee := .processed
  createdAtMs := 1000

def invoiceJson : Bytes :=
  ascii "\x7b\"id\":\"evt-2\",\"event\":\"Financial.createInvoice.request\"," ++
  ascii "\"correlation_id\":\"corr-1\",\"causation_id\":\"cause-1\"," ++
  ascii "\"idempotency_key\":\"idem-2\",\"schema_id\":\"Financial.createInvoice.request@1\"," ++
  ascii "\"payload\":\x7b\"invoice\":\"A-1\"\x7d,\"guarantee\":\"processed\"," ++
  ascii "\"created_at_ms\":1000\x7d"

/-- `encoding/json` on this envelope. -/
def invoiceCodec : Json where
  valid text := text = invoice.payload
  marshal envelope := if envelope = invoice then some invoiceJson else none
  unmarshal text := if text = invoiceJson then some invoice else none

/-- A first lease of ten milliseconds runs out and the event is claimed again. -/
def reassignedLease : List Action :=
  [.publish invoice 1000 false,
   .claim (ascii "worker-a") 10000000 1001 false,
   .requeueExpired 1016 false,
   .claim (ascii "worker-b") 1000000000 1017 false]

/-- A settlement by one of the workers. -/
def settlementBy (worker : String) (token : UInt64) : ControlFrame where
  kind := .settledOk
  eventId := ascii "evt-2"
  workerId := ascii worker
  fencingToken := token
  atMs := 1020

theorem fenced_reassignedLease :
    Fenced invoiceCodec reassignedLease (ascii "evt-2") ∧
    (leases invoiceCodec (ascii "evt-2") reassignedLease).map Grant.token = [1, 2] ∧
    (settle (ControlStore.run invoiceCodec {} reassignedLease).db
      (settlementBy "worker-a" 1) 1020 false).reply = .failed .staleLease ∧
    (settle (ControlStore.run invoiceCodec {} reassignedLease).db
      (settlementBy "worker-b" 2) 1020 false).reply = .done := by
  refine ⟨fenced invoiceCodec reassignedLease (ascii "evt-2"), ?_⟩
  decide +kernel

end Ubiq.Control
