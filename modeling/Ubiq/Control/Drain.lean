import Mathlib.Data.Set.Finite.Lattice
import Mathlib.Data.Set.Finite.List
import Ubiq.Control.Fencing
import Ubiq.Security.DigestTransport

/-!
# Draining the control store

`RequeueExpired` at a time after every deadline makes every unsettled event claimable, and the
claims that follow take the events in the order of `created_at_ms` and `id`. Each claim leases
its event before it reads the stored envelope, so an envelope that `encoding/json` does not give
back under the same id costs one claim and is not returned.

* `columns_of_reached`: owner and deadline are set exactly for leased and received events.
* `replies_of_waiting`: what repeated claims reply.
* `drains_iff_readable`, `readable_iff`: when the replies are the unsettled events.
-/

namespace Ubiq.Control

open Foundation
open Message
open Lease

/-! ## The order of claims -/

theorem claimable_of_no_candidate {rows : List EventRow} (h : Database.candidate rows = none) :
    ∀ row ∈ rows, Database.claimable row = false := by
  rw [candidate_eq_argmin, List.argmin_eq_none, List.filter_eq_nil_iff] at h
  exact fun row hrow => Bool.eq_false_iff.mpr (h row hrow)

/-- The candidate comes first among the claimable rows. -/
theorem key_le_of_candidate {rows : List EventRow} {best : EventRow}
    (h : Database.candidate rows = some best) :
    ∀ row ∈ rows, Database.claimable row = true → best.key ≤ row.key := by
  rw [candidate_eq_argmin] at h
  exact fun row hrow hclaimable => List.le_of_mem_argmin (List.mem_filter.mpr ⟨hrow, hclaimable⟩) h

/-- The claimable rows in the order in which they are claimed. -/
structure Waiting (db : Database) (rows : List EventRow) : Prop where
  perm : rows.Perm (db.events.filter Database.claimable)
  sorted : rows.Pairwise fun first second => first.key ≤ second.key

section Waiting

variable {db : Database} {row : EventRow} {rows : List EventRow}

theorem Waiting.mem_iff (h : Waiting db rows) :
    row ∈ rows ↔ row ∈ db.events ∧ Database.claimable row = true :=
  h.perm.mem_iff.trans List.mem_filter

theorem Waiting.candidate_nil (h : Waiting db []) : Database.candidate db.events = none := by
  cases hcandidate : Database.candidate db.events with
  | none => rfl
  | some best => exact absurd (h.mem_iff.mpr (candidate_spec hcandidate)) List.not_mem_nil

theorem Waiting.candidate_cons (hformed : db.WellFormed) (h : Waiting db (row :: rows)) :
    Database.candidate db.events = some row := by
  obtain ⟨hmem, hclaimable⟩ := h.mem_iff.mp List.mem_cons_self
  cases hcandidate : Database.candidate db.events with
  | none =>
      rw [claimable_of_no_candidate hcandidate row hmem] at hclaimable
      cases hclaimable
  | some best =>
      have hspec := candidate_spec hcandidate
      have hle := key_le_of_candidate hcandidate row hmem hclaimable
      have hge : row.key ≤ best.key := by
        rcases List.mem_cons.mp (h.mem_iff.mpr hspec) with rfl | hrest
        · exact le_rfl
        · exact (List.pairwise_cons.mp h.sorted).1 best hrest
      have hkey : best.key = row.key := le_antisymm hle hge
      have hid : best.id = row.id := congrArg (fun key => (ofLex key).2) hkey
      rw [List.inj_on_of_nodup_map hformed.events hspec.1 hmem hid]

/-- Claiming the first row leaves the others. -/
theorem Waiting.claimed (hformed : db.WellFormed) (h : Waiting db (row :: rows))
    (change : EventRow → EventRow)
    (hchange : ∀ other, Database.claimable (change other) = false) :
    Waiting (db.updateEvents (fun other => other.id = row.id) change) rows := by
  refine ⟨?_, (List.pairwise_cons.mp h.sorted).2⟩
  have hothers : (row :: rows).filter (fun other => other.id ≠ row.id) = rows := by
    have hnodup : ((row :: rows).map EventRow.id).Nodup :=
      (h.perm.map EventRow.id).nodup_iff.mpr
        (hformed.events.sublist (List.filter_sublist.map EventRow.id))
    rw [List.map_cons, List.nodup_cons] at hnodup
    rw [List.filter_cons_of_neg (by simp), List.filter_eq_self]
    intro other hother
    refine decide_eq_true fun hid => hnodup.1 ?_
    exact hid ▸ List.mem_map_of_mem hother
  have hupdated : (db.updateEvents (fun other => other.id = row.id) change).events.filter
      Database.claimable =
        (db.events.filter Database.claimable).filter fun other => other.id ≠ row.id := by
    rw [Database.updateEvents, Table.filter_update hchange]
    simp
  rw [hupdated, ← hothers]
  exact h.perm.filter _

end Waiting

/-! ## Repeated claims -/

/-- The arguments of a `Claim` that the store accepts, and its clock reading. -/
structure ClaimCall where
  workerId : Bytes
  lease : Int
  now : Int
  named : workerId ≠ []
  positive : 0 < lease

/-- The replies of repeated claims. -/
def replies (json : Json) : Database → List ClaimCall → List Reply
  | _, [] => []
  | db, call :: rest =>
      (claim json db call.workerId call.lease call.now false).reply ::
        replies json (claim json db call.workerId call.lease call.now false).db rest

/-- The id of the event that a claim returns. -/
def Reply.claimedId? : Reply → Option Bytes
  | .claimed event => some event.envelope.id
  | _ => none

/-- The id under which the envelope of a row is read back. -/
def readId? (json : Json) (row : EventRow) : Option Bytes :=
  (json.unmarshal row.envelope).map Envelope.id

/-- The replies are the events with these ids, in this order, and then nothing is available. -/
structure Drained (ids : List (Option Bytes)) (replies : List Reply) : Prop where
  events : (replies.take ids.length).map Reply.claimedId? = ids
  nothing : ∀ reply ∈ replies.drop ids.length, reply = .failed .nothingAvailable

variable {db : Database} {row : EventRow} {rows : List EventRow} {nowMs : Int}

theorem replies_of_empty (json : Json) (h : Waiting db [])
    (calls : List ClaimCall) :
    ∀ reply ∈ replies json db calls, reply = .failed .nothingAvailable := by
  induction calls with
  | nil => exact fun reply hreply => absurd hreply List.not_mem_nil
  | cons call rest ih =>
      rw [replies, claim_of_no_candidate json call.named call.positive call.now h.candidate_nil]
      exact List.forall_mem_cons.mpr ⟨rfl, ih⟩

/-- **Repeated claims** take the waiting rows one after the other, whether or not their envelopes
can be read. -/
theorem replies_of_waiting (json : Json) (hformed : db.WellFormed)
    (h : Waiting db rows) {calls : List ClaimCall}
    (hcalls : rows.length ≤ calls.length) :
    Drained (rows.map (readId? json)) (replies json db calls) := by
  induction rows generalizing db calls with
  | nil => exact ⟨rfl, replies_of_empty json h calls⟩
  | cons row rest ih =>
      cases calls with
      | nil => exact absurd hcalls (by simp)
      | cons call later =>
          have hcandidate := h.candidate_cons hformed
          have hleft := h.claimed hformed
            (Database.leaseRow call.workerId (claimUntil call.now call.lease) call.now)
            fun other => rfl
          have hrest := ih (hformed.updateEvents (Database.id_leaseRow _ _ _)) hleft
            (Nat.le_of_succ_le_succ hcalls)
          rw [replies, claim_of_candidate json hformed call.named call.positive call.now hcandidate]
          refine ⟨?_, hrest.nothing⟩
          rw [List.map_cons, List.length_cons, List.take_succ_cons, List.map_cons, hrest.events]
          congr 1
          cases hread : json.unmarshal row.envelope <;> simp [readId?, hread, Reply.claimedId?]

/-! ## Columns -/

/-- The event is leased or received. -/
def EventRow.Held (row : EventRow) : Prop :=
  row.state = .leased ∨ row.state = .received

/-- Owner and deadline are set exactly for leased and received events. -/
def Database.ColumnsMatch (db : Database) : Prop :=
  ∀ row ∈ db.events, (row.owner.isSome = true ↔ row.Held) ∧
    (row.leaseUntilMs.isSome = true ↔ row.Held)

theorem PhaseMatches.columns {settlement : Option SettlementRow}
    {track : EventTrack} (h : PhaseMatches (some row) settlement track) :
    (row.owner.isSome = true ↔ row.Held) ∧ (row.leaseUntilMs.isSome = true ↔ row.Held) := by
  cases h with
  | waiting _ claims hstate howner hlease =>
      have hheld : ¬row.Held := by
        rcases hstate with hstate | hstate <;> simp [EventRow.Held, hstate]
      simp [howner, hlease, hheld]
  | held _ claims grant received hstate howner hlease =>
      have hheld : row.Held := by
        cases received <;> simp [EventRow.Held, hstate]
      simp [howner, hlease, hheld]
  | settled _ _ claims verdict hkind hstate howner hlease =>
      have hheld : ¬row.Held := by
        rcases hkind with hkind | hkind <;> simp [EventRow.Held, hstate, hkind, settleTarget]
      simp [howner, hlease, hheld]

theorem columns_of_reached (json : Json) (schedule : List Action) :
    (ControlStore.run json {} schedule).db.ColumnsMatch := by
  intro row hrow
  obtain ⟨track, -, -, hsimulates, hformed, -⟩ := follows json row.id schedule
  have hrows := hsimulates.rows
  rw [event_of_mem row.id hformed hrow rfl] at hrows
  exact hrows.columns

/-! ## Draining -/

/-- The unsettled rows in the order of `created_at_ms` and `id`. -/
def unsettledRows (db : Database) : List EventRow :=
  (db.events.filter fun row => !row.state.settled).mergeSort Database.sortsBefore

theorem unsettledRows_perm (db : Database) :
    (unsettledRows db).Perm (db.events.filter fun row => !row.state.settled) :=
  List.mergeSort_perm _ _

theorem unsettledRows_sorted (db : Database) :
    (unsettledRows db).Pairwise fun first second => first.key ≤ second.key := by
  refine (List.pairwise_mergeSort ?_ ?_ _).imp fun h => sortsBefore_iff.mp h
  · intro first second third hfirst hsecond
    exact sortsBefore_iff.mpr ((sortsBefore_iff.mp hfirst).trans (sortsBefore_iff.mp hsecond))
  · intro first second
    rw [Bool.or_eq_true, sortsBefore_iff, sortsBefore_iff]
    exact le_total _ _

theorem mem_unsettledRows :
    row ∈ unsettledRows db ↔ row ∈ db.events ∧ row.state.settled = false := by
  rw [(unsettledRows_perm db).mem_iff, List.mem_filter, Bool.not_eq_true']

/-- What `RequeueExpired` does to a row. -/
def sweep (nowMs : Int) (row : EventRow) : EventRow :=
  if Database.overdue nowMs row then Database.releaseRow .expired nowMs row else row

theorem key_sweep (nowMs : Int) (row : EventRow) : (sweep nowMs row).key = row.key := by
  unfold sweep
  split <;> rfl

theorem readId?_sweep (json : Json) (nowMs : Int) (row : EventRow) :
    readId? json (sweep nowMs row) = readId? json row := by
  unfold sweep
  split <;> rfl

/-- After every deadline the sweep leaves exactly the settled rows unclaimable. -/
theorem claimable_sweep (hcolumns : db.ColumnsMatch)
    (hdeadlines : ∀ row ∈ db.events, ∀ untilMs ∈ row.leaseUntilMs, untilMs ≤ nowMs)
    (hrow : row ∈ db.events) :
    Database.claimable (sweep nowMs row) = !row.state.settled := by
  obtain ⟨-, hlease⟩ := hcolumns row hrow
  by_cases hheld : row.Held
  · obtain ⟨untilMs, huntil⟩ := Option.isSome_iff_exists.mp (hlease.mpr hheld)
    have hoverdue : Database.overdue nowMs row = true := by
      simpa [Database.overdue, huntil] using
        ⟨hheld, hdeadlines row hrow untilMs huntil⟩
    rw [sweep, if_pos hoverdue]
    rcases hheld with hstate | hstate <;> rw [hstate] <;> rfl
  · have hnone : Database.overdue nowMs row = false := by
      simp only [Database.overdue, decide_eq_false_iff_not, not_and]
      exact fun h => absurd h hheld
    rw [sweep, if_neg (by simp [hnone])]
    unfold EventRow.Held at hheld
    cases hstate : row.state <;> simp_all [Database.claimable, DeliveryState.settled]

theorem waiting_of_requeued (hcolumns : db.ColumnsMatch)
    (hdeadlines : ∀ row ∈ db.events, ∀ untilMs ∈ row.leaseUntilMs, untilMs ≤ nowMs) :
    Waiting (requeueExpired db nowMs false).db ((unsettledRows db).map (sweep nowMs)) := by
  constructor
  · have hfilter : (db.events.map (sweep nowMs)).filter Database.claimable =
        (db.events.filter fun row => !row.state.settled).map (sweep nowMs) := by
      rw [List.filter_map]
      refine congrArg _ (List.filter_congr fun row hrow => ?_)
      exact claimable_sweep hcolumns hdeadlines hrow
    show ((unsettledRows db).map (sweep nowMs)).Perm
      ((db.events.map (sweep nowMs)).filter Database.claimable)
    rw [hfilter]
    exact (unsettledRows_perm db).map _
  · rw [List.pairwise_map]
    refine (unsettledRows_sorted db).imp fun h => ?_
    rwa [key_sweep, key_sweep]

/-- After a sweep at any time that is not before a deadline, enough claims return the unsettled
events in order and then nothing. -/
def Drains (json : Json) (db : Database) : Prop :=
  ∀ nowMs, (∀ row ∈ db.events, ∀ untilMs ∈ row.leaseUntilMs, untilMs ≤ nowMs) →
    ∀ calls : List ClaimCall, (unsettledRows db).length < calls.length →
      Drained ((unsettledRows db).map fun row => some row.id)
        (replies json (requeueExpired db nowMs false).db calls)

theorem replies_of_requeued (json : Json) (hformed : db.WellFormed)
    (hcolumns : db.ColumnsMatch)
    (hdeadlines : ∀ row ∈ db.events, ∀ untilMs ∈ row.leaseUntilMs, untilMs ≤ nowMs)
    {calls : List ClaimCall} (hcalls : (unsettledRows db).length < calls.length) :
    Drained ((unsettledRows db).map (readId? json))
      (replies json (requeueExpired db nowMs false).db calls) := by
  have hwaiting := waiting_of_requeued hcolumns hdeadlines
  have hlength : ((unsettledRows db).map (sweep nowMs)).length ≤ calls.length := by
    rw [List.length_map]
    exact hcalls.le
  have hdrained := replies_of_waiting json
    (hformed.updateEvents (Database.id_releaseRow _ _)) hwaiting hlength
  have hsame : readId? json ∘ sweep nowMs = readId? json :=
    funext fun row => readId?_sweep json nowMs row
  rwa [List.map_map, hsame] at hdrained

theorem exists_after_deadlines (rows : List EventRow) :
    ∃ nowMs, ∀ row ∈ rows, ∀ untilMs ∈ row.leaseUntilMs, untilMs ≤ nowMs := by
  obtain ⟨nowMs, hbound⟩ := (rows.filterMap EventRow.leaseUntilMs).finite_toSet.bddAbove
  refine ⟨nowMs, fun row hrow untilMs huntil => hbound ?_⟩
  exact List.mem_filterMap.mpr ⟨row, hrow, huntil⟩

/-- The store is drained exactly if the stored envelopes are read back under the ids of their
rows. -/
theorem drains_iff_readable (json : Json) (hformed : db.WellFormed)
    (hcolumns : db.ColumnsMatch) :
    Drains json db ↔
      ∀ row ∈ db.events, row.state.settled = false → readId? json row = some row.id := by
  have hsame : (unsettledRows db).map (readId? json) =
      (unsettledRows db).map (fun row => some row.id) ↔
        ∀ row ∈ db.events, row.state.settled = false → readId? json row = some row.id := by
    rw [List.map_inj_left]
    constructor
    · exact fun h row hrow hunsettled => h row (mem_unsettledRows.mpr ⟨hrow, hunsettled⟩)
    · intro h row hrow
      obtain ⟨hmem, hunsettled⟩ := mem_unsettledRows.mp hrow
      exact h row hmem hunsettled
  rw [← hsame]
  constructor
  · intro hdrains
    obtain ⟨nowMs, hdeadlines⟩ := exists_after_deadlines db.events
    let call : ClaimCall := ⟨ascii "w", 1, 0, by decide, by decide⟩
    have hcalls : (unsettledRows db).length <
        (List.replicate ((unsettledRows db).length + 1) call).length := by
      rw [List.length_replicate]
      exact Nat.lt_succ_self _
    have hexpected := (hdrains nowMs hdeadlines _ hcalls).events
    have hactual := (replies_of_requeued json hformed hcolumns hdeadlines hcalls).events
    rw [List.length_map] at hexpected hactual
    rw [← hactual, hexpected]
  · intro heq nowMs hdeadlines calls hcalls
    rw [← heq]
    exact replies_of_requeued json hformed hcolumns hdeadlines hcalls

/-! ## Where the rows come from -/

/-- The row was inserted for this envelope: the call is one of the schedule, and `Publish` has
accepted it. -/
structure StoredFrom (json : Json) (schedule : List Action) (envelope : Envelope)
    (row : EventRow) : Prop where
  called : ∃ now fails, Action.publish envelope now fails ∈ schedule
  valid : envelope.validate json.valid = .ok ()
  id : envelope.id = row.id
  stored : json.marshal envelope = some row.envelope

/-- An update of `events` keeps ids and envelopes. -/
theorem stored_updateEvents {test : EventRow → Bool} {change : EventRow → EventRow}
    (hrow : row ∈ (db.updateEvents test change).events)
    (hchange : ∀ row, (change row).id = row.id ∧ (change row).envelope = row.envelope) :
    ∃ old ∈ db.events, old.id = row.id ∧ old.envelope = row.envelope := by
  obtain ⟨old, hold, rfl⟩ := List.mem_map.mp hrow
  refine ⟨old, hold, ?_⟩
  split
  · exact ⟨(hchange old).1.symm, (hchange old).2.symm⟩
  · exact ⟨rfl, rfl⟩

/-- A step inserts the row of an accepted publication, or keeps ids and envelopes. -/
theorem stored_effect {store : ControlStore} (hformed : store.db.WellFormed) (json : Json)
    (action : Action) (hrow : row ∈ (store.effect json action).db.events) :
    (∃ old ∈ store.db.events, old.id = row.id ∧ old.envelope = row.envelope) ∨
      ∃ envelope, StoredFrom json [action] envelope row := by
  have hkept : ∀ {db : Database}, db = store.db → row ∈ db.events →
      ∃ old ∈ store.db.events, old.id = row.id ∧ old.envelope = row.envelope :=
    fun hdb hmem => ⟨row, hdb ▸ hmem, rfl, rfl⟩
  cases action with
  | publish envelope now fails =>
      rcases publish_cases json store.db envelope now fails with
        hidle | ⟨inserted, hid, -, -, hvalid, hraw, heffect⟩
      · exact Or.inl (hkept hidle.db hrow)
      · change row ∈ (publish json store.db envelope now fails).db.events at hrow
        rw [heffect] at hrow
        rcases List.mem_append.mp hrow with hold | hnew
        · exact Or.inl ⟨row, hold, rfl, rfl⟩
        · obtain rfl := List.mem_singleton.mp hnew
          exact Or.inr ⟨envelope, ⟨now, fails, List.mem_singleton.mpr rfl⟩, hvalid, hid.symm, hraw⟩
  | claim workerId lease now fails =>
      left
      rcases claim_cases json hformed workerId lease now fails with hidle | ⟨_, -, -, hdb, -⟩
      · exact hkept hidle.db hrow
      · change row ∈ (claim json store.db workerId lease now fails).db.events at hrow
        rw [hdb] at hrow
        exact stored_updateEvents hrow fun _ => ⟨rfl, rfl⟩
  | markReceived frame now fails =>
      left
      rcases markReceived_cases hformed frame now fails with hidle | ⟨_, _, -, -, -, -, heffect⟩
      · exact hkept hidle.db hrow
      · change row ∈ (markReceived store.db frame now fails).db.events at hrow
        rw [heffect] at hrow
        exact stored_updateEvents hrow fun _ => ⟨rfl, rfl⟩
  | settle frame now fails =>
      left
      rcases settle_cases hformed frame now fails with
        ⟨hidle, -⟩ | ⟨-, _, _, -, -, -, -, heffect⟩
      · exact hkept hidle.db hrow
      · change row ∈ (settle store.db frame now fails).db.events at hrow
        rw [heffect, Database.insertHistory, Database.events_insertSettlement] at hrow
        exact stored_updateEvents hrow fun _ => ⟨rfl, rfl⟩
  | requeueExpired now fails =>
      left
      cases fails with
      | true => exact hkept rfl hrow
      | false => exact stored_updateEvents hrow fun _ => ⟨rfl, rfl⟩
  | resume index fails =>
      rw [(effect_resume_tables json store index fails).1] at hrow
      exact Or.inl ⟨row, hrow, rfl, rfl⟩

/-- **Every row comes from an accepted publication.** -/
theorem storedFrom_of_reached (json : Json) (schedule : List Action)
    (hrow : row ∈ (ControlStore.run json {} schedule).db.events) :
    ∃ envelope, StoredFrom json schedule envelope row := by
  let motive (store : ControlStore) : Prop := store.db.WellFormed ∧
    ∀ row ∈ store.db.events, ∃ envelope, StoredFrom json schedule envelope row
  have hreached : motive (ControlStore.run json {} schedule) := by
    have hempty : motive {} :=
      ⟨⟨List.nodup_nil, List.nodup_nil⟩, fun row hrow => absurd hrow List.not_mem_nil⟩
    refine Execution.invariant_run_of_forall
      (fun store action hstore (haction : action ∈ schedule) => ?_) hempty fun action h => h
    obtain ⟨hformed, hrows⟩ := hstore
    refine ⟨hformed.effect json action, fun row hrow => ?_⟩
    rcases stored_effect hformed json action hrow with
      ⟨old, hold, hid, henvelope⟩ | ⟨envelope, ⟨now, fails, hcalled⟩, hvalid, hid, hraw⟩
    · obtain ⟨envelope, hcalled, hvalid, hsame, hraw⟩ := hrows old hold
      exact ⟨envelope, hcalled, hvalid, hsame.trans hid, henvelope ▸ hraw⟩
    · obtain rfl := List.mem_singleton.mp hcalled
      exact ⟨envelope, ⟨now, fails, haction⟩, hvalid, hid, hraw⟩
  exact hreached.2 row hrow

/-! ## With `encoding/json` -/

/-- `encoding/json` gives the envelope back under its id. -/
def Recoverable (envelope : Envelope) : Prop :=
  Utf8.valid envelope.id = true

theorem readable_iff {schedule : List Action} {envelope : Envelope}
    (h : StoredFrom Security.encodingJson schedule envelope row) :
    readId? Security.encodingJson row = some row.id ↔ Recoverable envelope := by
  obtain ⟨hrange, hmarshal⟩ := Security.encodingJson_marshal_iff.mp h.stored
  obtain ⟨payload, hread⟩ := unmarshal_of_marshal hrange hmarshal
  unfold readId? Recoverable
  show (unmarshalEnvelope _).map Envelope.id = _ ↔ _
  rw [hread, ← h.id, Option.map_some, Option.some_inj]
  exact Utf8.repair_eq_self_iff

/-- No event is stranded: the columns match the states, and the store can be drained. -/
structure NoneStranded (db : Database) : Prop where
  columns : db.ColumnsMatch
  drains : Drains Security.encodingJson db

/-- **No event is stranded** exactly if every unsettled event was published under an id in valid
UTF-8. -/
theorem noneStranded_iff (schedule : List Action) :
    NoneStranded (ControlStore.run Security.encodingJson {} schedule).db ↔
      ∀ row ∈ (ControlStore.run Security.encodingJson {} schedule).db.events,
        row.state.settled = false →
          ∀ envelope, StoredFrom Security.encodingJson schedule envelope row →
            Recoverable envelope := by
  have hcolumns := columns_of_reached Security.encodingJson schedule
  obtain ⟨-, -, -, -, hformed, -⟩ := follows Security.encodingJson [] schedule
  constructor
  · intro hstranded row hrow hunsettled envelope hstored
    have hread := (drains_iff_readable _ hformed hcolumns).mp hstranded.drains row hrow hunsettled
    exact (readable_iff hstored).mp hread
  · intro h
    refine ⟨hcolumns, (drains_iff_readable _ hformed hcolumns).mpr fun row hrow hunsettled => ?_⟩
    obtain ⟨envelope, hstored⟩ := storedFrom_of_reached Security.encodingJson schedule hrow
    exact (readable_iff hstored).mpr (h row hrow hunsettled envelope hstored)

/-- An event is published and leased. -/
def spacedRun : List Action :=
  [.publish Security.spacedEnvelope 0 false,
   .claim (ascii "w") 10000000 5 false]

theorem noneStranded_spacedRun :
    (ControlStore.run Security.encodingJson {} spacedRun).db.events.map EventRow.state = [.leased] ∧
      NoneStranded (ControlStore.run Security.encodingJson {} spacedRun).db := by
  refine ⟨by decide +kernel, (noneStranded_iff spacedRun).mpr ?_⟩
  intro row hrow hunsettled envelope hstored
  obtain ⟨now, fails, hmem⟩ := hstored.called
  simp only [spacedRun, List.mem_cons, Action.publish.injEq, reduceCtorEq, List.not_mem_nil,
    or_false] at hmem
  rw [hmem.1]
  exact (by decide +kernel : Utf8.valid Security.spacedEnvelope.id = true)

/-- An event whose id is a byte that begins no character. -/
def strayRun : List Action :=
  [.publish { Security.spacedEnvelope with id := [0xFF], security := none } 0 false]

/-- The claim returns the event under the id U+FFFD, which is not in the table. -/
theorem not_noneStranded_strayRun :
    (ControlStore.run Security.encodingJson {} strayRun).db.events.map EventRow.id = [[0xFF]] ∧
      (claim Security.encodingJson (ControlStore.run Security.encodingJson {} strayRun).db
        (ascii "w") 1 0 false).reply.claimedId? = some [0xEF, 0xBF, 0xBD] ∧
      ¬NoneStranded (ControlStore.run Security.encodingJson {} strayRun).db := by
  obtain ⟨hids, hclaimed, hunread⟩ :
      (ControlStore.run Security.encodingJson {} strayRun).db.events.map EventRow.id = [[0xFF]] ∧
      (claim Security.encodingJson (ControlStore.run Security.encodingJson {} strayRun).db
        (ascii "w") 1 0 false).reply.claimedId? = some [0xEF, 0xBF, 0xBD] ∧
      ∀ row ∈ (ControlStore.run Security.encodingJson {} strayRun).db.events,
        row.state.settled = false ∧ readId? Security.encodingJson row ≠ some row.id := by
    decide +kernel
  refine ⟨hids, hclaimed, fun hstranded => ?_⟩
  obtain ⟨-, -, -, -, hformed, -⟩ := follows Security.encodingJson [] strayRun
  have hread := (drains_iff_readable _ hformed hstranded.columns).mp hstranded.drains
  obtain ⟨row, hrow, -⟩ := List.mem_map.mp (hids ▸ List.mem_singleton_self ([0xFF] : Bytes))
  obtain ⟨hunsettled, hother⟩ := hunread row hrow
  exact hother (hread row hrow hunsettled)

end Ubiq.Control
