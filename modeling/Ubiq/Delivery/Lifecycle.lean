import Ubiq.Delivery.MemoryBroker

/-!
# The life of a record

What one call can do to one record of the memory broker is said once, by `RecordStep`;
the laws of whole runs follow from it by induction over the calls. `Lifecycle` collects
them: a record keeps its index and envelope, only the worker of its latest claim reports
on it and only until a reap has expired that claim, it is settled at most once and final
from then on, a failed call changes nothing, and after a reap of all leases the claims
hand out every unsettled record once, in the order of the indices.
-/

namespace Ubiq.Delivery

open Foundation
open Ubiq.Core (Envelope)
open Message (EventState)

namespace Event

/-- A claim that was given the record. -/
def claims (index : Nat) (event : Event) : Bool :=
  match event.action, event.reply with
  | .claim _ _ _, .index position => position = index
  | _, _ => false

/-- A settlement of the record. -/
def settles (index : Nat) (event : Event) : Bool :=
  match event.action, event.reply with
  | .settle position _ _, .done => position = index
  | _, _ => false

/-- A reap that expires leases with the deadline. -/
def expires (deadline : Nat) (event : Event) : Bool :=
  match event.action, event.reply with
  | .reapExpired nowMs, .done => deadline ≤ nowMs
  | _, _ => false

end Event

/-- The latest claim of the record was made by the worker and has not been expired. -/
def Tenure (history : List Event) (index : Nat) (worker : Bytes) (deadline : Nat) : Prop :=
  ∃ earlier nowMs leaseMs later,
    history = earlier ++ ⟨.claim worker nowMs leaseMs, .index index⟩ :: later ∧
    deadline = nowMs + leaseMs ∧
    ∀ event ∈ later, event.claims index = false ∧ event.expires deadline = false

variable {index nowMs : Nat} {event : Event} {after : DeliveryRecord} {reply : Reply}

variable {record : DeliveryRecord}

theorem Tenure.concat {history : List Event} {deadline : Nat} {worker : Bytes}
    (h : Tenure history index worker deadline) (hclaims : event.claims index = false)
    (hexpires : event.expires deadline = false) :
    Tenure (history ++ [event]) index worker deadline := by
  obtain ⟨earlier, nowMs, leaseMs, later, rfl, hdeadline, hlater⟩ := h
  exact ⟨earlier, nowMs, leaseMs, later ++ [event], by simp, hdeadline, List.forall_mem_append.mpr
    ⟨hlater, List.forall_mem_singleton.mpr ⟨hclaims, hexpires⟩⟩⟩

/-! ## One record -/

theorem DeliveryRecord.reap_overdue (record : DeliveryRecord) {lease : Lease}
    (hwork : record.state.inWork = true) (hlease : record.lease = some lease)
    (hle : lease.untilMs ≤ nowMs) : record.reap nowMs = { record with state := .expired } := by
  unfold DeliveryRecord.reap
  rw [if_pos (of_decide_eq_true hwork)]
  simp [hlease, Lease.active, hle]

theorem DeliveryRecord.reap_current (record : DeliveryRecord) (h : ¬(record.state.inWork = true ∧
      ∃ lease, record.lease = some lease ∧ lease.untilMs ≤ nowMs)) :
    record.reap nowMs = record := by
  unfold DeliveryRecord.reap
  split
  · rename_i hstate
    cases hlease : record.lease with
    | none => rfl
    | some lease =>
        have hactive : nowMs < lease.untilMs :=
          not_le.mp fun hle => h ⟨decide_eq_true hstate, lease, hlease, hle⟩
        simp [Lease.active, hactive]
  · rfl

/-- What a call can do to the record at an index. -/
inductive RecordStep (index : Nat) (record : DeliveryRecord) : Event → DeliveryRecord → Prop
  | kept (event : Event) (hclaims : event.claims index = false)
      (hsettles : event.settles index = false)
      (hexpires : record.state.inWork = true →
        ∀ lease, record.lease = some lease → event.expires lease.untilMs = false) :
      RecordStep index record event record
  | claimed (worker : Bytes) (nowMs leaseMs : Nat)
      (hstate : needsRedelivery record.state = true) :
      RecordStep index record ⟨.claim worker nowMs leaseMs, .index index⟩
        (record.claimedBy worker nowMs leaseMs)
  | received (lease : Lease) (hlease : record.lease = some lease)
      (hstate : record.state = .leased) :
      RecordStep index record ⟨.markReceived index lease.owner, .done⟩
        { record with state := .received }
  | settled (result : EventState) (lease : Lease) (target : DeliveryState)
      (hlease : record.lease = some lease) (hstate : record.state.inWork = true)
      (htarget : result = .ok ∧ target = .settledOk ∨ result = .error ∧ target = .settledError) :
      RecordStep index record ⟨.settle index lease.owner result, .done⟩
        { record with state := target, lease := none }
  | expired (nowMs : Nat) (lease : Lease) (hlease : record.lease = some lease)
      (hstate : record.state.inWork = true) (hle : lease.untilMs ≤ nowMs) :
      RecordStep index record ⟨.reapExpired nowMs, .done⟩ { record with state := .expired }

theorem RecordStep.envelope (h : RecordStep index record event after) :
    after.envelope = record.envelope := by
  cases h <;> rfl

namespace MemoryBroker

variable {capacity : Nat} {broker next : MemoryBroker capacity}

/-- The record at an index after the record at another or the same one is changed. -/
theorem getElem?_modify (index other : Nat) (change : DeliveryRecord → DeliveryRecord) :
    (broker.modify other change).records[index]? =
      if other = index then broker.records[index]?.map change else broker.records[index]? := by
  unfold modify
  rw [List.getElem?_modify]
  by_cases h : other = index
  · simp [h]
  · simp [h]

theorem recordStep_reap (index : Nat) (record : DeliveryRecord) (nowMs : Nat) :
    RecordStep index record ⟨.reapExpired nowMs, .done⟩ (record.reap nowMs) := by
  by_cases hdue : record.state.inWork = true ∧
      ∃ lease, record.lease = some lease ∧ lease.untilMs ≤ nowMs
  · obtain ⟨hwork, lease, hlease, hle⟩ := hdue
    rw [record.reap_overdue hwork hlease hle]
    exact .expired nowMs lease hlease hwork hle
  · rw [record.reap_current hdue]
    refine .kept _ rfl rfl fun hwork lease hlease => decide_eq_false fun hle => ?_
    exact hdue ⟨hwork, lease, hlease, hle⟩

/-- A change of the record at `position`, seen from the record at `index`. -/
theorem recordStep_modify {position : Nat} {chosen : DeliveryRecord}
    {change : DeliveryRecord → DeliveryRecord} (hget : broker.records[position]? = some chosen)
    (hrecord : broker.records[index]? = some record)
    (hchanged : RecordStep position chosen event (change chosen))
    (hkept : position ≠ index → RecordStep index record event record) :
    ∃ after, (broker.modify position change).records[index]? = some after ∧
      RecordStep index record event after := by
  rw [getElem?_modify]
  by_cases hposition : position = index
  · subst hposition
    rw [hrecord] at hget
    cases hget
    exact ⟨change record, by rw [if_pos rfl, hrecord]; rfl, hchanged⟩
  · exact ⟨record, by rw [if_neg hposition, hrecord], hkept hposition⟩

/-- A call takes every record of the broker one `RecordStep` further. -/
theorem Effect.recordStep {action : Action}
    (heffect : Effect broker action next reply)
    (hrecord : broker.records[index]? = some record) :
    ∃ after, next.records[index]? = some after ∧
      RecordStep index record ⟨action, reply⟩ after := by
  cases heffect with
  | failed action err =>
      refine ⟨record, hrecord, .kept _ ?_ ?_ fun _ lease _ => ?_⟩
      · cases action <;> rfl
      · cases action <;> rfl
      · cases action <;> rfl
  | duplicate envelope position hfind => exact ⟨record, hrecord, .kept _ rfl rfl fun _ _ _ => rfl⟩
  | published envelope next hnew hrecords =>
      refine ⟨record, ?_, .kept _ rfl rfl fun _ _ _ => rfl⟩
      rw [hrecords, List.getElem?_append_left (List.getElem?_eq_some_iff.mp hrecord).1]
      exact hrecord
  | claimed worker nowMs leaseMs position chosen hget hstate =>
      refine recordStep_modify hget hrecord (.claimed worker nowMs leaseMs hstate) fun hne => ?_
      exact .kept _ (decide_eq_false hne) rfl fun _ _ _ => rfl
  | received position chosen lease hget hlease hstate =>
      refine recordStep_modify hget hrecord (.received lease hlease hstate) fun hne => ?_
      exact .kept _ rfl rfl fun _ _ _ => rfl
  | settled position result chosen lease target hget hlease hstate htarget =>
      refine recordStep_modify hget hrecord
        (.settled result lease target hlease hstate htarget) fun hne => ?_
      exact .kept _ rfl (decide_eq_false hne) fun _ _ _ => rfl
  | reaped nowMs =>
      refine ⟨record.reap nowMs, ?_, recordStep_reap index record nowMs⟩
      simp [reapExpired, hrecord]

/-- A record that a call adds is a publication at the end. -/
theorem Effect.new_record {action : Action}
    (heffect : Effect broker action next reply) (hafter : next.records[index]? = some after)
    (hnone : broker.records[index]? = none) :
    ∃ envelope, action = .publish envelope ∧ after = { envelope := envelope } := by
  have hmodify : ∀ position change,
      ¬(broker.modify position change).records[index]? = some after := by
    intro position change h
    rw [getElem?_modify, hnone] at h
    split at h <;> cases h
  cases heffect with
  | failed action err => exact absurd (hnone.symm.trans hafter) (Option.some_ne_none after).symm
  | duplicate envelope position hfind =>
      exact absurd (hnone.symm.trans hafter) (Option.some_ne_none after).symm
  | published envelope next hnew hrecords =>
      rw [hrecords, List.getElem?_append_right (List.getElem?_eq_none_iff.mp hnone)] at hafter
      exact ⟨envelope, rfl, List.mem_singleton.mp (List.mem_of_getElem? hafter)⟩
  | claimed worker nowMs leaseMs position chosen hget hstate => exact absurd hafter (hmodify _ _)
  | received position chosen lease hget hlease hstate => exact absurd hafter (hmodify _ _)
  | settled position result chosen lease target hget hlease hstate htarget =>
      exact absurd hafter (hmodify _ _)
  | reaped nowMs => simp [reapExpired, hnone] at hafter

end MemoryBroker

section States

variable {state : DeliveryState}

theorem isSettled_of_inWork (h : state.inWork = true) : state.isSettled = false := by
  cases state <;> first | rfl | cases h

theorem isSettled_of_needsRedelivery (h : needsRedelivery state = true) :
    state.isSettled = false := by
  cases state <;> first | rfl | cases h

theorem needsRedelivery_of_idle (h : ¬state.inWork = true) :
    needsRedelivery state = !state.isSettled := by
  cases state <;> first | rfl | exact absurd rfl h

/-- A call moves the state of a record the way `settlement.transition` allows, or claims a
record that needs redelivery. -/
theorem RecordStep.follows (h : RecordStep index record event after) :
    after.state = record.state ∨
      (needsRedelivery record.state = true ∧ after.state = .leased) ∨
      ∃ kind, transition record.state kind = some after.state := by
  cases h with
  | kept event hclaims hsettles hexpires => exact Or.inl rfl
  | claimed worker nowMs leaseMs hstate => exact Or.inr (Or.inl ⟨hstate, rfl⟩)
  | received lease hlease hstate => exact Or.inr (Or.inr ⟨.received, if_pos hstate⟩)
  | settled result lease target hlease hstate htarget =>
      rcases htarget with ⟨-, rfl⟩ | ⟨-, rfl⟩
      · exact Or.inr (Or.inr ⟨.settledOk, if_pos hstate⟩)
      · exact Or.inr (Or.inr ⟨.settledError, if_pos hstate⟩)
  | expired nowMs lease hlease hstate hle => exact Or.inr (Or.inr ⟨.leaseExpired, if_pos hstate⟩)

/-- A settled record is left alone. -/
theorem RecordStep.of_settled (h : RecordStep index record event after)
    (hsettled : record.isSettled = true) :
    after = record ∧ event.claims index = false ∧ event.settles index = false := by
  have hwork : ¬record.state.inWork = true := fun hwork =>
    Bool.false_ne_true ((isSettled_of_inWork hwork).symm.trans hsettled)
  cases h with
  | kept event hclaims hsettles hexpires => exact ⟨rfl, hclaims, hsettles⟩
  | claimed worker nowMs leaseMs hstate =>
      exact absurd ((isSettled_of_needsRedelivery hstate).symm.trans hsettled) Bool.false_ne_true
  | received lease hlease hstate => exact absurd (by rw [hstate]; rfl) hwork
  | settled result lease target hlease hstate htarget => exact absurd hstate hwork
  | expired nowMs lease hlease hstate hle => exact absurd hstate hwork

end States

/-- What the calls so far say about the record at an index. -/
structure Tracked (history : List Event) (index : Nat) (record : DeliveryRecord) : Prop where
  leaseless : record.lease = none ↔ record.state = .published ∨ record.isSettled = true
  held : record.state.inWork = true → ∀ lease, record.lease = some lease →
    Tenure history index lease.owner lease.untilMs
  settledOnce : history.countP (Event.settles index) = if record.isSettled then 1 else 0

theorem RecordStep.tracked {history : List Event}
    (h : RecordStep index record event after) (htracked : Tracked history index record) :
    Tracked (history ++ [event]) index after := by
  obtain ⟨hleaseless, hheld, hsettledOnce⟩ := htracked
  cases h with
  | kept event hclaims hsettles hexpires =>
      refine ⟨hleaseless, fun hwork lease hlease => ?_, ?_⟩
      · exact (hheld hwork lease hlease).concat hclaims (hexpires hwork lease hlease)
      · rw [List.countP_append, hsettledOnce]
        simp [hsettles]
  | claimed worker nowMs leaseMs hstate =>
      refine ⟨?_, fun _ lease hlease => ?_, ?_⟩
      · simp [DeliveryRecord.claimedBy, DeliveryRecord.isSettled, DeliveryState.isSettled]
      · cases hlease
        exact ⟨history, nowMs, leaseMs, [], rfl, rfl, fun _ h => absurd h List.not_mem_nil⟩
      · have hbefore : record.isSettled = false := isSettled_of_needsRedelivery hstate
        rw [List.countP_append, hsettledOnce, hbefore]
        rfl
  | received lease hlease hstate =>
      have hwork : record.state.inWork = true := by rw [hstate]; rfl
      have hbefore : record.isSettled = false := isSettled_of_inWork hwork
      refine ⟨?_, fun _ other hother => (hheld hwork other hother).concat rfl rfl, ?_⟩
      · simp [hlease, DeliveryRecord.isSettled, DeliveryState.isSettled]
      · rw [List.countP_append, hsettledOnce, hbefore]
        rfl
  | settled result lease target hlease hstate htarget =>
      have hbefore : record.isSettled = false := isSettled_of_inWork hstate
      have htargetSettled : target.isSettled = true := by
        rcases htarget with ⟨-, rfl⟩ | ⟨-, rfl⟩ <;> rfl
      refine ⟨?_, fun hwork => ?_, ?_⟩
      · simp [DeliveryRecord.isSettled, htargetSettled]
      · exact absurd (isSettled_of_inWork hwork) (by rw [htargetSettled]; decide)
      · rw [List.countP_append, hsettledOnce, hbefore]
        simp [DeliveryRecord.isSettled, htargetSettled, Event.settles]
  | expired nowMs lease hlease hstate hle =>
      have hbefore : record.isSettled = false := isSettled_of_inWork hstate
      refine ⟨?_, fun hwork => absurd hwork (by simp [DeliveryState.inWork]), ?_⟩
      · simp [hlease, DeliveryRecord.isSettled, DeliveryState.isSettled]
      · rw [List.countP_append, hsettledOnce, hbefore]
        rfl

namespace MemoryBroker

variable {capacity : Nat} {broker next : MemoryBroker capacity}

/-! ## Keys -/

/-- The keys after a call. -/
theorem Effect.keys {action : Action}
    (heffect : Effect broker action next reply) :
    next.records.map DeliveryRecord.key = broker.records.map DeliveryRecord.key ∨
      ∃ envelope, next.records = broker.records ++ [{ envelope := envelope }] ∧
        ∀ record ∈ broker.records, record.key ≠ envelope.idempotencyKey := by
  by_cases hlength : next.records.length = broker.records.length
  · refine Or.inl (List.ext_getElem? fun index => ?_)
    rw [List.getElem?_map, List.getElem?_map]
    cases hrecord : broker.records[index]? with
    | none =>
        have hnone : next.records[index]? = none := by
          rw [List.getElem?_eq_none_iff, hlength]
          exact List.getElem?_eq_none_iff.mp hrecord
        rw [hnone]
    | some record =>
        obtain ⟨after, hafter, hstep⟩ := heffect.recordStep hrecord
        rw [hafter, Option.map_some, Option.map_some, DeliveryRecord.key, hstep.envelope]
        rfl
  · cases heffect with
    | published envelope next hnew hrecords =>
        refine Or.inr ⟨envelope, hrecords, fun record hmem => ?_⟩
        simpa using List.findIdx?_eq_none_iff.mp hnew record hmem
    | failed action err => exact absurd rfl hlength
    | duplicate envelope position hfind => exact absurd rfl hlength
    | claimed worker nowMs leaseMs position chosen hget hstate =>
        exact absurd (by simp [modify]) hlength
    | received position chosen lease hget hlease hstate => exact absurd (by simp [modify]) hlength
    | settled position result chosen lease target hget hlease hstate htarget =>
        exact absurd (by simp [modify]) hlength
    | reaped nowMs => exact absurd (by simp [reapExpired]) hlength

theorem Effect.nodup_keys {action : Action}
    (heffect : Effect broker action next reply)
    (h : (broker.records.map DeliveryRecord.key).Nodup) :
    (next.records.map DeliveryRecord.key).Nodup := by
  rcases heffect.keys with hkeys | ⟨envelope, hrecords, hnew⟩
  · rw [hkeys]
    exact h
  · rw [hrecords]
    exact Keyed.nodup_concat h hnew

/-! ## Whole runs -/

theorem Effect.settles_of_absent {action : Action}
    (heffect : Effect broker action next reply) (hnone : broker.records[index]? = none) :
    Event.settles index ⟨action, reply⟩ = false := by
  cases heffect with
  | settled position result chosen lease target hget hlease hstate htarget =>
      refine decide_eq_false fun hposition => ?_
      rw [hposition, hnone] at hget
      cases hget
  | failed action err => cases action <;> rfl
  | _ => rfl

/-- The broker and the calls that have led to it. -/
structure Consistent (broker : MemoryBroker capacity) (history : List Event) : Prop where
  nodup : (broker.records.map DeliveryRecord.key).Nodup
  tracked : ∀ index record, broker.records[index]? = some record → Tracked history index record
  absent : ∀ index, broker.records[index]? = none →
    history.countP (Event.settles index) = 0

theorem consistent_start : Consistent ({} : MemoryBroker capacity) [] := by
  refine ⟨List.nodup_nil, fun index record h => ?_, fun _ _ => rfl⟩
  cases h

theorem Consistent.step {history : List Event} (h : Consistent broker history)
    (action : Action) :
    Consistent (broker.step action) (history ++ [⟨action, (broker.perform action).2⟩]) := by
  have heffect := broker.effect_perform action
  refine ⟨heffect.nodup_keys h.nodup, fun index after hafter => ?_, fun index hnone => ?_⟩
  · cases hrecord : broker.records[index]? with
    | some record =>
        obtain ⟨other, hother, hstep⟩ := heffect.recordStep hrecord
        rw [show (broker.step action).records[index]? = some other from hother] at hafter
        cases hafter
        exact hstep.tracked (h.tracked index record hrecord)
    | none =>
        obtain ⟨envelope, rfl, rfl⟩ := heffect.new_record hafter hrecord
        refine ⟨by simp, fun hwork => absurd hwork (by simp [DeliveryState.inWork]), ?_⟩
        rw [List.countP_append, h.absent index hrecord]
        rfl
  · cases hrecord : broker.records[index]? with
    | some record =>
        obtain ⟨other, hother, -⟩ := heffect.recordStep hrecord
        exact absurd (hnone.symm.trans hother) (Option.some_ne_none other).symm
    | none =>
        rw [List.countP_append, h.absent index hrecord]
        simp [heffect.settles_of_absent hrecord]

/-- The run lemma, from a broker with a past. -/
theorem Consistent.run {past : List Event} (h : Consistent broker past) (actions : List Action) :
    Consistent (Execution.run MemoryBroker.step broker actions) (past ++ broker.history actions) := by
  induction actions generalizing broker past with
  | nil => simpa [history] using h
  | cons action rest ih =>
      have hrest := ih (h.step action)
      rw [List.append_assoc] at hrest
      exact hrest

/-- **The broker refines `settlement.zig`**: every call of a run moves the state of a record the way
`transition` allows, leases a record that needs redelivery, or leaves the state alone. -/
theorem along_transition (actions : List Action) :
    Execution.Along step (fun (broker : MemoryBroker capacity) action =>
      ∀ (index : Nat) record, broker.records[index]? = some record →
        ∃ after, (broker.step action).records[index]? = some after ∧
          (after.state = record.state ∨
            (needsRedelivery record.state = true ∧ after.state = .leased) ∨
            ∃ kind, transition record.state kind = some after.state)) {} actions := by
  by_contra hnot
  obtain ⟨_, action, _, -, hbad⟩ := Execution.exists_of_not_along hnot
  refine hbad fun index record hrecord => ?_
  obtain ⟨after, hafter, hstep⟩ := (effect_perform _ action).recordStep hrecord
  exact ⟨after, hafter, hstep.follows⟩

/-- A call keeps the envelope of every record. -/
theorem envelope_run (hrecord : broker.records[index]? = some record)
    (later : List Action) :
    ∃ after, (Execution.run step broker later).records[index]? = some after ∧
      after.envelope = record.envelope := by
  induction later generalizing broker record with
  | nil => exact ⟨record, hrecord, rfl⟩
  | cons action rest ih =>
      obtain ⟨next, hnext, hstep⟩ := (broker.effect_perform action).recordStep hrecord
      obtain ⟨after, hafter, henvelope⟩ := ih hnext
      exact ⟨after, hafter, henvelope.trans hstep.envelope⟩

/-- A publication with a known key returns the index of its record. -/
theorem perform_publish_known (hnodup : (broker.records.map DeliveryRecord.key).Nodup)
    (hrecord : broker.records[index]? = some record) {envelope : Envelope}
    (hkey : envelope.idempotencyKey = record.key) :
    broker.perform (.publish envelope) = (broker, .index index) := by
  have hfind : broker.findByIdempotencyKey envelope.idempotencyKey = some index := by
    rw [hkey]
    exact Keyed.findIdx?_of_getElem? hnodup hrecord
  simp only [perform, publish, hfind]
  rfl

/-- Nothing happens to a settled record. -/
theorem final_run (hrecord : broker.records[index]? = some record)
    (hsettled : record.isSettled = true) (later : List Action) :
    (Execution.run step broker later).records[index]? = some record ∧
      ∀ event ∈ broker.history later, event.claims index = false ∧ event.settles index = false := by
  induction later generalizing broker with
  | nil => exact ⟨hrecord, fun _ h => absurd h List.not_mem_nil⟩
  | cons action rest ih =>
      obtain ⟨next, hnext, hstep⟩ := (broker.effect_perform action).recordStep hrecord
      have hquiet : next = record ∧ Event.claims index ⟨action, (broker.perform action).2⟩ = false ∧
          Event.settles index ⟨action, (broker.perform action).2⟩ = false :=
        hstep.of_settled hsettled
      obtain ⟨rfl, hclaims, hsettles⟩ := hquiet
      obtain ⟨hrun, hevents⟩ := ih hnext
      exact ⟨hrun, List.forall_mem_cons.mpr ⟨⟨hclaims, hsettles⟩, hevents⟩⟩

/-- A failed call returns the broker it was called on. -/
theorem step_of_failed {action : Action} {err : DeliveryError}
    (h : (broker.perform action).2 = .failed err) : broker.step action = broker := by
  have heffect := broker.effect_perform action
  unfold step
  generalize (broker.perform action).1 = next at heffect ⊢
  rw [h] at heffect
  cases heffect
  rfl

/-! ## Handing out records -/

/-- The arguments of a claim. -/
structure Claim where
  worker : Bytes
  nowMs : Nat
  leaseMs : Nat

/-- The call. -/
def Claim.action (claim : Claim) : Action := .claim claim.worker claim.nowMs claim.leaseMs

/-- The indices of the records that a claim may take. -/
def available (broker : MemoryBroker capacity) : List Nat :=
  broker.records.findIdxs fun record => needsRedelivery record.state

/-- The indices of the records that are not settled. -/
def unsettled (broker : MemoryBroker capacity) : List Nat :=
  broker.records.findIdxs fun record => !record.isSettled

/-- A claim takes the first available record. -/
theorem perform_claim (broker : MemoryBroker capacity) (claim : Claim) :
    (broker.available = [] ∧
      broker.perform claim.action = (broker, .failed .nothingAvailable)) ∨
    ∃ index rest next, broker.available = index :: rest ∧
      broker.perform claim.action = (next, .index index) ∧ next.available = rest := by
  have hhead := Keyed.head?_findIdxs (fun record => needsRedelivery record.state) broker.records 0
  cases hfind : broker.records.findIdx? (fun record => needsRedelivery record.state) with
  | none =>
      rw [hfind] at hhead
      refine Or.inl ⟨List.head?_eq_none_iff.mp hhead, ?_⟩
      simp only [Claim.action, perform, MemoryBroker.claim, hfind]
      rfl
  | some index =>
      rw [hfind] at hhead
      obtain ⟨rest, hrest⟩ := List.head?_eq_some_iff.mp hhead
      refine Or.inr ⟨index, rest,
        broker.modify index (.claimedBy claim.worker claim.nowMs claim.leaseMs), hrest, ?_, ?_⟩
      · simp only [Claim.action, perform, MemoryBroker.claim, hfind]
        rfl
      · show List.findIdxs _ (broker.records.modify index _) = rest
        rw [Keyed.findIdxs_modify (fun _ => rfl) hfind, hrest]
        rfl

/-- Repeated claims take the available records in order, and nothing after them. -/
theorem replies_claims (broker : MemoryBroker capacity) (claims : List Claim) :
    (broker.history (claims.map Claim.action)).map Event.reply =
      (broker.available.map Reply.index ++
        List.replicate claims.length (Reply.failed .nothingAvailable)).take claims.length := by
  induction claims generalizing broker with
  | nil => rfl
  | cons claim rest ih =>
      rw [List.map_cons, history, List.map_cons, step, List.length_cons]
      rcases broker.perform_claim claim with
        ⟨hnone, hperform⟩ | ⟨index, others, next, hsome, hperform, hnext⟩
      · rw [hperform, ih, hnone]
        simp [List.replicate_succ]
      · rw [hperform, ih, hsome, hnext, List.map_cons, List.cons_append, List.take_succ_cons]
        simp [List.take_append, List.take_replicate]
        omega

/-- A reap that expires every lease makes exactly the unsettled records available. -/
theorem available_reapExpired (hleaseless : ∀ record ∈ broker.records,
      record.lease = none ↔ record.state = .published ∨ record.isSettled = true)
    (hoverdue : ∀ record ∈ broker.records, ∀ lease, record.lease = some lease →
      lease.untilMs ≤ nowMs) :
    (broker.reapExpired nowMs).available = broker.unsettled := by
  unfold available unsettled reapExpired
  rw [List.findIdxs_map]
  refine Keyed.findIdxs_congr (fun record hmem => ?_) 0
  show needsRedelivery (record.reap nowMs).state = !record.isSettled
  by_cases hwork : record.state.inWork = true
  · have hsettled : record.isSettled = false := isSettled_of_inWork hwork
    have hsome : record.lease ≠ none := by
      rw [Ne, hleaseless record hmem, hsettled]
      rintro (hpublished | hfalse)
      · rw [hpublished] at hwork
        cases hwork
      · cases hfalse
    obtain ⟨lease, hlease⟩ := Option.ne_none_iff_exists'.mp hsome
    rw [record.reap_overdue hwork hlease (hoverdue record hmem lease hlease), hsettled]
    rfl
  · rw [record.reap_current fun hdue => hwork hdue.1]
    exact needsRedelivery_of_idle hwork

/-! ## The lifecycle -/

/-- A worker's call on a record: `markReceived` or `settle`. -/
def reports (index : Nat) (worker : Bytes) (action : Action) : Prop :=
  action = .markReceived index worker ∨ ∃ result, action = .settle index worker result

/-- Only the worker of the latest claim reports on a record, and only while that claim is
not expired. -/
theorem Consistent.tenure {history : List Event} (h : Consistent broker history) {action : Action}
    {worker : Bytes} (hreports : reports index worker action)
    (hdone : (broker.perform action).2 = .done) :
    ∃ deadline, Tenure history index worker deadline := by
  have heffect := broker.effect_perform action
  generalize (broker.perform action).1 = next at heffect
  rw [hdone] at heffect
  have hheld : ∀ record lease, broker.records[index]? = some record →
      record.lease = some lease → record.state.inWork = true → lease.owner = worker →
      ∃ deadline, Tenure history index worker deadline := by
    rintro record lease hget hlease hwork rfl
    exact ⟨lease.untilMs, (h.tracked index record hget).held hwork lease hlease⟩
  cases heffect with
  | received position record lease hget hlease hstate =>
      rcases hreports with heq | ⟨result, heq⟩
      · cases heq
        exact hheld record lease hget hlease (by rw [hstate]; rfl) rfl
      · cases heq
  | settled position result record lease target hget hlease hstate htarget =>
      rcases hreports with heq | ⟨other, heq⟩
      · cases heq
      · cases heq
        exact hheld record lease hget hlease hstate rfl
  | reaped nowMs =>
      rcases hreports with heq | ⟨result, heq⟩
      · cases heq
      · cases heq

/-- A settlement with the result `request` fails. -/
theorem perform_settle_request (broker : MemoryBroker capacity) (index : Nat) (worker : Bytes) :
    ∃ err, broker.perform (.settle index worker .request) = (broker, .failed err) := by
  rcases broker.onOwned_cases index worker (DeliveryRecord.settleWith .request) with
    ⟨err, heq⟩ | ⟨record, lease, next, -, -, -, hchange, -⟩
  · exact ⟨err, by simp only [perform, settle, heq]; rfl⟩
  · unfold DeliveryRecord.settleWith at hchange
    split at hchange <;> cases hchange

/-- The laws of a broker and of the calls that have led to it. -/
structure Lifecycle (broker : MemoryBroker capacity) (history : List Event) : Prop where
  /-- Idempotency keys are distinct. -/
  distinct : (broker.records.map DeliveryRecord.key).Nodup
  /-- A record keeps its index and its envelope. -/
  stable : ∀ (index : Nat) (record : DeliveryRecord), broker.records[index]? = some record →
    ∀ later, ∃ after : DeliveryRecord,
      (Execution.run step broker later).records[index]? = some after ∧
        after.envelope = record.envelope
  /-- A publication with the key of a record returns its index. -/
  known : ∀ (index : Nat) (record : DeliveryRecord), broker.records[index]? = some record →
    ∀ envelope : Envelope, envelope.idempotencyKey = record.key →
      broker.perform (.publish envelope) = (broker, .index index)
  /-- The records without a lease are the published and the settled ones. -/
  leaseless : ∀ record ∈ broker.records,
    record.lease = none ↔ record.state = .published ∨ record.isSettled = true
  /-- A report succeeds only for the worker of the latest claim, before a reap expires it. -/
  owned : ∀ index worker action, reports index worker action →
    (broker.perform action).2 = .done → ∃ deadline, Tenure history index worker deadline
  /-- A record is settled at most once. -/
  settledOnce : ∀ index, history.countP (Event.settles index) ≤ 1
  /-- A settled record is never claimed, settled again or changed. -/
  final : ∀ (index : Nat) (record : DeliveryRecord), broker.records[index]? = some record →
    record.isSettled = true → ∀ later,
      (Execution.run step broker later).records[index]? = some record ∧
      ∀ event ∈ broker.history later, event.claims index = false ∧ event.settles index = false
  /-- A failed call changes nothing. -/
  unchanged : ∀ action err, (broker.perform action).2 = .failed err → broker.step action = broker
  /-- A settlement with the result `request` fails. -/
  request : ∀ index worker,
    ∃ err, broker.perform (.settle index worker .request) = (broker, .failed err)
  /-- After a reap at or after every deadline, claims hand out the unsettled records once
  each, in the order of their indices, and then nothing. -/
  handsOut : ∀ nowMs,
    (∀ record ∈ broker.records, ∀ lease, record.lease = some lease → lease.untilMs ≤ nowMs) →
    ∀ claims : List Claim,
      ((broker.reapExpired nowMs).history (claims.map Claim.action)).map Event.reply =
        (broker.unsettled.map Reply.index ++
          List.replicate claims.length (Reply.failed .nothingAvailable)).take claims.length

/-- **Lifecycle of the memory broker.** Every run of calls, by any workers and with any times
and lease lengths, obeys the laws. -/
theorem lifecycle (capacity : Nat) (actions : List Action) :
    Lifecycle (Execution.run step ({} : MemoryBroker capacity) actions)
      (history ({} : MemoryBroker capacity) actions) := by
  have h := (@consistent_start capacity).run actions
  rw [List.nil_append] at h
  have hleaseless : ∀ record ∈ (Execution.run step ({} : MemoryBroker capacity) actions).records,
      record.lease = none ↔ record.state = .published ∨ record.isSettled = true := by
    intro record hmem
    obtain ⟨index, hindex⟩ := List.getElem?_of_mem hmem
    exact (h.tracked index record hindex).leaseless
  refine ⟨h.nodup, fun index record hrecord later => envelope_run hrecord later,
    fun index record hrecord envelope hkey => perform_publish_known h.nodup hrecord hkey,
    hleaseless, fun index worker action hreports hdone => h.tenure hreports hdone, fun index => ?_,
    fun index record hrecord hsettled later => final_run hrecord hsettled later,
    fun action err hfailed => step_of_failed hfailed,
    fun index worker => perform_settle_request _ index worker, fun nowMs hoverdue claims => ?_⟩
  · cases hrecord : (Execution.run step ({} : MemoryBroker capacity) actions).records[index]? with
    | none => exact (h.absent index hrecord).le.trans (Nat.zero_le 1)
    | some record =>
        rw [(h.tracked index record hrecord).settledOnce]
        split <;> omega
  · rw [replies_claims, available_reapExpired hleaseless hoverdue]

end MemoryBroker

end Ubiq.Delivery
