import Ubiq.Broker.Messages

/-!
# The consumer group of Redis Streams

All subscriptions of a `RedisStreamsTransport` are consumers of one group. `XREADGROUP`
gives each new entry of the stream to one of them, and `XACK` removes it for the group.
A subscription acknowledges an entry after its handler, and also when its own filter
excludes the entry; another subscription that waits for that entry then never sees it.
`acknowledgesServed_iff` says that this is the only way in which an awaited entry is
acknowledged without having been handled.
-/

namespace Ubiq.Broker.RedisStreams

open Foundation
open Message
open Control (Json)

/-- A subscription, which is a consumer of the group. -/
structure Subscriber where
  event : Bytes
  /-- `Close` has not been called. -/
  live : Bool := true
deriving DecidableEq, Repr

/-- An entry that a consumer has received and not yet processed. -/
structure Delivery where
  consumer : Nat
  entry : Nat
deriving DecidableEq, Repr

/-- The stream, its group and the loops of the subscriptions. -/
structure Group where
  /-- The field `envelope` of the entries; the id of an entry is its position. -/
  entries : List (Option Bytes) := []
  /-- The number of entries that the group has given to a consumer. -/
  delivered : Nat := 0
  /-- The subscriptions; the name of a consumer is its position. -/
  subscribers : List Subscriber := []
  /-- What is left of the replies that the loops work on. -/
  inbox : List Delivery := []
  /-- The calls of a handler that returned nil. -/
  handled : List Delivery := []
  acknowledged : List Nat := []
deriving DecidableEq, Repr

/-- A call of the transport, an `XADD` of another producer, or a step of a loop. -/
inductive Action
  | publish (envelope : Envelope)
  | add (value : Option Bytes)
  | subscribe (event : Bytes)
  | close (consumer : Nat)
  /-- `XREADGROUP`; `received` is whether its reply arrives. -/
  | read (consumer count : Nat) (received : Bool)
  /-- The next message of a reply, with the results of the handler and of `XACK`. -/
  | process (consumer : Nat) (handlerOk ackOk : Bool)
deriving DecidableEq, Repr

namespace Group

/-- The subscriptions read with `Count:32`. -/
def readCount : Nat := 32

/-- The next entries of the group, `count` of them if there are as many. -/
def batch (group : Group) (count : Nat) : List Nat :=
  List.range' group.delivered (min (min count readCount) (group.entries.length - group.delivered))

/-- The message that a consumer processes next. -/
def nextOf (group : Group) (consumer : Nat) : Option Delivery :=
  group.inbox.find? fun message => message.consumer = consumer

/-- The loop of the consumer is at its `XREADGROUP`. -/
def reads (group : Group) (consumer : Nat) : Bool :=
  group.subscribers[consumer]?.any Subscriber.live && (group.nextOf consumer).isNone

/-- `XREADGROUP` for a consumer of the group. -/
def deliver (group : Group) (consumer count : Nat) (received : Bool) : Group :=
  { group with
    delivered := group.delivered + (group.batch count).length
    inbox := if received then group.inbox ++ (group.batch count).map (.mk consumer)
      else group.inbox }

/-- The entry as a consumer reads it; one without an `envelope` is skipped as well. -/
def readingOf (json : Json) (group : Group) (message : Delivery) : Reading :=
  match group.subscribers[message.consumer]?, group.entries[message.entry]? with
  | some subscriber, some (some raw) => reading json subscriber.event raw
  | _, _ => .undecodable

/-- `_ = t.client.XAck(subctx, t.cfg.Stream, t.cfg.Group, msg.ID).Err()`. -/
def acknowledge (group : Group) (entry : Nat) (ackOk : Bool) : Group :=
  if ackOk then { group with acknowledged := group.acknowledged ++ [entry] } else group

/-- The body of the loop for one message. -/
def process (json : Json) (group : Group) (message : Delivery) (handlerOk ackOk : Bool) : Group :=
  let rest := { group with inbox := group.inbox.erase message }
  match group.readingOf json message with
  | .undecodable => rest
  | .filtered _ => rest.acknowledge message.entry ackOk
  | .matching _ =>
      if handlerOk then
        { rest with handled := group.handled ++ [message] }.acknowledge message.entry ackOk
      else rest

/-- One step of the group. -/
def step (json : Json) (group : Group) : Action → Group
  | .publish envelope =>
      match encodeEnvelope json envelope with
      | .error _ => group
      | .ok raw => { group with entries := group.entries ++ [some raw] }
  | .add value => { group with entries := group.entries ++ [value] }
  | .subscribe event => { group with subscribers := group.subscribers ++ [{ event := event }] }
  | .close consumer =>
      { group with
        subscribers := group.subscribers.modify consumer fun subscriber =>
          { subscriber with live := false } }
  | .read consumer count received =>
      if group.reads consumer then group.deliver consumer count received else group
  | .process consumer handlerOk ackOk =>
      match group.nextOf consumer with
      | none => group
      | some message => group.process json message handlerOk ackOk

/-- The consumer's subscription is for the event of the entry. -/
def Takes (json : Json) (group : Group) (consumer entry : Nat) : Prop :=
  ∃ envelope, group.readingOf json ⟨consumer, entry⟩ = .matching envelope

/-- A live subscription is for the event of the entry. -/
def Awaited (json : Json) (group : Group) (entry : Nat) : Prop :=
  ∃ consumer, group.subscribers[consumer]?.any Subscriber.live = true ∧
    group.Takes json consumer entry

/-- The handler of a subscription for the event of the entry has returned nil on it. -/
def Served (json : Json) (group : Group) (entry : Nat) : Prop :=
  ∃ consumer, ⟨consumer, entry⟩ ∈ group.handled ∧ group.Takes json consumer entry

/-- An awaited entry that the step acknowledges has been handled. -/
def AcknowledgesServed (json : Json) (group : Group) (action : Action) : Prop :=
  ∀ entry ∈ (group.step json action).acknowledged, entry ∉ group.acknowledged →
    group.Awaited json entry → (group.step json action).Served json entry

/-- A consumer acknowledges an entry that its own filter excludes and a live subscription
awaits. -/
def Steals (json : Json) (group : Group) (action : Action) : Prop :=
  ∃ consumer handlerOk message envelope, action = .process consumer handlerOk true ∧
    group.nextOf consumer = some message ∧
    group.readingOf json message = .filtered envelope ∧ group.Awaited json message.entry

/-! ## Each entry is processed once -/

/-- No handler has returned nil on the entry, and it has not been acknowledged. -/
def Untouched (group : Group) (entry : Nat) : Prop :=
  entry ∉ group.acknowledged ∧ ∀ message ∈ group.handled, message.entry ≠ entry

/-- What holds in every run: the entries of the inbox are distinct and untouched, as are
those that no consumer has received. -/
structure Consistent (group : Group) : Prop where
  nodup : (group.inbox.map Delivery.entry).Nodup
  lt_delivered : ∀ message ∈ group.inbox, message.entry < group.delivered
  untouched : ∀ message ∈ group.inbox, group.Untouched message.entry
  undelivered : ∀ entry, group.delivered ≤ entry → group.Untouched entry

theorem consistent_start : Consistent {} :=
  ⟨List.nodup_nil, fun _ h => absurd h List.not_mem_nil, fun _ h => absurd h List.not_mem_nil,
    fun _ _ => ⟨List.not_mem_nil, fun _ h => absurd h List.not_mem_nil⟩⟩

variable {action : Action}

section Steps

variable {json : Json} {group : Group} {consumer entry : Nat} {message : Delivery}

theorem mem_inbox_of_nextOf (h : group.nextOf consumer = some message) :
    message ∈ group.inbox ∧ message.consumer = consumer :=
  ⟨List.mem_of_find?_eq_some h, by simpa using List.find?_some h⟩

/-- Processing a message touches no other entry. -/
theorem Untouched.process (h : group.Untouched entry) (hne : message.entry ≠ entry)
    (handlerOk ackOk : Bool) :
    (group.process json message handlerOk ackOk).Untouched entry := by
  obtain ⟨hacknowledged, hhandled⟩ := h
  have hacknowledge : entry ∉ group.acknowledged ++ [message.entry] := by
    simp [hacknowledged, hne.symm]
  have hhandle : ∀ other ∈ group.handled ++ [message], other.entry ≠ entry := by
    simpa [or_imp, forall_and, hne] using hhandled
  unfold Group.process
  cases group.readingOf json message with
  | undecodable => exact ⟨hacknowledged, hhandled⟩
  | filtered envelope =>
      cases ackOk with
      | true => exact ⟨hacknowledge, hhandled⟩
      | false => exact ⟨hacknowledged, hhandled⟩
  | matching envelope =>
      cases handlerOk with
      | false => exact ⟨hacknowledged, hhandled⟩
      | true =>
          cases ackOk with
          | true => exact ⟨hacknowledge, hhandle⟩
          | false => exact ⟨hacknowledged, hhandle⟩

@[simp] theorem inbox_process (message : Delivery) (handlerOk ackOk : Bool) :
    (group.process json message handlerOk ackOk).inbox = group.inbox.erase message := by
  unfold Group.process
  cases group.readingOf json message <;> cases handlerOk <;> cases ackOk <;> rfl

@[simp] theorem delivered_process (message : Delivery) (handlerOk ackOk : Bool) :
    (group.process json message handlerOk ackOk).delivered = group.delivered := by
  unfold Group.process
  cases group.readingOf json message <;> cases handlerOk <;> cases ackOk <;> rfl

theorem Consistent.process (h : group.Consistent) (hmem : message ∈ group.inbox)
    (handlerOk ackOk : Bool) :
    (group.process json message handlerOk ackOk).Consistent := by
  have hinbox : group.inbox.Nodup := h.nodup.of_map
  constructor
  · rw [inbox_process]
    exact h.nodup.sublist (List.erase_sublist.map _)
  · intro other hother
    rw [inbox_process] at hother
    rw [delivered_process]
    exact h.lt_delivered other (List.mem_of_mem_erase hother)
  · intro other hother
    rw [inbox_process] at hother
    obtain ⟨hne, hin⟩ := hinbox.mem_erase_iff.mp hother
    refine (h.untouched other hin).process (fun hentry => hne ?_) handlerOk ackOk
    exact (List.inj_on_of_nodup_map h.nodup hmem hin hentry).symm
  · intro entry hentry
    rw [delivered_process] at hentry
    exact (h.undelivered entry hentry).process ((h.lt_delivered message hmem).trans_le hentry).ne
      handlerOk ackOk

theorem mem_batch {count : Nat} :
    entry ∈ group.batch count ↔
      group.delivered ≤ entry ∧ entry < group.delivered + (group.batch count).length := by
  simp [batch, List.mem_range'_1]

/-- The consumer group hands out entries that no consumer has received before. -/
theorem Consistent.deliver (h : group.Consistent) (consumer count : Nat) (received : Bool) :
    (group.deliver consumer count received).Consistent := by
  have hundelivered : ∀ entry, group.delivered + (group.batch count).length ≤ entry →
      group.Untouched entry :=
    fun entry hentry => h.undelivered entry ((Nat.le_add_right _ _).trans hentry)
  have hlt : ∀ message ∈ group.inbox,
      message.entry < group.delivered + (group.batch count).length :=
    fun message hmem => (h.lt_delivered message hmem).trans_le (Nat.le_add_right _ _)
  cases received with
  | false => exact ⟨h.nodup, hlt, h.untouched, hundelivered⟩
  | true =>
      have hmem_append : ∀ {message : Delivery},
          message ∈ group.inbox ++ (group.batch count).map (.mk consumer) →
            message ∈ group.inbox ∨ message.entry ∈ group.batch count := by
        intro message hmem
        refine (List.mem_append.mp hmem).imp_right fun hnew => ?_
        obtain ⟨entry, hentry, rfl⟩ := List.mem_map.mp hnew
        exact hentry
      refine ⟨?_, fun message hmem => ?_, fun message hmem => ?_, hundelivered⟩
      · show ((group.inbox ++ (group.batch count).map (Delivery.mk consumer)).map
          Delivery.entry).Nodup
        rw [List.map_append, List.map_map, show Delivery.entry ∘ Delivery.mk consumer = id from rfl,
          List.map_id]
        refine List.nodup_append.mpr ⟨h.nodup, List.nodup_range' .., fun entry hold other hnew => ?_⟩
        obtain ⟨message, hmem, rfl⟩ := List.mem_map.mp hold
        exact ((h.lt_delivered message hmem).trans_le (mem_batch.mp hnew).1).ne
      · rcases hmem_append hmem with hold | hnew
        · exact hlt message hold
        · exact (mem_batch.mp hnew).2
      · rcases hmem_append hmem with hold | hnew
        · exact h.untouched message hold
        · exact h.undelivered _ (mem_batch.mp hnew).1

theorem Consistent.step (h : group.Consistent) (action : Action) :
    (group.step json action).Consistent := by
  cases action with
  | publish envelope =>
      cases hencode : encodeEnvelope json envelope with
      | error err => simpa only [Group.step, hencode] using h
      | ok raw =>
          simp only [Group.step, hencode]
          exact ⟨h.nodup, h.lt_delivered, h.untouched, h.undelivered⟩
  | add value => exact ⟨h.nodup, h.lt_delivered, h.untouched, h.undelivered⟩
  | subscribe event => exact ⟨h.nodup, h.lt_delivered, h.untouched, h.undelivered⟩
  | close consumer => exact ⟨h.nodup, h.lt_delivered, h.untouched, h.undelivered⟩
  | read consumer count received =>
      by_cases hreads : group.reads consumer = true
      · simpa only [Group.step, if_pos hreads] using h.deliver consumer count received
      · simpa only [Group.step, if_neg hreads] using h
  | process consumer handlerOk ackOk =>
      cases hnext : group.nextOf consumer with
      | none => simpa only [Group.step, hnext] using h
      | some message =>
          simpa only [Group.step, hnext] using
            h.process (mem_inbox_of_nextOf hnext).1 handlerOk ackOk

/-! ## Acknowledgements -/

theorem acknowledgesServed_of_eq (h : (group.step json action).acknowledged = group.acknowledged) :
    group.AcknowledgesServed json action := by
  intro entry hmem hnew
  rw [h] at hmem
  exact absurd hmem hnew

/-- A step without an acknowledgement meets both sides of `acknowledgesServed_step_iff`. -/
theorem iff_of_no_acknowledgement (h : (group.step json action).acknowledged = group.acknowledged)
    (hsteals : ¬group.Steals json action) :
    group.AcknowledgesServed json action ↔ ¬group.Steals json action :=
  iff_of_true (acknowledgesServed_of_eq h) hsteals

theorem step_process (hnext : group.nextOf consumer = some message) (handlerOk ackOk : Bool) :
    group.step json (.process consumer handlerOk ackOk) =
      group.process json message handlerOk ackOk := by
  simp only [Group.step, hnext]

/-- Only a filtered message can be stolen. -/
theorem steals_process_iff (hnext : group.nextOf consumer = some message) {handlerOk ackOk : Bool} :
    group.Steals json (.process consumer handlerOk ackOk) ↔
      ackOk = true ∧ (∃ envelope, group.readingOf json message = .filtered envelope) ∧
        group.Awaited json message.entry := by
  constructor
  · rintro ⟨other, otherOk, stolen, envelope, haction, hother, hreading, hawaited⟩
    cases haction
    rw [hnext] at hother
    cases hother
    exact ⟨rfl, ⟨envelope, hreading⟩, hawaited⟩
  · rintro ⟨rfl, ⟨envelope, hreading⟩, hawaited⟩
    exact ⟨consumer, handlerOk, message, envelope, rfl, hnext, hreading, hawaited⟩

theorem eq_of_newly_acknowledged {other : Nat} (hmem : entry ∈ group.acknowledged ++ [other])
    (hnew : entry ∉ group.acknowledged) :
    entry = other :=
  List.mem_singleton.mp ((List.mem_append.mp hmem).resolve_left hnew)

/-- A matching message is acknowledged after its handler has returned nil. -/
theorem acknowledgesServed_matching {envelope : Envelope}
    (hnext : group.nextOf consumer = some message)
    (hreading : group.readingOf json message = .matching envelope) (handlerOk ackOk : Bool) :
    group.AcknowledgesServed json (.process consumer handlerOk ackOk) := by
  intro entry hentry hnew _
  rw [step_process hnext, Group.process, hreading] at hentry ⊢
  cases handlerOk with
  | false => exact absurd hentry hnew
  | true =>
      cases ackOk with
      | false => exact absurd hentry hnew
      | true =>
          obtain rfl := eq_of_newly_acknowledged hentry hnew
          exact ⟨message.consumer, List.mem_append_right _ List.mem_cons_self, envelope, hreading⟩

/-- A filtered message is acknowledged and not handled. -/
theorem acknowledgesServed_filtered_iff (hconsistent : group.Consistent) {envelope : Envelope}
    (hnext : group.nextOf consumer = some message)
    (hreading : group.readingOf json message = .filtered envelope) (handlerOk : Bool) :
    group.AcknowledgesServed json (.process consumer handlerOk true) ↔
      ¬group.Awaited json message.entry := by
  obtain ⟨hacknowledged, hhandled⟩ := hconsistent.untouched message (mem_inbox_of_nextOf hnext).1
  rw [AcknowledgesServed, step_process hnext, Group.process, hreading]
  constructor
  · intro hserved hawaited
    obtain ⟨other, hin, -⟩ := hserved message.entry
      (List.mem_append_right _ List.mem_cons_self) hacknowledged hawaited
    exact hhandled _ hin rfl
  · intro hnot entry hentry hnew hawaited
    obtain rfl := eq_of_newly_acknowledged hentry hnew
    exact absurd hawaited hnot

/-- The next message of a consumer, by what its subscription makes of it. -/
theorem acknowledgesServed_process_iff (hconsistent : group.Consistent)
    (hnext : group.nextOf consumer = some message) (handlerOk ackOk : Bool) :
    group.AcknowledgesServed json (.process consumer handlerOk ackOk) ↔
      ¬group.Steals json (.process consumer handlerOk ackOk) := by
  rw [steals_process_iff hnext]
  cases hreading : group.readingOf json message with
  | undecodable =>
      refine iff_of_true (acknowledgesServed_of_eq ?_) fun hsteals => ?_
      · rw [step_process hnext, Group.process, hreading]
      · obtain ⟨-, ⟨envelope, hfiltered⟩, -⟩ := hsteals
        cases hfiltered
  | matching envelope =>
      refine iff_of_true (acknowledgesServed_matching hnext hreading handlerOk ackOk)
        fun hsteals => ?_
      obtain ⟨-, ⟨other, hfiltered⟩, -⟩ := hsteals
      cases hfiltered
  | filtered envelope =>
      cases ackOk with
      | false =>
          refine iff_of_true (acknowledgesServed_of_eq ?_) fun hsteals => ?_
          · rw [step_process hnext, Group.process, hreading]
            rfl
          · cases hsteals.1
      | true =>
          rw [acknowledgesServed_filtered_iff hconsistent hnext hreading]
          exact not_congr ⟨fun hawaited => ⟨rfl, ⟨envelope, rfl⟩, hawaited⟩, fun h => h.2.2⟩

theorem acknowledgesServed_step_iff (hconsistent : group.Consistent) (action : Action) :
    group.AcknowledgesServed json action ↔ ¬group.Steals json action := by
  have hother : ∀ {action : Action}, (∀ consumer handlerOk,
      action ≠ .process consumer handlerOk true) → ¬group.Steals json action := by
    rintro action hne ⟨consumer, handlerOk, message, envelope, haction, -⟩
    exact hne consumer handlerOk haction
  cases action with
  | publish envelope =>
      refine iff_of_no_acknowledgement ?_ (hother fun _ _ h => by cases h)
      cases hencode : encodeEnvelope json envelope <;> simp only [Group.step, hencode]
  | add value => exact iff_of_no_acknowledgement rfl (hother fun _ _ h => by cases h)
  | subscribe event => exact iff_of_no_acknowledgement rfl (hother fun _ _ h => by cases h)
  | close consumer => exact iff_of_no_acknowledgement rfl (hother fun _ _ h => by cases h)
  | read consumer count received =>
      refine iff_of_no_acknowledgement ?_ (hother fun _ _ h => by cases h)
      by_cases hreads : group.reads consumer = true
      · simp only [Group.step, if_pos hreads, deliver]
      · simp only [Group.step, if_neg hreads]
  | process consumer handlerOk ackOk =>
      cases hnext : group.nextOf consumer with
      | some message => exact acknowledgesServed_process_iff hconsistent hnext handlerOk ackOk
      | none =>
          refine iff_of_no_acknowledgement (by simp only [Group.step, hnext]) ?_
          rintro ⟨other, otherOk, message, envelope, haction, hmessage, -⟩
          cases haction
          rw [hnext] at hmessage
          cases hmessage

end Steps

/-- **Handled before acknowledged.** In a run, every awaited entry is handled before it is
acknowledged exactly when no consumer acknowledges an entry that its own filter excludes
while a live subscription awaits it. -/
theorem acknowledgesServed_iff (json : Json) (actions : List Action) :
    Execution.Along (step json) (AcknowledgesServed json) {} actions ↔
      Execution.Along (step json) (fun group action => ¬group.Steals json action) {} actions :=
  Execution.along_iff (motive := Consistent) (fun _ action hconsistent _ => hconsistent.step action)
    (fun _ action hconsistent => acknowledgesServed_step_iff hconsistent action)
    consistent_start actions

/-- Subscriptions of two operations, and the entry of the first is given to the consumer of
the second. -/
def twoFilters : List Action :=
  [.subscribe (order "create").event, .subscribe (order "cancel").event,
    .publish (order "create"), .read 1 1 true]

/-- That consumer acknowledges the entry. -/
theorem not_acknowledgesServed_twoFilters :
    ¬Execution.Along (step orderCodec) (AcknowledgesServed orderCodec) {}
      (twoFilters ++ [.process 1 true true]) := by
  rw [Execution.along_append]
  rintro ⟨-, hserved, -⟩
  obtain ⟨consumer, hmem, -⟩ := hserved 0 (by decide +kernel) (by decide +kernel)
    ⟨0, by decide +kernel, order "create", by decide +kernel⟩
  have hnone : ((Execution.run (step orderCodec) {} twoFilters).step orderCodec
      (.process 1 true true)).handled = [] := by
    decide +kernel
  rw [hnone] at hmem
  exact List.not_mem_nil hmem

/-! ## One filter -/

/-- All subscriptions have the same filter. -/
def Uniform (event : Bytes) (group : Group) : Prop :=
  ∀ subscriber ∈ group.subscribers, subscriber.event = event

section Uniform

variable {json : Json} {event : Bytes} {group : Group}

@[simp] theorem subscribers_process (message : Delivery) (handlerOk ackOk : Bool) :
    (group.process json message handlerOk ackOk).subscribers = group.subscribers := by
  unfold Group.process
  cases group.readingOf json message <;> cases handlerOk <;> cases ackOk <;> rfl

/-- The subscriptions after a step. -/
theorem subscribers_step (action : Action) :
    (group.step json action).subscribers =
      match action with
      | .subscribe event => group.subscribers ++ [{ event := event }]
      | .close consumer =>
          group.subscribers.modify consumer fun subscriber => { subscriber with live := false }
      | _ => group.subscribers := by
  cases action with
  | publish envelope =>
      cases hencode : encodeEnvelope json envelope <;> simp only [Group.step, hencode]
  | add value => rfl
  | subscribe name => rfl
  | close consumer => rfl
  | read consumer count received =>
      by_cases hreads : group.reads consumer = true
      · simp only [Group.step, if_pos hreads, deliver]
      · simp only [Group.step, if_neg hreads]
  | process consumer handlerOk ackOk =>
      cases hnext : group.nextOf consumer <;> simp only [Group.step, hnext, subscribers_process]

theorem Uniform.step (h : group.Uniform event)
    (hsubscribe : ∀ name, action = .subscribe name → name = event) :
    (group.step json action).Uniform event := by
  unfold Uniform
  rw [subscribers_step]
  cases action with
  | subscribe name =>
      exact List.forall_mem_append.mpr ⟨h, List.forall_mem_singleton.mpr (hsubscribe name rfl)⟩
  | close consumer =>
      intro subscriber hmem
      obtain ⟨index, hindex⟩ := List.getElem?_of_mem hmem
      rw [List.getElem?_modify] at hindex
      obtain ⟨before, hbefore, rfl⟩ := Option.map_eq_some_iff.mp hindex
      have hevent := h before (List.mem_of_getElem? hbefore)
      split
      · exact hevent
      · exact hevent
  | _ => exact h

/-- With one filter, nobody awaits an entry that a consumer filters out. -/
theorem Uniform.not_steals (h : group.Uniform event) (action : Action) :
    ¬group.Steals json action := by
  rintro ⟨consumer, handlerOk, message, envelope, -, -, hfiltered, other, -, taken, htakes⟩
  unfold readingOf at hfiltered htakes
  split at hfiltered
  · rename_i subscriber raw hsubscriber hraw
    split at htakes
    · rename_i waiting text hwaiting htext
      rw [hraw] at htext
      cases htext
      rw [h _ (List.mem_of_getElem? hsubscriber)] at hfiltered
      rw [h _ (List.mem_of_getElem? hwaiting), hfiltered] at htakes
      cases htakes
    · cases htakes
  · cases hfiltered

/-- Subscriptions that all have the same filter do not steal each other's messages. -/
theorem Uniform.along_acknowledgesServed (h : group.Uniform event)
    (hconsistent : group.Consistent) {actions : List Action}
    (hsubscribe : ∀ action ∈ actions, ∀ name, action = .subscribe name → name = event) :
    Execution.Along (Group.step json) (AcknowledgesServed json) group actions := by
  induction actions generalizing group with
  | nil => trivial
  | cons action rest ih =>
      obtain ⟨hfirst, hrest⟩ := List.forall_mem_cons.mp hsubscribe
      exact ⟨(acknowledgesServed_step_iff hconsistent action).mpr (h.not_steals action),
        ih (h.step hfirst) (hconsistent.step action) hrest⟩

/-- Two workers of one operation. -/
theorem along_acknowledgesServed_oneFilter :
    Execution.Along (Group.step orderCodec) (AcknowledgesServed orderCodec) {}
      [.subscribe (order "create").event, .subscribe (order "create").event,
        .publish (order "create"), .read 1 1 true, .process 1 true true] := by
  have huniform : Uniform (order "create").event {} := List.forall_mem_nil _
  exact huniform.along_acknowledgesServed consistent_start (by simp)

end Uniform

end Group

end Ubiq.Broker.RedisStreams
