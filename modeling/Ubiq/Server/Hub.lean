import Ubiq.Core.Event
import Ubiq.Foundation.EventStream
import Ubiq.Server.Ingest

/-!
# Live subscribers

`Hub` of `server.go` offers every published envelope to the channels of its subscribers and waits
for none of them; `handleSSE` writes what it takes from its channel as server-sent events. The
methods of the hub hold its mutex, so a run is a list of calls, and between them the readers take
envelopes from their channels. `Publish` only holds the mutex for reading: two publications at a
time may reach two channels in different orders. What follows is about one channel each, and the
order of a run is the one in which the publications reach that channel.

`delivered_run` says what a reader gets: the envelopes that were published while its channel was in
the map, in order and once, and all of them exactly if every publication found a receiver waiting or
room in the buffer. The hub does not look at the envelopes, which may be of any type there.
`live_events` carries this over to the events that a client of `handleSSE` reads.
-/

namespace Ubiq.Ingest

open Foundation Message Control
open EventStream (OneLine)

/-- A channel that `Subscribe` has made; its reader keeps it after `Unsubscribe`. -/
structure Channel (α : Type) where
  id : UInt64
  capacity : Nat
  buffered : List α := []
  /-- The receivers that are blocked on the channel. -/
  waiting : Nat := 0
  closed : Bool := false
  /-- The channel is `subs[id]`. -/
  registered : Bool := true
  /-- What the reader has taken from the channel. -/
  taken : List α := []
  /-- What was published while the channel was registered. -/
  offered : List α := []

namespace Channel

variable {α : Type}

/-- The channel loses its place in the map if it has the id; `close` wakes its receivers. -/
def release (ch : Channel α) (id : UInt64) (close : Bool) : Channel α :=
  if ch.registered ∧ ch.id = id then
    { ch with
      registered := false, closed := close, waiting := if close then 0 else ch.waiting }
  else ch

/-- A send can take place: a receiver is waiting, or the buffer has room. -/
def Accepts (ch : Channel α) : Prop :=
  0 < ch.waiting ∨ ch.buffered.length < ch.capacity

/-- `select{case ch<-env:default:}`: the envelope goes to a waiting receiver or into the buffer. -/
def send (ch : Channel α) (env : α) : Channel α :=
  if 0 < ch.waiting then { ch with waiting := ch.waiting - 1, taken := ch.taken ++ [env] }
  else if ch.buffered.length < ch.capacity then { ch with buffered := ch.buffered ++ [env] }
  else ch

/-- The iteration of `Publish` for this channel. -/
def offer (ch : Channel α) (env : α) : Channel α :=
  if ch.registered then { ch.send env with offered := ch.offered ++ [env] } else ch

/-- A receiver at `<-ch`: it takes what is buffered, waits, or finds the channel closed. -/
def receive (ch : Channel α) : Channel α :=
  match ch.buffered with
  | env :: rest => { ch with buffered := rest, taken := ch.taken ++ [env] }
  | [] => if ch.closed then ch else { ch with waiting := ch.waiting + 1 }

/-- A receiver goes on with another case of its `select`. -/
def leave (ch : Channel α) : Channel α :=
  { ch with waiting := ch.waiting - 1 }

/-- What the reader gets, if it goes on reading. -/
def contents (ch : Channel α) : List α := ch.taken ++ ch.buffered

/-- The reader gets published envelopes, in order and once; a channel in the map is open, and nobody
waits at a channel that holds something. -/
structure Sound (ch : Channel α) : Prop where
  sublist : ch.contents.Sublist ch.offered
  usable : ch.registered = true → ch.closed = false
  idle : 0 < ch.waiting → ch.buffered = []

end Channel

/-- `Hub`, with every channel it has made. -/
structure Hub (α : Type) where
  next : UInt64 := 0
  channels : List (Channel α) := []

/-- A call, or a reader that arrives at its channel or leaves it. -/
inductive HubAction (α : Type)
  | subscribe (buffer : Nat)
  | unsubscribe (id : UInt64)
  | publish (env : α)
  | receive (reader : Nat)
  | leave (reader : Nat)

namespace Hub

variable {α : Type}

/-- `Subscribe`. After `2^64` calls an id comes again, and its channel is replaced in the map. -/
def subscribe (hub : Hub α) (buffer : Nat) : Hub α where
  next := hub.next + 1
  channels := hub.channels.map (·.release hub.next false) ++
    [{ id := hub.next, capacity := buffer }]

def unsubscribe (hub : Hub α) (id : UInt64) : Hub α :=
  { hub with channels := hub.channels.map (·.release id true) }

def publish (hub : Hub α) (env : α) : Hub α :=
  { hub with channels := hub.channels.map (·.offer env) }

/-- The state after a call. -/
def step (hub : Hub α) : HubAction α → Hub α
  | .subscribe buffer => hub.subscribe buffer
  | .unsubscribe id => hub.unsubscribe id
  | .publish env => hub.publish env
  | .receive reader => { hub with channels := hub.channels.modify reader Channel.receive }
  | .leave reader => { hub with channels := hub.channels.modify reader Channel.leave }

/-- A send on a closed channel, or a second `close`. -/
def Panics (hub : Hub α) (action : HubAction α) : Prop :=
  ∃ ch ∈ hub.channels, ch.registered = true ∧ ch.closed = true ∧
    ((∃ env, action = .publish env) ∨ action = .unsubscribe ch.id)

/-- A publication finds a receiver or room in the channel, if the channel is registered. -/
def HasRoom (index : Nat) (hub : Hub α) : HubAction α → Prop
  | .publish _ => ∀ ch ∈ hub.channels[index]?, ch.registered = true → ch.Accepts
  | _ => True

/-- The reader of the channel misses nothing. -/
def Complete (index : Nat) (hub : Hub α) : Prop :=
  ∀ ch ∈ hub.channels[index]?, ch.contents = ch.offered

end Hub

/-! ## One channel -/

namespace Channel

variable {α : Type} {ch : Channel α} {id : UInt64} {close : Bool} {env : α}

@[simp] theorem receive_spec (ch : Channel α) :
    ch.receive.contents = ch.contents ∧ ch.receive.offered = ch.offered := by
  unfold receive
  split
  · next hbuffered => simp [contents, hbuffered]
  · split <;> exact ⟨rfl, rfl⟩

@[simp] theorem leave_spec (ch : Channel α) :
    ch.leave.contents = ch.contents ∧ ch.leave.offered = ch.offered := ⟨rfl, rfl⟩

@[simp] theorem release_spec (ch : Channel α) (id : UInt64) (close : Bool) :
    (ch.release id close).contents = ch.contents ∧
      (ch.release id close).offered = ch.offered := by
  unfold release
  split <;> exact ⟨rfl, rfl⟩

theorem Sound.release (h : ch.Sound) : (ch.release id close).Sound := by
  unfold Channel.release
  split
  · refine ⟨h.sublist, (fun hregistered => by cases hregistered), fun hwaiting => h.idle ?_⟩
    cases close with
    | false => exact hwaiting
    | true => cases hwaiting
  · exact h

theorem Sound.leave (h : ch.Sound) : ch.leave.Sound :=
  ⟨h.sublist, h.usable, fun hwaiting => h.idle (hwaiting.trans_le (Nat.sub_le _ _))⟩

theorem Sound.receive (h : ch.Sound) : ch.receive.Sound := by
  have hsublist : ch.receive.contents.Sublist ch.receive.offered := by simpa using h.sublist
  unfold Channel.receive at hsublist ⊢
  split
  · next env rest hbuffered =>
      simp only [hbuffered] at hsublist
      refine ⟨hsublist, h.usable, fun hwaiting => ?_⟩
      rw [h.idle hwaiting] at hbuffered
      cases hbuffered
  · next hbuffered =>
      split
      · exact h
      · exact ⟨h.sublist, h.usable, fun _ => hbuffered⟩

/-- What a send adds to the contents. -/
theorem contents_send (h : ch.Sound) (env : α) :
    (ch.Accepts ∧ (ch.send env).contents = ch.contents ++ [env]) ∨
      (¬ch.Accepts ∧ (ch.send env).contents = ch.contents) := by
  unfold Accepts send
  by_cases hwaiting : 0 < ch.waiting
  · -- nothing is buffered before the envelope that is handed over
    exact Or.inl ⟨Or.inl hwaiting, by simp [contents, hwaiting, h.idle hwaiting]⟩
  · by_cases hroom : ch.buffered.length < ch.capacity
    · exact Or.inl ⟨Or.inr hroom, by simp [contents, hwaiting, hroom]⟩
    · exact Or.inr ⟨not_or.mpr ⟨hwaiting, hroom⟩, by simp [hwaiting, hroom]⟩

theorem idle_send (h : ch.Sound) : 0 < (ch.send env).waiting → (ch.send env).buffered = [] := by
  unfold send
  split_ifs with hwaiting
  · exact fun _ => h.idle hwaiting
  · exact fun hmore => absurd hmore hwaiting
  · exact h.idle

theorem usable_send (ch : Channel α) (env : α) :
    (ch.send env).registered = ch.registered ∧ (ch.send env).closed = ch.closed := by
  unfold send
  split_ifs <;> exact ⟨rfl, rfl⟩

theorem Sound.offer (h : ch.Sound) : (ch.offer env).Sound := by
  unfold Channel.offer
  split
  · obtain ⟨hregistered, hclosed⟩ := usable_send ch env
    refine ⟨?_, by rw [hregistered, hclosed]; exact h.usable, idle_send h⟩
    change (ch.send env).contents.Sublist (ch.offered ++ [env])
    rcases contents_send h env with ⟨-, heq⟩ | ⟨-, heq⟩
    · rw [heq]
      exact h.sublist.append_right [env]
    · rw [heq]
      exact h.sublist.trans (List.sublist_append_left _ _)
  · exact h

/-- A channel that does not accept loses the envelope for good: `offered` is longer from then on. -/
theorem complete_offer_iff (h : ch.Sound) :
    (ch.offer env).contents = (ch.offer env).offered ↔
      ch.contents = ch.offered ∧ (ch.registered = true → ch.Accepts) := by
  have hlength := h.sublist.length_le
  unfold Channel.offer
  split
  · next hregistered =>
      change (ch.send env).contents = ch.offered ++ [env] ↔ _
      simp only [hregistered, true_implies]
      rcases contents_send h env with ⟨haccepts, heq⟩ | ⟨haccepts, heq⟩
      · simp [heq, haccepts]
      · refine iff_of_false (fun hsame => ?_) fun hboth => haccepts hboth.2
        have hlonger := congrArg List.length (heq.symm.trans hsame)
        simp only [List.length_append, List.length_singleton] at hlonger
        omega
  · next hnot => simp [hnot]

end Channel

/-! ## Runs -/

namespace Hub

variable {α : Type} {hub : Hub α} {action : HubAction α} {index : Nat} {ch : Channel α}

theorem sound_modify (h : ∀ ch ∈ hub.channels, ch.Sound) {change : Channel α → Channel α}
    (hchange : ∀ ch : Channel α, ch.Sound → (change ch).Sound) (reader : Nat) :
    ∀ ch ∈ hub.channels.modify reader change, ch.Sound := by
  intro ch hch
  obtain ⟨index, hindex⟩ := List.mem_iff_getElem?.mp hch
  rw [List.getElem?_modify] at hindex
  obtain ⟨before, hbefore, rfl⟩ := Option.map_eq_some_iff.mp hindex
  have hsound := h before (List.mem_of_getElem? hbefore)
  split
  · exact hchange before hsound
  · exact hsound

theorem sound_step (h : ∀ ch ∈ hub.channels, ch.Sound) :
    ∀ ch ∈ (hub.step action).channels, ch.Sound := by
  cases action with
  | subscribe buffer =>
      refine List.forall_mem_append.mpr ⟨?_, ?_⟩
      · exact List.forall_mem_map.mpr fun ch hch => (h ch hch).release
      · exact List.forall_mem_singleton.mpr ⟨List.Sublist.refl [], fun _ => rfl, fun _ => rfl⟩
  | unsubscribe id => exact List.forall_mem_map.mpr fun ch hch => (h ch hch).release
  | publish env => exact List.forall_mem_map.mpr fun ch hch => (h ch hch).offer
  | receive reader => exact sound_modify h (fun _ hsound => hsound.receive) reader
  | leave reader => exact sound_modify h (fun _ hsound => hsound.leave) reader

theorem complete_iff (hch : ch ∈ hub.channels[index]?) :
    hub.Complete index ↔ ch.contents = ch.offered := by
  simp [Complete, Option.mem_def.mp hch]

theorem complete_step_iff (h : ∀ ch ∈ hub.channels, ch.Sound) :
    (hub.step action).Complete index ↔ hub.Complete index ∧ hub.HasRoom index action := by
  cases action with
  | subscribe buffer =>
      simp only [Complete, HasRoom, step, subscribe, List.getElem?_append, List.length_map, and_true]
      split
      · simp
      · next hindex =>
          simp [List.getElem?_eq_none (not_lt.mp hindex), List.getElem?_singleton, Channel.contents]
  | unsubscribe id => simp [Complete, HasRoom, step, unsubscribe]
  | publish env =>
      cases hch : hub.channels[index]? with
      | none => simp [Complete, HasRoom, step, publish, hch]
      | some ch =>
          have hsound := h ch (List.mem_of_getElem? hch)
          simpa [Complete, HasRoom, step, publish, hch] using Channel.complete_offer_iff hsound
  | receive reader =>
      simp only [Complete, HasRoom, step, List.getElem?_modify, and_true]
      split <;> simp
  | leave reader =>
      simp only [Complete, HasRoom, step, List.getElem?_modify, and_true]
      split <;> simp

theorem sound_run (actions : List (HubAction α)) :
    ∀ ch ∈ (Execution.run step ({} : Hub α) actions).channels, ch.Sound :=
  Execution.invariant_run_of_step (motive := fun hub : Hub α => ∀ ch ∈ hub.channels, ch.Sound)
    (fun _ _ h => sound_step h) (List.forall_mem_nil _) actions

/-- A reader misses nothing exactly if its channel accepted every publication. -/
theorem complete_run_iff (actions : List (HubAction α)) :
    (Execution.run step ({} : Hub α) actions).Complete index ↔
      Execution.Along step (HasRoom index) {} actions := by
  induction actions using List.reverseRecOn with
  | nil => simp [Complete]
  | append_singleton before action ih => simp [complete_step_iff (sound_run before), ih]

/-- **What the readers get**, for every order of the calls and of the readers; nothing is sent on a
closed channel. -/
theorem delivered_run (actions : List (HubAction α)) :
    Execution.Along step (fun hub action => ¬hub.Panics action) {} actions ∧
    ∀ index, ∀ ch ∈ (Execution.run step {} actions).channels[index]?,
      ch.contents.Sublist ch.offered ∧
        (ch.contents = ch.offered ↔ Execution.Along step (HasRoom index) {} actions) := by
  constructor
  · by_contra hnot
    obtain ⟨before, action, after, -, hpanics⟩ := Execution.exists_of_not_along hnot
    obtain ⟨ch, hmem, hregistered, hclosed, -⟩ := not_not.mp hpanics
    rw [(sound_run before ch hmem).usable hregistered] at hclosed
    cases hclosed
  · intro index ch hch
    refine ⟨(sound_run actions ch (List.mem_of_getElem? hch)).sublist, ?_⟩
    rw [← complete_run_iff]
    exact (complete_iff hch).symm

end Hub

/-! ## Server-sent events -/

/-- An envelope that `Store.Publish` has validated; the server publishes no other on the hub. -/
abbrev Live := { env : Envelope // canonicalEventPattern env.event = true }

/-- The filter of `handleSSE` lets the envelope through. -/
def passes (filter : Bytes) (env : Live) : Bool :=
  filter = [] || filter = ascii "*" || filter = env.1.event

/-- `fmt.Fprintf(w,"event: %s\ndata: %s\n\n",env.Event,raw)`. -/
def sseFrame (json : Json) (env : Live) : Bytes :=
  ascii "event: " ++ env.1.event ++ newline ::
    (ascii "data: " ++ (json.marshal env.1).getD [] ++ [newline, newline])

/-- What `handleSSE` writes for the envelopes that it takes from its channel. -/
def handleSSE (json : Json) (filter : Bytes) (taken : List Live) : Bytes :=
  (taken.filter (passes filter)).flatMap (sseFrame json)

/-- The events that envelopes are meant to be, if they match. -/
def sseEvents (json : Json) (filter : Bytes) (envs : List Live) : List EventStream.Event :=
  (envs.filter (passes filter)).map fun env =>
    ⟨none, env.1.event, (json.marshal env.1).getD []⟩

theorem oneLine_of_canonical {name : Bytes} (h : canonicalEventPattern name = true) :
    OneLine name ∧ name ≠ [] := by
  obtain ⟨hlength, hall⟩ := of_decide_eq_true h
  constructor
  · intro byte hbyte
    have hvalid := List.all_eq_true.mp (Core.all_segment_iff.mp hall).1 byte hbyte
    constructor <;> rintro rfl <;> exact absurd hvalid (by decide)
  · rintro rfl
    exact absurd hlength (by decide)

theorem events_handleSSE (keepsId : Bytes → Bool) {json : Json}
    (hline : ∀ env raw, json.marshal env = some raw → OneLine raw) (filter : Bytes)
    (taken : List Live) :
    EventStream.events keepsId (handleSSE json filter taken) = sseEvents json filter taken := by
  unfold handleSSE sseEvents
  induction taken.filter (passes filter) with
  | nil => rfl
  | cons env rest ih =>
      obtain ⟨hname, hnamed⟩ := oneLine_of_canonical env.2
      have hdata : OneLine ((json.marshal env.1).getD []) := by
        cases hraw : json.marshal env.1 with
        | none => exact EventStream.oneLine_nil
        | some raw => exact hline env.1 raw hraw
      rw [List.flatMap_cons, List.map_cons, ← ih]
      simpa [sseFrame] using EventStream.events_frame hname hnamed hdata
        (rest.flatMap (sseFrame json))

/-- **What a client of `handleSSE` reads**, for every run of the hub: published envelopes that match,
in order and once; if its channel always had room and was read to the end, all of them. -/
theorem live_events (keepsId : Bytes → Bool) (json : Json)
    (hline : ∀ env raw, json.marshal env = some raw → OneLine raw) (filter : Bytes)
    (actions : List (HubAction Live)) (index : Nat) (ch : Channel Live)
    (hch : ch ∈ (Execution.run Hub.step {} actions).channels[index]?) :
    (EventStream.events keepsId (handleSSE json filter ch.taken)).Sublist
        (sseEvents json filter ch.offered) ∧
      (ch.buffered = [] → Execution.Along Hub.step (Hub.HasRoom index) {} actions →
        EventStream.events keepsId (handleSSE json filter ch.taken) =
          sseEvents json filter ch.offered) := by
  rw [events_handleSSE keepsId hline]
  constructor
  · have hsound := (Hub.sound_run actions ch (List.mem_of_getElem? hch)).sublist
    exact (((List.sublist_append_left _ _).trans hsound).filter _).map _
  · intro hempty hroom
    have hcomplete := (Hub.complete_iff hch).mp ((Hub.complete_run_iff actions).mpr hroom)
    rw [← hcomplete, Channel.contents, hempty, List.append_nil]

theorem canonical_create : canonicalEventPattern (Broker.order "create").event = true := by
  decide +kernel

theorem oneLine_orderCodec {env : Envelope} {raw : Bytes}
    (h : Broker.orderCodec.marshal env = some raw) : OneLine raw := by
  simp only [Broker.orderCodec] at h
  split_ifs at h <;> cases h <;> decide +kernel

/-- The client of a subscriber with room for one envelope reads the order. -/
theorem live_events_create :
    EventStream.events (fun _ => true)
      (handleSSE Broker.orderCodec [] [⟨Broker.order "create", canonical_create⟩]) =
        [⟨none, (Broker.order "create").event, Broker.orderJson "create"⟩] := by
  have hread := live_events (fun _ => true) Broker.orderCodec (fun _ _ => oneLine_orderCodec) []
    [.subscribe 1, .publish ⟨Broker.order "create", canonical_create⟩, .receive 0] 0 _ rfl
  refine (hread.2 rfl ?_).trans ?_
  · simp [Hub.HasRoom, Hub.step, Hub.subscribe, Channel.Accepts]
  · decide +kernel

end Ubiq.Ingest
