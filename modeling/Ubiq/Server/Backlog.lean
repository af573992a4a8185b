import Ubiq.Server.Ingest

/-!
# What one tick does to the backlog

A tick of `RunMaintenance` asks for the oldest due record again and again. A record that cannot be
read is marked and passed over; one whose transport is unknown or fails ends the loop, so the records
behind it wait for another tick, whatever their transports are.

The results of the transports are given record by record here: `publishes` says for each record
whether its `Publish` succeeds in this tick. `drain_spec` describes the state after the loop by the
due records in front of the first one that blocks.
-/

namespace Ubiq.Ingest

open Foundation
open Message
open Control

/-- The record that `NextOutbox` makes of a row. -/
def recordOf (row : OutboxRow) : OutboxRecord where
  seq := row.seq
  eventId := row.eventId
  transport := row.transport
  payload := row.payload
  attempts := row.attempts

/-- The rows that a tick has to publish, the oldest one first. -/
def dueRows (nowMs : Int) (outbox : Outbox) : List OutboxRow :=
  outbox.rows.filter (Outbox.due nowMs)

namespace Server

variable (server : Server) (nowMs : Int) (publishes : OutboxRecord → Bool)

/-- The record can be read, its transport is registered, and its `Publish` succeeds. -/
def Deliverable (row : OutboxRow) : Prop :=
  (server.json.unmarshal row.payload).isSome = true ∧ row.transport ∈ server.registry ∧
    publishes (recordOf row) = true

instance decidableDeliverable (row : OutboxRow) : Decidable (server.Deliverable publishes row) :=
  inferInstanceAs (Decidable (_ ∧ _ ∧ _))

/-- The record can be read and is not published: its transport is unknown or fails. -/
def Blocking (row : OutboxRow) : Prop :=
  (server.json.unmarshal row.payload).isSome = true ∧
    ¬(row.transport ∈ server.registry ∧ publishes (recordOf row) = true)

instance decidableBlocking (row : OutboxRow) : Decidable (server.Blocking publishes row) :=
  inferInstanceAs (Decidable (_ ∧ ¬_))

/-- The results of the calls of `Publish` in the order in which the loop makes them. -/
def outcomesOf : Nat → Outbox → List Bool
  | 0, _ => []
  | budget + 1, outbox =>
      match outbox.nextOutbox nowMs with
      | none => []
      | some record =>
          match server.json.unmarshal record.payload with
          | none => outcomesOf budget (outbox.mark record.seq nowMs)
          | some _ =>
              if record.transport ∈ server.registry then
                publishes record ::
                  (if publishes record then outcomesOf budget (outbox.mark record.seq nowMs) else [])
              else []

/-- A tick in which the transports answer as `publishes` says. -/
def tick (state : State) : State :=
  server.maintain state nowMs (server.outcomesOf nowMs publishes 64 state.outbox)

/-- What a record gives its transport. -/
def routedOf (row : OutboxRow) : Option Routed :=
  (server.json.unmarshal row.payload).map fun envelope => ⟨envelope, row.transport⟩

/-- The state after a record that does not block. -/
def handle (state : State) (row : OutboxRow) : State :=
  match server.json.unmarshal row.payload with
  | none => state.marked (recordOf row) nowMs
  | some envelope => state.delivered (recordOf row) envelope nowMs

end Server

/-! ## One round of the loop -/

section Round

variable {server : Server} {nowMs : Int} {publishes : OutboxRecord → Bool} {outbox : Outbox}
  {state : State} {row : OutboxRow} {rest : List OutboxRow} {budget : Nat}

theorem nextOutbox_eq_head? (nowMs : Int) (outbox : Outbox) :
    outbox.nextOutbox nowMs = (dueRows nowMs outbox).head?.map recordOf := by
  rw [dueRows, List.head?_filter]
  rfl

/-- The numbers of the due rows increase. -/
theorem sorted_dueRows (nowMs : Int) (outbox : Outbox) :
    (dueRows nowMs outbox).Pairwise fun first second => first.seq < second.seq := by
  have hsorted : (outbox.rows.map OutboxRow.seq).Pairwise (· < ·) := by
    rw [outbox.numbered]
    exact List.pairwise_lt_range' ..
  exact (List.pairwise_map.mp hsorted).sublist List.filter_sublist

theorem deliveredAtMs_of_due (h : Outbox.due nowMs row = true) : row.deliveredAtMs = none := by
  rw [Outbox.due, Bool.and_eq_true] at h
  exact Option.isNone_iff_eq_none.mp h.1

/-- Marking the oldest due row leaves the other ones due. -/
theorem dueRows_mark (h : dueRows nowMs outbox = row :: rest) :
    dueRows nowMs (outbox.mark row.seq nowMs) = rest := by
  have hdelivered : ∀ other, Outbox.due nowMs (Outbox.deliverRow nowMs other) = false := by
    intro other
    simp [Outbox.due, Outbox.deliverRow]
  have hsorted := sorted_dueRows nowMs outbox
  rw [h, List.pairwise_cons] at hsorted
  have hdue : Outbox.due nowMs row = true :=
    (List.mem_filter.mp (show row ∈ dueRows nowMs outbox by simp [h])).2
  have hfilter : (dueRows nowMs outbox).filter (fun other => !Outbox.pendingWith row.seq other) =
      rest := by
    rw [h, List.filter_cons_of_neg (by simp [Outbox.pendingWith, deliveredAtMs_of_due hdue])]
    refine List.filter_eq_self.mpr fun other hother => ?_
    have hne : other.seq ≠ row.seq := (hsorted.1 other hother).ne'
    simp [Outbox.pendingWith, hne]
  exact (Table.filter_update hdelivered).trans hfilter

theorem outbox_handle : (server.handle nowMs state row).outbox = state.outbox.mark row.seq nowMs := by
  unfold Server.handle
  split <;> rfl

theorem published_handle :
    (server.handle nowMs state row).published =
      state.published ++ (server.routedOf row).toList := by
  unfold Server.handle Server.routedOf
  split
  · next hnone => simp [State.marked, hnone]
  · next hsome => simp [State.delivered, recordOf, hsome]

/-- A record that does not block is handled, and the loop goes on. -/
theorem drain_of_not_blocking (h : dueRows nowMs state.outbox = row :: rest)
    (hopen : ¬server.Blocking publishes row) (budget : Nat) :
    server.drain nowMs (budget + 1) (server.outcomesOf nowMs publishes (budget + 1) state.outbox)
        state =
      server.drain nowMs budget
        (server.outcomesOf nowMs publishes budget (state.outbox.mark row.seq nowMs))
        (server.handle nowMs state row) := by
  have hnext : state.outbox.nextOutbox nowMs = some (recordOf row) := by
    rw [nextOutbox_eq_head?, h]
    rfl
  cases hread : server.json.unmarshal row.payload with
  | none =>
      have hpayload : server.json.unmarshal (recordOf row).payload = none := hread
      simp only [Server.drain, Server.outcomesOf, Server.handle, hnext, hpayload, hread]
      rfl
  | some envelope =>
      have hpayload : server.json.unmarshal (recordOf row).payload = some envelope := hread
      have hboth : (recordOf row).transport ∈ server.registry ∧ publishes (recordOf row) = true := by
        by_contra hnot
        exact hopen ⟨by simp [hread], hnot⟩
      simp only [Server.drain, Server.outcomesOf, Server.handle, hnext, hpayload, hread, hboth.1,
        hboth.2, if_true, List.head?_cons, List.tail_cons, and_self]
      rfl

/-- A record that blocks ends the loop. -/
theorem drain_of_blocking (h : dueRows nowMs state.outbox = row :: rest)
    (hblocking : server.Blocking publishes row) (budget : Nat) :
    server.drain nowMs budget (server.outcomesOf nowMs publishes budget state.outbox) state =
      state := by
  have hnext : state.outbox.nextOutbox nowMs = some (recordOf row) := by
    rw [nextOutbox_eq_head?, h]
    rfl
  obtain ⟨hreadable, hnot⟩ := hblocking
  obtain ⟨envelope, hread⟩ := Option.isSome_iff_exists.mp hreadable
  have hpayload : server.json.unmarshal (recordOf row).payload = some envelope := hread
  cases budget with
  | zero => rfl
  | succ budget =>
      simp only [Server.drain, Server.outcomesOf, hnext, hpayload]
      refine if_neg fun hpublished => ?_
      obtain ⟨hregistered, hhead⟩ := hpublished
      rw [if_pos hregistered, List.head?_cons] at hhead
      exact hnot ⟨hregistered, Option.some.inj hhead⟩

theorem drain_of_nil (h : dueRows nowMs state.outbox = []) (budget : Nat) (outcomes : List Bool) :
    server.drain nowMs budget outcomes state = state := by
  have hnext : state.outbox.nextOutbox nowMs = none := by
    rw [nextOutbox_eq_head?, h]
    rfl
  cases budget with
  | zero => rfl
  | succ budget => simp only [Server.drain, hnext]

/-! ## The whole loop -/

/-- The due rows in front of the first one that blocks. -/
def handledRows (server : Server) (nowMs : Int) (publishes : OutboxRecord → Bool)
    (outbox : Outbox) : List OutboxRow :=
  (dueRows nowMs outbox).takeWhile fun row => ¬server.Blocking publishes row

theorem handledRows_cons (h : dueRows nowMs outbox = row :: rest)
    (hopen : ¬server.Blocking publishes row) :
    handledRows server nowMs publishes outbox =
      row :: handledRows server nowMs publishes (outbox.mark row.seq nowMs) := by
  rw [handledRows, handledRows, h, dueRows_mark h, List.takeWhile_cons_of_pos (by simpa using hopen)]

theorem handledRows_of_blocking (h : dueRows nowMs outbox = row :: rest)
    (hblocking : server.Blocking publishes row) :
    handledRows server nowMs publishes outbox = [] := by
  rw [handledRows, h, List.takeWhile_cons_of_neg (by simpa using hblocking)]

theorem handledRows_of_nil (h : dueRows nowMs outbox = []) :
    handledRows server nowMs publishes outbox = [] := by
  rw [handledRows, h, List.takeWhile_nil]

/-- Marking one row and then others is marking all of them. -/
theorem update_mark (h : dueRows nowMs outbox = row :: rest) {handled : List OutboxRow}
    (hhandled : ∀ other ∈ handled, other ∈ rest) :
    Table.update (fun other => other ∈ handled) (Outbox.deliverRow nowMs)
        (outbox.mark row.seq nowMs).rows =
      Table.update (fun other => other ∈ row :: handled) (Outbox.deliverRow nowMs)
        outbox.rows := by
  have hmem : row ∈ outbox.rows ∧ Outbox.due nowMs row = true :=
    List.mem_filter.mp (show row ∈ dueRows nowMs outbox by simp [h])
  have hpending := deliveredAtMs_of_due hmem.2
  have hrest : ∀ other ∈ handled, other.deliveredAtMs = none := fun other hother =>
    deliveredAtMs_of_due
      (List.mem_filter.mp (show other ∈ dueRows nowMs outbox by simp [h, hhandled other hother])).2
  show List.map _ (List.map _ outbox.rows) = List.map _ outbox.rows
  rw [List.map_map]
  refine List.map_congr_left fun other hother => ?_
  by_cases hsame : other = row
  · subst hsame
    have hnew : Outbox.deliverRow nowMs other ∉ handled := fun hin => by
      have := hrest _ hin
      cases this
    simp [Outbox.pendingWith, hpending, hnew]
  · have hne : other.seq ≠ row.seq := fun heq =>
      hsame (List.inj_on_of_nodup_map outbox.nodup_seq hother hmem.1 heq)
    simp [Outbox.pendingWith, hne, hsame]

/-- The loop marks the handled rows and publishes those that can be read. -/
theorem drain_spec (hbudget : (dueRows nowMs state.outbox).length ≤ budget) :
    (server.drain nowMs budget (server.outcomesOf nowMs publishes budget state.outbox)
          state).published =
        state.published ++
          (handledRows server nowMs publishes state.outbox).filterMap server.routedOf ∧
      (server.drain nowMs budget (server.outcomesOf nowMs publishes budget state.outbox)
          state).outbox.rows =
        Table.update (fun row => row ∈ handledRows server nowMs publishes state.outbox)
          (Outbox.deliverRow nowMs) state.outbox.rows := by
  have hnothing : ∀ outbox : Outbox, outbox.rows =
      Table.update (fun row => row ∈ ([] : List OutboxRow)) (Outbox.deliverRow nowMs) outbox.rows :=
    fun outbox => (Table.update_of_affected_zero (by simp [Table.affected])).symm
  induction budget generalizing state with
  | zero =>
      have hnil := List.eq_nil_of_length_eq_zero (Nat.le_zero.mp hbudget)
      rw [drain_of_nil hnil, handledRows_of_nil hnil]
      exact ⟨(List.append_nil _).symm, hnothing _⟩
  | succ budget ih =>
      cases h : dueRows nowMs state.outbox with
      | nil =>
          rw [drain_of_nil h, handledRows_of_nil h]
          exact ⟨(List.append_nil _).symm, hnothing _⟩
      | cons row rest =>
          by_cases hblocking : server.Blocking publishes row
          · rw [drain_of_blocking h hblocking, handledRows_of_blocking h hblocking]
            exact ⟨(List.append_nil _).symm, hnothing _⟩
          · have hrest : (dueRows nowMs (server.handle nowMs state row).outbox).length ≤ budget := by
              rw [outbox_handle, dueRows_mark h]
              rw [h] at hbudget
              exact Nat.le_of_succ_le_succ hbudget
            obtain ⟨hpublished, hrows⟩ := ih hrest
            rw [outbox_handle] at hpublished hrows
            rw [published_handle] at hpublished
            rw [drain_of_not_blocking h hblocking, hpublished, hrows, handledRows_cons h hblocking,
              List.append_assoc]
            refine ⟨?_, update_mark h fun other hother => ?_⟩
            · cases hrouted : server.routedOf row <;> simp [hrouted]
            · rw [handledRows, dueRows_mark h] at hother
              exact List.takeWhile_subset _ hother

/-! ## Independence of the records -/

/-- The elements in front of the first that does not pass, in a sorted list: those that every
element that does not pass is behind. -/
theorem mem_takeWhile_iff {α : Type*} {rank : α → Nat} {passes : α → Bool} {items : List α}
    (hsorted : items.Pairwise fun first second => rank first < rank second) {item : α} :
    item ∈ items.takeWhile passes ↔
      item ∈ items ∧ ∀ bad ∈ items, passes bad = false → rank item < rank bad := by
  have hsplit : ∀ other ∈ items, other ∈ items.takeWhile passes ∨ other ∈ items.dropWhile passes :=
    fun other hother => List.mem_append.mp (List.takeWhile_append_dropWhile ▸ hother)
  rw [← List.takeWhile_append_dropWhile (p := passes) (l := items)] at hsorted
  obtain ⟨-, hback, hcross⟩ := List.pairwise_append.mp hsorted
  constructor
  · intro hitem
    refine ⟨List.takeWhile_subset _ hitem, fun bad hbad hblocked => ?_⟩
    rcases hsplit bad hbad with hpassed | hrest
    · rw [List.all_eq_true.mp List.all_takeWhile bad hpassed] at hblocked
      cases hblocked
    · exact hcross item hitem bad hrest
  · rintro ⟨hitem, hless⟩
    refine (hsplit item hitem).resolve_right fun hrest => ?_
    -- what is left begins with an element that does not pass
    cases hdrop : items.dropWhile passes with
    | nil => simp [hdrop] at hrest
    | cons first rest =>
        have hstops := List.head?_dropWhile_not passes items
        have hfirst := hless first (List.dropWhile_subset _ (hdrop ▸ List.mem_cons_self))
          (by simpa [hdrop] using hstops)
        rw [hdrop] at hrest hback
        rcases List.mem_cons.mp hrest with rfl | hlater
        · exact absurd hfirst (Nat.lt_irrefl _)
        · exact absurd hfirst (Nat.lt_asymm ((List.pairwise_cons.mp hback).1 item hlater))

/-- A row after the loop. -/
theorem mem_drain (server : Server) (publishes : OutboxRecord → Bool)
    (hbudget : (dueRows nowMs state.outbox).length ≤ budget) (hmem : row ∈ state.outbox.rows) :
    (if row ∈ handledRows server nowMs publishes state.outbox then Outbox.deliverRow nowMs row
      else row) ∈ (server.drain nowMs budget
        (server.outcomesOf nowMs publishes budget state.outbox) state).outbox.rows := by
  rw [(drain_spec hbudget).2]
  exact List.mem_map.mpr ⟨row, hmem, by simp⟩

/-- The row is published and marked by the end of the tick. -/
def DeliveredBy (server : Server) (before after : State) (nowMs : Int) (row : OutboxRow) : Prop :=
  (∃ routed sent, server.routedOf row = some routed ∧ after.published = before.published ++ sent ∧
    routed ∈ sent) ∧
  ∃ marked ∈ after.outbox.rows, marked.seq = row.seq ∧ marked.deliveredAtMs = some nowMs

/-- A deliverable row is delivered exactly when the loop gets to it. -/
theorem deliveredBy_drain_iff (hbudget : (dueRows nowMs state.outbox).length ≤ budget)
    (hdue : row ∈ dueRows nowMs state.outbox) (hdeliverable : server.Deliverable publishes row) :
    DeliveredBy server state (server.drain nowMs budget
        (server.outcomesOf nowMs publishes budget state.outbox) state) nowMs row ↔
      row ∈ handledRows server nowMs publishes state.outbox := by
  obtain ⟨hmem, hisDue⟩ := List.mem_filter.mp hdue
  have hafter := mem_drain server publishes hbudget hmem
  constructor
  · rintro ⟨-, marked, hmarked, hseq, hat⟩
    by_contra hnot
    -- The row is still there as it was, and its number is taken only once.
    rw [if_neg hnot] at hafter
    have hsame := List.inj_on_of_nodup_map (Outbox.nodup_seq _) hmarked hafter hseq
    rw [hsame, deliveredAtMs_of_due hisDue] at hat
    cases hat
  · intro hhandled
    obtain ⟨envelope, hread⟩ := Option.isSome_iff_exists.mp hdeliverable.1
    have hrouted : server.routedOf row = some ⟨envelope, row.transport⟩ := by
      simp [Server.routedOf, hread]
    rw [if_pos hhandled] at hafter
    refine ⟨⟨_, _, hrouted, (drain_spec hbudget).1, ?_⟩, _, hafter, rfl, rfl⟩
    exact List.mem_filterMap.mpr ⟨row, hhandled, hrouted⟩

end Round

/-- **Independence of the records.** A tick with at most as many due records as the loop has rounds
delivers every deliverable one exactly when all of them are older than the first due record that can
be read and whose transport is unknown or fails. -/
theorem tick_independent_iff (server : Server) (state : State) (nowMs : Int)
    (publishes : OutboxRecord → Bool) (h : (dueRows nowMs state.outbox).length ≤ 64) :
    (∀ row ∈ dueRows nowMs state.outbox, server.Deliverable publishes row →
        DeliveredBy server state (server.tick nowMs publishes state) nowMs row) ↔
      ∀ bad ∈ dueRows nowMs state.outbox, server.Blocking publishes bad →
        ∀ row ∈ dueRows nowMs state.outbox, server.Deliverable publishes row →
          row.seq < bad.seq := by
  -- a record is handled exactly if every blocking one is behind it
  have horder : ∀ row, row ∈ handledRows server nowMs publishes state.outbox ↔ _ := fun row =>
    mem_takeWhile_iff (sorted_dueRows nowMs state.outbox)
  have hdelivered : ∀ row ∈ dueRows nowMs state.outbox, server.Deliverable publishes row →
      (DeliveredBy server state (server.tick nowMs publishes state) nowMs row ↔
        row ∈ handledRows server nowMs publishes state.outbox) :=
    fun row hdue hdeliverable => by
      have hbudget : (dueRows nowMs
          { state with db := (requeueExpired state.db nowMs false).db }.outbox).length ≤ 64 := h
      exact deliveredBy_drain_iff hbudget hdue hdeliverable
  constructor
  · intro hall bad hbad hblocking row hdue hdeliverable
    have hhandled := (hdelivered row hdue hdeliverable).mp (hall row hdue hdeliverable)
    exact ((horder row).mp hhandled).2 bad hbad (by simpa using hblocking)
  · intro hall row hdue hdeliverable
    refine (hdelivered row hdue hdeliverable).mpr ((horder row).mpr ⟨hdue, ?_⟩)
    exact fun bad hbad hblocked => hall bad hbad (by simpa using hblocked) row hdue hdeliverable

/-- Two due records, for the transports `first` and `second`. -/
def backlogOf (first second : Bytes) : State where
  outbox := (({} : Outbox).insert (ascii "evt-1") first (Broker.orderJson "create") 0).insert
    (ascii "evt-2") second (Broker.orderJson "cancel") 0

/-- A record for an unknown transport does no harm behind the other one. -/
theorem tick_independent_behind :
    (dueRows 5 (backlogOf (ascii "memory") (ascii "nats")).outbox).length ≤ 64 ∧
      ∀ row ∈ dueRows 5 (backlogOf (ascii "memory") (ascii "nats")).outbox,
        memoryServer.Deliverable (fun _ => true) row →
          DeliveredBy memoryServer (backlogOf (ascii "memory") (ascii "nats"))
            (memoryServer.tick 5 (fun _ => true) (backlogOf (ascii "memory") (ascii "nats"))) 5
            row := by
  have hcount : (dueRows 5 (backlogOf (ascii "memory") (ascii "nats")).outbox).length ≤ 64 := by
    decide +kernel
  exact ⟨hcount, (tick_independent_iff memoryServer _ 5 _ hcount).mpr (by decide +kernel)⟩

/-- In front of it, it keeps the other one from being published. -/
theorem not_tick_independent_before :
    (dueRows 5 (backlogOf (ascii "nats") (ascii "memory")).outbox).length ≤ 64 ∧
      ¬∀ row ∈ dueRows 5 (backlogOf (ascii "nats") (ascii "memory")).outbox,
        memoryServer.Deliverable (fun _ => true) row →
          DeliveredBy memoryServer (backlogOf (ascii "nats") (ascii "memory"))
            (memoryServer.tick 5 (fun _ => true) (backlogOf (ascii "nats") (ascii "memory"))) 5
            row := by
  refine ⟨by decide +kernel, fun h => ?_⟩
  have hdelivered := h
    { seq := 2, eventId := ascii "evt-2", transport := ascii "memory",
      payload := Broker.orderJson "cancel", availableAtMs := 0 }
    (by decide +kernel) (by decide +kernel)
  exact absurd hdelivered.2 (by decide +kernel)

end Ubiq.Ingest
