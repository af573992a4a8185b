import Ubiq.Control.Fencing

/-!
# The length of a granted lease

A lease is asked for in milliseconds by the query of `handleClaim`, counts nanoseconds on the way to
`Claim`, and is truncated to milliseconds before it is added to the clock. All three are 64 bits wide
and wrap. `Claim` refuses a lease that is not positive; what has wrapped to something positive, what
is shorter than a millisecond and what reaches beyond the last date is granted all the same.

`untilQuery_iff` and `untilDuration_iff` are the arithmetic of the two ways to ask.
-/

namespace Ubiq.Control

open Foundation
open Message

/-- `time.Duration(v)*time.Millisecond` in 64 bits. -/
def milliseconds (v : Int) : Int :=
  Int.bmod (v * 1000000) (2 ^ 64)

/-- The lease that `handleClaim` asks for: `scanned` is what `fmt.Sscan` reads from `lease_ms`, if
the parameter is there and is a 64-bit number. -/
def requestedLease (leaseDuration : Int) (scanned : Option Int) : Int :=
  match scanned with
  | some v => if v > 0 then milliseconds v else leaseDuration
  | none => leaseDuration

/-- `handleClaim`, with the status of its answer. -/
def handleClaim (json : Json) (db : Database) (leaseDuration : Int) (worker : Bytes)
    (scanned : Option Int) (now : Int) (fails : Bool) : Effect × Nat :=
  let effect := claim json db worker (requestedLease leaseDuration scanned) now fails
  (effect,
    match effect.reply with
    | .claimed _ => 200
    | .failed .nothingAvailable => 204
    | _ => 409)

/-- A lease as it is asked for: by `lease_ms` in a query, or by a duration in nanoseconds. -/
inductive LeaseRequest
  | query (ms : Int)
  | duration (ns : Int)
deriving DecidableEq, Repr

namespace LeaseRequest

/-- The request is a positive 64-bit number. -/
def InRange : LeaseRequest → Prop
  | .query ms => 0 < ms ∧ ms < 2 ^ 63
  | .duration ns => 0 < ns ∧ ns < 2 ^ 63

/-- The duration that `Claim` is called with. -/
def lease : LeaseRequest → Int
  | .query ms => milliseconds ms
  | .duration ns => ns

/-- The request is for this whole number of milliseconds. -/
def Asks (ms : Int) : LeaseRequest → Prop
  | .query asked => asked = ms
  | .duration ns => ns = ms * 1000000

/-- The call that the request makes. -/
def perform (request : LeaseRequest) (json : Json) (db : Database) (leaseDuration : Int)
    (worker : Bytes) (now : Int) (fails : Bool) : Effect :=
  match request with
  | .query ms => (handleClaim json db leaseDuration worker (some ms) now fails).1
  | .duration ns => claim json db worker ns now fails

/-- A successful claim has the length that was asked for, and the leased row is in time at the clock
reading of the claim. -/
def Honoured (request : LeaseRequest) (now : Int) (effect : Effect) : Prop :=
  ∀ claimed, effect.reply = .claimed claimed →
    now < claimed.lease.untilMs ∧
    (∀ ms, request.Asks ms → claimed.lease.untilMs = now + ms) ∧
    ∃ row, effect.leased = some row ∧ effect.db.event row.id = some row ∧
      row.owner = some claimed.lease.workerId ∧ Database.leaseAfter row now = true

/-- The claim succeeds: nothing but the positive lease of the request is asked of its length. -/
def Grantable (request : LeaseRequest) (json : Json) (db : Database) (worker : Bytes)
    (fails : Bool) : Prop :=
  worker ≠ [] ∧ fails = false ∧ 0 < request.lease ∧
    ∃ row, Database.candidate db.events = some row ∧ (json.unmarshal row.envelope).isSome = true

/-- The request survives the conversions: as nanoseconds, in whole milliseconds, and as a date. -/
def Fits (now : Int) : LeaseRequest → Prop
  | .query ms => ms * 1000000 < 2 ^ 63 ∧ now + ms < 2 ^ 63
  | .duration ns => 1000000 ≤ ns ∧ now + ns / 1000000 < 2 ^ 63

/-! ## The arithmetic -/

variable {now : Int} {request : LeaseRequest}

theorem claimUntil_of_pos {lease : Int} (h : 0 < lease) :
    claimUntil now lease = Int.bmod (now + lease / 1000000) (2 ^ 64) := by
  rw [claimUntil, Int.tdiv_eq_ediv_of_nonneg h.le]

/-- A sum of a clock reading and a length wraps once at most. -/
theorem bmod_of_nonneg {length : Int} (hnow : -2 ^ 63 ≤ now ∧ now < 2 ^ 63)
    (hlength : 0 ≤ length ∧ length < 2 ^ 63) :
    Int.bmod (now + length) (2 ^ 64) =
      if now + length < 2 ^ 63 then now + length else now + length - 2 ^ 64 := by
  rw [Int.bmod_def]
  norm_num at hnow hlength ⊢
  split_ifs <;> omega

theorem milliseconds_of_lt {ms : Int} (hms : 0 < ms) (h : ms * 1000000 < 2 ^ 63) :
    milliseconds ms = ms * 1000000 := by
  have hwrap : Int.bmod (0 + ms * 1000000) (2 ^ 64) =
      if 0 + ms * 1000000 < 2 ^ 63 then 0 + ms * 1000000 else 0 + ms * 1000000 - 2 ^ 64 :=
    bmod_of_nonneg (by norm_num) ⟨by omega, h⟩
  rw [Int.zero_add, if_pos h] at hwrap
  exact hwrap

theorem milliseconds_lt (ms : Int) : milliseconds ms < 2 ^ 63 := by
  have hlt := Int.bmod_lt (x := ms * 1000000) (m := 2 ^ 64) (by norm_num)
  norm_num at hlt ⊢
  exact hlt

theorem untilQuery_iff {ms : Int} (hnow : -2 ^ 63 ≤ now ∧ now < 2 ^ 63) (hms : 0 < ms ∧ ms < 2 ^ 63)
    (hlease : 0 < milliseconds ms) :
    (now < claimUntil now (milliseconds ms) ∧ claimUntil now (milliseconds ms) = now + ms) ↔
      ms * 1000000 < 2 ^ 63 ∧ now + ms < 2 ^ 63 := by
  have hlt := milliseconds_lt ms
  rw [claimUntil_of_pos hlease, bmod_of_nonneg hnow ⟨by omega, by omega⟩]
  by_cases hfits : ms * 1000000 < 2 ^ 63
  · rw [milliseconds_of_lt hms.1 hfits, Int.mul_ediv_cancel ms (by norm_num)]
    split_ifs with hdate
    · exact iff_of_true ⟨by omega, rfl⟩ ⟨hfits, hdate⟩
    · exact iff_of_false (by omega) fun h => hdate h.2
  · -- The wrapped duration is shorter than what was asked for.
    have hshort : milliseconds ms / 1000000 < ms := by omega
    refine iff_of_false ?_ fun h => hfits h.1
    split_ifs <;> omega

theorem untilDuration_iff {ns : Int} (hnow : -2 ^ 63 ≤ now ∧ now < 2 ^ 63)
    (hns : 0 < ns ∧ ns < 2 ^ 63) :
    (now < claimUntil now ns ∧ ∀ ms, ns = ms * 1000000 → claimUntil now ns = now + ms) ↔
      1000000 ≤ ns ∧ now + ns / 1000000 < 2 ^ 63 := by
  rw [claimUntil_of_pos hns.1, bmod_of_nonneg hnow ⟨by omega, by omega⟩]
  constructor
  · rintro ⟨hlater, -⟩
    split_ifs at hlater <;> omega
  · rintro ⟨hlong, hdate⟩
    rw [if_pos hdate]
    exact ⟨by omega, fun ms hms => by omega⟩

/-! ## Requests -/

theorem perform_eq (request : LeaseRequest) (h : request.InRange) (json : Json) (db : Database)
    (leaseDuration : Int) (worker : Bytes) (now : Int) (fails : Bool) :
    request.perform json db leaseDuration worker now fails =
      claim json db worker request.lease now fails := by
  cases request with
  | query ms => simp [perform, handleClaim, requestedLease, lease, if_pos h.1]
  | duration ns => rfl

/-- What is asked of the date of the lease. -/
theorem until_iff (hnow : -2 ^ 63 ≤ now ∧ now < 2 ^ 63) (h : request.InRange)
    (hlease : 0 < request.lease) :
    (now < claimUntil now request.lease ∧
      ∀ ms, request.Asks ms → claimUntil now request.lease = now + ms) ↔ request.Fits now := by
  cases request with
  | query ms =>
      have harith := untilQuery_iff hnow h hlease
      simpa [Asks, lease, Fits] using harith
  | duration ns => exact untilDuration_iff hnow h

/-- Only a grantable claim succeeds. -/
theorem grantable_of_claimed {json : Json} {db : Database} {worker : Bytes} {fails : Bool}
    (hformed : db.WellFormed) {claimed : ClaimedEvent}
    (h : (claim json db worker request.lease now fails).reply = .claimed claimed) :
    request.Grantable json db worker fails := by
  by_cases harguments : worker = [] ∨ request.lease ≤ 0
  · rw [claim, if_pos harguments] at h
    cases h
  obtain ⟨hworker, hlease⟩ := not_or.mp harguments
  cases fails with
  | true =>
      rw [claim, if_neg harguments] at h
      cases h
  | false =>
      refine ⟨hworker, rfl, not_le.mp hlease, ?_⟩
      cases hcandidate : Database.candidate db.events with
      | none =>
          rw [claim_of_no_candidate json hworker (not_le.mp hlease) now hcandidate] at h
          cases h
      | some row =>
          refine ⟨row, rfl, ?_⟩
          rw [claim_of_candidate json hformed hworker (not_le.mp hlease) now hcandidate] at h
          cases hread : json.unmarshal row.envelope with
          | none =>
              simp only [hread] at h
              cases h
          | some envelope => rfl

/-- A grantable claim succeeds and leaves the leased row behind. -/
theorem claim_of_grantable {json : Json} {db : Database} {worker : Bytes} {fails : Bool}
    (hformed : db.WellFormed) (h : request.Grantable json db worker fails) (now : Int) :
    ∃ claimed row,
      (claim json db worker request.lease now fails).reply = .claimed claimed ∧
      claimed.lease.workerId = worker ∧
      claimed.lease.untilMs = claimUntil now request.lease ∧
      (claim json db worker request.lease now fails).leased =
        some (Database.leaseRow worker (claimUntil now request.lease) now row) ∧
      (claim json db worker request.lease now fails).db.event row.id =
        some (Database.leaseRow worker (claimUntil now request.lease) now row) := by
  obtain ⟨hworker, rfl, hlease, row, hcandidate, hread⟩ := h
  obtain ⟨envelope, hread⟩ := Option.isSome_iff_exists.mp hread
  have hlookup : db.event row.id = some row :=
    (Table.lookup_eq_some_iff hformed.events).mpr ⟨(candidate_spec hcandidate).1, rfl⟩
  rw [claim_of_candidate json hformed hworker hlease now hcandidate]
  simp only [hread]
  refine ⟨_, row, rfl, rfl, rfl, rfl, ?_⟩
  rw [event_updateEvents (Database.id_leaseRow _ _ _), hlookup]
  simp

/-- **The length of a granted lease.** A claim is honoured exactly when it is not granted or the
request survives the conversions. -/
theorem honoured_iff (request : LeaseRequest) (h : request.InRange) (json : Json) (db : Database)
    (hformed : db.WellFormed) (leaseDuration : Int) (worker : Bytes) (now : Int)
    (hnow : -2 ^ 63 ≤ now ∧ now < 2 ^ 63) (fails : Bool) :
    request.Honoured now (request.perform json db leaseDuration worker now fails) ↔
      (request.Grantable json db worker fails → request.Fits now) := by
  rw [perform_eq request h]
  constructor
  · intro hhonoured hgrantable
    obtain ⟨claimed, row, hreply, -, huntil, -⟩ := claim_of_grantable hformed hgrantable now
    obtain ⟨hlater, hasked, -⟩ := hhonoured claimed hreply
    rw [huntil] at hlater hasked
    exact (until_iff hnow h hgrantable.2.2.1).mp ⟨hlater, hasked⟩
  · intro hfits claimed hreply
    have hgrantable := grantable_of_claimed hformed hreply
    obtain ⟨hlater, hasked⟩ := (until_iff hnow h hgrantable.2.2.1).mpr (hfits hgrantable)
    obtain ⟨granted, row, hgranted, hworker, huntil, hleased, hstored⟩ :=
      claim_of_grantable hformed hgrantable now
    obtain rfl : granted = claimed := Reply.claimed.inj (hgranted.symm.trans hreply)
    rw [huntil, hworker]
    refine ⟨hlater, hasked, _, hleased, hstored, rfl, ?_⟩
    simpa [Database.leaseAfter, Database.leaseRow] using hlater

/-- A database with one published event. -/
def invoiceDb : Database :=
  (publish invoiceCodec {} invoice 0 false).db

theorem wellFormed_invoiceDb : invoiceDb.WellFormed :=
  ⟨by decide +kernel, by decide +kernel⟩

/-- A lease of five seconds. -/
theorem honoured_fiveSeconds :
    Grantable (.query 5000) invoiceCodec invoiceDb (ascii "worker") false ∧
      Honoured (.query 5000) 5
        (perform (.query 5000) invoiceCodec invoiceDb 0 (ascii "worker") 5 false) := by
  refine ⟨⟨by decide +kernel, rfl, by decide, _, rfl, by decide +kernel⟩, ?_⟩
  exact (honoured_iff (.query 5000) ⟨by norm_num, by norm_num⟩ invoiceCodec invoiceDb
    wellFormed_invoiceDb 0 (ascii "worker") 5 ⟨by norm_num, by norm_num⟩ false).mpr
    fun _ => ⟨by norm_num, by norm_num⟩

/-- The claim of the event at the time five with a lease that ends at once. -/
def endedClaim : ClaimedEvent where
  envelope := invoice
  lease :=
    { eventId := invoice.id, workerId := ascii "worker", untilMs := 5, attempt := 1,
      fencingToken := 1 }
  state := .leased

/-- Leases of more than five hundred years and of a little less than a millisecond are granted and
over at once. -/
theorem not_honoured_wrapped :
    ¬Honoured (.query 18446744073710) 5
        (perform (.query 18446744073710) invoiceCodec invoiceDb 0 (ascii "worker") 5 false) ∧
      ¬Honoured (.duration 999999) 5
        (perform (.duration 999999) invoiceCodec invoiceDb 0 (ascii "worker") 5 false) := by
  constructor
  · intro h
    exact absurd (h endedClaim (by decide +kernel)).1 (by decide)
  · intro h
    exact absurd (h endedClaim (by decide +kernel)).1 (by decide)

end LeaseRequest
end Ubiq.Control
