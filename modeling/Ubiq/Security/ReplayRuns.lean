import Ubiq.Security.Redelivery

/-!
# Runs of `VerifyPoP` on one provider

Several transports with different freshness can wrap one provider. Every call of
`VerifyPoP` prunes the replay map with a cutoff of its own window, and so forgets nonces
whose proofs are still fresh in the window of another call.

`acceptsOnce_iff_lasting` says from the calls alone when no proof is accepted twice.
-/

namespace Ubiq.Security

open Foundation
open Message

/-- The calls of a run that return without an error. -/
def acceptedCalls (prims : Primitives) : Replay → List Verification → List Verification
  | _, [] => []
  | replay, call :: rest =>
      (if (verifyPoP prims replay call).2.toBool then [call] else []) ++
        acceptedCalls prims (verifyPoP prims replay call).1 rest

/-- The clock readings of the calls never decrease. -/
def Chronological (calls : List Verification) : Prop :=
  calls.Pairwise fun earlier later => earlier.now ≤ later.now

instance (calls : List Verification) : Decidable (Chronological calls) :=
  inferInstanceAs (Decidable (calls.Pairwise _))

/-- What a proof may be used for once: its holder and its nonce. -/
def identity (call : Verification) : Bytes × Bytes :=
  (call.proof.holder, call.proof.nonce)

/-- On a fresh provider, no two of the calls accept proofs with the same holder and
nonce. -/
def AcceptsOnce (prims : Primitives) (calls : List Verification) : Prop :=
  ((acceptedCalls prims (fun _ => none) calls).map identity).Nodup

instance (prims : Primitives) (calls : List Verification) :
    Decidable (AcceptsOnce prims calls) :=
  inferInstanceAs (Decidable (List.Nodup _))

/-- The visits of the replay map that the calls make. -/
def visitsOf (prims : Primitives) (calls : List Verification) :
    List (ReplayCache.Visit Bytes) :=
  calls.filterMap (Verification.visit? prims)

section Runs

variable {prims : Primitives} {calls : List Verification}

theorem acceptedCalls_eq_admitted (replay : Replay) (calls : List Verification) :
    acceptedCalls prims replay calls =
      ReplayCache.admitted (Verification.visit? prims) replay calls := by
  induction calls generalizing replay with
  | nil => rfl
  | cons call rest ih =>
      rw [acceptedCalls, ih, verifyPoP_replay, verifyPoP_toBool]
      rfl

/-- The accepted calls make the accepted visits. -/
theorem map_visit_acceptedCalls (replay : Replay) (calls : List Verification) :
    (acceptedCalls prims replay calls).map Verification.visit =
      ReplayCache.accepted replay (visitsOf prims calls) := by
  rw [visitsOf, ← ReplayCache.filterMap_admitted, acceptedCalls_eq_admitted]
  rw [← List.filterMap_eq_map']
  refine List.filterMap_congr fun call hcall => ?_
  obtain ⟨visit, hvisit⟩ := ReplayCache.visit?_of_mem_admitted _ hcall
  obtain ⟨-, rfl⟩ := visit?_eq_some_iff.mp hvisit
  exact hvisit.symm

/-- The replay keys of the accepted calls. -/
theorem map_key_acceptedCalls (replay : Replay) (calls : List Verification) :
    (acceptedCalls prims replay calls).map (fun call => replayKey call.proof) =
      (ReplayCache.accepted replay (visitsOf prims calls)).map ReplayCache.Visit.key := by
  rw [← map_visit_acceptedCalls, List.map_map]
  rfl

/-- The replay key of a call is made of its holder and nonce. -/
theorem replayKey_of_identity {call other : Verification} (h : identity call = identity other) :
    replayKey call.proof = replayKey other.proof := by
  obtain ⟨hholder, hnonce⟩ := Prod.mk.inj h
  unfold replayKey
  rw [hholder, hnonce]

/-- Calls whose replay keys tell apart what their holders and nonces tell apart. -/
def Unambiguous (calls : List Verification) : Prop :=
  ∀ call ∈ calls, ∀ other ∈ calls,
    replayKey call.proof = replayKey other.proof → identity call = identity other

instance (calls : List Verification) : Decidable (Unambiguous calls) :=
  inferInstanceAs (Decidable (∀ call ∈ calls, ∀ other ∈ calls, _ → _))

theorem acceptsOnce_of_nodup_keys (h : ((acceptedCalls prims (fun _ => none) calls).map
      fun call => replayKey call.proof).Nodup) : AcceptsOnce prims calls := by
  rw [List.Nodup, List.pairwise_map] at h
  rw [AcceptsOnce, List.Nodup, List.pairwise_map]
  exact h.imp fun hne heq => hne (replayKey_of_identity heq)

theorem nodup_keys_of_acceptsOnce (hkeys : Unambiguous calls) (h : AcceptsOnce prims calls) :
    ((acceptedCalls prims (fun _ => none) calls).map
      fun call => replayKey call.proof).Nodup := by
  have hsub : acceptedCalls prims (fun _ => none) calls ⊆ calls := by
    rw [acceptedCalls_eq_admitted]
    exact (ReplayCache.admitted_sublist _ _ calls).subset
  rw [AcceptsOnce, List.Nodup, List.pairwise_map] at h
  rw [List.Nodup, List.pairwise_map]
  exact h.imp_of_mem fun hcall hother hne heq =>
    hne (hkeys _ (hsub hcall) _ (hsub hother) heq)

/-- **No proof is accepted twice when the entry of every nonce lasts**: from the first call
on that passes the checks with a cutoff behind the creation of the first proof with
a holder and nonce, no further such proof passes the checks. The condition is also
necessary unless two holders and nonces share a replay key. -/
theorem acceptsOnce_iff_lasting (prims : Primitives) (calls : List Verification) :
    (ReplayCache.Lasting [] (visitsOf prims calls) → AcceptsOnce prims calls) ∧
      (Unambiguous calls →
        (AcceptsOnce prims calls ↔ ReplayCache.Lasting [] (visitsOf prims calls))) := by
  have hlasting : ((acceptedCalls prims (fun _ => none) calls).map
      fun call => replayKey call.proof).Nodup ↔
        ReplayCache.Lasting [] (visitsOf prims calls) := by
    rw [map_key_acceptedCalls]
    exact ReplayCache.nodup_accepted_iff
  refine ⟨fun h => acceptsOnce_of_nodup_keys (hlasting.mpr h), fun hkeys => ⟨fun h => ?_, fun h =>
    acceptsOnce_of_nodup_keys (hlasting.mpr h)⟩⟩
  exact hlasting.mp (nodup_keys_of_acceptsOnce hkeys h)

/-! ## Windows of similar size -/

/-- The windows of the calls differ by a factor of two at most, and are not so large that
their double overflows. -/
def SimilarWindows (calls : List Verification) : Prop :=
  ∀ call ∈ calls, 0 ≤ call.maxSkew ∧ call.maxSkew < 2 ^ 62 ∧
    ∀ other ∈ calls, other.maxSkew ≤ 2 * call.maxSkew

/-- Proofs with one replay key have one creation time. -/
def KeysUsedOnce (calls : List Verification) : Prop :=
  ∀ call ∈ calls, ∀ other ∈ calls, replayKey call.proof = replayKey other.proof →
    call.proof.createdAtMs = other.proof.createdAtMs

/-- **With windows of similar size, a proof is accepted once**, if no replay key is used again
with another creation time. -/
theorem acceptsOnce_of_similarWindows (hclock : Chronological calls)
    (hwindows : SimilarWindows calls) (hkeys : KeysUsedOnce calls) :
    AcceptsOnce prims calls := by
  -- no visit has a cutoff behind the stamp of a later visit
  have hbehind : ∀ call ∈ calls, ∀ other ∈ calls, call.now ≤ other.now →
      check prims other = .ok () → call.visit.cutoff ≤ other.visit.stamp := by
    intro call hcall other hother hnow hcheck
    obtain ⟨hpositive, hsmall, hdouble⟩ := hwindows call hcall
    obtain ⟨-, hsmallOther, -⟩ := hwindows other hother
    exact cutoff_le_of_isFresh_later hnow hpositive hsmall hsmallOther (hdouble other hother)
      (isFresh_of_check hcheck)
  have hsource : ∀ visit ∈ visitsOf prims calls,
      ∃ call ∈ calls, check prims call = .ok () ∧ call.visit = visit := by
    intro visit hvisit
    obtain ⟨call, hcall, hsome⟩ := List.mem_filterMap.mp hvisit
    exact ⟨call, hcall, visit?_eq_some_iff.mp hsome⟩
  refine acceptsOnce_of_nodup_keys ?_
  rw [map_key_acceptedCalls]
  refine ReplayCache.nodup_accepted_iff.mpr (ReplayCache.lasting_of_pairwise ?_ ?_ ?_)
  · intro visit hvisit
    obtain ⟨call, hcall, hcheck, rfl⟩ := hsource visit hvisit
    exact hbehind call hcall call hcall le_rfl hcheck
  · refine List.pairwise_filterMap.mpr (hclock.imp_of_mem ?_)
    intro call other hcall hother hnow first hfirst second hsecond
    obtain ⟨-, rfl⟩ := visit?_eq_some_iff.mp hfirst
    obtain ⟨hcheck, rfl⟩ := visit?_eq_some_iff.mp hsecond
    exact hbehind call hcall other hother hnow hcheck
  · intro first hfirst second hsecond hkey
    obtain ⟨call, hcall, -, rfl⟩ := hsource first hfirst
    obtain ⟨other, hother, -, rfl⟩ := hsource second hsecond
    exact hkeys other hother call hcall hkey

end Runs

/-! ## The order is replayed -/

/-- A verification of the order, published at `created`. -/
def orderCall (nonce : Bytes) (created now maxSkew : Int) : Verification where
  peer := alice
  proof := (orderSecurity nonce created).proof
  method := ascii "PUBLISH"
  target := (ordersTransport 0).target
  envelope := order
  now := now
  maxSkew := maxSkew

/-- The order is presented at two and at forty seconds, both times in a window of two
minutes. In between, another order is verified in the given window. -/
def replayedOrder (window : Int) : List Verification :=
  [orderCall [9] (1 * second) (2 * second) (120 * second),
    orderCall [8] (30 * second) (30 * second) window,
    orderCall [9] (1 * second) (40 * second) (120 * second)]

/-- With one window for all calls the second presentation is refused. -/
theorem acceptsOnce_replayedOrder : AcceptsOnce orderPrimitives (replayedOrder (120 * second)) :=
  (acceptsOnce_iff_lasting orderPrimitives (replayedOrder (120 * second))).1 (by decide +kernel)

/-- So it is with a window of ninety seconds in between. -/
theorem acceptsOnce_ninetySeconds : AcceptsOnce orderPrimitives (replayedOrder (90 * second)) :=
  acceptsOnce_of_similarWindows (by decide +kernel) (by unfold SimilarWindows; decide +kernel)
    (by unfold KeysUsedOnce; decide +kernel)

/-- **A window of one second in between makes the provider accept the same proof
again.** -/
theorem not_acceptsOnce_mixedWindows :
    ¬∀ (prims : Primitives) (calls : List Verification),
      Chronological calls → AcceptsOnce prims calls := by
  intro h
  have hclock : Chronological (replayedOrder (1 * second)) := by decide +kernel
  exact absurd (h orderPrimitives (replayedOrder (1 * second)) hclock) (by decide +kernel)

end Ubiq.Security
