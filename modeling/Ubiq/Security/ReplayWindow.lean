import Ubiq.Foundation.Bytes
import Ubiq.Foundation.Execution
import Ubiq.Foundation.Expiry

/-!
# The replay window

`ReplayWindow` of `security_runtime.zig`: a fixed array of nonces with an expiry. Expired entries
stay until a new one is written over the entry that expires first, or until `reap` moves the others
together; the same nonce may stand in several cells.

`LiveNonces` is what the window is for: a list of the acceptances so far, of which only those count
that have not expired. `refines_run` says that the window replies as this list does, and
`accept_iff_live` says it for every call of a run.
-/

namespace Ubiq.Security

open Foundation

/-- The errors of `SecurityRuntimeError` that the replay window returns. -/
inductive ReplayError
  | replayDetected
  | replayTableFull
deriving DecidableEq, Repr

structure ReplayEntry where
  nonce : Bytes
  expiresAtMs : Nat
deriving DecidableEq, Repr

abbrev ReplayWindow (capacity : Nat) := Slots ReplayEntry capacity

/-- The sum of two `u64`; a sum that overflows fails a safety check. -/
def expiryOf (nowMs ttlMs : Nat) : Option Nat :=
  if nowMs + ttlMs < 2 ^ 64 then some (nowMs + ttlMs) else none

/-- What a call returns; `none` is a failed safety check. -/
abbrev ReplayReply := Option (Except ReplayError Unit)

namespace ReplayWindow

variable {capacity : Nat}

/-- The first loop of `accept`: an entry that has not expired has the nonce. -/
def detects (window : ReplayWindow capacity) (nonce : Bytes) (nowMs : Nat) : Bool :=
  window.entries.any fun entry => !(decide (nowMs ≥ entry.expiresAtMs)) && decide (entry.nonce = nonce)

/-- The index that the second loop of `accept` finds. -/
def oldest (window : ReplayWindow capacity) : Nat :=
  Slots.least ReplayEntry.expiresAtMs window

def accept (window : ReplayWindow capacity) (nonce : Bytes) (nowMs ttlMs : Nat) :
    ReplayWindow capacity × ReplayReply :=
  if window.detects nonce nowMs then (window, some (.error .replayDetected))
  else if h : window.entries.length < capacity then
    match expiryOf nowMs ttlMs with
    | some expiresAtMs => (window.push ⟨nonce, expiresAtMs⟩ h, some (.ok ()))
    | none => (window, none)
  else if (window.entries[window.oldest]?).any fun entry => nowMs ≥ entry.expiresAtMs then
    match expiryOf nowMs ttlMs with
    | some expiresAtMs => (window.put window.oldest ⟨nonce, expiresAtMs⟩, some (.ok ()))
    | none => (window, none)
  else (window, some (.error .replayTableFull))

def reap (window : ReplayWindow capacity) (nowMs : Nat) : ReplayWindow capacity :=
  window.compact fun entry => nowMs < entry.expiresAtMs

/-- The calls of a window. -/
inductive Call
  | accept (nonce : Bytes) (nowMs ttlMs : Nat)
  | reap (nowMs : Nat)
deriving DecidableEq, Repr

namespace Call

/-- The time of a call. -/
def nowMs : Call → Nat
  | .accept _ nowMs _ => nowMs
  | .reap nowMs => nowMs

/-- The expiry of the call does not overflow. -/
def Fits : Call → Prop
  | .accept _ nowMs ttlMs => nowMs + ttlMs < 2 ^ 64
  | .reap _ => True

/-- The call is one of `accept`. -/
def isAccept : Call → Bool
  | .accept _ _ _ => true
  | .reap _ => false

end Call

/-- One call. -/
def perform (window : ReplayWindow capacity) : Call → ReplayWindow capacity × ReplayReply
  | .accept nonce nowMs ttlMs => window.accept nonce nowMs ttlMs
  | .reap nowMs => (window.reap nowMs, some (.ok ()))

/-- The window after calls from the empty window. -/
def after (capacity : Nat) (calls : List Call) : ReplayWindow capacity :=
  Execution.run (Execution.after perform) (Slots.empty ReplayEntry capacity) calls

/-- The calls of a run with their replies. -/
def replies (capacity : Nat) (calls : List Call) : List (Call × ReplayReply) :=
  Execution.trace perform (Slots.empty ReplayEntry capacity) calls

end ReplayWindow

/-- The entries of the successful calls of `accept`. -/
def acceptances (calls : List (ReplayWindow.Call × ReplayReply)) : List ReplayEntry :=
  calls.filterMap fun
    | (.accept nonce nowMs ttlMs, some (.ok ())) => some ⟨nonce, nowMs + ttlMs⟩
    | _ => none

/-- Calls of `reap` are no acceptances. -/
theorem acceptances_filter (calls : List (ReplayWindow.Call × ReplayReply)) :
    acceptances (calls.filter fun call => call.1.isAccept) = acceptances calls := by
  unfold acceptances
  rw [List.filterMap_filter]
  refine List.filterMap_congr fun call _ => ?_
  rcases call with ⟨_ | _, _⟩ <;> rfl

/-! ## The live nonces -/

namespace LiveNonces

/-- The acceptances that have not expired. -/
abbrev live (nowMs : Nat) (history : List ReplayEntry) : List ReplayEntry :=
  Expiry.live ReplayEntry.expiresAtMs nowMs history

/-- A nonce is accepted if it is not live and there are fewer than `capacity` live ones. -/
def accept (capacity : Nat) (history : List ReplayEntry) (nonce : Bytes) (nowMs ttlMs : Nat) :
    List ReplayEntry × ReplayReply :=
  if ∃ entry ∈ live nowMs history, entry.nonce = nonce then
    (history, some (.error .replayDetected))
  else if (live nowMs history).length = capacity then (history, some (.error .replayTableFull))
  else (history ++ [⟨nonce, nowMs + ttlMs⟩], some (.ok ()))

/-- The three replies, as long as there are at most `capacity` live nonces. -/
theorem reply_iff {capacity nowMs : Nat} {history : List ReplayEntry}
    (hbounded : (live nowMs history).length ≤ capacity) (nonce : Bytes) (ttlMs : Nat) :
    ((accept capacity history nonce nowMs ttlMs).2 = some (.error .replayDetected) ↔
        ∃ entry ∈ live nowMs history, entry.nonce = nonce) ∧
      ((accept capacity history nonce nowMs ttlMs).2 = some (.error .replayTableFull) ↔
        (∀ entry ∈ live nowMs history, entry.nonce ≠ nonce) ∧
          (live nowMs history).length = capacity) ∧
      ((accept capacity history nonce nowMs ttlMs).2 = some (.ok ()) ↔
        (∀ entry ∈ live nowMs history, entry.nonce ≠ nonce) ∧
          (live nowMs history).length < capacity) := by
  have hfresh : (∀ entry ∈ live nowMs history, entry.nonce ≠ nonce) ↔
      ¬∃ entry ∈ live nowMs history, entry.nonce = nonce := by
    simp only [not_exists, not_and, ne_eq]
  rw [hfresh]
  unfold accept
  by_cases hseen : ∃ entry ∈ live nowMs history, entry.nonce = nonce
  · simp [hseen]
  · rw [if_neg hseen]
    by_cases hfull : (live nowMs history).length = capacity
    · simp [hseen, hfull]
    · have hless : (live nowMs history).length < capacity := lt_of_le_of_ne hbounded hfull
      simp [hseen, hfull, hless]

/-- Nothing has to be done to forget what has expired. -/
def perform (capacity : Nat) (history : List ReplayEntry) :
    ReplayWindow.Call → List ReplayEntry × ReplayReply
  | .accept nonce nowMs ttlMs => accept capacity history nonce nowMs ttlMs
  | .reap _ => (history, some (.ok ()))

/-- The history is made of the acceptances. -/
theorem after_perform (capacity : Nat) (history : List ReplayEntry) (call : ReplayWindow.Call) :
    Execution.after (perform capacity) history call =
      history ++ acceptances [(call, (perform capacity history call).2)] := by
  cases call with
  | reap nowMs => simp [Execution.after, perform, acceptances]
  | accept nonce nowMs ttlMs =>
      simp only [Execution.after, perform, accept]
      split
      · simp [acceptances]
      · split
        · simp [acceptances]
        · simp [acceptances]

theorem run_perform (capacity : Nat) (history : List ReplayEntry) (calls : List ReplayWindow.Call) :
    Execution.run (Execution.after (perform capacity)) history calls =
      history ++ acceptances (Execution.trace (perform capacity) history calls) := by
  induction calls generalizing history with
  | nil => simp [acceptances]
  | cons call rest ih =>
      rw [Execution.run_cons, ih, Execution.trace_cons, after_perform, List.append_assoc]
      simp only [acceptances, ← List.filterMap_append, List.singleton_append]

/-- Leaving out the calls of `reap` leaves out their replies. -/
theorem trace_filter (capacity : Nat) (history : List ReplayEntry) (calls : List ReplayWindow.Call) :
    Execution.trace (perform capacity) history (calls.filter ReplayWindow.Call.isAccept) =
      (Execution.trace (perform capacity) history calls).filter fun call => call.1.isAccept := by
  induction calls generalizing history with
  | nil => rfl
  | cons call rest ih =>
      cases call with
      | reap nowMs => exact ih history
      | accept nonce nowMs ttlMs =>
          exact congrArg _ (ih (Execution.after (perform capacity) history (.accept nonce nowMs ttlMs)))

end LiveNonces

/-! ## Refinement -/

namespace ReplayWindow

variable {capacity : Nat} {window : ReplayWindow capacity} {history : List ReplayEntry} {nowMs : Nat}

/-- The window and the acceptances have the same live entries from now on, and no nonce is live
twice. -/
structure Refines (nowMs : Nat) (window : ReplayWindow capacity) (history : List ReplayEntry) :
    Prop where
  sameLive : Expiry.SameLive ReplayEntry.expiresAtMs nowMs window.entries history
  distinct : ((LiveNonces.live nowMs history).map ReplayEntry.nonce).Nodup

theorem refines_empty (capacity nowMs : Nat) : Refines nowMs (Slots.empty ReplayEntry capacity) [] where
  sameLive := Expiry.sameLive_nil _ nowMs
  distinct := by simp [Expiry.live]

theorem Refines.mono (h : Refines nowMs window history) {later : Nat} (hle : nowMs ≤ later) :
    Refines later window history where
  sameLive := h.sameLive.mono hle
  distinct := by
    have hsub : (LiveNonces.live later history).Sublist (LiveNonces.live nowMs history) := by
      unfold LiveNonces.live
      rw [← Expiry.live_live hle history]
      exact List.filter_sublist
    exact h.distinct.sublist (hsub.map ReplayEntry.nonce)

theorem Refines.length_live (h : Refines nowMs window history) :
    (LiveNonces.live nowMs window.entries).length = (LiveNonces.live nowMs history).length :=
  h.sameLive.perm.length_eq

section Accept

variable {nonce : Bytes} {ttlMs : Nat}

/-- The first loop finds the nonce exactly if it is live. -/
theorem Refines.detects_iff (h : Refines nowMs window history) :
    window.detects nonce nowMs = true ↔
      ∃ entry ∈ LiveNonces.live nowMs history, entry.nonce = nonce := by
  have hwindow : window.detects nonce nowMs = true ↔
      ∃ entry ∈ LiveNonces.live nowMs window.entries, entry.nonce = nonce := by
    simp [detects, Expiry.live, and_assoc]
  rw [hwindow]
  refine exists_congr fun entry => and_congr_left' ?_
  exact h.sameLive.perm.mem_iff

/-- A new entry, wherever the window has put it. -/
theorem Refines.of_sameLive (h : Refines nowMs window history) {next : ReplayWindow capacity}
    {expiresAtMs : Nat} (hfresh : ¬∃ entry ∈ LiveNonces.live nowMs history, entry.nonce = nonce)
    (hnext : Expiry.SameLive ReplayEntry.expiresAtMs nowMs next.entries
      (history ++ [⟨nonce, expiresAtMs⟩])) :
    Refines nowMs next (history ++ [⟨nonce, expiresAtMs⟩]) where
  sameLive := hnext
  distinct := by
    unfold LiveNonces.live
    rw [Expiry.live_append, List.map_append, List.nodup_append]
    refine ⟨h.distinct, ?_, ?_⟩
    · exact (List.nodup_singleton _).sublist (List.filter_sublist.map ReplayEntry.nonce)
    · rintro first hfirst second hsecond rfl
      obtain ⟨entry, hentry, rfl⟩ := List.mem_map.mp hfirst
      obtain ⟨added, hadded, heq⟩ := List.mem_map.mp hsecond
      have hnonce : added.nonce = nonce := by
        rw [List.mem_singleton.mp (Expiry.mem_live.mp hadded).1]
      exact hfresh ⟨entry, hentry, heq.symm.trans hnonce⟩

/-- A full window in which the oldest entry is live consists of live entries. -/
theorem length_live_of_oldest {entry : ReplayEntry}
    (hleast : ∀ other ∈ window.entries, entry.expiresAtMs ≤ other.expiresAtMs)
    (hlive : nowMs < entry.expiresAtMs) :
    (LiveNonces.live nowMs window.entries).length = window.entries.length := by
  have hall : LiveNonces.live nowMs window.entries = window.entries := by
    refine List.filter_eq_self.mpr fun other hother => ?_
    exact decide_eq_true (hlive.trans_le (hleast other hother))
  rw [hall]

/-- An expired entry is not counted. -/
theorem length_live_lt {entry : ReplayEntry} (hmem : entry ∈ window.entries)
    (hexpired : entry.expiresAtMs ≤ nowMs) :
    (LiveNonces.live nowMs window.entries).length < window.entries.length := by
  refine List.length_filter_lt_length_iff_exists.mpr ⟨entry, hmem, ?_⟩
  simpa using hexpired

/-- **Step lemma.** `accept` replies as the list of acceptances does. -/
theorem Refines.accept (hcapacity : 1 ≤ capacity) (h : Refines nowMs window history)
    (hfits : nowMs + ttlMs < 2 ^ 64) :
    (window.accept nonce nowMs ttlMs).2 =
        (LiveNonces.accept capacity history nonce nowMs ttlMs).2 ∧
      Refines nowMs (window.accept nonce nowMs ttlMs).1
        (LiveNonces.accept capacity history nonce nowMs ttlMs).1 := by
  have hexpiry : expiryOf nowMs ttlMs = some (nowMs + ttlMs) := if_pos hfits
  have hlength := h.length_live
  unfold ReplayWindow.accept LiveNonces.accept
  by_cases hseen : ∃ entry ∈ LiveNonces.live nowMs history, entry.nonce = nonce
  · rw [if_pos (h.detects_iff.mpr hseen), if_pos hseen]
    exact ⟨rfl, h⟩
  · rw [if_neg (h.detects_iff.not.mpr hseen), if_neg hseen]
    by_cases hroom : window.entries.length < capacity
    · have hnotFull : (LiveNonces.live nowMs history).length ≠ capacity := by
        have hle := List.length_filter_le (fun entry => nowMs < entry.expiresAtMs) window.entries
        exact (hlength ▸ hle.trans_lt hroom).ne
      rw [dif_pos hroom, if_neg hnotFull, hexpiry]
      exact ⟨rfl, h.of_sameLive hseen (h.sameLive.concat _)⟩
    · -- no cell is free: the entry that expires first decides
      have hfull : window.entries.length = capacity := window.bounded.antisymm (not_lt.mp hroom)
      have hne : window.entries ≠ [] := by
        intro hnil
        rw [hnil, List.length_nil] at hfull
        omega
      obtain ⟨entry, hentry, hleast⟩ : ∃ entry, window.entries[window.oldest]? = some entry ∧
          ∀ other ∈ window.entries, entry.expiresAtMs ≤ other.expiresAtMs := Slots.getElem?_least hne
      rw [dif_neg hroom, hentry, Option.any_some]
      by_cases hexpired : entry.expiresAtMs ≤ nowMs
      · -- it has expired, so it does not count among the live ones and may be written over
        have hless := length_live_lt (List.mem_of_getElem? hentry) hexpired
        have hnotFull : (LiveNonces.live nowMs history).length ≠ capacity := by
          rw [← hlength]
          omega
        rw [if_pos (decide_eq_true hexpired), if_neg hnotFull, hexpiry]
        exact ⟨rfl, h.of_sameLive hseen (h.sameLive.set hentry hexpired _)⟩
      · -- it has not, and so none has
        have hallLive := length_live_of_oldest hleast (not_le.mp hexpired)
        have hcount : (LiveNonces.live nowMs history).length = capacity := by
          rw [← hlength, hallLive, hfull]
        rw [if_neg (by simpa using hexpired), if_pos hcount]
        exact ⟨rfl, h⟩

end Accept

/-- `reap` drops what has expired. -/
theorem Refines.reap (h : Refines nowMs window history) : Refines nowMs (window.reap nowMs) history where
  sameLive := by
    have hentries : (window.reap nowMs).entries = LiveNonces.live nowMs window.entries :=
      Slots.entries_compact _
    rw [hentries]
    exact h.sameLive.filter
  distinct := h.distinct

theorem Refines.perform (hcapacity : 1 ≤ capacity) (call : Call) (hfits : call.Fits)
    (h : Refines call.nowMs window history) :
    (window.perform call).2 = (LiveNonces.perform capacity history call).2 ∧
      Refines call.nowMs (Execution.after perform window call)
        (Execution.after (LiveNonces.perform capacity) history call) := by
  cases call with
  | accept nonce nowMs ttlMs => exact h.accept hcapacity hfits
  | reap nowMs => exact ⟨rfl, h.reap⟩

/-- **Run lemma.** The window replies as the list of acceptances does, and refines it whenever the
run has come to a time. -/
theorem refines_run (hcapacity : 1 ≤ capacity) {calls : List Call}
    (hsorted : (calls.map Call.nowMs).Pairwise (· ≤ ·)) (hfits : ∀ call ∈ calls, call.Fits) :
    replies capacity calls = Execution.trace (LiveNonces.perform capacity) [] calls ∧
      ∀ later, (∀ call ∈ calls, call.nowMs ≤ later) →
        Refines later (ReplayWindow.after capacity calls) (acceptances (replies capacity calls)) := by
  have hstep : ∀ (call : Call) (window : ReplayWindow capacity) (history : List ReplayEntry),
      call.Fits → Refines call.nowMs window history → _ :=
    fun call _ _ hcall h => h.perform hcapacity call hcall
  have hclocks : (0 :: calls.map Call.nowMs).Pairwise (· ≤ ·) :=
    List.pairwise_cons.mpr ⟨fun _ _ => Nat.zero_le _, hsorted⟩
  have hmono : ∀ (now later : Nat) (window : ReplayWindow capacity) (history : List ReplayEntry),
      now ≤ later → Refines now window history → Refines later window history :=
    fun _ _ _ _ hle h => h.mono hle
  obtain ⟨htrace, hrun⟩ :=
    Execution.trace_eq_of_clock hmono hstep (refines_empty capacity 0) hfits hclocks
  refine ⟨htrace, fun later hlater => ?_⟩
  have hfinal := hrun later (by simpa using hlater)
  rw [LiveNonces.run_perform, ← htrace, List.nil_append] at hfinal
  exact hfinal

/-- The acceptances of a run that have not expired. -/
def unexpired (capacity : Nat) (calls : List Call) (nowMs : Nat) : List ReplayEntry :=
  LiveNonces.live nowMs (acceptances (replies capacity calls))

/-- Without its calls of `reap` a run has the same acceptances. -/
theorem acceptances_filter_isAccept (hcapacity : 1 ≤ capacity) {calls : List Call}
    (hsorted : (calls.map Call.nowMs).Pairwise (· ≤ ·)) (hfits : ∀ call ∈ calls, call.Fits) :
    acceptances (replies capacity (calls.filter Call.isAccept)) = acceptances (replies capacity calls) := by
  have hsub : (calls.filter Call.isAccept).Sublist calls := List.filter_sublist
  have hfewer := refines_run hcapacity (hsorted.sublist (hsub.map Call.nowMs))
    fun call hmem => hfits call (hsub.subset hmem)
  rw [hfewer.1, LiveNonces.trace_filter, acceptances_filter, ← (refines_run hcapacity hsorted hfits).1]

/-- **The window is a set of live nonces.** In a run whose times never go back and whose expiries
do not overflow, `accept` reports a replay exactly if an earlier acceptance of the nonce has not
expired, reports a full table exactly if otherwise `capacity` acceptances, all of different nonces,
have not expired, and else succeeds. Every acceptance that has not expired is in the window, and
leaving out all earlier calls of `reap` gives the same reply. -/
theorem accept_iff_live (capacity : Nat) (hcapacity : 1 ≤ capacity) (calls : List Call)
    (nonce : Bytes) (nowMs ttlMs : Nat)
    (hsorted : ((calls ++ [Call.accept nonce nowMs ttlMs]).map Call.nowMs).Pairwise (· ≤ ·))
    (hfits : ∀ call ∈ calls ++ [Call.accept nonce nowMs ttlMs], call.Fits) :
    (((after capacity calls).accept nonce nowMs ttlMs).2 = some (.error .replayDetected) ↔
        ∃ entry ∈ unexpired capacity calls nowMs, entry.nonce = nonce) ∧
      (((after capacity calls).accept nonce nowMs ttlMs).2 = some (.error .replayTableFull) ↔
        (∀ entry ∈ unexpired capacity calls nowMs, entry.nonce ≠ nonce) ∧
          (unexpired capacity calls nowMs).length = capacity) ∧
      (((after capacity calls).accept nonce nowMs ttlMs).2 = some (.ok ()) ↔
        (∀ entry ∈ unexpired capacity calls nowMs, entry.nonce ≠ nonce) ∧
          (unexpired capacity calls nowMs).length < capacity) ∧
      ((unexpired capacity calls nowMs).map ReplayEntry.nonce).Nodup ∧
      (∀ entry ∈ unexpired capacity calls nowMs, entry ∈ (after capacity calls).entries) ∧
      ((after capacity (calls.filter Call.isAccept)).accept nonce nowMs ttlMs).2 =
        ((after capacity calls).accept nonce nowMs ttlMs).2 := by
  rw [List.map_append, List.pairwise_append] at hsorted
  obtain ⟨hearlier, -, hlast⟩ := hsorted
  obtain ⟨hcalls, hcall⟩ := List.forall_mem_append.mp hfits
  have hroom : nowMs + ttlMs < 2 ^ 64 := hcall _ List.mem_cons_self
  have hbound : ∀ call ∈ calls, call.nowMs ≤ nowMs := fun call hmem =>
    hlast _ (List.mem_map_of_mem hmem) nowMs List.mem_cons_self
  have h := (refines_run hcapacity hearlier hcalls).2 nowMs hbound
  have hreply : ((after capacity calls).accept nonce nowMs ttlMs).2 =
      (LiveNonces.accept capacity (acceptances (replies capacity calls)) nonce nowMs ttlMs).2 :=
    (h.accept hcapacity hroom).1
  have hbounded : (LiveNonces.live nowMs (acceptances (replies capacity calls))).length ≤ capacity := by
    rw [← h.length_live]
    exact (List.length_filter_le _ _).trans (after capacity calls).bounded
  obtain ⟨hdetected, hfull, hok⟩ := LiveNonces.reply_iff hbounded nonce ttlMs
  rw [← hreply] at hdetected hfull hok
  refine ⟨hdetected, hfull, hok, h.distinct, ?_, ?_⟩
  · intro entry hentry
    obtain ⟨hmem, hlive⟩ := Expiry.mem_live.mp hentry
    exact h.sameLive.mem_table hmem hlive
  · -- the shorter run has the same acceptances, and these decide the reply
    have hsub : (calls.filter Call.isAccept).Sublist calls := List.filter_sublist
    have hfewer := (refines_run hcapacity (hearlier.sublist (hsub.map Call.nowMs))
      fun call hmem => hcalls call (hsub.subset hmem)).2 nowMs
      fun call hmem => hbound call (hsub.subset hmem)
    rw [acceptances_filter_isAccept hcapacity hearlier hcalls] at hfewer
    exact (hfewer.accept hcapacity hroom).1.trans hreply.symm

/-- A nonce that came back before its expiry, one that came back after it, and a full table. -/
theorem accept_iff_live_twoNonces :
    ((after 2 [.accept (ascii "a") 0 10, .accept (ascii "b") 1 3, .reap 2]).accept
        (ascii "a") 5 10).2 = some (.error .replayDetected) ∧
      ((after 2 [.accept (ascii "a") 0 10, .accept (ascii "b") 1 3, .reap 2]).accept
        (ascii "c") 3 10).2 = some (.error .replayTableFull) ∧
      ((after 2 [.accept (ascii "a") 0 10, .accept (ascii "b") 1 3, .reap 2]).accept
        (ascii "b") 4 10).2 = some (.ok ()) := by
  refine ⟨?_, ?_, ?_⟩
  · exact (accept_iff_live 2 (by decide) _ _ 5 10 (by decide) (by simp [Call.Fits])).1.mpr (by decide)
  · exact (accept_iff_live 2 (by decide) _ _ 3 10 (by decide) (by simp [Call.Fits])).2.1.mpr (by decide)
  · exact (accept_iff_live 2 (by decide) _ _ 4 10 (by decide) (by simp [Call.Fits])).2.2.1.mpr
      (by decide)

end ReplayWindow
end Ubiq.Security
