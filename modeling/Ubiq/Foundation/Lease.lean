import Mathlib.Tactic
import Mathlib.Data.List.Nodup

/-!
# Leases with fencing tokens

The life of one work item that workers lease, as an automaton over what can be
observed of it. A worker is granted the item with a token that counts the
grants; only the worker of the current grant, with its token and before its
deadline, may report receipt or settle; an overdue grant may be released, and the
item then waits for the next worker. A settled item is final.

`Track.step` refuses every observation that breaks these rules, so a system is
correct when its observations are accepted. The theorems say what acceptance
means for whole histories.
-/

namespace Ubiq.Foundation.Lease

variable {ω τ κ : Type*}

/-- A grant of the item to a worker. -/
structure Grant (ω τ : Type*) where
  worker : ω
  token : Nat
  deadline : τ

/-- How, by whom and under which token the item was settled. -/
structure Verdict (ω κ : Type*) where
  kind : κ
  worker : ω
  token : Nat

/-- Where the item is. -/
inductive Phase (ω τ κ : Type*)
  | absent
  | waiting
  | held (grant : Grant ω τ) (received : Bool)
  | settled (verdict : Verdict ω κ)

/-- What can be observed of the item. -/
inductive Observation (ω τ κ : Type*)
  | published
  | claimed (grant : Grant ω τ)
  | received (worker : ω) (token : Nat) (now : τ)
  | settled (verdict : Verdict ω κ) (now : τ)
  | requeued (now : τ)

/-- The grants so far, the latest last, and the phase. -/
structure Track (ω τ κ : Type*) where
  claims : List (Grant ω τ)
  phase : Phase ω τ κ

namespace Track

/-- An item nobody has heard of. -/
def init : Track ω τ κ := ⟨[], .absent⟩

/-- The item is leased to somebody. -/
def Held (track : Track ω τ κ) : Prop :=
  ∃ grant received, track.phase = .held grant received

/-- The grants are numbered from one on; who holds the item holds the latest
grant, and who settled it held it. -/
structure Sound (track : Track ω τ κ) : Prop where
  numbered : track.claims.map Grant.token = List.range' 1 track.claims.length
  held : ∀ grant received, track.phase = .held grant received →
    track.claims.getLast? = some grant
  settled : ∀ verdict, track.phase = .settled verdict →
    ∃ grant, track.claims.getLast? = some grant ∧ grant.worker = verdict.worker ∧
      grant.token = verdict.token

theorem sound_init : Sound (init : Track ω τ κ) where
  numbered := rfl
  held _ _ h := by cases h
  settled _ h := by cases h

variable [DecidableEq ω] [LinearOrder τ]

/-- The grant is current for this worker and token at this time. -/
def Current (grant : Grant ω τ) (worker : ω) (token : Nat) (now : τ) : Prop :=
  grant.worker = worker ∧ grant.token = token ∧ now < grant.deadline

instance decidableCurrent (grant : Grant ω τ) (worker : ω) (token : Nat) (now : τ) :
    Decidable (Current grant worker token now) :=
  inferInstanceAs (Decidable (_ ∧ _ ∧ _))

/-- The automaton. -/
def step (track : Track ω τ κ) : Observation ω τ κ → Option (Track ω τ κ)
  | .published =>
      match track.phase with
      | .absent => some { track with phase := .waiting }
      | _ => none
  | .claimed grant =>
      match track.phase with
      | .waiting =>
          -- tokens count the grants, so no token is given twice
          if grant.token = track.claims.length + 1 then
            some ⟨track.claims ++ [grant], .held grant false⟩
          else none
      | _ => none
  | .received worker token now =>
      match track.phase with
      | .held grant false =>
          if Current grant worker token now then
            some { track with phase := .held grant true }
          else none
      | _ => none
  | .settled verdict now =>
      match track.phase with
      | .held grant _ =>
          if Current grant verdict.worker verdict.token now then
            some { track with phase := .settled verdict }
          else none
      | _ => none
  | .requeued now =>
      match track.phase with
      | .held grant _ =>
          if grant.deadline ≤ now then some { track with phase := .waiting } else some track
      -- a sweep passes over whatever is not leased
      | _ => some track

/-- Follow a history of observations. -/
def follow (track : Track ω τ κ) (history : List (Observation ω τ κ)) : Option (Track ω τ κ) :=
  history.foldlM step track

@[simp] theorem follow_nil (track : Track ω τ κ) : track.follow [] = some track := rfl

theorem follow_append (track : Track ω τ κ) (first second : List (Observation ω τ κ)) :
    track.follow (first ++ second) = (track.follow first).bind fun next => next.follow second := by
  unfold follow
  rw [List.foldlM_append]
  rfl

/-- A history is followed from its first observation on. -/
theorem follow_cons_eq_some_iff {track next : Track ω τ κ} {seen : Observation ω τ κ}
    {rest : List (Observation ω τ κ)} :
    track.follow (seen :: rest) = some next ↔
      ∃ middle, track.step seen = some middle ∧ middle.follow rest = some next :=
  Option.bind_eq_some_iff

theorem follow_append_eq_some_iff {track next : Track ω τ κ}
    {first second : List (Observation ω τ κ)} :
    track.follow (first ++ second) = some next ↔
      ∃ middle, track.follow first = some middle ∧ middle.follow second = some next := by
  rw [follow_append, Option.bind_eq_some_iff]

end Track

/-- The grant that an observation reports. -/
def Observation.grant? : Observation ω τ κ → Option (Grant ω τ)
  | .claimed grant => some grant
  | _ => none

/-- The grants of a history, in order. -/
def grants (history : List (Observation ω τ κ)) : List (Grant ω τ) :=
  history.filterMap Observation.grant?

theorem grants_cons (seen : Observation ω τ κ) (history : List (Observation ω τ κ)) :
    grants (seen :: history) = seen.grant?.toList ++ grants history := by
  unfold grants
  rw [List.filterMap_cons]
  cases seen.grant? <;> rfl

theorem grants_append (first second : List (Observation ω τ κ)) :
    grants (first ++ second) = grants first ++ grants second :=
  List.filterMap_append

namespace Track

variable [DecidableEq ω] [LinearOrder τ] {track next : Track ω τ κ} {seen : Observation ω τ κ}
  {history : List (Observation ω τ κ)}

/-- All that an accepted observation can do, with its guard. -/
inductive Effect (track : Track ω τ κ) : Observation ω τ κ → Track ω τ κ → Prop
  | published (hphase : track.phase = .absent) :
      Effect track .published { track with phase := .waiting }
  | claimed (grant : Grant ω τ) (hphase : track.phase = .waiting)
      (htoken : grant.token = track.claims.length + 1) :
      Effect track (.claimed grant) ⟨track.claims ++ [grant], .held grant false⟩
  | received (grant : Grant ω τ) (worker : ω) (token : Nat) (now : τ)
      (hphase : track.phase = .held grant false) (hcurrent : Current grant worker token now) :
      Effect track (.received worker token now) { track with phase := .held grant true }
  | settled (grant : Grant ω τ) (received : Bool) (verdict : Verdict ω κ) (now : τ)
      (hphase : track.phase = .held grant received)
      (hcurrent : Current grant verdict.worker verdict.token now) :
      Effect track (.settled verdict now) { track with phase := .settled verdict }
  | released (grant : Grant ω τ) (received : Bool) (now : τ)
      (hphase : track.phase = .held grant received) (hdue : grant.deadline ≤ now) :
      Effect track (.requeued now) { track with phase := .waiting }
  | kept (now : τ)
      (hkept : ∀ grant received, track.phase = .held grant received → now < grant.deadline) :
      Effect track (.requeued now) track

theorem effect_of_step (h : track.step seen = some next) : Effect track seen next := by
  cases seen with
  | published =>
      cases hphase : track.phase <;> simp only [step, hphase, Option.some.injEq, reduceCtorEq] at h
      subst h
      exact .published hphase
  | claimed grant =>
      cases hphase : track.phase <;> simp only [step, hphase, reduceCtorEq] at h
      split at h
      · next htoken =>
          cases h
          exact .claimed grant hphase htoken
      · cases h
  | received worker token now =>
      simp only [step] at h
      split at h
      · next grant hphase =>
          split at h
          · next hcurrent =>
              cases h
              exact .received grant worker token now hphase hcurrent
          · cases h
      · cases h
  | settled verdict now =>
      simp only [step] at h
      split at h
      · next grant received hphase =>
          split at h
          · next hcurrent =>
              cases h
              exact .settled grant received verdict now hphase hcurrent
          · cases h
      · cases h
  | requeued now =>
      simp only [step] at h
      split at h
      · next grant received hphase =>
          split at h
          · next hdue =>
              cases h
              exact .released grant received now hphase hdue
          · next hdue =>
              cases h
              refine .kept now fun other _ hother => ?_
              rw [hphase] at hother
              cases hother
              exact lt_of_not_ge hdue
      · next hnot =>
          cases h
          exact .kept now fun grant received hphase => (hnot grant received hphase).elim

/-! ## What a history says -/

/-- **Step lemma.** -/
theorem Sound.step (h : Sound track) (hstep : track.step seen = some next) : Sound next := by
  cases effect_of_step hstep with
  | published hphase => exact ⟨h.numbered, nofun, nofun⟩
  | claimed grant hphase htoken =>
      refine ⟨?_, ?_, nofun⟩
      · -- the new token extends the range by one
        simp only [List.map_append, List.map_cons, List.map_nil, List.length_append,
          List.length_singleton, List.range'_concat, h.numbered, htoken]
        rw [Nat.add_comm, Nat.one_mul]
      · intro other received hheld
        cases hheld
        simp
  | received grant worker token now hphase hcurrent =>
      refine ⟨h.numbered, ?_, nofun⟩
      intro other received hheld
      cases hheld
      exact h.held grant false hphase
  | settled grant received verdict now hphase hcurrent =>
      refine ⟨h.numbered, nofun, ?_⟩
      intro other hsettled
      cases hsettled
      exact ⟨grant, h.held grant received hphase, hcurrent.1, hcurrent.2.1⟩
  | released grant received now hphase hdue =>
      exact ⟨h.numbered, nofun, nofun⟩
  | kept => exact h

/-- **Run lemma.** -/
theorem Sound.follow (h : Sound track) (hfollow : track.follow history = some next) :
    Sound next := by
  induction history generalizing track with
  | nil =>
      cases hfollow
      exact h
  | cons seen rest ih =>
      obtain ⟨middle, hstep, hrest⟩ := follow_cons_eq_some_iff.mp hfollow
      exact ih (h.step hstep) hrest

/-- The track remembers exactly the grants of the history. -/
theorem claims_follow (hfollow : track.follow history = some next) :
    next.claims = track.claims ++ grants history := by
  induction history generalizing track with
  | nil =>
      cases hfollow
      simp [grants]
  | cons seen rest ih =>
      obtain ⟨middle, hstep, hrest⟩ := follow_cons_eq_some_iff.mp hfollow
      rw [ih hrest]
      cases effect_of_step hstep <;> simp [grants_cons, Observation.grant?]

/-- Without a new grant nobody comes to hold the item. -/
theorem not_held_follow (hfollow : track.follow history = some next) (hnot : ¬track.Held)
    (hnone : grants history = []) : ¬next.Held := by
  induction history generalizing track with
  | nil =>
      cases hfollow
      exact hnot
  | cons seen rest ih =>
      obtain ⟨middle, hstep, hrest⟩ := follow_cons_eq_some_iff.mp hfollow
      rw [grants_cons, List.append_eq_nil_iff] at hnone
      refine ih hrest ?_ hnone.2
      rintro ⟨grant, received, hheld⟩
      cases effect_of_step hstep with
      | published hphase => cases hheld
      | claimed grant hphase htoken => cases hnone.1
      | received grant worker token now hphase hcurrent => exact hnot ⟨_, _, hphase⟩
      | settled grant received verdict now hphase hcurrent => cases hheld
      | released grant received now hphase hdue => cases hheld
      | kept now hkept => exact hnot ⟨_, _, hheld⟩

/-- A settled item is final. -/
theorem settled_follow {verdict : Verdict ω κ} (hfollow : track.follow history = some next)
    (hsettled : track.phase = .settled verdict) : next = track := by
  induction history generalizing track with
  | nil =>
      cases hfollow
      rfl
  | cons seen rest ih =>
      obtain ⟨middle, hstep, hrest⟩ := follow_cons_eq_some_iff.mp hfollow
      have hsame : middle = track := by
        cases effect_of_step hstep with
        | published hphase => rw [hsettled] at hphase; cases hphase
        | claimed grant hphase htoken => rw [hsettled] at hphase; cases hphase
        | received grant worker token now hphase hcurrent => rw [hsettled] at hphase; cases hphase
        | settled grant received other now hphase hcurrent => rw [hsettled] at hphase; cases hphase
        | released grant received now hphase hdue => rw [hsettled] at hphase; cases hphase
        | kept now hkept => rfl
      subst hsame
      exact ih hrest hsettled

/-- While a grant is held, every release sweep since it was given came before its
deadline. -/
theorem now_lt_deadline {first second : List (Observation ω τ κ)} {now : τ} {grant : Grant ω τ}
    {received : Bool} (hsound : Sound track)
    (hfollow : track.follow (first ++ .requeued now :: second) = some next)
    (hheld : next.phase = .held grant received) (hnone : grants second = []) :
    now < grant.deadline := by
  have hlast := (hsound.follow hfollow).held grant received hheld
  rw [claims_follow hfollow, grants_append, grants_cons, hnone] at hlast
  obtain ⟨middle, hfirst, hrest⟩ := follow_append_eq_some_iff.mp hfollow
  obtain ⟨swept, hstep, hsecond⟩ := follow_cons_eq_some_iff.mp hrest
  -- the sweep left the item held, or nobody could hold it at the end
  have hswept : swept.Held := by
    by_contra hnot
    exact not_held_follow hsecond hnot hnone ⟨grant, received, hheld⟩
  obtain ⟨other, flag, hother⟩ := hswept
  cases effect_of_step hstep with
  | released => cases hother
  | kept _ hkept =>
      have hsame := (hsound.follow hfirst).held other flag hother
      rw [claims_follow hfirst] at hsame
      simp only [Observation.grant?, Option.toList_none, List.append_nil, hsame,
        Option.some.injEq] at hlast
      rw [← hlast]
      exact hkept other flag hother

end Track
end Ubiq.Foundation.Lease
