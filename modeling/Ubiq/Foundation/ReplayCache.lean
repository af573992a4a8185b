import Ubiq.Foundation.Execution

/-!
# Caches of seen keys

A cache remembers the keys it has accepted, each with a stamp. A visit first drops
the entries whose stamp is before its cutoff and then accepts its key if the cache
does not have it. Different visits may come with unrelated cutoffs.

`accepts_iff_expired` says when a key that was accepted once is accepted again: some
later visit had a cutoff behind its stamp. `nodup_accepted_iff` says from the visits
alone when a whole run accepts no key twice, and `pairwise_accepted_of_sorted` what two
acceptances of one key have to do with each other when the cutoffs never decrease.
-/

namespace Ubiq.Foundation.ReplayCache

variable {κ : Type*}

/-- The stamp of each remembered key. -/
abbrev Cache (κ : Type*) := κ → Option Int

/-- A key to be accepted, and the cutoff for the entries to be dropped first. -/
structure Visit (κ : Type*) where
  key : κ
  stamp : Int
  cutoff : Int
deriving DecidableEq, Repr

/-- Drop the entries before the cutoff. -/
def prune (cutoff : Int) (cache : Cache κ) : Cache κ :=
  fun key => (cache key).filter fun stamp => cutoff ≤ stamp

variable {cutoff stamp : Int} {cache : Cache κ} {key : κ} {visits : List (Visit κ)}

theorem prune_eq_some_iff :
    prune cutoff cache key = some stamp ↔ cache key = some stamp ∧ cutoff ≤ stamp := by
  simp [prune, Option.filter_eq_some_iff]

theorem prune_of_none (h : cache key = none) :
    prune cutoff cache key = none := by
  simp [prune, h]

theorem prune_of_lt (h : cache key = some stamp) (hlt : stamp < cutoff) :
    prune cutoff cache key = none := by
  simp [prune, h, Option.filter, not_le.mpr hlt]

/-! ## Visits that present a key again -/

/-- From the first cutoff behind the stamp on, the key is not presented. -/
def Outlives (key : κ) (stamp : Int) : List (Visit κ) → Prop
  | [] => True
  | v :: rest =>
      if stamp < v.cutoff then ∀ later ∈ v :: rest, later.key ≠ key else Outlives key stamp rest

/-- The entry of every key outlives the visits that present the key again. The keys of
`seen` have been presented before. -/
def Lasting (seen : List κ) : List (Visit κ) → Prop
  | [] => True
  | v :: rest => (v.key ∈ seen ∨ Outlives v.key v.stamp rest) ∧ Lasting (v.key :: seen) rest

/-- An entry outlives visits that leave every stamp from there on alone, if the key always
comes with the same stamp. -/
theorem outlives_of_pairwise (hself : ∀ w ∈ visits, w.cutoff ≤ w.stamp)
    (hpairs : visits.Pairwise fun u w => u.cutoff ≤ w.stamp)
    (hstamp : ∀ w ∈ visits, w.key = key → w.stamp = stamp) : Outlives key stamp visits := by
  induction visits with
  | nil => trivial
  | cons v rest ih =>
      obtain ⟨hfirst, hrest⟩ := List.pairwise_cons.mp hpairs
      obtain ⟨hselfFirst, hselfRest⟩ := List.forall_mem_cons.mp hself
      have hbehind : ∀ w ∈ v :: rest, v.cutoff ≤ w.stamp :=
        List.forall_mem_cons.mpr ⟨hselfFirst, hfirst⟩
      unfold Outlives
      split
      · next hcutoff =>
          intro later hlater hkey
          have hle := hbehind later hlater
          rw [hstamp later hlater hkey] at hle
          exact absurd hle (not_le.mpr hcutoff)
      · exact ih hselfRest hrest (List.forall_mem_cons.mp hstamp).2

theorem lasting_of_pairwise {seen : List κ} (hself : ∀ w ∈ visits, w.cutoff ≤ w.stamp)
    (hpairs : visits.Pairwise fun u w => u.cutoff ≤ w.stamp)
    (hstamp : ∀ v ∈ visits, ∀ w ∈ visits, w.key = v.key → w.stamp = v.stamp) :
    Lasting seen visits := by
  induction visits generalizing seen with
  | nil => trivial
  | cons v rest ih =>
      obtain ⟨-, hrest⟩ := List.pairwise_cons.mp hpairs
      obtain ⟨-, hselfRest⟩ := List.forall_mem_cons.mp hself
      have hfirst : ∀ w ∈ rest, w.key = v.key → w.stamp = v.stamp := fun w hw =>
        hstamp v List.mem_cons_self w (List.mem_cons_of_mem v hw)
      refine ⟨Or.inr (outlives_of_pairwise hselfRest hrest hfirst), ih hselfRest hrest ?_⟩
      exact fun u hu w hw =>
        hstamp u (List.mem_cons_of_mem v hu) w (List.mem_cons_of_mem v hw)

/-- The key is not accepted by any of the visits, as far as its entry tells. -/
def Silent (cache : Cache κ) (key : κ) (visits : List (Visit κ)) : Prop :=
  match cache key with
  | some stamp => Outlives key stamp visits
  | none => ∀ v ∈ visits, v.key ≠ key

theorem silent_of_some (h : cache key = some stamp) :
    Silent cache key visits ↔ Outlives key stamp visits := by
  simp [Silent, h]

theorem silent_of_none (h : cache key = none) :
    Silent cache key visits ↔ ∀ v ∈ visits, v.key ≠ key := by
  simp [Silent, h]

/-! ## Visiting the cache -/

variable [DecidableEq κ] {v : Visit κ}

/-- The cache does not have the key after pruning. -/
def accepts (cache : Cache κ) (visit : Visit κ) : Bool :=
  (prune visit.cutoff cache visit.key).isNone

/-- The cache after a visit. -/
def visit (cache : Cache κ) (visit : Visit κ) : Cache κ :=
  if accepts cache visit then
    Function.update (prune visit.cutoff cache) visit.key (some visit.stamp)
  else prune visit.cutoff cache

theorem visit_of_accepts (h : accepts cache v = true) :
    visit cache v v.key = some v.stamp := by
  simp [visit, h]

/-- A visit that does not accept the key does at most drop it. -/
theorem visit_of_not_accepts (h : ¬(accepts cache v = true ∧ v.key = key)) :
    visit cache v key = prune v.cutoff cache key := by
  unfold visit
  split
  · next haccepts =>
      have hkey : key ≠ v.key := fun heq => h ⟨haccepts, heq.symm⟩
      rw [Function.update_of_ne hkey]
  · rfl

/-- An entry that survives a visit keeps its key from being accepted. -/
theorem visit_of_le (h : cache key = some stamp) (hle : v.cutoff ≤ stamp) :
    ¬(accepts cache v = true ∧ v.key = key) ∧ visit cache v key = some stamp := by
  have hkept : prune v.cutoff cache key = some stamp := prune_eq_some_iff.mpr ⟨h, hle⟩
  have hnot : ¬(accepts cache v = true ∧ v.key = key) := by
    rintro ⟨haccepts, rfl⟩
    simp [accepts, hkept] at haccepts
  exact ⟨hnot, (visit_of_not_accepts hnot).trans hkept⟩

/-- A key without an entry that is not accepted gets none. -/
theorem run_of_none
    (halong : Execution.Along visit (fun cache v => ¬(accepts cache v = true ∧ v.key = key))
      cache visits) (h : cache key = none) : Execution.run visit cache visits key = none := by
  induction visits generalizing cache with
  | nil => exact h
  | cons v rest ih =>
      obtain ⟨hnot, hrest⟩ := halong
      refine ih hrest ?_
      rw [visit_of_not_accepts hnot]
      exact prune_of_none h

/-- While a key is not accepted, its entry is dropped by the first cutoff behind its
stamp and is not touched before. -/
theorem entry_run
    (halong : Execution.Along visit (fun cache v => ¬(accepts cache v = true ∧ v.key = key))
      cache visits) (h : cache key = some stamp) :
    (Execution.run visit cache visits key = some stamp ∧ ∀ v ∈ visits, v.cutoff ≤ stamp) ∨
      (Execution.run visit cache visits key = none ∧ ∃ v ∈ visits, stamp < v.cutoff) := by
  induction visits generalizing cache with
  | nil => exact Or.inl ⟨h, nofun⟩
  | cons v rest ih =>
      obtain ⟨hnot, hrest⟩ := halong
      by_cases hcutoff : v.cutoff ≤ stamp
      · rcases ih hrest (visit_of_le h hcutoff).2 with ⟨hrun, hall⟩ | ⟨hrun, later, hmem, hlt⟩
        · exact Or.inl ⟨hrun, List.forall_mem_cons.mpr ⟨hcutoff, hall⟩⟩
        · exact Or.inr ⟨hrun, later, List.mem_cons_of_mem _ hmem, hlt⟩
      · -- this visit drops the entry; the hypothesis keeps it from coming back
        have hlt : stamp < v.cutoff := not_le.mp hcutoff
        have hdropped : visit cache v key = none := by
          rw [visit_of_not_accepts hnot]
          exact prune_of_lt h hlt
        have hrun := run_of_none hrest hdropped
        exact Or.inr ⟨hrun, v, List.mem_cons_self, hlt⟩

/-- **A key is accepted again exactly when it has expired**: one of the visits since its
entry was made, the last one included, has a cutoff behind its stamp. -/
theorem accepts_iff_expired (last : Visit κ)
    (halong : Execution.Along visit (fun cache v => ¬(accepts cache v = true ∧ v.key = last.key))
      cache visits) (h : cache last.key = some stamp) :
    accepts (Execution.run visit cache visits) last = true ↔
      ∃ v ∈ visits ++ [last], stamp < v.cutoff := by
  unfold accepts
  rcases entry_run halong h with ⟨hrun, hall⟩ | ⟨hrun, v, hmem, hlt⟩
  · constructor
    · intro hnone
      refine ⟨last, by simp, not_le.mp fun hle => ?_⟩
      rw [prune_eq_some_iff.mpr ⟨hrun, hle⟩] at hnone
      cases hnone
    · rintro ⟨v, hmem, hlt⟩
      rcases List.mem_append.mp hmem with hold | hlast
      · exact absurd (hall v hold) (not_le.mpr hlt)
      · rw [List.mem_singleton.mp hlast] at hlt
        rw [prune_of_lt hrun hlt]
        rfl
  · constructor
    · exact fun _ => ⟨v, List.mem_append_left _ hmem, hlt⟩
    · intro _
      rw [prune_of_none hrun]
      rfl

/-! ## The keys that a run accepts -/

/-- The accepted visits of a run. -/
def accepted (cache : Cache κ) : List (Visit κ) → List (Visit κ)
  | [] => []
  | v :: rest =>
      (if accepts cache v then [v] else []) ++ accepted (visit cache v) rest

theorem accepted_sublist (cache : Cache κ) (visits : List (Visit κ)) :
    (accepted cache visits).Sublist visits := by
  induction visits generalizing cache with
  | nil => exact List.Sublist.slnil
  | cons v rest ih =>
      unfold accepted
      cases accepts cache v with
      | true => exact (ih _).cons_cons v
      | false => exact (ih _).cons v

instance decidableOutlives (key : κ) (stamp : Int) :
    ∀ visits : List (Visit κ), Decidable (Outlives key stamp visits)
  | [] => isTrue trivial
  | v :: rest =>
      have := decidableOutlives key stamp rest
      inferInstanceAs (Decidable (if stamp < v.cutoff then _ else _))

instance decidableLasting :
    ∀ (seen : List κ) (visits : List (Visit κ)), Decidable (Lasting seen visits)
  | _, [] => isTrue trivial
  | seen, v :: rest =>
      have := decidableLasting (v.key :: seen) rest
      inferInstanceAs (Decidable ((v.key ∈ seen ∨ Outlives v.key v.stamp rest) ∧ _))

/-- A key that has no entry after pruning is accepted by the first visit that presents it. -/
theorem forall_key_ne_iff_of_pruned {rest : List (Visit κ)} (h : prune v.cutoff cache key = none) :
    (∀ w ∈ v :: rest, w.key ≠ key) ↔
      ¬(accepts cache v = true ∧ v.key = key) ∧ Silent (visit cache v) key rest := by
  have hkey : v.key ≠ key ↔ ¬(accepts cache v = true ∧ v.key = key) := by
    refine ⟨fun hkey haccepts => hkey haccepts.2, fun hnot hkey => hnot ⟨?_, hkey⟩⟩
    simp [accepts, hkey, h]
  rw [List.forall_mem_cons, hkey]
  refine and_congr_right fun hnot => ?_
  rw [silent_of_none ((visit_of_not_accepts hnot).trans h)]

/-- One visit of a silent key: it does not accept the key, and the key stays silent. -/
theorem silent_cons_iff {rest : List (Visit κ)} :
    Silent cache key (v :: rest) ↔
      ¬(accepts cache v = true ∧ v.key = key) ∧ Silent (visit cache v) key rest := by
  cases hentry : cache key with
  | none =>
      rw [silent_of_none hentry]
      exact forall_key_ne_iff_of_pruned (prune_of_none hentry)
  | some stamp =>
      rw [silent_of_some hentry, Outlives]
      split
      · next hcutoff => exact forall_key_ne_iff_of_pruned (prune_of_lt hentry hcutoff)
      · next hcutoff =>
          obtain ⟨hnot, hkept⟩ := visit_of_le hentry (not_lt.mp hcutoff)
          rw [silent_of_some hkept, and_iff_right hnot]

/-- **A key is accepted by no visit of a run exactly when it is silent.** -/
theorem not_mem_accepted_iff :
    key ∉ (accepted cache visits).map Visit.key ↔ Silent cache key visits := by
  induction visits generalizing cache with
  | nil => cases hentry : cache key <;> simp [accepted, Silent, Outlives, hentry]
  | cons v rest ih =>
      rw [silent_cons_iff, ← ih, accepted, List.map_append, List.mem_append, not_or]
      refine and_congr_left' ?_
      cases accepts cache v <;> simp [eq_comm]

/-- A run in which the keys of `seen` stay silent and the other keys have no entry. -/
theorem nodup_accepted_iff_of_silent {seen : List κ}
    (hsilent : ∀ key ∈ seen, Silent cache key visits)
    (hnone : ∀ key, key ∉ seen → cache key = none) :
    ((accepted cache visits).map Visit.key).Nodup ↔ Lasting seen visits := by
  induction visits generalizing cache seen with
  | nil => simp [accepted, Lasting]
  | cons v rest ih =>
      have hnext : ∀ key ∈ seen, Silent (visit cache v) key rest := fun key hkey =>
        (silent_cons_iff.mp (hsilent key hkey)).2
      have hfresh : ∀ key, key ∉ v.key :: seen → visit cache v key = none := by
        intro key hkey
        obtain ⟨hne, hnot⟩ := not_or.mp (List.mem_cons.not.mp hkey)
        rw [visit_of_not_accepts fun h => hne h.2.symm]
        exact prune_of_none (hnone key hnot)
      by_cases hseen : v.key ∈ seen
      · -- a silent key is refused
        have hrefused : accepts cache v = false := by
          have hnot := (silent_cons_iff.mp (hsilent v.key hseen)).1
          simpa using hnot
        have hall : ∀ key ∈ v.key :: seen, Silent (visit cache v) key rest :=
          List.forall_mem_cons.mpr ⟨hnext v.key hseen, hnext⟩
        simp only [accepted, hrefused, Lasting, hseen, true_or, true_and]
        exact ih hall hfresh
      · -- a new key is accepted, and has to stay silent from now on
        have haccepts : accepts cache v = true := by
          simp [accepts, prune_of_none (hnone v.key hseen)]
        have hlater : Silent (visit cache v) v.key rest ↔ Outlives v.key v.stamp rest :=
          silent_of_some (visit_of_accepts haccepts)
        simp only [accepted, haccepts, Lasting, hseen, false_or, if_true, List.singleton_append,
          List.map_cons, List.nodup_cons, not_mem_accepted_iff, hlater]
        exact and_congr_right fun houtlives =>
          ih (List.forall_mem_cons.mpr ⟨hlater.mpr houtlives, hnext⟩) hfresh

/-- **A run from the empty cache accepts no key twice exactly when every entry outlives
the visits that present its key again.** -/
theorem nodup_accepted_iff :
    ((accepted (fun _ => none) visits).map Visit.key).Nodup ↔ Lasting [] visits :=
  nodup_accepted_iff_of_silent nofun fun _ _ => rfl

/-! ## Cutoffs that never decrease -/

/-- A key with an entry is accepted only by a visit whose cutoff is behind the stamp. -/
theorem stamp_lt_cutoff_of_mem_accepted (hsorted : visits.Pairwise fun v w => v.cutoff ≤ w.cutoff)
    {w : Visit κ} (hentry : cache w.key = some stamp) (hmem : w ∈ accepted cache visits) :
    stamp < w.cutoff := by
  induction visits generalizing cache with
  | nil => simp [accepted] at hmem
  | cons v rest ih =>
      obtain ⟨hfirst, hrest⟩ := List.pairwise_cons.mp hsorted
      by_cases hcutoff : stamp < v.cutoff
      · rcases List.mem_cons.mp ((accepted_sublist cache (v :: rest)).subset hmem) with
          rfl | hlater
        · exact hcutoff
        · exact lt_of_lt_of_le hcutoff (hfirst w hlater)
      · -- the entry survives this visit, which can therefore not be the one
        obtain ⟨hnot, hnext⟩ := visit_of_le hentry (not_lt.mp hcutoff)
        rcases List.mem_append.mp hmem with hhead | htail
        · cases haccepts : accepts cache v with
          | false => simp [haccepts] at hhead
          | true =>
              obtain rfl : w = v := by simpa [haccepts] using hhead
              exact absurd ⟨haccepts, rfl⟩ hnot
        · exact ih hrest hnext htail

/-- **With cutoffs that never decrease, a key is accepted again only by a visit whose
cutoff is behind every earlier stamp of the key.** -/
theorem pairwise_accepted_of_sorted (hsorted : visits.Pairwise fun v w => v.cutoff ≤ w.cutoff) :
    (accepted cache visits).Pairwise fun v w => v.key = w.key → v.stamp < w.cutoff := by
  induction visits generalizing cache with
  | nil => exact List.Pairwise.nil
  | cons v rest ih =>
      have hrest := (List.pairwise_cons.mp hsorted).2
      unfold accepted
      cases haccepts : accepts cache v with
      | false => exact ih hrest
      | true =>
          refine List.pairwise_cons.mpr ⟨fun w hmem hkey => ?_, ih hrest⟩
          refine stamp_lt_cutoff_of_mem_accepted hrest ?_ hmem
          rw [← hkey]
          exact visit_of_accepts haccepts

/-! ## Calls that visit the cache once or not at all -/

section Calls

variable {α : Type*} (visit? : α → Option (Visit κ))

/-- The calls of a run whose visits are accepted. -/
def admitted (cache : Cache κ) : List α → List α
  | [] => []
  | call :: rest =>
      (if (visit? call).any (accepts cache) then [call] else []) ++
        admitted ((visit? call).elim cache (visit cache)) rest

/-- The admitted calls make the accepted visits. -/
theorem filterMap_admitted (cache : Cache κ) (calls : List α) :
    (admitted visit? cache calls).filterMap visit? =
      accepted cache (calls.filterMap visit?) := by
  induction calls generalizing cache with
  | nil => rfl
  | cons call rest ih =>
      rw [admitted, List.filterMap_append, ih]
      cases hvisit : visit? call with
      | none => simp [hvisit]
      | some v =>
          rw [List.filterMap_cons, hvisit, accepted]
          by_cases haccepts : accepts cache v = true
          · simp [haccepts, hvisit]
          · simp [haccepts]

theorem admitted_sublist (cache : Cache κ) (calls : List α) :
    (admitted visit? cache calls).Sublist calls := by
  induction calls generalizing cache with
  | nil => exact List.Sublist.slnil
  | cons call rest ih =>
      unfold admitted
      split
      · exact (ih _).cons_cons call
      · exact (ih _).cons call

/-- An admitted call makes a visit. -/
theorem visit?_of_mem_admitted {calls : List α} {call : α} (h : call ∈ admitted visit? cache calls) :
    ∃ v, visit? call = some v := by
  induction calls generalizing cache with
  | nil => simp [admitted] at h
  | cons first rest ih =>
      rcases List.mem_append.mp h with hfirst | hrest
      · by_cases haccepts : (visit? first).any (accepts cache) = true
        · obtain ⟨v, hv, -⟩ := (Option.any_eq_true _ _).mp haccepts
          obtain rfl : call = first := by simpa [haccepts] using hfirst
          exact ⟨v, hv⟩
        · simp [haccepts] at hfirst
      · exact ih hrest

end Calls

end Ubiq.Foundation.ReplayCache
