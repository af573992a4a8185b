import Mathlib.Data.List.MinMax
import Mathlib.Tactic

/-!
# Selection of the first best element

The best admissible element of a list is the `List.argmax` of its admissible elements.
`best_concat` is one step of the scan that finds it. `best_eq_some_iff` says where it stands: in
front of it every admissible element has a lower score, behind it none has a higher one. From
there it follows what a better score of the winner or another arrangement of the list changes.
-/

namespace Ubiq.Foundation.Selection

variable {α β : Type*} [LinearOrder β] {admits : α → Bool} {score : α → β} {candidates : List α}
  {winner : α}

/-- The first of the admissible elements with the highest score. -/
def best (admits : α → Bool) (score : α → β) (candidates : List α) : Option α :=
  (candidates.filter admits).argmax score

/-- Between `before` and `after`, `winner` is the first of the best. -/
structure First (admits : α → Bool) (score : α → β) (before : List α) (winner : α)
    (after : List α) : Prop where
  admitted : admits winner = true
  ahead : ∀ other ∈ before, admits other = true → score other < score winner
  behind : ∀ other ∈ after, admits other = true → score other ≤ score winner

theorem best_eq_none_iff :
    best admits score candidates = none ↔ ∀ candidate ∈ candidates, admits candidate = false := by
  simp [best]

/-- An element at the end that is not admissible is passed over. -/
theorem best_concat_of_not_admits {candidate : α} (h : admits candidate = false)
    (candidates : List α) :
    best admits score (candidates ++ [candidate]) = best admits score candidates := by
  simp [best, h]

/-- An admissible element at the end replaces the best so far if its score is higher. -/
theorem best_concat {candidate : α} (h : admits candidate = true) (candidates : List α) :
    best admits score (candidates ++ [candidate]) =
      match best admits score candidates with
      | none => some candidate
      | some incumbent =>
          if score incumbent < score candidate then some candidate else some incumbent := by
  rw [best, List.filter_append, List.filter_cons_of_pos h, List.filter_nil, List.argmax_concat]
  unfold best
  cases (candidates.filter admits).argmax score <;> rfl

theorem le_of_best {other : α} (h : best admits score candidates = some winner)
    (hother : other ∈ candidates) (hadmits : admits other = true) : score other ≤ score winner :=
  List.le_of_mem_argmax (List.mem_filter.mpr ⟨hother, hadmits⟩) h

theorem mem_of_best (h : best admits score candidates = some winner) :
    winner ∈ candidates ∧ admits winner = true :=
  List.mem_filter.mp (List.argmax_mem h)

/-- The winner of a scan stands behind lower scores and in front of no higher one. -/
theorem exists_first_of_best (h : best admits score candidates = some winner) :
    ∃ before after, candidates = before ++ winner :: after ∧
      First admits score before winner after := by
  classical
  obtain ⟨hmem, hadmitted⟩ := mem_of_best h
  obtain ⟨before, after, rfl, hnew⟩ := List.eq_append_cons_of_mem hmem
  refine ⟨before, after, rfl, hadmitted, fun other hother hadmits => ?_,
    fun other hother => le_of_best h (by simp [hother])⟩
  refine (le_of_best h (by simp [hother]) hadmits).lt_of_not_ge fun hge => ?_
  -- of two elements with the highest score the scan keeps the one that stands first
  have hfront : other ∈ before.filter admits := List.mem_filter.mpr ⟨hother, hadmits⟩
  have hindex := (List.mem_argmax_iff.mp h).2.2 other (by simp [hother, hadmits]) hge
  rw [List.filter_append, List.idxOf_append_of_mem hfront,
    List.idxOf_append_of_notMem (by simp [hnew])] at hindex
  have hbound := List.idxOf_lt_length_of_mem hfront
  omega

/-- The first of the best is what the scan finds. -/
theorem First.best_eq {before after : List α} (h : First admits score before winner after) :
    best admits score (before ++ winner :: after) = some winner := by
  induction after using List.reverseRecOn with
  | nil =>
      rw [best_concat h.admitted]
      split
      · rfl
      · next incumbent hincumbent =>
          obtain ⟨hmem, hadmits⟩ := mem_of_best hincumbent
          exact if_pos (h.ahead incumbent hmem hadmits)
  | append_singleton after candidate ih =>
      have hfront := ih ⟨h.admitted, h.ahead, fun other hother => h.behind other (by simp [hother])⟩
      rw [← List.cons_append, ← List.append_assoc]
      cases hcandidate : admits candidate with
      | false => rw [best_concat_of_not_admits hcandidate, hfront]
      | true =>
          have hle := h.behind candidate (by simp) hcandidate
          rw [best_concat hcandidate, hfront]
          exact if_neg (not_lt.mpr hle)

/-- **Where the winner stands.** -/
theorem best_eq_some_iff :
    best admits score candidates = some winner ↔
      ∃ before after, candidates = before ++ winner :: after ∧
        First admits score before winner after := by
  constructor
  · exact exists_first_of_best
  · rintro ⟨before, after, rfl, hfirst⟩
    exact hfirst.best_eq

/-- A winner that becomes better stays the winner. -/
theorem First.improve {before after : List α} {improved : α}
    (h : First admits score before winner after) (hadmits : admits improved = true)
    (hscore : score winner ≤ score improved) : First admits score before improved after where
  admitted := hadmits
  ahead := fun other hother hother' => (h.ahead other hother hother').trans_le hscore
  behind := fun other hother hother' => (h.behind other hother hother').trans hscore

/-- **The best score does not depend on the order.** -/
theorem map_best_of_perm {others : List α} (h : candidates.Perm others) :
    (best admits score candidates).map score = (best admits score others).map score := by
  cases hbest : best admits score candidates with
  | none =>
      have hnone : best admits score others = none :=
        best_eq_none_iff.mpr fun other hother =>
          best_eq_none_iff.mp hbest other (h.mem_iff.mpr hother)
      rw [hnone]
  | some winner =>
      obtain ⟨hmem, hadmits⟩ := mem_of_best hbest
      cases hother : best admits score others with
      | none =>
          rw [best_eq_none_iff.mp hother winner (h.mem_iff.mp hmem)] at hadmits
          cases hadmits
      | some rival =>
          obtain ⟨hrival, hrivalAdmits⟩ := mem_of_best hother
          have hle := le_of_best hother (h.mem_iff.mp hmem) hadmits
          have hge := le_of_best hbest (h.mem_iff.mpr hrival) hrivalAdmits
          exact congrArg some (le_antisymm hle hge)

end Ubiq.Foundation.Selection
