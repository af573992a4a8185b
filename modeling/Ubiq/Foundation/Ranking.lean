import Ubiq.Foundation.Selection
import Mathlib.Data.List.Sort
import Mathlib.Data.Prod.Lex

/-!
# Rankings

A ranking of a list is its rearrangement in a strict order. Candidates with a score are ranked
by `Precedes`: the higher score first, and the earlier candidate among equals. A scan that keeps
the best candidate seen so far finds the first of those that are left (`best_filter_take`), so
that repeated selection reads off a prefix of one ranking.

The last sections say how a prefix of a ranking changes when one candidate is added or removed
(`take_insert_cases`), which candidates it has, and when two prefixes have the same.
-/

namespace Ubiq.Foundation.Ranking

variable {α : Type*}

/-! ## Rearrangements in a strict order -/

/-- `ranked` is `xs` in the order `r`. -/
structure Ranked (r : α → α → Prop) (xs ranked : List α) : Prop where
  perm : ranked.Perm xs
  sorted : ranked.Pairwise r

namespace Ranked

variable {r : α → α → Prop} {xs ranked : List α}

/-- Rankings of two arrangements of the same candidates are equal. -/
theorem unique (hasymm : ∀ a b, r a b → ¬r b a) {ys other : List α} (h : Ranked r xs ranked)
    (hother : Ranked r ys other) (hperm : xs.Perm ys) : ranked = other := by
  refine List.Perm.eq_of_pairwise ?_ h.sorted hother.sorted
    (h.perm.trans (hperm.trans hother.perm.symm))
  intro a b _ _ hab hba
  exact absurd hba (hasymm a b hab)

theorem filter (h : Ranked r xs ranked) (test : α → Bool) :
    Ranked r (xs.filter test) (ranked.filter test) :=
  ⟨h.perm.filter test, h.sorted.filter test⟩

theorem imp {s : α → α → Prop} (h : Ranked r xs ranked)
    (himp : ∀ a ∈ xs, ∀ b ∈ xs, r a b → s a b) : Ranked s xs ranked :=
  ⟨h.perm, h.sorted.imp_of_mem fun ha hb => himp _ (h.perm.subset ha) _ (h.perm.subset hb)⟩

theorem map {β : Type*} {s : β → β → Prop} (h : Ranked r xs ranked) (f : α → β)
    (himp : ∀ a ∈ xs, ∀ b ∈ xs, r a b → s (f a) (f b)) : Ranked s (xs.map f) (ranked.map f) :=
  ⟨h.perm.map f, List.pairwise_map.mpr (h.imp himp).sorted⟩

theorem ne_nil_iff (h : Ranked r xs ranked) : ranked ≠ [] ↔ xs ≠ [] := by
  have hlength := h.perm.length_eq
  rw [← List.length_pos_iff, ← List.length_pos_iff, hlength]

end Ranked

/-! ## Scores -/

section Scores

variable {ι β : Type*} [LinearOrder ι] [LinearOrder β] {score : ι → β} {a b : ι}
  {candidates : List ι}

/-- The higher score comes first, then the earlier candidate. -/
def Precedes (score : ι → β) (a b : ι) : Prop :=
  score b < score a ∨ score a = score b ∧ a < b

/-- The reversed score and the candidate, in lexicographic order. -/
def rank (score : ι → β) (candidate : ι) : Lex (βᵒᵈ × ι) :=
  toLex (OrderDual.toDual (score candidate), candidate)

theorem precedes_iff : Precedes score a b ↔ rank score a < rank score b := by
  simp [Precedes, rank, Prod.Lex.toLex_lt_toLex]

/-- Distinct candidates have a ranking. -/
theorem exists_ranked (score : ι → β) (hnodup : candidates.Nodup) :
    ∃ ranked, Ranked (Precedes score) candidates ranked := by
  have hperm := List.mergeSort_perm candidates fun first second => rank score first ≤ rank score second
  have hsorted := List.pairwise_mergeSort'
    (fun first second => rank score first ≤ rank score second) candidates
  refine ⟨_, hperm, (hsorted.and (hperm.nodup_iff.mpr hnodup)).imp ?_⟩
  rintro first second ⟨hle, hne⟩
  have hranks : rank score first ≠ rank score second := fun heq =>
    hne (congrArg (fun key => (ofLex key).2) heq)
  exact precedes_iff.mpr (lt_of_le_of_ne hle hranks)

/-- One step of a scan: a candidate with a strictly higher score replaces the best so far. -/
def consider (score : ι → β) : Option ι → ι → Option ι
  | none, candidate => some candidate
  | some incumbent, candidate =>
      if score incumbent < score candidate then some candidate else some incumbent

/-- The scan over the candidates. -/
def best (score : ι → β) (candidates : List ι) : Option ι :=
  candidates.foldl (consider score) none

omit [LinearOrder ι] in
theorem best_eq_argmax (score : ι → β) (candidates : List ι) :
    best score candidates = candidates.argmax score := by
  unfold best List.argmax
  congr 1
  funext incumbent candidate
  cases incumbent <;> rfl

/-- The scan finds the candidate that precedes all others. -/
theorem best_eq_some {found : ι} (hsorted : candidates.Pairwise (· < ·)) (hmem : found ∈ candidates)
    (h : ∀ other ∈ candidates, other ≠ found → Precedes score found other) :
    best score candidates = some found := by
  obtain ⟨before, after, rfl⟩ := List.append_of_mem hmem
  obtain ⟨-, hafter, hbefore⟩ := List.pairwise_append.mp hsorted
  have hfirst : Selection.First (fun _ => true) score before found after := by
    refine ⟨rfl, fun other hother _ => ?_, fun other hother _ => ?_⟩
    · have hless : other < found := hbefore other hother found List.mem_cons_self
      rcases h other (by simp [hother]) hless.ne with hscore | ⟨-, hgreater⟩
      · exact hscore
      · exact absurd hgreater hless.asymm
    · have hgreater : found < other := (List.pairwise_cons.mp hafter).1 other hother
      rcases h other (by simp [hother]) hgreater.ne' with hscore | ⟨heq, -⟩
      · exact hscore.le
      · exact heq.ge
  simpa [Selection.best, best_eq_argmax] using hfirst.best_eq

/-- Among the candidates behind the first `n` of a ranking, the scan finds the next one. -/
theorem best_filter_take {ranked : List ι} (hsorted : candidates.Pairwise (· < ·))
    (h : Ranked (Precedes score) candidates ranked) (n : Nat) :
    best score (candidates.filter fun candidate => candidate ∉ ranked.take n) = ranked[n]? := by
  have hnodup : ranked.Nodup := h.perm.nodup_iff.mpr (hsorted.imp ne_of_lt)
  have hleft : ∀ candidate, candidate ∈ candidates.filter (fun candidate => candidate ∉ ranked.take n) ↔
      candidate ∈ ranked.drop n := by
    intro candidate
    have hdisjoint := List.disjoint_take_drop hnodup (le_refl n)
    rw [List.mem_filter, ← h.perm.mem_iff, decide_eq_true_iff]
    constructor
    · rintro ⟨hmem, hnot⟩
      rw [← List.take_append_drop n ranked, List.mem_append] at hmem
      exact hmem.resolve_left hnot
    · intro hmem
      exact ⟨List.mem_of_mem_drop hmem, fun htake => hdisjoint htake hmem⟩
  cases hdrop : ranked.drop n with
  | nil =>
      have hnone : ranked[n]? = none := by
        rw [← List.head?_drop, hdrop, List.head?_nil]
      have hempty : candidates.filter (fun candidate => candidate ∉ ranked.take n) = [] := by
        refine List.eq_nil_iff_forall_not_mem.mpr fun candidate hmem => ?_
        rw [hleft, hdrop] at hmem
        cases hmem
      rw [hnone, hempty]
      rfl
  | cons next behind =>
      have hnext : ranked[n]? = some next := by
        rw [← List.head?_drop, hdrop, List.head?_cons]
      have hsuffix := h.sorted.sublist (List.drop_sublist n ranked)
      rw [hdrop] at hsuffix
      rw [hnext]
      refine best_eq_some (hsorted.filter _) ((hleft next).mpr (hdrop ▸ List.mem_cons_self)) ?_
      intro other hother hne
      rw [hleft, hdrop] at hother
      exact (List.pairwise_cons.mp hsuffix).1 other ((List.mem_cons.mp hother).resolve_left hne)

end Scores

/-! ## Prefixes -/

/-- How a prefix changes when one candidate is added: not at all, or the candidate comes in and
at most the last of the prefix goes. -/
theorem take_insert_cases (front : List α) (candidate : α) (back : List α) (k : Nat) :
    (k ≤ front.length ∧ (front ++ candidate :: back).take k = (front ++ back).take k) ∨
      ∃ kept gone, gone.length ≤ 1 ∧ (front ++ candidate :: back).take k = front ++ candidate :: kept ∧
        (front ++ back).take k = front ++ kept ++ gone := by
  by_cases hk : k ≤ front.length
  · refine Or.inl ⟨hk, ?_⟩
    rw [List.take_append_of_le_length hk, List.take_append_of_le_length hk]
  · obtain ⟨more, rfl⟩ : ∃ more, k = front.length + (more + 1) :=
      ⟨k - front.length - 1, by omega⟩
    refine Or.inr ⟨back.take more, (back.drop more).take 1, List.length_take_le _ _, ?_, ?_⟩
    · rw [List.take_length_add_append, List.take_succ_cons]
    · rw [List.take_length_add_append, List.take_add, List.append_assoc]

/-- A candidate is among the first `k` when fewer than `k` come before it. -/
theorem mem_take_iff_countP {r : α → α → Prop} [DecidableRel r] (hasymm : ∀ a b, r a b → ¬r b a)
    {xs ranked : List α} (h : Ranked r xs ranked) {a : α} (hmem : a ∈ xs) (k : Nat) :
    a ∈ ranked.take k ↔ xs.countP (fun b => r b a) < k := by
  obtain ⟨front, back, rfl⟩ := List.append_of_mem (h.perm.symm.subset hmem)
  have hself : ¬r a a := fun hloop => hasymm a a hloop hloop
  obtain ⟨-, hsorted, hcross⟩ := List.pairwise_append.mp h.sorted
  have hfront : ∀ b ∈ front, r b a := fun b hb => hcross b hb a List.mem_cons_self
  have hback : ∀ b ∈ back, ¬r b a := fun b hb => hasymm a b ((List.pairwise_cons.mp hsorted).1 b hb)
  have hcount : xs.countP (fun b => r b a) = front.length := by
    rw [← h.perm.countP_eq, List.countP_append, List.countP_cons_of_neg (by simpa using hself),
      List.countP_eq_length.mpr (by simpa using hfront), List.countP_eq_zero.mpr (by simpa using hback),
      Nat.add_zero]
  rw [hcount]
  constructor
  · intro htake
    by_contra hlt
    rw [List.take_append_of_le_length (not_lt.mp hlt)] at htake
    exact hself (hfront a (List.mem_of_mem_take htake))
  · intro hlt
    rw [List.take_append, List.mem_append]
    refine Or.inr ?_
    obtain ⟨more, hmore⟩ : ∃ more, k - front.length = more + 1 := ⟨k - front.length - 1, by omega⟩
    rw [hmore, List.take_succ_cons]
    exact List.mem_cons_self

/-- Two rankings begin with the same `k` candidates exactly when each candidate has fewer than
`k` before it in both or in neither. -/
theorem take_perm_take_iff {r s : α → α → Prop} [DecidableRel r] [DecidableRel s]
    (hr : ∀ a b, r a b → ¬r b a) (hs : ∀ a b, s a b → ¬s b a) {xs ys ranked other : List α}
    (hranked : Ranked r xs ranked) (hother : Ranked s ys other) (hperm : xs.Perm ys)
    (hnodup : xs.Nodup) (k : Nat) :
    (ranked.take k).Perm (other.take k) ↔
      ∀ a ∈ xs, xs.countP (fun b => r b a) < k ↔ xs.countP (fun b => s b a) < k := by
  have hsame : Ranked s xs other := ⟨hother.perm.trans hperm.symm, hother.sorted⟩
  have hfirst : (ranked.take k).Nodup := (hranked.perm.nodup_iff.mpr hnodup).take
  have hsecond : (other.take k).Nodup := (hsame.perm.nodup_iff.mpr hnodup).take
  rw [List.perm_ext_iff_of_nodup hfirst hsecond]
  constructor
  · intro h a hmem
    rw [← mem_take_iff_countP hr hranked hmem, ← mem_take_iff_countP hs hsame hmem]
    exact h a
  · intro h a
    by_cases hmem : a ∈ xs
    · rw [mem_take_iff_countP hr hranked hmem, mem_take_iff_countP hs hsame hmem]
      exact h a hmem
    · have hnot : ∀ {list : List α}, list.Perm xs → a ∉ list.take k := fun hlist htake =>
        hmem (hlist.subset (List.mem_of_mem_take htake))
      exact iff_of_false (hnot hranked.perm) (hnot hsame.perm)

end Ubiq.Foundation.Ranking
