import Mathlib.Tactic
import Mathlib.Data.List.Nodup

/-!
# Rows with a unique key

Tables and indexes of both runtimes are lists of rows in which a field is unique.
The module is about an arbitrary row type and an arbitrary key function: lookup,
replacement in place and appending, as seen through membership.
-/

namespace Ubiq.Foundation.Keyed

variable {ρ κ : Type*} {key : ρ → κ} {rows : List ρ} {row : ρ} {k : κ} {test : ρ → Bool}
  {index : Nat}

/-- The key determines the row. -/
theorem eq_of_key_eq (hnodup : (rows.map key).Nodup) {first second : ρ}
    (hfirst : first ∈ rows) (hsecond : second ∈ rows) (heq : key first = key second) :
    first = second :=
  List.inj_on_of_nodup_map hnodup hfirst hsecond heq

/-- A row with a new key can be appended. -/
theorem nodup_concat (hnodup : (rows.map key).Nodup) (hnew : ∀ other ∈ rows, key other ≠ key row) :
    ((rows ++ [row]).map key).Nodup := by
  rw [List.map_append, List.nodup_append]
  refine ⟨hnodup, List.nodup_singleton _, ?_⟩
  rintro k hk _ hrow rfl
  obtain ⟨other, hother, rfl⟩ := List.mem_map.mp hk
  exact hnew other hother (by simpa using hrow)

/-- Searching by key finds the one row that has it. -/
theorem find?_eq_some_iff [DecidableEq κ] (hnodup : (rows.map key).Nodup) :
    rows.find? (fun other => key other = k) = some row ↔ row ∈ rows ∧ key row = k := by
  constructor
  · intro hfind
    exact ⟨List.mem_of_find?_eq_some hfind, by simpa using List.find?_some hfind⟩
  · rintro ⟨hmem, rfl⟩
    cases hfind : rows.find? fun other => key other = key row with
    | none =>
        have hnone := List.find?_eq_none.mp hfind row hmem
        simp at hnone
    | some other =>
        have hsame : key other = key row := by simpa using List.find?_some hfind
        rw [eq_of_key_eq hnodup (List.mem_of_find?_eq_some hfind) hmem hsame]

theorem find?_eq_none_iff [DecidableEq κ] :
    rows.find? (fun other => key other = k) = none ↔ ∀ row ∈ rows, key row ≠ k := by
  simp

/-- A test on the row found by key is a test on every row with that key. -/
theorem any_find?_eq_false_iff [DecidableEq κ] (hnodup : (rows.map key).Nodup) :
    ((rows.find? fun other => key other = k).any test) = false ↔
      ∀ row ∈ rows, key row = k → test row = false := by
  constructor
  · intro hnone row hmem hkey
    rw [(find?_eq_some_iff hnodup).mpr ⟨hmem, hkey⟩] at hnone
    simpa using hnone
  · intro hall
    cases hfind : rows.find? fun other => key other = k with
    | none => rfl
    | some row =>
        obtain ⟨hmem, hkey⟩ := (find?_eq_some_iff hnodup).mp hfind
        simp [hall row hmem hkey]

/-- Indexing with the position of a search is the search. -/
theorem bind_findIdx?_getElem? (test : ρ → Bool) (rows : List ρ) :
    ((rows.findIdx? test).bind fun index => rows[index]?) = rows.find? test := by
  induction rows with
  | nil => rfl
  | cons row rest ih =>
      rw [List.findIdx?_cons, List.find?_cons]
      by_cases hrow : test row = true
      · simp [hrow]
      · rw [← ih]
        cases rest.findIdx? test with
        | none => simp [hrow]
        | some index => simp [hrow]

/-- A search divides the rows at the first one that passes. -/
theorem split_of_findIdx? (h : rows.findIdx? test = some index) :
    ∃ before found after, rows = before ++ found :: after ∧ index = before.length ∧
      test found = true ∧ ∀ other ∈ before, test other = false := by
  obtain ⟨hlt, htest, hbefore⟩ := List.findIdx?_eq_some_iff_getElem.mp h
  refine ⟨rows.take index, rows[index], rows.drop (index + 1), ?_,
    (List.length_take_of_le hlt.le).symm, htest, fun other hother => ?_⟩
  · rw [List.cons_getElem_drop_succ, List.take_append_drop]
  · obtain ⟨position, hposition, rfl⟩ := List.mem_take_iff_getElem.mp hother
    simpa using hbefore position (lt_min_iff.mp hposition).1

/-- A search by key divides the rows into those in front of the row found and those behind it. -/
theorem split_of_key [DecidableEq κ] (hnodup : (rows.map key).Nodup)
    (h : rows.findIdx? (fun other => key other = k) = some index) :
    ∃ before found after, rows = before ++ found :: after ∧ index = before.length ∧
      key found = k ∧ ∀ other ∈ before ++ after, key other ≠ k := by
  obtain ⟨before, found, after, rfl, rfl, hfound, -⟩ := split_of_findIdx? h
  obtain rfl : key found = k := of_decide_eq_true hfound
  rw [List.map_append, List.map_cons, List.nodup_middle, ← List.map_append, List.nodup_cons] at hnodup
  exact ⟨before, found, after, rfl, rfl, rfl, fun other hother heq =>
    hnodup.1 (List.mem_map.mpr ⟨other, hother, heq⟩)⟩

theorem set_length_append (before after : List ρ) (found row : ρ) :
    (before ++ found :: after).set before.length row = before ++ row :: after := by
  simp

/-- Replacing the row of a key in place keeps all other rows. -/
theorem mem_set_of_findIdx? [DecidableEq κ] (hnodup : (rows.map key).Nodup)
    (hindex : rows.findIdx? (fun other => key other = k) = some index) {other : ρ} :
    other ∈ rows.set index row ↔ other = row ∨ other ∈ rows ∧ key other ≠ k := by
  obtain ⟨before, found, after, rfl, rfl, hfound, hothers⟩ := split_of_key hnodup hindex
  rw [set_length_append, List.perm_middle.mem_iff, List.perm_middle.mem_iff, List.mem_cons,
    List.mem_cons]
  refine or_congr_right ⟨fun hmem => ⟨Or.inr hmem, hothers other hmem⟩, ?_⟩
  rintro ⟨rfl | hmem, hne⟩
  · exact absurd hfound hne
  · exact hmem

/-- A replacement that keeps the key keeps the list of keys. -/
theorem map_key_set_of_findIdx? [DecidableEq κ]
    (hindex : rows.findIdx? (fun other => key other = k) = some index) (hkey : key row = k) :
    (rows.set index row).map key = rows.map key := by
  obtain ⟨before, found, after, rfl, rfl, hfound, -⟩ := split_of_findIdx? hindex
  have hsame : key found = key row := (of_decide_eq_true hfound).trans hkey.symm
  rw [set_length_append, List.map_append, List.map_append, List.map_cons, List.map_cons, hsame]

/-- Replacing the row of a key in place keeps a second field unique when no row
of another key has the new value. -/
theorem nodup_map_set_of_findIdx? [DecidableEq κ] {ν : Type*} {field : ρ → ν}
    (hkeys : (rows.map key).Nodup) (hnodup : (rows.map field).Nodup)
    (hindex : rows.findIdx? (fun other => key other = k) = some index)
    (hfree : ∀ other ∈ rows, key other ≠ k → field other ≠ field row) :
    ((rows.set index row).map field).Nodup := by
  obtain ⟨before, found, after, rfl, rfl, -, hothers⟩ := split_of_key hkeys hindex
  rw [List.map_append, List.map_cons, List.nodup_middle, ← List.map_append, List.nodup_cons] at hnodup
  rw [set_length_append, List.map_append, List.map_cons, List.nodup_middle, ← List.map_append,
    List.nodup_cons]
  refine ⟨fun hmem => ?_, hnodup.2⟩
  -- another row with the new value would be a row of another key
  obtain ⟨other, hother, heq⟩ := List.mem_map.mp hmem
  exact hfree other (List.perm_middle.mem_iff.mpr (List.mem_cons_of_mem _ hother))
    (hothers other hother) heq

/-- A search for the key of a row finds the position of the row. -/
theorem findIdx?_of_getElem? [DecidableEq κ] (hnodup : (rows.map key).Nodup)
    (hrow : rows[index]? = some row) :
    rows.findIdx? (fun other => key other = key row) = some index := by
  obtain ⟨hlt, rfl⟩ := List.getElem?_eq_some_iff.mp hrow
  refine List.findIdx?_eq_some_iff_getElem.mpr ⟨hlt, decide_eq_true rfl, fun other hother => ?_⟩
  have hotherKey : other < (rows.map key).length := by
    rw [List.length_map]
    omega
  have hindexKey : index < (rows.map key).length := by
    rw [List.length_map]
    exact hlt
  have hne : (rows.map key)[other] ≠ (rows.map key)[index] :=
    fun heq => absurd (hnodup.getElem_inj_iff.mp heq) hother.ne
  simpa using hne

/-! ## All positions that pass a test -/

/-- Erasing the position of a key leaves the rows with other keys, in their order. -/
theorem eraseIdx_of_findIdx? [DecidableEq κ] (hnodup : (rows.map key).Nodup)
    (hindex : rows.findIdx? (fun row => key row = k) = some index) :
    rows.eraseIdx index = rows.filter fun row => key row ≠ k := by
  obtain ⟨before, found, after, rfl, rfl, hfound, hothers⟩ := split_of_key hnodup hindex
  have hkept : ∀ other ∈ before ++ after, decide (key other ≠ k) = true := fun other hother =>
    decide_eq_true (hothers other hother)
  rw [List.filter_append, List.filter_cons_of_neg (by simpa using hfound), ← List.filter_append,
    List.filter_eq_self.mpr hkept, List.eraseIdx_append_of_length_le le_rfl, Nat.sub_self,
    List.eraseIdx_cons_zero]

theorem findIdxs_congr {other : ρ → Bool} (h : ∀ row ∈ rows, test row = other row) (start : Nat) :
    rows.findIdxs test start = rows.findIdxs other start := by
  induction rows generalizing start with
  | nil => rfl
  | cons row rest ih =>
      obtain ⟨hrow, hrest⟩ := List.forall_mem_cons.mp h
      rw [List.findIdxs_cons, List.findIdxs_cons, hrow, ih hrest]

/-- The first of them is what `findIdx?` finds. -/
theorem head?_findIdxs (test : ρ → Bool) (rows : List ρ) (start : Nat) :
    (rows.findIdxs test start).head? = (rows.findIdx? test).map (· + start) := by
  induction rows generalizing start with
  | nil => rfl
  | cons row rest ih =>
      rw [List.findIdxs_cons, List.findIdx?_cons]
      by_cases hrow : test row = true
      · simp [hrow]
      · rw [if_neg hrow, if_neg hrow, ih, Option.map_map]
        congr 1
        funext index
        show index + (start + 1) = index + 1 + start
        omega

/-- Changing the first of them so that it fails the test leaves the others. -/
theorem findIdxs_modify {change : ρ → ρ} (hchange : ∀ row, test (change row) = false)
    (h : rows.findIdx? test = some index) (start : Nat) :
    (rows.modify index change).findIdxs test start = (rows.findIdxs test start).tail := by
  induction rows generalizing index start with
  | nil => cases h
  | cons row rest ih =>
      rw [List.findIdx?_cons] at h
      by_cases hrow : test row = true
      · rw [if_pos hrow] at h
        cases h
        simp [hrow, hchange]
      · rw [if_neg hrow] at h
        obtain ⟨position, hposition, rfl⟩ := Option.map_eq_some_iff.mp h
        simp [hrow, ih hposition]

end Ubiq.Foundation.Keyed
