import Ubiq.Foundation.Keyed

/-!
# Tables with a primary key

The statements of a relational store over a list of rows: `lookup` by primary
key, `update` of the rows that pass a test, with the number of affected rows, and
insertion of a new row. Updates that keep the key commute with lookups, so a
guarded update is understood one row at a time. A table in an array changes the row
at a position that a search has found (`lookup_modify`), or removes it by moving the
later rows down by one (`shiftDown`).
-/

namespace Ubiq.Foundation.Table

variable {ρ κ : Type*} {key : ρ → κ} {rows : List ρ} {test : ρ → Bool} {change : ρ → ρ}

/-- `UPDATE ... SET change WHERE test`. -/
def update (test : ρ → Bool) (change : ρ → ρ) (rows : List ρ) : List ρ :=
  rows.map fun row => if test row then change row else row

/-- The number of rows that an update affects. -/
def affected (test : ρ → Bool) (rows : List ρ) : Nat :=
  rows.countP test

/-- The row with a given key. -/
def lookup [DecidableEq κ] (key : ρ → κ) (k : κ) (rows : List ρ) : Option ρ :=
  rows.find? fun row => key row = k

/-- The loop `while (i + 1 < len) : (i += 1) rows[i] = rows[i + 1]`, with a bound on the number of
its rounds. -/
def shiftDown : Nat → List ρ → Nat → List ρ
  | 0, rows, _ => rows
  | rounds + 1, rows, i =>
      match rows[i + 1]? with
      | some later => shiftDown rounds (rows.set i later) (i + 1)
      | none => rows

theorem length_shiftDown (rounds : Nat) (rows : List ρ) (index : Nat) :
    (shiftDown rounds rows index).length = rows.length := by
  induction rounds generalizing rows index with
  | zero => rfl
  | succ rounds ih =>
      unfold shiftDown
      split
      · rw [ih, List.length_set]
      · rfl

/-- Without its last place, a shifted table has lost the row at which the shift began. -/
theorem dropLast_shiftDown (before : List ρ) (row : ρ) (behind : List ρ) {rounds : Nat}
    (hrounds : behind.length ≤ rounds) :
    (shiftDown rounds (before ++ row :: behind) before.length).dropLast = before ++ behind := by
  induction behind generalizing before row rounds with
  | nil =>
      cases rounds <;> simp [shiftDown]
  | cons later behind ih =>
      cases rounds with
      | zero => simp at hrounds
      | succ rounds =>
          have hnext : (before ++ row :: later :: behind)[before.length + 1]? = some later := by
            simp
          have hset : (before ++ row :: later :: behind).set before.length later =
              (before ++ [later]) ++ later :: behind := by simp
          have hrest := ih (before ++ [later]) later (Nat.le_of_succ_le_succ hrounds)
          rw [List.length_append, List.length_singleton] at hrest
          simp only [shiftDown, hnext, hset]
          rw [hrest, List.append_assoc, List.singleton_append]

theorem dropLast_shiftDown_eq_eraseIdx {index : Nat} (h : index < rows.length) :
    (shiftDown rows.length rows index).dropLast = rows.eraseIdx index := by
  have hsplit : rows = rows.take index ++ rows[index] :: rows.drop (index + 1) := by
    rw [List.cons_getElem_drop_succ, List.take_append_drop]
  have hshift := dropLast_shiftDown (rows.take index) rows[index] (rows.drop (index + 1))
    (show _ ≤ rows.length by rw [List.length_drop]; omega)
  rw [← hsplit, List.length_take_of_le h.le] at hshift
  rw [hshift, List.eraseIdx_eq_take_drop_succ]

theorem map_key_update (hkey : ∀ row, key (change row) = key row) :
    (update test change rows).map key = rows.map key := by
  unfold update
  rw [List.map_map]
  refine List.map_congr_left fun row _ => ?_
  show key (if test row then change row else row) = key row
  split
  · exact hkey row
  · rfl

/-- An update whose rows a filter drops removes the rows that pass its test. -/
theorem filter_update {keep : ρ → Bool} (hdropped : ∀ row, keep (change row) = false) :
    (update test change rows).filter keep = (rows.filter keep).filter fun row => !test row := by
  induction rows with
  | nil => rfl
  | cons row rest ih =>
      unfold update at ih ⊢
      rw [List.map_cons]
      cases htest : test row <;> cases hkeep : keep row <;> simp [htest, hkeep, hdropped, ih]

theorem map_key_modify (hkey : ∀ row, key (change row) = key row) (index : Nat) :
    (rows.modify index change).map key = rows.map key := by
  apply List.ext_getElem?
  intro position
  rw [List.getElem?_map, List.getElem?_map, List.getElem?_modify, Option.map_eq_map,
    Option.map_map]
  congr 1
  funext row
  show key (if index = position then change row else row) = key row
  split
  · exact hkey row
  · rfl

variable [DecidableEq κ] {k : κ} {row : ρ}

theorem lookup_eq_some_iff (hnodup : (rows.map key).Nodup) :
    lookup key k rows = some row ↔ row ∈ rows ∧ key row = k :=
  Keyed.find?_eq_some_iff hnodup

theorem lookup_eq_none_iff : lookup key k rows = none ↔ ∀ row ∈ rows, key row ≠ k :=
  Keyed.find?_eq_none_iff

theorem mem_of_lookup (h : lookup key k rows = some row) :
    row ∈ rows ∧ key row = k :=
  ⟨List.mem_of_find?_eq_some h, by simpa using List.find?_some h⟩

/-- Lookups see an update one row at a time. -/
theorem lookup_update (hkey : ∀ row, key (change row) = key row) (k : κ) :
    lookup key k (update test change rows) =
      (lookup key k rows).map fun row => if test row then change row else row := by
  have hsame : ((fun row => decide (key row = k)) ∘ fun row => if test row then change row else row) =
      fun row => decide (key row = k) := by
    funext row
    show decide (key (if test row then change row else row) = k) = decide (key row = k)
    split
    · rw [hkey]
    · rfl
  unfold lookup update
  rw [List.find?_map, hsame]

/-- An update whose test names another key does not touch the row of this one. -/
theorem lookup_update_of_ne (hkey : ∀ row, key (change row) = key row) {other : κ}
    (htest : ∀ row, test row = true → key row = other) (hne : other ≠ k) :
    lookup key k (update test change rows) = lookup key k rows := by
  rw [lookup_update hkey]
  cases hrow : lookup key k rows with
  | none => rfl
  | some row =>
      have hfail : ¬test row = true := fun hpass =>
        hne ((htest row hpass).symm.trans (mem_of_lookup hrow).2)
      simp [hfail]

/-- Lookups see a change of the row that a search has found. -/
theorem lookup_modify (hkey : ∀ row, key (change row) = key row) {found : κ} {index : Nat}
    (hindex : rows.findIdx? (fun row => key row = found) = some index) (k : κ) :
    lookup key k (rows.modify index change) =
      if k = found then (lookup key k rows).map change else lookup key k rows := by
  obtain ⟨before, head, after, rfl, rfl, hhead, hbefore⟩ := Keyed.split_of_findIdx? hindex
  obtain rfl : key head = found := of_decide_eq_true hhead
  have hmodify : (before ++ head :: after).modify before.length change =
      before ++ change head :: after := by simp [List.modify_eq_take_drop]
  unfold lookup
  rw [hmodify, List.find?_append, List.find?_append, List.find?_cons, List.find?_cons, hkey]
  by_cases hk : k = key head
  · -- the search does not stop in front of the row
    subst hk
    have hnone : before.find? (fun row => key row = key head) = none :=
      Keyed.find?_eq_none_iff.mpr fun row hrow => of_decide_eq_false (hbefore row hrow)
    simp [hnone]
  · simp [hk, Ne.symm hk]

/-- An update that affects no row changes nothing. -/
theorem update_of_affected_zero (h : affected test rows = 0) :
    update test change rows = rows := by
  unfold affected at h
  rw [List.countP_eq_zero] at h
  unfold update
  conv_rhs => rw [← List.map_id rows]
  refine List.map_congr_left fun row hrow => ?_
  rw [if_neg (h row hrow)]
  rfl

/-- A test that names a key affects at most the row with that key. -/
theorem affected_by_key (hnodup : (rows.map key).Nodup)
    (htest : ∀ row, test row = true → key row = k) :
    affected test rows = if (lookup key k rows).any test then 1 else 0 := by
  induction rows with
  | nil => rfl
  | cons row rest ih =>
      rw [List.map_cons, List.nodup_cons] at hnodup
      have hrest := ih hnodup.2
      unfold affected lookup at hrest ⊢
      rw [List.countP_cons, List.find?_cons]
      by_cases hrow : key row = k
      · -- no later row has the key, hence none passes the test
        have hlater : rest.countP test = 0 := by
          rw [List.countP_eq_zero]
          intro later hmem hpass
          exact hnodup.1 (List.mem_map.mpr ⟨later, hmem, (htest later hpass).trans hrow.symm⟩)
        simp [hrow, hlater]
      · have hfail : test row = false := by
          by_contra hpass
          exact hrow (htest row (by simpa using hpass))
        simp only [hrow, decide_false, hfail, Bool.false_eq_true, if_false, Nat.add_zero]
        exact hrest

/-- A new row at the end of the table. -/
theorem lookup_concat (hnew : ∀ other ∈ rows, key other ≠ key row) (k : κ) :
    lookup key k (rows ++ [row]) = if key row = k then some row else lookup key k rows := by
  unfold lookup
  rw [List.find?_append]
  by_cases hrow : key row = k
  · -- the old rows come first in the search, and none of them has the key
    have hnone : rows.find? (fun other => key other = k) = none :=
      Keyed.find?_eq_none_iff.mpr (hrow ▸ hnew)
    simp [hrow, hnone]
  · simp [hrow]

end Ubiq.Foundation.Table
