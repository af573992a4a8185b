import Mathlib.Tactic

/-!
# Fixed arrays with a length

An array of `capacity` cells of which the first `len` are in use is the list of the cells in use,
at most `capacity` many.

* `push` fills one more cell, `put` changes one.
* `countP_put` and `sum_put` say what a change does to a count and to a sum over the cells.
* `compact` drops cells in place, and `least` looks for a cell with the least weight.
-/

namespace Ubiq.Foundation

/-- The cells in use of an array of `capacity` cells. -/
structure Slots (α : Type*) (capacity : Nat) where
  entries : List α
  bounded : entries.length ≤ capacity

namespace Slots

variable {α : Type*} {capacity index : Nat} {slots : Slots α capacity} {entries : List α} {cell : α}

/-- No cell is in use. -/
def empty (α : Type*) (capacity : Nat) : Slots α capacity where
  entries := []
  bounded := Nat.zero_le capacity

theorem length_concat_le (cell : α) (h : entries.length < capacity) :
    (entries ++ [cell]).length ≤ capacity := by
  rw [List.length_append, List.length_singleton]
  exact h

theorem length_set_le (h : entries.length ≤ capacity) (index : Nat) (cell : α) :
    (entries.set index cell).length ≤ capacity := by
  rw [List.length_set]
  exact h

theorem length_modify_le (h : entries.length ≤ capacity) (index : Nat) (change : α → α) :
    (entries.modify index change).length ≤ capacity := by
  rw [List.length_modify]
  exact h

/-- One more cell. -/
def push (slots : Slots α capacity) (cell : α) (h : slots.entries.length < capacity) :
    Slots α capacity where
  entries := slots.entries ++ [cell]
  bounded := length_concat_le cell h

/-- Another content of the cell at an index. -/
def put (slots : Slots α capacity) (index : Nat) (cell : α) : Slots α capacity where
  entries := slots.entries.set index cell
  bounded := length_set_le slots.bounded index cell

theorem entries_put (index : Nat) (cell : α) :
    (slots.put index cell).entries = slots.entries.set index cell := rfl

theorem getElem?_put_self (h : slots.entries[index]? = some cell) (next : α) :
    (slots.put index next).entries[index]? = some next :=
  List.getElem?_set_self (List.getElem?_eq_some_iff.mp h).1

theorem getElem?_put_of_ne {other : Nat} (h : index ≠ other) (next : α) :
    (slots.put index next).entries[other]? = slots.entries[other]? :=
  List.getElem?_set_ne h

theorem getElem?_push (h : slots.entries[index]? = some cell) (next : α)
    (hfree : slots.entries.length < capacity) :
    (slots.push next hfree).entries[index]? = some cell :=
  (List.getElem?_append_left (List.getElem?_eq_some_iff.mp h).1).trans h

theorem mem_put {next : α} (h : cell ∈ (slots.put index next).entries) :
    cell = next ∨ cell ∈ slots.entries :=
  (List.mem_or_eq_of_mem_set h).symm

/-- What changing a cell does to a sum over the cells. -/
theorem sum_put (h : slots.entries[index]? = some cell) (next : α) (weight : α → Nat) :
    ((slots.put index next).entries.map weight).sum + weight cell =
      (slots.entries.map weight).sum + weight next := by
  rw [entries_put]
  generalize slots.entries = entries at h
  induction entries generalizing index with
  | nil => cases h
  | cons first rest ih =>
      cases index with
      | zero =>
          obtain rfl : first = cell := Option.some.inj h
          rw [List.set_cons_zero, List.map_cons, List.map_cons, List.sum_cons, List.sum_cons]
          omega
      | succ index =>
          have hrest := ih h
          rw [List.set_cons_succ, List.map_cons, List.map_cons, List.sum_cons, List.sum_cons]
          omega

theorem countP_eq_sum (entries : List α) (property : α → Bool) :
    entries.countP property = (entries.map fun cell => if property cell then 1 else 0).sum := by
  induction entries with
  | nil => rfl
  | cons first rest ih => rw [List.countP_cons, ih, List.map_cons, List.sum_cons, add_comm]

/-- What changing a cell does to the number of cells with a property. -/
theorem countP_put (h : slots.entries[index]? = some cell) (next : α) (property : α → Bool) :
    (slots.put index next).entries.countP property + (if property cell then 1 else 0) =
      slots.entries.countP property + if property next then 1 else 0 := by
  rw [countP_eq_sum, countP_eq_sum]
  exact sum_put h next fun cell => if property cell then 1 else 0

/-! ## Compaction in place -/

/-- The loop that moves the cells to be kept to the front: `rounds` cells are still to be read from
index `read` on, and `write` cells are kept so far. -/
def compactLoop (keep : α → Bool) : (rounds read write : Nat) → List α → List α × Nat
  | 0, _, write, cells => (cells, write)
  | rounds + 1, read, write, cells =>
      match cells[read]? with
      | none => (cells, write)
      | some cell =>
          if keep cell then compactLoop keep rounds (read + 1) (write + 1) (cells.set write cell)
          else compactLoop keep rounds (read + 1) write cells

/-- Invariant of the loop: kept cells, cells that are no longer needed, cells to be read. -/
theorem take_compactLoop (keep : α → Bool) (kept gap rest : List α) :
    let result := compactLoop keep rest.length (kept ++ gap).length kept.length (kept ++ gap ++ rest)
    result.1.take result.2 = kept ++ rest.filter keep := by
  induction rest generalizing kept gap with
  | nil => simp [compactLoop]
  | cons cell rest ih =>
      have hread : (kept ++ gap ++ cell :: rest)[(kept ++ gap).length]? = some cell := by simp
      simp only [List.length_cons, compactLoop, hread]
      by_cases hkeep : keep cell = true
      · rw [if_pos hkeep, List.filter_cons_of_pos hkeep]
        cases gap with
        | nil => simpa using ih (kept ++ [cell]) []
        | cons first gap =>
            have hset : (kept ++ first :: gap ++ cell :: rest).set kept.length cell =
                (kept ++ [cell]) ++ (gap ++ [cell]) ++ rest := by simp
            have hnext := ih (kept ++ [cell]) (gap ++ [cell])
            rw [hset]
            simpa [Nat.add_assoc, Nat.add_comm, Nat.add_left_comm] using hnext
      · rw [if_neg hkeep, List.filter_cons_of_neg hkeep]
        simpa [Nat.add_assoc] using ih kept (gap ++ [cell])

/-- Keep the cells with a property. -/
def compact (slots : Slots α capacity) (keep : α → Bool) : Slots α capacity where
  entries :=
    let result := compactLoop keep slots.entries.length 0 0 slots.entries
    result.1.take result.2
  bounded := by
    have hkept := take_compactLoop keep [] [] slots.entries
    simp only [List.nil_append, List.length_nil] at hkept
    rw [hkept]
    exact (List.length_filter_le keep slots.entries).trans slots.bounded

/-- **Compaction keeps the cells in order.** -/
theorem entries_compact (keep : α → Bool) : (slots.compact keep).entries = slots.entries.filter keep :=
  take_compactLoop keep [] [] slots.entries

/-! ## The least cell -/

variable {τ : Type*} [LinearOrder τ]

/-- The loop that looks for a cell with the least weight: `rest` is still to be compared, from
`index` on, with the least cell so far. -/
def leastLoop (weight : α → τ) (cells : List α) : List α → (index least : Nat) → Nat
  | [], _, least => least
  | cell :: rest, index, least =>
      leastLoop weight cells rest (index + 1)
        (if (cells[least]?).any fun current => weight cell < weight current then index else least)

/-- The index of a cell with the least weight. -/
def least (weight : α → τ) (slots : Slots α capacity) : Nat :=
  leastLoop weight slots.entries (slots.entries.drop 1) 1 0

theorem getElem?_leastLoop {weight : α → τ} {cells seen rest : List α}
    (hcells : cells = seen ++ rest) (hcell : cells[index]? = some cell)
    (hseen : ∀ other ∈ seen, weight cell ≤ weight other) :
    ∃ found, cells[leastLoop weight cells rest seen.length index]? = some found ∧
      ∀ other ∈ cells, weight found ≤ weight other := by
  induction rest generalizing seen index cell with
  | nil =>
      rw [List.append_nil] at hcells
      exact ⟨cell, hcell, hcells ▸ hseen⟩
  | cons next rest ih =>
      have hsplit : cells = (seen ++ [next]) ++ rest := by rw [hcells, List.append_cons]
      have hlength : seen.length + 1 = (seen ++ [next]).length := by simp
      simp only [leastLoop, hcell, Option.any_some, decide_eq_true_eq, hlength]
      split
      · next hless =>
          have hnext : cells[seen.length]? = some next := by rw [hcells]; simp
          exact ih hsplit hnext (List.forall_mem_append.mpr
            ⟨fun other hold => hless.le.trans (hseen other hold), List.forall_mem_singleton.mpr le_rfl⟩)
      · next hmore =>
          exact ih hsplit hcell (List.forall_mem_append.mpr
            ⟨hseen, List.forall_mem_singleton.mpr (not_lt.mp hmore)⟩)

/-- **The loop finds a least cell.** -/
theorem getElem?_least {weight : α → τ} (hne : slots.entries ≠ []) :
    ∃ cell, slots.entries[slots.least weight]? = some cell ∧
      ∀ other ∈ slots.entries, weight cell ≤ weight other := by
  obtain ⟨first, rest, hentries⟩ := List.exists_cons_of_ne_nil hne
  have hfirst : slots.entries[0]? = some first := by rw [hentries]; rfl
  have hsplit : slots.entries = [first] ++ slots.entries.drop 1 := by rw [hentries]; rfl
  exact getElem?_leastLoop hsplit hfirst (by simp)

end Slots
end Ubiq.Foundation
