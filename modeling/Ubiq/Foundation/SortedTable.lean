import Ubiq.Foundation.Keyed
import Mathlib.Data.List.Perm.Subperm

/-!
# Tables sorted by their key

A `SortedTable` is a finite map in the order of its keys, which is what a range
scan of an indexed table shows. The order is part of the structure. Updates are
characterised by `lookup`; scans by which keys they can have missed; counts by
what equal counts say about two tables, one of which has only keys of the other.
-/

namespace Ubiq.Foundation

/-- Rows in strictly increasing order of their keys. -/
structure SortedTable (κ ν : Type*) [LinearOrder κ] where
  rows : List (κ × ν)
  sorted : rows.Pairwise fun first second => first.1 < second.1

namespace SortedTable

variable {κ ν : Type*} [LinearOrder κ] {k : κ} {v : ν} {rows : List (κ × ν)}
  {table : SortedTable κ ν} {test : κ → Bool} {limit : Nat}

/-- The table without rows. -/
def empty : SortedTable κ ν := ⟨[], List.Pairwise.nil⟩

/-- The value of a key. -/
def lookup (table : SortedTable κ ν) (k : κ) : Option ν :=
  (table.rows.find? fun row => row.1 = k).map Prod.snd

/-- Put a row in its place; the row of the same key is replaced. -/
def putRow (k : κ) (v : ν) : List (κ × ν) → List (κ × ν)
  | [] => [(k, v)]
  | row :: rest =>
      -- the first row behind the key marks the place of a new row
      if k < row.1 then (k, v) :: row :: rest
      else if k = row.1 then (k, v) :: rest
      else row :: putRow k v rest

/-- The rows after a put. -/
theorem mem_putRow_iff (h : rows.Pairwise fun first second => first.1 < second.1) {row : κ × ν} :
    row ∈ putRow k v rows ↔ row = (k, v) ∨ row ∈ rows ∧ row.1 ≠ k := by
  induction rows with
  | nil => simp [putRow]
  | cons head rest ih =>
      obtain ⟨hhead, hrest⟩ := List.pairwise_cons.mp h
      unfold putRow
      split
      · next hlt =>
          -- every row lies behind the new key
          have hbehind : ∀ other ∈ head :: rest, other.1 ≠ k := List.forall_mem_cons.mpr
            ⟨hlt.ne', fun other hmem => (hlt.trans (hhead other hmem)).ne'⟩
          rw [List.mem_cons]
          exact or_congr_right ⟨fun hmem => ⟨hmem, hbehind row hmem⟩, fun hmem => hmem.1⟩
      split
      · next heq =>
          have hbehind : ∀ other ∈ rest, other.1 ≠ k := fun other hmem =>
            heq ▸ (hhead other hmem).ne'
          rw [List.mem_cons, List.mem_cons]
          refine or_congr_right ⟨fun hmem => ⟨Or.inr hmem, hbehind row hmem⟩, ?_⟩
          rintro ⟨rfl | hmem, hne⟩
          · exact absurd heq.symm hne
          · exact hmem
      · next hnot hne =>
          rw [List.mem_cons, ih hrest, List.mem_cons]
          constructor
          · rintro (rfl | rfl | ⟨hmem, hkey⟩)
            · exact Or.inr ⟨Or.inl rfl, Ne.symm hne⟩
            · exact Or.inl rfl
            · exact Or.inr ⟨Or.inr hmem, hkey⟩
          · rintro (rfl | ⟨rfl | hmem, hkey⟩)
            · exact Or.inr (Or.inl rfl)
            · exact Or.inl rfl
            · exact Or.inr (Or.inr ⟨hmem, hkey⟩)

theorem sorted_putRow (k : κ) (v : ν) (h : rows.Pairwise fun first second => first.1 < second.1) :
    (putRow k v rows).Pairwise fun first second => first.1 < second.1 := by
  induction rows with
  | nil => simp [putRow]
  | cons head rest ih =>
      obtain ⟨hhead, hrest⟩ := List.pairwise_cons.mp h
      unfold putRow
      split
      · next hlt =>
          exact List.pairwise_cons.mpr ⟨List.forall_mem_cons.mpr
            ⟨hlt, fun row hmem => hlt.trans (hhead row hmem)⟩, h⟩
      split
      · next heq => exact List.pairwise_cons.mpr ⟨heq ▸ hhead, hrest⟩
      · next hnot hne =>
          refine List.pairwise_cons.mpr ⟨?_, ih hrest⟩
          intro row hrow
          rcases (mem_putRow_iff hrest).mp hrow with rfl | ⟨hmem, -⟩
          · exact lt_of_le_of_ne (not_lt.mp hnot) (Ne.symm hne)
          · exact hhead row hmem

/-- Insert a row or replace the row of its key. -/
def put (table : SortedTable κ ν) (k : κ) (v : ν) : SortedTable κ ν :=
  ⟨putRow k v table.rows, sorted_putRow k v table.sorted⟩

/-- Insert a row unless its key is present. -/
def insertNew (table : SortedTable κ ν) (k : κ) (v : ν) : SortedTable κ ν :=
  if (table.lookup k).isSome then table else table.put k v

/-- The rows whose keys pass a test. -/
def restrict (table : SortedTable κ ν) (test : κ → Bool) : SortedTable κ ν :=
  ⟨table.rows.filter fun row => test row.1, table.sorted.filter _⟩

/-- The number of rows whose keys pass a test. -/
def count (table : SortedTable κ ν) (test : κ → Bool) : Nat :=
  (table.rows.filter fun row => test row.1).length

/-- The first rows whose keys pass a test. -/
def scan (table : SortedTable κ ν) (test : κ → Bool) (limit : Nat) : List (κ × ν) :=
  (table.rows.filter fun row => test row.1).take limit

theorem sorted_mapValues {μ : Type*} (table : SortedTable κ ν) (change : ν → μ) :
    (table.rows.map fun row => (row.1, change row.2)).Pairwise fun first second =>
      first.1 < second.1 :=
  List.pairwise_map.mpr table.sorted

/-- Another value for every key. -/
def mapValues {μ : Type*} (table : SortedTable κ ν) (change : ν → μ) : SortedTable κ μ :=
  ⟨table.rows.map fun row => (row.1, change row.2), sorted_mapValues table change⟩

/-! ## Lookups -/

theorem nodup_keys (table : SortedTable κ ν) : (table.rows.map Prod.fst).Nodup :=
  List.pairwise_map.mpr (table.sorted.imp fun hlt => hlt.ne)

theorem mem_rows_iff :
    (k, v) ∈ table.rows ↔ table.lookup k = some v := by
  unfold lookup
  rw [Option.map_eq_some_iff]
  constructor
  · intro hmem
    exact ⟨(k, v), (Keyed.find?_eq_some_iff table.nodup_keys).mpr ⟨hmem, rfl⟩, rfl⟩
  · rintro ⟨row, hfind, rfl⟩
    obtain ⟨hmem, rfl⟩ := (Keyed.find?_eq_some_iff table.nodup_keys).mp hfind
    exact hmem

theorem lookup_mapValues_eq_some_iff {μ : Type*} {change : ν → μ} {result : μ} :
    (table.mapValues change).lookup k = some result ↔
      ∃ v, table.lookup k = some v ∧ change v = result := by
  simp only [← mem_rows_iff, mapValues, List.mem_map, Prod.mk.injEq]
  constructor
  · rintro ⟨row, hrow, rfl, rfl⟩
    exact ⟨row.2, hrow, rfl⟩
  · rintro ⟨v, hrow, rfl⟩
    exact ⟨(k, v), hrow, rfl, rfl⟩

@[simp] theorem lookup_empty (k : κ) : (empty : SortedTable κ ν).lookup k = none := rfl

theorem lookup_put (table : SortedTable κ ν) (k : κ) (v : ν) (other : κ) :
    (table.put k v).lookup other = if other = k then some v else table.lookup other := by
  refine Option.ext fun value => ?_
  rw [← mem_rows_iff]
  show (other, value) ∈ putRow k v table.rows ↔ _
  rw [mem_putRow_iff table.sorted, mem_rows_iff]
  by_cases hkey : other = k
  · simp [hkey, eq_comm]
  · simp [hkey]

theorem lookup_insertNew (table : SortedTable κ ν) (k : κ) (v : ν) (other : κ) :
    (table.insertNew k v).lookup other =
      if other = k ∧ table.lookup k = none then some v else table.lookup other := by
  unfold insertNew
  cases hold : table.lookup k with
  | some old => simp
  | none =>
      simp only [Option.isSome_none, Bool.false_eq_true, if_false, and_true]
      exact lookup_put table k v other

theorem lookup_restrict (table : SortedTable κ ν) (test : κ → Bool) (k : κ) :
    (table.restrict test).lookup k = if test k then table.lookup k else none := by
  refine Option.ext fun value => ?_
  rw [← mem_rows_iff]
  show (k, value) ∈ table.rows.filter (fun row => test row.1) ↔ _
  rw [List.mem_filter, mem_rows_iff]
  by_cases htest : test k = true
  · simp [htest]
  · simp [htest]

/-! ## Tables from lists -/

/-- The table of a list of rows; of the rows with one key the last counts. -/
def ofRows (rows : List (κ × ν)) : SortedTable κ ν :=
  rows.foldl (fun table row => table.put row.1 row.2) empty

theorem putRow_of_behind (v : ν) (h : ∀ row ∈ rows, row.1 < k) :
    putRow k v rows = rows ++ [(k, v)] := by
  induction rows with
  | nil => rfl
  | cons head rest ih =>
      obtain ⟨hhead, hrest⟩ := List.forall_mem_cons.mp h
      rw [putRow, if_neg hhead.not_gt, if_neg hhead.ne', ih hrest, List.cons_append]

theorem rows_foldl_put (h : (table.rows ++ rows).Pairwise fun first second => first.1 < second.1) :
    (rows.foldl (fun table row => table.put row.1 row.2) table).rows = table.rows ++ rows := by
  induction rows generalizing table with
  | nil => simp
  | cons row rest ih =>
      -- the next row lies behind the rows that were put
      have hbehind : ∀ other ∈ table.rows, other.1 < row.1 := fun other hother =>
        (List.pairwise_append.mp h).2.2 other hother row List.mem_cons_self
      have hput : (table.put row.1 row.2).rows = table.rows ++ [row] :=
        putRow_of_behind row.2 hbehind
      have hnext : ((table.put row.1 row.2).rows ++ rest).Pairwise
          fun first second => first.1 < second.1 := by
        rw [hput, List.append_assoc]
        exact h
      rw [List.foldl_cons, ih hnext, hput, List.append_assoc]
      rfl

theorem ofRows_rows (table : SortedTable κ ν) : ofRows table.rows = table := by
  obtain ⟨rows, hsorted⟩ := table
  have hrows : (ofRows rows).rows = rows := rows_foldl_put hsorted
  generalize ofRows rows = result at hrows
  obtain ⟨resultRows, hresult⟩ := result
  subst hrows
  rfl

/-! ## Counts -/

/-- The keys that pass a test, in order. -/
def keys (table : SortedTable κ ν) (test : κ → Bool) : List κ :=
  (table.rows.filter fun row => test row.1).map Prod.fst

theorem length_keys (table : SortedTable κ ν) (test : κ → Bool) :
    (table.keys test).length = table.count test := by
  simp [keys, count]

theorem nodup_keys_filter (table : SortedTable κ ν) (test : κ → Bool) :
    (table.keys test).Nodup :=
  table.nodup_keys.sublist (List.filter_sublist.map Prod.fst)

theorem mem_keys :
    k ∈ table.keys test ↔ test k = true ∧ table.lookup k ≠ none := by
  unfold keys
  rw [List.mem_map, Option.ne_none_iff_exists']
  constructor
  · rintro ⟨⟨other, value⟩, hmem, rfl⟩
    obtain ⟨hrow, htest⟩ := List.mem_filter.mp hmem
    exact ⟨htest, value, mem_rows_iff.mp hrow⟩
  · rintro ⟨htest, value, hlookup⟩
    exact ⟨(k, value), List.mem_filter.mpr ⟨mem_rows_iff.mpr hlookup, htest⟩, rfl⟩

/-- Tables with the same keys have equal counts. -/
theorem count_congr {first second : SortedTable κ ν}
    (h : ∀ k, test k = true → (first.lookup k ≠ none ↔ second.lookup k ≠ none)) :
    first.count test = second.count test := by
  have hperm : (first.keys test).Perm (second.keys test) := by
    refine (List.perm_ext_iff_of_nodup (first.nodup_keys_filter test)
      (second.nodup_keys_filter test)).mpr fun k => ?_
    rw [mem_keys, mem_keys]
    exact and_congr_right (h k)
  rw [← length_keys, ← length_keys, hperm.length_eq]

/-- **Equal counts.** A table that has only keys of another, and as many, has all
of them. -/
theorem lookup_ne_none_of_count_eq {small large : SortedTable κ ν}
    (hsub : ∀ k, test k = true → small.lookup k ≠ none → large.lookup k ≠ none)
    (hcount : large.count test = small.count test) (htest : test k = true)
    (hlarge : large.lookup k ≠ none) : small.lookup k ≠ none := by
  have hsubset : small.keys test ⊆ large.keys test := by
    intro key hkey
    obtain ⟨hpass, hlookup⟩ := mem_keys.mp hkey
    exact mem_keys.mpr ⟨hpass, hsub key hpass hlookup⟩
  -- distinct keys, contained and as many: the two lists are permutations
  have hsubperm := List.subperm_of_subset (small.nodup_keys_filter test) hsubset
  have hperm := hsubperm.perm_of_length_le (by rw [length_keys, length_keys, hcount])
  exact (mem_keys.mp (hperm.mem_iff.mpr (mem_keys.mpr ⟨htest, hlarge⟩))).2

/-! ## Scans -/

theorem mem_scan (h : (k, v) ∈ table.scan test limit) :
    test k = true ∧ table.lookup k = some v := by
  obtain ⟨hrow, htest⟩ := List.mem_filter.mp (List.mem_of_mem_take h)
  exact ⟨htest, mem_rows_iff.mp hrow⟩

/-- A scan below its limit has seen every row. -/
theorem mem_scan_of_short (hshort : (table.scan test limit).length < limit) (htest : test k = true)
    (hlookup : table.lookup k = some v) : (k, v) ∈ table.scan test limit := by
  unfold scan at hshort ⊢
  rw [List.length_take] at hshort
  rw [List.take_of_length_le (by omega)]
  exact List.mem_filter.mpr ⟨mem_rows_iff.mpr hlookup, htest⟩

/-- A scan has seen every row up to its last key. -/
theorem mem_scan_of_le_last {last : κ × ν} (hlast : last ∈ table.scan test limit) (hle : k ≤ last.1)
    (htest : test k = true) (hlookup : table.lookup k = some v) :
    (k, v) ∈ table.scan test limit := by
  have hmem : (k, v) ∈ table.rows.filter fun row => test row.1 :=
    List.mem_filter.mpr ⟨mem_rows_iff.mpr hlookup, htest⟩
  have hsorted := table.sorted.filter fun row => test row.1
  unfold scan at hlast ⊢
  rw [← List.take_append_drop limit (table.rows.filter fun row => test row.1)] at hmem hsorted
  rcases List.mem_append.mp hmem with htake | hdrop
  · exact htake
  · -- a row beyond the scan has a larger key than every row of it
    have hlt := (List.pairwise_append.mp hsorted).2.2 last hlast (k, v) hdrop
    exact absurd hle (not_le.mpr hlt)

end SortedTable
end Ubiq.Foundation
