import Ubiq.Foundation.Slots

/-!
# Entries that expire

Entries of an arbitrary type with an expiry in a linear order of times. An entry is live before its
expiry. A table may hold the entries of a history in any order, forget those that have expired and
still hold others that have: what matters is that table and history have the same live entries
from now on.

`SameLive` is this relation; it is kept by time passing (`mono`), by appending an entry to both
(`concat`), by writing the new entry over an expired one (`set`) and by dropping what has expired
(`filter`).
-/

namespace Ubiq.Foundation.Expiry

variable {α τ : Type*} [LinearOrder τ] {expiry : α → τ} {now : τ} {table history : List α}

/-- The entries that have not expired. -/
def live (expiry : α → τ) (now : τ) (entries : List α) : List α :=
  entries.filter fun entry => now < expiry entry

theorem mem_live {now : τ} {entries : List α} {entry : α} :
    entry ∈ live expiry now entries ↔ entry ∈ entries ∧ now < expiry entry := by
  simp [live]

theorem live_append (now : τ) (first second : List α) :
    live expiry now (first ++ second) = live expiry now first ++ live expiry now second :=
  List.filter_append ..

theorem live_singleton_of_le {now : τ} {entry : α} (h : expiry entry ≤ now) :
    live expiry now [entry] = [] := by
  simp [live, not_lt.mpr h]

/-- What is live later was live before. -/
theorem live_live {now later : τ} (h : now ≤ later) (entries : List α) :
    live expiry later (live expiry now entries) = live expiry later entries := by
  unfold live
  rw [List.filter_filter]
  refine List.filter_congr fun entry _ => ?_
  by_cases hlater : later < expiry entry
  · simp [hlater, h.trans_lt hlater]
  · simp [hlater]

/-- From now on the table and the history have the same live entries. -/
def SameLive (expiry : α → τ) (now : τ) (table history : List α) : Prop :=
  ∀ later, now ≤ later → (live expiry later table).Perm (live expiry later history)

theorem sameLive_nil (expiry : α → τ) (now : τ) : SameLive expiry now [] [] :=
  fun _ _ => List.Perm.refl _

namespace SameLive

theorem mono (h : SameLive expiry now table history) {later : τ} (hle : now ≤ later) :
    SameLive expiry later table history :=
  fun time htime => h time (hle.trans htime)

theorem perm (h : SameLive expiry now table history) :
    (live expiry now table).Perm (live expiry now history) :=
  h now le_rfl

/-- A live entry of the history is in the table. -/
theorem mem_table (h : SameLive expiry now table history) {entry : α} (hmem : entry ∈ history)
    (hlive : now < expiry entry) : entry ∈ table :=
  (mem_live.mp (h.perm.mem_iff.mpr (mem_live.mpr ⟨hmem, hlive⟩))).1

theorem concat (h : SameLive expiry now table history) (entry : α) :
    SameLive expiry now (table ++ [entry]) (history ++ [entry]) := by
  intro later hlater
  rw [live_append, live_append]
  exact (h later hlater).append_right _

/-- An expired entry of the table makes room for a new one. -/
theorem set (h : SameLive expiry now table history) {index : Nat} {old : α}
    (hold : table[index]? = some old) (hexpired : expiry old ≤ now) (entry : α) :
    SameLive expiry now (table.set index entry) (history ++ [entry]) := by
  intro later hlater
  refine List.Perm.trans ?_ (h.concat entry later hlater)
  obtain ⟨hlt, rfl⟩ := List.getElem?_eq_some_iff.mp hold
  have htable : table = table.take index ++ ([table[index]] ++ table.drop (index + 1)) := by
    rw [List.singleton_append, List.getElem_cons_drop, List.take_append_drop]
  have hset : table.set index entry = table.take index ++ ([entry] ++ table.drop (index + 1)) := by
    rw [List.set_eq_take_append_cons_drop, if_pos hlt, List.singleton_append]
  have hgone : live expiry later [table[index]] = [] := live_singleton_of_le (hexpired.trans hlater)
  have hlive : live expiry later table =
      live expiry later (table.take index) ++ live expiry later (table.drop (index + 1)) := by
    conv_lhs => rw [htable]
    rw [live_append, live_append, hgone, List.nil_append]
  rw [hset, live_append, live_append, live_append, hlive, List.append_assoc]
  exact List.perm_append_comm.append_left _

/-- Expired entries of the table may be dropped. -/
theorem filter (h : SameLive expiry now table history) :
    SameLive expiry now (live expiry now table) history := by
  intro later hlater
  rw [live_live hlater]
  exact h later hlater

end SameLive

end Ubiq.Foundation.Expiry
