import Ubiq.Foundation.Bytes
import Ubiq.Foundation.Execution

/-!
# Self-delimiting items on a stream

A reader takes items off a byte stream, one with every call. `Delimits` says what it does on the
bytes of one item: it takes a whole item and leaves what is behind it, and it reports the end of the
stream if a part of the item is missing.

From this follows what any number of calls return on a stream of items, cut anywhere:
`replies_of_isPrefix` and `run_stream`.
-/

namespace Ubiq.Foundation.Framing

variable {α β ε : Type} {encode : α → Bytes} {items : List α}
  {receive : Bytes → β → Bytes × Except ε α} {stop : ε} {accepts : β → α → Prop}

/-- A reader of items in an encoding; `accepts` relates the calls to the items they can read. -/
structure Delimits (receive : Bytes → β → Bytes × Except ε α) (encode : α → Bytes) (stop : ε)
    (accepts : β → α → Prop) : Prop where
  whole : ∀ {call : β} {item : α}, accepts call item → ∀ rest : Bytes,
    receive (encode item ++ rest) call = (rest, .ok item)
  short : ∀ {call : β} {item : α} {cut : Bytes}, accepts call item → cut <+: encode item →
    cut.length < (encode item).length → ∃ left, receive cut call = (left, .error stop) ∧ left <+: cut
  ended : ∀ call : β, receive [] call = ([], .error stop)

/-- The items whose bytes lie within the given length. -/
def within (encode : α → Bytes) : List α → Nat → List α
  | [], _ => []
  | item :: items, length =>
      if (encode item).length ≤ length then
        item :: within encode items (length - (encode item).length)
      else []

theorem within_isPrefix (items : List α) (length : Nat) : within encode items length <+: items := by
  induction items generalizing length with
  | nil => exact List.nil_prefix
  | cons item items ih =>
      rw [within]
      split
      · exact List.cons_prefix_cons.mpr ⟨rfl, ih _⟩
      · exact List.nil_prefix

theorem within_stream (items : List α) :
    within encode items (items.flatMap encode).length = items := by
  induction items with
  | nil => rfl
  | cons item items ih =>
      rw [List.flatMap_cons, List.length_append, within, if_pos (Nat.le_add_right _ _),
        Nat.add_sub_cancel_left, ih]

theorem length_within_lt {length : Nat} (h : length < (items.flatMap encode).length) :
    (within encode items length).length < items.length := by
  induction items generalizing length with
  | nil => exact absurd h (Nat.not_lt_zero _)
  | cons item items ih =>
      rw [List.flatMap_cons, List.length_append] at h
      rw [within]
      split
      · have hrest := @ih (length - (encode item).length) (by omega)
        rw [List.length_cons, List.length_cons]
        omega
      · exact Nat.succ_pos _

/-- The replies of successive calls. -/
def replies (receive : Bytes → β → Bytes × Except ε α) (input : Bytes) (calls : List β) :
    List (Except ε α) :=
  (Execution.trace receive input calls).map Prod.snd

theorem replies_cons {input left : Bytes} {call : β} {reply : Except ε α}
    (h : receive input call = (left, reply)) (calls : List β) :
    replies receive input (call :: calls) = reply :: replies receive left calls := by
  rw [replies, Execution.trace_cons, List.map_cons, Execution.after, h]
  rfl

/-- **Calls on a stream that is cut anywhere**: they return the items that are whole, in their order,
and then report the end of the stream again and again. -/
theorem Delimits.replies_of_isPrefix (h : Delimits receive encode stop accepts) {cut : Bytes}
    (hcut : cut <+: items.flatMap encode) {calls : List β}
    (haccepts : ∀ call ∈ calls, ∀ item ∈ items, accepts call item) :
    replies receive cut calls =
      ((within encode items cut.length).take calls.length).map .ok ++
        List.replicate (calls.length - (within encode items cut.length).length) (.error stop) := by
  induction calls generalizing items cut with
  | nil => simp [replies]
  | cons call calls ih =>
      obtain ⟨hcall, hcalls⟩ := List.forall_mem_cons.mp haccepts
      cases items with
      | nil =>
          obtain rfl : cut = [] := List.prefix_nil.mp hcut
          rw [replies_cons (h.ended call), ih hcut hcalls]
          simp [within, List.replicate_succ]
      | cons item items =>
          have hitem := hcall item List.mem_cons_self
          rw [List.flatMap_cons] at hcut
          by_cases hwhole : (encode item).length ≤ cut.length
          · -- the first item is whole, and the rest of the cut is a cut of the other items
            obtain ⟨rest, rfl⟩ := List.prefix_of_prefix_length_le (List.prefix_append _ _) hcut hwhole
            have hrest : rest <+: items.flatMap encode := (List.prefix_append_right_inj _).mp hcut
            have hothers : ∀ call ∈ calls, ∀ other ∈ items, accepts call other :=
              fun call hmem other hother => hcalls call hmem other (List.mem_cons_of_mem _ hother)
            rw [replies_cons (h.whole hitem rest), ih hrest hothers, within, if_pos hwhole,
              List.length_append, Nat.add_sub_cancel_left]
            simp
          · -- the first item is cut, and what a call leaves is a cut of it again
            rw [not_le] at hwhole
            have hpart : cut <+: encode item :=
              List.prefix_of_prefix_length_le hcut (List.prefix_append _ _) hwhole.le
            obtain ⟨left, hreceive, hleft⟩ := h.short hitem hpart hwhole
            have hshorter : left.length < (encode item).length := hleft.length_le.trans_lt hwhole
            have hagain : left <+: (item :: items).flatMap encode := by
              rw [List.flatMap_cons]
              exact hleft.trans hcut
            rw [replies_cons hreceive, ih hagain hcalls, within, if_neg (not_le.mpr hshorter),
              within, if_neg (not_le.mpr hwhole)]
            simp [List.replicate_succ]

/-- **As many calls as items** take the items off the stream. -/
theorem Delimits.run_stream (h : Delimits receive encode stop accepts) {calls : List β}
    (haccepts : ∀ call ∈ calls, ∀ item ∈ items, accepts call item)
    (hlength : calls.length = items.length) (rest : Bytes) :
    Execution.run (Execution.after receive) (items.flatMap encode ++ rest) calls = rest := by
  induction calls generalizing items with
  | nil =>
      obtain rfl := List.length_eq_zero_iff.mp hlength.symm
      rfl
  | cons call calls ih =>
      cases items with
      | nil => cases hlength
      | cons item items =>
          obtain ⟨hcall, hcalls⟩ := List.forall_mem_cons.mp haccepts
          have hothers : ∀ call ∈ calls, ∀ other ∈ items, accepts call other :=
            fun call hmem other hother => hcalls call hmem other (List.mem_cons_of_mem _ hother)
          have hfirst := h.whole (hcall item List.mem_cons_self) (items.flatMap encode ++ rest)
          rw [Execution.run_cons, List.flatMap_cons, List.append_assoc, Execution.after, hfirst]
          exact ih hothers (Nat.succ.inj hlength)

end Ubiq.Foundation.Framing
