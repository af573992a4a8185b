import Ubiq.Foundation.Bytes

/-!
# Terminated lines of a byte string

A log of lines is read by cutting the file at every terminator: what stands
before a terminator is a complete line, what stands after the last one is a
tail. The module is about an arbitrary terminator over an arbitrary alphabet.

* `completeLines` and `tail` cut a string; `line_induction` goes from line to line.
* `completeLines_append` and `tail_append` say what appending does: only the
  tail of the first string matters, so a string with an empty tail (`Clean`)
  keeps its lines.
* `completeLines_of_not_mem` is the torn line: without a terminator nothing is
  complete.
* `length_completeLines` and `forall_mem_pieces_iff` are about the pieces between all
  terminators, and `drop_lastIndexOfScalar` finds the last of them.
-/

namespace Ubiq.Foundation.Lines

variable {α : Type*} [DecidableEq α] {stop a : α} {rest line text : List α}

/-- The lines ended by `stop` (without it), and the rest after the last one. -/
def cut (stop : α) : List α → List (List α) × List α
  | [] => ([], [])
  | a :: rest =>
      if a = stop then
        ([] :: (cut stop rest).1, (cut stop rest).2)
      else
        match (cut stop rest).1 with
        -- no terminator follows, so `a` belongs to the unterminated rest
        | [] => ([], a :: (cut stop rest).2)
        | line :: lines => ((a :: line) :: lines, (cut stop rest).2)

/-- The complete lines, in order and without their terminators. -/
def completeLines (stop : α) (text : List α) : List (List α) :=
  (cut stop text).1

/-- The unterminated rest. -/
def tail (stop : α) (text : List α) : List α :=
  (cut stop text).2

/-- Every line is complete. -/
def Clean (stop : α) (text : List α) : Prop :=
  tail stop text = []

instance decidableClean (stop : α) (text : List α) : Decidable (Clean stop text) :=
  inferInstanceAs (Decidable (tail stop text = []))

@[simp] theorem completeLines_nil (stop : α) : completeLines stop [] = [] := rfl

@[simp] theorem tail_nil (stop : α) : tail stop ([] : List α) = [] := rfl

/-! ## The first line -/

/-- Before the first terminator nothing is complete and all is tail. -/
theorem cut_of_not_mem (h : stop ∉ text) : cut stop text = ([], text) := by
  induction text with
  | nil => rfl
  | cons a rest ih =>
      obtain ⟨hne, hrest⟩ := not_or.mp (List.mem_cons.not.mp h)
      simp [cut, Ne.symm hne, ih hrest]

/-- The first terminator ends the first line. -/
theorem cut_line_append (h : stop ∉ line) (rest : List α) :
    cut stop (line ++ stop :: rest) = (line :: completeLines stop rest, tail stop rest) := by
  induction line with
  | nil => simp [cut, completeLines, tail]
  | cons a line ih =>
      obtain ⟨hne, hline⟩ := not_or.mp (List.mem_cons.not.mp h)
      simp [cut, Ne.symm hne, ih hline]

theorem completeLines_of_not_mem (h : stop ∉ text) : completeLines stop text = [] := by
  rw [completeLines, cut_of_not_mem h]

theorem tail_of_not_mem (h : stop ∉ text) : tail stop text = text := by
  rw [tail, cut_of_not_mem h]

theorem completeLines_line_append (h : stop ∉ line) (rest : List α) :
    completeLines stop (line ++ stop :: rest) = line :: completeLines stop rest := by
  rw [completeLines, cut_line_append h]

theorem tail_line_append (h : stop ∉ line) (rest : List α) :
    tail stop (line ++ stop :: rest) = tail stop rest := by
  rw [tail, cut_line_append h]

theorem tail_stop_cons (stop : α) (rest : List α) : tail stop (stop :: rest) = tail stop rest :=
  tail_line_append List.not_mem_nil rest

/-- In front of a terminator nothing is tail. -/
theorem tail_cons_of_mem (h : stop ∈ text) : tail stop (a :: text) = tail stop text := by
  obtain ⟨line, rest, rfl, hline⟩ := List.eq_append_cons_of_mem h
  by_cases ha : a = stop
  · rw [ha, tail_stop_cons]
  · have hfirst : stop ∉ a :: line := by simp [Ne.symm ha, hline]
    rw [← List.cons_append, tail_line_append hfirst, tail_line_append hline]

/-- **Induction over the lines.** A text has no terminator, or one more line than what stands
behind its first terminator. -/
@[elab_as_elim]
theorem line_induction {motive : List α → Prop} (stop : α)
    (torn : ∀ text, stop ∉ text → motive text)
    (more : ∀ line rest, stop ∉ line → motive rest → motive (line ++ stop :: rest))
    (text : List α) : motive text := by
  induction hlength : text.length using Nat.strong_induction_on generalizing text with
  | _ length ih =>
      by_cases hmem : stop ∈ text
      · obtain ⟨line, rest, rfl, hline⟩ := List.eq_append_cons_of_mem hmem
        refine more line rest hline (ih rest.length ?_ rest rfl)
        rw [← hlength, List.length_append, List.length_cons]
        omega
      · exact torn text hmem

/-- Appending extends the tail; the lines already complete stay as they are. -/
theorem completeLines_append (stop : α) (first second : List α) :
    completeLines stop (first ++ second) =
      completeLines stop first ++ completeLines stop (tail stop first ++ second) := by
  induction first using line_induction stop with
  | torn first hfirst => rw [completeLines_of_not_mem hfirst, tail_of_not_mem hfirst, List.nil_append]
  | more line rest hline ih =>
      rw [List.append_assoc, List.cons_append, completeLines_line_append hline,
        completeLines_line_append hline, tail_line_append hline, ih, List.cons_append]

theorem tail_append (stop : α) (first second : List α) :
    tail stop (first ++ second) = tail stop (tail stop first ++ second) := by
  induction first using line_induction stop with
  | torn first hfirst => rw [tail_of_not_mem hfirst]
  | more line rest hline ih =>
      rw [List.append_assoc, List.cons_append, tail_line_append hline, tail_line_append hline, ih]

/-- One terminated line. -/
theorem completeLines_line (h : stop ∉ line) : completeLines stop (line ++ [stop]) = [line] :=
  completeLines_line_append h []

theorem clean_line (h : stop ∉ line) : Clean stop (line ++ [stop]) :=
  tail_line_append h []

/-- A line appended to a clean text becomes its last line. -/
theorem completeLines_append_line (hclean : Clean stop text) (h : stop ∉ line) :
    completeLines stop (text ++ (line ++ [stop])) = completeLines stop text ++ [line] := by
  rw [completeLines_append, hclean, List.nil_append, completeLines_line h]

theorem clean_append_line (hclean : Clean stop text) (h : stop ∉ line) :
    Clean stop (text ++ (line ++ [stop])) := by
  have hline := clean_line h
  unfold Clean at hclean hline ⊢
  rw [tail_append, hclean, List.nil_append, hline]

/-- A torn line appended to a clean text leaves the complete lines alone. -/
theorem completeLines_append_torn {torn : List α} (hclean : Clean stop text) (h : stop ∉ torn) :
    completeLines stop (text ++ torn) = completeLines stop text := by
  rw [completeLines_append, hclean, List.nil_append, completeLines_of_not_mem h, List.append_nil]

/-- A text is at least as long as it has complete lines, twice over when no line
is empty, and so on: each line costs its length and a terminator. -/
theorem sum_length_completeLines_le (stop : α) (text : List α) :
    ((completeLines stop text).map fun line => line.length + 1).sum ≤ text.length := by
  induction text using line_induction stop with
  | torn text htext => simp [completeLines_of_not_mem htext]
  | more line rest hline ih =>
      rw [completeLines_line_append hline, List.map_cons, List.sum_cons, List.length_append,
        List.length_cons]
      omega

/-! ## Splitting at every terminator -/

theorem length_completeLines (stop : α) (text : List α) :
    (completeLines stop text).length = text.count stop := by
  induction text using line_induction stop with
  | torn text htext => rw [completeLines_of_not_mem htext, List.count_eq_zero.mpr htext]; rfl
  | more line rest hline ih =>
      rw [completeLines_line_append hline, List.length_cons, ih, List.count_append,
        List.count_eq_zero.mpr hline, List.count_cons_self, Nat.zero_add]

/-- The pieces of a text are made of what is not the terminator. -/
theorem forall_mem_pieces_iff {p : α → Prop} :
    (∀ piece ∈ completeLines stop text ++ [tail stop text], ∀ a ∈ piece, p a) ↔
      ∀ a ∈ text, a ≠ stop → p a := by
  have hfree : ∀ {line : List α}, stop ∉ line →
      ((∀ a ∈ line, a ≠ stop → p a) ↔ ∀ a ∈ line, p a) := fun hline =>
    forall₂_congr fun a ha => imp_iff_right (ne_of_mem_of_not_mem ha hline)
  induction text using line_induction stop with
  | torn text htext => simp [completeLines_of_not_mem htext, tail_of_not_mem htext, hfree htext]
  | more line rest hline ih =>
      have hparts : (∀ a ∈ line ++ stop :: rest, a ≠ stop → p a) ↔
          (∀ a ∈ line, p a) ∧ ∀ a ∈ rest, a ≠ stop → p a := by
        rw [List.forall_mem_append, hfree hline, List.forall_mem_cons]
        simp
      rw [completeLines_line_append hline, tail_line_append hline, List.cons_append,
        List.forall_mem_cons, hparts]
      exact and_congr_right' ih

theorem stop_not_mem_tail (stop : α) (text : List α) : stop ∉ tail stop text := by
  have hpieces : ∀ piece ∈ completeLines stop text ++ [tail stop text], ∀ a ∈ piece, a ≠ stop :=
    forall_mem_pieces_iff.mpr fun _ _ hne => hne
  exact fun hmem => hpieces _ (by simp) stop hmem rfl

/-- A text that ends with the terminator is clean. -/
theorem clean_concat_stop (stop : α) (text : List α) : Clean stop (text ++ [stop]) := by
  unfold Clean
  rw [tail_append]
  exact clean_line (stop_not_mem_tail stop text)

/-- A clean text is empty or starts with a line, behind which it is clean again. -/
theorem Clean.eq_nil_or_line (h : Clean stop text) :
    text = [] ∨ ∃ line rest, text = line ++ stop :: rest ∧ stop ∉ line ∧ Clean stop rest ∧
      completeLines stop text = line :: completeLines stop rest := by
  by_cases hmem : stop ∈ text
  · obtain ⟨line, rest, rfl, hline⟩ := List.eq_append_cons_of_mem hmem
    exact Or.inr ⟨line, rest, rfl, hline, (tail_line_append hline rest).symm.trans h,
      completeLines_line_append hline rest⟩
  · have htail := tail_of_not_mem hmem
    exact Or.inl (htail.symm.trans h)

/-- The position of the last occurrence of a value. -/
def lastIndexOfScalar (value : α) : List α → Option Nat
  | [] => none
  | a :: rest =>
      match lastIndexOfScalar value rest with
      | some index => some (index + 1)
      | none => if a = value then some 0 else none

theorem lastIndexOfScalar_eq_none_iff {value : α} :
    lastIndexOfScalar value text = none ↔ value ∉ text := by
  induction text with
  | nil => simp [lastIndexOfScalar]
  | cons a rest ih =>
      cases hrest : lastIndexOfScalar value rest with
      | some index =>
          have hmem : value ∈ rest := not_not.mp (ih.not.mp (by simp [hrest]))
          simp [lastIndexOfScalar, hrest, hmem]
      | none =>
          have hnot := ih.mp hrest
          simp [lastIndexOfScalar, hrest, hnot, eq_comm]

/-- What stands behind the last terminator is the tail, and with two terminators the last
one is not at the start. -/
theorem drop_lastIndexOfScalar {index : Nat} (h : lastIndexOfScalar stop text = some index) :
    text.drop (index + 1) = tail stop text ∧ (2 ≤ text.count stop → index ≠ 0) := by
  induction text generalizing index with
  | nil => cases h
  | cons a rest ih =>
      unfold lastIndexOfScalar at h
      cases hrest : lastIndexOfScalar stop rest with
      | some later =>
          obtain rfl : later + 1 = index := by simpa [hrest] using h
          obtain ⟨hdrop, -⟩ := ih hrest
          refine ⟨?_, by omega⟩
          rw [List.drop_succ_cons, hdrop]
          have hsome : lastIndexOfScalar stop rest ≠ none := by simp [hrest]
          exact (tail_cons_of_mem (not_not.mp (lastIndexOfScalar_eq_none_iff.not.mp hsome))).symm
      | none =>
          have hnot := lastIndexOfScalar_eq_none_iff.mp hrest
          simp only [hrest] at h
          by_cases hstop : a = stop
          · obtain rfl : 0 = index := by simpa [hstop] using h
            refine ⟨?_, fun htwo => ?_⟩
            · rw [hstop, tail_stop_cons, tail_of_not_mem hnot]
              rfl
            · rw [hstop, List.count_cons_self, List.count_eq_zero.mpr hnot] at htwo
              omega
          · simp [hstop] at h

end Ubiq.Foundation.Lines
