import Mathlib.Data.List.Infix

/-!
# Lines that end with a pair of symbols

Texts over an arbitrary alphabet whose lines end with two symbols in a row, as `\r\n`. One of the
two alone ends no line.

* `HasPair` says that the pair occurs, `cut` takes the first line off a text, and `split` cuts the
  text at every pair.
* `cut_append` and `cut_eq_some` say what the first line is, `split_append` and
  `not_hasPair_of_mem_split` what the pieces are.
-/

namespace Ubiq.Foundation.PairLines

variable {α : Type*} {first second x : α} {rest text line : List α}

/-- The pair occurs in the text. -/
def HasPair (first second : α) : List α → Prop
  | x :: y :: rest => (x = first ∧ y = second) ∨ HasPair first second (y :: rest)
  | _ => False

instance decidableHasPair [DecidableEq α] (first second : α) :
    ∀ text : List α, Decidable (HasPair first second text)
  | [] => isFalse not_false
  | [_] => isFalse not_false
  | x :: y :: rest =>
      have := decidableHasPair first second (y :: rest)
      inferInstanceAs (Decidable ((x = first ∧ y = second) ∨ HasPair first second (y :: rest)))

@[simp] theorem not_hasPair_nil : ¬HasPair first second [] := not_false

@[simp] theorem not_hasPair_singleton (x : α) : ¬HasPair first second [x] := not_false

@[simp] theorem hasPair_cons_cons {y : α} :
    HasPair first second (x :: y :: rest) ↔
      (x = first ∧ y = second) ∨ HasPair first second (y :: rest) := Iff.rfl

theorem HasPair.cons (h : HasPair first second text) (x : α) :
    HasPair first second (x :: text) := by
  cases text with
  | nil => exact h.elim
  | cons y rest => exact Or.inr h

theorem hasPair_iff :
    HasPair first second text ↔ ∃ before after, text = before ++ first :: second :: after := by
  constructor
  · intro h
    induction text with
    | nil => exact h.elim
    | cons x rest ih =>
        cases rest with
        | nil => exact h.elim
        | cons y rest =>
            rcases h with ⟨rfl, rfl⟩ | hlater
            · exact ⟨[], rest, rfl⟩
            · obtain ⟨before, after, heq⟩ := ih hlater
              exact ⟨x :: before, after, by rw [heq, List.cons_append]⟩
  · rintro ⟨before, after, rfl⟩
    induction before with
    | nil => exact Or.inl ⟨rfl, rfl⟩
    | cons x before ih => exact ih.cons x

/-- A pair in a part of the text is one in the text. -/
theorem HasPair.of_infix {part : List α} (h : HasPair first second part) (hpart : part <:+: text) :
    HasPair first second text := by
  obtain ⟨left, right, rfl⟩ := hpart
  obtain ⟨before, after, rfl⟩ := hasPair_iff.mp h
  exact hasPair_iff.mpr ⟨left ++ before, after ++ right, by simp⟩

theorem not_hasPair_of_not_mem (h : second ∉ text) : ¬HasPair first second text := by
  intro hpair
  obtain ⟨before, after, rfl⟩ := hasPair_iff.mp hpair
  simp at h

/-- No pair goes across a symbol that is neither of the two. -/
theorem hasPair_append_cons (hfirst : x ≠ first) (hsecond : x ≠ second) (left right : List α) :
    HasPair first second (left ++ x :: right) ↔
      HasPair first second left ∨ HasPair first second right := by
  induction left with
  | nil =>
      cases right with
      | nil => simp
      | cons y rest => simp [hfirst]
  | cons y left ih =>
      cases left with
      | nil =>
          have hright : HasPair first second (x :: right) ↔ HasPair first second right := by
            simpa using ih
          simp [hsecond, hright]
      | cons z left =>
          have hlater : HasPair first second (z :: left ++ x :: right) ↔
              HasPair first second (z :: left) ∨ HasPair first second right := ih
          rw [List.cons_append] at hlater
          rw [List.cons_append, List.cons_append, hasPair_cons_cons, hasPair_cons_cons, hlater, or_assoc]

/-- One more symbol in front makes no pair if the symbol behind it in the text makes none with it. -/
theorem not_hasPair_cons {y : α} (hpair : ¬(x = first ∧ y = second)) (hstart : line <+: y :: rest)
    (hline : ¬HasPair first second line) :
    ¬HasPair first second (x :: line) := by
  cases line with
  | nil => exact not_hasPair_singleton x
  | cons z line =>
      obtain ⟨rfl, -⟩ := List.cons_prefix_cons.mp hstart
      rintro (hfirst | hlater)
      · exact hpair hfirst
      · exact hline hlater

variable [DecidableEq α]

/-- The first line, and the text behind its end. -/
def cut (first second : α) : List α → Option (List α × List α)
  | x :: y :: rest =>
      if x = first ∧ y = second then some ([], rest)
      else (cut first second (y :: rest)).map fun found => (x :: found.1, found.2)
  | _ => none

/-- The pieces between the pairs. -/
def split (first second : α) : List α → List (List α)
  | x :: y :: rest =>
      if x = first ∧ y = second then [] :: split first second rest
      else (split first second (y :: rest)).modifyHead (x :: ·)
  | text => [text]

/-- **The first line of a text.** -/
theorem cut_append (hne : first ≠ second) (hline : ¬HasPair first second line) (rest : List α) :
    cut first second (line ++ first :: second :: rest) = some (line, rest) := by
  induction line with
  | nil => simp [cut]
  | cons x line ih =>
      have hcut := ih fun h => hline (h.cons x)
      cases line with
      | nil => simp_all [cut]
      | cons y line =>
          have hpair : ¬(x = first ∧ y = second) := fun h => hline (Or.inl h)
          rw [List.cons_append, List.cons_append, cut, if_neg hpair, ← List.cons_append, hcut]
          rfl

/-- **What was cut off is a line without a pair.** -/
theorem cut_eq_some (h : cut first second text = some (line, rest)) :
    text = line ++ first :: second :: rest ∧ ¬HasPair first second line := by
  induction text generalizing line with
  | nil => cases h
  | cons x text ih =>
      cases text with
      | nil => cases h
      | cons y text =>
          rw [cut] at h
          split at h
          · next hpair =>
              cases h
              exact ⟨by rw [hpair.1, hpair.2, List.nil_append], not_hasPair_nil⟩
          · next hpair =>
              obtain ⟨⟨found, left⟩, hcut, heq⟩ := Option.map_eq_some_iff.mp h
              cases heq
              obtain ⟨htext, hfound⟩ := ih hcut
              have hstart : found <+: y :: text := by
                rw [htext]
                exact List.prefix_append _ _
              exact ⟨by rw [htext, List.cons_append], not_hasPair_cons hpair hstart hfound⟩

/-- **The text before the first pair is the first piece.** -/
theorem split_append (hne : first ≠ second) (hline : ¬HasPair first second line) (rest : List α) :
    split first second (line ++ first :: second :: rest) = line :: split first second rest := by
  induction line with
  | nil => simp [split]
  | cons x line ih =>
      have hsplit := ih fun h => hline (h.cons x)
      cases line with
      | nil => simp_all [split]
      | cons y line =>
          have hpair : ¬(x = first ∧ y = second) := fun h => hline (Or.inl h)
          rw [List.cons_append, List.cons_append, split, if_neg hpair, ← List.cons_append, hsplit]
          rfl

theorem split_of_short (h : ∀ x y rest, text ≠ x :: y :: rest) :
    split first second text = [text] ∧ ¬HasPair first second text := by
  rcases text with _ | ⟨x, _ | ⟨y, rest⟩⟩
  · exact ⟨rfl, not_hasPair_nil⟩
  · exact ⟨rfl, not_hasPair_singleton x⟩
  · exact absurd rfl (h x y rest)

/-- The pieces have no pair. The first piece starts with the text, so that no pair goes across its
first symbol. -/
theorem split_spec (text : List α) :
    ∃ head tail, split first second text = head :: tail ∧ head <+: text ∧
      ∀ piece ∈ head :: tail, ¬HasPair first second piece := by
  induction text using split.induct first second with
  | case1 x y rest hpair ih =>
      obtain ⟨head, tail, heq, -, hpieces⟩ := ih
      refine ⟨[], head :: tail, ?_, List.nil_prefix, ?_⟩
      · rw [split, if_pos hpair, heq]
      · exact List.forall_mem_cons.mpr ⟨not_hasPair_nil, hpieces⟩
  | case2 x y rest hpair ih =>
      obtain ⟨head, tail, heq, hstart, hpieces⟩ := ih
      obtain ⟨hhead, htail⟩ := List.forall_mem_cons.mp hpieces
      refine ⟨x :: head, tail, ?_, List.cons_prefix_cons.mpr ⟨rfl, hstart⟩, ?_⟩
      · rw [split, if_neg hpair, heq, List.modifyHead_cons]
      · exact List.forall_mem_cons.mpr ⟨not_hasPair_cons hpair hstart hhead, htail⟩
  | case3 text hshort =>
      obtain ⟨heq, hnone⟩ := split_of_short hshort
      exact ⟨text, [], heq, List.prefix_rfl, List.forall_mem_singleton.mpr hnone⟩

theorem not_hasPair_of_mem_split {piece : List α} (h : piece ∈ split first second text) :
    ¬HasPair first second piece := by
  obtain ⟨head, tail, heq, -, hpieces⟩ := split_spec text
  rw [heq] at h
  exact hpieces piece h

end Ubiq.Foundation.PairLines
