import Ubiq.Foundation.Lines
import Mathlib.Data.List.DropRight

/-!
# Trimming and splitting texts

The functions of Zig's `std.mem` on strings of an arbitrary alphabet: `trimEnd` and `trim` drop
symbols of a set at the ends, `splitScalar` cuts at every separator, and `tokenizeScalar` keeps
the pieces that are not empty.
-/

namespace Ubiq.Foundation.Text

variable {α : Type*} [DecidableEq α] {set text token : List α} {separator : α}

def trimEnd (set text : List α) : List α :=
  text.rdropWhile fun a => a ∈ set

def trim (set text : List α) : List α :=
  trimEnd set (text.dropWhile fun a => a ∈ set)

def splitScalar (separator : α) (text : List α) : List (List α) :=
  Lines.completeLines separator text ++ [Lines.tail separator text]

def tokenizeScalar (separator : α) (text : List α) : List (List α) :=
  (splitScalar separator text).filter fun piece => piece ≠ []

/-! ## Trimming -/

/-- Nothing of a text is dropped whose last symbol is not in the set. -/
theorem trimEnd_append {kept : List α} (hne : kept ≠ []) (hlast : kept.getLast hne ∉ set)
    (rest : List α) : trimEnd set (kept ++ rest) = kept ++ trimEnd set rest := by
  unfold trimEnd
  induction rest using List.reverseRecOn with
  | nil =>
      rw [List.append_nil, List.rdropWhile_nil, List.append_nil, List.rdropWhile_eq_self_iff]
      intro _
      simpa using hlast
  | append_singleton rest last ih =>
      by_cases hmem : last ∈ set
      · rw [← List.append_assoc, List.rdropWhile_concat_pos _ _ _ (by simpa using hmem),
          List.rdropWhile_concat_pos _ _ _ (by simpa using hmem), ih]
      · rw [← List.append_assoc, List.rdropWhile_concat_neg _ _ _ (by simpa using hmem),
          List.rdropWhile_concat_neg _ _ _ (by simpa using hmem), List.append_assoc]

theorem trimEnd_eq_nil (h : ∀ a ∈ text, a ∈ set) : trimEnd set text = [] := by
  rw [trimEnd, List.rdropWhile_eq_nil_iff]
  simpa using h

/-- Neither end of the text is in the set. -/
structure Tight (set text : List α) : Prop where
  head : ∀ a ∈ text.head?, a ∉ set
  last : ∀ a ∈ text.getLast?, a ∉ set

omit [DecidableEq α] in
theorem tight_nil (set : List α) : Tight set [] := ⟨by simp, by simp⟩

omit [DecidableEq α] in
/-- Only the ends of a text matter. -/
theorem Tight.append {first last : List α} (hfirst : Tight set first) (hlast : Tight set last)
    (hne : first ≠ []) (hne' : last ≠ []) (middle : List α) :
    Tight set (first ++ middle ++ last) := by
  constructor
  · intro a hmem
    rw [List.append_assoc, List.head?_append_of_ne_nil _ hne] at hmem
    exact hfirst.head a hmem
  · intro a hmem
    rw [List.getLast?_append_of_ne_nil _ hne'] at hmem
    exact hlast.last a hmem

/-- **Trimming removes what is written around a text.** -/
theorem trim_around {left right : List α} (hleft : ∀ a ∈ left, a ∈ set)
    (hright : ∀ a ∈ right, a ∈ set) (h : Tight set text) :
    trim set (left ++ text ++ right) = text := by
  have hdrop : (left ++ text ++ right).dropWhile (fun a => a ∈ set) =
      (text ++ right).dropWhile fun a => a ∈ set := by
    rw [List.append_assoc, List.dropWhile_append_of_pos (by simpa using hleft)]
  rw [trim, hdrop]
  cases text with
  | nil =>
      have hnone : right.dropWhile (fun a => a ∈ set) = [] := by simpa using hright
      rw [List.nil_append, hnone, trimEnd, List.rdropWhile_nil]
  | cons a rest =>
      have hhead : a ∉ set := h.head a rfl
      have hkeep : (a :: rest ++ right).dropWhile (fun a => a ∈ set) = a :: rest ++ right := by
        rw [List.cons_append, List.dropWhile_cons_of_neg (by simpa using hhead)]
      rw [hkeep, trimEnd_append (List.cons_ne_nil a rest), trimEnd_eq_nil hright, List.append_nil]
      exact h.last _ (List.getLast?_eq_some_getLast (List.cons_ne_nil a rest))

/-! ## Tokens -/

@[simp] theorem tokenizeScalar_nil (separator : α) : tokenizeScalar separator ([] : List α) = [] := by
  simp [tokenizeScalar, splitScalar]

theorem splitScalar_of_not_mem (h : separator ∉ text) :
    splitScalar separator text = [text] := by
  rw [splitScalar, Lines.completeLines_of_not_mem h, Lines.tail_of_not_mem h, List.nil_append]

/-- The text before the first separator is the first piece. -/
theorem splitScalar_append_cons {piece : List α} (h : separator ∉ piece) (rest : List α) :
    splitScalar separator (piece ++ separator :: rest) = piece :: splitScalar separator rest := by
  rw [splitScalar, splitScalar, Lines.completeLines_line_append h, Lines.tail_line_append h,
    List.cons_append]

theorem splitScalar_cons_self (separator : α) (rest : List α) :
    splitScalar separator (separator :: rest) = [] :: splitScalar separator rest :=
  splitScalar_append_cons List.not_mem_nil rest

/-- A piece is a part of the text without separators. -/
theorem mem_splitScalar {piece : List α} (h : piece ∈ splitScalar separator text) :
    separator ∉ piece ∧ piece <:+: text := by
  induction text using Lines.line_induction separator with
  | torn text hmem =>
      rw [splitScalar_of_not_mem hmem, List.mem_singleton] at h
      rw [h]
      exact ⟨hmem, List.infix_rfl⟩
  | more front rest hfront ih =>
      rw [splitScalar_append_cons hfront, List.mem_cons] at h
      rcases h with rfl | hlater
      · exact ⟨hfront, (List.prefix_append _ _).isInfix⟩
      · obtain ⟨hpiece, hpart⟩ := ih hlater
        have htail : rest <:+: front ++ separator :: rest :=
          ((List.suffix_cons separator rest).trans (List.suffix_append _ _)).isInfix
        exact ⟨hpiece, hpart.trans htail⟩

/-- Separators in front of a text do not matter. -/
@[simp] theorem tokenizeScalar_cons_self (separator : α) (rest : List α) :
    tokenizeScalar separator (separator :: rest) = tokenizeScalar separator rest := by
  simp [tokenizeScalar, splitScalar_cons_self]

@[simp] theorem tokenizeScalar_replicate_append (separator : α) (n : Nat) (rest : List α) :
    tokenizeScalar separator (List.replicate n separator ++ rest) = tokenizeScalar separator rest := by
  induction n with
  | zero => rfl
  | succ n ih => rw [List.replicate_succ, List.cons_append, tokenizeScalar_cons_self, ih]

/-- A text is a token: it is not empty and has no separator. -/
structure IsToken (separator : α) (text : List α) : Prop where
  ne_nil : text ≠ []
  not_mem : separator ∉ text

/-- What is read as a token is one, and a part of the text. -/
theorem isToken_of_mem_tokenizeScalar (h : token ∈ tokenizeScalar separator text) :
    IsToken separator token ∧ token <:+: text := by
  obtain ⟨hpiece, hne⟩ := List.mem_filter.mp h
  obtain ⟨hmem, hpart⟩ := mem_splitScalar hpiece
  exact ⟨⟨by simpa using hne, hmem⟩, hpart⟩

theorem tokenizeScalar_token (h : IsToken separator token) :
    tokenizeScalar separator token = [token] := by
  simp [tokenizeScalar, splitScalar_of_not_mem h.not_mem, h.ne_nil]

theorem tokenizeScalar_token_append (h : IsToken separator token) (rest : List α) :
    tokenizeScalar separator (token ++ separator :: rest) = token :: tokenizeScalar separator rest := by
  simp [tokenizeScalar, splitScalar_append_cons h.not_mem, h.ne_nil]

/-- Tokens, each behind one separator and as many more as `gaps` says. -/
def spaced (separator : α) : List Nat → List (List α) → List α
  | _, [] => []
  | gaps, token :: rest =>
      separator :: (List.replicate gaps.headI separator ++ token ++ spaced separator gaps.tail rest)

/-- **Spaced tokens are read back.** -/
theorem tokenizeScalar_spaced {tokens : List (List α)}
    (h : ∀ token ∈ tokens, IsToken separator token) (gaps : List Nat) :
    tokenizeScalar separator (spaced separator gaps tokens) = tokens := by
  induction tokens generalizing gaps with
  | nil => simp [spaced]
  | cons token rest ih =>
      obtain ⟨hfirst, hrest⟩ := List.forall_mem_cons.mp h
      have hread := ih hrest gaps.tail
      rw [spaced, tokenizeScalar_cons_self, List.append_assoc, tokenizeScalar_replicate_append]
      cases rest with
      | nil => rw [spaced, List.append_nil, tokenizeScalar_token hfirst]
      | cons next more =>
          rw [spaced, tokenizeScalar_cons_self] at hread
          rw [spaced, tokenizeScalar_token_append hfirst, hread]

end Ubiq.Foundation.Text
