import Mathlib.Data.List.Basic

/-!
# Fallible loops

A loop whose body first reads its input and then changes its state succeeds exactly if every input
can be read and every change is possible, in this order. Only the error may depend on which of
the two failed first.
-/

namespace Ubiq.Foundation.Fallible

universe u

variable {α β σ ε : Type u}

theorem bind_eq_ok {first : Except ε α} {next : α → Except ε β} {result : β} :
    (first >>= next) = .ok result ↔ ∃ value, first = .ok value ∧ next value = .ok result := by
  cases first with
  | error err => simp [bind, Except.bind]
  | ok value => simp [bind, Except.bind]

theorem map_eq_ok {first : Except ε α} {change : α → β} {result : β} :
    first.map change = .ok result ↔ ∃ value, first = .ok value ∧ change value = result := by
  cases first with
  | error err => simp [Except.map]
  | ok value => simp [Except.map]

/-- The body succeeds where the input can be read and the state can be changed. -/
def Factors (body : σ → α → Except ε σ) (read : α → Option β) (change : σ → β → Option σ) : Prop :=
  ∀ state input next, body state input = .ok next ↔
    ∃ value, read input = some value ∧ change state value = some next

/-- **The loop factors like its body.** -/
theorem Factors.foldlM {body : σ → α → Except ε σ} {read : α → Option β}
    {change : σ → β → Option σ} (h : Factors body read change) (inputs : List α)
    (state final : σ) :
    inputs.foldlM body state = .ok final ↔
      ∃ values, inputs.mapM read = some values ∧ values.foldlM change state = some final := by
  induction inputs generalizing state with
  | nil => simp [pure, Except.pure]
  | cons input inputs ih =>
      rw [List.foldlM_cons, bind_eq_ok]
      constructor
      · rintro ⟨next, hbody, hrest⟩
        obtain ⟨value, hread, hchange⟩ := (h state input next).mp hbody
        obtain ⟨values, hreads, hchanges⟩ := (ih next).mp hrest
        refine ⟨value :: values, ?_, ?_⟩
        · simp [hread, hreads]
        · simp [hchange, hchanges]
      · rintro ⟨values, hreads, hchanges⟩
        simp only [List.mapM_cons, Option.bind_eq_bind, Option.bind_eq_some_iff,
          Option.pure_def, Option.some.injEq] at hreads
        obtain ⟨value, hread, rest, hrest, rfl⟩ := hreads
        simp only [List.foldlM_cons, Option.bind_eq_bind, Option.bind_eq_some_iff] at hchanges
        obtain ⟨next, hchange, hfold⟩ := hchanges
        exact ⟨next, (h state input next).mpr ⟨value, hread, hchange⟩,
          (ih next).mpr ⟨rest, hrest, hfold⟩⟩

/-- Which lists a loop without state returns, input by input. -/
theorem mapM_eq_some_map_iff {inputs : List α} {read : α → Option β} {result : α → β} :
    inputs.mapM read = some (inputs.map result) ↔
      ∀ input ∈ inputs, read input = some (result input) := by
  induction inputs with
  | nil => simp
  | cons input inputs ih =>
      rw [List.mapM_cons, List.map_cons, List.forall_mem_cons, ← ih]
      cases read input with
      | none => simp
      | some value => cases inputs.mapM read <;> simp

/-- A loop that reads its inputs by their names. -/
theorem mapM_eq_ok_iff_map {γ : Type u} {read : α → Except ε β} {key : α → γ} {name : β → γ}
    (h : ∀ input value, read input = .ok value ↔ key input = name value) {inputs : List α}
    {values : List β} : inputs.mapM read = .ok values ↔ inputs.map key = values.map name := by
  induction inputs generalizing values with
  | nil => cases values <;> simp [pure, Except.pure]
  | cons input inputs ih =>
      rw [List.mapM_cons, bind_eq_ok]
      simp only [bind_eq_ok, h, ih]
      cases values with
      | nil => simp [pure, Except.pure]
      | cons value values =>
          rw [List.map_cons, List.map_cons, List.cons.injEq]
          constructor
          · rintro ⟨first, hfirst, rest, hrest, heq⟩
            cases heq
            exact ⟨hfirst, hrest⟩
          · rintro ⟨hfirst, hrest⟩
            exact ⟨value, hfirst, values, hrest, rfl⟩

end Ubiq.Foundation.Fallible
