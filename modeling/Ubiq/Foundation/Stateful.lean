import Mathlib.Data.List.Basic

/-!
# Fallible code with a state

Code of the sources that reads and changes a state and may fail on the way. An error does not
undo anything: the state keeps what was done before it.

`bind_of_ok` and `bind_of_error` run a sequence of steps one by one, and `bind_eq_ok` takes a
successful run apart.
-/

namespace Ubiq.Foundation

/-- Code that changes a state of type `σ` and may fail; what it did before an error stays so. -/
abbrev Stateful (ε σ α : Type) := ExceptT ε (StateM σ) α

namespace Stateful

variable {ε σ α β : Type} {first : Stateful ε σ α} {rest : α → Stateful ε σ β} {state next : σ}

/-- A computation that has no access to the state. -/
def ofExcept (result : Except ε α) : Stateful ε σ α := fun state => (result, state)

/-- A step that succeeds is followed by the rest of the code. -/
theorem bind_of_ok {value : α} (h : first state = (.ok value, next))
    (rest : α → Stateful ε σ β) : (first >>= rest) state = rest value next := by
  show (ExceptT.bind first rest) state = _
  simp only [ExceptT.bind, ExceptT.mk, bind, StateT.bind]
  rw [show first state = (Except.ok value, next) from h]
  rfl

/-- A step that fails is the end of the code. -/
theorem bind_of_error {err : ε} (h : first state = (.error err, next))
    (rest : α → Stateful ε σ β) : (first >>= rest) state = (.error err, next) := by
  show (ExceptT.bind first rest) state = _
  simp only [ExceptT.bind, ExceptT.mk, bind, StateT.bind]
  rw [show first state = (Except.error err, next) from h]
  rfl

/-- Every step of code that succeeds has succeeded. -/
theorem bind_eq_ok {result : β} :
    (first >>= rest) state = (.ok result, next) ↔
      ∃ value middle, first state = (.ok value, middle) ∧ rest value middle = (.ok result, next) := by
  constructor
  · intro h
    rcases hfirst : first state with ⟨err | value, middle⟩
    · rw [bind_of_error hfirst] at h
      cases h
    · rw [bind_of_ok hfirst] at h
      exact ⟨value, middle, rfl, h⟩
  · rintro ⟨value, middle, hfirst, hrest⟩
    rw [bind_of_ok hfirst, hrest]

theorem ofExcept_eq_ok {result : Except ε α} {value : α} :
    (ofExcept result : Stateful ε σ α) state = (.ok value, next) ↔ result = .ok value ∧ next = state := by
  constructor
  · intro h
    cases h
    exact ⟨rfl, rfl⟩
  · rintro ⟨rfl, rfl⟩
    rfl

end Stateful
end Ubiq.Foundation
