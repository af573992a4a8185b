import Ubiq.Foundation.Execution

/-!
# Interleaved tasks over a shared store

A `Pool` is a shared store and the tasks in flight. A task is the rest of a call:
performing its next step changes the store and leaves another task, or none when
the call has returned. A schedule starts tasks and advances them in any order.

`annotated_run` is the proof rule. Every task carries an assertion about the
store; a step must establish the assertion of its own rest and must not invalidate
the assertions of the other tasks.
-/

namespace Ubiq.Foundation.Interleaving

variable {σ τ α : Type*}

/-- A shared store and the tasks in flight. -/
structure Pool (σ τ : Type*) where
  store : σ
  tasks : List τ

/-- Start a task, or advance one; `choice` is what the environment decides. -/
inductive Action (τ α : Type*)
  | spawn (task : τ)
  | advance (index : Nat) (choice : α)

/-- Put the rest of a task in its place, or remove the task when it has returned. -/
def replace (tasks : List τ) (index : Nat) : Option τ → List τ
  | some rest => tasks.set index rest
  | none => tasks.eraseIdx index

/-- One step of the pool. -/
def step (perform : σ → τ → α → σ × Option τ) (pool : Pool σ τ) : Action τ α → Pool σ τ
  | .spawn task => { pool with tasks := pool.tasks ++ [task] }
  | .advance index choice =>
      match pool.tasks[index]? with
      -- schedules are arbitrary and may name a task that does not exist
      | none => pool
      | some task =>
          { store := (perform pool.store task choice).1
            tasks := replace pool.tasks index (perform pool.store task choice).2 }

variable {perform : σ → τ → α → σ × Option τ} {pool : Pool σ τ} {index : Nat} {task : τ}
  {inv : σ → Prop} {assertion : σ → τ → Prop}

theorem step_advance_none (h : pool.tasks[index]? = none) (choice : α) :
    step perform pool (.advance index choice) = pool := by
  simp only [step, h]

theorem step_advance_some (h : pool.tasks[index]? = some task) (choice : α) :
    step perform pool (.advance index choice) =
      ⟨(perform pool.store task choice).1,
        replace pool.tasks index (perform pool.store task choice).2⟩ := by
  simp only [step, h]

theorem mem_replace {tasks : List τ} {rest : Option τ} (h : task ∈ replace tasks index rest) :
    rest = some task ∨ task ∈ tasks := by
  cases rest with
  | none => exact Or.inr (List.mem_of_mem_eraseIdx h)
  | some later =>
      rcases List.mem_or_eq_of_mem_set h with hmem | heq
      · exact Or.inr hmem
      · exact Or.inl (congrArg some heq.symm)

/-- A test of the tasks that the advanced task fails sees only the rest of it. -/
theorem any_replace {tasks : List τ} {test : τ → Bool} (h : tasks[index]? = some task)
    (htest : test task = false) (rest : Option τ) :
    (replace tasks index rest).any test = (tasks.any test || rest.any test) := by
  induction tasks generalizing index with
  | nil => cases h
  | cons first others ih =>
      cases index with
      | zero =>
          cases h
          cases rest with
          | none => simp [replace, htest]
          | some later => simp [replace, htest, Bool.or_comm]
      | succ index =>
          have hothers := ih (by simpa using h)
          cases rest with
          | none => simpa [replace, Bool.or_assoc] using congrArg (test first || ·) hothers
          | some later => simpa [replace, Bool.or_assoc] using congrArg (test first || ·) hothers

/-- A shared invariant, and an assertion for every task in flight. -/
structure Annotated (inv : σ → Prop) (assertion : σ → τ → Prop) (pool : Pool σ τ) : Prop where
  store : inv pool.store
  tasks : ∀ task ∈ pool.tasks, assertion pool.store task

theorem Annotated.spawn (h : Annotated inv assertion pool) (htask : assertion pool.store task) :
    Annotated inv assertion (step perform pool (.spawn task)) := by
  refine ⟨h.store, ?_⟩
  exact List.forall_mem_append.mpr ⟨h.tasks, List.forall_mem_singleton.mpr htask⟩

theorem Annotated.advance (h : Annotated inv assertion pool) {choice : α}
    (hperform : ∀ task, pool.tasks[index]? = some task →
      inv (perform pool.store task choice).1 ∧
        ∀ rest, (perform pool.store task choice).2 = some rest →
          assertion (perform pool.store task choice).1 rest)
    (hstable : ∀ task, pool.tasks[index]? = some task →
      ∀ other ∈ pool.tasks, assertion (perform pool.store task choice).1 other) :
    Annotated inv assertion (step perform pool (.advance index choice)) := by
  cases hindex : pool.tasks[index]? with
  | none =>
      rw [step_advance_none hindex]
      exact h
  | some task =>
      rw [step_advance_some hindex]
      obtain ⟨hinv, hrest⟩ := hperform task hindex
      refine ⟨hinv, fun other hother => ?_⟩
      -- the rest of this task, or a task that has only been interfered with
      rcases mem_replace hother with hlater | hold
      · exact hrest other hlater
      · exact hstable task hindex other hold

/-- **Interference freedom.** The premises speak about one step at a time: a new
task is justified, a step keeps the invariant and justifies its rest, and it keeps
the assertions of the other tasks. -/
theorem annotated_run {guard : Pool σ τ → Action τ α → Prop}
    (hspawn : ∀ pool task, guard pool (.spawn task) → inv pool.store →
      assertion pool.store task)
    (hperform : ∀ pool index task choice, task ∈ pool.tasks → pool.tasks[index]? = some task →
      guard pool (.advance index choice) → Annotated inv assertion pool →
      inv (perform pool.store task choice).1 ∧
        ∀ rest, (perform pool.store task choice).2 = some rest →
          assertion (perform pool.store task choice).1 rest)
    (hstable : ∀ pool index task choice, task ∈ pool.tasks → pool.tasks[index]? = some task →
      guard pool (.advance index choice) → Annotated inv assertion pool →
      ∀ other ∈ pool.tasks, assertion (perform pool.store task choice).1 other)
    {schedule : List (Action τ α)} (h : Annotated inv assertion pool)
    (halong : Execution.Along (step perform) guard pool schedule) :
    Annotated inv assertion (Execution.run (step perform) pool schedule) := by
  refine Execution.invariant_run ?_ h halong
  intro pool action hpool hguard
  cases action with
  | spawn task => exact hpool.spawn (hspawn pool task hguard hpool.store)
  | advance index choice =>
      refine hpool.advance (fun task hindex => ?_) fun task hindex => ?_
      · exact hperform pool index task choice (List.mem_of_getElem? hindex) hindex hguard hpool
      · exact hstable pool index task choice (List.mem_of_getElem? hindex) hindex hguard hpool

end Ubiq.Foundation.Interleaving
