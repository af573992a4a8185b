import Mathlib.Tactic

/-!
# Schedules of a deterministic step function

Every system of this development is a step function `σ → α → σ` whose actions
carry the choices of the environment: the argument of a call, the byte at which
a write is torn, the clock reading, the call that runs next. A run is then a
fold over a schedule of actions, and a statement about all interleavings is a
statement about all schedules.

* `run` folds the step function over a schedule.
* `Along` says that each action is taken in a state in which a guard allows it.
* `invariant_run` turns a step lemma into a run lemma, `along_iff` one about guards.
* `trace` records the calls of a run with their replies; `invariant_trace` is the rule for
  statements about a state and the calls that led to it.
* `trace_eq_of_clock` is the simulation rule for calls that carry a clock reading.
-/

namespace Ubiq.Foundation.Execution

variable {σ α : Type*} {step : σ → α → σ} {guard other : σ → α → Prop} {state : σ}
  {schedule : List α} {allowed : α → Prop} {motive : σ → Prop}

/-- Execute a schedule of actions from a state. -/
def run (step : σ → α → σ) (state : σ) (schedule : List α) : σ :=
  schedule.foldl step state

@[simp] theorem run_nil (step : σ → α → σ) (state : σ) : run step state [] = state := rfl

@[simp] theorem run_cons (step : σ → α → σ) (state : σ) (action : α) (rest : List α) :
    run step state (action :: rest) = run step (step state action) rest := rfl

@[simp] theorem run_append (step : σ → α → σ) (state : σ) (first second : List α) :
    run step state (first ++ second) = run step (run step state first) second := by
  simp [run]

/-- Every action of the schedule is taken in a state where `guard` allows it. -/
def Along (step : σ → α → σ) (guard : σ → α → Prop) : σ → List α → Prop
  | _, [] => True
  | state, action :: rest => guard state action ∧ Along step guard (step state action) rest

@[simp] theorem along_nil (step : σ → α → σ) (guard : σ → α → Prop) (state : σ) :
    Along step guard state [] := trivial

@[simp] theorem along_cons (step : σ → α → σ) (guard : σ → α → Prop) (state : σ)
    (action : α) (rest : List α) :
    Along step guard state (action :: rest) ↔
      guard state action ∧ Along step guard (step state action) rest := Iff.rfl

instance decidableAlong (step : σ → α → σ) (guard : σ → α → Prop)
    [∀ state action, Decidable (guard state action)] :
    ∀ (state : σ) (schedule : List α), Decidable (Along step guard state schedule)
  | _, [] => isTrue trivial
  | state, action :: rest =>
      have := decidableAlong step guard (step state action) rest
      inferInstanceAs (Decidable (guard state action ∧ Along step guard (step state action) rest))

@[simp] theorem along_append (step : σ → α → σ) (guard : σ → α → Prop) (state : σ)
    (first second : List α) :
    Along step guard state (first ++ second) ↔
      Along step guard state first ∧ Along step guard (run step state first) second := by
  induction first generalizing state with
  | nil => simp
  | cons action rest ih => simp [ih, and_assoc]

/-- A weaker guard is met as well. -/
theorem Along.imp {weaker : σ → α → Prop}
    (himp : ∀ state action, guard state action → weaker state action)
    (h : Along step guard state schedule) :
    Along step weaker state schedule := by
  induction schedule generalizing state with
  | nil => trivial
  | cons action rest ih => exact ⟨himp _ _ h.1, ih h.2⟩

/-- A guard that is on the actions alone is met along the schedule if every action meets it. -/
theorem along_of_forall (h : ∀ action ∈ schedule, allowed action) :
    Along step (fun _ action => allowed action) state schedule := by
  induction schedule generalizing state with
  | nil => trivial
  | cons action rest ih =>
      obtain ⟨hfirst, hrest⟩ := List.forall_mem_cons.mp h
      exact ⟨hfirst, ih hrest⟩

/-- **Invariant rule.** What every allowed step preserves holds after every
allowed schedule. -/
theorem invariant_run {inv : σ → Prop}
    (hstep : ∀ state action, inv state → guard state action → inv (step state action))
    (hinv : inv state) (halong : Along step guard state schedule) :
    inv (run step state schedule) := by
  induction schedule generalizing state with
  | nil => exact hinv
  | cons action rest ih =>
      obtain ⟨hguard, hrest⟩ := halong
      exact ih (hstep state action hinv hguard) hrest

/-- The invariant rule when the guard is on the actions alone. -/
theorem invariant_run_of_forall
    (hstep : ∀ state action, motive state → allowed action → motive (step state action))
    (hstart : motive state) (hall : ∀ action ∈ schedule, allowed action) :
    motive (run step state schedule) :=
  invariant_run hstep hstart (along_of_forall hall)

/-- An invariant of every step is an invariant of every run. -/
theorem invariant_run_of_step (hstep : ∀ state action, motive state → motive (step state action))
    (hstart : motive state) (schedule : List α) : motive (run step state schedule) :=
  invariant_run_of_forall (fun state action h (_ : True) => hstep state action h) hstart
    fun _ _ => trivial

/-- **Exact guard rule.** Two guards that agree wherever an invariant holds allow the same
schedules among those that a third guard allows, if the steps that the third and the first one allow
preserve the invariant. -/
theorem along_iff_of_along {allowed : σ → α → Prop}
    (hstep : ∀ state action, allowed state action → motive state → guard state action →
      motive (step state action)) (hiff : ∀ state action, allowed state action → motive state →
      (guard state action ↔ other state action)) (hstart : motive state)
    (hall : Along step allowed state schedule) :
    Along step guard state schedule ↔ Along step other state schedule := by
  induction schedule generalizing state with
  | nil => exact Iff.rfl
  | cons action rest ih =>
      obtain ⟨hallowed, hrest⟩ := hall
      have hfirst := hiff state action hallowed hstart
      constructor
      · rintro ⟨hguard, hlater⟩
        exact ⟨hfirst.mp hguard, (ih (hstep state action hallowed hstart hguard) hrest).mp hlater⟩
      · rintro ⟨hother, hlater⟩
        have hguard := hfirst.mpr hother
        exact ⟨hguard, (ih (hstep state action hallowed hstart hguard) hrest).mpr hlater⟩

theorem along_iff_of_forall
    (hstep : ∀ state action, allowed action → motive state → guard state action →
      motive (step state action)) (hiff : ∀ state action, allowed action → motive state →
      (guard state action ↔ other state action)) (hstart : motive state)
    (hall : ∀ action ∈ schedule, allowed action) :
    Along step guard state schedule ↔ Along step other state schedule :=
  along_iff_of_along hstep hiff hstart (along_of_forall hall)

theorem along_iff
    (hstep : ∀ state action, motive state → guard state action → motive (step state action))
    (hiff : ∀ state action, motive state → (guard state action ↔ other state action))
    (hstart : motive state) (schedule : List α) :
    Along step guard state schedule ↔ Along step other state schedule :=
  along_iff_of_forall (fun state action (_ : True) => hstep state action)
    (fun state action _ => hiff state action) hstart fun _ _ => trivial

/-- A schedule that breaks a guard has a first action that does. -/
theorem exists_of_not_along (h : ¬Along step guard state schedule) :
    ∃ first action second, schedule = first ++ action :: second ∧
      ¬guard (run step state first) action := by
  induction schedule generalizing state with
  | nil => exact absurd trivial h
  | cons action rest ih =>
      by_cases hguard : guard state action
      · obtain ⟨first, other, second, rfl, hother⟩ := ih fun hrest => h ⟨hguard, hrest⟩
        exact ⟨action :: first, other, second, rfl, hother⟩
      · exact ⟨[], action, rest, rfl, hguard⟩

/-! ## Calls with replies -/

section Trace

variable {ρ : Type*}

/-- The state after a call. -/
def after (perform : σ → α → σ × ρ) (state : σ) (action : α) : σ :=
  (perform state action).1

/-- The calls of a run with their replies. -/
def trace (perform : σ → α → σ × ρ) : σ → List α → List (α × ρ)
  | _, [] => []
  | state, action :: rest =>
      (action, (perform state action).2) :: trace perform (after perform state action) rest

@[simp] theorem trace_nil (perform : σ → α → σ × ρ) (state : σ) : trace perform state [] = [] := rfl

@[simp] theorem trace_cons (perform : σ → α → σ × ρ) (state : σ) (action : α) (rest : List α) :
    trace perform state (action :: rest) =
      (action, (perform state action).2) :: trace perform (after perform state action) rest := rfl

@[simp] theorem trace_append (perform : σ → α → σ × ρ) (state : σ) (first second : List α) :
    trace perform state (first ++ second) =
      trace perform state first ++ trace perform (run (after perform) state first) second := by
  induction first generalizing state with
  | nil => rfl
  | cons action rest ih => simp [ih]

/-- A split of a trace is a split of the schedule. -/
theorem trace_eq_append {perform : σ → α → σ × ρ} {actions : List α} {before later : List (α × ρ)}
    (h : trace perform state actions = before ++ later) :
    ∃ first second, actions = first ++ second ∧ trace perform state first = before ∧
      trace perform (run (after perform) state first) second = later := by
  induction before generalizing state actions with
  | nil => exact ⟨[], actions, rfl, rfl, h⟩
  | cons call rest ih =>
      cases actions with
      | nil => cases h
      | cons action actions =>
          rw [trace_cons, List.cons_append, List.cons.injEq] at h
          obtain ⟨hcall, hrest⟩ := h
          obtain ⟨first, second, rfl, hfirst, hsecond⟩ := ih hrest
          refine ⟨action :: first, second, rfl, ?_, hsecond⟩
          rw [trace_cons, hcall, hfirst]

/-- **Invariant rule for traces.** What every call preserves, of the state and of the calls so
far, holds after every run. -/
theorem invariant_trace {perform : σ → α → σ × ρ} {motive : σ → List (α × ρ) → Prop}
    (hstep : ∀ state past action, motive state past →
      motive (after perform state action) (past ++ [(action, (perform state action).2)]))
    {past : List (α × ρ)} (hstart : motive state past) (actions : List α) :
    motive (run (after perform) state actions) (past ++ trace perform state actions) := by
  induction actions generalizing state past with
  | nil => simpa using hstart
  | cons action rest ih =>
      have hrest := ih (hstep state past action hstart)
      simpa using hrest

end Trace

/-! ## Simulation -/

section Simulation

variable {τ ρ time : Type*} [Preorder time]

/-- **Simulation rule.** Let two systems that are related at the time of a call give the same reply
to it and be related afterwards. Then they give the same replies to all calls whose times never go
back, and are still related at every later time. -/
theorem trace_eq_of_clock {perform : σ → α → σ × ρ} {spec : τ → α → τ × ρ} {clock : α → time}
    {rel : time → σ → τ → Prop}
    (hmono : ∀ now later state abstract, now ≤ later → rel now state abstract →
      rel later state abstract)
    (hstep : ∀ action state abstract, allowed action → rel (clock action) state abstract →
      (perform state action).2 = (spec abstract action).2 ∧
        rel (clock action) (after perform state action) (after spec abstract action)) {now : time}
    {abstract : τ} (hstart : rel now state abstract) {actions : List α}
    (hall : ∀ action ∈ actions, allowed action)
    (hsorted : (now :: actions.map clock).Pairwise (· ≤ ·)) :
    trace perform state actions = trace spec abstract actions ∧
      ∀ later, (∀ earlier ∈ now :: actions.map clock, earlier ≤ later) →
        rel later (run (after perform) state actions) (run (after spec) abstract actions) := by
  induction actions generalizing now state abstract with
  | nil =>
      refine ⟨rfl, fun later hlater => ?_⟩
      exact hmono now later state abstract (hlater now List.mem_cons_self) hstart
  | cons action rest ih =>
      obtain ⟨hfirst, hrest⟩ := List.forall_mem_cons.mp hall
      obtain ⟨hnow, hclocks⟩ := List.pairwise_cons.mp hsorted
      have hrel := hmono now (clock action) state abstract (hnow _ (by simp)) hstart
      obtain ⟨hreply, hnext⟩ := hstep action state abstract hfirst hrel
      obtain ⟨htrace, hlater⟩ := ih hnext hrest hclocks
      refine ⟨by rw [trace_cons, trace_cons, hreply, htrace], fun later hbound => ?_⟩
      exact hlater later (List.forall_mem_cons.mp hbound).2

end Simulation

end Ubiq.Foundation.Execution
