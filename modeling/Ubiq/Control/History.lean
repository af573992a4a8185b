import Ubiq.Control.Fencing

/-!
# The delivery history

`delivery_history` against the states of the events. `Publish`, `Claim` and `MarkReceived` change
the state of an event with one statement and insert the history row with another one; `Settle`
does both in a transaction; `RequeueExpired` changes states and inserts nothing.

The trail of an event is its rows in the table followed by the inserts that calls in flight have
yet to execute, so without calls in flight it is the table alone.

* `outcome_step` says what one statement does to the states and to the trails.
* `faithful_step_iff` says which statements keep every trail in step with the state of its event.
* `history_iff_recorded` is the same for whole runs.
-/

namespace Ubiq.Control

open Foundation
open Message

/-! ## Lifecycles and trails -/

/-- The successors of a state: an expired event is leased again. -/
def Follows : DeliveryState → DeliveryState → Prop
  | .published, next => next = .leased
  | .leased, next =>
      next = .received ∨ next = .settledOk ∨ next = .settledError ∨ next = .expired
  | .received, next => next = .settledOk ∨ next = .settledError ∨ next = .expired
  | .expired, next => next = .leased
  | .settledOk, _ => False
  | .settledError, _ => False

/-- The states are a path of the lifecycle from its beginning. -/
structure LifecyclePath (states : List DeliveryState) : Prop where
  begins : states.head? = some .published
  chain : states.IsChain Follows

/-- The inserts that calls in flight have yet to execute, in the order of these calls. -/
def outstanding (pending : List Pending) : List HistoryRow :=
  pending.filterMap fun
    | .history row => some row
    | .selectEnvelope _ => none

/-- The states in the rows of an event. -/
def statesOf (event : Bytes) (rows : List HistoryRow) : List DeliveryState :=
  (rows.filter fun row => row.eventId = event).map HistoryRow.state

@[simp] theorem statesOf_nil (event : Bytes) : statesOf event [] = [] := rfl

@[simp] theorem statesOf_append (event : Bytes) (first second : List HistoryRow) :
    statesOf event (first ++ second) = statesOf event first ++ statesOf event second := by
  simp [statesOf]

theorem statesOf_cons (event : Bytes) (row : HistoryRow) (rest : List HistoryRow) :
    statesOf event (row :: rest) =
      if row.eventId = event then row.state :: statesOf event rest else statesOf event rest := by
  unfold statesOf
  rw [List.filter_cons]
  by_cases hsame : row.eventId = event <;> simp [hsame]

variable {event : Bytes}

theorem statesOf_eq_nil_iff {rows : List HistoryRow} :
    statesOf event rows = [] ↔ ∀ row ∈ rows, row.eventId ≠ event := by
  simp [statesOf]

/-- The rows of every event are a path of the lifecycle that ends in its state. -/
def Database.AccurateHistory (db : Database) : Prop :=
  ∀ event row, db.event event = some row →
    LifecyclePath (statesOf event db.history) ∧
      (statesOf event db.history).getLast? = some row.state

namespace ControlStore

/-- The state of an event. -/
def status (store : ControlStore) (event : Bytes) : Option DeliveryState :=
  (store.db.event event).map EventRow.state

/-- The trail of an event. -/
def trail (store : ControlStore) (event : Bytes) : List DeliveryState :=
  statesOf event (store.db.history ++ outstanding store.pending)

/-- Every trail is a path of the lifecycle that ends in the state of its event. -/
def Faithful (store : ControlStore) : Prop :=
  ∀ event state, store.status event = some state →
    LifecyclePath (store.trail event) ∧ (store.trail event).getLast? = some state

theorem Faithful.accurateHistory {store : ControlStore} (h : store.Faithful)
    (hquiet : outstanding store.pending = []) : store.db.AccurateHistory := by
  intro event row hrow
  -- while no insert is outstanding, the trail is what the table holds
  have htrail : store.trail event = statesOf event store.db.history := by
    rw [trail, hquiet, List.append_nil]
  rw [← htrail]
  refine h event row.state ?_
  rw [status, hrow]
  rfl

end ControlStore

/-- The database refuses the statement. -/
def Action.fails : Action → Bool
  | .publish _ _ fails => fails
  | .claim _ _ _ fails => fails
  | .markReceived _ _ fails => fails
  | .settle _ _ fails => fails
  | .requeueExpired _ fails => fails
  | .resume _ fails => fails

/-- The statements after which the trails are in step with the states. A claim leases an event
whose stored envelope has its id; a settlement finds no insert for its event outstanding; nothing
is overdue when `RequeueExpired` runs; the inserts for one event run in the order of the calls. -/
def Recorded (json : Json) (store : ControlStore) : Action → Prop
  | .claim workerId lease _ _ => workerId ≠ [] → 0 < lease →
      ∀ row ∈ Database.candidate store.db.events,
        ∃ envelope ∈ json.unmarshal row.envelope, envelope.id = row.id
  | .settle frame now _ => (frame.kind = .settledOk ∨ frame.kind = .settledError) →
      frame.validate = .ok () → ∀ row ∈ store.db.events, Database.settleable frame now row = true →
        ∀ waiting ∈ outstanding store.pending, waiting.eventId ≠ frame.eventId
  | .requeueExpired now _ => ∀ row ∈ store.db.events, Database.overdue now row = false
  | .resume index _ => ∀ row ∈ outstanding store.pending[index]?.toList,
      ∀ earlier ∈ outstanding (store.pending.take index), earlier.eventId ≠ row.eventId
  | .publish _ _ _ => True
  | .markReceived _ _ _ => True

instance decidableRecorded (json : Json) (store : ControlStore) :
    ∀ action, Decidable (Recorded json store action)
  | .claim _ _ _ _ => inferInstanceAs (Decidable (_ → _ → _))
  | .settle _ _ _ => inferInstanceAs (Decidable (_ → _ → _))
  | .requeueExpired _ _ => inferInstanceAs (Decidable (∀ row ∈ store.db.events, _))
  | .resume _ _ => inferInstanceAs (Decidable (∀ row ∈ outstanding _, _))
  | .publish _ _ _ => instDecidableTrue
  | .markReceived _ _ _ => instDecidableTrue

/-! ## What a statement does -/

/-- A state that an event can take next; without a row it can be published. -/
def Legal : Option DeliveryState → DeliveryState → Prop
  | none, next => next = .published
  | some state, next => Follows state next

/-- What a successful statement does to the states, to the table and to the outstanding inserts,
and when it counts as recorded. -/
inductive Outcome (store : ControlStore) (recorded : Prop) (next : ControlStore) : Prop
  | silent (hstatus : next.status = store.status) (hwritten : next.db.history = store.db.history)
      (houtstanding : outstanding next.pending = outstanding store.pending) (hrecorded : recorded)
  | moved (event : Bytes) (target : DeliveryState) (rows : List HistoryRow)
      (hlegal : Legal (store.status event) target) (hexpired : target ≠ .expired)
      (hstatus : next.status = Function.update store.status event (some target))
      (hwritten : next.db.history = store.db.history)
      (houtstanding : outstanding next.pending = outstanding store.pending ++ rows)
      (hrows : rows = [] ∨ ∃ row, rows = [row] ∧ row.state = target)
      (hrecorded : recorded ↔ rows.map HistoryRow.eventId = [event])
      (hknown : recorded ∨ ∃ state, store.status event = some state)
  | settled (row : HistoryRow) (state : DeliveryState)
      (hbefore : store.status row.eventId = some state) (hlegal : Follows state row.state)
      (hsettled : row.state.settled = true)
      (hstatus : next.status = Function.update store.status row.eventId (some row.state))
      (hwritten : next.db.history = store.db.history ++ [row])
      (houtstanding : outstanding next.pending = outstanding store.pending)
      (hrecorded : recorded ↔ ∀ waiting ∈ outstanding store.pending, waiting.eventId ≠ row.eventId)
  | swept (hwritten : next.db.history = store.db.history)
      (houtstanding : outstanding next.pending = outstanding store.pending)
      (hrecorded : recorded → next.status = store.status)
      (hunrecorded : ¬recorded → ∃ event state, store.status event = some state ∧
        state ≠ .expired ∧ next.status event = some .expired)
  | flushed (before : List HistoryRow) (row : HistoryRow) (after : List HistoryRow)
      (hstatus : next.status = store.status)
      (hwritten : next.db.history = store.db.history ++ [row])
      (hbefore : outstanding store.pending = before ++ row :: after)
      (houtstanding : outstanding next.pending = before ++ after)
      (hrecorded : recorded ↔ ∀ earlier ∈ before, earlier.eventId ≠ row.eventId)

/-! ## Trails and states -/

theorem Follows.ne {state next : DeliveryState} (h : Follows state next) : state ≠ next := by
  rintro rfl
  cases state <;> simp [Follows] at h

theorem LifecyclePath.concat {states : List DeliveryState} (h : LifecyclePath states)
    {state next : DeliveryState} (hlast : states.getLast? = some state)
    (hnext : Follows state next) : LifecyclePath (states ++ [next]) where
  begins := by
    rw [List.head?_append, h.begins]
    rfl
  chain := by
    refine List.isChain_append.mpr ⟨h.chain, List.isChain_singleton _, ?_⟩
    intro first hfirst second hsecond
    obtain rfl : state = first := Option.some.inj (hlast.symm.trans hfirst)
    obtain rfl : next = second := Option.some.inj hsecond
    exact hnext

/-- How far an event without expiry has come. -/
def rank : DeliveryState → Nat
  | .published => 0
  | .leased => 1
  | .received => 2
  | _ => 3

/-- Without expiry a path never returns to a state. -/
theorem pairwise_rank {states : List DeliveryState} (h : states.IsChain Follows)
    (hexpired : .expired ∉ states) :
    states.Pairwise fun first second => rank first < rank second := by
  have hranks : states.IsChain fun first second => rank first < rank second := by
    induction states with
    | nil => exact List.isChain_nil
    | cons first rest ih =>
        rw [List.isChain_cons] at h ⊢
        refine ⟨fun second hsecond => ?_, ih h.2 fun hmem => hexpired (List.mem_cons_of_mem _ hmem)⟩
        have hfollows := h.1 second hsecond
        have hfirst : first ≠ .expired := fun h => hexpired (h ▸ List.mem_cons_self)
        cases first <;> cases second <;> simp_all [Follows, rank]
  exact List.isChain_iff_pairwise.mp hranks

/-- States and trails in step. -/
structure Consistent (status : Bytes → Option DeliveryState)
    (trail : Bytes → List DeliveryState) : Prop where
  faithful : ∀ event state, status event = some state →
    LifecyclePath (trail event) ∧ (trail event).getLast? = some state
  unknown : ∀ event, status event = none → trail event = []

theorem Consistent.extend {status : Bytes → Option DeliveryState}
    {trail : Bytes → List DeliveryState} (h : Consistent status trail) {target : DeliveryState}
    (hlegal : Legal (status event) target) :
    Consistent (Function.update status event (some target))
      (Function.update trail event (trail event ++ [target])) := by
  have hpath : LifecyclePath (trail event ++ [target]) := by
    cases hstatus : status event with
    | none =>
        rw [hstatus] at hlegal
        rw [h.unknown event hstatus, show target = .published from hlegal]
        exact ⟨rfl, List.isChain_singleton _⟩
    | some state =>
        rw [hstatus] at hlegal
        obtain ⟨hpath, hlast⟩ := h.faithful event state hstatus
        exact hpath.concat hlast hlegal
  constructor
  · intro other state hstate
    by_cases hsame : other = event
    · subst hsame
      rw [Function.update_self] at hstate ⊢
      exact ⟨hpath, hstate ▸ List.getLast?_concat⟩
    · rw [Function.update_of_ne hsame] at hstate ⊢
      exact h.faithful other state hstate
  · intro other hnone
    by_cases hsame : other = event
    · subst hsame
      rw [Function.update_self] at hnone
      cases hnone
    · rw [Function.update_of_ne hsame] at hnone ⊢
      exact h.unknown other hnone

/-- The invariant of a recorded run. -/
structure Audited (store : ControlStore) : Prop where
  consistent : Consistent store.status store.trail
  unexpired : ∀ row ∈ store.db.history ++ outstanding store.pending, row.state ≠ .expired

theorem Audited.expired_not_mem {store : ControlStore} (h : Audited store) (event : Bytes) :
    .expired ∉ store.trail event := by
  intro hmem
  obtain ⟨row, hrow, hstate⟩ := List.mem_map.mp hmem
  exact h.unexpired row (List.mem_of_mem_filter hrow) hstate

/-! ## Recorded statements -/

section Outcome

variable {store next : ControlStore} {recorded : Prop} {row : HistoryRow}

theorem trail_eq (store : ControlStore) (event : Bytes) :
    store.trail event =
      statesOf event store.db.history ++ statesOf event (outstanding store.pending) :=
  statesOf_append _ _ _

theorem trail_of_same (hwritten : next.db.history = store.db.history)
    (houtstanding : outstanding next.pending = outstanding store.pending) :
    next.trail = store.trail := by
  funext event
  rw [trail_eq, trail_eq, hwritten, houtstanding]

/-- One more insert behind the outstanding ones. -/
theorem trail_of_outstanding (hwritten : next.db.history = store.db.history)
    (houtstanding : outstanding next.pending = outstanding store.pending ++ [row]) :
    next.trail =
      Function.update store.trail row.eventId (store.trail row.eventId ++ [row.state]) := by
  funext other
  rw [Function.update_apply, trail_eq, trail_eq, hwritten, houtstanding, statesOf_append,
    statesOf_cons, statesOf_nil, trail_eq, ← List.append_assoc]
  by_cases hsame : other = row.eventId
  · rw [if_pos hsame, if_pos hsame.symm, hsame]
  · rw [if_neg hsame, if_neg (Ne.symm hsame), List.append_nil]

/-- One more row in the table while nothing is outstanding for its event. -/
theorem trail_of_written (hwritten : next.db.history = store.db.history ++ [row])
    (houtstanding : outstanding next.pending = outstanding store.pending)
    (hnone : ∀ waiting ∈ outstanding store.pending, waiting.eventId ≠ row.eventId) :
    next.trail =
      Function.update store.trail row.eventId (store.trail row.eventId ++ [row.state]) := by
  funext other
  rw [Function.update_apply, trail_eq, trail_eq, hwritten, houtstanding, statesOf_append,
    statesOf_cons, statesOf_nil, trail_eq]
  by_cases hsame : other = row.eventId
  · rw [if_pos hsame, if_pos hsame.symm, hsame, statesOf_eq_nil_iff.mpr hnone, List.append_nil,
      List.append_nil]
  · rw [if_neg hsame, if_neg (Ne.symm hsame), List.append_nil]

/-- The first outstanding insert for an event moves into the table. -/
theorem trail_of_flushed {before after : List HistoryRow}
    (hwritten : next.db.history = store.db.history ++ [row])
    (hbefore : outstanding store.pending = before ++ row :: after)
    (houtstanding : outstanding next.pending = before ++ after)
    (hfirst : ∀ earlier ∈ before, earlier.eventId ≠ row.eventId) : next.trail = store.trail := by
  funext event
  rw [trail_eq, trail_eq, hwritten, houtstanding, hbefore]
  simp only [statesOf_append, statesOf_cons, statesOf_nil]
  split_ifs with hsame
  · rw [← hsame, statesOf_eq_nil_iff.mpr hfirst]
    simp
  · simp

/-- A recorded statement keeps trails and states in step. -/
theorem consistent_of_recorded (h : Consistent store.status store.trail)
    (houtcome : Outcome store recorded next) (hrecorded : recorded) :
    Consistent next.status next.trail := by
  cases houtcome with
  | silent hstatus hwritten houtstanding =>
      rw [hstatus, trail_of_same hwritten houtstanding]
      exact h
  | moved event target rows hlegal hexpired hstatus hwritten houtstanding hrows hiff =>
      obtain ⟨row, rfl, rfl⟩ : ∃ row, rows = [row] ∧ row.state = target := by
        rcases hrows with rfl | hrow
        · cases hiff.mp hrecorded
        · exact hrow
      obtain rfl : row.eventId = event := List.singleton_inj.mp (hiff.mp hrecorded)
      rw [hstatus, trail_of_outstanding hwritten houtstanding]
      exact h.extend hlegal
  | settled row state hbefore hlegal hsettled hstatus hwritten houtstanding hiff =>
      rw [hstatus, trail_of_written hwritten houtstanding (hiff.mp hrecorded)]
      refine h.extend ?_
      rw [hbefore]
      exact hlegal
  | swept hwritten houtstanding hsame =>
      rw [hsame hrecorded, trail_of_same hwritten houtstanding]
      exact h
  | flushed before row after hstatus hwritten hbefore houtstanding hiff =>
      rw [hstatus, trail_of_flushed hwritten hbefore houtstanding (hiff.mp hrecorded)]
      exact h

/-- No statement inserts an expiry. -/
theorem unexpired_of_outcome
    (h : ∀ row ∈ store.db.history ++ outstanding store.pending, row.state ≠ .expired)
    (houtcome : Outcome store recorded next) :
    ∀ row ∈ next.db.history ++ outstanding next.pending, row.state ≠ .expired := by
  cases houtcome with
  | silent hstatus hwritten houtstanding =>
      rw [hwritten, houtstanding]
      exact h
  | swept hwritten houtstanding =>
      rw [hwritten, houtstanding]
      exact h
  | moved event target rows hlegal hexpired hstatus hwritten houtstanding hrows =>
      rw [hwritten, houtstanding, ← List.append_assoc]
      intro row hrow
      rcases List.mem_append.mp hrow with hold | hnew
      · exact h row hold
      · rcases hrows with rfl | ⟨new, rfl, rfl⟩
        · cases hnew
        · rw [List.mem_singleton.mp hnew]
          exact hexpired
  | settled row state hbefore hlegal hsettled hstatus hwritten houtstanding =>
      intro other hother
      rw [hwritten, houtstanding, List.append_assoc, List.mem_append, List.mem_append,
        List.mem_singleton] at hother
      rcases hother with hold | rfl | hold
      · exact h other (List.mem_append_left _ hold)
      · intro hexpired
        rw [hexpired] at hsettled
        cases hsettled
      · exact h other (List.mem_append_right _ hold)
  | flushed before row after hstatus hwritten hbefore houtstanding =>
      intro other hother
      apply h
      rw [hwritten, houtstanding] at hother
      rw [hbefore]
      simp only [List.mem_append, List.mem_cons, List.not_mem_nil, or_false] at hother ⊢
      tauto

theorem audited_of_recorded (h : Audited store) (houtcome : Outcome store recorded next)
    (hrecorded : recorded) : Audited next :=
  ⟨consistent_of_recorded h.consistent houtcome hrecorded,
    unexpired_of_outcome h.unexpired houtcome⟩

/-- Two inserts for one event cannot change places. -/
theorem not_faithful_of_reordered (h : Audited store) {before after : List HistoryRow}
    {earlier : HistoryRow} (hstatus : next.status = store.status)
    (hwritten : next.db.history = store.db.history ++ [row])
    (hbefore : outstanding store.pending = before ++ row :: after)
    (houtstanding : outstanding next.pending = before ++ after) (hearlier : earlier ∈ before)
    (hsame : earlier.eventId = row.eventId) : ¬next.Faithful := by
  intro hfaithful
  have hstate : earlier.state ∈ statesOf row.eventId before :=
    List.mem_map_of_mem (List.mem_filter.mpr ⟨hearlier, decide_eq_true hsame⟩)
  have hold : store.trail row.eventId = statesOf row.eventId store.db.history ++
      (statesOf row.eventId before ++ row.state :: statesOf row.eventId after) := by
    rw [trail_eq, hbefore, statesOf_append, statesOf_cons, if_pos rfl]
  have hnew : next.trail row.eventId = statesOf row.eventId store.db.history ++
      row.state :: (statesOf row.eventId before ++ statesOf row.eventId after) := by
    rw [trail_eq, hwritten, houtstanding, statesOf_append, statesOf_append, statesOf_cons,
      if_pos rfl, statesOf_nil, List.append_assoc]
    rfl
  have hexpired := h.expired_not_mem row.eventId
  have hexpiredNew : .expired ∉ next.trail row.eventId := by
    rw [hold] at hexpired
    rw [hnew]
    simp only [List.mem_append, List.mem_cons] at hexpired ⊢
    tauto
  obtain ⟨current, hcurrent⟩ : ∃ current, store.status row.eventId = some current := by
    rw [← Option.ne_none_iff_exists']
    intro hnone
    have hempty := h.consistent.unknown row.eventId hnone
    rw [hold] at hempty
    simp at hempty
  -- the two inserts come in one order in the old trail and in the other in the new one
  have hranks := pairwise_rank (h.consistent.faithful row.eventId current hcurrent).1.chain
    hexpired
  have hranksNew := pairwise_rank
    (hfaithful row.eventId current (by rw [hstatus, hcurrent])).1.chain hexpiredNew
  rw [hold] at hranks
  rw [hnew] at hranksNew
  have hlt := (List.pairwise_append.mp (List.pairwise_append.mp hranks).2.1).2.2 _ hstate
    row.state List.mem_cons_self
  have hgt := (List.pairwise_cons.mp (List.pairwise_append.mp hranksNew).2.1).1 _
    (List.mem_append_left _ hstate)
  exact Nat.lt_asymm hlt hgt

/-- A statement that is not recorded leaves a trail behind the state of its event, or out of
order. -/
theorem not_faithful_of_unrecorded (h : Audited store) (houtcome : Outcome store recorded next)
    (hunrecorded : ¬recorded) : ¬next.Faithful := by
  intro hfaithful
  cases houtcome with
  | silent _ _ _ hrecorded => exact hunrecorded hrecorded
  | moved event target rows hlegal hexpired hstatus hwritten houtstanding hrows hiff hknown =>
      obtain ⟨state, hstate⟩ := hknown.resolve_left hunrecorded
      rw [hstate] at hlegal
      have hrowsOf : statesOf event rows = [] := by
        rcases hrows with rfl | ⟨row, rfl, -⟩
        · rfl
        · rw [statesOf_cons, if_neg fun hsame => hunrecorded (hiff.mpr (by rw [← hsame]; rfl))]
          rfl
      have htrail : next.trail event = store.trail event := by
        rw [trail_eq, trail_eq, hwritten, houtstanding, statesOf_append, hrowsOf, List.append_nil]
      have hnow := (hfaithful event target (by rw [hstatus, Function.update_self])).2
      have hbefore := (h.consistent.faithful event state hstate).2
      rw [htrail, hbefore] at hnow
      exact Follows.ne hlegal (Option.some.inj hnow)
  | settled row state hbefore hlegal hsettled hstatus hwritten houtstanding hiff =>
      have hwaiting : statesOf row.eventId (outstanding store.pending) ≠ [] :=
        fun hnone => hunrecorded (hiff.mpr (statesOf_eq_nil_iff.mp hnone))
      have hnow := (hfaithful row.eventId row.state (by rw [hstatus, Function.update_self])).2
      have hlast := (h.consistent.faithful row.eventId state hbefore).2
      -- the trail still ends with the insert that is outstanding
      rw [trail_eq, houtstanding, List.getLast?_append_of_ne_nil _ hwaiting] at hnow
      rw [trail_eq, List.getLast?_append_of_ne_nil _ hwaiting, hnow] at hlast
      exact hlegal.ne (Option.some.inj hlast).symm
  | swept hwritten houtstanding _ hswept =>
      obtain ⟨event, state, hstate, hne, hexpired⟩ := hswept hunrecorded
      have htrail : next.trail event = store.trail event := by
        rw [trail_eq, trail_eq, hwritten, houtstanding]
      have hnow := (hfaithful event .expired hexpired).2
      rw [htrail, (h.consistent.faithful event state hstate).2] at hnow
      exact hne (Option.some.inj hnow)
  | flushed before row after hstatus hwritten hbefore houtstanding hiff =>
      simp only [hiff, not_forall, not_not] at hunrecorded
      obtain ⟨earlier, hearlier, hsame⟩ := hunrecorded
      exact not_faithful_of_reordered h hstatus hwritten hbefore houtstanding hearlier hsame
        hfaithful

end Outcome

/-! ## The outcome of every statement -/

theorem outstanding_append (first second : List Pending) :
    outstanding (first ++ second) = outstanding first ++ outstanding second :=
  List.filterMap_append

variable {store : ControlStore} {row : EventRow}

/-- A call that leaves the tables alone and inserts no history. -/
theorem outcome_of_idle {recorded : Prop} {effect : Effect}
    (hidle : effect.Idle store.db) (hrecorded : recorded) :
    Outcome store recorded ⟨effect.db, store.pending ++ effect.pending⟩ := by
  have hnothing : outstanding effect.pending = [] := by
    refine List.filterMap_eq_nil_iff.mpr fun pending hmem => ?_
    cases pending with
    | history row => exact absurd hmem (hidle.pending row)
    | selectEnvelope idempotencyKey => rfl
  refine .silent ?_ (congrArg Database.history hidle.db) ?_ hrecorded
  · funext event
    simp only [ControlStore.status, hidle.db]
  · rw [outstanding_append, hnothing, List.append_nil]

/-- A guarded update of one event shows in its state alone. -/
theorem status_updateEvents {db : Database} {test : EventRow → Bool} {change : EventRow → EventRow}
    (hkey : ∀ row, (change row).id = row.id) (hrow : db.event event = some row)
    (hpass : test row = true) (htest : ∀ other, test other = true → other.id = event) :
    (fun id => ((db.updateEvents test change).event id).map EventRow.state) =
      Function.update (fun id => (db.event id).map EventRow.state) event
        (some (change row).state) := by
  funext id
  rw [Function.update_apply]
  split_ifs with hsame
  · rw [hsame, event_updateEvents hkey, hrow, Option.map_some, if_pos hpass, Option.map_some]
  · rw [Simulates.event_updateEvents_ne hkey htest (Ne.symm hsame)]

theorem outcome_publish (json : Json) (store : ControlStore) (envelope : Envelope) (now : Int) :
    Outcome store True (store.step json (.publish envelope now false)) := by
  show Outcome store True ⟨(publish json store.db envelope now false).db,
    store.pending ++ (publish json store.db envelope now false).pending⟩
  rcases publish_cases json store.db envelope now false with
    hidle | ⟨row, hid, hfresh, hnew, -, -, heffect⟩
  · exact outcome_of_idle hidle trivial
  · rw [heffect, ← hid]
    have habsent : store.db.event row.id = none := Table.lookup_eq_none_iff.mpr hnew
    refine .moved row.id .published [_] ?_ (by decide) ?_ rfl
      (outstanding_append _ _) (.inr ⟨_, rfl, rfl⟩) (by simp) (.inl trivial)
    · rw [ControlStore.status, habsent]
      rfl
    · funext event
      rw [Function.update_apply, ControlStore.status, ControlStore.status]
      simp only [Database.event, Table.lookup_concat hnew event]
      by_cases hsame : event = row.id
      · rw [if_pos hsame, if_pos hsame.symm, Option.map_some, hfresh.state]
      · rw [if_neg hsame, if_neg (Ne.symm hsame)]

theorem follows_of_claimable (h : Database.claimable row = true) :
    Follows row.state .leased := by
  simp only [Database.claimable, decide_eq_true_eq] at h
  rcases h with h | h <;> rw [h] <;> exact rfl

theorem outcome_claim (json : Json) (hformed : store.db.WellFormed)
    (workerId : Bytes) (lease now : Int) :
    Outcome store (Recorded json store (.claim workerId lease now false))
      (store.step json (.claim workerId lease now false)) := by
  show Outcome store _ ⟨(claim json store.db workerId lease now false).db,
    store.pending ++ (claim json store.db workerId lease now false).pending⟩
  by_cases harguments : workerId = [] ∨ lease ≤ 0
  · have hnothing : claim json store.db workerId lease now false =
        { db := store.db, reply := .failed .workerAndLease } := if_pos harguments
    rw [hnothing]
    refine outcome_of_idle (Effect.idle_failed _ _) fun hworker hlease => ?_
    exact absurd harguments (not_or.mpr ⟨hworker, not_le.mpr hlease⟩)
  obtain ⟨hworker, hlease⟩ := not_or.mp harguments
  rw [not_le] at hlease
  cases hcandidate : Database.candidate store.db.events with
  | none =>
      rw [claim_of_no_candidate json hworker hlease now hcandidate]
      refine outcome_of_idle (Effect.idle_failed _ _) fun _ _ row hrow => ?_
      rw [hcandidate] at hrow
      cases hrow
  | some row =>
      obtain ⟨hmem, hclaimable⟩ := candidate_spec hcandidate
      have hlookup : store.db.event row.id = some row :=
        (Table.lookup_eq_some_iff hformed.events).mpr ⟨hmem, rfl⟩
      have hbefore : store.status row.id = some row.state := by
        rw [ControlStore.status, hlookup]
        rfl
      have hrecorded : Recorded json store (.claim workerId lease now false) ↔
          ∃ envelope ∈ json.unmarshal row.envelope, envelope.id = row.id := by
        constructor
        · exact fun h => h hworker hlease row hcandidate
        · rintro h - - other hother
          obtain rfl := Option.some.inj (hcandidate.symm.trans hother)
          exact h
      have hstatus := status_updateEvents
        (Database.id_leaseRow workerId (claimUntil now lease) now) hlookup
        (decide_eq_true rfl : decide (row.id = row.id) = true)
        fun other hother => of_decide_eq_true hother
      rw [claim_of_candidate json hformed hworker hlease now hcandidate]
      refine .moved row.id .leased _ (hbefore ▸ follows_of_claimable hclaimable) (by decide)
        hstatus rfl (outstanding_append _ _) ?_ ?_ (.inr ⟨_, hbefore⟩)
      · cases json.unmarshal row.envelope with
        | none => exact .inl rfl
        | some envelope => exact .inr ⟨_, rfl, rfl⟩
      · rw [hrecorded]
        cases json.unmarshal row.envelope with
        | none => simp [outstanding]
        | some envelope => simp [outstanding]

theorem outcome_markReceived (json : Json) (hformed : store.db.WellFormed)
    (frame : ControlFrame) (now : Int) :
    Outcome store True (store.step json (.markReceived frame now false)) := by
  show Outcome store True ⟨(markReceived store.db frame now false).db,
    store.pending ++ (markReceived store.db frame now false).pending⟩
  rcases markReceived_cases hformed frame now false with
    hidle | ⟨row, log, hrow, hpass, hevent, hstate, heffect⟩
  · exact outcome_of_idle hidle trivial
  · rw [heffect]
    have hleased : row.state = .leased := by
      simp only [Database.receivable, decide_eq_true_eq] at hpass
      exact hpass.2.2.2.1
    refine .moved frame.eventId .received [log] ?_ (by decide)
      (status_updateEvents (Database.id_receiveRow now) hrow hpass fun _ => id_of_receivable)
      rfl (outstanding_append _ _) (.inr ⟨log, rfl, hstate⟩) (by simp [hevent]) (.inl trivial)
    rw [ControlStore.status, hrow, Option.map_some, hleased]
    exact .inl rfl

theorem follows_of_settleable {frame : ControlFrame} {now : Int}
    (h : Database.settleable frame now row = true) :
    Follows row.state (settleTarget frame.kind) := by
  simp only [Database.settleable, decide_eq_true_eq] at h
  rcases h.2.2.2.1 with hstate | hstate <;> rw [hstate, settleTarget] <;> split_ifs <;>
    simp [Follows]

theorem outcome_settle (json : Json) (hformed : store.db.WellFormed)
    (frame : ControlFrame) (now : Int) :
    Outcome store (Recorded json store (.settle frame now false))
      (store.step json (.settle frame now false)) := by
  show Outcome store _ ⟨(settle store.db frame now false).db,
    store.pending ++ (settle store.db frame now false).pending⟩
  rcases settle_cases hformed frame now false with
    ⟨hidle, hrefused⟩ | ⟨⟨hkind, hvalid⟩, row, log, hrow, hpass, hevent, hstate, heffect⟩
  · refine outcome_of_idle hidle fun hkind hvalid row hrow hpass => ?_
    exact absurd hpass (hrefused rfl hkind hvalid row hrow)
  · rw [heffect, List.append_nil]
    have hbefore : store.status frame.eventId = some row.state := by
      rw [ControlStore.status, hrow]
      rfl
    refine .settled log row.state (hevent ▸ hbefore) (hstate ▸ follows_of_settleable hpass)
      ?_ ?_ ?_ rfl ?_
    · rw [hstate, settleTarget]
      split_ifs <;> rfl
    · rw [hevent, hstate]
      refine Eq.trans ?_ (status_updateEvents (Database.id_releaseRow _ now) hrow hpass
        fun _ => id_of_settleable)
      funext event
      simp only [ControlStore.status, Database.insertHistory, Database.insertSettlement]
      split_ifs <;> rfl
    · simp only [Database.insertHistory, Database.insertSettlement]
      split_ifs <;> rfl
    · rw [hevent]
      constructor
      · exact fun h => h hkind hvalid row (Table.mem_of_lookup hrow).1 hpass
      · exact fun h _ _ _ _ _ => h

theorem outcome_requeueExpired (json : Json) (hformed : store.db.WellFormed)
    (now : Int) : Outcome store (Recorded json store (.requeueExpired now false))
      (store.step json (.requeueExpired now false)) := by
  refine .swept rfl (by simp [ControlStore.step, ControlStore.effect, requeueExpired]) ?_ ?_
  · intro hnone
    have hzero : Table.affected (Database.overdue now) store.db.events = 0 := by
      rw [Table.affected, List.countP_eq_zero]
      intro row hrow
      rw [hnone row hrow]
      exact Bool.false_ne_true
    have hsame : store.db.updateEvents (Database.overdue now) (Database.releaseRow .expired now) =
        store.db := by
      simp only [Database.updateEvents, Table.update_of_affected_zero hzero]
    funext event
    simp only [ControlStore.status, ControlStore.step, ControlStore.effect, requeueExpired,
      Bool.false_eq_true, if_false, hsame]
  · intro hoverdue
    simp only [Recorded, not_forall, Bool.not_eq_false] at hoverdue
    obtain ⟨row, hrow, hpass⟩ := hoverdue
    have hlookup : store.db.event row.id = some row :=
      (Table.lookup_eq_some_iff hformed.events).mpr ⟨hrow, rfl⟩
    refine ⟨row.id, row.state, ?_, ?_, ?_⟩
    · rw [ControlStore.status, hlookup]
      rfl
    · intro hexpired
      simp [Database.overdue, hexpired] at hpass
    · show ((store.db.updateEvents _ _).event row.id).map EventRow.state = _
      rw [event_updateEvents (Database.id_releaseRow _ now), hlookup, Option.map_some,
        if_pos hpass]
      rfl

/-- The second query of a `Publish` changes nothing. -/
theorem resume_selectEnvelope (json : Json) (db : Database) (idempotencyKey : Bytes) :
    (resume json db (.selectEnvelope idempotencyKey) false).db = db ∧
      (resume json db (.selectEnvelope idempotencyKey) false).pending = [] := by
  simp only [resume, Bool.false_eq_true, if_false]
  cases db.events.find? fun row => row.idempotencyKey = idempotencyKey with
  | none => exact ⟨rfl, rfl⟩
  | some row =>
      simp only
      cases json.unmarshal row.envelope <;> exact ⟨rfl, rfl⟩

theorem split_pending {pending : List Pending} {index : Nat} {call : Pending}
    (h : pending[index]? = some call) :
    outstanding pending = outstanding (pending.take index) ++ outstanding [call] ++
        outstanding (pending.drop (index + 1)) ∧
      outstanding (pending.eraseIdx index) =
        outstanding (pending.take index) ++ outstanding (pending.drop (index + 1)) := by
  obtain ⟨hlt, rfl⟩ := List.getElem?_eq_some_iff.mp h
  constructor
  · rw [← outstanding_append, ← outstanding_append, List.append_assoc, List.singleton_append,
      List.cons_getElem_drop_succ, List.take_append_drop]
  · rw [List.eraseIdx_eq_take_drop_succ, outstanding_append]

theorem outcome_resume (json : Json) (store : ControlStore) (index : Nat) :
    Outcome store (Recorded json store (.resume index false))
      (store.step json (.resume index false)) := by
  simp only [ControlStore.step, ControlStore.effect]
  cases hpending : store.pending[index]? with
  | none =>
      refine .silent rfl rfl ?_ ?_
      · rw [List.append_nil, List.eraseIdx_of_length_le (List.getElem?_eq_none_iff.mp hpending)]
      · simp [Recorded, hpending, outstanding]
  | some call =>
      obtain ⟨hold, hnew⟩ := split_pending hpending
      cases call with
      | history row =>
          refine .flushed (outstanding (store.pending.take index)) row
            (outstanding (store.pending.drop (index + 1))) rfl rfl ?_ ?_ ?_
          · rw [hold, List.append_assoc]
            rfl
          · simp only [resume, List.append_nil, hnew]
          · simp [Recorded, hpending, outstanding]
      | selectEnvelope idempotencyKey =>
          obtain ⟨hdb, hnothing⟩ := resume_selectEnvelope json store.db idempotencyKey
          simp only [hdb, hnothing, List.append_nil]
          refine .silent rfl rfl ?_ ?_
          · show outstanding (store.pending.eraseIdx index) = _
            rw [hold, hnew]
            simp [outstanding]
          · simp [Recorded, hpending, outstanding]

theorem outcome_step (json : Json) (hformed : store.db.WellFormed)
    {action : Action} (hsucceeds : action.fails = false) :
    Outcome store (Recorded json store action) (store.step json action) := by
  cases action with
  | publish envelope now fails =>
      obtain rfl : fails = false := hsucceeds
      exact outcome_publish json store envelope now
  | claim workerId lease now fails =>
      obtain rfl : fails = false := hsucceeds
      exact outcome_claim json hformed workerId lease now
  | markReceived frame now fails =>
      obtain rfl : fails = false := hsucceeds
      exact outcome_markReceived json hformed frame now
  | settle frame now fails =>
      obtain rfl : fails = false := hsucceeds
      exact outcome_settle json hformed frame now
  | requeueExpired now fails =>
      obtain rfl : fails = false := hsucceeds
      exact outcome_requeueExpired json hformed now
  | resume index fails =>
      obtain rfl : fails = false := hsucceeds
      exact outcome_resume json store index

/-! ## Runs -/

/-- **The trails stay in step with the states exactly through recorded statements.** -/
theorem faithful_step_iff (json : Json) (hformed : store.db.WellFormed)
    (haudited : Audited store) {action : Action} (hsucceeds : action.fails = false) :
    (store.step json action).Faithful ↔ Recorded json store action := by
  have houtcome := outcome_step json hformed hsucceeds
  constructor
  · intro hfaithful
    by_contra hunrecorded
    exact not_faithful_of_unrecorded haudited houtcome hunrecorded hfaithful
  · exact fun hrecorded => (audited_of_recorded haudited houtcome hrecorded).consistent.faithful

theorem audited_empty : Audited {} where
  consistent :=
    { faithful := fun event state h => absurd h (Option.some_ne_none state).symm
      unknown := fun event _ => rfl }
  unexpired row hrow := by cases hrow

/-- The trails are in step with the states through a run exactly if its statements are recorded. -/
theorem along_faithful_iff (json : Json) {schedule : List Action}
    (hsucceeds : ∀ action ∈ schedule, action.fails = false) :
    Execution.Along (ControlStore.step json)
        (fun store action => (store.step json action).Faithful) {} schedule ↔
      Execution.Along (ControlStore.step json) (Recorded json) {} schedule := by
  refine Execution.along_iff_of_forall
    (motive := fun store => store.db.WellFormed ∧ Audited store) ?_ ?_
    ⟨⟨List.nodup_nil, List.nodup_nil⟩, audited_empty⟩ hsucceeds
  · rintro store action haction ⟨hformed, haudited⟩ hfaithful
    have hrecorded := (faithful_step_iff json hformed haudited haction).mp hfaithful
    exact ⟨hformed.effect json action,
      audited_of_recorded haudited (outcome_step json hformed haction) hrecorded⟩
  · rintro store action haction ⟨hformed, haudited⟩
    exact faithful_step_iff json hformed haudited haction

/-- **The history is a faithful audit trail exactly in recorded runs.** In a run of statements
that all succeed, every state that is reached is faithful if and only if every statement is
recorded; then the table alone is accurate whenever no insert is outstanding. -/
theorem history_iff_recorded (json : Json) {schedule : List Action}
    (hsucceeds : ∀ action ∈ schedule, action.fails = false) :
    (Execution.Along (ControlStore.step json)
        (fun store action => (store.step json action).Faithful) {} schedule ↔
      Execution.Along (ControlStore.step json) (Recorded json) {} schedule) ∧
    (Execution.Along (ControlStore.step json) (Recorded json) {} schedule →
      ∀ first second, schedule = first ++ second →
        outstanding (ControlStore.run json {} first).pending = [] →
        (ControlStore.run json {} first).db.AccurateHistory) := by
  have hiff := along_faithful_iff json hsucceeds
  refine ⟨hiff, ?_⟩
  rintro hrecorded first second rfl hquiet
  obtain ⟨hfirst, -⟩ := (Execution.along_append _ _ _ _ _).mp (hiff.mpr hrecorded)
  have hfaithful : (ControlStore.run json {} first).Faithful :=
    Execution.invariant_run
      (fun store action _ (hnext : (store.step json action).Faithful) => hnext)
      audited_empty.consistent.faithful hfirst
  exact hfaithful.accurateHistory hquiet

/-- The calls of a worker whose lease is not exceeded, each with its insert. -/
def settledInTime : List Action :=
  [.publish invoice 1000 false, .resume 0 false,
   .claim (ascii "worker-a") 10000000 1001 false, .resume 0 false,
   .settle (settlementBy "worker-a" 1) 1005 false, .requeueExpired 2000 false]

theorem accurateHistory_settledInTime :
    outstanding (ControlStore.run invoiceCodec {} settledInTime).pending = [] ∧
      (ControlStore.run invoiceCodec {} settledInTime).db.AccurateHistory := by
  have hrun : outstanding (ControlStore.run invoiceCodec {} settledInTime).pending = [] ∧
      Execution.Along (ControlStore.step invoiceCodec) (Recorded invoiceCodec) {} settledInTime := by
    decide +kernel
  obtain ⟨-, haccurate⟩ := history_iff_recorded invoiceCodec
    (show ∀ action ∈ settledInTime, action.fails = false by decide)
  exact ⟨hrun.1, haccurate hrun.2 settledInTime [] (List.append_nil _).symm hrun.1⟩

/-- A worker lets its lease of ten milliseconds run out. -/
def expiredLease : List Action :=
  [.publish invoice 1000 false, .resume 0 false,
   .claim (ascii "worker-a") 10000000 1001 false, .resume 0 false, .requeueExpired 1016 false]

/-- No call is in flight, the event has expired, and its history ends with the lease. -/
theorem not_accurateHistory_expiredLease :
    (ControlStore.run invoiceCodec {} expiredLease).pending = [] ∧
      statesOf (ascii "evt-2") (ControlStore.run invoiceCodec {} expiredLease).db.history =
        [.published, .leased] ∧
      ¬(ControlStore.run invoiceCodec {} expiredLease).db.AccurateHistory := by
  have hrun : (ControlStore.run invoiceCodec {} expiredLease).pending = [] ∧
      statesOf (ascii "evt-2") (ControlStore.run invoiceCodec {} expiredLease).db.history =
        [.published, .leased] ∧
      ((ControlStore.run invoiceCodec {} expiredLease).db.event (ascii "evt-2")).map
        EventRow.state = some .expired := by
    decide +kernel
  obtain ⟨hquiet, hhistory, hstate⟩ := hrun
  refine ⟨hquiet, hhistory, ?_⟩
  intro haccurate
  obtain ⟨row, hrow, hexpired⟩ := Option.map_eq_some_iff.mp hstate
  have hlast := (haccurate _ row hrow).2
  rw [hhistory, hexpired] at hlast
  exact absurd hlast (by decide)

end Ubiq.Control
