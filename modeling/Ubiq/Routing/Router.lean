import Ubiq.Foundation.Selection
import Ubiq.Routing.Capability

/-!
# Selection of a transport

`router.zig`: candidates are filtered by what is required of them and by the limits of the policy,
and a loop keeps the one with the highest score, the earlier one among equals. The score is a sum
of the priority and of reciprocals of the metrics, truncated to integers; it never leaves `u128`
(`score_lt`).

The loop is the scan of `Foundation.Selection` (`foldl_consider`), so what `select` returns is the
first of the best among the eligible candidates.
-/

namespace Ubiq.Router

open Foundation
open Capability (Transport profile)

inductive RoutingError
  | noEligibleTransport
  | invalidRequirement
  | invalidCandidate
deriving DecidableEq, Repr

structure Requirements where
  capabilities : Capability.Requirements := {}
  maxPayloadBytes : Nat := 0
  hardDeadlineMs : UInt64 := 0
deriving DecidableEq, Repr

structure Metrics where
  latencyMs : UInt64 := 0
  queueDepth : UInt32 := 0
  costMicrounits : UInt64 := 0
  available : Bool := true
deriving DecidableEq, Repr

structure Candidate where
  transport : Transport
  metrics : Metrics := {}
  securityOk : Bool := true
  payloadLimit : Nat := 0
  priority : UInt16 := 0
deriving DecidableEq, Repr

structure Policy where
  preferLowLatency : Bool := true
  preferLowCost : Bool := false
  maxQueueDepth : UInt32 := 0
  maxMetricAgeMs : UInt64 := 0
deriving DecidableEq, Repr

structure Decision where
  transport : Transport
  score : Nat
  considered : Nat
  reason : Bytes
deriving DecidableEq, Repr

def eligible (candidate : Candidate) (requirements : Requirements) (metricAgeMs : UInt64)
    (policy : Policy) : Bool :=
  if !candidate.metrics.available || !candidate.securityOk then false
  else if policy.maxQueueDepth ≠ 0 && candidate.metrics.queueDepth > policy.maxQueueDepth then false
  else if policy.maxMetricAgeMs ≠ 0 && metricAgeMs > policy.maxMetricAgeMs then false
  else if requirements.maxPayloadBytes ≠ 0 &&
      (candidate.payloadLimit = 0 || candidate.payloadLimit < requirements.maxPayloadBytes) then
    false
  else if !(profile candidate.transport).capabilities.satisfies requirements.capabilities then false
  else if requirements.hardDeadlineMs ≠ 0 &&
      candidate.metrics.latencyMs > requirements.hardDeadlineMs then
    false
  else true

def score (candidate : Candidate) (policy : Policy) : Nat :=
  candidate.priority.toNat * 1000000000 +
    (if policy.preferLowLatency then 1000000000 / (candidate.metrics.latencyMs.toNat + 1) else 0) +
    (if policy.preferLowCost then 1000000000 / (candidate.metrics.costMicrounits.toNat + 1) else 0) +
    1000000 / (candidate.metrics.queueDepth.toNat + 1)

/-- The variables of `select`. -/
structure Search where
  considered : Nat := 0
  selected : Option Candidate := none
  selectedScore : Nat := 0
deriving DecidableEq, Repr

/-- The body of the loop of `select`. -/
def consider (requirements : Requirements) (policy : Policy) (metricAgeMs : UInt64)
    (search : Search) (candidate : Candidate) : Search :=
  if !eligible candidate requirements metricAgeMs policy then
    { search with considered := search.considered + 1 }
  else if search.selected.isNone || score candidate policy > search.selectedScore then
    { considered := search.considered + 1
      selected := some candidate
      selectedScore := score candidate policy }
  else
    { search with considered := search.considered + 1 }

/-- The text in every decision. -/
def reason : Bytes :=
  ascii "required capabilities/security passed; policy ranking selected candidate"

def select (candidates : List Candidate) (requirements : Requirements) (policy : Policy)
    (metricAgeMs : UInt64) : Except RoutingError Decision :=
  let found := candidates.foldl (consider requirements policy metricAgeMs) {}
  match found.selected with
  | none => .error .noEligibleTransport
  | some winner =>
      .ok
        { transport := winner.transport
          score := found.selectedScore
          considered := found.considered
          reason := reason }

/-! ## Scores -/

/-- The arithmetic of `score` stays within `u128`. -/
theorem score_lt (candidate : Candidate) (policy : Policy) : score candidate policy < 2 ^ 128 := by
  have hpriority := candidate.priority.toNat_lt
  have hterm : ∀ (on : Bool) (measure : Nat),
      (if on then 1000000000 / (measure + 1) else 0) ≤ 1000000000 := by
    intro on measure
    split
    · exact Nat.div_le_self _ _
    · exact Nat.zero_le _
  have hlatency := hterm policy.preferLowLatency candidate.metrics.latencyMs.toNat
  have hcost := hterm policy.preferLowCost candidate.metrics.costMicrounits.toNat
  have hqueue := Nat.div_le_self 1000000 (candidate.metrics.queueDepth.toNat + 1)
  unfold score
  omega

/-- The same candidate with metrics that are not worse and a priority that is not lower. -/
structure Improves (candidate improved : Candidate) : Prop where
  transport : improved.transport = candidate.transport
  available : improved.metrics.available = candidate.metrics.available
  securityOk : improved.securityOk = candidate.securityOk
  payloadLimit : improved.payloadLimit = candidate.payloadLimit
  latency : improved.metrics.latencyMs ≤ candidate.metrics.latencyMs
  cost : improved.metrics.costMicrounits ≤ candidate.metrics.costMicrounits
  queue : improved.metrics.queueDepth ≤ candidate.metrics.queueDepth
  priority : candidate.priority ≤ improved.priority

variable {candidate improved : Candidate} {requirements : Requirements} {policy : Policy}
  {metricAgeMs : UInt64} {candidates : List Candidate}

/-- A reciprocal does not fall when its measure does. -/
theorem reciprocal_le (amount : Nat) {less more : Nat} (h : less ≤ more) :
    amount / (more + 1) ≤ amount / (less + 1) :=
  Nat.div_le_div_left (Nat.succ_le_succ h) (Nat.succ_pos less)

theorem Improves.score_le (h : Improves candidate improved) (policy : Policy) :
    score candidate policy ≤ score improved policy := by
  have hpriority := UInt16.le_iff_toNat_le.mp h.priority
  have hlatency := reciprocal_le 1000000000 (UInt64.le_iff_toNat_le.mp h.latency)
  have hcost := reciprocal_le 1000000000 (UInt64.le_iff_toNat_le.mp h.cost)
  have hqueue := reciprocal_le 1000000 (UInt32.le_iff_toNat_le.mp h.queue)
  unfold score
  refine Nat.add_le_add (Nat.add_le_add (Nat.add_le_add ?_ ?_) ?_) hqueue
  · exact Nat.mul_le_mul_right _ hpriority
  · split
    · exact hlatency
    · exact le_rfl
  · split
    · exact hcost
    · exact le_rfl

/-- The filters, one by one. -/
theorem eligible_iff :
    eligible candidate requirements metricAgeMs policy = true ↔
      (candidate.metrics.available = true ∧ candidate.securityOk = true) ∧
      (policy.maxQueueDepth ≠ 0 → candidate.metrics.queueDepth ≤ policy.maxQueueDepth) ∧
      (policy.maxMetricAgeMs ≠ 0 → metricAgeMs ≤ policy.maxMetricAgeMs) ∧
      (requirements.maxPayloadBytes ≠ 0 → candidate.payloadLimit ≠ 0 ∧
        requirements.maxPayloadBytes ≤ candidate.payloadLimit) ∧
      (profile candidate.transport).capabilities.satisfies requirements.capabilities = true ∧
      (requirements.hardDeadlineMs ≠ 0 →
        candidate.metrics.latencyMs ≤ requirements.hardDeadlineMs) := by
  simp only [eligible, Bool.if_false_left, Bool.and_eq_true, Bool.or_eq_true, Bool.not_eq_true',
    decide_eq_false_iff_not, decide_eq_true_eq, not_or, not_and, Bool.not_eq_false, gt_iff_lt,
    UInt32.not_lt, UInt64.not_lt, Nat.not_lt, and_true]

/-- No filter looks at a metric from the other side. -/
theorem Improves.eligible (h : Improves candidate improved)
    (heligible : eligible candidate requirements metricAgeMs policy = true) :
    eligible improved requirements metricAgeMs policy = true := by
  rw [eligible_iff] at heligible ⊢
  obtain ⟨⟨havailable, hsecurity⟩, hqueue, hage, hpayload, hcapabilities, hdeadline⟩ := heligible
  refine ⟨⟨h.available.trans havailable, h.securityOk.trans hsecurity⟩, ?_, hage, ?_, ?_, ?_⟩
  · exact fun hlimit => UInt32.le_trans h.queue (hqueue hlimit)
  · rw [h.payloadLimit]
    exact hpayload
  · rw [h.transport]
    exact hcapabilities
  · exact fun hlimit => UInt64.le_trans h.latency (hdeadline hlimit)

/-! ## The loop -/

section Loop

variable (requirements : Requirements) (policy : Policy) (metricAgeMs : UInt64)

/-- The best of the eligible candidates. -/
def bestOf (candidates : List Candidate) : Option Candidate :=
  Selection.best (fun candidate => eligible candidate requirements metricAgeMs policy)
    (fun candidate => score candidate policy) candidates

/-- The selected candidate stands behind lower scores only, and in front of no higher one. -/
abbrev FirstBest (before : List Candidate) (winner : Candidate) (after : List Candidate) : Prop :=
  Selection.First (fun candidate => eligible candidate requirements metricAgeMs policy)
    (fun candidate => score candidate policy) before winner after

/-- The variables after the loop. -/
def searched (candidates : List Candidate) : Search where
  considered := candidates.length
  selected := bestOf requirements policy metricAgeMs candidates
  selectedScore :=
    ((bestOf requirements policy metricAgeMs candidates).map fun winner => score winner policy).getD 0

/-- One step of the loop is one step of the scan. -/
theorem consider_searched (candidates : List Candidate) (candidate : Candidate) :
    consider requirements policy metricAgeMs (searched requirements policy metricAgeMs candidates)
        candidate =
      searched requirements policy metricAgeMs (candidates ++ [candidate]) := by
  unfold searched bestOf
  cases heligible : eligible candidate requirements metricAgeMs policy with
  | false =>
      rw [Selection.best_concat_of_not_admits]
      · simp [consider, heligible]
      · exact heligible
  | true =>
      rw [Selection.best_concat]
      · cases Selection.best (fun candidate => eligible candidate requirements metricAgeMs policy)
            (fun candidate => score candidate policy) candidates with
        | none => simp [consider, heligible]
        | some incumbent =>
            by_cases hless : score incumbent policy < score candidate policy
            · simp [consider, heligible, hless]
            · simp [consider, heligible, hless]
      · exact heligible

/-- **The loop is the scan.** -/
theorem foldl_consider (candidates : List Candidate) :
    candidates.foldl (consider requirements policy metricAgeMs) {} =
      searched requirements policy metricAgeMs candidates := by
  induction candidates using List.reverseRecOn with
  | nil => rfl
  | append_singleton candidates candidate ih =>
      rw [List.foldl_append, ih, List.foldl_cons, List.foldl_nil, consider_searched]

/-- The decision for a winner among the candidates. -/
def decision (candidates : List Candidate) (winner : Candidate) : Decision where
  transport := winner.transport
  score := score winner policy
  considered := candidates.length
  reason := reason

theorem select_eq (candidates : List Candidate) :
    select candidates requirements policy metricAgeMs =
      match bestOf requirements policy metricAgeMs candidates with
      | none => .error .noEligibleTransport
      | some winner => .ok (decision policy candidates winner) := by
  simp only [select, foldl_consider, searched]
  cases bestOf requirements policy metricAgeMs candidates <;> rfl

end Loop

/-! ## What is selected -/

theorem bestOf_eq_none_iff :
    bestOf requirements policy metricAgeMs candidates = none ↔
      ∀ candidate ∈ candidates, eligible candidate requirements metricAgeMs policy = false :=
  Selection.best_eq_none_iff

theorem select_eq_error_iff {err : RoutingError} :
    select candidates requirements policy metricAgeMs = .error err ↔
      err = .noEligibleTransport ∧
        ∀ candidate ∈ candidates, eligible candidate requirements metricAgeMs policy = false := by
  rw [select_eq, ← bestOf_eq_none_iff]
  cases bestOf requirements policy metricAgeMs candidates with
  | none => simp [eq_comm]
  | some winner => simp

theorem select_eq_ok_iff {result : Decision} :
    select candidates requirements policy metricAgeMs = .ok result ↔
      ∃ before winner after, candidates = before ++ winner :: after ∧
        FirstBest requirements policy metricAgeMs before winner after ∧
        result = decision policy candidates winner := by
  have hbest : ∀ winner, bestOf requirements policy metricAgeMs candidates = some winner ↔
      ∃ before after, candidates = before ++ winner :: after ∧
        FirstBest requirements policy metricAgeMs before winner after :=
    fun winner => Selection.best_eq_some_iff
  rw [select_eq]
  constructor
  · intro h
    split at h
    · cases h
    · next winner hwinner =>
        obtain ⟨before, after, hsplit, hfirst⟩ := (hbest winner).mp hwinner
        exact ⟨before, winner, after, hsplit, hfirst, (Except.ok.inj h).symm⟩
  · rintro ⟨before, winner, after, hsplit, hfirst, rfl⟩
    rw [(hbest winner).mpr ⟨before, after, hsplit, hfirst⟩]

/-- A selected candidate that becomes better is selected again. -/
theorem FirstBest.improve {before after : List Candidate} {winner : Candidate}
    (h : FirstBest requirements policy metricAgeMs before winner after)
    (himproves : Improves winner improved) :
    FirstBest requirements policy metricAgeMs before improved after :=
  Selection.First.improve h (himproves.eligible h.admitted) (himproves.score_le policy)

/-- The score does not depend on the arrangement of the candidates. -/
theorem map_score_select_of_perm {others : List Candidate} (h : candidates.Perm others) :
    (select candidates requirements policy metricAgeMs).map Decision.score =
      (select others requirements policy metricAgeMs).map Decision.score := by
  have hscore : (bestOf requirements policy metricAgeMs candidates).map (score · policy) =
      (bestOf requirements policy metricAgeMs others).map (score · policy) :=
    Selection.map_best_of_perm h
  rw [select_eq, select_eq]
  cases hfirst : bestOf requirements policy metricAgeMs candidates with
  | none =>
      rw [hfirst] at hscore
      rw [Option.map_eq_none_iff.mp hscore.symm]
  | some winner =>
      rw [hfirst, Option.map_some] at hscore
      obtain ⟨rival, hrival, hsame⟩ := Option.map_eq_some_iff.mp hscore.symm
      rw [hrival]
      exact congrArg Except.ok hsame.symm

/-- **The router is optimal and monotone.** It fails exactly if no candidate is eligible, and
otherwise returns the first candidate of maximal score; it stays with a candidate that becomes
better; and its score is that of every arrangement of the candidates. -/
theorem select_optimal (candidates : List Candidate) (requirements : Requirements) (policy : Policy)
    (metricAgeMs : UInt64) :
    (∀ err, select candidates requirements policy metricAgeMs = .error err ↔
      err = .noEligibleTransport ∧
        ∀ candidate ∈ candidates, eligible candidate requirements metricAgeMs policy = false) ∧
    (∀ result, select candidates requirements policy metricAgeMs = .ok result ↔
      ∃ before winner after, candidates = before ++ winner :: after ∧
        FirstBest requirements policy metricAgeMs before winner after ∧
        result = decision policy candidates winner) ∧
    (∀ before winner after improved, candidates = before ++ winner :: after →
      FirstBest requirements policy metricAgeMs before winner after → Improves winner improved →
        FirstBest requirements policy metricAgeMs before improved after ∧
        select (before ++ improved :: after) requirements policy metricAgeMs =
          .ok { decision policy candidates winner with score := score improved policy }) ∧
    ∀ others, candidates.Perm others →
      (select candidates requirements policy metricAgeMs).map Decision.score =
        (select others requirements policy metricAgeMs).map Decision.score := by
  refine ⟨fun _ => select_eq_error_iff, fun _ => select_eq_ok_iff, ?_, fun _ hperm =>
    map_score_select_of_perm hperm⟩
  rintro before winner after improved rfl hfirst himproves
  have hbetter := FirstBest.improve hfirst himproves
  refine ⟨hbetter, select_eq_ok_iff.mpr ⟨before, improved, after, rfl, hbetter, ?_⟩⟩
  simp [decision, himproves.transport]

end Ubiq.Router
