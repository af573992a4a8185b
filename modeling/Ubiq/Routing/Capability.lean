import Ubiq.Core.Event

/-!
# Capabilities and routes of the Zig runtime

`capability.zig`: what each transport offers, what may be required of a single transport and of a
route with an ingress, a backbone and an egress. A transport is checked for every flag; a route
is checked for four of the eight (`satisfies_iff` in `RoutePlan`), which cover what
`requirementsFor` asks for (`honours_requirementsFor`).
-/

namespace Ubiq.Capability

open Foundation

inductive Transport
  | memory
  | tcp
  | quic
  | nats
  | natsJetstream
  | kafka
  | redpanda
  | rabbitmq
  | rest
  | websocket
  | sse
deriving DecidableEq, Repr

structure Capabilities where
  reliable : Bool := false
  ordered : Bool := false
  durable : Bool := false
  replay : Bool := false
  bidirectional : Bool := false
  nativeAck : Bool := false
  consumerGroups : Bool := false
  streaming : Bool := false
deriving DecidableEq, Repr

structure Requirements where
  reliable : Bool := false
  ordered : Bool := false
  durable : Bool := false
  replay : Bool := false
  bidirectional : Bool := false
  nativeAck : Bool := false
  consumerGroups : Bool := false
  streaming : Bool := false
deriving DecidableEq, Repr

/-- The fields that the two structures share. -/
inductive Flag
  | reliable
  | ordered
  | durable
  | replay
  | bidirectional
  | nativeAck
  | consumerGroups
  | streaming
deriving DecidableEq, Repr

/-- The field of a flag. -/
def Capabilities.offers (capabilities : Capabilities) : Flag → Bool
  | .reliable => capabilities.reliable
  | .ordered => capabilities.ordered
  | .durable => capabilities.durable
  | .replay => capabilities.replay
  | .bidirectional => capabilities.bidirectional
  | .nativeAck => capabilities.nativeAck
  | .consumerGroups => capabilities.consumerGroups
  | .streaming => capabilities.streaming

/-- The field of a flag. -/
def Requirements.demands (required : Requirements) : Flag → Bool
  | .reliable => required.reliable
  | .ordered => required.ordered
  | .durable => required.durable
  | .replay => required.replay
  | .bidirectional => required.bidirectional
  | .nativeAck => required.nativeAck
  | .consumerGroups => required.consumerGroups
  | .streaming => required.streaming

def Capabilities.satisfies (self : Capabilities) (required : Requirements) : Bool :=
  (!required.reliable || self.reliable) &&
    (!required.ordered || self.ordered) &&
    (!required.durable || self.durable) &&
    (!required.replay || self.replay) &&
    (!required.bidirectional || self.bidirectional) &&
    (!required.nativeAck || self.nativeAck) &&
    (!required.consumerGroups || self.consumerGroups) &&
    (!required.streaming || self.streaming)

structure AdapterProfile where
  transport : Transport
  capabilities : Capabilities
deriving DecidableEq, Repr

def profile (transport : Transport) : AdapterProfile where
  transport := transport
  capabilities :=
    match transport with
    | .memory => { reliable := true, ordered := true, bidirectional := true, nativeAck := true }
    | .tcp => { reliable := true, ordered := true, bidirectional := true, streaming := true }
    | .quic => { reliable := true, ordered := true, bidirectional := true, streaming := true }
    | .nats =>
        { reliable := true, bidirectional := true, nativeAck := false, consumerGroups := true }
    | .natsJetstream =>
        { reliable := true, durable := true, replay := true, bidirectional := true,
          nativeAck := true, consumerGroups := true, streaming := true }
    | .kafka | .redpanda =>
        { reliable := true, ordered := true, durable := true, replay := true, nativeAck := true,
          consumerGroups := true, streaming := true }
    | .rabbitmq =>
        { reliable := true, durable := true, bidirectional := true, nativeAck := true,
          consumerGroups := true }
    | .rest => { reliable := true, bidirectional := true }
    | .websocket => { reliable := true, ordered := true, bidirectional := true, streaming := true }
    | .sse => { reliable := true, ordered := true, streaming := true }

structure RoutePlan where
  ingress : Transport
  backbone : Transport
  egress : Transport
deriving DecidableEq, Repr

def RoutePlan.satisfies (self : RoutePlan) (required : Requirements) : Bool :=
  let backbone := (profile self.backbone).capabilities
  if (required.durable && !backbone.durable) || (required.replay && !backbone.replay) then false
  else
    let ingress := (profile self.ingress).capabilities
    let egress := (profile self.egress).capabilities
    if required.bidirectional && (!ingress.bidirectional || !egress.bidirectional) then false
    else if required.reliable && (!ingress.reliable || !backbone.reliable || !egress.reliable) then
      false
    else true

def requirementsFor : Core.DeliveryGuarantee → Requirements
  | .bestEffort => {}
  | .received => { reliable := true }
  | .processed => { reliable := true, durable := true }

/-! ## Routes -/

namespace RoutePlan

/-- The stages of a route. -/
def stages (plan : RoutePlan) : List Transport :=
  [plan.ingress, plan.backbone, plan.egress]

/-- At least one stage offers the flag. -/
def Offers (plan : RoutePlan) (flag : Flag) : Prop :=
  ∃ stage ∈ plan.stages, (profile stage).capabilities.offers flag = true

instance decidableOffers (plan : RoutePlan) (flag : Flag) : Decidable (plan.Offers flag) :=
  inferInstanceAs (Decidable (∃ stage ∈ plan.stages, _))

/-- An accepted route offers every required flag. -/
def Honours (plan : RoutePlan) (required : Requirements) : Prop :=
  plan.satisfies required = true → ∀ flag, required.demands flag = true → plan.Offers flag

/-- What the check of a route looks at: durability and replay of the backbone, both directions at
the edges, and reliability everywhere. -/
structure Admissible (plan : RoutePlan) (required : Requirements) : Prop where
  durable : required.durable = true → (profile plan.backbone).capabilities.durable = true
  replay : required.replay = true → (profile plan.backbone).capabilities.replay = true
  bidirectional : required.bidirectional = true →
    (profile plan.ingress).capabilities.bidirectional = true ∧
      (profile plan.egress).capabilities.bidirectional = true
  reliable : required.reliable = true → ∀ stage ∈ plan.stages,
    (profile stage).capabilities.reliable = true

/-- The flags that it does not look at. -/
def unchecked : List Flag := [.ordered, .nativeAck, .consumerGroups, .streaming]

variable {plan : RoutePlan} {required : Requirements}

theorem satisfies_iff : plan.satisfies required = true ↔ plan.Admissible required := by
  have hstages : (∀ stage ∈ plan.stages, (profile stage).capabilities.reliable = true) ↔
      (profile plan.ingress).capabilities.reliable = true ∧
        (profile plan.backbone).capabilities.reliable = true ∧
          (profile plan.egress).capabilities.reliable = true := by
    simp [stages]
  constructor
  · intro h
    simp only [satisfies] at h
    split_ifs at h with hlog hedges hall
    simp only [Bool.and_eq_true, Bool.or_eq_true, Bool.not_eq_true', not_or, not_and,
      Bool.not_eq_false] at hlog hedges hall
    refine ⟨hlog.1, hlog.2, hedges, fun hrequired => hstages.mpr ?_⟩
    obtain ⟨⟨hingress, hbackbone⟩, hegress⟩ := hall hrequired
    exact ⟨hingress, hbackbone, hegress⟩
  · rintro ⟨hdurable, hreplay, hbidirectional, hreliable⟩
    rw [hstages] at hreliable
    simp only [satisfies]
    rw [if_neg, if_neg, if_neg]
    · simpa only [Bool.and_eq_true, Bool.or_eq_true, Bool.not_eq_true', not_or, not_and,
        Bool.not_eq_false, and_assoc] using hreliable
    · simpa only [Bool.and_eq_true, Bool.or_eq_true, Bool.not_eq_true', not_or, not_and,
        Bool.not_eq_false] using hbidirectional
    · simpa only [Bool.and_eq_true, Bool.or_eq_true, Bool.not_eq_true', not_or, not_and,
        Bool.not_eq_false] using And.intro hdurable hreplay

/-- A flag that is looked at is offered. -/
theorem Admissible.offers (h : plan.Admissible required) {flag : Flag} (hflag : flag ∉ unchecked)
    (hdemands : required.demands flag = true) : plan.Offers flag := by
  have hbackbone : plan.backbone ∈ plan.stages := by simp [stages]
  cases flag with
  | durable => exact ⟨plan.backbone, hbackbone, h.durable hdemands⟩
  | replay => exact ⟨plan.backbone, hbackbone, h.replay hdemands⟩
  | bidirectional => exact ⟨plan.ingress, by simp [stages], (h.bidirectional hdemands).1⟩
  | reliable => exact ⟨plan.backbone, hbackbone, h.reliable hdemands _ hbackbone⟩
  | _ => exact absurd (by decide) hflag

/-- The check is complete for requirements without the other flags. -/
theorem honours_iff_unchecked :
    plan.Honours required ↔
      (plan.Admissible required →
        ∀ flag ∈ unchecked, required.demands flag = true → plan.Offers flag) := by
  rw [Honours, satisfies_iff]
  refine imp_congr_right fun hadmissible => ⟨fun h flag _ => h flag, fun h flag hdemands => ?_⟩
  by_cases hflag : flag ∈ unchecked
  · exact h flag hflag hdemands
  · exact hadmissible.offers hflag hdemands

/-- The requirements of the delivery guarantees are among the flags that are looked at. -/
theorem honours_requirementsFor (plan : RoutePlan) (guarantee : Core.DeliveryGuarantee) :
    plan.Honours (requirementsFor guarantee) := by
  rw [honours_iff_unchecked]
  intro _ flag hflag hdemands
  have hnone : ∀ flag ∈ unchecked, (requirementsFor guarantee).demands flag = false := by
    cases guarantee <;> decide
  rw [hnone flag hflag] at hdemands
  cases hdemands

end RoutePlan

end Ubiq.Capability
