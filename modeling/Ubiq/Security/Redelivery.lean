import Ubiq.Security.Proof

/-!
# Redelivery through the secure transport

`SecureTransport` checks the proof of every envelope before it calls the
application. The brokers keep a message until the subscriber's handler has returned
without an error, and deliver it again.

`VerifyPoP` remembers the nonce before the application runs. When the application
fails, the broker delivers the identical envelope again, and its proof is refused as
a replay. The envelope reaches the application again exactly when the nonce has
been dropped from the replay map in between, which a verification inside the same
window never does.
-/

namespace Ubiq.Security

open Foundation
open Message

/-- `SecureTransport` over an inner transport, with the trust store. -/
structure SecureTransport where
  innerName : Bytes
  resolve : Bytes → Option PublicBundle
  freshness : Int

namespace SecureTransport

/-- `WrapSecureTransport`; the default freshness is two minutes. -/
def wrap (innerName : Bytes) (resolve : Bytes → Option PublicBundle) (freshness : Int) :
    SecureTransport :=
  { innerName := innerName, resolve := resolve
    freshness := if freshness ≤ 0 then 120000 * millisecond else freshness }

def target (transport : SecureTransport) : Bytes :=
  ascii "ubiq://transport/" ++ transport.innerName

/-- `Publish` up to the inner transport. -/
def publish (prims : Primitives) (sign : Bytes → Except Bytes HybridSignature)
    (keyId nonce : Bytes) (transport : SecureTransport) (envelope : Envelope) (now : Int) :
    Except SecurityError Envelope :=
  match newPoP prims sign keyId nonce (ascii "PUBLISH") transport.target
      { envelope with security := none } now with
  | .error err => .error err
  | .ok proof => .ok { envelope with security := some ⟨keyId, proof⟩ }

/-- The handler of `Subscribe` up to its call of `VerifyPoP`. -/
def verification (transport : SecureTransport) (envelope : Envelope) (now : Int) :
    Except SecurityError Verification :=
  match envelope.security with
  | none => .error .unsigned
  | some security =>
      match transport.resolve security.keyId with
      | none => .error (.untrusted security.keyId)
      | some peer =>
          .ok { peer := peer, proof := security.proof, method := ascii "PUBLISH"
                target := transport.target, envelope := { envelope with security := none }
                now := now, maxSkew := transport.freshness }

/-- The handler of `Subscribe` up to its call of the application, which gets the
envelope returned here. -/
def receive (prims : Primitives) (transport : SecureTransport) (replay : Replay)
    (envelope : Envelope) (now : Int) : Replay × Except SecurityError Envelope :=
  match transport.verification envelope now with
  | .error err => (replay, .error err)
  | .ok call =>
      ((verifyPoP prims replay call).1,
        (verifyPoP prims replay call).2.map fun _ => { envelope with security := none })

end SecureTransport

/-! ## A subscriber and its broker -/

/-- The replay map of the provider, the messages that the broker has to deliver, and the
calls of the application with their success. -/
structure Receiver where
  replay : Replay
  queue : List Envelope
  handled : List (Envelope × Bool)

/-- A message arrives at the broker, the broker delivers one, or somebody else uses the
provider. -/
inductive Action
  | arrive (envelope : Envelope)
  | deliver (index : Nat) (now : Int) (succeeds : Bool)
  | verify (call : Verification)
deriving DecidableEq, Repr

namespace Receiver

variable (prims : Primitives) (transport : SecureTransport)

/-- The end of a delivery. The message is acknowledged when the handler returns no
error; otherwise the broker keeps it or puts it back, and can deliver it again. -/
def acknowledge (receiver : Receiver) (index : Nat) (succeeds : Bool) :
    Replay × Except SecurityError Envelope → Receiver
  -- a refused envelope is an error of the handler, too, and stays with the broker
  | (replay, .error _) => { receiver with replay := replay }
  | (replay, .ok unsigned) =>
      { replay := replay
        queue := if succeeds then receiver.queue.eraseIdx index else receiver.queue
        handled := receiver.handled ++ [(unsigned, succeeds)] }

/-- One step; `succeeds` is the result of the application if it is called. -/
def step (receiver : Receiver) : Action → Receiver
  | .arrive envelope => { receiver with queue := receiver.queue ++ [envelope] }
  | .deliver index now succeeds =>
      match receiver.queue[index]? with
      | none => receiver
      | some envelope =>
          receiver.acknowledge index succeeds
            (transport.receive prims receiver.replay envelope now)
  | .verify call => { receiver with replay := (verifyPoP prims receiver.replay call).1 }

/-- The call of `VerifyPoP` that a step makes. -/
def call? (receiver : Receiver) : Action → Option Verification
  | .arrive _ => none
  | .deliver index now _ =>
      receiver.queue[index]?.bind fun envelope => (transport.verification envelope now).toOption
  | .verify call => some call

/-- The visit of the replay map that a step makes. -/
def visit? (receiver : Receiver) (action : Action) : Option (ReplayCache.Visit Bytes) :=
  (receiver.call? transport action).bind (Verification.visit? prims)

/-- The visits of the replay map in a run. -/
def visits (receiver : Receiver) : List Action → List (ReplayCache.Visit Bytes)
  | [] => []
  | action :: rest =>
      (receiver.visit? prims transport action).toList ++
        (receiver.step prims transport action).visits rest

/-- The step accepts a proof with the key. -/
def acceptsKey (key : Bytes) (receiver : Receiver) (action : Action) : Bool :=
  (receiver.visit? prims transport action).any fun visit =>
    ReplayCache.accepts receiver.replay visit && decide (visit.key = key)

/-- The step delivers the envelope and passes it to the application. -/
def passes (receiver : Receiver) (envelope : Envelope) : Action → Bool
  | .deliver index now _ =>
      decide (receiver.queue[index]? = some envelope) &&
        (transport.receive prims receiver.replay envelope now).2.toBool
  | _ => false

end Receiver

/-! ## The replay map along a run -/

section Runs

variable {prims : Primitives} {transport : SecureTransport} {receiver : Receiver}
  {envelope : Envelope} {now : Int}

/-- The visit that the delivery of an envelope makes. -/
def deliveryVisit? (prims : Primitives) (transport : SecureTransport) (envelope : Envelope)
    (now : Int) : Option (ReplayCache.Visit Bytes) :=
  (transport.verification envelope now).toOption.bind (Verification.visit? prims)

theorem receive_replay (replay : Replay) (envelope : Envelope) (now : Int) :
    (transport.receive prims replay envelope now).1 =
      (deliveryVisit? prims transport envelope now).elim replay (ReplayCache.visit replay) := by
  unfold SecureTransport.receive deliveryVisit?
  cases transport.verification envelope now with
  | error err => rfl
  | ok call => exact verifyPoP_replay prims replay call

theorem receive_toBool (replay : Replay) (envelope : Envelope) (now : Int) :
    (transport.receive prims replay envelope now).2.toBool =
      (deliveryVisit? prims transport envelope now).any (ReplayCache.accepts replay) := by
  unfold SecureTransport.receive deliveryVisit?
  cases transport.verification envelope now with
  | error err => rfl
  | ok call =>
      have hverify := verifyPoP_toBool prims replay call
      show Except.toBool (Except.map _ (verifyPoP prims replay call).2) = _
      cases hresult : (verifyPoP prims replay call).2 with
      | error err => rwa [hresult] at hverify
      | ok _ => rwa [hresult] at hverify

theorem acknowledge_replay (receiver : Receiver) (index : Nat) (succeeds : Bool)
    (result : Replay × Except SecurityError Envelope) :
    (receiver.acknowledge index succeeds result).replay = result.1 := by
  obtain ⟨replay, outcome⟩ := result
  cases outcome <;> rfl

theorem step_replay (receiver : Receiver) (action : Action) :
    (receiver.step prims transport action).replay =
      (receiver.visit? prims transport action).elim receiver.replay
        (ReplayCache.visit receiver.replay) := by
  cases action with
  | arrive envelope => rfl
  | verify call => exact verifyPoP_replay prims receiver.replay call
  | deliver index now succeeds =>
      unfold Receiver.visit?
      cases hqueue : receiver.queue[index]? with
      | none => simp [Receiver.step, Receiver.call?, hqueue]
      | some envelope =>
          simp only [Receiver.step, Receiver.call?, hqueue, acknowledge_replay, Option.bind_some]
          exact receive_replay receiver.replay envelope now

/-- The replay map after a run is the result of its visits. -/
theorem run_replay (receiver : Receiver) (actions : List Action) :
    (Execution.run (Receiver.step prims transport) receiver actions).replay =
      Execution.run ReplayCache.visit receiver.replay
        (receiver.visits prims transport actions) := by
  induction actions generalizing receiver with
  | nil => rfl
  | cons action rest ih =>
      rw [Execution.run_cons, ih, Receiver.visits, Execution.run_append, step_replay]
      cases receiver.visit? prims transport action <;> rfl

theorem visits_append (receiver : Receiver) (first second : List Action) :
    receiver.visits prims transport (first ++ second) =
      receiver.visits prims transport first ++
        (Execution.run (Receiver.step prims transport) receiver first).visits prims transport
          second := by
  induction first generalizing receiver with
  | nil => rfl
  | cons action rest ih => simp [Receiver.visits, ih]

/-- A run that does not accept the key makes visits that do not. -/
theorem along_visits {key : Bytes} {actions : List Action}
    (h : Execution.Along (Receiver.step prims transport)
      (fun receiver action => receiver.acceptsKey prims transport key action = false)
      receiver actions) :
    Execution.Along ReplayCache.visit
      (fun cache visit => ¬(ReplayCache.accepts cache visit = true ∧ visit.key = key))
      receiver.replay (receiver.visits prims transport actions) := by
  induction actions generalizing receiver with
  | nil => trivial
  | cons action rest ih =>
      obtain ⟨hnot, hrest⟩ := h
      have hlater := ih hrest
      -- a step makes one visit of the replay map or none
      rw [step_replay] at hlater
      unfold Receiver.acceptsKey at hnot
      unfold Receiver.visits
      cases hvisit : receiver.visit? prims transport action with
      | none =>
          rw [hvisit] at hlater
          exact hlater
      | some visit =>
          rw [hvisit] at hlater hnot
          refine ⟨?_, hlater⟩
          simpa using hnot

/-! ## The second delivery -/

/-- A verification is for the proof of the envelope, and later it is the same. -/
theorem verification_later {security : MessageSecurity} {call : Verification}
    (hsecurity : envelope.security = some security)
    (h : transport.verification envelope now = .ok call) (later : Int) :
    call.proof = security.proof ∧ call.maxSkew = transport.freshness ∧
      transport.verification envelope later = .ok { call with now := later } := by
  unfold SecureTransport.verification at h ⊢
  rw [hsecurity] at h ⊢
  cases hpeer : transport.resolve security.keyId with
  | none => simp [hpeer] at h
  | some peer =>
      simp only [hpeer, Except.ok.injEq] at h ⊢
      subst h
      exact ⟨rfl, rfl, rfl⟩

theorem deliveryVisit?_eq_some {visit : ReplayCache.Visit Bytes}
    (h : deliveryVisit? prims transport envelope now = some visit) :
    ∃ call, transport.verification envelope now = .ok call ∧ check prims call = .ok () ∧
      call.visit = visit := by
  obtain ⟨call, hcall, hvisit⟩ := Option.bind_eq_some_iff.mp h
  cases hverification : transport.verification envelope now with
  | error err => simp [hverification, Except.toOption] at hcall
  | ok other =>
      obtain rfl : other = call := by simpa [hverification, Except.toOption] using hcall
      exact ⟨other, rfl, visit?_eq_some_iff.mp hvisit⟩

/-- The visit of a later delivery inside the window. -/
theorem deliveryVisit?_later {security : MessageSecurity} {later : Int}
    {visit : ReplayCache.Visit Bytes} (hsecurity : envelope.security = some security)
    (h : deliveryVisit? prims transport envelope now = some visit)
    (hfresh : isFresh later security.proof.createdAtMs transport.freshness = true) :
    visit.key = replayKey security.proof ∧ visit.stamp = security.proof.createdAtMs ∧
      deliveryVisit? prims transport envelope later =
        some { visit with cutoff := cutoff later transport.freshness } := by
  obtain ⟨call, hcall, hcheck, rfl⟩ := deliveryVisit?_eq_some h
  obtain ⟨hproof, hskew, hlater⟩ := verification_later hsecurity hcall later
  -- only the clock differs, and the window is met by assumption
  have hcheckLater : check prims { call with now := later } = .ok () :=
    check_later hcheck (by rw [hproof, hskew]; exact hfresh)
  refine ⟨by rw [← hproof]; rfl, by rw [← hproof]; rfl, ?_⟩
  rw [deliveryVisit?, hlater]
  show Verification.visit? prims { call with now := later } = _
  rw [visit?_eq_some_iff.mpr ⟨hcheckLater, rfl⟩, ← hskew]
  rfl

theorem passes_iff {index : Nat} {succeeds : Bool} :
    receiver.passes prims transport envelope (.deliver index now succeeds) = true ↔
      receiver.queue[index]? = some envelope ∧
        ∃ visit, deliveryVisit? prims transport envelope now = some visit ∧
          ReplayCache.accepts receiver.replay visit = true := by
  rw [Receiver.passes, Bool.and_eq_true, decide_eq_true_eq, receive_toBool, Option.any_eq_true]

theorem visit?_deliver {index : Nat} (now : Int) (succeeds : Bool)
    (hqueue : receiver.queue[index]? = some envelope) :
    receiver.visit? prims transport (.deliver index now succeeds) =
      deliveryVisit? prims transport envelope now := by
  simp [Receiver.visit?, Receiver.call?, hqueue, deliveryVisit?]

end Runs

/-- A delivery on which the application failed, and a later delivery of the same envelope
inside the freshness window. In between, the broker and other users of the provider
do what they like, but nobody else has the same holder and nonce accepted. -/
structure Retry (prims : Primitives) (transport : SecureTransport) where
  receiver : Receiver
  envelope : Envelope
  security : MessageSecurity
  index : Nat
  now : Int
  between : List Action
  again : Nat
  later : Int
  signed : envelope.security = some security
  failed : receiver.passes prims transport envelope (.deliver index now false) = true
  apart : Execution.Along (Receiver.step prims transport)
    (fun receiver action => receiver.acceptsKey prims transport (replayKey security.proof)
      action = false)
    (receiver.step prims transport (.deliver index now false)) between
  queued : (Execution.run (Receiver.step prims transport)
    (receiver.step prims transport (.deliver index now false)) between).queue[again]? =
      some envelope
  fresh : isFresh later security.proof.createdAtMs transport.freshness = true

namespace Retry

variable {prims : Primitives} {transport : SecureTransport}

/-- The receiver after the failed delivery. -/
def start (retry : Retry prims transport) : Receiver :=
  retry.receiver.step prims transport (.deliver retry.index retry.now false)

/-- The second delivery, which succeeds if the application gets the envelope. -/
def redelivery (retry : Retry prims transport) : Action :=
  .deliver retry.again retry.later true

/-- The second delivery passes the envelope to the application. -/
def Passed (retry : Retry prims transport) : Prop :=
  (Execution.run (Receiver.step prims transport) retry.start retry.between).passes prims transport
    retry.envelope retry.redelivery = true

instance (retry : Retry prims transport) : Decidable retry.Passed :=
  inferInstanceAs (Decidable (_ = true))

/-- The visits of the replay map after the failed delivery, up to the second one. -/
def visits (retry : Retry prims transport) : List (ReplayCache.Visit Bytes) :=
  retry.start.visits prims transport (retry.between ++ [retry.redelivery])

end Retry

/-- Every envelope on which the application failed is passed to it again. -/
def Redelivers (prims : Primitives) (transport : SecureTransport) : Prop :=
  ∀ retry : Retry prims transport, retry.Passed

/-- The second delivery passes exactly when the replay map has dropped the nonce. -/
theorem Retry.passed_iff {prims : Primitives} {transport : SecureTransport}
    (retry : Retry prims transport) :
    retry.Passed ↔
      ∃ visit ∈ retry.visits, retry.security.proof.createdAtMs < visit.cutoff := by
  obtain ⟨hqueue, visit, hvisit, haccepts⟩ := passes_iff.mp retry.failed
  obtain ⟨hkey, hstamp, hlater⟩ := deliveryVisit?_later retry.signed hvisit retry.fresh
  -- the first delivery has recorded the nonce
  have hentry : retry.start.replay visit.key = some retry.security.proof.createdAtMs := by
    rw [Retry.start, step_replay, visit?_deliver retry.now false hqueue, hvisit,
      Option.elim_some, ← hstamp]
    exact ReplayCache.visit_of_accepts haccepts
  -- the message is still with the broker, and its delivery makes the last visit
  have hqueued : (Execution.run (Receiver.step prims transport) retry.start
      retry.between).queue[retry.again]? = some retry.envelope := retry.queued
  have hvisits : retry.visits = retry.start.visits prims transport retry.between ++
      [{ visit with cutoff := cutoff retry.later transport.freshness }] := by
    rw [Retry.visits, visits_append, Receiver.visits, Retry.redelivery,
      visit?_deliver retry.later true hqueued, hlater]
    rfl
  have hexpired := ReplayCache.accepts_iff_expired
    { visit with cutoff := cutoff retry.later transport.freshness }
    (by rw [hkey]; exact along_visits retry.apart) hentry
  rw [hvisits, ← hexpired, ← run_replay, Retry.Passed, Retry.redelivery, passes_iff]
  constructor
  · rintro ⟨-, other, hother, haccept⟩
    obtain rfl : _ = other := Option.some.inj (hlater.symm.trans hother)
    exact haccept
  · exact fun haccept => ⟨hqueued, _, hlater, haccept⟩

/-- **A failed envelope is passed on again exactly when its nonce has expired**: a visit of
the replay map since then had a cutoff behind the creation of the proof. With one
window and a clock that does not run backwards, no such visit exists. -/
theorem passed_iff_expired {prims : Primitives} {transport : SecureTransport}
    (retry : Retry prims transport) :
    (retry.Passed ↔
        ∃ visit ∈ retry.visits, retry.security.proof.createdAtMs < visit.cutoff) ∧
      (0 ≤ transport.freshness → transport.freshness < 2 ^ 62 →
        (∀ visit ∈ retry.visits, visit.cutoff ≤ cutoff retry.later transport.freshness) →
        ¬retry.Passed) := by
  refine ⟨retry.passed_iff, fun hpositive hsmall hvisits hpassed => ?_⟩
  obtain ⟨visit, hmem, hlt⟩ := retry.passed_iff.mp hpassed
  have hcutoff := cutoff_le_of_isFresh_later le_rfl hpositive hsmall hsmall (by omega) retry.fresh
  have hvisit := hvisits visit hmem
  omega

/-! ## An order whose handler fails -/

/-- A JSON object of texts and raw values that need no escapes. -/
def plainObject (fields : List (String × Bytes)) : Bytes :=
  ascii "\x7b" ++ ((fields.map fun (name, value) =>
    ascii "\"" ++ ascii name ++ ascii "\":" ++ value).intersperse (ascii ",")).flatten ++
    ascii "\x7d"

/-- A JSON string that needs no escapes. -/
def plainText (text : Bytes) : Bytes :=
  ascii "\"" ++ text ++ ascii "\""

/-- The JSON of an unsigned envelope without characters to escape. -/
def plainEnvelope (envelope : Envelope) : Bytes :=
  plainObject [("id", plainText envelope.id), ("event", plainText envelope.event),
    ("correlation_id", plainText envelope.correlationId),
    ("causation_id", plainText envelope.causationId),
    ("idempotency_key", plainText envelope.idempotencyKey),
    ("schema_id", plainText envelope.schemaId), ("payload", envelope.payload),
    ("guarantee", plainText envelope.guarantee.text),
    ("created_at_ms", Numeral.digits 10 envelope.createdAtMs.toNat)]

/-- The JSON of a proof without characters to escape. -/
def plainPoP (proof : UnsignedPoP) : Bytes :=
  plainObject [("holder", plainText proof.holder),
    ("created_at_ms", Numeral.digits 10 proof.createdAtMs.toNat),
    ("nonce", plainText proof.nonce), ("method", plainText proof.method),
    ("target", plainText proof.target), ("envelope_hash", plainText proof.envelopeHash)]

/-- Primitives for one order: `sha256` is its digest, and all signatures are valid. -/
def orderPrimitives : Primitives where
  jsonValid _ := true
  marshalEnvelope envelope := .ok (plainEnvelope envelope)
  marshalPoP proof := .ok (plainPoP proof)
  sha256 _ := [240, 162, 198, 118, 201, 142, 44, 157, 215, 63, 23, 68, 206, 59, 215, 48, 123, 30,
    225, 227, 143, 17, 237, 184, 46, 58, 50, 202, 166, 107, 115, 156]
  ed25519Verify _ _ _ := true
  mldsaPublicKey key := .ok key
  mldsaVerify _ _ _ _ := .ok ()

/-- The order. -/
def order : Envelope where
  id := ascii "e1"
  event := ascii "orders.created.request"
  correlationId := ascii "c1"
  idempotencyKey := ascii "k1"
  schemaId := ascii "s1"
  payload := ascii "\x7b\x7d"
  guarantee := .processed
  createdAtMs := 1000

/-- The keys of the sender. -/
def alice : PublicBundle where
  keyId := ascii "alice"
  ed25519 := List.replicate 32 7
  mldsa44 := [1]
  x25519 := [2]
  mlkem768 := [3]

/-- A transport over `orders` that trusts the sender, with the given freshness. -/
def ordersTransport (freshness : Int) : SecureTransport :=
  .wrap (ascii "orders") (fun id => if id = alice.keyId then some alice else none) freshness

/-- The order as the sender publishes it. -/
def publishedOrder (nonce : Bytes) (now : Int) : Envelope :=
  ((ordersTransport 0).publish orderPrimitives (fun _ => .ok ⟨[4], [5]⟩) alice.keyId nonce order
    now).toOption.getD order

/-- The security header of the published order. -/
def orderSecurity (nonce : Bytes) (now : Int) : MessageSecurity :=
  (publishedOrder nonce now).security.getD ⟨[], ⟨[], 0, [], [], [], [], ⟨[], []⟩⟩⟩

/-- The order waits at the broker. -/
def waiting : Receiver :=
  ⟨fun _ => none, [publishedOrder [9] (1 * second)], []⟩

/-- The handler fails at two seconds, and the order is delivered again at three. -/
def promptRetry : Retry orderPrimitives (ordersTransport 0) where
  receiver := waiting
  envelope := publishedOrder [9] (1 * second)
  security := orderSecurity [9] (1 * second)
  index := 0
  now := 2 * second
  between := []
  again := 0
  later := 3 * second
  signed := by decide +kernel
  failed := by decide +kernel
  apart := trivial
  queued := by decide +kernel
  fresh := by decide +kernel

/-- In between, a transport with a freshness of one second verifies another proof of the
same provider. -/
def prunedRetry : Retry orderPrimitives (ordersTransport 0) where
  receiver := waiting
  envelope := publishedOrder [9] (1 * second)
  security := orderSecurity [9] (1 * second)
  index := 0
  now := 2 * second
  between := [.verify
    { peer := alice, proof := (orderSecurity [8] (30 * second)).proof, method := ascii "PUBLISH"
      target := (ordersTransport 0).target, envelope := order, now := 30 * second
      maxSkew := 1 * second }]
  again := 0
  later := 40 * second
  signed := by decide +kernel
  failed := by decide +kernel
  apart := by decide +kernel
  queued := by decide +kernel
  fresh := by decide +kernel

theorem passed_prunedRetry_not_promptRetry : prunedRetry.Passed ∧ ¬promptRetry.Passed :=
  ⟨(passed_iff_expired prunedRetry).1.mpr (by decide +kernel),
    (passed_iff_expired promptRetry).2 (by decide +kernel) (by decide +kernel)
      (by decide +kernel)⟩

/-- **The retried order is refused as a replay.** -/
theorem not_redelivers_promptRetry : ¬Redelivers orderPrimitives (ordersTransport 0) := by
  intro h
  exact absurd (h promptRetry) (by decide +kernel)

end Ubiq.Security
