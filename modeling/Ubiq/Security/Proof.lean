import Ubiq.Foundation.Numeral
import Ubiq.Foundation.ReplayCache
import Ubiq.Message.Model

/-!
# Proofs of possession

`NewPoP` and `VerifyPoP` of `crypto.go`. The primitives (JSON, hashes, signatures)
are parameters. A clock reading is in nanoseconds since the epoch; a `Duration` is
an `int64` of nanoseconds, so `Sub` saturates and the doubled skew can wrap around.

`VerifyPoP` is a stateless part, `check`, followed by a visit of the replay map.
-/

namespace Ubiq.Security

open Foundation
open Message

structure PublicBundle where
  keyId : Bytes
  ed25519 : Bytes
  mldsa44 : Bytes
  x25519 : Bytes
  mlkem768 : Bytes
deriving DecidableEq, Repr

structure UnsignedPoP where
  holder : Bytes
  createdAtMs : Int
  nonce : Bytes
  method : Bytes
  target : Bytes
  envelopeHash : Bytes
deriving DecidableEq, Repr

/-- The functions of the standard library; an error is its text. -/
structure Primitives where
  jsonValid : Bytes → Bool
  marshalEnvelope : Envelope → Except Bytes Bytes
  marshalPoP : UnsignedPoP → Except Bytes Bytes
  sha256 : Bytes → Bytes
  ed25519Verify : (key message signature : Bytes) → Bool
  mldsaPublicKey : Bytes → Except Bytes Bytes
  mldsaVerify : (key message signature context : Bytes) → Except Bytes Unit

/-- The errors of proofs and of the transport that checks them. -/
inductive SecurityError
  | invalidEnvelope (err : ModelError)
  | marshal (text : Bytes)
  | sign (text : Bytes)
  | bindingMismatch
  | outsideFreshness
  | hashMismatch
  | invalidEd25519
  | invalidMldsaKey (text : Bytes)
  | invalidMldsa (text : Bytes)
  | replayed
  | unsigned
  | untrusted (holder : Bytes)
deriving DecidableEq, Repr

/-- The messages; `quote` is the verb `%q` of `fmt`. -/
def SecurityError.message (quote : Bytes → Bytes) : SecurityError → Bytes
  | .invalidEnvelope err => err.message quote
  | .marshal text => text
  | .sign text => text
  | .bindingMismatch => ascii "proof binding mismatch"
  | .outsideFreshness => ascii "proof outside freshness window"
  | .hashMismatch => ascii "proof envelope hash mismatch"
  | .invalidEd25519 => ascii "invalid Ed25519 signature"
  | .invalidMldsaKey text => text
  | .invalidMldsa text => ascii "invalid ML-DSA signature: " ++ text
  | .replayed => ascii "replayed proof"
  | .unsigned => ascii "unsigned UbiQ envelope"
  | .untrusted holder => ascii "untrusted UbiQ holder " ++ quote holder

def mldsaContext : Bytes := ascii "ubiq-envelope-v1"

/-- `hex.EncodeToString`. -/
def hexEncode (text : Bytes) : Bytes :=
  text.flatMap fun c => [Numeral.digitByte (c.toNat / 16), Numeral.digitByte (c.toNat % 16)]

section Checks

variable (prims : Primitives)

def canonicalBytes (envelope : Envelope) : Except SecurityError Bytes :=
  match envelope.validate prims.jsonValid with
  | .error err => .error (.invalidEnvelope err)
  | .ok _ =>
      match prims.marshalEnvelope { envelope with security := none } with
      | .error text => .error (.marshal text)
      | .ok raw => .ok raw

def digestHex (envelope : Envelope) : Except SecurityError Bytes :=
  (canonicalBytes prims envelope).map fun raw => hexEncode (prims.sha256 raw)

/-- `VerifyHybrid`; the length is `ed25519.PublicKeySize`. -/
def verifyHybrid (peer : PublicBundle) (message : Bytes) (signature : HybridSignature) :
    Except SecurityError Unit :=
  -- `ed25519.Verify` panics on a key of another length, which the first test prevents
  if peer.ed25519.length ≠ 32 ∨ !prims.ed25519Verify peer.ed25519 message signature.ed25519 then
    .error .invalidEd25519
  else
    match prims.mldsaPublicKey peer.mldsa44 with
    | .error text => .error (.invalidMldsaKey text)
    | .ok key =>
        match prims.mldsaVerify key message signature.mldsa44 mldsaContext with
        | .error text => .error (.invalidMldsa text)
        | .ok _ => .ok ()

end Checks

/-! ## Time -/

/-- Nanoseconds in a millisecond. -/
def millisecond : Int := 1000000

/-- One second in nanoseconds. -/
def second : Int := 1000 * millisecond

/-- The wrapping of `int64` arithmetic. -/
def wrap (value : Int) : Int := value.bmod (2 ^ 64)

/-- `now.Sub(time.UnixMilli(created))`, which saturates. -/
def elapsed (now created : Int) : Int :=
  max (-2 ^ 63) (min (2 ^ 63 - 1) (now - created * millisecond))

/-- The freshness window. -/
def isFresh (now created maxSkew : Int) : Bool :=
  !(decide (elapsed now created < wrap (-maxSkew)) || decide (elapsed now created > maxSkew))

/-- `now.Add(-2 * maxSkew).UnixMilli()`. -/
def cutoff (now maxSkew : Int) : Int :=
  (now + wrap (-2 * maxSkew)) / millisecond

/-! ## Proofs -/

/-- `NewPoP`; the caller supplies the random nonce and the signer. -/
def newPoP (prims : Primitives) (sign : Bytes → Except Bytes HybridSignature) (keyId nonce : Bytes)
    (method target : Bytes) (envelope : Envelope) (now : Int) :
    Except SecurityError ProofOfPossession :=
  match digestHex prims envelope with
  | .error err => .error err
  | .ok hash =>
      let unsigned : UnsignedPoP :=
        { holder := keyId, createdAtMs := now / millisecond, nonce := hexEncode nonce
          method := method, target := target, envelopeHash := hash }
      match prims.marshalPoP unsigned with
      | .error text => .error (.marshal text)
      | .ok raw =>
          match sign raw with
          | .error text => .error (.sign text)
          | .ok signature =>
              .ok { holder := keyId, createdAtMs := now / millisecond, nonce := hexEncode nonce
                    method := method, target := target, envelopeHash := hash
                    signature := signature }

/-- The arguments of `VerifyPoP`. -/
structure Verification where
  peer : PublicBundle
  proof : ProofOfPossession
  method : Bytes
  target : Bytes
  envelope : Envelope
  now : Int
  maxSkew : Int
deriving DecidableEq, Repr

/-- The fields that the signature covers. -/
def unsignedOf (proof : ProofOfPossession) : UnsignedPoP :=
  { holder := proof.holder, createdAtMs := proof.createdAtMs, nonce := proof.nonce
    method := proof.method, target := proof.target, envelopeHash := proof.envelopeHash }

/-- `VerifyPoP` up to the lock. -/
def check (prims : Primitives) (call : Verification) : Except SecurityError Unit :=
  if call.proof.holder ≠ call.peer.keyId ∨ call.proof.method ≠ call.method ∨
      call.proof.target ≠ call.target then
    .error .bindingMismatch
  else if !isFresh call.now call.proof.createdAtMs call.maxSkew then
    .error .outsideFreshness
  else
    match digestHex prims call.envelope with
    | .error err => .error err
    | .ok hash =>
        if hash ≠ call.proof.envelopeHash then .error .hashMismatch
        else
          match prims.marshalPoP (unsignedOf call.proof) with
          | .error text => .error (.marshal text)
          | .ok raw => verifyHybrid prims call.peer raw call.proof.signature

/-- The key of the replay map. -/
def replayKey (proof : ProofOfPossession) : Bytes :=
  proof.holder ++ ascii ":" ++ proof.nonce

/-- The replay map of a provider. -/
abbrev Replay := ReplayCache.Cache Bytes

/-- What a call does under the lock. -/
def Verification.visit (call : Verification) : ReplayCache.Visit Bytes where
  key := replayKey call.proof
  stamp := call.proof.createdAtMs
  cutoff := cutoff call.now call.maxSkew

def verifyPoP (prims : Primitives) (replay : Replay) (call : Verification) :
    Replay × Except SecurityError Unit :=
  match check prims call with
  | .error err => (replay, .error err)
  | .ok _ =>
      -- the nonce is recorded here, before the caller has done anything with the message
      (ReplayCache.visit replay call.visit,
        if ReplayCache.accepts replay call.visit then .ok () else .error .replayed)

/-- The visit of the replay map, if the checks before the lock pass. -/
def Verification.visit? (prims : Primitives) (call : Verification) :
    Option (ReplayCache.Visit Bytes) :=
  match check prims call with
  | .error _ => none
  | .ok _ => some call.visit

theorem verifyPoP_replay (prims : Primitives) (replay : Replay) (call : Verification) :
    (verifyPoP prims replay call).1 =
      (call.visit? prims).elim replay (ReplayCache.visit replay) := by
  unfold verifyPoP Verification.visit?
  cases check prims call <;> rfl

theorem verifyPoP_toBool (prims : Primitives) (replay : Replay) (call : Verification) :
    (verifyPoP prims replay call).2.toBool =
      (call.visit? prims).any (ReplayCache.accepts replay) := by
  unfold verifyPoP Verification.visit?
  cases check prims call with
  | error err => rfl
  | ok _ =>
      cases haccepts : ReplayCache.accepts replay call.visit with
      | true => simp [haccepts, Except.toBool]
      | false => simp [haccepts, Except.toBool]

variable {call : Verification} {now : Int}

theorem visit?_eq_some_iff {prims : Primitives} {visit : ReplayCache.Visit Bytes} :
    call.visit? prims = some visit ↔ check prims call = .ok () ∧ call.visit = visit := by
  unfold Verification.visit?
  cases check prims call <;> simp

/-! ## The window and the cutoff -/

/-- A later clock reading inside the window changes nothing else about a check. -/
theorem check_later {prims : Primitives} (h : check prims call = .ok ())
    (hfresh : isFresh now call.proof.createdAtMs call.maxSkew = true) :
    check prims { call with now := now } = .ok () := by
  unfold check at h ⊢
  split at h
  · cases h
  · next hbinding =>
      rw [if_neg hbinding]
      split at h
      · cases h
      · simpa [hfresh] using h

theorem wrap_of_small {value : Int} (hlow : -2 ^ 63 ≤ value) (hhigh : value < 2 ^ 63) :
    wrap value = value := by
  unfold wrap
  rw [Int.bmod_eq_of_le] <;> omega

/-- A proof inside a window is not behind the cutoff of an earlier call, unless the window
of that call is less than half as large or its double overflows. -/
theorem cutoff_le_of_isFresh_later {later created maxSkew window : Int} (hnow : now ≤ later)
    (hskew : 0 ≤ maxSkew) (hsmall : maxSkew < 2 ^ 62) (hwindow : window < 2 ^ 62)
    (hdouble : window ≤ 2 * maxSkew) (h : isFresh later created window = true) :
    cutoff now maxSkew ≤ created := by
  have helapsed : elapsed later created ≤ window := by
    simp only [isFresh, Bool.not_eq_true', Bool.or_eq_false_iff, decide_eq_false_iff_not] at h
    omega
  -- a saturated difference is beyond every window of this size
  have hdelta : later - created * millisecond ≤ window := by
    unfold elapsed at helapsed
    omega
  unfold cutoff
  rw [wrap_of_small (by omega) (by omega)]
  have hms : (0 : Int) < millisecond := by decide
  exact Int.ediv_le_of_le_mul hms (by omega)

theorem isFresh_of_check {prims : Primitives} (h : check prims call = .ok ()) :
    isFresh call.now call.proof.createdAtMs call.maxSkew = true := by
  unfold check at h
  split at h
  · cases h
  · split at h
    · cases h
    · next hfresh => simpa using hfresh

end Ubiq.Security
