import Ubiq.Security.Proof

/-!
# DPoP tokens

`DPoPVerifier.Verify` of `dpop.go`. JOSE, JSON and hashes are parameters: functions of
the token and of what is parsed out of it. The `iat` claim is in whole seconds, the
clock in nanoseconds, and the entries of the `seen` map are pruned by whole seconds.

A `jti` is remembered as long as its token can be fresh. A key that signs the `jti`
again with a later `iat` is accepted again once the entry is gone;
`pairwise_acceptedTokens` says how far apart the two have to be.
-/

namespace Ubiq.Security.DPoP

open Foundation

/-- `dpopClaims`, as far as `Verify` reads them. -/
structure Claims where
  jti : Bytes
  htm : Bytes
  htu : Bytes
  iat : Int64
  ath : Bytes := []
deriving DecidableEq, Repr

/-- The header of a signature: the embedded key, and the extra header `typ` as
`fmt.Sprint` prints it. -/
structure Header where
  jsonWebKey : Option Bytes
  typ : Option Bytes
deriving DecidableEq, Repr

/-- The functions of the libraries; an error is its text. -/
structure Jose where
  /-- `jose.ParseSigned` with `ES256` and `EdDSA`: the headers of the signatures. -/
  parseSigned : Bytes → Except Bytes (List Header)
  keyValid : Bytes → Bool
  keyIsPublic : Bytes → Bool
  /-- `obj.Verify`, which returns the payload of the token. -/
  verify : (token key : Bytes) → Except Bytes Bytes
  unmarshalClaims : Bytes → Except Bytes Claims
  marshalKey : Bytes → Except Bytes Bytes
  sha256 : Bytes → Bytes
  equalFold : Bytes → Bytes → Bool

/-- The errors of `Verify`. -/
inductive Error
  | parse (text : Bytes)
  | signatureCount
  | embeddedKey
  | invalidTyp
  | signature (text : Bytes)
  | unmarshal (text : Bytes)
  | incomplete
  | bindingMismatch
  | outsideFreshness
  | athMismatch
  | marshal (text : Bytes)
  | replayed
deriving DecidableEq, Repr

/-- The messages. -/
def Error.message : Error → Bytes
  | .parse text => text
  | .signatureCount => ascii "DPoP must contain exactly one signature"
  | .embeddedKey => ascii "DPoP requires an embedded public JWK"
  | .invalidTyp => ascii "invalid DPoP typ"
  | .signature text => ascii "DPoP signature: " ++ text
  | .unmarshal text => text
  | .incomplete => ascii "incomplete DPoP claims"
  | .bindingMismatch => ascii "DPoP request binding mismatch"
  | .outsideFreshness => ascii "DPoP proof outside freshness window"
  | .athMismatch => ascii "DPoP ath mismatch"
  | .marshal text => text
  | .replayed => ascii "replayed DPoP proof"

/-! ## Base64 -/

/-- The alphabet of `base64.RawURLEncoding`. -/
def base64Byte (value : Nat) : UInt8 :=
  (ascii "ABCDEFGHIJKLMNOPQRSTUVWXYZabcdefghijklmnopqrstuvwxyz0123456789-_").getD value 0

/-- `base64.RawURLEncoding.EncodeToString`, without padding. -/
def base64Encode : Bytes → Bytes
  | [] => []
  | [a] => [base64Byte (a.toNat / 4), base64Byte (a.toNat % 4 * 16)]
  | [a, b] =>
      [base64Byte (a.toNat / 4), base64Byte (a.toNat % 4 * 16 + b.toNat / 16),
        base64Byte (b.toNat % 16 * 4)]
  | a :: b :: c :: rest =>
      base64Byte (a.toNat / 4) :: base64Byte (a.toNat % 4 * 16 + b.toNat / 16) ::
        base64Byte (b.toNat % 16 * 4 + c.toNat / 64) :: base64Byte (c.toNat % 64) ::
        base64Encode rest

/-! ## Time -/

/-- The seconds between the year 1, from which a `Time` counts, and the epoch. -/
def unixToInternal : Int := 62135596800

/-- `time.Unix(iat, 0)`, in nanoseconds since the epoch; the internal count wraps. -/
def issuedAt (iat : Int64) : Int :=
  (wrap (iat.toInt + unixToInternal) - unixToInternal) * second

/-- `Time.Sub`, which saturates. -/
def sub (time other : Int) : Int :=
  max (-2 ^ 63) (min (2 ^ 63 - 1) (time - other))

/-- The skew that `Verify` uses: five minutes if none is set. -/
def effectiveSkew (maxSkew : Int) : Int :=
  if maxSkew ≤ 0 then 300 * second else maxSkew

/-- The freshness window. -/
def isFresh (now : Int) (iat : Int64) (skew : Int) : Bool :=
  !(decide (sub now (issuedAt iat) > skew) || decide (sub (issuedAt iat) now > skew))

/-- `now.Add(-2 * skew).Unix()`. -/
def cutoff (now skew : Int) : Int :=
  (now + wrap (-2 * skew)) / second

/-! ## `Verify` -/

/-- The arguments of `Verify`. -/
structure Call where
  token : Bytes
  method : Bytes
  target : Bytes
  accessToken : Bytes := []
  now : Int
deriving DecidableEq, Repr

/-- What a token that passes the checks presents: the fingerprint of its key, its `jti` and
its `iat`. -/
structure Presented where
  fingerprint : Bytes
  jti : Bytes
  iat : Int64
deriving DecidableEq, Repr

/-- The key of the `seen` map. -/
def Presented.replayKey (presented : Presented) : Bytes :=
  base64Encode presented.fingerprint ++ ascii ":" ++ presented.jti

section Checks

variable (jose : Jose)

/-- The embedded key of the token. -/
def embeddedKey (token : Bytes) : Except Error Bytes :=
  match jose.parseSigned token with
  | .error text => .error (.parse text)
  | .ok [header] =>
      match header.jsonWebKey with
      | none => .error .embeddedKey
      | some key =>
          if !jose.keyValid key ∨ !jose.keyIsPublic key then .error .embeddedKey
          else if header.typ.any fun typ => !jose.equalFold typ (ascii "dpop+jwt") then
            .error .invalidTyp
          else .ok key
  | .ok _ => .error .signatureCount

/-- The claims of the token, signed with its embedded key. -/
def signedClaims (token key : Bytes) : Except Error Claims :=
  match jose.verify token key with
  | .error text => .error (.signature text)
  | .ok payload =>
      match jose.unmarshalClaims payload with
      | .error text => .error (.unmarshal text)
      | .ok claims =>
          if claims.jti = [] ∨ claims.htm = [] ∨ claims.htu = [] ∨ claims.iat = 0 then
            .error .incomplete
          else .ok claims

/-- `Verify` up to the lock. -/
def check (maxSkew : Int) (call : Call) : Except Error Presented := do
  let key ← embeddedKey jose call.token
  let claims ← signedClaims jose call.token key
  if !jose.equalFold claims.htm call.method ∨ claims.htu ≠ call.target then
    .error .bindingMismatch
  else if !isFresh call.now claims.iat (effectiveSkew maxSkew) then
    .error .outsideFreshness
  else if call.accessToken ≠ [] ∧ claims.ath ≠ base64Encode (jose.sha256 call.accessToken) then
    .error .athMismatch
  else
    match jose.marshalKey key with
    | .error text => .error (.marshal text)
    | .ok raw => .ok { fingerprint := jose.sha256 raw, jti := claims.jti, iat := claims.iat }

/-- The `seen` map. -/
abbrev Seen := ReplayCache.Cache Bytes

/-- What a call does under the lock. -/
def Presented.visit (maxSkew now : Int) (presented : Presented) : ReplayCache.Visit Bytes where
  key := presented.replayKey
  stamp := presented.iat.toInt
  cutoff := cutoff now (effectiveSkew maxSkew)

def verify (maxSkew : Int) (seen : Seen) (call : Call) : Seen × Except Error Unit :=
  match check jose maxSkew call with
  | .error err => (seen, .error err)
  | .ok presented =>
      (ReplayCache.visit seen (presented.visit maxSkew call.now),
        if ReplayCache.accepts seen (presented.visit maxSkew call.now) then .ok ()
        else .error .replayed)

/-- The visit of the `seen` map, if the checks before the lock pass. -/
def visit? (maxSkew : Int) (call : Call) : Option (ReplayCache.Visit Bytes) :=
  (check jose maxSkew call).toOption.map (Presented.visit maxSkew call.now)

end Checks

/-! ## Runs on one verifier -/

/-- What the tokens of a run that are accepted present. -/
def acceptedTokens (jose : Jose) (maxSkew : Int) : Seen → List Call → List Presented
  | _, [] => []
  | seen, call :: rest =>
      (if (verify jose maxSkew seen call).2.toBool then (check jose maxSkew call).toOption.toList
        else []) ++ acceptedTokens jose maxSkew (verify jose maxSkew seen call).1 rest

/-- The clock readings of the calls never decrease. -/
def Chronological (calls : List Call) : Prop :=
  calls.Pairwise fun earlier later => earlier.now ≤ later.now

instance (calls : List Call) : Decidable (Chronological calls) :=
  inferInstanceAs (Decidable (calls.Pairwise _))

/-- On a fresh verifier, no two of the calls accept tokens with the same fingerprint of the
embedded key and the same `jti`. -/
def AcceptsOnce (jose : Jose) (maxSkew : Int) (calls : List Call) : Prop :=
  ((acceptedTokens jose maxSkew (fun _ => none) calls).map
    fun presented => (presented.fingerprint, presented.jti)).Nodup

instance (jose : Jose) (maxSkew : Int) (calls : List Call) :
    Decidable (AcceptsOnce jose maxSkew calls) :=
  inferInstanceAs (Decidable (List.Nodup _))

section Runs

variable {jose : Jose} {maxSkew : Int}

theorem verify_seen (seen : Seen) (call : Call) :
    (verify jose maxSkew seen call).1 =
      (visit? jose maxSkew call).elim seen (ReplayCache.visit seen) := by
  unfold verify visit?
  cases check jose maxSkew call <;> rfl

theorem verify_toBool (seen : Seen) (call : Call) :
    (verify jose maxSkew seen call).2.toBool =
      (visit? jose maxSkew call).any (ReplayCache.accepts seen) := by
  unfold verify visit?
  cases check jose maxSkew call with
  | error err => rfl
  | ok presented =>
      by_cases haccepts : ReplayCache.accepts seen (presented.visit maxSkew call.now) = true
      · simp [haccepts, Except.toBool, Except.toOption]
      · simp [haccepts, Except.toBool, Except.toOption]

theorem acceptedTokens_eq (seen : Seen) (calls : List Call) :
    acceptedTokens jose maxSkew seen calls =
      (ReplayCache.admitted (visit? jose maxSkew) seen calls).filterMap
        fun call => (check jose maxSkew call).toOption := by
  induction calls generalizing seen with
  | nil => rfl
  | cons call rest ih =>
      rw [acceptedTokens, ih, verify_seen, verify_toBool, ReplayCache.admitted,
        List.filterMap_append]
      congr 1
      by_cases haccepts :
          (visit? jose maxSkew call).any (ReplayCache.accepts seen) = true
      · rw [if_pos haccepts, if_pos haccepts, List.filterMap_cons]
        cases (check jose maxSkew call).toOption <;> rfl
      · rw [if_neg haccepts, if_neg haccepts]
        rfl

/-! ## The window and the cutoff -/

theorem second_pos : 0 < second := by decide

/-- The wrapped time of issue is not after the claimed one. -/
theorem issuedAt_le (iat : Int64) : issuedAt iat ≤ iat.toInt * second := by
  have hrange : iat.toInt < 2 ^ 63 := Int64.toInt_lt iat
  have hrange' : -2 ^ 63 ≤ iat.toInt := Int64.le_toInt iat
  have hwrap : wrap (iat.toInt + unixToInternal) ≤ iat.toInt + unixToInternal := by
    unfold wrap unixToInternal
    rw [Int.bmod_def]
    split <;> omega
  have hle : wrap (iat.toInt + unixToInternal) - unixToInternal ≤ iat.toInt := by omega
  exact Int.mul_le_mul_of_nonneg_right hle second_pos.le

theorem effectiveSkew_pos (maxSkew : Int) : 0 < effectiveSkew maxSkew := by
  unfold effectiveSkew
  split
  · decide
  · omega

/-- **A fresh token is a whole skew ahead of its cutoff**, unless the doubled skew
overflows. -/
theorem cutoff_add_skew_le {now skew : Int} {iat : Int64} (hpos : 0 < skew)
    (hsmall : skew ≤ 2 ^ 62) (h : isFresh now iat skew = true) :
    cutoff now skew * second + skew ≤ iat.toInt * second := by
  have hpast : sub now (issuedAt iat) ≤ skew := by
    simp only [isFresh, Bool.not_eq_true', Bool.or_eq_false_iff, decide_eq_false_iff_not] at h
    omega
  have hdelta : now - issuedAt iat ≤ skew := by
    unfold sub at hpast
    omega
  have hissued := issuedAt_le iat
  -- rounding to whole seconds only moves the cutoff back
  have hround : cutoff now skew * second ≤ now - 2 * skew := by
    unfold cutoff
    rw [wrap_of_small (by omega) (by omega)]
    have hdiv := Int.ediv_mul_le (now + -2 * skew) second_pos.ne'
    omega
  omega

theorem isFresh_of_check {call : Call} {presented : Presented}
    (h : check jose maxSkew call = .ok presented) :
    isFresh call.now presented.iat (effectiveSkew maxSkew) = true := by
  unfold check at h
  cases hkey : embeddedKey jose call.token with
  | error err => simp [hkey, bind, Except.bind] at h
  | ok key =>
      cases hclaims : signedClaims jose call.token key with
      | error err => simp [hkey, hclaims, bind, Except.bind] at h
      | ok claims =>
          simp only [hkey, hclaims, bind, Except.bind] at h
          split at h
          · cases h
          · split at h
            · cases h
            · next hfresh =>
                split at h
                · cases h
                · split at h
                  · cases h
                  · cases h
                    simpa using hfresh

/-- The visits of a run with a clock that does not run backwards. -/
theorem sorted_visits {calls : List Call} (hclock : Chronological calls) :
    (calls.filterMap (visit? jose maxSkew)).Pairwise fun v w => v.cutoff ≤ w.cutoff := by
  rw [List.pairwise_filterMap]
  apply hclock.imp
  intro earlier later hnow v hv w hw
  obtain ⟨p, -, rfl⟩ := Option.map_eq_some_iff.mp hv
  obtain ⟨q, -, rfl⟩ := Option.map_eq_some_iff.mp hw
  exact Int.ediv_le_ediv second_pos (by omega)

end Runs

/-- **A `jti` is accepted again only with a later `iat`**: when two calls of a run accept
tokens with the same key and `jti`, the second token was issued more than the skew
after the first. No token is accepted twice. -/
theorem pairwise_acceptedTokens (jose : Jose) (maxSkew : Int) (hskew : maxSkew ≤ 2 ^ 62)
    (calls : List Call) (hclock : Chronological calls) :
    (acceptedTokens jose maxSkew (fun _ => none) calls).Pairwise fun earlier later =>
      earlier.fingerprint = later.fingerprint → earlier.jti = later.jti →
        effectiveSkew maxSkew < (later.iat.toInt - earlier.iat.toInt) * second := by
  have hsmall : effectiveSkew maxSkew ≤ 2 ^ 62 := by
    unfold effectiveSkew
    split
    · decide
    · exact hskew
  have hpairs : (ReplayCache.accepted (fun _ => none)
      (calls.filterMap (visit? jose maxSkew))).Pairwise fun v w => v.key = w.key → v.stamp < w.cutoff :=
    ReplayCache.pairwise_accepted_of_sorted (sorted_visits hclock)
  rw [← ReplayCache.filterMap_admitted, List.pairwise_filterMap] at hpairs
  rw [acceptedTokens_eq, List.pairwise_filterMap]
  apply hpairs.imp
  intro earlier later hvisits p hp q hq hfingerprint hjti
  have hkey : p.replayKey = q.replayKey := by
    unfold Presented.replayKey
    rw [hfingerprint, hjti]
  -- the entry of the first token had expired for the second call
  have hexpired : p.iat.toInt < cutoff later.now (effectiveSkew maxSkew) :=
    hvisits _ (by rw [visit?, hp]; rfl) _ (by rw [visit?, hq]; rfl) hkey
  have hcheck : check jose maxSkew later = .ok q := by
    cases hresult : check jose maxSkew later with
    | error err => simp [hresult, Except.toOption] at hq
    | ok other => simpa [hresult, Except.toOption] using hq
  have hahead := cutoff_add_skew_le (effectiveSkew_pos maxSkew) hsmall (isFresh_of_check hcheck)
  have hlt := Int.mul_lt_mul_of_pos_right hexpired second_pos
  rw [Int.sub_mul]
  omega

/-! ## Two tokens of one key -/

/-- A token that the client issued at second 1000. -/
def firstToken : Bytes := ascii "header.j1-1000.sig"

/-- A token of the client with the same `jti`, issued at second 2000. -/
def secondToken : Bytes := ascii "header.j1-2000.sig"

/-- The libraries on these two tokens. -/
def clientJose : Jose where
  parseSigned _ := .ok [{ jsonWebKey := some (ascii "client"), typ := some (ascii "dpop+jwt") }]
  keyValid _ := true
  keyIsPublic _ := true
  verify token _ := .ok token
  unmarshalClaims payload :=
    .ok { jti := ascii "j1", htm := ascii "POST", htu := ascii "https://api/orders"
          iat := if payload = firstToken then 1000 else 2000 }
  marshalKey key := .ok key
  sha256 key := key
  equalFold text other := text = other

/-- A request with a token. -/
def request (token : Bytes) (now : Int) : Call where
  token := token
  method := ascii "POST"
  target := ascii "https://api/orders"
  now := now

/-- The first token is used, presented again two hundred seconds later, and followed by
the second token. -/
def reusedJti : List Call :=
  [request firstToken (1000 * second), request firstToken (1200 * second),
    request secondToken (2000 * second)]

/-- Of the three requests the first and the last are accepted. -/
theorem pairwise_acceptedTokens_reusedJti :
    (acceptedTokens clientJose 0 (fun _ => none) reusedJti).Pairwise fun earlier later =>
      earlier.fingerprint = later.fingerprint → earlier.jti = later.jti →
        effectiveSkew 0 < (later.iat.toInt - earlier.iat.toInt) * second :=
  pairwise_acceptedTokens clientJose 0 (by decide) reusedJti (by decide +kernel)

/-- **A `jti` that its key signs again after the window is accepted again.** -/
theorem not_acceptsOnce_reusedJti :
    ¬∀ (jose : Jose) (maxSkew : Int) (calls : List Call),
      Chronological calls → AcceptsOnce jose maxSkew calls := by
  intro h
  have hclock : Chronological reusedJti := by decide +kernel
  have htwice : ¬AcceptsOnce clientJose 0 reusedJti := by decide +kernel
  exact htwice (h clientJose 0 reusedJti hclock)

end Ubiq.Security.DPoP
