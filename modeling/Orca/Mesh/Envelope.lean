import Orca.Mesh.TrustRegistry

/-!
# Signed envelopes

The model of the signed envelopes of `utils/src/pki.rs`: a payload with the key that signed it and
its signature (`SignedEnvelope`), and the binding of a payload to a method, a sender, a receiver and
a nonce until it expires (`BoundEnvelope`).  What the receiver learns is the payload and the key.

Reading base64, keys and signatures belongs to other libraries and is a parameter (`EnvelopeLibs`).
-/

namespace Orca

open Check

/-- The libraries of envelopes: those of the registry, base64, Ed25519 and UUIDs. -/
structure EnvelopeLibs extends TrustLibs where
  base64Decode : String → Except String (List UInt8)
  /-- `VerifyingKey::from_bytes`; a key is carried as its bytes. -/
  verifyingKeyFromBytes : List UInt8 → Except String (List UInt8)
  verifySignature : (key message signature : List UInt8) → Except String Unit
  /-- Whether `Uuid::try_parse` reads a text. -/
  isUuid : String → Bool

/-- `BOUND_ENVELOPE_MAX_TTL_SECS` -/
def boundEnvelopeMaxTtlSecs : Int := 300
/-- `BOUND_ENVELOPE_SKEW_SECS` -/
def boundEnvelopeSkewSecs : Int := 30

/-- `BoundEnvelope`. -/
structure BoundEnvelope where
  method : String
  sender : String
  receiver : String
  nonce : String
  /-- End of its validity in seconds since the epoch. -/
  expiresAt : Int
  payloadSha256 : String
  /-- The signature over the fields above. -/
  signatureB64 : String
deriving DecidableEq

/-- `SignedEnvelope`. -/
structure SignedEnvelope where
  payload : String
  signerPubkeyB64 : String
  signatureB64 : String
  /-- The binding, absent in envelopes of older members. -/
  binding : Option BoundEnvelope
deriving DecidableEq

section Verification

variable (libs : EnvelopeLibs)

/-- `sha256_hex`. -/
def sha256Hex (bytes : List UInt8) : String := hexEncode (libs.sha256 bytes).toList

/-- `bootstrap_pubkey_fingerprint`. -/
def bootstrapPubkeyFingerprint (verifying : List UInt8) : String :=
  hexEncode ((libs.sha256 verifying).toList.take 16)

/-- `BoundEnvelope::canonical`. -/
def BoundEnvelope.canonical (b : BoundEnvelope) : List UInt8 :=
  canonicalFields ["orca-bound-envelope-v1", b.method, b.sender, b.receiver, b.nonce,
    toString b.expiresAt, b.payloadSha256]

/-- `BoundEnvelope::verify`. -/
def BoundEnvelope.verify (b : BoundEnvelope) (verifying : List UInt8)
    (method sender receiver : String) (payload : List UInt8) (now : Int) : Except String Unit := do
  ensure (b.method == method) "bound envelope is for another method"
  ensure (b.sender == sender) "bound envelope is from another sender"
  ensure (b.receiver == receiver) "bound envelope is for another receiver"
  ensure (libs.isUuid b.nonce) "bound envelope nonce is invalid"
  ensure (decide (now < b.expiresAt ∧
      b.expiresAt - now ≤ boundEnvelopeMaxTtlSecs + boundEnvelopeSkewSecs))
    "bound envelope is expired or not yet valid"
  ensure (b.payloadSha256 == sha256Hex libs payload)
    "bound envelope payload does not match its hash"
  let sigBytes ← withContext (libs.base64Decode b.signatureB64) "decode signature"
  ensure (sigBytes.length == 64) "signature must be 64 bytes"
  withContext (libs.verifySignature verifying b.canonical sigBytes)
    "bound envelope signature did not verify"

/-- `verify_envelope`, with the reader of the payload. -/
def verifyEnvelope {α : Type} (parse : String → Except String α) (env : SignedEnvelope) :
    Except String (α × List UInt8) := do
  let pkBytes ← withContext (libs.base64Decode env.signerPubkeyB64) "decode signer pubkey"
  ensure (pkBytes.length == 32)
    ("signer pubkey must be 32 bytes (got " ++ toString pkBytes.length ++ ")")
  let verifying ← withContext (libs.verifyingKeyFromBytes pkBytes) "parse signer pubkey"
  let sigBytes ← withContext (libs.base64Decode env.signatureB64) "decode signature"
  ensure (sigBytes.length == 64)
    ("signature must be 64 bytes (got " ++ toString sigBytes.length ++ ")")
  withContext (libs.verifySignature verifying (utf8Bytes env.payload) sigBytes)
    "envelope signature did not verify"
  let body ← withContext (parse env.payload) "parse envelope payload"
  .ok (body, verifying)

/-- `verify_bound_envelope`. -/
def verifyBoundEnvelope {α : Type} (parse : String → Except String α) (env : SignedEnvelope)
    (method sender receiver : String) (now : Int) :
    Except String (α × List UInt8 × BoundEnvelope) := do
  let (body, verifying) ← verifyEnvelope libs parse env
  let binding ← required env.binding "envelope is not bound to a receiver and nonce"
  binding.verify libs verifying method sender receiver (utf8Bytes env.payload) now
  .ok (body, verifying, binding)

/-- `RECEIVER_TIME_TAG` -/
def receiverTimeTag : String := "[receiver_time="

/-- `with_receiver_time`. -/
def withReceiverTime (message : String) (now : Int) : String :=
  message ++ " " ++ receiverTimeTag ++ toString now ++ "]"

/-! ## Digests in text -/

lemma lowerHexDigit_inj : ∀ m < 16, ∀ n < 16,
    hexEncode.lowerHexDigit m = hexEncode.lowerHexDigit n → m = n := by decide

/-- Bytes are read off their hexadecimal text. -/
lemma hexEncode_injective : Function.Injective hexEncode := by
  intro l l' h
  have hchars := String.ofList_injective h
  clear h
  induction l generalizing l' with
  | nil =>
    cases l' with
    | nil => rfl
    | cons b l' => cases hchars
  | cons a l ih =>
    cases l' with
    | nil => cases hchars
    | cons b l' =>
      simp only [List.flatMap_cons, List.cons_append, List.nil_append, List.cons.injEq] at hchars
      obtain ⟨hhigh, hlow, hrest⟩ := hchars
      have ha : a.toNat < 256 := a.toNat_lt
      have hb : b.toNat < 256 := b.toNat_lt
      have hdiv := lowerHexDigit_inj _ (by omega) _ (by omega) hhigh
      have hmod := lowerHexDigit_inj _ (by omega) _ (by omega) hlow
      have hab : a = b := UInt8.toNat_inj.mp (by omega)
      rw [hab, ih hrest]

lemma sha256Hex_inj {bytes bytes' : List UInt8} (h : sha256Hex libs bytes = sha256Hex libs bytes') :
    libs.sha256 bytes = libs.sha256 bytes' :=
  Vector.toList_inj.mp (hexEncode_injective h)

/-! ## What a verified envelope carries -/

variable {libs} {α : Type} {parse : String → Except String α} {env : SignedEnvelope}

/-- A verified envelope carries a payload that reads as the body, and a signature over the payload
that the key verifies. -/
lemma verifyEnvelope_ok {body : α} {verifying : List UInt8}
    (h : verifyEnvelope libs parse env = .ok (body, verifying)) :
    parse env.payload = .ok body ∧
      ∃ signature, libs.verifySignature verifying (utf8Bytes env.payload) signature = .ok () := by
  unfold verifyEnvelope at h
  simp only [chain_ok_iff, withContext_eq_ok, ensure_eq_ok, exists_const, Except.ok.injEq,
    Prod.mk.injEq] at h
  obtain ⟨pkBytes, -, -, key, -, sigBytes, -, -, ⟨⟩, hsignature, result, hparse, rfl, rfl⟩ := h
  exact ⟨hparse, sigBytes, hsignature⟩

/-- A verified binding is one the envelope carries, for this method, sender and receiver, and the
key has signed it. -/
lemma BoundEnvelope.verify_ok {b : BoundEnvelope} {verifying payload : List UInt8}
    {method sender receiver : String} {now : Int}
    (h : b.verify libs verifying method sender receiver payload now = .ok ()) :
    (b.method = method ∧ b.sender = sender ∧ b.receiver = receiver ∧
      b.payloadSha256 = sha256Hex libs payload) ∧
      now < b.expiresAt ∧
      ∃ signature, libs.verifySignature verifying b.canonical signature = .ok () := by
  unfold BoundEnvelope.verify at h
  simp only [chain_ok_iff, withContext_eq_ok, ensure_eq_ok, exists_const, beq_iff_eq,
    decide_eq_true_eq] at h
  obtain ⟨hmethod, hsender, hreceiver, -, hexpiry, hpayload, sigBytes, -, -, hsignature⟩ := h
  exact ⟨⟨hmethod, hsender, hreceiver, hpayload⟩, hexpiry.1, sigBytes, hsignature⟩

end Verification

end Orca
