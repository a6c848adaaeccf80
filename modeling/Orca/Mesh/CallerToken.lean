import Mathlib.Data.Nat.Pairing
import Mathlib.Logic.Equiv.List
import Orca.Data.Canonical
import Orca.Mesh.Envelope
import Orca.Mesh.NonceLedger

/-!
# Caller tokens

The model of `system/src/mesh/caller_token.rs`: the signed token that says for which user a peer
calls which tool with which arguments.  A token is a bound envelope; one of an older member is an
envelope without a binding whose payload has the nonce and the expiry itself.

What a token says is `tokenBody`.  The spec of `verify` is `verify_ok`: the token is signed by the
key whose fingerprint is returned, and it names the tool and the digest of the arguments.  The
digest determines the arguments up to the order of keys, unless SHA-256 collides
(`eqv_of_argsHash_eq`).
-/

namespace Orca

namespace CallerToken

open Check

/-- `METHOD` -/
def method : String := "mesh/exec"

/-- `CallerClaims`. -/
structure CallerClaims where
  callerUserId : String
  callerUsername : String
  /-- The role of the user, or less. -/
  role : String
  tool : String
  argsHash : String
deriving DecidableEq

/-- `LegacyCallerToken`. -/
structure LegacyCallerToken where
  callerUserId : String
  callerUsername : String
  /-- The role of the user, or less. -/
  role : String
  tool : String
  argsHash : String
  /-- End of its validity in seconds since the epoch. -/
  expiresAt : Int
  nonce : String
deriving DecidableEq

/-- The claims in a token of an older member. -/
def LegacyCallerToken.claims (legacy : LegacyCallerToken) : CallerClaims :=
  ⟨legacy.callerUserId, legacy.callerUsername, legacy.role, legacy.tool, legacy.argsHash⟩

/-- The libraries of caller tokens: those of envelopes and `serde_json`. -/
structure TokenLibs extends EnvelopeLibs where
  /-- `serde_json::to_vec`. -/
  toVec : Json → Except String (List UInt8)
  parseCallerClaims : String → Except String CallerClaims
  parseLegacyCallerToken : String → Except String LegacyCallerToken

/-- `Verified`. -/
structure Verified where
  claims : CallerClaims
  nonce : String
  expiresAt : Int
  /-- The fingerprint of the key that signed it. -/
  signerFp : String

section Token

variable (libs : TokenLibs)

/-- The bytes that are hashed for arguments. -/
def argsText (args : JsonValue) : List UInt8 :=
  match libs.toVec args.1.canonicalize with
  | .ok bytes => bytes
  | .error _ => []

/-- `args_hash`. -/
def argsHash (args : JsonValue) : String := sha256Hex libs.toEnvelopeLibs (argsText libs args)

/-- What `verify` reads of a token with a binding: its claims, nonce, expiry and key. -/
def verifyBound (env : SignedEnvelope) (sender receiver : String) (now : Int) :
    Except String (CallerClaims × String × Int × List UInt8) := do
  let (claims, verifying, binding) ← withContext
    (verifyBoundEnvelope libs.toEnvelopeLibs libs.parseCallerClaims env method sender receiver now)
    "verify caller token envelope"
  .ok (claims, binding.nonce, binding.expiresAt, verifying)

/-- What `verify` reads of a token without one. -/
def verifyUnbound (env : SignedEnvelope) (now : Int) (allowUnbound : Bool) :
    Except String (CallerClaims × String × Int × List UInt8) := do
  ensure allowUnbound "caller token is not bound to a receiver and nonce"
  let (legacy, verifying) ← withContext
    (verifyEnvelope libs.toEnvelopeLibs libs.parseLegacyCallerToken env)
    "verify caller token envelope"
  ensure (decide (now < legacy.expiresAt))
    ("caller token expired at " ++ toString legacy.expiresAt ++ " (now " ++ toString now ++ ")")
  .ok (legacy.claims, legacy.nonce, legacy.expiresAt, verifying)

/-- What `verify` reads of a token before it looks at the claims. -/
def readToken (env : SignedEnvelope) (sender receiver : String) (now : Int) (allowUnbound : Bool) :
    Except String (CallerClaims × String × Int × List UInt8) :=
  if env.binding.isSome then verifyBound libs env sender receiver now
  else verifyUnbound libs env now allowUnbound

/-- `verify`. -/
def verify (env : SignedEnvelope) (tool : String) (args : JsonValue) (sender receiver : String)
    (now : Int) (allowUnbound : Bool) : Except String Verified := do
  let (claims, nonce, expiresAt, verifying) ← readToken libs env sender receiver now allowUnbound
  ensure (claims.tool == tool)
    ("caller token tool mismatch: token authorizes '" ++ claims.tool ++ "' but request is '" ++
      tool ++ "'")
  ensure (claims.argsHash == argsHash libs args)
    "caller token args_hash mismatch: payload was tampered or re-encoded"
  .ok ⟨claims, nonce, expiresAt, bootstrapPubkeyFingerprint libs.toEnvelopeLibs verifying⟩

/-- `check_replay`. -/
def checkReplay (st : NonceStore) (sender nonce : String) (expiresAt now : Int) :
    NonceStore × Except String Unit :=
  match recordMeshNonce libs.isUuid st method sender nonce expiresAt now with
  | (st', .error e) => (st', .error e)
  | (st', .ok true) => (st', .ok ())
  | (st', .ok false) =>
      (st', .error ("caller token nonce " ++ nonce ++ " was already used (replay rejected)"))

/-! ## What a token says -/

/-- The claims, the nonce and the expiry of a token. -/
def tokenBody (env : SignedEnvelope) : Option (CallerClaims × String × Int) :=
  match env.binding with
  | some binding =>
      (libs.parseCallerClaims env.payload).toOption.map fun claims =>
        (claims, binding.nonce, binding.expiresAt)
  | none =>
      (libs.parseLegacyCallerToken env.payload).toOption.map fun legacy =>
        (legacy.claims, legacy.nonce, legacy.expiresAt)

/-- The key has signed the payload of the token, and its binding where it has one; the binding is
for this method, sender and receiver and has the digest of the payload. -/
def TokenSignedBy (signed : (key message : List UInt8) → Prop) (key : List UInt8)
    (env : SignedEnvelope)
    (sender receiver : String) : Prop :=
  signed key (utf8Bytes env.payload) ∧
    ∀ binding, env.binding = some binding →
      signed key binding.canonical ∧ binding.method = method ∧ binding.sender = sender ∧
        binding.receiver = receiver ∧
        binding.payloadSha256 = sha256Hex libs.toEnvelopeLibs (utf8Bytes env.payload)

variable {libs} {signed : (key message : List UInt8) → Prop}

section Verify

variable {env : SignedEnvelope} {tool sender receiver : String} {args : JsonValue} {now : Int}
  {allowUnbound : Bool} {claims : CallerClaims} {nonce : String} {expiresAt : Int}
  {verifying : List UInt8}

/-- A bound token that verifies says what is read of it, and its key has signed it. -/
lemma verifyBound_ok (hbinding : env.binding.isSome = true)
    (hunforgeable : ∀ key message signature,
      libs.verifySignature key message signature = .ok () → signed key message)
    (h : verifyBound libs env sender receiver now = .ok (claims, nonce, expiresAt, verifying)) :
    tokenBody libs env = some (claims, nonce, expiresAt) ∧
      TokenSignedBy libs signed verifying env sender receiver := by
  obtain ⟨binding, hbinding⟩ := Option.isSome_iff_exists.mp hbinding
  unfold verifyBound at h
  obtain ⟨⟨body, key, read⟩, hverify, hresult⟩ := chain_ok_iff.mp h
  cases hresult
  unfold verifyBoundEnvelope at hverify
  simp only [withContext_eq_ok, chain_ok_iff, required_eq_ok, Except.ok.injEq, Prod.mk.injEq]
    at hverify
  obtain ⟨⟨body, key⟩, henvelope, binding', hbinding', ⟨⟩, hbound, rfl, rfl, rfl⟩ := hverify
  rw [hbinding, Option.some.injEq] at hbinding'
  subst hbinding'
  obtain ⟨hparse, signature, hpayload⟩ := verifyEnvelope_ok henvelope
  obtain ⟨⟨hmethod, hsender, hreceiver, hdigest⟩, -, signature', hcanonical⟩ :=
    BoundEnvelope.verify_ok hbound
  constructor
  · simp [tokenBody, hbinding, hparse, Except.toOption]
  · refine ⟨hunforgeable _ _ _ hpayload, fun b hb => ?_⟩
    rw [hbinding, Option.some.injEq] at hb
    subst hb
    exact ⟨hunforgeable _ _ _ hcanonical, hmethod, hsender, hreceiver, hdigest⟩

/-- An unbound token that verifies says what is read of it, and its key has signed it. -/
lemma verifyUnbound_ok (hbinding : ¬env.binding.isSome = true)
    (hunforgeable : ∀ key message signature,
      libs.verifySignature key message signature = .ok () → signed key message)
    (h : verifyUnbound libs env now allowUnbound = .ok (claims, nonce, expiresAt, verifying)) :
    tokenBody libs env = some (claims, nonce, expiresAt) ∧
      TokenSignedBy libs signed verifying env sender receiver := by
  have hnone : env.binding = none := Option.not_isSome_iff_eq_none.mp hbinding
  unfold verifyUnbound at h
  obtain ⟨-, h⟩ := then_ok_iff.mp h
  obtain ⟨⟨legacy, key⟩, henvelope, h⟩ := chain_ok_iff.mp h
  obtain ⟨-, hresult⟩ := then_ok_iff.mp h
  cases hresult
  obtain ⟨hparse, signature, hpayload⟩ := verifyEnvelope_ok (withContext_eq_ok.mp henvelope)
  constructor
  · simp [tokenBody, hnone, hparse, Except.toOption]
  · refine ⟨hunforgeable _ _ _ hpayload, fun b hb => ?_⟩
    rw [hnone] at hb
    cases hb

/-- **A verified token.**  It says what is returned of it, the key of the returned fingerprint has
signed it, and it names the tool and the digest of the arguments. -/
theorem verify_ok {verified : Verified}
    (hunforgeable : ∀ key message signature,
      libs.verifySignature key message signature = .ok () → signed key message)
    (h : verify libs env tool args sender receiver now allowUnbound = .ok verified) :
    tokenBody libs env = some (verified.claims, verified.nonce, verified.expiresAt) ∧
      (∃ key, verified.signerFp = bootstrapPubkeyFingerprint libs.toEnvelopeLibs key ∧
        TokenSignedBy libs signed key env sender receiver) ∧
      verified.claims.tool = tool ∧ verified.claims.argsHash = argsHash libs args := by
  unfold verify at h
  obtain ⟨⟨claims, nonce, expiresAt, verifying⟩, hread, h⟩ := chain_ok_iff.mp h
  obtain ⟨htool, h⟩ := then_ok_iff.mp h
  obtain ⟨hhash, hresult⟩ := then_ok_iff.mp h
  cases hresult
  have hsaid : tokenBody libs env = some (claims, nonce, expiresAt) ∧
      TokenSignedBy libs signed verifying env sender receiver := by
    unfold readToken at hread
    split at hread
    · rename_i hbinding
      exact verifyBound_ok hbinding hunforgeable hread
    · rename_i hbinding
      exact verifyUnbound_ok hbinding hunforgeable hread
  rw [ensure_eq_ok, beq_iff_eq] at htool hhash
  exact ⟨hsaid.1, ⟨verifying, rfl, hsaid.2⟩, htool, hhash⟩

end Verify

/-! ## Digests of arguments -/

/-- What the code relies on of `serde_json::to_vec`: it writes every value, and different values
differently. -/
structure LawfulToVec (libs : TokenLibs) : Prop where
  writes : ∀ v : JsonValue, ∃ bytes, libs.toVec v.1 = .ok bytes
  /-- A value is determined by what is written for it. -/
  injective : ∀ v w : JsonValue, libs.toVec v.1 = libs.toVec w.1 → v = w

/-- The arguments are written differently and have the same SHA-256 digest. -/
def Collide (libs : TokenLibs) (v w : JsonValue) : Prop :=
  argsText libs v ≠ argsText libs w ∧ libs.sha256 (argsText libs v) = libs.sha256 (argsText libs w)

/-- Arguments with one digest are equal as JSON values, unless SHA-256 collides on them. -/
theorem eqv_of_argsHash_eq (hlawful : LawfulToVec libs) {v w : JsonValue}
    (h : argsHash libs v = argsHash libs w) (hcollide : ¬Collide libs v w) :
    v.1.eqv w.1 = true := by
  have hdigest : libs.sha256 (argsText libs v) = libs.sha256 (argsText libs w) :=
    sha256Hex_inj libs.toEnvelopeLibs h
  have htext : argsText libs v = argsText libs w := by
    by_contra hne
    exact hcollide ⟨hne, hdigest⟩
  -- the bytes are those written for the canonical forms, which they determine
  let cv : JsonValue := ⟨v.1.canonicalize, Json.isProper_canonicalize v.2⟩
  let cw : JsonValue := ⟨w.1.canonicalize, Json.isProper_canonicalize w.2⟩
  obtain ⟨bytes, hv⟩ := hlawful.writes cv
  obtain ⟨bytes', hw⟩ := hlawful.writes cw
  simp only [argsText, cv, cw] at htext hv hw
  rw [hv, hw] at htext
  have hbytes : bytes = bytes' := htext
  have hcanonical : cv = cw := hlawful.injective cv cw (by rw [hv, hw, hbytes])
  exact (Json.canonicalize_eq_iff v.2 w.2).mp (congrArg Subtype.val hcanonical)

end Token

/-! ## Libraries for small runs -/

/-- A number for a JSON number. -/
def plainNumberCode : JsonNumber → ℕ
  | .posInt n => Nat.pair 0 n.toNat
  | .negInt i => Nat.pair 1 i.toUInt64.toNat
  | .float d => Nat.pair 2 d.1.1.toNat

lemma plainNumberCode_injective : Function.Injective plainNumberCode := by
  intro m n h
  cases m <;> cases n <;> simp_all [plainNumberCode, Nat.pair_eq_pair, UInt64.toNat_inj]
  · exact congrArg Int64.ofUInt64 h
  · exact Subtype.ext (Subtype.ext h)

mutual

/-- A number for a JSON value. -/
def plainCode : Json → ℕ
  | .null => Nat.pair 0 0
  | .bool b => Nat.pair 1 b.toNat
  | .number n => Nat.pair 2 (plainNumberCode n)
  | .string s => Nat.pair 3 (Encodable.encode (s.toList.map Char.toNat))
  | .array items => Nat.pair 4 (plainItemsCode items)
  | .object entries => Nat.pair 5 (plainEntriesCode entries)

/-- A number for the elements of an array. -/
def plainItemsCode : List Json → ℕ
  | [] => 0
  | v :: vs => Nat.pair (plainCode v) (plainItemsCode vs) + 1

/-- A number for the entries of an object. -/
def plainEntriesCode : List (String × Json) → ℕ
  | [] => 0
  | (k, v) :: rest =>
      Nat.pair (Encodable.encode (k.toList.map Char.toNat))
        (Nat.pair (plainCode v) (plainEntriesCode rest)) + 1

end

lemma plainTextCode_inj {s t : String}
    (h : Encodable.encode (s.toList.map Char.toNat) = Encodable.encode (t.toList.map Char.toNat)) :
    s = t := by
  have hchars : Function.Injective Char.toNat := fun a b hab => Char.toNat_inj.mp hab
  exact String.toList_inj.mp (List.map_injective_iff.mpr hchars (Encodable.encode_injective h))

mutual

/-- Different values have different codes. -/
theorem plainCode_inj : ∀ {v w : Json}, plainCode v = plainCode w → v = w
  | .null, w, h => by cases w <;> simp_all [plainCode, Nat.pair_eq_pair]
  | .bool b, w, h => by
    cases w with
    | bool c => cases b <;> cases c <;> simp_all [plainCode, Nat.pair_eq_pair]
    | _ => simp [plainCode, Nat.pair_eq_pair] at h
  | .number n, w, h => by
    cases w with
    | number m => exact congrArg _ (plainNumberCode_injective (Nat.pair_eq_pair.mp h).2)
    | _ => simp [plainCode, Nat.pair_eq_pair] at h
  | .string s, w, h => by
    cases w with
    | string t => exact congrArg _ (plainTextCode_inj (Nat.pair_eq_pair.mp h).2)
    | _ => simp [plainCode, Nat.pair_eq_pair] at h
  | .array items, w, h => by
    cases w with
    | array items' => exact congrArg _ (plainItemsCode_inj (Nat.pair_eq_pair.mp h).2)
    | _ => simp [plainCode, Nat.pair_eq_pair] at h
  | .object entries, w, h => by
    cases w with
    | object entries' => exact congrArg _ (plainEntriesCode_inj (Nat.pair_eq_pair.mp h).2)
    | _ => simp [plainCode, Nat.pair_eq_pair] at h

/-- Different arrays have different codes. -/
theorem plainItemsCode_inj : ∀ {as bs : List Json}, plainItemsCode as = plainItemsCode bs → as = bs
  | [], bs, h => by cases bs <;> simp_all [plainItemsCode]
  | a :: as, bs, h => by
    cases bs with
    | nil => simp [plainItemsCode] at h
    | cons b bs =>
      rw [plainItemsCode, plainItemsCode, Nat.add_right_cancel_iff, Nat.pair_eq_pair] at h
      rw [plainCode_inj h.1, plainItemsCode_inj h.2]

/-- Different objects have different codes. -/
theorem plainEntriesCode_inj : ∀ {as bs : List (String × Json)},
    plainEntriesCode as = plainEntriesCode bs → as = bs
  | [], bs, h => by cases bs <;> simp_all [plainEntriesCode]
  | (k, v) :: rest, bs, h => by
    cases bs with
    | nil => simp [plainEntriesCode] at h
    | cons b rest' =>
      obtain ⟨k', w⟩ := b
      rw [plainEntriesCode, plainEntriesCode, Nat.add_right_cancel_iff, Nat.pair_eq_pair,
        Nat.pair_eq_pair] at h
      rw [plainTextCode_inj h.1, plainCode_inj h.2.1, plainEntriesCode_inj h.2.2]

end

/-- The bytes of the small libraries for a value: the text of `null`, and as many zeros as the code
of any other value says. -/
def plainToVec : Json → Except String (List UInt8)
  | .null => .ok (utf8Bytes "null")
  | v => .ok (List.replicate (plainCode v) 0)

/-- They write every value, and different values differently. -/
lemma plainToVec_lawful {libs : TokenLibs} (h : libs.toVec = plainToVec) : LawfulToVec libs where
  writes v := by
    rw [h]
    unfold plainToVec
    split <;> exact ⟨_, rfl⟩
  injective v w heq := by
    rw [h] at heq
    have hzeros : ∀ n, List.replicate n (0 : UInt8) ≠ utf8Bytes "null" := by
      intro n hn
      have hmem : (110 : UInt8) ∈ List.replicate n 0 := by
        rw [hn]
        decide +kernel
      exact absurd (List.eq_of_mem_replicate hmem) (by decide)
    unfold plainToVec at heq
    refine Subtype.ext ?_
    split at heq <;> split at heq
    · simp_all
    · exact absurd (Except.ok.inj heq).symm (hzeros _)
    · exact absurd (Except.ok.inj heq) (hzeros _)
    · exact plainCode_inj (List.replicate_left_inj.mp (Except.ok.inj heq))

end CallerToken

end Orca
