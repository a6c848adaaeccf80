import Mathlib.Data.List.Dedup
import Mathlib.Data.List.Sort
import Mathlib.Logic.Function.Basic
import Orca.Mesh.PinnedCa

/-!
# The signed registry

The model of `system/src/mesh/trust_registry.rs` over `db/src/mesh/registry.rs`: the rows that the
holders of the mesh CA key sign, which are grants and revocations of members and the switch that
turns unbound envelopes off, how a reader verifies them against the CAs in its two slots, and how a
rotation signs those that are in force again.

Hosts take the actions of `HostAction`; a mesh is a family of hosts, and a run of it is a list of
actions, each with the host that takes it (`meshHostStep`).
-/

namespace Orca

open Check Invariant

/-! ## Libraries -/

/-- `hex_encode`. -/
def hexEncode (bytes : List UInt8) : String :=
  String.ofList (bytes.flatMap fun b =>
    [lowerHexDigit (b.toNat / 16), lowerHexDigit (b.toNat % 16)])
where
  /-- A hexadecimal digit in lower case. -/
  lowerHexDigit (n : Nat) : Char := Char.ofNat (if n < 10 then 0x30 + n else 0x57 + n)

/-- `u32::to_be_bytes` of a length cast to `u32`. -/
def beBytes (n : Nat) : List UInt8 :=
  [(n / 2 ^ 24).toUInt8, (n / 2 ^ 16).toUInt8, (n / 2 ^ 8).toUInt8, n.toUInt8]

/-- The bytes of a text. -/
def utf8Bytes (s : String) : List UInt8 := s.toUTF8.toList

/-- `canonical_fields`. -/
def canonicalFields (fields : List String) : List UInt8 :=
  fields.flatMap fun field => beBytes (utf8Bytes field).length ++ utf8Bytes field

/-- The libraries of the registry: those for certificates, and signatures with a CA key. -/
structure TrustLibs extends CertLibs where
  signWithCaKeyPem : (caKeyPem : String) → List UInt8 → Except String String
  verifyMeshCaSignature : (caCertPem : String) → List UInt8 → (signature : String) → Bool

/-! ## Rows -/

/-- `SECURE_GRANTED` -/
def secureGranted : String := "granted"

/-- `SECURE_REVOKED` -/
def secureRevoked : String := "revoked"

/-- `POLICY_REQUIRE_BOUND` -/
def policyRequireBound : String := "require_bound_envelopes"

/-- A row of `mesh_secure_registry`. -/
structure SecureRegistryEntry where
  id : String
  memberId : String
  state : String
  /-- The fingerprint of the CA it is signed with. -/
  caFp : String
  updatedAt : String
  signature : String
deriving DecidableEq

/-- The fields of a registry row that are signed. -/
def SecureRegistryEntry.signedFields (e : SecureRegistryEntry) : List String :=
  ["orca-secure-registry-v1", e.id, e.memberId, e.state, e.caFp]

/-- A row of `mesh_policy`. -/
structure MeshPolicyEntry where
  id : String
  key : String
  value : String
  /-- The fingerprint of the CA it is signed with. -/
  caFp : String
  updatedAt : String
  signature : String
deriving DecidableEq

/-- The fields of a policy row that are signed. -/
def MeshPolicyEntry.signedFields (e : MeshPolicyEntry) : List String :=
  ["orca-mesh-policy-v1", e.id, e.key, e.value, e.caFp]

/-- What is minted for a new row. -/
structure RowStamp where
  /-- `utils::id::new`. -/
  id : String
  updatedAt : String

/-- A mesh CA that a host trusts. -/
structure MeshCa where
  fp : String
  cert : String
  /-- `1` for the current one and `0` for the previous one. -/
  rank : Nat

/-- A host: its mesh CAs and its signed rows. -/
structure TrustHost where
  pki : PkiDir
  /-- The rows of `mesh_secure_registry`. -/
  registry : List SecureRegistryEntry
  /-- The rows of `mesh_policy`. -/
  policy : List MeshPolicyEntry

section Registry

variable (libs : TrustLibs)

/-- `sign_ca_record`. -/
def signCaRecord (caKeyPem : String) (fields : List String) : Except String String :=
  libs.signWithCaKeyPem caKeyPem (canonicalFields fields)

/-- `verify_ca_record`. -/
def verifyCaRecord (caCertPem : String) (fields : List String) (signature : String) : Bool :=
  libs.verifyMeshCaSignature caCertPem (canonicalFields fields) signature

/-- `ca_fp`. -/
def caFp (certPem : String) : String := hexEncode (libs.sha256 (utf8Bytes (trim certPem))).toList

/-- `known_cas`. -/
def knownCas (pki : PkiDir) : List MeshCa :=
  ((pki .previousCert).map fun cert => ⟨caFp libs cert, cert, 0⟩).toList ++
    ((pki .caCert).map fun cert => ⟨caFp libs cert, cert, 1⟩).toList

/-- `verified_rank`. -/
def verifiedRank (cas : List MeshCa) (fp : String) (fields : List String) (signature : String) :
    Option Nat :=
  ((cas.find? fun ca => ca.fp == fp).filter fun ca =>
    verifyCaRecord libs ca.cert fields signature).map MeshCa.rank

/-- The rank of a registry row on a host. -/
def registryRank (pki : PkiDir) (e : SecureRegistryEntry) : Option Nat :=
  verifiedRank libs (knownCas libs pki) e.caFp e.signedFields e.signature

/-- The rank of a policy row on a host. -/
def policyRank (pki : PkiDir) (e : MeshPolicyEntry) : Option Nat :=
  verifiedRank libs (knownCas libs pki) e.caFp e.signedFields e.signature

/-- `Signer` -/
structure Signer where
  key : String
  /-- The fingerprint of the current CA. -/
  fp : String

/-- `signer`. -/
def signer (pki : PkiDir) : Except String Signer := do
  let key ← required (pki .caKey)
    "only a member holding the mesh CA key can sign registry records"
  let cert ← required (pki .caCert) "read mesh CA cert"
  .ok ⟨key, caFp libs cert⟩

/-- `insert_registry_entry`. -/
def insertRegistryEntry (rows : List SecureRegistryEntry) (e : SecureRegistryEntry) :
    Except String (List SecureRegistryEntry) := do
  ensure (!rows.any fun r => r.id == e.id) "UNIQUE constraint failed: mesh_secure_registry.id"
  .ok (rows ++ [e])

/-- `insert_policy_entry`. -/
def insertPolicyEntry (rows : List MeshPolicyEntry) (e : MeshPolicyEntry) :
    Except String (List MeshPolicyEntry) := do
  ensure (!rows.any fun r => r.id == e.id) "UNIQUE constraint failed: mesh_policy.id"
  .ok (rows ++ [e])

/-- `record`. -/
def recordEntry (rows : List SecureRegistryEntry) (s : Signer) (memberId state : String)
    (stamp : RowStamp) : Except String (List SecureRegistryEntry) := do
  let entry : SecureRegistryEntry := ⟨stamp.id, memberId, state, s.fp, stamp.updatedAt, ""⟩
  let signature ← signCaRecord libs s.key entry.signedFields
  insertRegistryEntry rows { entry with signature := signature }

/-- `ranks`. -/
def ranks (h : TrustHost) (memberId state : String) : List Nat :=
  (h.registry.filter fun e => e.memberId == memberId && e.state == state).filterMap
    (registryRank libs h.pki)

/-- `is_revoked`. -/
def isRevoked (h : TrustHost) (memberId : String) : Bool :=
  let newestGrant := (ranks libs h memberId secureGranted).max?
  (ranks libs h memberId secureRevoked).any fun r => newestGrant.all fun g => g ≤ r

/-- `is_registered_secure`. -/
def isRegisteredSecure (h : TrustHost) (memberId : String) : Bool :=
  !(ranks libs h memberId secureGranted).isEmpty && !isRevoked libs h memberId

/-- `ensure_grantable`. -/
def ensureGrantable (h : TrustHost) (memberId : String) : Except String Unit :=
  ensure (!(ranks libs h memberId secureRevoked).any fun r => r == 1)
    (memberId ++ " was revoked under the current mesh CA; rotate the CA " ++
      "(`orca mesh ca rotate`) before promoting it again")

/-- `grant`. -/
def grant (h : TrustHost) (memberId : String) (stamp : RowStamp) :
    Except String (List SecureRegistryEntry) := do
  let s ← signer libs h.pki
  ensureGrantable libs h memberId
  recordEntry libs h.registry s memberId secureGranted stamp

/-- `revoke`. -/
def revoke (h : TrustHost) (memberId : String) (stamp : RowStamp) :
    Except String (List SecureRegistryEntry) := do
  let s ← signer libs h.pki
  recordEntry libs h.registry s memberId secureRevoked stamp

/-- `require_bound`. -/
def requireBound (h : TrustHost) : Bool :=
  h.policy.any fun e => e.key == policyRequireBound && e.value == "true" &&
    (policyRank libs h.pki e).isSome

/-- `record_require_bound`. -/
def recordRequireBound (rows : List MeshPolicyEntry) (s : Signer) (stamp : RowStamp) :
    Except String (List MeshPolicyEntry) := do
  let entry : MeshPolicyEntry :=
    ⟨stamp.id, policyRequireBound, "true", s.fp, stamp.updatedAt, ""⟩
  let signature ← signCaRecord libs s.key entry.signedFields
  insertPolicyEntry rows { entry with signature := signature }

/-- `enable_require_bound`, with the members that have not advertised support. -/
def enableRequireBound (h : TrustHost) (laggards : List String) (stamp : RowStamp) :
    Except String (List MeshPolicyEntry) := do
  ensure laggards.isEmpty
    ("require-bound refused: these members have not advertised bound-envelope support: " ++
      ", ".intercalate laggards)
  let s ← signer libs h.pki
  recordRequireBound libs h.policy s stamp

/-- The loop of `resign_all` over the members, with what is minted for each; the flag says whether
it came to its end. -/
def resignMembers (s : Signer) (mint : String → RowStamp) : List String → TrustHost →
    TrustHost × Bool
  | [], h => (h, true)
  | m :: members, h =>
      if isRegisteredSecure libs h m then
        match recordEntry libs h.registry s m secureGranted (mint m) with
        | .ok rows => resignMembers s mint members { h with registry := rows }
        | .error _ => (h, false)
      else resignMembers s mint members h

/-- The members of the registry, sorted and without repetition. -/
def registryMembers (h : TrustHost) : List String :=
  ((h.registry.map SecureRegistryEntry.memberId).insertionSort (· ≤ ·)).dedup

/-- The end of `resign_all`: sign the switch again. -/
def resignPolicy (s : Signer) (stamp : RowStamp) (h : TrustHost) : TrustHost :=
  if requireBound libs h then
    match recordRequireBound libs h.policy s stamp with
    | .ok rows => { h with policy := rows }
    | .error _ => h
  else h

/-- `resign_all`: the host after it, also when it is stopped by an error. -/
def resignAll (mint : String → RowStamp) (policyStamp : RowStamp) (h : TrustHost) : TrustHost :=
  match signer libs h.pki with
  | .error _ => h
  | .ok s =>
      match resignMembers libs s mint (registryMembers h) h with
      | (h', true) => resignPolicy libs s policyStamp h'
      | (h', false) => h'

/-! ## Hosts -/

/-- What a host does. -/
inductive HostAction where
  | grant (memberId : String) (stamp : RowStamp)
  | revoke (memberId : String) (stamp : RowStamp)
  | enableRequireBound (laggards : List String) (stamp : RowStamp)
  /-- It rotates the CA and signs what is in force again. -/
  | rotateMeshCa (new : PemPair) (mint : String → RowStamp) (policyStamp : RowStamp)
  | dropMeshCaPrevious
  /-- It receives the CA slots of another holder. -/
  | adopt (params : CaStatePayload) (now : Int) (demoted : Bool)
  /-- It merges a registry row of a peer. -/
  | deliverRegistry (row : SecureRegistryEntry)
  /-- It merges a policy row of a peer. -/
  | deliverPolicy (row : MeshPolicyEntry)

/-- The registry after a call that was not refused. -/
def TrustHost.withRegistry (h : TrustHost) : Except String (List SecureRegistryEntry) → TrustHost
  | .ok rows => { h with registry := rows }
  | .error _ => h

/-- The policy after a call that was not refused. -/
def TrustHost.withPolicy (h : TrustHost) : Except String (List MeshPolicyEntry) → TrustHost
  | .ok rows => { h with policy := rows }
  | .error _ => h

/-- The merge of a registry row: it must verify, and a row that is there stays. -/
def mergeRegistryRow (h : TrustHost) (row : SecureRegistryEntry) : TrustHost :=
  if (registryRank libs h.pki row).isSome then
    h.withRegistry (insertRegistryEntry h.registry row)
  else h

/-- The merge of a policy row. -/
def mergePolicyRow (h : TrustHost) (row : MeshPolicyEntry) : TrustHost :=
  if (policyRank libs h.pki row).isSome then h.withPolicy (insertPolicyEntry h.policy row) else h

/-- The host after an action. -/
def hostStep (h : TrustHost) : HostAction → TrustHost
  | .grant memberId stamp => h.withRegistry (grant libs h memberId stamp)
  | .revoke memberId stamp => h.withRegistry (revoke libs h memberId stamp)
  | .enableRequireBound laggards stamp => h.withPolicy (enableRequireBound libs h laggards stamp)
  | .rotateMeshCa new mint policyStamp =>
      match rotateMeshCa libs.toCertLibs new h.pki with
      | .ok ws => resignAll libs mint policyStamp { h with pki := h.pki.writeAll ws }
      | .error _ => h
  | .dropMeshCaPrevious => { h with pki := dropMeshCaPrevious h.pki }
  | .adopt params now demoted =>
      { h with pki := performCa libs.toCertLibs h.pki (.pushCaState params now demoted) }
  | .deliverRegistry row => mergeRegistryRow libs h row
  | .deliverPolicy row => mergePolicyRow libs h row

/-- A mesh after an action of one of its hosts. -/
def meshHostStep {H : Type} [DecidableEq H] (mesh : H → TrustHost) (a : H × HostAction) :
    H → TrustHost :=
  Function.update mesh a.1 (hostStep libs (mesh a.1) a.2)

end Registry

/-! ## Verified rows -/

section Verified

variable {libs : TrustLibs}

/-- A row is verified by the first known CA with its fingerprint. -/
lemma verifiedRank_eq_some_iff {pki : PkiDir} {fp signature : String} {fields : List String}
    {rank : Nat} :
    verifiedRank libs (knownCas libs pki) fp fields signature = some rank ↔
      (∃ p, pki .previousCert = some p ∧ caFp libs p = fp ∧
        verifyCaRecord libs p fields signature = true ∧ rank = 0) ∨
      (∃ c, pki .caCert = some c ∧ (∀ p, pki .previousCert = some p → caFp libs p ≠ fp) ∧
        caFp libs c = fp ∧ verifyCaRecord libs c fields signature = true ∧ rank = 1) := by
  have hfind : verifiedRank libs (knownCas libs pki) fp fields signature = some rank ↔
      ∃ ca, (knownCas libs pki).find? (fun ca => ca.fp == fp) = some ca ∧
        verifyCaRecord libs ca.cert fields signature = true ∧ ca.rank = rank := by
    simp only [verifiedRank, Option.map_eq_some_iff, Option.filter_eq_some_iff, and_assoc]
  rw [hfind, knownCas]
  cases hprev : pki .previousCert with
  | none =>
    cases hcur : pki .caCert with
    | none => simp
    | some c =>
      by_cases hc : caFp libs c = fp
      · simp [hc, @eq_comm _ 1 rank]
      · simp [hc]
  | some p =>
    by_cases hp : caFp libs p = fp
    · simp [hp, @eq_comm _ 0 rank]
    · cases hcur : pki .caCert with
      | none => simp [hp]
      | some c =>
        by_cases hc : caFp libs c = fp
        · simp [hp, hc, @eq_comm _ 1 rank]
        · simp [hp, hc]

end Verified

/-! ## What the functions append -/

section Appends

variable {libs : TrustLibs}

lemma insertRegistryEntry_eq_ok {rows rows' : List SecureRegistryEntry} {e : SecureRegistryEntry}
    (h : insertRegistryEntry rows e = .ok rows') : rows' = rows ++ [e] := by
  obtain ⟨-, h⟩ := then_ok_iff.mp h
  cases h
  rfl

lemma insertPolicyEntry_eq_ok {rows rows' : List MeshPolicyEntry} {e : MeshPolicyEntry}
    (h : insertPolicyEntry rows e = .ok rows') : rows' = rows ++ [e] := by
  obtain ⟨-, h⟩ := then_ok_iff.mp h
  cases h
  rfl

/-- A record appends one row for the member, under the CA of the signer. -/
lemma recordEntry_eq_ok {rows rows' : List SecureRegistryEntry} {s : Signer}
    {memberId state : String} {stamp : RowStamp}
    (h : recordEntry libs rows s memberId state stamp = .ok rows') :
    ∃ e, rows' = rows ++ [e] ∧ e.memberId = memberId ∧ e.state = state ∧ e.caFp = s.fp := by
  obtain ⟨signature, -, h⟩ := chain_ok_iff.mp h
  exact ⟨_, insertRegistryEntry_eq_ok h, rfl, rfl, rfl⟩

lemma recordRequireBound_eq_ok {rows rows' : List MeshPolicyEntry} {s : Signer} {stamp : RowStamp}
    (h : recordRequireBound libs rows s stamp = .ok rows') : ∃ e, rows' = rows ++ [e] := by
  obtain ⟨signature, -, h⟩ := chain_ok_iff.mp h
  exact ⟨_, insertPolicyEntry_eq_ok h⟩

lemma signer_eq_ok {pki : PkiDir} {s : Signer} (h : signer libs pki = .ok s) :
    ∃ c, pki .caCert = some c ∧ s.fp = caFp libs c := by
  obtain ⟨key, -, h⟩ := chain_ok_iff.mp h
  obtain ⟨cert, hcert, h⟩ := chain_ok_iff.mp h
  cases h
  exact ⟨cert, required_eq_ok.mp hcert, rfl⟩

/-- Signing the members again leaves the CAs and the policy alone. -/
lemma resignMembers_frame (libs : TrustLibs) (s : Signer) (mint : String → RowStamp)
    (members : List String)
    (h : TrustHost) : (resignMembers libs s mint members h).1.pki = h.pki ∧
      (resignMembers libs s mint members h).1.policy = h.policy := by
  induction members generalizing h with
  | nil => exact ⟨rfl, rfl⟩
  | cons m members ih =>
    unfold resignMembers
    split
    · split
      · exact ih _
      · exact ⟨rfl, rfl⟩
    · exact ih h

/-- Signing again leaves the CAs alone. -/
lemma pki_resignAll (libs : TrustLibs) (mint : String → RowStamp) (policyStamp : RowStamp)
    (h : TrustHost) :
    (resignAll libs mint policyStamp h).pki = h.pki := by
  unfold resignAll
  split
  · rfl
  · rename_i s hs
    have hframe := resignMembers_frame libs s mint (registryMembers h) h
    split
    · rename_i h' hresult
      rw [hresult] at hframe
      unfold resignPolicy
      split
      · split
        · exact hframe.1
        · exact hframe.1
      · exact hframe.1
    · rename_i h' hresult
      rw [hresult] at hframe
      exact hframe.1

/-- Signing again keeps the policy, or appends a row to it when the switch is on. -/
lemma policy_resignAll (libs : TrustLibs) (mint : String → RowStamp) (policyStamp : RowStamp)
    (h : TrustHost) :
    (resignAll libs mint policyStamp h).policy = h.policy ∨
      (∃ h', h'.pki = h.pki ∧ h'.policy = h.policy ∧ requireBound libs h' = true) ∧
        ∃ e, (resignAll libs mint policyStamp h).policy = h.policy ++ [e] := by
  unfold resignAll
  split
  · exact Or.inl rfl
  · rename_i s hs
    have hframe := resignMembers_frame libs s mint (registryMembers h) h
    split
    · rename_i h' hresult
      rw [hresult] at hframe
      unfold resignPolicy
      split
      · rename_i hon
        split
        · rename_i rows hrows
          obtain ⟨e, rfl⟩ := recordRequireBound_eq_ok hrows
          exact Or.inr ⟨⟨h', hframe.1, hframe.2, hon⟩, e, by rw [hframe.2]⟩
        · exact Or.inl hframe.2
      · exact Or.inl hframe.2
    · rename_i h' hresult
      rw [hresult] at hframe
      exact Or.inl hframe.2

end Appends

/-! ## Libraries for small runs -/

/-- The small libraries, with signatures that are the bytes of the key and the sum of the signed
bytes. -/
def plainTrustLibs : TrustLibs where
  toCertLibs := plainCertLibs
  signWithCaKeyPem key bytes := .ok (hexEncode (plainBytes key ++ [bytes.foldl (· + ·) 0]))
  verifyMeshCaSignature cert bytes signature :=
    signature == hexEncode (plainBytes cert ++ [bytes.foldl (· + ·) 0])

/-- Two holders of one CA without rows. -/
def plainMesh : Bool → TrustHost := fun _ => ⟨plainDir, [], []⟩

end Orca
