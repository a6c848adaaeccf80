import Orca.Data.Text
import Orca.Library.Check

/-!
# The mesh PKI directory

The model of the mesh part of `utils/src/pki.rs`: the files of the directory `mesh`, and the
functions that rotate, install and drop the certificate authorities and the leaves in them, with
`check_ca_rotation` and `handle_push_ca_state` of `system/src/mesh/listener.rs`.

A function that changes the directory is modelled by the list of the writes it makes
(`PkiWrite`, one `atomic_write` each), computed from what it reads before the first of them.
`PkiDir.writeAll` is the directory after a list of writes, so that a function that is stopped leaves
the directory after a prefix of its list.  Reading and signing certificates belongs to other
libraries and is a parameter (`CertLibs`).
-/

namespace Orca

open Check

/-! ## Files -/

/-- A file of the directory `mesh`. -/
inductive PkiFile where
  | caCert
  | caKey
  | previousCert
  | previousKey
  | retired
  | serverCert
  | serverKey
  | clientCert
  | clientKey
deriving DecidableEq

/-- The text of every file that is there. -/
def PkiDir := PkiFile → Option String

/-- One `atomic_write`. -/
structure PkiWrite where
  file : PkiFile
  text : String
deriving DecidableEq

namespace PkiDir

/-- The directory after a write. -/
def write (d : PkiDir) (w : PkiWrite) : PkiDir :=
  fun f => if f = w.file then some w.text else d f

/-- The directory after a list of writes. -/
def writeAll (d : PkiDir) (ws : List PkiWrite) : PkiDir := ws.foldl write d

/-- `std::fs::remove_file`. -/
def remove (d : PkiDir) (f : PkiFile) : PkiDir := fun g => if g = f then none else d g

lemma write_apply (d : PkiDir) (w : PkiWrite) (f : PkiFile) :
    d.write w f = if f = w.file then some w.text else d f := rfl

lemma writeAll_append (d : PkiDir) (ws ws' : List PkiWrite) :
    d.writeAll (ws ++ ws') = (d.writeAll ws).writeAll ws' := List.foldl_append

/-- Writes to other files leave a file alone. -/
lemma writeAll_of_forall_ne {d : PkiDir} {ws : List PkiWrite} {f : PkiFile}
    (h : ∀ w ∈ ws, w.file ≠ f) : d.writeAll ws f = d f := by
  induction ws generalizing d with
  | nil => rfl
  | cons w ws ih =>
    have hw : f ≠ w.file := (h w List.mem_cons_self).symm
    calc d.writeAll (w :: ws) f = (d.write w).writeAll ws f := rfl
      _ = d.write w f := ih fun w' hw' => h w' (List.mem_cons_of_mem w hw')
      _ = d f := by rw [write_apply, if_neg hw]

/-- A file that was written holds the text of one of the writes to it. -/
lemma writeAll_of_exists {d : PkiDir} {ws : List PkiWrite} {f : PkiFile}
    (h : ∃ w ∈ ws, w.file = f) : ∃ w ∈ ws, w.file = f ∧ d.writeAll ws f = some w.text := by
  induction ws generalizing d with
  | nil => simp at h
  | cons w ws ih =>
    by_cases htail : ∃ w ∈ ws, w.file = f
    · obtain ⟨w', hw', hfile, htext⟩ := ih (d := d.write w) htail
      exact ⟨w', List.mem_cons_of_mem w hw', hfile, htext⟩
    · have hw : w.file = f := by
        obtain ⟨w', hw', hfile⟩ := h
        rcases List.mem_cons.mp hw' with rfl | hw'
        · exact hfile
        · exact absurd ⟨w', hw', hfile⟩ htail
      refine ⟨w, List.mem_cons_self, hw, ?_⟩
      calc d.writeAll (w :: ws) f = (d.write w).writeAll ws f := rfl
        _ = d.write w f := writeAll_of_forall_ne fun w' hw' hfile => htail ⟨w', hw', hfile⟩
        _ = some w.text := if_pos hw.symm

end PkiDir

/-! ## Certificates -/

/-- What is read of a certificate. -/
structure X509 where
  publicKey : List UInt8
  /-- `basicConstraints CA:TRUE`. -/
  isCa : Bool
  /-- Start of its validity in seconds since the epoch. -/
  notBefore : Int
  notAfter : Int
  /-- The first common name of its subject. -/
  commonName : Option String
  /-- The DNS names of its `subjectAltName`, if it has a readable one. -/
  dnsNames : Option (List String)

/-- The role of a leaf certificate. -/
inductive PeerRole where
  | client
  | server
deriving DecidableEq

/-- The functions of `rustls_pemfile`, `x509_parser`, `rcgen`, `rustls` and `sha2` that are used. -/
structure CertLibs where
  /-- The DER of the first certificate in a PEM text. -/
  firstCert : String → Except String (List UInt8)
  /-- `parse_x509_certificate`. -/
  parseX509 : List UInt8 → Option X509
  sha256 : List UInt8 → Vector UInt8 32
  /-- The public half of a key in PEM. -/
  publicKeyOf : String → Option (List UInt8)
  /-- Issue a leaf for a role and a host under a CA certificate and key, for a fresh key. -/
  issue : (caCertPem caKeyPem : String) → PeerRole → (hostCn keyPem : String) → Except String String
  /-- The verifiers of `rustls` for a role: whether a leaf chains to one of the roots, now. -/
  chains : (roots : List String) → PeerRole → List UInt8 → Bool

/-- A certificate with its key, in PEM. -/
structure PemPair where
  certPem : String
  keyPem : String
deriving DecidableEq

section Certificates

variable (libs : CertLibs)

/-- `cert_fingerprint`. -/
def certFingerprint (certPem : String) : Except String String := do
  let der ← libs.firstCert certPem
  .ok (colonHex (libs.sha256 der).toList)

/-- `ensure_key_matches_cert`. -/
def ensureKeyMatchesCert (certPem keyPem : String) : Except String Unit := do
  let key ← required (libs.publicKeyOf keyPem) "key is not valid PEM"
  let der ← libs.firstCert certPem
  let parsed ← required (libs.parseX509 der) "parse cert"
  ensure (decide (parsed.publicKey = key)) "key does not match the certificate's public key"

/-- `ensure_valid_ca_cert`. -/
def ensureValidCaCert (certPem : String) (now : Int) : Except String Unit := do
  let der ← libs.firstCert certPem
  let parsed ← required (libs.parseX509 der) "parse cert"
  ensure parsed.isCa "certificate is not a CA"
  ensure (decide (parsed.notBefore ≤ now ∧ now ≤ parsed.notAfter))
    "certificate is outside its validity period"

/-- A certificate and a key belong together. -/
def KeyMatches (certPem keyPem : String) : Prop := ensureKeyMatchesCert libs certPem keyPem = .ok ()

variable {libs}

/-- A key belongs to a certificate that carries its public half. -/
lemma keyMatches_iff {certPem keyPem : String} :
    KeyMatches libs certPem keyPem ↔ ∃ der parsed, libs.firstCert certPem = .ok der ∧
      libs.parseX509 der = some parsed ∧ libs.publicKeyOf keyPem = some parsed.publicKey := by
  unfold KeyMatches ensureKeyMatchesCert
  constructor
  · intro h
    obtain ⟨key, hkey, h⟩ := chain_ok_iff.mp h
    obtain ⟨der, hder, h⟩ := chain_ok_iff.mp h
    obtain ⟨parsed, hparsed, h⟩ := chain_ok_iff.mp h
    rw [required_eq_ok] at hkey hparsed
    rw [ensure_eq_ok, decide_eq_true_eq] at h
    exact ⟨der, parsed, hder, hparsed, h ▸ hkey⟩
  · rintro ⟨der, parsed, hder, hparsed, hkey⟩
    refine chain_ok_iff.mpr ⟨_, required_eq_ok.mpr hkey, ?_⟩
    refine chain_ok_iff.mpr ⟨_, hder, ?_⟩
    refine chain_ok_iff.mpr ⟨_, required_eq_ok.mpr hparsed, ?_⟩
    simp

end Certificates

/-! ## Retired authorities -/

/-- `MAX_RETIRED_MESH_CAS` -/
def maxRetiredMeshCas : Nat := 64

/-- `retired_mesh_ca_fingerprints`. -/
def retiredMeshCaFingerprints (d : PkiDir) : List String :=
  match d .retired with
  | none => []
  | some text => ((lines text).map trim).filter fun l => l != ""

section Retired

variable (libs : CertLibs)

/-- `ensure_mesh_ca_not_retired`. -/
def ensureMeshCaNotRetired (certPem : String) (d : PkiDir) : Except String Unit := do
  let fp ← context (certFingerprint libs certPem) "mesh CA cert is unreadable"
  ensure (!(retiredMeshCaFingerprints d).contains fp)
    "mesh CA was previously retired by this host (downgrade)"

/-- The history after a fingerprint was retired: the last ones, this one newest. -/
def retire (fp : String) (fps : List String) : List String :=
  let fps := (fps.filter fun f => f != fp) ++ [fp]
  fps.drop (fps.length - maxRetiredMeshCas)

/-- `record_retired_mesh_ca`. -/
def recordRetiredMeshCa (certPem : String) (d : PkiDir) : Except String PkiWrite := do
  let fp ← certFingerprint libs certPem
  .ok ⟨.retired, unlines (retire fp (retiredMeshCaFingerprints d))⟩

/-! ## Changing the directory -/

/-- `has_mesh_ca_key`. -/
def hasMeshCaKey (d : PkiDir) : Bool := (d .caKey).isSome

/-- `install_joined_mesh_ca`. -/
def installJoinedMeshCa (certPem : String) (d : PkiDir) : Except String (List PkiWrite) := do
  ensureMeshCaNotRetired libs certPem d
  .ok [⟨.caCert, certPem⟩]

/-- `rotate_mesh_ca`, with the authority it generates. -/
def rotateMeshCa (new : PemPair) (d : PkiDir) : Except String (List PkiWrite) := do
  ensure (hasMeshCaKey d) "ca-rotate: this host does not have the mesh CA private key"
  let curCertPem ← required (d .caCert) "read current CA cert"
  let curKeyPem ← required (d .caKey) "read current CA key"
  let record ← recordRetiredMeshCa libs curCertPem d
  .ok [record, ⟨.previousCert, curCertPem⟩, ⟨.previousKey, curKeyPem⟩,
    ⟨.caCert, new.certPem⟩, ⟨.caKey, new.keyPem⟩]

/-- `drop_mesh_ca_previous`. -/
def dropMeshCaPrevious (d : PkiDir) : PkiDir := (d.remove .previousCert).remove .previousKey

/-- One iteration of the loop of `import_mesh_ca_state`: retire the CA of a slot unless it is the
one that is installed. -/
def retireSlot (currentCertPem : String) (d : PkiDir) (slot : PkiFile) :
    Except String (List PkiWrite) :=
  match d slot with
  | none => .ok []
  | some pem =>
      if trim pem = trim currentCertPem then .ok []
      else do
        let record ← recordRetiredMeshCa libs pem d
        .ok [record]

/-- The key of each slot is checked against its certificate, if the slot is given in full. -/
def checkPreviousPair : Option String → Option String → Except String Unit
  | some c, some k =>
      context (ensureKeyMatchesCert libs c k)
        "imported previous key does not match previous cert"
  | _, _ => .ok ()

/-- The writes to the previous slot, if it is given in full. -/
def previousSlotWrites : Option String → Option String → List PkiWrite
  | some c, some k => [⟨.previousCert, c⟩, ⟨.previousKey, k⟩]
  | _, _ => []

/-- `import_mesh_ca_state`. -/
def importMeshCaState (currentCertPem currentKeyPem : String)
    (previousCertPem previousKeyPem : Option String) (d : PkiDir) :
    Except String (List PkiWrite) := do
  context (ensureKeyMatchesCert libs currentCertPem currentKeyPem)
    "imported current key does not match current cert"
  checkPreviousPair libs previousCertPem previousKeyPem
  let first ← retireSlot libs currentCertPem d .previousCert
  let second ← retireSlot libs currentCertPem (d.writeAll first) .caCert
  .ok (first ++ second ++ [⟨.caCert, currentCertPem⟩, ⟨.caKey, currentKeyPem⟩] ++
    previousSlotWrites previousCertPem previousKeyPem)

/-! ## Pushed authorities -/

/-- `CaStatePayload` -/
structure CaStatePayload where
  currentCertPem : String
  currentKeyPem : String
  previousCertPem : Option String
  previousKeyPem : Option String
  /-- When the previous slot is to be dropped, in seconds since the epoch. -/
  previousExpiresAt : Option Int

/-- `MAX_CA_OVERLAP_SECS` -/
def maxCaOverlapSecs : Int := 90 * 86400

/-- `check_ca_rotation`. -/
def checkCaRotation (params : CaStatePayload) (localCurrent : String)
    (localPrevious : Option String) (retired : List String) (now : Int) : Except String Unit := do
  let prevCert ← required params.previousCertPem
    "mesh/push-ca-state refused: a CA state push must be a rotation of the current CA"
  let prevKey ← required params.previousKeyPem
    "mesh/push-ca-state refused: a CA state push must be a rotation of the current CA"
  ensure (trim prevCert == trim localCurrent)
    "mesh/push-ca-state refused: rotation does not chain from this host's current mesh CA"
  context (ensureKeyMatchesCert libs localCurrent prevKey)
    "mesh/push-ca-state refused: sender did not prove possession of the current CA key"
  let newCurrent := trim params.currentCertPem
  ensure (newCurrent != trim localCurrent)
    "mesh/push-ca-state refused: pushed CA is already this host's current CA"
  ensure (localPrevious.all fun p => trim p != newCurrent)
    "mesh/push-ca-state refused: pushed CA is this host's previous CA (downgrade)"
  let newFp ← context (certFingerprint libs newCurrent)
    "mesh/push-ca-state refused: pushed current cert is unreadable"
  ensure (!retired.contains newFp)
    "mesh/push-ca-state refused: pushed CA was previously retired by this host (downgrade)"
  context (ensureValidCaCert libs newCurrent now)
    "mesh/push-ca-state refused: pushed current cert is not a valid CA"
  let exp ← required params.previousExpiresAt
    "mesh/push-ca-state refused: previous CA slot requires previous_expires_at"
  ensure (decide (now < exp ∧ exp - now ≤ maxCaOverlapSecs))
    "mesh/push-ca-state refused: previous CA overlap must end within 90 days"

/-- `handle_push_ca_state` once the sender is admitted. -/
def handlePushCaState (params : CaStatePayload) (now : Int) (d : PkiDir) :
    Except String (List PkiWrite) := do
  let localCurrent ← required (d .caCert) "mesh/push-ca-state: read local mesh CA cert"
  checkCaRotation libs params localCurrent (d .previousCert) (retiredMeshCaFingerprints d) now
  importMeshCaState libs params.currentCertPem params.currentKeyPem params.previousCertPem
    params.previousKeyPem d

end Retired

/-! ## What the writes are -/

section Writes

variable {libs : CertLibs} {d : PkiDir}

lemma file_recordRetiredMeshCa {certPem : String} {w : PkiWrite}
    (h : recordRetiredMeshCa libs certPem d = .ok w) : w.file = .retired := by
  unfold recordRetiredMeshCa at h
  obtain ⟨fp, -, h⟩ := chain_ok_iff.mp h
  cases h
  rfl

/-- The writes of a rotation. -/
lemma rotateMeshCa_eq_ok {new : PemPair} {ws : List PkiWrite}
    (h : rotateMeshCa libs new d = .ok ws) :
    ∃ curCertPem curKeyPem record, d .caCert = some curCertPem ∧ d .caKey = some curKeyPem ∧
      recordRetiredMeshCa libs curCertPem d = .ok record ∧
      ws = [record, ⟨.previousCert, curCertPem⟩, ⟨.previousKey, curKeyPem⟩,
        ⟨.caCert, new.certPem⟩, ⟨.caKey, new.keyPem⟩] := by
  unfold rotateMeshCa at h
  obtain ⟨-, h⟩ := then_ok_iff.mp h
  obtain ⟨curCertPem, hcert, h⟩ := chain_ok_iff.mp h
  obtain ⟨curKeyPem, hkey, h⟩ := chain_ok_iff.mp h
  obtain ⟨record, hrecord, h⟩ := chain_ok_iff.mp h
  cases h
  exact ⟨curCertPem, curKeyPem, record, required_eq_ok.mp hcert, required_eq_ok.mp hkey, hrecord,
    rfl⟩

end Writes

/-! ## Libraries for small runs -/

/-- The bytes of a text without its white space. -/
def plainBytes (s : String) : List UInt8 :=
  (s.toList.filter fun c => !isWhitespace c).map fun c => c.toNat.toUInt8

/-- Libraries for small runs: a certificate and a key are the bytes of their text without white
space, and belong together when these are the same. -/
def plainCertLibs : CertLibs where
  firstCert s := .ok (plainBytes s)
  parseX509 der := some ⟨der, true, 0, 4102444800, none, none⟩
  sha256 der := Vector.ofFn fun i => der.getD i 0
  publicKeyOf s := some (plainBytes s)
  issue _ _ _ _ keyPem := .ok keyPem
  chains _ _ _ := true

/-- A certificate and a key of the small libraries belong together when they are the same text up to
white space. -/
lemma plainCertLibs_keyMatches {certPem keyPem : String} :
    KeyMatches plainCertLibs certPem keyPem ↔ plainBytes certPem = plainBytes keyPem := by
  rw [keyMatches_iff]
  constructor
  · rintro ⟨der, parsed, hder, hparsed, hkey⟩
    cases hder
    cases hparsed
    exact (Option.some.inj hkey).symm
  · intro h
    exact ⟨_, _, rfl, rfl, congrArg some h.symm⟩

/-- A host with an authority. -/
def plainDir : PkiDir
  | .caCert => some "old"
  | .caKey => some "old"
  | _ => none

end Orca
