import Mathlib.Data.List.Sort
import Orca.Data.Text
import Orca.Library.Invariant
import Orca.Mesh.Pki

/-!
# Interrupted rotations

The model of the functions of `utils/src/pki.rs` that replace certificates and keys, run after run,
any of which may be stopped between two of its writes: `rotate_mesh_ca`, `reissue_mesh_server_cert`,
`reissue_mesh_client_cert` and `install_refreshed_peer_certs`.

An `Attempt` is a call with the number of writes after which it was stopped.  Every call writes the
certificate of a slot and then its key (`writes_paired`), so that a slot belongs together except
between these two writes.  The results say at which moments it does, and what the previous slot
holds after a rotation.
-/

namespace Orca

open Check Invariant

/-! ## Leaves signed by a peer -/

/-- `MESH_SERVER_SAN` -/
def meshServerSan : String := "mesh.orca.local"

/-- `mesh_identity_san`. -/
def meshIdentitySan (hostCn : String) : String := hostCn ++ "." ++ meshServerSan

/-- `mesh_shared_server_sans`. -/
def meshSharedServerSans : List String := [meshServerSan, "pod.orca.local"]

/-- `mesh_server_sans`. -/
def meshServerSans (hostCn : String) : List String :=
  meshSharedServerSans ++ [meshIdentitySan hostCn]

/-- `mesh_client_sans`. -/
def meshClientSans (hostCn : String) : List String :=
  [meshIdentitySan hostCn, hostCn ++ ".pod.orca.local"]

section Leaves

variable (libs : CertLibs)

/-- The names in a certificate, none when it cannot be parsed. -/
def certDnsNamesDer (der : List UInt8) : Option (List String) :=
  (libs.parseX509 der).bind X509.dnsNames

/-- `mesh_server_identity`. -/
def meshServerIdentity (der : List UInt8) : Except String (Option String) := do
  let ids := ((certDnsNamesDer libs der).getD []).filterMap fun d =>
    stripSuffix d ("." ++ meshServerSan)
  ensure (decide (ids.length ≤ 1)) "mesh server cert names more than one system"
  .ok ids.head?

/-- `check_refreshed_leaf`. -/
def checkRefreshedLeaf (role certPem : String) (certDer : List UInt8)
    (keyPem expectedCn : String) (expectedSans : List String) : Except String Unit := do
  let parsed ← required (libs.parseX509 certDer) "parse refreshed cert"
  let key ← required (libs.publicKeyOf keyPem) "parse refresh CSR key"
  ensure (decide (parsed.publicKey = key))
    ("refreshed " ++ role ++ " cert does not carry the key from our CSR")
  let cn ← required parsed.commonName "peer cert has no Subject CN"
  ensure (cn == expectedCn)
    ("refreshed " ++ role ++ " cert CN is " ++ cn.quote ++ ", expected " ++ expectedCn.quote)
  let sans ← required (((libs.firstCert certPem).toOption).bind (certDnsNamesDer libs))
    "refreshed cert has no readable SANs"
  ensure (sans.mergeSort (· ≤ ·) == expectedSans.mergeSort (· ≤ ·))
    ("refreshed " ++ role ++ " cert SANs differ from expected")

/-- The CA certificates this host trusts: the current one and the previous one. -/
def caRoots (d : PkiDir) : List String := (d .caCert).toList ++ (d .previousCert).toList

/-- What a server leaf without an identity name is refused with, or the second check it gets. -/
def checkServerWithoutIdentity (d : PkiDir) (server : PemPair) (serverDer : List UInt8)
    (e : String) : Except String Unit :=
  let remedy := "upgrade a CA-key holder, or run " ++
    "`orca system mesh update --action unpin --id <this host>` on each peer"
  let current := do
    let pem ← required (d .serverCert) "read current server cert"
    let der ← libs.firstCert pem
    meshServerIdentity libs der
  match current with
  | .ok (some _) =>
      .error ("refreshed server cert has no identity name but the current one has; " ++
        "the signer predates identity names; keeping the current cert; " ++ remedy)
  | .error readErr =>
      .error ("refreshed server cert has no identity name and the current one is " ++
        "unreadable (" ++ readErr ++ "); keeping the current cert; " ++ remedy)
  | .ok none =>
      context (checkRefreshedLeaf libs "server" server.certPem serverDer server.keyPem
        "orca-mesh-server" meshSharedServerSans) e

/-- `verify_refreshed_peer_certs`. -/
def verifyRefreshedPeerCerts (d : PkiDir) (hostCn : String) (client server : PemPair) :
    Except String Unit := do
  let _ ← required (d .caCert) "read mesh CA cert"
  let clientDer ← context (libs.firstCert client.certPem) "refreshed client cert"
  let serverDer ← context (libs.firstCert server.certPem) "refreshed server cert"
  ensure (libs.chains (caRoots d) .client clientDer)
    "refreshed client cert does not verify against the mesh CA"
  ensure (libs.chains (caRoots d) .server serverDer)
    "refreshed server cert does not verify against the mesh CA"
  checkRefreshedLeaf libs "client" client.certPem clientDer client.keyPem hostCn
    (meshClientSans hostCn)
  match checkRefreshedLeaf libs "server" server.certPem serverDer server.keyPem "orca-mesh-server"
      (meshServerSans hostCn) with
  | .ok () => .ok ()
  | .error e => checkServerWithoutIdentity libs d server serverDer e

/-- `install_refreshed_peer_certs`. -/
def installRefreshedPeerCerts (hostCn : String) (client server : PemPair) (d : PkiDir) :
    Except String (List PkiWrite) := do
  verifyRefreshedPeerCerts libs d hostCn client server
  .ok [⟨.clientCert, client.certPem⟩, ⟨.clientKey, client.keyPem⟩,
    ⟨.serverCert, server.certPem⟩, ⟨.serverKey, server.keyPem⟩]

/-- `reissue_mesh_server_cert` and `reissue_mesh_client_cert`: issue a leaf for a role under the
local CA, with the key that was generated for it. -/
def reissueLeaf (role : PeerRole) (certFile keyFile : PkiFile) (hostCn keyPem : String)
    (d : PkiDir) : Except String (List PkiWrite) := do
  ensure (hasMeshCaKey d) "reissue: this host does not have the mesh CA private key"
  let caCertPem ← required (d .caCert) "read mesh CA cert"
  let caKeyPem ← required (d .caKey) "read mesh CA key"
  let certPem ← libs.issue caCertPem caKeyPem role hostCn keyPem
  .ok [⟨certFile, certPem⟩, ⟨keyFile, keyPem⟩]

/-- `reissue_mesh_server_cert`. -/
def reissueMeshServerCert (hostCn keyPem : String) (d : PkiDir) :
    Except String (List PkiWrite) :=
  reissueLeaf libs .server .serverCert .serverKey hostCn keyPem d

/-- `reissue_mesh_client_cert`. -/
def reissueMeshClientCert (hostCn keyPem : String) (d : PkiDir) :
    Except String (List PkiWrite) :=
  reissueLeaf libs .client .clientCert .clientKey hostCn keyPem d

end Leaves

/-! ## Attempts -/

/-- A call that replaces certificates and keys, with what it generates. -/
inductive PkiCall where
  | rotateMeshCa (new : PemPair)
  | reissueMeshServerCert (hostCn keyPem : String)
  | reissueMeshClientCert (hostCn keyPem : String)
  | installRefreshedPeerCerts (hostCn : String) (client server : PemPair)

/-- The writes of a call. -/
def PkiCall.writes (libs : CertLibs) (d : PkiDir) : PkiCall → Except String (List PkiWrite)
  | rotateMeshCa new => Orca.rotateMeshCa libs new d
  | reissueMeshServerCert hostCn keyPem => Orca.reissueMeshServerCert libs hostCn keyPem d
  | reissueMeshClientCert hostCn keyPem => Orca.reissueMeshClientCert libs hostCn keyPem d
  | installRefreshedPeerCerts hostCn client server =>
      Orca.installRefreshedPeerCerts libs hostCn client server d

/-- A call, and after how many writes it was stopped if it did not return. -/
structure Attempt where
  call : PkiCall
  /-- The number of its writes, when it was stopped. -/
  stopped : Option Nat

/-- A call that returned. -/
def PkiCall.unstopped (call : PkiCall) : Attempt := ⟨call, none⟩

section Runs

variable (libs : CertLibs)

/-- The writes an attempt made. -/
def Attempt.made (d : PkiDir) (a : Attempt) : List PkiWrite :=
  match a.call.writes libs d with
  | .error _ => []
  | .ok ws =>
      match a.stopped with
      | none => ws
      | some n => ws.take n

/-- The directory after an attempt. -/
def attemptStep (d : PkiDir) (a : Attempt) : PkiDir := d.writeAll (a.made libs d)

/-- The writes of a run of attempts, in order. -/
def runWrites : PkiDir → List Attempt → List PkiWrite
  | _, [] => []
  | d, a :: as => a.made libs d ++ runWrites (attemptStep libs d a) as

end Runs

/-! ## Slots -/

/-- A slot that holds a certificate and its key. -/
inductive KeySlot where
  | currentCa
  | serverLeaf
  | clientLeaf
deriving DecidableEq

namespace KeySlot

/-- The file with the certificate. -/
def certFile : KeySlot → PkiFile
  | currentCa => .caCert
  | serverLeaf => .serverCert
  | clientLeaf => .clientCert

/-- The file with the key. -/
def keyFile : KeySlot → PkiFile
  | currentCa => .caKey
  | serverLeaf => .serverKey
  | clientLeaf => .clientKey

lemma keyFile_ne_certFile (s s' : KeySlot) : s.keyFile ≠ s'.certFile := by
  cases s <;> cases s' <;> decide

end KeySlot

/-- The certificate and the key of a slot belong together, or neither is there. -/
def Matched (libs : CertLibs) (d : PkiDir) (s : KeySlot) : Prop :=
  match d s.certFile, d s.keyFile with
  | some c, some k => KeyMatches libs c k
  | none, none => True
  | _, _ => False

/-- A write to a file of a slot. -/
def Touches (s : KeySlot) (w : PkiWrite) : Prop := w.file = s.certFile ∨ w.file = s.keyFile

/-- A list of writes replaces a slot, certificate first: it leaves the slot alone, or it writes a
certificate and, directly after it, the key of that certificate. -/
def Paired (libs : CertLibs) (s : KeySlot) (ws : List PkiWrite) : Prop :=
  (∀ w ∈ ws, ¬Touches s w) ∨
    ∃ before c k after, ws = before ++ ⟨s.certFile, c⟩ :: ⟨s.keyFile, k⟩ :: after ∧
      (∀ w ∈ before, ¬Touches s w) ∧ (∀ w ∈ after, ¬Touches s w) ∧ KeyMatches libs c k

section Paired

variable {libs : CertLibs}

/-- A leaf that passes the check carries the key it is checked with. -/
lemma keyMatches_of_checkRefreshedLeaf {role certPem keyPem expectedCn : String}
    {certDer : List UInt8} {expectedSans : List String}
    (hder : libs.firstCert certPem = .ok certDer)
    (h : checkRefreshedLeaf libs role certPem certDer keyPem expectedCn expectedSans = .ok ()) :
    KeyMatches libs certPem keyPem := by
  unfold checkRefreshedLeaf at h
  obtain ⟨parsed, hparsed, h⟩ := chain_ok_iff.mp h
  obtain ⟨key, hkey, h⟩ := chain_ok_iff.mp h
  obtain ⟨hmatch, -⟩ := then_ok_iff.mp h
  rw [required_eq_ok] at hparsed hkey
  rw [ensure_eq_ok, decide_eq_true_eq] at hmatch
  exact keyMatches_iff.mpr ⟨certDer, parsed, hder, hparsed, hmatch ▸ hkey⟩

/-- The second check of a server leaf is the first one with other names. -/
lemma keyMatches_of_checkServerWithoutIdentity {d : PkiDir} {server : PemPair}
    {serverDer : List UInt8} {e : String} (hder : libs.firstCert server.certPem = .ok serverDer)
    (h : checkServerWithoutIdentity libs d server serverDer e = .ok ()) :
    KeyMatches libs server.certPem server.keyPem := by
  unfold checkServerWithoutIdentity at h
  simp only at h
  split at h
  · cases h
  · cases h
  · exact keyMatches_of_checkRefreshedLeaf hder (context_eq_ok.mp h)

/-- Refreshed leaves that are accepted carry their keys. -/
lemma keyMatches_of_verifyRefreshedPeerCerts {d : PkiDir} {hostCn : String}
    {client server : PemPair}
    (h : verifyRefreshedPeerCerts libs d hostCn client server = .ok ()) :
    KeyMatches libs client.certPem client.keyPem ∧
      KeyMatches libs server.certPem server.keyPem := by
  unfold verifyRefreshedPeerCerts at h
  obtain ⟨-, -, h⟩ := chain_ok_iff.mp h
  obtain ⟨clientDer, hclient, h⟩ := chain_ok_iff.mp h
  obtain ⟨serverDer, hserver, h⟩ := chain_ok_iff.mp h
  obtain ⟨-, h⟩ := then_ok_iff.mp h
  obtain ⟨-, h⟩ := then_ok_iff.mp h
  obtain ⟨hleaf, h⟩ := then_ok_iff.mp h
  rw [context_eq_ok] at hclient hserver
  refine ⟨keyMatches_of_checkRefreshedLeaf hclient hleaf, ?_⟩
  split at h
  · rename_i hfirst
    exact keyMatches_of_checkRefreshedLeaf hserver hfirst
  · exact keyMatches_of_checkServerWithoutIdentity hserver h

/-- `rcgen` puts the public half of the key it is given into the leaf it issues. -/
def IssuesMatching (libs : CertLibs) : Prop :=
  ∀ caCertPem caKeyPem role hostCn keyPem certPem,
    libs.issue caCertPem caKeyPem role hostCn keyPem = .ok certPem → KeyMatches libs certPem keyPem

/-- The authority a rotation generates belongs together. -/
def PkiCall.Generated (libs : CertLibs) : PkiCall → Prop
  | rotateMeshCa new => KeyMatches libs new.certPem new.keyPem
  | _ => True

/-- The writes of a leaf that is reissued. -/
lemma reissueLeaf_eq_ok {role : PeerRole} {certFile keyFile : PkiFile} {hostCn keyPem : String}
    {d : PkiDir} {ws : List PkiWrite} (hissue : IssuesMatching libs)
    (h : reissueLeaf libs role certFile keyFile hostCn keyPem d = .ok ws) :
    ∃ certPem, ws = [⟨certFile, certPem⟩, ⟨keyFile, keyPem⟩] ∧ KeyMatches libs certPem keyPem := by
  unfold reissueLeaf at h
  obtain ⟨-, h⟩ := then_ok_iff.mp h
  obtain ⟨caCertPem, -, h⟩ := chain_ok_iff.mp h
  obtain ⟨caKeyPem, -, h⟩ := chain_ok_iff.mp h
  obtain ⟨certPem, hcert, h⟩ := chain_ok_iff.mp h
  cases h
  exact ⟨certPem, rfl, hissue _ _ _ _ _ _ hcert⟩

/-- **Every call writes the certificate of a slot and then its key.** -/
lemma writes_paired (hissue : IssuesMatching libs) {call : PkiCall} {d : PkiDir}
    (hgenerated : call.Generated libs) {ws : List PkiWrite} (h : call.writes libs d = .ok ws)
    (s : KeySlot) : Paired libs s ws := by
  cases call with
  | rotateMeshCa new =>
    obtain ⟨curCertPem, curKeyPem, record, -, -, hrecord, rfl⟩ := rotateMeshCa_eq_ok h
    have hfile : record.file = .retired := file_recordRetiredMeshCa hrecord
    cases s with
    | currentCa =>
      refine Or.inr ⟨[record, ⟨.previousCert, curCertPem⟩, ⟨.previousKey, curKeyPem⟩],
        new.certPem, new.keyPem, [], rfl, ?_, by simp, hgenerated⟩
      simp [Touches, KeySlot.certFile, KeySlot.keyFile, hfile]
    | serverLeaf => exact Or.inl (by simp [Touches, KeySlot.certFile, KeySlot.keyFile, hfile])
    | clientLeaf => exact Or.inl (by simp [Touches, KeySlot.certFile, KeySlot.keyFile, hfile])
  | reissueMeshServerCert hostCn keyPem =>
    obtain ⟨certPem, rfl, hmatch⟩ := reissueLeaf_eq_ok hissue h
    cases s with
    | serverLeaf => exact Or.inr ⟨[], certPem, keyPem, [], rfl, by simp, by simp, hmatch⟩
    | currentCa => exact Or.inl (by simp [Touches, KeySlot.certFile, KeySlot.keyFile])
    | clientLeaf => exact Or.inl (by simp [Touches, KeySlot.certFile, KeySlot.keyFile])
  | reissueMeshClientCert hostCn keyPem =>
    obtain ⟨certPem, rfl, hmatch⟩ := reissueLeaf_eq_ok hissue h
    cases s with
    | clientLeaf => exact Or.inr ⟨[], certPem, keyPem, [], rfl, by simp, by simp, hmatch⟩
    | currentCa => exact Or.inl (by simp [Touches, KeySlot.certFile, KeySlot.keyFile])
    | serverLeaf => exact Or.inl (by simp [Touches, KeySlot.certFile, KeySlot.keyFile])
  | installRefreshedPeerCerts hostCn client server =>
    obtain ⟨hverify, h⟩ := then_ok_iff.mp h
    obtain ⟨hclient, hserver⟩ := keyMatches_of_verifyRefreshedPeerCerts hverify
    cases h
    cases s with
    | currentCa => exact Or.inl (by simp [Touches, KeySlot.certFile, KeySlot.keyFile])
    | clientLeaf =>
      refine Or.inr ⟨[], client.certPem, client.keyPem, _, rfl, by simp, ?_, hclient⟩
      simp [Touches, KeySlot.certFile, KeySlot.keyFile]
    | serverLeaf =>
      refine Or.inr ⟨[⟨.clientCert, client.certPem⟩, ⟨.clientKey, client.keyPem⟩], server.certPem,
        server.keyPem, [], rfl, ?_, by simp, hserver⟩
      simp [Touches, KeySlot.certFile, KeySlot.keyFile]

/-- How far a prefix of the writes of a call has replaced a slot. -/
lemma prefix_cases {s : KeySlot} {ws made : List PkiWrite} (hpaired : Paired libs s ws)
    (hmade : made <+: ws) :
    (∀ w ∈ made, ¬Touches s w) ∨
    (∃ before c, made = before ++ [⟨s.certFile, c⟩] ∧ (∀ w ∈ before, ¬Touches s w) ∧
      ⟨s.certFile, c⟩ ∈ ws) ∨
    ∃ before c k after, made = before ++ ⟨s.certFile, c⟩ :: ⟨s.keyFile, k⟩ :: after ∧
      (∀ w ∈ before, ¬Touches s w) ∧ (∀ w ∈ after, ¬Touches s w) ∧ KeyMatches libs c k ∧
      ⟨s.certFile, c⟩ ∈ ws := by
  rcases hpaired with hnone | ⟨before, c, k, after, rfl, hbefore, hafter, hmatch⟩
  · exact Or.inl fun w hw => hnone w (hmade.subset hw)
  · obtain ⟨rest, hrest⟩ := hmade
    rcases List.append_eq_append_iff.mp hrest with ⟨cut, hcut, -⟩ | ⟨tail, rfl, htail⟩
    · -- the call was stopped before the certificate
      refine Or.inl fun w hw => hbefore w ?_
      rw [hcut]
      exact List.mem_append_left _ hw
    · rcases tail with _ | ⟨w, _ | ⟨w', tail⟩⟩
      · exact Or.inl fun w hw => hbefore w (by simpa using hw)
      · obtain ⟨rfl, -⟩ := List.cons.inj htail
        exact Or.inr (Or.inl ⟨before, c, rfl, hbefore, by simp⟩)
      · obtain ⟨hcert, hkey, rfl⟩ : ⟨s.certFile, c⟩ = w ∧ ⟨s.keyFile, k⟩ = w' ∧
            after = tail ++ rest := by simpa using htail
        subst hcert hkey
        refine Or.inr (Or.inr ⟨before, c, k, tail, rfl, hbefore, fun w hw => hafter w ?_, hmatch,
          by simp⟩)
        exact List.mem_append_left _ hw

end Paired

/-! ## Moments -/

section Moments

variable {libs : CertLibs} {d : PkiDir}

lemma matched_congr {d' : PkiDir} {s : KeySlot} (hcert : d' s.certFile = d s.certFile)
    (hkey : d' s.keyFile = d s.keyFile) : Matched libs d' s ↔ Matched libs d s := by
  unfold Matched
  rw [hcert, hkey]

lemma matched_writeAll_of_untouched {s : KeySlot} {ws : List PkiWrite}
    (h : ∀ w ∈ ws, ¬Touches s w) : Matched libs (d.writeAll ws) s ↔ Matched libs d s :=
  matched_congr (PkiDir.writeAll_of_forall_ne fun w hw hf => h w hw (Or.inl hf))
    (PkiDir.writeAll_of_forall_ne fun w hw hf => h w hw (Or.inr hf))

/-- The keys of a call are fresh: no certificate it writes belongs to the key that is there. -/
def FreshKeys (libs : CertLibs) (d : PkiDir) (call : PkiCall) : Prop :=
  ∀ ws, call.writes libs d = .ok ws → ∀ s : KeySlot, ∀ c, ⟨s.certFile, c⟩ ∈ ws →
    ∀ k, d s.keyFile = some k → ¬KeyMatches libs c k

/-- What an attempt generates belongs together and is fresh. -/
def Generates (libs : CertLibs) (d : PkiDir) (a : Attempt) : Prop :=
  a.call.Generated libs ∧ FreshKeys libs d a.call

/-- The last of the writes is the certificate of the slot. -/
def EndsAtCert (s : KeySlot) (made : List PkiWrite) : Prop :=
  made.getLast?.map PkiWrite.file = some s.certFile

/-- After a certificate, its key, and writes elsewhere, a slot belongs together. -/
lemma matched_writeAll_pair {s : KeySlot} {before after : List PkiWrite} {c k : String}
    (hafter : ∀ w ∈ after, ¬Touches s w) (hmatch : KeyMatches libs c k) :
    Matched libs (d.writeAll (before ++ ⟨s.certFile, c⟩ :: ⟨s.keyFile, k⟩ :: after)) s := by
  have hsplit : before ++ ⟨s.certFile, c⟩ :: ⟨s.keyFile, k⟩ :: after =
      before ++ [⟨s.certFile, c⟩, ⟨s.keyFile, k⟩] ++ after := by simp
  rw [hsplit, PkiDir.writeAll_append, matched_writeAll_of_untouched hafter, PkiDir.writeAll_append]
  have hkey : ((d.writeAll before).writeAll [⟨s.certFile, c⟩, ⟨s.keyFile, k⟩]) s.keyFile =
      some k := if_pos rfl
  have hcert : ((d.writeAll before).writeAll [⟨s.certFile, c⟩, ⟨s.keyFile, k⟩]) s.certFile =
      some c := (if_neg (s.keyFile_ne_certFile s).symm).trans (if_pos rfl)
  unfold Matched
  rw [hcert, hkey]
  exact hmatch

/-- **One call.**  After some of the writes of a call a slot belongs together, unless the last of
them was its certificate. -/
lemma matched_prefix_iff (hissue : IssuesMatching libs) {call : PkiCall}
    (hgenerated : call.Generated libs) (hfresh : FreshKeys libs d call) {ws made : List PkiWrite}
    (hws : call.writes libs d = .ok ws) (hmade : made <+: ws) {s : KeySlot}
    (hd : Matched libs d s) : Matched libs (d.writeAll made) s ↔ ¬EndsAtCert s made := by
  rcases prefix_cases (writes_paired hissue hgenerated hws s) hmade with
    hnone | ⟨before, c, rfl, hbefore, hmem⟩ | ⟨before, c, k, after, rfl, hbefore, hafter, hmatch, -⟩
  · rw [matched_writeAll_of_untouched hnone]
    refine iff_of_true hd fun hend => ?_
    obtain ⟨w, hw, hfile⟩ := Option.map_eq_some_iff.mp hend
    exact hnone w (List.mem_of_getLast? hw) (Or.inl hfile)
  · -- between the two writes: the new certificate is there with the old key
    refine iff_of_false ?_ (not_not.mpr (by simp [EndsAtCert]))
    have hkey : (d.writeAll (before ++ [⟨s.certFile, c⟩])) s.keyFile = d s.keyFile := by
      refine PkiDir.writeAll_of_forall_ne fun w hw hf => ?_
      rcases List.mem_append.mp hw with hw | hw
      · exact hbefore w hw (Or.inr hf)
      · rw [List.mem_singleton.mp hw] at hf
        exact s.keyFile_ne_certFile s hf.symm
    have hcert : (d.writeAll (before ++ [⟨s.certFile, c⟩])) s.certFile = some c := by
      rw [PkiDir.writeAll_append]
      exact if_pos rfl
    unfold Matched
    rw [hcert, hkey]
    cases hold : d s.keyFile with
    | none => exact id
    | some k => exact hfresh ws hws s c hmem k hold
  · refine iff_of_true (matched_writeAll_pair hafter hmatch) fun hend => ?_
    -- the last write is the key or one that is not for the slot
    obtain ⟨w, hw, hfile⟩ := Option.map_eq_some_iff.mp hend
    have hw : w ∈ (⟨s.keyFile, k⟩ : PkiWrite) :: after := by
      rw [List.getLast?_append_cons, List.getLast?_cons_cons] at hw
      exact List.mem_of_getLast? hw
    rcases List.mem_cons.mp hw with rfl | hw
    · exact s.keyFile_ne_certFile s hfile
    · exact hafter w hw (Or.inl hfile)

/-- The writes of an attempt are a prefix of those of its call. -/
lemma made_cases (libs : CertLibs) (a : Attempt) (d : PkiDir) :
    a.made libs d = [] ∨ ∃ ws, a.call.writes libs d = .ok ws ∧ a.made libs d <+: ws := by
  unfold Attempt.made
  cases h : a.call.writes libs d with
  | error e => exact Or.inl rfl
  | ok ws =>
    refine Or.inr ⟨ws, rfl, ?_⟩
    cases a.stopped with
    | none => exact List.prefix_rfl
    | some n => exact List.take_prefix n ws

/-- **One attempt.**  At every moment of an attempt a slot belongs together, unless its certificate
was just written. -/
lemma matched_moment_iff (hissue : IssuesMatching libs) {a : Attempt}
    (hgenerates : Generates libs d a) {made : List PkiWrite} (hmade : made <+: a.made libs d)
    {s : KeySlot} (hd : Matched libs d s) :
    Matched libs (d.writeAll made) s ↔ ¬EndsAtCert s made := by
  rcases made_cases libs a d with hnone | ⟨ws, hws, hinitial⟩
  · rw [hnone, List.prefix_nil] at hmade
    rw [hmade]
    exact iff_of_true hd (by simp [EndsAtCert])
  · exact matched_prefix_iff hissue hgenerates.1 hgenerates.2 hws (hmade.trans hinitial) hd

lemma writeAll_runWrites (d : PkiDir) (as : List Attempt) :
    d.writeAll (runWrites libs d as) = as.foldl (attemptStep libs) d := by
  induction as generalizing d with
  | nil => rfl
  | cons a as ih =>
    rw [runWrites, PkiDir.writeAll_append, List.foldl_cons]
    exact ih (attemptStep libs d a)

/-- **Every moment of a run.**  The slots belong together at every moment of a run exactly if the
run writes no certificate of a slot. -/
lemma matched_moments_iff (hissue : IssuesMatching libs) {as : List Attempt}
    (henv : Along (attemptStep libs) (Generates libs) d as) (hd : ∀ s, Matched libs d s) :
    (∀ ws, ws <+: runWrites libs d as → ∀ s, Matched libs (d.writeAll ws) s) ↔
      ∀ w ∈ runWrites libs d as, ∀ s : KeySlot, w.file ≠ s.certFile := by
  induction as generalizing d with
  | nil =>
    refine iff_of_true (fun ws hws s => ?_) (by simp [runWrites])
    rw [List.prefix_nil.mp hws]
    exact hd s
  | cons a as ih =>
    have hmoment : ∀ made, made <+: a.made libs d → ∀ s,
        (Matched libs (d.writeAll made) s ↔ ¬EndsAtCert s made) :=
      fun made hmade s => matched_moment_iff hissue henv.1 hmade (hd s)
    rw [runWrites]
    constructor
    · intro hall
      -- a write of a certificate ends a prefix
      have hmade : ∀ w ∈ a.made libs d, ∀ s : KeySlot, w.file ≠ s.certFile := by
        intro w hw s hfile
        obtain ⟨before, after, hsplit⟩ := List.append_of_mem hw
        have hinitial : before ++ [w] <+: a.made libs d := ⟨after, by simp [hsplit]⟩
        have hmatched := hall _ (hinitial.trans (List.prefix_append _ _)) s
        exact (hmoment _ hinitial s).mp hmatched (by simp [EndsAtCert, hfile])
      have hstep : ∀ s, Matched libs (attemptStep libs d a) s :=
        hall _ (List.prefix_append _ _)
      have hrest := (ih henv.2 hstep).mp fun ws hws s => by
        have hmatched := hall (a.made libs d ++ ws) ((List.prefix_append_right_inj _).mpr hws) s
        rwa [PkiDir.writeAll_append] at hmatched
      intro w hw
      rcases List.mem_append.mp hw with hw | hw
      · exact hmade w hw
      · exact hrest w hw
    · intro hnone ws hws s
      have hends : ∀ made, made <+: a.made libs d → ∀ s, Matched libs (d.writeAll made) s := by
        intro made hmade s
        refine (hmoment made hmade s).mpr fun hend => ?_
        obtain ⟨w, hw, hfile⟩ := Option.map_eq_some_iff.mp hend
        exact hnone w (List.mem_append_left _ (hmade.subset (List.mem_of_getLast? hw))) s hfile
      obtain ⟨rest, hrest⟩ := hws
      rcases List.append_eq_append_iff.mp hrest with ⟨cut, hcut, -⟩ | ⟨tail, rfl, htail⟩
      · exact hends ws ⟨cut, hcut.symm⟩ s
      · rw [PkiDir.writeAll_append]
        refine (ih henv.2 (hends _ List.prefix_rfl)).mpr ?_ tail ⟨rest, htail.symm⟩ s
        exact fun w hw => hnone w (List.mem_append_right _ hw)

/-- **Between the attempts of a run.**  The slots belong together after every attempt exactly if no
attempt was stopped between a certificate and its key. -/
lemma matched_between_iff (hissue : IssuesMatching libs) {as : List Attempt}
    (henv : Along (attemptStep libs) (Generates libs) d as) (hd : ∀ s, Matched libs d s) :
    (∀ as', as' <+: as → ∀ s, Matched libs (as'.foldl (attemptStep libs) d) s) ↔
      Along (attemptStep libs) (fun d a => ∀ s, ¬EndsAtCert s (a.made libs d)) d as := by
  refine foldl_holds_iff_along_of (I := fun d => ∀ s, Matched libs d s) (C := Generates libs)
    (fun d a hd hgenerates => ?_) hd henv
  exact forall_congr' fun s => matched_moment_iff hissue hgenerates List.prefix_rfl (hd s)

/-! ## The previous slot -/

/-- Only a rotation writes the current CA certificate. -/
lemma caCert_of_mem_writes (hissue : IssuesMatching libs) {call : PkiCall} {ws : List PkiWrite}
    (h : call.writes libs d = .ok ws) {w : PkiWrite} (hw : w ∈ ws) (hfile : w.file = .caCert) :
    ∃ new, call = .rotateMeshCa new ∧ w.text = new.certPem := by
  cases call with
  | rotateMeshCa new =>
    obtain ⟨curCertPem, curKeyPem, record, -, -, hrecord, rfl⟩ := rotateMeshCa_eq_ok h
    have hrecord : record.file = .retired := file_recordRetiredMeshCa hrecord
    simp only [List.mem_cons, List.not_mem_nil, or_false] at hw
    rcases hw with rfl | rfl | rfl | rfl | rfl
    · exact absurd (hrecord.symm.trans hfile) (by decide)
    · cases hfile
    · cases hfile
    · exact ⟨new, rfl, rfl⟩
    · cases hfile
  | reissueMeshServerCert hostCn keyPem =>
    obtain ⟨certPem, rfl, -⟩ := reissueLeaf_eq_ok hissue h
    simp only [List.mem_cons, List.not_mem_nil, or_false] at hw
    rcases hw with rfl | rfl <;> cases hfile
  | reissueMeshClientCert hostCn keyPem =>
    obtain ⟨certPem, rfl, -⟩ := reissueLeaf_eq_ok hissue h
    simp only [List.mem_cons, List.not_mem_nil, or_false] at hw
    rcases hw with rfl | rfl <;> cases hfile
  | installRefreshedPeerCerts hostCn client server =>
    obtain ⟨-, h⟩ := then_ok_iff.mp h
    cases h
    simp only [List.mem_cons, List.not_mem_nil, or_false] at hw
    rcases hw with rfl | rfl | rfl | rfl <;> cases hfile

/-- Only a rotation of the run writes the current CA certificate. -/
lemma caCert_of_mem_runWrites (hissue : IssuesMatching libs) {as : List Attempt} {w : PkiWrite}
    (hw : w ∈ runWrites libs d as) (hfile : w.file = .caCert) :
    ∃ a ∈ as, ∃ new, a.call = .rotateMeshCa new ∧ w.text = new.certPem := by
  induction as generalizing d with
  | nil => cases hw
  | cons a as ih =>
    rcases List.mem_append.mp hw with hw | hw
    · rcases made_cases libs a d with hnone | ⟨ws, hws, hinitial⟩
      · rw [hnone] at hw
        cases hw
      · exact ⟨a, List.mem_cons_self, caCert_of_mem_writes hissue hws (hinitial.subset hw) hfile⟩
    · obtain ⟨b, hb, hnew⟩ := ih hw
      exact ⟨b, List.mem_cons_of_mem a hb, hnew⟩

/-- A run that writes no current CA certificate writes no current CA key either. -/
lemma caKey_not_mem_runWrites (hissue : IssuesMatching libs) {as : List Attempt}
    (henv : Along (attemptStep libs) (Generates libs) d as)
    (hnone : ∀ w ∈ runWrites libs d as, w.file ≠ .caCert) :
    ∀ w ∈ runWrites libs d as, w.file ≠ .caKey := by
  induction as generalizing d with
  | nil => simp [runWrites]
  | cons a as ih =>
    have htail := ih henv.2 fun w hw => hnone w (List.mem_append_right _ hw)
    intro w hw
    rcases List.mem_append.mp hw with hw | hw
    · rcases made_cases libs a d with hempty | ⟨ws, hws, hinitial⟩
      · rw [hempty] at hw
        cases hw
      · rcases prefix_cases (writes_paired hissue henv.1.1 hws .currentCa) hinitial with
          huntouched | ⟨before, c, hmade, -⟩ | ⟨before, c, k, after, hmade, -⟩
        · exact fun hfile => huntouched w hw (Or.inr hfile)
        · refine absurd rfl (hnone ⟨.caCert, c⟩ (List.mem_append_left _ ?_))
          simp [hmade, KeySlot.certFile]
        · refine absurd rfl (hnone ⟨.caCert, c⟩ (List.mem_append_left _ ?_))
          simp [hmade, KeySlot.certFile]
    · exact htail w hw

end Moments

/-! ## Where an attempt stops -/

/-- The files a call replaces, in order. -/
def PkiCall.files : PkiCall → List PkiFile
  | rotateMeshCa _ => [.retired, .previousCert, .previousKey, .caCert, .caKey]
  | reissueMeshServerCert _ _ => [.serverCert, .serverKey]
  | reissueMeshClientCert _ _ => [.clientCert, .clientKey]
  | installRefreshedPeerCerts _ _ _ => [.clientCert, .clientKey, .serverCert, .serverKey]

/-- The files an attempt gets to, in order. -/
def Attempt.files (a : Attempt) : List PkiFile :=
  match a.stopped with
  | none => a.call.files
  | some n => a.call.files.take n

/-- A call that is refused by its own checks before it writes. -/
def Attempt.Refused (libs : CertLibs) (d : PkiDir) (a : Attempt) : Prop :=
  ∃ e, a.call.writes libs d = .error e

/-- An attempt that does not get to the certificate of a slot. -/
def LeavesCerts (libs : CertLibs) (d : PkiDir) (a : Attempt) : Prop :=
  a.Refused libs d ∨ ∀ s : KeySlot, s.certFile ∉ a.files

/-- An attempt that is not stopped between a certificate and its key. -/
def StopsOutsidePair (libs : CertLibs) (d : PkiDir) (a : Attempt) : Prop :=
  a.Refused libs d ∨ ∀ s : KeySlot, a.files.getLast? ≠ some s.certFile

/-- An attempt that does not get to the current CA certificate. -/
def LeavesCa (libs : CertLibs) (d : PkiDir) (a : Attempt) : Prop :=
  a.Refused libs d ∨ .caCert ∉ a.files

section Files

variable {libs : CertLibs} {d : PkiDir}

/-- A call writes its files in order. -/
lemma files_writes (hissue : IssuesMatching libs) {call : PkiCall} {ws : List PkiWrite}
    (h : call.writes libs d = .ok ws) : ws.map PkiWrite.file = call.files := by
  cases call with
  | rotateMeshCa new =>
    obtain ⟨curCertPem, curKeyPem, record, -, -, hrecord, rfl⟩ := rotateMeshCa_eq_ok h
    simp [PkiCall.files, file_recordRetiredMeshCa hrecord]
  | reissueMeshServerCert hostCn keyPem =>
    obtain ⟨certPem, rfl, -⟩ := reissueLeaf_eq_ok hissue h
    rfl
  | reissueMeshClientCert hostCn keyPem =>
    obtain ⟨certPem, rfl, -⟩ := reissueLeaf_eq_ok hissue h
    rfl
  | installRefreshedPeerCerts hostCn client server =>
    obtain ⟨-, h⟩ := then_ok_iff.mp h
    cases h
    rfl

/-- An attempt is refused and makes no write, or it writes the files it gets to. -/
lemma files_made (hissue : IssuesMatching libs) (a : Attempt) (d : PkiDir) :
    (a.Refused libs d ∧ a.made libs d = []) ∨
      (¬a.Refused libs d ∧ (a.made libs d).map PkiWrite.file = a.files) := by
  unfold Attempt.Refused Attempt.made Attempt.files
  cases h : a.call.writes libs d with
  | error e => exact Or.inl ⟨⟨e, rfl⟩, rfl⟩
  | ok ws =>
    refine Or.inr ⟨by simp, ?_⟩
    cases a.stopped with
    | none => exact files_writes hissue h
    | some n => rw [List.map_take, files_writes hissue h]

lemma stopsOutsidePair_iff (hissue : IssuesMatching libs) (a : Attempt) (d : PkiDir) :
    StopsOutsidePair libs d a ↔ ∀ s, ¬EndsAtCert s (a.made libs d) := by
  unfold StopsOutsidePair EndsAtCert
  rcases files_made hissue a d with ⟨hrefused, hmade⟩ | ⟨hok, hfiles⟩
  · simp [hrefused, hmade]
  · rw [← hfiles, List.getLast?_map]
    simp [hok]

/-- A run writes a file exactly if one of its attempts gets to it. -/
lemma not_mem_runWrites_iff (hissue : IssuesMatching libs) {f : PkiFile} {as : List Attempt} :
    (∀ w ∈ runWrites libs d as, w.file ≠ f) ↔
      Along (attemptStep libs) (fun d a => a.Refused libs d ∨ f ∉ a.files) d as := by
  induction as generalizing d with
  | nil => simp [runWrites, Along]
  | cons a as ih =>
    have hhead : (∀ w ∈ a.made libs d, w.file ≠ f) ↔ a.Refused libs d ∨ f ∉ a.files := by
      rcases files_made hissue a d with ⟨hrefused, hmade⟩ | ⟨hok, hfiles⟩
      · simp [hrefused, hmade]
      · rw [← hfiles]
        simp [hok]
    rw [runWrites, List.forall_mem_append, hhead, ih]
    rfl

/-- The directory after a rotation that completes. -/
lemma attemptStep_rotateMeshCa {new : PemPair} {ws : List PkiWrite}
    (h : rotateMeshCa libs new d = .ok ws) :
    (attemptStep libs d (PkiCall.rotateMeshCa new).unstopped) .previousCert = d .caCert ∧
      (attemptStep libs d (PkiCall.rotateMeshCa new).unstopped) .previousKey = d .caKey := by
  have hmade : Attempt.made libs d (PkiCall.rotateMeshCa new).unstopped = ws := by
    have hwrites : (PkiCall.rotateMeshCa new).writes libs d = .ok ws := h
    simp only [Attempt.made, PkiCall.unstopped, hwrites]
  unfold attemptStep
  rw [hmade]
  obtain ⟨curCertPem, curKeyPem, record, hcert, hkey, -, rfl⟩ := rotateMeshCa_eq_ok h
  exact ⟨hcert.symm, hkey.symm⟩

/-- **The previous slot.**  After a rotation that completes, the previous slot holds the authority
from before the run exactly if no earlier attempt got to the current CA certificate. -/
lemma previousSlot_iff (hissue : IssuesMatching libs) {c₀ k₀ : String}
    (hcert : d .caCert = some c₀) (hkey : d .caKey = some k₀) {before : List Attempt}
    (henv : Along (attemptStep libs) (Generates libs) d before)
    (hnew : ∀ a ∈ before, ∀ new, a.call = .rotateMeshCa new → new.certPem ≠ c₀)
    {new : PemPair} {ws : List PkiWrite}
    (hws : rotateMeshCa libs new (before.foldl (attemptStep libs) d) = .ok ws) :
    let after := (before ++ [(PkiCall.rotateMeshCa new).unstopped]).foldl (attemptStep libs) d
    (after .previousCert = some c₀ ∧ after .previousKey = some k₀ ∧ c₀ ∈ caRoots after) ↔
      Along (attemptStep libs) (LeavesCa libs) d before := by
  intro after
  have hafter : after .previousCert = (before.foldl (attemptStep libs) d) .caCert ∧
      after .previousKey = (before.foldl (attemptStep libs) d) .caKey := by
    have h := attemptStep_rotateMeshCa hws
    rwa [← List.foldl_concat (attemptStep libs)] at h
  have hleaves : Along (attemptStep libs) (LeavesCa libs) d before ↔
      ∀ w ∈ runWrites libs d before, w.file ≠ .caCert := (not_mem_runWrites_iff hissue).symm
  rw [hleaves, hafter.1, hafter.2, ← writeAll_runWrites]
  constructor
  · rintro ⟨hprev, -, -⟩ w hw hfile
    -- the certificate that was moved to the previous slot is one of the new ones
    obtain ⟨w', hw', hfile', htext⟩ := PkiDir.writeAll_of_exists (d := d) ⟨w, hw, hfile⟩
    obtain ⟨a, ha, new', hcall, hnewText⟩ := caCert_of_mem_runWrites hissue hw' hfile'
    refine hnew a ha new' hcall ?_
    rw [← hnewText, ← Option.some_inj, ← htext, hprev]
  · intro hnone
    have hcur : d.writeAll (runWrites libs d before) .caCert = some c₀ :=
      (PkiDir.writeAll_of_forall_ne hnone).trans hcert
    have hcurKey : d.writeAll (runWrites libs d before) .caKey = some k₀ :=
      (PkiDir.writeAll_of_forall_ne (caKey_not_mem_runWrites hissue henv hnone)).trans hkey
    refine ⟨hcur, hcurKey, ?_⟩
    have hprev : after .previousCert = some c₀ := by
      rw [hafter.1, ← writeAll_runWrites, hcur]
    simp [caRoots, hprev]

end Files

/-! ## Interrupted runs -/

/-- **Interrupted rotations.**  In a run of calls that may stop after any of their writes, started
with slots that belong together:

* the slots belong together at every moment exactly if no call gets to the certificate of a slot;
* they belong together between the calls exactly if no call is stopped between a certificate and its
  key;
* after the first rotation that completes the previous slot holds the authority that was current at
  the start, so that its leaves still verify, exactly if no rotation stopped before it had got to
  the current CA certificate. -/
theorem interrupted_rotation {libs : CertLibs} (hissue : IssuesMatching libs) {d : PkiDir}
    {c₀ k₀ : String} (hcert : d .caCert = some c₀) (hkey : d .caKey = some k₀)
    (hmatched : ∀ s, Matched libs d s) {as : List Attempt}
    (henv : Along (attemptStep libs) (Generates libs) d as)
    (hnew : ∀ a ∈ as, ∀ new, a.call = .rotateMeshCa new → new.certPem ≠ c₀) :
    ((∀ ws, ws <+: runWrites libs d as → ∀ s, Matched libs (d.writeAll ws) s) ↔
      Along (attemptStep libs) (LeavesCerts libs) d as) ∧
    ((∀ before, before <+: as → ∀ s, Matched libs (before.foldl (attemptStep libs) d) s) ↔
      Along (attemptStep libs) (StopsOutsidePair libs) d as) ∧
    ∀ before new, before ++ [(PkiCall.rotateMeshCa new).unstopped] <+: as →
      ∀ ws, rotateMeshCa libs new (before.foldl (attemptStep libs) d) = .ok ws →
      let after := (before ++ [(PkiCall.rotateMeshCa new).unstopped]).foldl (attemptStep libs) d
      (after .previousCert = some c₀ ∧ after .previousKey = some k₀ ∧ c₀ ∈ caRoots after) ↔
        Along (attemptStep libs) (LeavesCa libs) d before := by
  refine ⟨?_, ?_, ?_⟩
  · rw [matched_moments_iff hissue henv hmatched]
    have hswap : (∀ w ∈ runWrites libs d as, ∀ s : KeySlot, w.file ≠ s.certFile) ↔
        ∀ s : KeySlot, ∀ w ∈ runWrites libs d as, w.file ≠ s.certFile :=
      ⟨fun h s w hw => h w hw s, fun h w hw s => h s w hw⟩
    rw [hswap, forall_congr' fun s => not_mem_runWrites_iff hissue, along_forall]
    exact along_congr fun d a => forall_or_left
  · rw [matched_between_iff hissue henv hmatched]
    exact along_congr fun d a => (stopsOutsidePair_iff hissue a d).symm
  · intro before new hinitial ws hws
    have hbefore : before <+: as := (List.prefix_append _ _).trans hinitial
    refine previousSlot_iff hissue hcert hkey (along_of_initial henv hbefore) ?_ hws
    exact fun a ha => hnew a (hbefore.subset ha)

/-- The key of a rotation is fresh when the new certificate does not belong to the key that is
there. -/
lemma generates_rotateMeshCa {libs : CertLibs} {d : PkiDir} {new : PemPair} {stopped : Option Nat}
    (hissue : IssuesMatching libs) (hmatch : KeyMatches libs new.certPem new.keyPem)
    (hfresh : ∀ k, d .caKey = some k → ¬KeyMatches libs new.certPem k) :
    Generates libs d ⟨.rotateMeshCa new, stopped⟩ := by
  refine ⟨hmatch, fun ws hws s c hc k hk => ?_⟩
  have hfiles : s.certFile ∈ ws.map PkiWrite.file := List.mem_map_of_mem (f := PkiWrite.file) hc
  rw [files_writes hissue hws] at hfiles
  have hs : s = .currentCa := by
    cases s with
    | currentCa => rfl
    | serverLeaf => simp [PkiCall.files, KeySlot.certFile] at hfiles
    | clientLeaf => simp [PkiCall.files, KeySlot.certFile] at hfiles
  subst hs
  obtain ⟨new', hcall, rfl⟩ := caCert_of_mem_writes hissue hws hc rfl
  cases hcall
  exact hfresh k hk

lemma plainCertLibs_issuesMatching : IssuesMatching plainCertLibs := by
  intro caCertPem caKeyPem role hostCn keyPem certPem h
  cases h
  exact plainCertLibs_keyMatches.mpr rfl

lemma plainDir_matched (s : KeySlot) : Matched plainCertLibs plainDir s := by
  cases s with
  | currentCa => exact plainCertLibs_keyMatches.mpr rfl
  | serverLeaf => trivial
  | clientLeaf => trivial

/-- A rotation of the small host that is stopped, and the one that is tried next. -/
def plainRetry (stopped : Nat) : List Attempt :=
  [⟨.rotateMeshCa ⟨"new", "new"⟩, some stopped⟩,
    (PkiCall.rotateMeshCa ⟨"newer", "newer"⟩).unstopped]

/-- The rotations of the small host generate fresh keys. -/
lemma plainRetry_generates {stopped : Nat} (h : stopped ≤ 4) :
    Along (attemptStep plainCertLibs) (Generates plainCertLibs) plainDir (plainRetry stopped) := by
  have hold : (attemptStep plainCertLibs plainDir ⟨.rotateMeshCa ⟨"new", "new"⟩, some stopped⟩)
      .caKey = some "old" := by
    interval_cases stopped <;> decide +kernel
  refine ⟨?_, ?_, trivial⟩
  · refine generates_rotateMeshCa plainCertLibs_issuesMatching
      (plainCertLibs_keyMatches.mpr rfl) fun k hk => ?_
    cases hk
    rw [plainCertLibs_keyMatches]
    decide +kernel
  · refine generates_rotateMeshCa plainCertLibs_issuesMatching
      (plainCertLibs_keyMatches.mpr rfl) fun k hk => ?_
    rw [hold] at hk
    cases hk
    rw [plainCertLibs_keyMatches]
    decide +kernel

/-- A rotation that is stopped before it gets to the certificate is retried as if it had not been
there. -/
theorem interrupted_rotation_stopped_early :
    (∀ before, before <+: plainRetry 3 → ∀ s,
      Matched plainCertLibs (before.foldl (attemptStep plainCertLibs) plainDir) s) ∧
    ((plainRetry 3).foldl (attemptStep plainCertLibs) plainDir) .previousCert = some "old" ∧
    ((plainRetry 3).foldl (attemptStep plainCertLibs) plainDir) .previousKey = some "old" := by
  have hnew : ∀ a ∈ plainRetry 3, ∀ new, a.call = .rotateMeshCa new → new.certPem ≠ "old" := by
    intro a ha new hcall
    rcases List.mem_pair.mp ha with rfl | rfl <;> cases hcall <;> decide
  obtain ⟨-, hbetween, hprevious⟩ := interrupted_rotation plainCertLibs_issuesMatching
    (d := plainDir) rfl rfl plainDir_matched (plainRetry_generates (by decide)) hnew
  have hslot := (hprevious [⟨.rotateMeshCa ⟨"new", "new"⟩, some 3⟩] ⟨"newer", "newer"⟩
    List.prefix_rfl _ rfl).mpr ⟨Or.inr (by decide), trivial⟩
  refine ⟨hbetween.mpr ⟨Or.inr ?_, Or.inr ?_, trivial⟩, hslot.1, hslot.2.1⟩ <;>
    · intro s
      cases s <;> decide

/-- A rotation that is stopped between the certificate and the key leaves a certificate with a key
of another, and the one that is tried next puts this pair into the previous slot: the authority from
before is lost. -/
theorem interrupted_rotation_stopped_in_pair :
    (∀ s, Matched plainCertLibs plainDir s) ∧
    Along (attemptStep plainCertLibs) (Generates plainCertLibs) plainDir (plainRetry 4) ∧
    ¬Matched plainCertLibs (((plainRetry 4).take 1).foldl (attemptStep plainCertLibs) plainDir)
      .currentCa ∧
    ((plainRetry 4).foldl (attemptStep plainCertLibs) plainDir) .previousCert = some "new" ∧
    ((plainRetry 4).foldl (attemptStep plainCertLibs) plainDir) .previousKey = some "old" ∧
    "old" ∉ caRoots ((plainRetry 4).foldl (attemptStep plainCertLibs) plainDir) := by
  refine ⟨plainDir_matched, plainRetry_generates (by decide), ?_, by decide +kernel,
    by decide +kernel, by decide +kernel⟩
  change ¬KeyMatches plainCertLibs "new" "old"
  rw [plainCertLibs_keyMatches]
  decide +kernel

end Orca
