import Orca.Library.Decimal
import Orca.Library.Framing
import Orca.Mesh.Envelope

/-!
# Signed records

Three kinds of records are signed over the length-prefixed encoding of their fields: the binding of
an envelope, a row of the registry and a row of the policy.  The encoding has one reading
(`canonicalFields_inj`), its first field names the kind of record, and it starts with a zero byte,
which nothing else does that the keys of the mesh sign: the payload of an envelope is JSON text, the
other statements of a CA key are texts that start with their name, and a certificate is a DER
sequence.  So a record that verifies was signed as that record (`signed_records_have_one_reading`).

Which signatures were made is a parameter (`made`), with the assumptions that only those verify and
that a signature was made on one message.
-/

namespace Orca

open Check Framing

/-! ## The encoding -/

/-- The loop of `ByteArray.toList` puts what is left behind what it has read. -/
lemma toList_loop (bytes : ByteArray) (done : ℕ) (read : List UInt8) :
    ByteArray.toList.loop bytes done read = read.reverse ++ bytes.data.toList.drop done := by
  fun_induction ByteArray.toList.loop bytes done read with
  | case1 done read hdone ih =>
    have hlength : done < bytes.data.toList.length := hdone
    have hnext : bytes.get! done = bytes.data.toList[done] := by simp [ByteArray.get!, hdone]
    rw [ih, List.drop_eq_getElem_cons hlength, List.reverse_cons, List.append_assoc,
      List.singleton_append, hnext]
  | case2 done read hdone =>
    rw [List.drop_eq_nil_of_le (Nat.not_lt.mp hdone), List.append_nil]

lemma utf8Bytes_eq (s : String) : utf8Bytes s = s.toByteArray.data.toList := by
  unfold utf8Bytes ByteArray.toList
  rw [toList_loop]
  rfl

lemma utf8Bytes_injective : Function.Injective utf8Bytes := by
  intro s t h
  rw [utf8Bytes_eq, utf8Bytes_eq] at h
  exact String.toByteArray_inj.mp (ByteArray.ext (Array.toList_inj.mp h))

/-- A length below `2 ^ 32` is determined by its bytes. -/
lemma beBytes_inj {m n : ℕ} (hm : m < 2 ^ 32) (hn : n < 2 ^ 32) (h : beBytes m = beBytes n) :
    m = n := by
  have hbyte : ∀ {a b : ℕ}, a.toUInt8 = b.toUInt8 → a % 256 = b % 256 := by
    intro a b hab
    have hnat := congrArg UInt8.toNat hab
    rwa [UInt8.toNat_ofNat', UInt8.toNat_ofNat'] at hnat
  unfold beBytes at h
  simp only [List.cons.injEq, and_true] at h
  obtain ⟨h1, h2, h3, h4⟩ := h
  have := hbyte h1
  have := hbyte h2
  have := hbyte h3
  have := hbyte h4
  omega

/-- A field that is shorter than `2 ^ 32` bytes. -/
def ShortField (field : String) : Prop := (utf8Bytes field).length < 2 ^ 32

lemma prefixFree_field :
    PrefixFree ShortField fun field => beBytes (utf8Bytes field).length ++ utf8Bytes field :=
  (prefixFree_lengthPrefixed (prefixFree_of_length (n := 4) (fun _ => rfl)
    fun _ _ hm hn => beBytes_inj hm hn)).comp utf8Bytes_injective fun _ h => h

/-- The encoding of short fields has one reading. -/
theorem canonicalFields_inj {fields fields' : List String} (h : ∀ f ∈ fields, ShortField f)
    (h' : ∀ f ∈ fields', ShortField f) (heq : canonicalFields fields = canonicalFields fields') :
    fields = fields' := by
  refine flatMap_inj prefixFree_field (fun f _ => ?_) h h' heq
  unfold beBytes
  exact List.cons_ne_nil _ _

/-! ## Records -/

/-- A record that is signed over its fields. -/
inductive SignedRecord where
  | envelope (method sender receiver nonce : String) (expiresAt : ℤ) (payloadSha256 : String)
  | registry (id memberId state caFp : String)
  | policy (id key value caFp : String)
deriving DecidableEq

/-- The fields that are signed. -/
def SignedRecord.fields : SignedRecord → List String
  | .envelope method sender receiver nonce expiresAt payloadSha256 =>
      ["orca-bound-envelope-v1", method, sender, receiver, nonce, toString expiresAt, payloadSha256]
  | .registry id memberId state caFp => ["orca-secure-registry-v1", id, memberId, state, caFp]
  | .policy id key value caFp => ["orca-mesh-policy-v1", id, key, value, caFp]

/-- The bytes that are signed. -/
def SignedRecord.bytes (r : SignedRecord) : List UInt8 := canonicalFields r.fields

/-- The fields of the record are shorter than `2 ^ 32` bytes. -/
def SignedRecord.Short (r : SignedRecord) : Prop := ∀ f ∈ r.fields, ShortField f

/-- What the binding of an envelope says. -/
def BoundEnvelope.record (b : BoundEnvelope) : SignedRecord :=
  .envelope b.method b.sender b.receiver b.nonce b.expiresAt b.payloadSha256

/-- What a row of the registry says. -/
def SecureRegistryEntry.record (e : SecureRegistryEntry) : SignedRecord :=
  .registry e.id e.memberId e.state e.caFp

/-- What a row of the policy says. -/
def MeshPolicyEntry.record (e : MeshPolicyEntry) : SignedRecord :=
  .policy e.id e.key e.value e.caFp

/-- The fields of a record determine it, its kind included. -/
lemma fields_injective : Function.Injective SignedRecord.fields := by
  intro r r' h
  cases r with
  | envelope method sender receiver nonce expiresAt payloadSha256 =>
    cases r' with
    | envelope =>
      simp only [SignedRecord.fields, List.cons.injEq, and_true, true_and] at h
      obtain ⟨rfl, rfl, rfl, rfl, hexpiry, rfl⟩ := h
      rw [Decimal.toString_int_inj.mp hexpiry]
    | registry => cases congrArg List.length h
    | policy => cases congrArg List.length h
  | registry id memberId state caFp =>
    cases r' with
    | envelope => cases congrArg List.length h
    | registry =>
      simp only [SignedRecord.fields, List.cons.injEq, and_true, true_and] at h
      obtain ⟨rfl, rfl, rfl, rfl⟩ := h
      rfl
    | policy =>
      have htag := (List.cons.inj h).1
      exact absurd htag (by decide)
  | policy id key value caFp =>
    cases r' with
    | envelope => cases congrArg List.length h
    | registry =>
      have htag := (List.cons.inj h).1
      exact absurd htag (by decide)
    | policy =>
      simp only [SignedRecord.fields, List.cons.injEq, and_true, true_and] at h
      obtain ⟨rfl, rfl, rfl, rfl⟩ := h
      rfl

lemma bytes_inj {r r' : SignedRecord} (h : r.Short) (h' : r'.Short) (heq : r.bytes = r'.bytes) :
    r = r' := fields_injective (canonicalFields_inj h h' heq)

/-- The bytes of a record start with a zero: its first field is shorter than `2 ^ 24` bytes. -/
lemma head?_bytes (r : SignedRecord) : r.bytes.head? = some 0 := by
  have hstart : ∀ tag rest, (utf8Bytes tag).length / 2 ^ 24 = 0 →
      (canonicalFields (tag :: rest)).head? = some 0 := by
    intro tag rest htag
    unfold canonicalFields beBytes
    rw [List.flatMap_cons, htag]
    rfl
  have htags : ∀ tag ∈ ["orca-bound-envelope-v1", "orca-secure-registry-v1", "orca-mesh-policy-v1"],
      (utf8Bytes tag).length / 2 ^ 24 = 0 := by
    simp only [utf8Bytes_eq]
    decide
  cases r with
  | envelope => exact hstart _ _ (htags _ (by decide))
  | registry => exact hstart _ _ (htags _ (by decide))
  | policy => exact hstart _ _ (htags _ (by decide))

/-! ## Signatures -/

/-- `verify_mesh_ca_signature`, with the reader of the key in a CA certificate. -/
def checkMeshCaSignature (libs : EnvelopeLibs)
    (meshCaVerifyingKey : String → Except String (List UInt8)) (caCertPem : String)
    (message : List UInt8) (signatureB64 : String) : Except String Unit := do
  let vk ← meshCaVerifyingKey caCertPem
  let sigBytes ← withContext (libs.base64Decode signatureB64) "decode signature"
  ensure (sigBytes.length == 64) "signature must be 64 bytes"
  withContext (libs.verifySignature vk message sigBytes) "mesh CA signature did not verify"

/-- The libraries of signed records: those of envelopes, and the reader of the key in a CA
certificate, with which CA signatures are checked. -/
structure RecordLibs extends EnvelopeLibs where
  /-- `mesh_ca_verifying_key`; a key is carried as its bytes. -/
  meshCaVerifyingKey : String → Except String (List UInt8)
  /-- A CA signature is one that its key verifies. -/
  verifyMeshCaSignature_iff : ∀ cert message signature,
    verifyMeshCaSignature cert message signature = true ↔
      checkMeshCaSignature toEnvelopeLibs meshCaVerifyingKey cert message signature = .ok ()

/-- What is signed with the keys of a mesh. -/
inductive Statement where
  | record (r : SignedRecord) (short : r.Short)
  /-- The payload of an envelope, another statement of a CA key or a certificate: none of them
  starts with a zero byte. -/
  | other (message : List UInt8) (start : message.head? ≠ some 0)

/-- The bytes of a statement. -/
def Statement.bytes : Statement → List UInt8
  | .record r _ => r.bytes
  | .other message _ => message

/-- Signatures cannot be forged: one that verifies was made with the key, on this message, and a
signature was made on one message only. -/
structure Unforgeable (verifies : (key message signature : List UInt8) → Prop)
    (made : (key : List UInt8) → Statement → (signature : List UInt8) → Prop) : Prop where
  genuine : ∀ key message signature, verifies key message signature →
    ∃ s, s.bytes = message ∧ made key s signature
  /-- No two messages have the same signature. -/
  single : ∀ key s s' signature, made key s signature → made key s' signature → s.bytes = s'.bytes

section Records

variable {libs : RecordLibs}
  {made : (key : List UInt8) → Statement → (signature : List UInt8) → Prop}

/-- A statement with the bytes of a record is that record. -/
lemma Statement.eq_record {s : Statement} {r : SignedRecord} (h : r.Short)
    (heq : s.bytes = r.bytes) : s = .record r h := by
  cases s with
  | record r' h' =>
    obtain rfl := bytes_inj h' h heq
    rfl
  | other message start =>
    change message = r.bytes at heq
    rw [heq, head?_bytes] at start
    exact absurd rfl start

lemma made_of_verifies
    (hunforgeable : Unforgeable (fun key message signature =>
      libs.verifySignature key message signature = .ok ()) made)
    {key signature : List UInt8} {r : SignedRecord} (h : r.Short)
    (hverifies : libs.verifySignature key r.bytes signature = .ok ()) :
    made key (.record r h) signature := by
  obtain ⟨s, hs, hmade⟩ := hunforgeable.genuine key r.bytes signature hverifies
  rwa [Statement.eq_record h hs] at hmade

/-- A binding that verifies is for this method, sender, receiver and payload, and it has a
signature that the key verifies. -/
lemma BoundEnvelope.signature_of_verify {libs : EnvelopeLibs} {b : BoundEnvelope}
    {key payload : List UInt8} {method sender receiver : String} {now : ℤ}
    (h : b.verify libs key method sender receiver payload now = .ok ()) :
    (b.method = method ∧ b.sender = sender ∧ b.receiver = receiver ∧
      b.payloadSha256 = sha256Hex libs payload) ∧
      ∃ signature, libs.base64Decode b.signatureB64 = .ok signature ∧
        libs.verifySignature key b.record.bytes signature = .ok () := by
  unfold BoundEnvelope.verify at h
  simp only [chain_ok_iff, withContext_eq_ok, ensure_eq_ok, exists_const, beq_iff_eq,
    decide_eq_true_eq] at h
  obtain ⟨hmethod, hsender, hreceiver, -, -, hpayload, signature, hdecode, -, hsignature⟩ := h
  exact ⟨⟨hmethod, hsender, hreceiver, hpayload⟩, signature, hdecode, hsignature⟩

/-- A CA record that verifies has a signature that the key of the CA verifies. -/
lemma signature_of_verifyCaRecord {cert signatureB64 : String} {fields : List String}
    (h : verifyCaRecord libs.toTrustLibs cert fields signatureB64 = true) :
    ∃ key signature, libs.meshCaVerifyingKey cert = .ok key ∧
      libs.base64Decode signatureB64 = .ok signature ∧
      libs.verifySignature key (canonicalFields fields) signature = .ok () := by
  unfold verifyCaRecord at h
  have hchain := (libs.verifyMeshCaSignature_iff _ _ _).mp h
  unfold checkMeshCaSignature at hchain
  simp only [chain_ok_iff, withContext_eq_ok, ensure_eq_ok, exists_const] at hchain
  obtain ⟨key, hkey, signature, hdecode, -, hsignature⟩ := hchain
  exact ⟨key, signature, hkey, hdecode, hsignature⟩

/-- Signed records cannot be cut in another way.  The encoding of short fields has one reading; with
signatures that cannot be forged, a binding, a row of the registry or a row of the policy that
verifies was signed as exactly this record; and a signature of a record verifies as no other one, of
the same kind or of another. -/
theorem signed_records_have_one_reading
    (hunforgeable : Unforgeable (fun key message signature =>
      libs.verifySignature key message signature = .ok ()) made) :
    (∀ fields fields' : List String, (∀ f ∈ fields, ShortField f) → (∀ f ∈ fields', ShortField f) →
      canonicalFields fields = canonicalFields fields' → fields = fields') ∧
    (∀ (b : BoundEnvelope) (hshort : b.record.Short) key method sender receiver payload now,
      b.verify libs.toEnvelopeLibs key method sender receiver payload now = .ok () →
      ∃ signature, libs.base64Decode b.signatureB64 = .ok signature ∧
        made key (.record (.envelope b.method b.sender b.receiver b.nonce b.expiresAt
          b.payloadSha256) hshort) signature ∧
        b.method = method ∧ b.sender = sender ∧ b.receiver = receiver ∧
        b.payloadSha256 = sha256Hex libs.toEnvelopeLibs payload) ∧
    (∀ (e : SecureRegistryEntry) (hshort : e.record.Short) cert,
      verifyCaRecord libs.toTrustLibs cert e.signedFields e.signature = true →
      ∃ key signature, libs.meshCaVerifyingKey cert = .ok key ∧
        libs.base64Decode e.signature = .ok signature ∧
        made key (.record (.registry e.id e.memberId e.state e.caFp) hshort) signature) ∧
    (∀ (e : MeshPolicyEntry) (hshort : e.record.Short) cert,
      verifyCaRecord libs.toTrustLibs cert e.signedFields e.signature = true →
      ∃ key signature, libs.meshCaVerifyingKey cert = .ok key ∧
        libs.base64Decode e.signature = .ok signature ∧
        made key (.record (.policy e.id e.key e.value e.caFp) hshort) signature) ∧
    ∀ key signature (r r' : SignedRecord) (hshort : r.Short), r'.Short →
      made key (.record r hshort) signature →
      libs.verifySignature key r'.bytes signature = .ok () → r' = r := by
  refine ⟨fun _ _ => canonicalFields_inj, ?_, ?_, ?_, ?_⟩
  · intro b hshort key method sender receiver payload now h
    obtain ⟨hfields, signature, hdecode, hsignature⟩ := BoundEnvelope.signature_of_verify h
    exact ⟨signature, hdecode, made_of_verifies hunforgeable hshort hsignature, hfields⟩
  · intro e hshort cert h
    obtain ⟨key, signature, hkey, hdecode, hsignature⟩ := signature_of_verifyCaRecord h
    exact ⟨key, signature, hkey, hdecode, made_of_verifies hunforgeable hshort hsignature⟩
  · intro e hshort cert h
    obtain ⟨key, signature, hkey, hdecode, hsignature⟩ := signature_of_verifyCaRecord h
    exact ⟨key, signature, hkey, hdecode, made_of_verifies hunforgeable hshort hsignature⟩
  · intro key signature r r' hshort hshort' hmade hverifies
    have hmade' := made_of_verifies hunforgeable hshort' hverifies
    exact bytes_inj hshort' hshort (hunforgeable.single key _ _ signature hmade' hmade)

end Records

/-! ## One signature -/

/-- The key of the CA below. -/
def rowKey : List UInt8 := List.replicate 32 7

/-- The signature below. -/
def rowSignature : List UInt8 := List.replicate 64 0

/-- A signed row. -/
def signedRow : SecureRegistryEntry :=
  ⟨"1", "m", "granted", "fp", "2026-07-05T09:00:00Z",
    String.ofList (List.replicate 86 'A' ++ ['=', '='])⟩

/-- Libraries of envelopes in which the signature of the row is the only one that verifies. -/
def rowEnvelopeLibs (verifyCa : String → List UInt8 → String → Bool) : EnvelopeLibs where
  toTrustLibs := { plainTrustLibs with verifyMeshCaSignature := verifyCa }
  base64Decode s :=
    if s = signedRow.signature then .ok rowSignature else .error "Invalid padding"
  verifyingKeyFromBytes bytes := .ok bytes
  verifySignature key message signature :=
    if key = rowKey ∧ message = signedRow.record.bytes ∧ signature = rowSignature then .ok ()
    else .error "signature error: Verification equation was not satisfied"
  isUuid _ := false

/-- The key of the only certificate. -/
def rowCaKey (cert : String) : Except String (List UInt8) :=
  if cert = "ca" then .ok rowKey else .error "no certificate found in PEM"

/-- Libraries in which the signature of the row is the only one that verifies. -/
def rowLibs : RecordLibs where
  toEnvelopeLibs := rowEnvelopeLibs fun cert message signature =>
    (checkMeshCaSignature (rowEnvelopeLibs fun _ _ _ => false) rowCaKey cert message
      signature).toBool
  meshCaVerifyingKey := rowCaKey
  verifyMeshCaSignature_iff cert message signature := by
    change (checkMeshCaSignature (rowEnvelopeLibs fun _ _ _ => false) rowCaKey cert message
      signature).toBool = true ↔ checkMeshCaSignature (rowEnvelopeLibs fun _ _ _ => false) rowCaKey
        cert message signature = .ok ()
    cases checkMeshCaSignature (rowEnvelopeLibs fun _ _ _ => false) rowCaKey cert message
        signature with
    | ok u => exact iff_of_true rfl rfl
    | error e =>
      refine iff_of_false (fun h => ?_) (fun h => ?_)
      · cases h
      · cases h

/-- The row verifies, and its signature does not verify as one of a policy with the same fields. -/
theorem signed_row_has_one_reading :
    verifyCaRecord rowLibs.toTrustLibs "ca" signedRow.signedFields signedRow.signature = true ∧
      rowLibs.verifySignature rowKey (SignedRecord.policy "1" "m" "granted" "fp").bytes
        rowSignature ≠ .ok () := by
  have hshort : ∀ f ∈ signedRow.record.fields ++ ["orca-mesh-policy-v1"], ShortField f := by
    unfold ShortField
    simp only [utf8Bytes_eq]
    decide
  have hrow : signedRow.record.Short := fun f hf => hshort f (List.mem_append_left _ hf)
  have hpolicy : (SignedRecord.policy "1" "m" "granted" "fp").Short := by
    intro f hf
    refine hshort f ?_
    revert f
    decide
  have hunforgeable : Unforgeable (fun key message signature =>
      rowLibs.verifySignature key message signature = .ok ())
      fun key s signature => key = rowKey ∧ s = .record signedRow.record hrow ∧
        signature = rowSignature := by
    refine ⟨fun key message signature h => ?_, ?_⟩
    · change (if key = rowKey ∧ message = signedRow.record.bytes ∧ signature = rowSignature then
        Except.ok () else Except.error _) = Except.ok () at h
      by_cases hsigned : key = rowKey ∧ message = signedRow.record.bytes ∧ signature = rowSignature
      · obtain ⟨rfl, rfl, rfl⟩ := hsigned
        exact ⟨_, rfl, rfl, rfl, rfl⟩
      · rw [if_neg hsigned] at h
        cases h
    · rintro key s s' signature ⟨-, rfl, -⟩ ⟨-, rfl, -⟩
      rfl
  refine ⟨?_, fun h => ?_⟩
  · have hkey : rowLibs.meshCaVerifyingKey "ca" = .ok rowKey := rfl
    have hdecode : rowLibs.base64Decode signedRow.signature = .ok rowSignature := by
      change (if signedRow.signature = signedRow.signature then Except.ok rowSignature
        else Except.error "Invalid padding") = Except.ok rowSignature
      exact if_pos rfl
    have hverify : rowLibs.verifySignature rowKey (canonicalFields signedRow.signedFields)
        rowSignature = .ok () := if_pos ⟨rfl, rfl, rfl⟩
    refine (rowLibs.verifyMeshCaSignature_iff _ _ _).mpr ?_
    unfold checkMeshCaSignature
    simp only [chain_ok_iff, withContext_eq_ok, ensure_eq_ok, exists_const]
    exact ⟨rowKey, hkey, rowSignature, hdecode, rfl, hverify⟩
  · have hsame := (signed_records_have_one_reading hunforgeable).2.2.2.2 rowKey rowSignature
      signedRow.record _ hrow hpolicy ⟨rfl, rfl, rfl⟩ h
    cases hsame

end Orca
