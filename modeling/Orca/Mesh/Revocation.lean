import Orca.Mesh.TrustRegistry

/-!
# Revocations across rotations

Whether a member that was revoked stays out.  The precedence of grants and revocations is decided by
the CA that signed them: a grant under the current CA of a host lifts a revocation under its
previous one.

A `TrustMesh` is a family of hosts with two histories that nobody on it reads: the rows that were
issued, with the state of the issuer, and which CA replaced which.  `Honest` is what the environment
keeps to, `Informed` what the holders must know when they issue a row, and
`revocation_outlives_rotation` the result: on a host with a verified revocation a member is only let
in again by a holder that had that revocation and granted the member anew.
`revocation_lost_by_lagging_holder` is a run in which a holder rotates without it.
-/

namespace Orca

open Check Invariant

/-! ## Meshes with histories -/

/-- A row that was issued. -/
structure Issue where
  row : SecureRegistryEntry
  /-- It was issued by `grant` or `revoke`, not by signing again. -/
  explicit : Bool
  /-- The issuer, as it was before. -/
  issuer : TrustHost

/-- A mesh with its histories. -/
structure TrustMesh (H : Type) where
  hosts : H → TrustHost
  issued : List Issue
  /-- Which CA was replaced by which, by their fingerprints. -/
  lineage : List (String × String)

section Meshes

variable (libs : TrustLibs)

/-- The rows that an action issues. -/
def issuedBy (h h' : TrustHost) : HostAction → List Issue
  | .grant _ _ => (h'.registry.drop h.registry.length).map fun row => ⟨row, true, h⟩
  | .revoke _ _ => (h'.registry.drop h.registry.length).map fun row => ⟨row, true, h⟩
  | .rotateMeshCa _ _ _ => (h'.registry.drop h.registry.length).map fun row => ⟨row, false, h⟩
  | _ => []

/-- The replacement that an action makes. -/
def replacedBy (h : TrustHost) : HostAction → List (String × String)
  | .rotateMeshCa new _ _ =>
      match rotateMeshCa libs.toCertLibs new h.pki with
      | .ok _ => ((h.pki .caCert).map fun c => (caFp libs c, caFp libs new.certPem)).toList
      | .error _ => []
  | _ => []

/-- A mesh after an action of one of its hosts. -/
def trustStep {H : Type} [DecidableEq H] (m : TrustMesh H) (a : H × HostAction) : TrustMesh H where
  hosts := meshHostStep libs m.hosts a
  issued := m.issued ++ issuedBy (m.hosts a.1) (hostStep libs (m.hosts a.1) a.2) a.2
  lineage := m.lineage ++ replacedBy libs (m.hosts a.1) a.2

/-- A host has a verified copy of a row. -/
def Received (h : TrustHost) (row : SecureRegistryEntry) : Prop :=
  ∃ e ∈ h.registry, e.signedFields = row.signedFields ∧ (registryRank libs h.pki e).isSome = true

/-- A row is signed by a CA. -/
def SignedBy (c : String) (e : SecureRegistryEntry) : Prop :=
  e.caFp = caFp libs c ∧ verifyCaRecord libs c e.signedFields e.signature = true

/-- On a host the grant of a member under a CA is in force. -/
def InForce (h : TrustHost) (c memberId : String) : Prop :=
  (∃ e ∈ h.registry, e.memberId = memberId ∧ e.state = secureGranted ∧ SignedBy libs c e) ∧
    ∀ e ∈ h.registry, e.memberId = memberId → e.state = secureRevoked → ¬SignedBy libs c e

/-- What the environment keeps to: signatures are not forged, generated CAs are fresh, and CA slots
that are adopted come from a rotation of some holder. -/
def Honest {H : Type} (m : TrustMesh H) (a : H × HostAction) : Prop :=
  match a.2 with
  | .deliverRegistry row =>
      (registryRank libs (m.hosts a.1).pki row).isSome = true →
        ∃ i ∈ m.issued, i.row.signedFields = row.signedFields
  | .rotateMeshCa new _ _ =>
      (∀ i ∈ m.issued, i.row.caFp ≠ caFp libs new.certPem) ∧
        ∀ l ∈ m.lineage, l.2 ≠ caFp libs new.certPem
  | .adopt params now _ =>
      ∀ ws, handlePushCaState libs.toCertLibs params now (m.hosts a.1).pki = .ok ws →
        ∀ p, params.previousCertPem = some p →
          (caFp libs p, caFp libs params.currentCertPem) ∈ m.lineage
  | _ => True

/-- What a holder must know when it issues a row: a grant is issued by a holder that has received
every revocation of the member under the CA that its own CA replaced, a revocation while there is no
grant of the member under a CA that replaced the current one, and a rotation by a holder that has no
grant in force of a member that was revoked under the current CA. -/
def Informed {H : Type} (m : TrustMesh H) (a : H × HostAction) : Prop :=
  match a.2 with
  | .grant memberId stamp =>
      ∀ rows, grant libs (m.hosts a.1) memberId stamp = .ok rows →
        ∀ c, (m.hosts a.1).pki .caCert = some c → ∀ i ∈ m.issued, i.row.memberId = memberId →
          i.row.state = secureRevoked → (i.row.caFp, caFp libs c) ∈ m.lineage →
          Received libs (m.hosts a.1) i.row
  | .revoke memberId stamp =>
      ∀ rows, revoke libs (m.hosts a.1) memberId stamp = .ok rows →
        ∀ c, (m.hosts a.1).pki .caCert = some c → ∀ i ∈ m.issued, i.row.memberId = memberId →
          i.row.state = secureGranted → (caFp libs c, i.row.caFp) ∉ m.lineage
  | .rotateMeshCa _ _ _ =>
      ∀ c, (m.hosts a.1).pki .caCert = some c → ∀ memberId, InForce libs (m.hosts a.1) c memberId →
        ∀ i ∈ m.issued, i.row.memberId = memberId → i.row.state = secureRevoked →
          i.row.caFp ≠ caFp libs c
  | _ => True

end Meshes

/-! ## Ranks -/

section Ranks

variable {libs : TrustLibs} {h : TrustHost}

lemma mem_ranks_iff {memberId state : String} {rank : Nat} :
    rank ∈ ranks libs h memberId state ↔ ∃ e ∈ h.registry, e.memberId = memberId ∧
      e.state = state ∧ registryRank libs h.pki e = some rank := by
  simp [ranks, and_assoc]

/-- A rank is that of the previous CA, which is `0`, or that of the current one, which is `1`. -/
lemma registryRank_cases {pki : PkiDir} {e : SecureRegistryEntry} {rank : Nat}
    (hrank : registryRank libs pki e = some rank) :
    (∃ p, pki .previousCert = some p ∧ SignedBy libs p e ∧ rank = 0) ∨
      ∃ c, pki .caCert = some c ∧ SignedBy libs c e ∧ rank = 1 := by
  rcases verifiedRank_eq_some_iff.mp hrank with
    ⟨p, hp, hfp, hverify, hzero⟩ | ⟨c, hc, -, hfp, hverify, hone⟩
  · exact Or.inl ⟨p, hp, ⟨hfp.symm, hverify⟩, hzero⟩
  · exact Or.inr ⟨c, hc, ⟨hfp.symm, hverify⟩, hone⟩

/-- **Precedence.**  A member that is let in although a revocation of it is verified has a grant
under the current CA, and the revocation is under the previous one. -/
lemma ranks_of_registered {memberId : String} (hsecure : isRegisteredSecure libs h memberId = true)
    {e : SecureRegistryEntry} (he : e ∈ h.registry) (hmember : e.memberId = memberId)
    (hstate : e.state = secureRevoked) {rank : Nat}
    (hrank : registryRank libs h.pki e = some rank) :
    ∃ p c g, h.pki .previousCert = some p ∧ h.pki .caCert = some c ∧ SignedBy libs p e ∧
      g ∈ h.registry ∧ g.memberId = memberId ∧ g.state = secureGranted ∧ SignedBy libs c g := by
  have hnot : isRevoked libs h memberId = false := by
    simp only [isRegisteredSecure, Bool.and_eq_true, Bool.not_eq_true'] at hsecure
    exact hsecure.2
  have hmem : rank ∈ ranks libs h memberId secureRevoked :=
    mem_ranks_iff.mpr ⟨e, he, hmember, hstate, hrank⟩
  obtain ⟨newest, hnewest, hlt⟩ : ∃ newest,
      (ranks libs h memberId secureGranted).max? = some newest ∧ rank < newest := by
    have hall : ((ranks libs h memberId secureGranted).max?.all fun g => g ≤ rank) = false := by
      simpa using List.any_eq_false.mp hnot rank hmem
    cases hmax : (ranks libs h memberId secureGranted).max? with
    | none =>
      rw [hmax] at hall
      cases hall
    | some newest =>
      rw [hmax] at hall
      exact ⟨newest, rfl, by simpa using hall⟩
  obtain ⟨g, hg, hgMember, hgState, hgRank⟩ := mem_ranks_iff.mp (List.max?_mem hnewest)
  rcases registryRank_cases hgRank with ⟨-, -, -, hzero⟩ | ⟨c, hc, hgSigned, hone⟩
  · exact absurd (hzero ▸ hlt) (Nat.not_lt_zero rank)
  · rcases registryRank_cases hrank with ⟨p, hp, hsigned, -⟩ | ⟨-, -, -, hone'⟩
    · exact ⟨p, c, g, hp, hc, hsigned, hg, hgMember, hgState, hgSigned⟩
    · rw [hone, hone'] at hlt
      exact absurd hlt (Nat.lt_irrefl 1)

end Ranks

/-! ## What is issued -/

section Issued

variable {libs : TrustLibs} {h : TrustHost}

/-- The signed fields name the member, the state and the CA. -/
lemma signedFields_inj {e e' : SecureRegistryEntry} (h : e.signedFields = e'.signedFields) :
    e.memberId = e'.memberId ∧ e.state = e'.state ∧ e.caFp = e'.caFp := by
  simp only [SecureRegistryEntry.signedFields, List.cons.injEq, and_true, true_and] at h
  exact h.2

/-- A row of another member does not change whether a member is let in. -/
lemma isRegisteredSecure_append {e : SecureRegistryEntry} {memberId : String}
    (hne : e.memberId ≠ memberId) :
    isRegisteredSecure libs { h with registry := h.registry ++ [e] } memberId =
      isRegisteredSecure libs h memberId := by
  have hranks : ∀ state, ranks libs { h with registry := h.registry ++ [e] } memberId state =
      ranks libs h memberId state := by
    intro state
    simp [ranks, List.filter_append, hne]
  unfold isRegisteredSecure isRevoked
  simp only [hranks]

/-- Signing the members again appends a grant for some that are let in. -/
lemma registry_resignMembers (libs : TrustLibs) (s : Signer) (mint : String → RowStamp)
    {members : List String}
    (hnodup : members.Nodup) (h : TrustHost) :
    ∃ new, (resignMembers libs s mint members h).1.registry = h.registry ++ new ∧
      ∀ e ∈ new, e.memberId ∈ members ∧ e.state = secureGranted ∧ e.caFp = s.fp ∧
        isRegisteredSecure libs h e.memberId = true := by
  induction members generalizing h with
  | nil => exact ⟨[], (List.append_nil _).symm, by simp⟩
  | cons m members ih =>
    obtain ⟨hm, hnodup⟩ := List.nodup_cons.mp hnodup
    unfold resignMembers
    split
    · rename_i hsecure
      split
      · rename_i rows hrows
        obtain ⟨e, rfl, heMember, heState, heFp⟩ := recordEntry_eq_ok hrows
        obtain ⟨new, hnew, hall⟩ := ih hnodup { h with registry := h.registry ++ [e] }
        refine ⟨e :: new, by rw [hnew, List.append_assoc, List.singleton_append], ?_⟩
        intro e' he'
        rcases List.mem_cons.mp he' with rfl | he'
        · exact ⟨heMember ▸ List.mem_cons_self, heState, heFp, heMember ▸ hsecure⟩
        · obtain ⟨hmem, hstate, hfp, hsecure'⟩ := hall e' he'
          have hne : e.memberId ≠ e'.memberId := by
            rintro heq
            rw [heMember] at heq
            exact hm (heq ▸ hmem)
          rw [isRegisteredSecure_append hne] at hsecure'
          exact ⟨List.mem_cons_of_mem m hmem, hstate, hfp, hsecure'⟩
      · exact ⟨[], (List.append_nil _).symm, by simp⟩
    · obtain ⟨new, hnew, hall⟩ := ih hnodup h
      refine ⟨new, hnew, fun e he => ?_⟩
      obtain ⟨hmem, hrest⟩ := hall e he
      exact ⟨List.mem_cons_of_mem m hmem, hrest⟩

/-- Signing again appends grants under the current CA, for members that are let in. -/
lemma registry_resignAll (libs : TrustLibs) (mint : String → RowStamp) (policyStamp : RowStamp)
    (h : TrustHost) :
    ∃ new, (resignAll libs mint policyStamp h).registry = h.registry ++ new ∧
      ∀ e ∈ new, e.state = secureGranted ∧ (∃ c, h.pki .caCert = some c ∧ e.caFp = caFp libs c) ∧
        isRegisteredSecure libs h e.memberId = true := by
  unfold resignAll
  split
  · exact ⟨[], (List.append_nil _).symm, by simp⟩
  · rename_i s hs
    obtain ⟨c, hc, hfp⟩ := signer_eq_ok hs
    obtain ⟨new, hnew, hall⟩ := registry_resignMembers libs s mint
      (List.nodup_dedup ((h.registry.map SecureRegistryEntry.memberId).insertionSort (· ≤ ·))) h
    have hgrants : ∀ e ∈ new, e.state = secureGranted ∧
        (∃ c, h.pki .caCert = some c ∧ e.caFp = caFp libs c) ∧
        isRegisteredSecure libs h e.memberId = true := by
      intro e he
      obtain ⟨-, hstate, heFp, hsecure⟩ := hall e he
      exact ⟨hstate, ⟨c, hc, heFp.trans hfp⟩, hsecure⟩
    change (resignMembers libs s mint (registryMembers h) h).1.registry = _ at hnew
    split
    · rename_i h' hresult
      rw [hresult] at hnew
      refine ⟨new, ?_, hgrants⟩
      unfold resignPolicy
      split
      · split
        · exact hnew
        · exact hnew
      · exact hnew
    · rename_i h' hresult
      rw [hresult] at hnew
      exact ⟨new, hnew, hgrants⟩

/-- A member that is let in right after a rotation has a grant in force under the CA that was
replaced, when nothing was signed under the new one. -/
lemma inForce_of_rotated {pki : PkiDir} {c new memberId : String}
    (hprevious : pki .previousCert = some c) (hcurrent : pki .caCert = some new)
    (hfresh : ∀ e ∈ h.registry, e.caFp ≠ caFp libs new)
    (hsecure : isRegisteredSecure libs { h with pki := pki } memberId = true) :
    InForce libs h c memberId := by
  have hrank : ∀ e ∈ h.registry, ∀ rank, registryRank libs pki e = some rank →
      SignedBy libs c e ∧ rank = 0 := by
    intro e he rank hrank
    rcases registryRank_cases hrank with ⟨p, hp, hsigned, hzero⟩ | ⟨c', hc', hsigned, -⟩
    · rw [hprevious] at hp
      cases hp
      exact ⟨hsigned, hzero⟩
    · rw [hcurrent] at hc'
      cases hc'
      exact absurd hsigned.1 (hfresh e he)
  constructor
  · have hne : ranks libs { h with pki := pki } memberId secureGranted ≠ [] := by
      simp only [isRegisteredSecure, Bool.and_eq_true, Bool.not_eq_true'] at hsecure
      simpa using hsecure.1
    obtain ⟨rank, hmem⟩ := List.exists_mem_of_ne_nil _ hne
    obtain ⟨e, he, hmember, hstate, hrankE⟩ := mem_ranks_iff.mp hmem
    exact ⟨e, he, hmember, hstate, (hrank e he rank hrankE).1⟩
  · intro e he hmember hstate hsigned
    -- the revocation is verified, and no grant has a greater rank
    have hverified : registryRank libs pki e = some 0 :=
      verifiedRank_eq_some_iff.mpr
        (Or.inl ⟨c, hprevious, hsigned.1.symm, hsigned.2, rfl⟩)
    obtain ⟨p, c', g, hp, hc', -, hg, -, -, hgSigned⟩ := ranks_of_registered hsecure
      (e := e) he hmember hstate hverified
    obtain rfl : new = c' := Option.some.inj (hcurrent.symm.trans hc')
    exact hfresh g hg hgSigned.1

end Issued

/-! ## The invariant -/

/-- The invariant of a mesh whose holders are informed. -/
structure Traced {H : Type} (libs : TrustLibs) (m : TrustMesh H) : Prop where
  rows : ∀ x, ∀ e ∈ (m.hosts x).registry, ∃ i ∈ m.issued, i.row.signedFields = e.signedFields
  /-- The previous CA of a host was replaced by its current one. -/
  slots : ∀ x p c, (m.hosts x).pki .previousCert = some p → (m.hosts x).pki .caCert = some c →
    (caFp libs p, caFp libs c) ∈ m.lineage
  /-- A grant under a CA that replaced that of a revocation was issued anew, by a holder that had
  the revocation. -/
  excused : ∀ g ∈ m.issued, ∀ r ∈ m.issued, g.row.state = secureGranted →
    r.row.state = secureRevoked → g.row.memberId = r.row.memberId →
    (r.row.caFp, g.row.caFp) ∈ m.lineage → g.explicit = true ∧ Received libs g.issuer r.row

section Steps

variable {H : Type} [DecidableEq H] {libs : TrustLibs} {m : TrustMesh H} {x : H}

lemma hosts_trustStep (m : TrustMesh H) (x y : H) (a : HostAction) :
    (trustStep libs m (x, a)).hosts y =
      if y = x then hostStep libs (m.hosts x) a else m.hosts y := by
  change Function.update m.hosts x (hostStep libs (m.hosts x) a) y = _
  by_cases hy : y = x
  · subst hy
    rw [Function.update_self, if_pos rfl]
  · rw [Function.update_of_ne hy, if_neg hy]

/-- The invariant after an action, from what it did to the host that acted and to the histories. -/
lemma traced_trustStep {a : HostAction} (h : Traced libs m)
    (hrows : ∀ e ∈ (hostStep libs (m.hosts x) a).registry,
      ∃ i ∈ (trustStep libs m (x, a)).issued, i.row.signedFields = e.signedFields)
    (hslots : ∀ p c, (hostStep libs (m.hosts x) a).pki .previousCert = some p →
      (hostStep libs (m.hosts x) a).pki .caCert = some c →
      (caFp libs p, caFp libs c) ∈ (trustStep libs m (x, a)).lineage)
    (hexcused : ∀ g ∈ (trustStep libs m (x, a)).issued, ∀ r ∈ (trustStep libs m (x, a)).issued,
      g.row.state = secureGranted → r.row.state = secureRevoked →
      g.row.memberId = r.row.memberId →
      (r.row.caFp, g.row.caFp) ∈ (trustStep libs m (x, a)).lineage →
      g.explicit = true ∧ Received libs g.issuer r.row) :
    Traced libs (trustStep libs m (x, a)) := by
  refine ⟨fun y => ?_, fun y => ?_, hexcused⟩
  · rw [hosts_trustStep]
    split
    · exact hrows
    · intro e he
      obtain ⟨i, hi, hfields⟩ := h.rows y e he
      exact ⟨i, List.mem_append_left _ hi, hfields⟩
  · rw [hosts_trustStep]
    split
    · exact hslots
    · exact fun p c hp hc => List.mem_append_left _ (h.slots y p c hp hc)

/-- An action that issues nothing and replaces no CA. -/
lemma traced_silent {a : HostAction} (h : Traced libs m)
    (hissued : issuedBy (m.hosts x) (hostStep libs (m.hosts x) a) a = [])
    (hreplaced : replacedBy libs (m.hosts x) a = [])
    (hrows : ∀ e ∈ (hostStep libs (m.hosts x) a).registry, e ∈ (m.hosts x).registry ∨
      ∃ i ∈ m.issued, i.row.signedFields = e.signedFields)
    (hslots : ∀ p c, (hostStep libs (m.hosts x) a).pki .previousCert = some p →
      (hostStep libs (m.hosts x) a).pki .caCert = some c →
      (caFp libs p, caFp libs c) ∈ m.lineage) : Traced libs (trustStep libs m (x, a)) := by
  have hissued' : (trustStep libs m (x, a)).issued = m.issued := by
    change m.issued ++ issuedBy _ _ a = _
    rw [hissued, List.append_nil]
  have hlineage' : (trustStep libs m (x, a)).lineage = m.lineage := by
    change m.lineage ++ replacedBy libs _ a = _
    rw [hreplaced, List.append_nil]
  refine traced_trustStep h ?_ ?_ ?_
  · rw [hissued']
    intro e he
    rcases hrows e he with hold | hissue
    · exact h.rows x e hold
    · exact hissue
  · rw [hlineage']
    exact hslots
  · rw [hissued', hlineage']
    exact h.excused

lemma issuedBy_self (h : TrustHost) (a : HostAction) : issuedBy h h a = [] := by
  cases a <;> simp [issuedBy]

/-- An action that was refused. -/
lemma traced_refused {a : HostAction} (h : Traced libs m)
    (hstep : hostStep libs (m.hosts x) a = m.hosts x)
    (hreplaced : replacedBy libs (m.hosts x) a = []) : Traced libs (trustStep libs m (x, a)) := by
  refine traced_silent h ?_ hreplaced ?_ ?_
  · rw [hstep, issuedBy_self]
  · rw [hstep]
    exact fun e he => Or.inl he
  · rw [hstep]
    exact h.slots x

/-- A host issues one row by itself. -/
lemma traced_issue {a : HostAction} (h : Traced libs m) {e : SecureRegistryEntry}
    (hstep : hostStep libs (m.hosts x) a =
      { m.hosts x with registry := (m.hosts x).registry ++ [e] })
    (hissued : issuedBy (m.hosts x) (hostStep libs (m.hosts x) a) a = [⟨e, true, m.hosts x⟩])
    (hreplaced : replacedBy libs (m.hosts x) a = [])
    (hgrant : e.state = secureGranted → ∀ r ∈ m.issued, r.row.memberId = e.memberId →
      r.row.state = secureRevoked → (r.row.caFp, e.caFp) ∈ m.lineage →
      Received libs (m.hosts x) r.row)
    (hrevoke : e.state = secureRevoked → ∀ g ∈ m.issued, g.row.memberId = e.memberId →
      g.row.state = secureGranted → (e.caFp, g.row.caFp) ∉ m.lineage) :
    Traced libs (trustStep libs m (x, a)) := by
  have hissued' : (trustStep libs m (x, a)).issued = m.issued ++ [⟨e, true, m.hosts x⟩] := by
    change m.issued ++ issuedBy _ _ a = _
    rw [hissued]
  have hlineage' : (trustStep libs m (x, a)).lineage = m.lineage := by
    change m.lineage ++ replacedBy libs _ a = _
    rw [hreplaced, List.append_nil]
  refine traced_trustStep h ?_ ?_ ?_
  · rw [hissued', hstep]
    intro e' he'
    rcases List.mem_append.mp he' with he' | he'
    · obtain ⟨i, hi, hfields⟩ := h.rows x e' he'
      exact ⟨i, List.mem_append_left _ hi, hfields⟩
    · rw [List.mem_singleton.mp he']
      exact ⟨⟨e, true, m.hosts x⟩, List.mem_append_right _ List.mem_cons_self, rfl⟩
  · rw [hlineage', hstep]
    exact h.slots x
  · rw [hissued', hlineage']
    intro g hg r hr hgState hrState hmember hlineage
    rcases List.mem_append.mp hg with hg | hg <;> rcases List.mem_append.mp hr with hr | hr
    · exact h.excused g hg r hr hgState hrState hmember hlineage
    · -- a new revocation, while there is no grant under a newer CA
      rw [List.mem_singleton.mp hr] at hrState hmember hlineage
      exact absurd hlineage (hrevoke hrState g hg hmember hgState)
    · -- a new grant, by a host that has the revocations
      rw [List.mem_singleton.mp hg] at hgState hmember hlineage ⊢
      exact ⟨rfl, hgrant hgState r hr hmember.symm hrState hlineage⟩
    · rw [List.mem_singleton.mp hg] at hgState
      rw [List.mem_singleton.mp hr, hgState] at hrState
      exact absurd hrState (by decide)

/-- A grant keeps the invariant. -/
lemma traced_grant (h : Traced libs m) {memberId : String} {stamp : RowStamp}
    (hinformed : Informed libs m (x, .grant memberId stamp)) :
    Traced libs (trustStep libs m (x, .grant memberId stamp)) := by
  cases hrows : grant libs (m.hosts x) memberId stamp with
  | error e =>
    have hstep : hostStep libs (m.hosts x) (.grant memberId stamp) = m.hosts x := by
      simp only [hostStep, hrows, TrustHost.withRegistry]
    exact traced_refused h hstep rfl
  | ok rows =>
    obtain ⟨s, hs, hrecord⟩ := chain_ok_iff.mp hrows
    obtain ⟨-, hrecord⟩ := then_ok_iff.mp hrecord
    obtain ⟨c, hc, hfp⟩ := signer_eq_ok hs
    obtain ⟨e, rfl, hmember, hstate, heFp⟩ := recordEntry_eq_ok hrecord
    have hstep : hostStep libs (m.hosts x) (.grant memberId stamp) =
        { m.hosts x with registry := (m.hosts x).registry ++ [e] } := by
      simp only [hostStep, hrows, TrustHost.withRegistry]
    refine traced_issue h hstep ?_ rfl ?_ ?_
    · rw [hstep]
      simp [issuedBy]
    · intro _ r hr hrMember hrState hlineage
      rw [heFp, hfp] at hlineage
      exact hinformed _ hrows c hc r hr (hrMember.trans hmember) hrState hlineage
    · intro hrevoked
      rw [hstate] at hrevoked
      exact absurd hrevoked (by decide)

/-- A revocation keeps the invariant. -/
lemma traced_revoke (h : Traced libs m) {memberId : String} {stamp : RowStamp}
    (hinformed : Informed libs m (x, .revoke memberId stamp)) :
    Traced libs (trustStep libs m (x, .revoke memberId stamp)) := by
  cases hrows : revoke libs (m.hosts x) memberId stamp with
  | error e =>
    have hstep : hostStep libs (m.hosts x) (.revoke memberId stamp) = m.hosts x := by
      simp only [hostStep, hrows, TrustHost.withRegistry]
    exact traced_refused h hstep rfl
  | ok rows =>
    obtain ⟨s, hs, hrecord⟩ := chain_ok_iff.mp hrows
    obtain ⟨c, hc, hfp⟩ := signer_eq_ok hs
    obtain ⟨e, rfl, hmember, hstate, heFp⟩ := recordEntry_eq_ok hrecord
    have hstep : hostStep libs (m.hosts x) (.revoke memberId stamp) =
        { m.hosts x with registry := (m.hosts x).registry ++ [e] } := by
      simp only [hostStep, hrows, TrustHost.withRegistry]
    refine traced_issue h hstep ?_ rfl ?_ ?_
    · rw [hstep]
      simp [issuedBy]
    · intro hgranted
      rw [hstate] at hgranted
      exact absurd hgranted (by decide)
    · intro _ g hg hgMember hgState
      rw [heFp, hfp]
      exact hinformed _ hrows c hc g hg (hgMember.trans hmember) hgState

/-- A rotation keeps the invariant. -/
lemma traced_rotateMeshCa (h : Traced libs m) {new : PemPair} {mint : String → RowStamp}
    {policyStamp : RowStamp} (hhonest : Honest libs m (x, .rotateMeshCa new mint policyStamp))
    (hinformed : Informed libs m (x, .rotateMeshCa new mint policyStamp)) :
    Traced libs (trustStep libs m (x, .rotateMeshCa new mint policyStamp)) := by
  cases hws : rotateMeshCa libs.toCertLibs new (m.hosts x).pki with
  | error e =>
    have hstep : hostStep libs (m.hosts x) (.rotateMeshCa new mint policyStamp) = m.hosts x := by
      simp only [hostStep, hws]
    exact traced_refused h hstep (by simp only [replacedBy, hws])
  | ok ws =>
    obtain ⟨hfreshIssued, hfreshLineage⟩ := hhonest
    obtain ⟨c, key, record, hc, -, -, hwrites⟩ := rotateMeshCa_eq_ok hws
    have hprevious : (m.hosts x).pki.writeAll ws .previousCert = some c := by
      rw [hwrites]
      rfl
    have hcurrent : (m.hosts x).pki.writeAll ws .caCert = some new.certPem := by
      rw [hwrites]
      rfl
    have hstep : hostStep libs (m.hosts x) (.rotateMeshCa new mint policyStamp) =
        resignAll libs mint policyStamp { m.hosts x with pki := (m.hosts x).pki.writeAll ws } := by
      simp only [hostStep, hws]
    obtain ⟨rows, hrows, hall⟩ := registry_resignAll libs mint policyStamp
      { m.hosts x with pki := (m.hosts x).pki.writeAll ws }
    have hfreshRows : ∀ e ∈ (m.hosts x).registry, e.caFp ≠ caFp libs new.certPem := by
      intro e he
      obtain ⟨i, hi, hfields⟩ := h.rows x e he
      rw [← (signedFields_inj hfields).2.2]
      exact hfreshIssued i hi
    -- the new rows are grants under the new CA of members in force under the old one
    have hnew : ∀ e ∈ rows, e.state = secureGranted ∧ e.caFp = caFp libs new.certPem ∧
        InForce libs (m.hosts x) c e.memberId := by
      intro e he
      obtain ⟨hstate, ⟨c', hc', hfp⟩, hsecure⟩ := hall e he
      obtain rfl : new.certPem = c' := Option.some.inj (hcurrent.symm.trans hc')
      exact ⟨hstate, hfp, inForce_of_rotated hprevious hcurrent hfreshRows hsecure⟩
    have hissued' : (trustStep libs m (x, .rotateMeshCa new mint policyStamp)).issued =
        m.issued ++ rows.map fun row => ⟨row, false, m.hosts x⟩ := by
      change m.issued ++ issuedBy _ (hostStep libs (m.hosts x) _) _ = _
      rw [hstep]
      simp [issuedBy, hrows]
    have hlineage' : (trustStep libs m (x, .rotateMeshCa new mint policyStamp)).lineage =
        m.lineage ++ [(caFp libs c, caFp libs new.certPem)] := by
      change m.lineage ++ replacedBy libs _ _ = _
      simp only [replacedBy, hws, hc, Option.map_some, Option.toList_some]
    refine traced_trustStep h ?_ ?_ ?_
    · rw [hissued', hstep, hrows]
      intro e he
      rcases List.mem_append.mp he with he | he
      · obtain ⟨i, hi, hfields⟩ := h.rows x e he
        exact ⟨i, List.mem_append_left _ hi, hfields⟩
      · exact ⟨⟨e, false, m.hosts x⟩, List.mem_append_right _ (List.mem_map_of_mem he), rfl⟩
    · rw [hlineage', hstep, pki_resignAll]
      intro p c' hp hc'
      obtain rfl : c = p := Option.some.inj (hprevious.symm.trans hp)
      obtain rfl : new.certPem = c' := Option.some.inj (hcurrent.symm.trans hc')
      exact List.mem_append_right _ List.mem_cons_self
    · rw [hissued', hlineage']
      intro g hg r hr hgState hrState hmember hlineage
      have hrOld : r ∈ m.issued := by
        rcases List.mem_append.mp hr with hr | hr
        · exact hr
        · obtain ⟨e, he, rfl⟩ := List.mem_map.mp hr
          rw [(hnew e he).1] at hrState
          exact absurd hrState (by decide)
      rcases List.mem_append.mp hg with hg | hg
      · rcases List.mem_append.mp hlineage with hlineage | hlineage
        · exact h.excused g hg r hrOld hgState hrState hmember hlineage
        · have hfp := (Prod.mk.inj (List.mem_singleton.mp hlineage)).2
          exact absurd hfp (hfreshIssued g hg)
      · obtain ⟨e, he, rfl⟩ := List.mem_map.mp hg
        obtain ⟨-, hfp, hinForce⟩ := hnew e he
        rcases List.mem_append.mp hlineage with hlineage | hlineage
        · exact absurd hfp (hfreshLineage _ hlineage)
        · have hfp := (Prod.mk.inj (List.mem_singleton.mp hlineage)).1
          exact absurd hfp (hinformed c hc e.memberId hinForce r hrOld hmember.symm hrState)

/-- An adopted CA keeps the invariant. -/
lemma traced_adopt (h : Traced libs m) {params : CaStatePayload} {now : Int} {demoted : Bool}
    (hhonest : Honest libs m (x, .adopt params now demoted)) :
    Traced libs (trustStep libs m (x, .adopt params now demoted)) := by
  cases hws : handlePushCaState libs.toCertLibs params now (m.hosts x).pki with
  | error e =>
    have hstep : hostStep libs (m.hosts x) (.adopt params now demoted) = m.hosts x := by
      simp only [hostStep, performCa, hws]
    exact traced_refused h hstep rfl
  | ok ws =>
    obtain ⟨localCurrent, prevCert, -, hparams, -, hcaCert, hprevious⟩ :=
      slots_pushCaState hws demoted
    refine traced_silent h rfl rfl (fun e he => Or.inl he) ?_
    intro p c hp hc
    obtain rfl : prevCert = p := Option.some.inj (hprevious.symm.trans hp)
    obtain rfl : params.currentCertPem = c := Option.some.inj (hcaCert.symm.trans hc)
    exact hhonest ws hws prevCert hparams

/-- A delivered row keeps the invariant. -/
lemma traced_deliverRegistry (h : Traced libs m) {row : SecureRegistryEntry}
    (hhonest : Honest libs m (x, .deliverRegistry row)) :
    Traced libs (trustStep libs m (x, .deliverRegistry row)) := by
  by_cases hverified : (registryRank libs (m.hosts x).pki row).isSome = true
  · cases hrows : insertRegistryEntry (m.hosts x).registry row with
    | error e =>
      have hstep : hostStep libs (m.hosts x) (.deliverRegistry row) = m.hosts x := by
        simp only [hostStep, mergeRegistryRow, if_pos hverified, hrows, TrustHost.withRegistry]
      exact traced_refused h hstep rfl
    | ok rows =>
      have hstep : hostStep libs (m.hosts x) (.deliverRegistry row) =
          { m.hosts x with registry := (m.hosts x).registry ++ [row] } := by
        simp only [hostStep, mergeRegistryRow, if_pos hverified, hrows, TrustHost.withRegistry,
          insertRegistryEntry_eq_ok hrows]
      refine traced_silent h rfl rfl ?_ ?_
      · rw [hstep]
        intro e he
        rcases List.mem_append.mp he with he | he
        · exact Or.inl he
        · rw [List.mem_singleton.mp he]
          exact Or.inr (hhonest hverified)
      · rw [hstep]
        exact h.slots x
  · have hstep : hostStep libs (m.hosts x) (.deliverRegistry row) = m.hosts x := by
      simp only [hostStep, mergeRegistryRow, if_neg hverified]
    exact traced_refused h hstep rfl

/-- An action on the policy leaves the registry and the CAs alone. -/
lemma traced_withPolicy {a : HostAction} (h : Traced libs m)
    {result : Except String (List MeshPolicyEntry)}
    (hstep : hostStep libs (m.hosts x) a = (m.hosts x).withPolicy result)
    (hissued : ∀ h', issuedBy (m.hosts x) h' a = [])
    (hreplaced : replacedBy libs (m.hosts x) a = []) : Traced libs (trustStep libs m (x, a)) := by
  cases result with
  | error e => exact traced_refused h hstep hreplaced
  | ok rows =>
    refine traced_silent h (hissued _) hreplaced ?_ ?_
    · rw [hstep]
      exact fun e he => Or.inl he
    · rw [hstep]
      exact h.slots x

/-- **One action.**  What the holders and the environment keep to keeps the invariant. -/
lemma traced_step {a : H × HostAction} (h : Traced libs m) (hhonest : Honest libs m a)
    (hinformed : Informed libs m a) : Traced libs (trustStep libs m a) := by
  obtain ⟨x, a⟩ := a
  cases a with
  | grant memberId stamp => exact traced_grant h hinformed
  | revoke memberId stamp => exact traced_revoke h hinformed
  | enableRequireBound laggards stamp => exact traced_withPolicy h rfl (fun _ => rfl) rfl
  | rotateMeshCa new mint policyStamp => exact traced_rotateMeshCa h hhonest hinformed
  | dropMeshCaPrevious =>
    refine traced_silent h rfl rfl (fun e he => Or.inl he) fun p c hp => ?_
    cases hp
  | adopt params now demoted => exact traced_adopt h hhonest
  | deliverRegistry row => exact traced_deliverRegistry h hhonest
  | deliverPolicy row =>
    by_cases hverified : (policyRank libs (m.hosts x).pki row).isSome = true
    · have hstep : hostStep libs (m.hosts x) (.deliverPolicy row) =
          (m.hosts x).withPolicy (insertPolicyEntry (m.hosts x).policy row) := by
        simp only [hostStep, mergePolicyRow, if_pos hverified]
      exact traced_withPolicy h hstep (fun _ => rfl) rfl
    · refine traced_refused h ?_ rfl
      simp only [hostStep, mergePolicyRow, if_neg hverified]

end Steps

/-! ## Runs -/

/-- **A revocation outlives rotation.**  In every run of a mesh that starts without rows and without
previous CAs, in which the environment is honest and the holders are informed: when a host lets a
member in although it has a verified revocation of it, then a holder that had a verified copy of
that revocation has granted the member anew, under the CA that replaced the one of the revocation.
-/
theorem revocation_outlives_rotation {H : Type} [DecidableEq H] {libs : TrustLibs}
    {m : TrustMesh H} (hissued : m.issued = [])
    (hempty : ∀ x, (m.hosts x).registry = [] ∧ (m.hosts x).pki .previousCert = none)
    {actions : List (H × HostAction)}
    (hhonest : Along (trustStep libs) (Honest libs) m actions)
    (hinformed : Along (trustStep libs) (Informed libs) m actions) :
    ∀ before, before <+: actions →
      let m' := before.foldl (trustStep libs) m
      ∀ x memberId, ∀ e ∈ (m'.hosts x).registry, e.memberId = memberId →
        e.state = secureRevoked → (registryRank libs (m'.hosts x).pki e).isSome = true →
        isRegisteredSecure libs (m'.hosts x) memberId = true →
        ∃ i ∈ m'.issued, i.explicit = true ∧ i.row.memberId = memberId ∧
          i.row.state = secureGranted ∧ (e.caFp, i.row.caFp) ∈ m'.lineage ∧
          Received libs i.issuer e := by
  intro before hbefore m' x memberId e he hmember hstate hverified hsecure
  have hstart : Traced libs m := by
    refine ⟨fun x e he => ?_, fun x p c hp => ?_, ?_⟩
    · rw [(hempty x).1] at he
      cases he
    · rw [(hempty x).2] at hp
      cases hp
    · simp [hissued]
  have htraced : Traced libs m' :=
    foldl_invariant_along (Q := fun m a => Honest libs m a ∧ Informed libs m a)
      (fun m a h hstep => traced_step h hstep.1 hstep.2)
      (along_and.mpr ⟨along_of_initial hhonest hbefore, along_of_initial hinformed hbefore⟩) hstart
  obtain ⟨rank, hrank⟩ := Option.isSome_iff_exists.mp hverified
  obtain ⟨p, c, g, hp, hc, hsigned, hg, hgMember, hgState, hgSigned⟩ :=
    ranks_of_registered hsecure he hmember hstate hrank
  obtain ⟨r, hr, hrFields⟩ := htraced.rows x e he
  obtain ⟨i, hi, hiFields⟩ := htraced.rows x g hg
  obtain ⟨hrMember, hrState, hrFp⟩ := signedFields_inj hrFields
  obtain ⟨hiMember, hiState, hiFp⟩ := signedFields_inj hiFields
  have hlineage : (e.caFp, i.row.caFp) ∈ m'.lineage := by
    rw [hiFp, hsigned.1, hgSigned.1]
    exact htraced.slots x p c hp hc
  obtain ⟨hexplicit, e', he', hfields, hverified'⟩ := htraced.excused i hi r hr
    (hiState.trans hgState) (hrState.trans hstate)
    (by rw [hiMember, hgMember, hrMember, hmember]) (by rwa [hrFp])
  exact ⟨i, hi, hexplicit, hiMember.trans hgMember, hiState.trans hgState, hlineage, e', he',
    hfields.trans hrFields, hverified'⟩

/-- Two holders of one CA, before anything was issued. -/
def plainTrustMesh : TrustMesh Bool := ⟨plainMesh, [], []⟩

/-- A holder grants a member, revokes it, rotates the CA and grants it anew. -/
def grantedAnew : List (Bool × HostAction) :=
  [(true, .grant "m1" ⟨"g1", "t1"⟩), (true, .revoke "m1" ⟨"r1", "t2"⟩),
    (true, .rotateMeshCa ⟨"new", "new"⟩ (fun m => ⟨m, "t3"⟩) ⟨"p1", "t3"⟩),
    (true, .grant "m1" ⟨"g2", "t4"⟩)]

/-- A member that was granted anew is let in, and the holder that did it had the revocation. -/
theorem revocation_lifted_by_new_grant :
    let m := grantedAnew.foldl (trustStep plainTrustLibs) plainTrustMesh
    isRegisteredSecure plainTrustLibs (m.hosts true) "m1" = true ∧
    ∃ i ∈ m.issued, i.explicit = true ∧ i.row.memberId = "m1" ∧ i.row.state = secureGranted ∧
      ∃ e ∈ i.issuer.registry, e.state = secureRevoked := by
  have hhonest : Along (trustStep plainTrustLibs) (Honest plainTrustLibs) plainTrustMesh
      grantedAnew :=
    ⟨trivial, trivial, ⟨by decide +kernel, by decide +kernel⟩, trivial, trivial⟩
  have hinformed : Along (trustStep plainTrustLibs) (Informed plainTrustLibs) plainTrustMesh
      grantedAnew := by
    refine ⟨?_, ?_, ?_, ?_, trivial⟩
    · intro rows _ c _ i hi
      cases hi
    · intro rows _ c _ i _ _ _ hlineage
      cases hlineage
    · intro c hc memberId hinForce
      cases hc
      have hmember : memberId = "m1" := by
        obtain ⟨⟨e, he, rfl, -⟩, -⟩ := hinForce
        revert e
        decide +kernel
      subst hmember
      have hsigned : ∃ e ∈ (meshHostStep plainTrustLibs (meshHostStep plainTrustLibs plainMesh
          (true, .grant "m1" ⟨"g1", "t1"⟩)) (true, .revoke "m1" ⟨"r1", "t2"⟩) true).registry,
          e.memberId = "m1" ∧ e.state = secureRevoked ∧ SignedBy plainTrustLibs "old" e := by
        unfold SignedBy
        decide +kernel
      obtain ⟨e, he, hmember, hstate, hsigned⟩ := hsigned
      exact absurd hsigned (hinForce.2 e he hmember hstate)
    · intro rows _ c _ i hi hmember hstate hlineage
      unfold Received
      clear hmember hlineage
      revert i
      decide +kernel
  have hall := revocation_outlives_rotation rfl (fun x => ⟨rfl, rfl⟩) hhonest hinformed grantedAnew
    List.prefix_rfl true "m1"
  have hsecure : isRegisteredSecure plainTrustLibs
      ((grantedAnew.foldl (trustStep plainTrustLibs) plainTrustMesh).hosts true) "m1" = true := by
    decide +kernel
  refine ⟨hsecure, ?_⟩
  have hrevoked : ∃ e ∈ ((grantedAnew.foldl (trustStep plainTrustLibs) plainTrustMesh).hosts
      true).registry, e.memberId = "m1" ∧ e.state = secureRevoked ∧
      (registryRank plainTrustLibs ((grantedAnew.foldl (trustStep plainTrustLibs)
        plainTrustMesh).hosts true).pki e).isSome = true := by
    decide +kernel
  obtain ⟨e, he, hmember, hstate, hverified⟩ := hrevoked
  obtain ⟨i, hi, hexplicit, hiMember, hiState, -, e', he', hfields, -⟩ :=
    hall e he hmember hstate hverified hsecure
  exact ⟨i, hi, hexplicit, hiMember, hiState, e', he', (signedFields_inj hfields).2.1.trans hstate⟩

/-- One holder grants a member, the other one revokes it, the first one rotates the CA without the
revocation, and the second one adopts the new CA. -/
def revokedMeanwhile : List (Bool × HostAction) :=
  [(false, .grant "m1" ⟨"g1", "t1"⟩), (true, .revoke "m1" ⟨"r1", "t2"⟩),
    (false, .rotateMeshCa ⟨"new", "new"⟩ (fun m => ⟨m, "t3"⟩) ⟨"p1", "t3"⟩),
    (true, .adopt ⟨"new", "new", some "old", some "old", some 2⟩ 1 false)]

/-- The grant that the first holder has signed again. -/
def signedAgain : SecureRegistryEntry :=
  ((revokedMeanwhile.foldl (trustStep plainTrustLibs) plainTrustMesh).hosts false).registry.getLastD
    ⟨"", "", "", "", "", ""⟩

/-- The grant that was signed again lets the member in where the revocation is known, and nobody
that had the revocation has granted it. -/
theorem revocation_lost_by_lagging_holder :
    let actions := revokedMeanwhile ++ [(true, HostAction.deliverRegistry signedAgain)]
    let m := actions.foldl (trustStep plainTrustLibs) plainTrustMesh
    Along (trustStep plainTrustLibs) (Honest plainTrustLibs) plainTrustMesh actions ∧
    (∃ e ∈ (m.hosts true).registry, e.memberId = "m1" ∧ e.state = secureRevoked ∧
      (registryRank plainTrustLibs (m.hosts true).pki e).isSome = true) ∧
    isRegisteredSecure plainTrustLibs (m.hosts true) "m1" = true ∧
    ∀ i ∈ m.issued, i.explicit = true → i.row.state = secureGranted → i.issuer.registry = [] := by
  refine ⟨⟨trivial, trivial, ⟨?_, ?_⟩, ?_, ?_, trivial⟩, ?_, ?_, ?_⟩
  · decide +kernel
  · decide +kernel
  · intro ws _ p hp
    cases hp
    decide +kernel
  · intro _
    decide +kernel
  · decide +kernel
  · decide +kernel
  · decide +kernel

end Orca
