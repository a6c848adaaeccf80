import Orca.Mesh.TrustRegistry

/-!
# The switch against unbound envelopes

Whether `require_bound` stays on.  The switch is on while a host has a row for it that one of the
CAs in its slots has signed.  A rotation, an adopted CA and the end of an overlap each take a CA out
of the slots; `KeepsSwitch` says which row the host must have before such an action, and
`require_bound_stays_on_iff` that the switch stays on exactly if it has it each time.
`require_bound_turned_off` is a run in which a holder that lacks the row rotates the CA.
-/

namespace Orca

open Check Invariant

section Switch

variable (libs : TrustLibs)

/-- The host has a row that turns the switch on and that a CA has signed. -/
def HoldsSwitch (h : TrustHost) (cert : String) : Prop :=
  ∃ e ∈ h.policy, e.key = policyRequireBound ∧ e.value = "true" ∧ e.caFp = caFp libs cert ∧
    verifyCaRecord libs cert e.signedFields e.signature = true

/-- The host has such a row under its current CA, or under the CA that is about to replace it. -/
def HoldsAcross (h : TrustHost) (next : String) : Prop :=
  ∃ c, h.pki .caCert = some c ∧
    (HoldsSwitch libs h c ∨ caFp libs c ≠ caFp libs next ∧ HoldsSwitch libs h next)

/-- Before an action that takes a CA out of the slots, the host has a row under a CA that stays. -/
def KeepsSwitch (h : TrustHost) : HostAction → Prop
  | .dropMeshCaPrevious => ∃ c, h.pki .caCert = some c ∧ HoldsSwitch libs h c
  | .rotateMeshCa new _ _ =>
      (∃ ws, rotateMeshCa libs.toCertLibs new h.pki = .ok ws) → HoldsAcross libs h new.certPem
  | .adopt params now _ =>
      (∃ ws, handlePushCaState libs.toCertLibs params now h.pki = .ok ws) →
        HoldsAcross libs h params.currentCertPem
  | _ => True

/-- `verify_mesh_ca_signature` reads the certificate in a PEM text, whatever is around it. -/
def VerifiesTrimmed : Prop :=
  ∀ cert bytes signature, libs.verifyMeshCaSignature (trim cert) bytes signature =
    libs.verifyMeshCaSignature cert bytes signature

end Switch

section Steps

variable {libs : TrustLibs} {h h' : TrustHost}

/-- The switch is on when there is a row under a CA in one of the slots. -/
lemma requireBound_iff : requireBound libs h = true ↔
    (∃ p, h.pki .previousCert = some p ∧ HoldsSwitch libs h p) ∨
      ∃ c, h.pki .caCert = some c ∧
        (∀ p, h.pki .previousCert = some p → caFp libs p ≠ caFp libs c) ∧ HoldsSwitch libs h c := by
  have hany : requireBound libs h = true ↔ ∃ e ∈ h.policy, e.key = policyRequireBound ∧
      e.value = "true" ∧ ∃ rank, policyRank libs h.pki e = some rank := by
    simp [requireBound, Option.isSome_iff_exists, and_assoc]
  rw [hany]
  constructor
  · rintro ⟨e, he, hkey, hvalue, rank, hrank⟩
    rcases verifiedRank_eq_some_iff.mp hrank with
      ⟨p, hp, hfp, hverify, -⟩ | ⟨c, hc, hother, hfp, hverify, -⟩
    · exact Or.inl ⟨p, hp, e, he, hkey, hvalue, hfp.symm, hverify⟩
    · exact Or.inr ⟨c, hc, hfp ▸ hother, e, he, hkey, hvalue, hfp.symm, hverify⟩
  · rintro (⟨p, hp, e, he, hkey, hvalue, hfp, hverify⟩ |
      ⟨c, hc, hother, e, he, hkey, hvalue, hfp, hverify⟩)
    · refine ⟨e, he, hkey, hvalue, 0, verifiedRank_eq_some_iff.mpr (Or.inl ?_)⟩
      exact ⟨p, hp, hfp.symm, hverify, rfl⟩
    · refine ⟨e, he, hkey, hvalue, 1, verifiedRank_eq_some_iff.mpr (Or.inr ?_)⟩
      exact ⟨c, hc, hfp ▸ hother, hfp.symm, hverify, rfl⟩

/-- What is around a certificate does not matter for the rows under it. -/
lemma holdsSwitch_congr (hpem : VerifiesTrimmed libs) {c c' : String} (htrim : trim c = trim c') :
    HoldsSwitch libs h c ↔ HoldsSwitch libs h c' := by
  have hverify : ∀ fields signature,
      verifyCaRecord libs c fields signature = verifyCaRecord libs c' fields signature := by
    intro fields signature
    unfold verifyCaRecord
    rw [← hpem c, htrim, hpem c']
  unfold HoldsSwitch
  simp only [caFp, htrim, hverify]

lemma holdsSwitch_of_policy_subset (hpolicy : h.policy ⊆ h'.policy) {c : String}
    (hholds : HoldsSwitch libs h c) : HoldsSwitch libs h' c := by
  obtain ⟨e, he, hrest⟩ := hholds
  exact ⟨e, hpolicy he, hrest⟩

lemma requireBound_of_policy_subset (hpki : h'.pki = h.pki) (hpolicy : h.policy ⊆ h'.policy)
    (hon : requireBound libs h = true) : requireBound libs h' = true := by
  rw [requireBound_iff] at hon ⊢
  rw [hpki]
  rcases hon with ⟨p, hp, hholds⟩ | ⟨c, hc, hother, hholds⟩
  · exact Or.inl ⟨p, hp, holdsSwitch_of_policy_subset hpolicy hholds⟩
  · exact Or.inr ⟨c, hc, hother, holdsSwitch_of_policy_subset hpolicy hholds⟩

/-- The switch after the current CA has moved to the previous slot. -/
lemma requireBound_replaced (hpem : VerifiesTrimmed libs) {c p next : String}
    (hpolicy : h'.policy = h.policy) (hcurrent : h.pki .caCert = some c)
    (hprevious : h'.pki .previousCert = some p) (htrim : trim p = trim c)
    (hnext : h'.pki .caCert = some next) :
    requireBound libs h' = true ↔ HoldsAcross libs h next := by
  have hfp : caFp libs p = caFp libs c := by
    unfold caFp
    rw [htrim]
  have hsame : ∀ cert, HoldsSwitch libs h' cert ↔ HoldsSwitch libs h cert := by
    intro cert
    unfold HoldsSwitch
    rw [hpolicy]
  rw [requireBound_iff, HoldsAcross, hprevious, hnext, hcurrent]
  simp only [Option.some.injEq, exists_eq_left', forall_eq', hsame, hfp,
    holdsSwitch_congr hpem htrim]

lemma requireBound_congr (hpki : h'.pki = h.pki) (hpolicy : h'.policy = h.policy) :
    requireBound libs h' = requireBound libs h := by
  unfold requireBound
  rw [hpki, hpolicy]

/-- Signing again changes nothing about the switch. -/
lemma requireBound_resignAll (mint : String → RowStamp) (policyStamp : RowStamp) (h : TrustHost) :
    requireBound libs (resignAll libs mint policyStamp h) = requireBound libs h := by
  have hpki := pki_resignAll libs mint policyStamp h
  rcases policy_resignAll libs mint policyStamp h with
    hpolicy | ⟨⟨h', hpki', hpolicy', hon⟩, e, hpolicy⟩
  · exact requireBound_congr hpki hpolicy
  · rw [requireBound_congr hpki' hpolicy'] at hon
    rw [hon]
    exact requireBound_of_policy_subset hpki (hpolicy ▸ List.subset_append_left _ _) hon

lemma requireBound_withPolicy {result : Except String (List MeshPolicyEntry)}
    (hresult : ∀ rows, result = .ok rows → ∃ e, rows = h.policy ++ [e])
    (hon : requireBound libs h = true) : requireBound libs (h.withPolicy result) = true := by
  cases result with
  | error e => exact hon
  | ok rows =>
    obtain ⟨e, rfl⟩ := hresult rows rfl
    exact requireBound_of_policy_subset (h := h) rfl (List.subset_append_left _ _) hon

/-- **One action.**  A switch that is on stays on exactly if the host has a row under a CA that
stays in its slots. -/
lemma requireBound_hostStep_iff (hpem : VerifiesTrimmed libs) (hon : requireBound libs h = true)
    (a : HostAction) : requireBound libs (hostStep libs h a) = true ↔ KeepsSwitch libs h a := by
  cases a with
  | grant memberId stamp =>
    refine iff_of_true ?_ trivial
    change requireBound libs (h.withRegistry _) = true
    cases grant libs h memberId stamp with
    | error e => exact hon
    | ok rows => exact hon
  | revoke memberId stamp =>
    refine iff_of_true ?_ trivial
    change requireBound libs (h.withRegistry _) = true
    cases revoke libs h memberId stamp with
    | error e => exact hon
    | ok rows => exact hon
  | enableRequireBound laggards stamp =>
    refine iff_of_true (requireBound_withPolicy (fun rows hrows => ?_) hon) trivial
    obtain ⟨-, hrows⟩ := then_ok_iff.mp hrows
    obtain ⟨s, -, hrows⟩ := chain_ok_iff.mp hrows
    exact recordRequireBound_eq_ok hrows
  | rotateMeshCa new mint policyStamp =>
    cases hws : rotateMeshCa libs.toCertLibs new h.pki with
    | error e =>
      have hstep : hostStep libs h (.rotateMeshCa new mint policyStamp) = h := by
        simp only [hostStep, hws]
      rw [hstep]
      refine iff_of_true hon ?_
      rintro ⟨ws, hok⟩
      rw [hws] at hok
      cases hok
    | ok ws =>
      have hstep : hostStep libs h (.rotateMeshCa new mint policyStamp) =
          resignAll libs mint policyStamp { h with pki := h.pki.writeAll ws } := by
        simp only [hostStep, hws]
      rw [hstep, requireBound_resignAll]
      obtain ⟨curCertPem, curKeyPem, record, hcert, -, -, hwrites⟩ := rotateMeshCa_eq_ok hws
      subst hwrites
      refine Iff.trans (requireBound_replaced hpem (h := h) (p := curCertPem) rfl hcert rfl rfl
        (show _ = some new.certPem from rfl)) ?_
      exact ⟨fun hacross _ => hacross, fun hkeeps => hkeeps ⟨_, hws⟩⟩
  | dropMeshCaPrevious =>
    rw [requireBound_iff]
    constructor
    · rintro (⟨p, hp, -⟩ | ⟨c, hc, -, hholds⟩)
      · cases hp
      · exact ⟨c, hc, hholds⟩
    · rintro ⟨c, hc, hholds⟩
      refine Or.inr ⟨c, hc, fun p hp => ?_, hholds⟩
      cases hp
  | adopt params now demoted =>
    cases hws : handlePushCaState libs.toCertLibs params now h.pki with
    | error e =>
      have hstep : hostStep libs h (.adopt params now demoted) = h := by
        simp only [hostStep, performCa, hws]
      rw [hstep]
      refine iff_of_true hon ?_
      rintro ⟨ws, hok⟩
      rw [hws] at hok
      cases hok
    | ok ws =>
      obtain ⟨localCurrent, prevCert, hlocal, -, hchains, hcaCert, hprevious⟩ :=
        slots_pushCaState hws demoted
      have hpolicy : (hostStep libs h (.adopt params now demoted)).policy = h.policy := rfl
      rw [requireBound_replaced hpem hpolicy hlocal hprevious hchains hcaCert]
      exact ⟨fun hacross _ => hacross, fun hkeeps => hkeeps ⟨_, hws⟩⟩
  | deliverRegistry row =>
    refine iff_of_true ?_ trivial
    change requireBound libs (mergeRegistryRow libs h row) = true
    unfold mergeRegistryRow
    split
    · cases insertRegistryEntry h.registry row with
      | error e => exact hon
      | ok rows => exact hon
    · exact hon
  | deliverPolicy row =>
    refine iff_of_true ?_ trivial
    change requireBound libs (mergePolicyRow libs h row) = true
    unfold mergePolicyRow
    split
    · exact requireBound_withPolicy (fun rows hrows => ⟨row, insertPolicyEntry_eq_ok hrows⟩) hon
    · exact hon

end Steps

/-! ## Runs -/

/-- The actions of a host keep a row under a CA that stays. -/
def KeepsSwitchAt {H : Type} (libs : TrustLibs) (host : H) (mesh : H → TrustHost)
    (a : H × HostAction) : Prop :=
  a.1 = host → KeepsSwitch libs (mesh host) a.2

/-- **The switch is one-way as far as its rows go.**  In every run of a mesh, a switch that is on at
a host stays on there exactly if, before every rotation, adoption and end of an overlap on that
host, the host has a row for it under its current CA (or, before a replacement, under the CA that
takes its place). -/
theorem require_bound_stays_on_iff {H : Type} [DecidableEq H] {libs : TrustLibs}
    (hpem : VerifiesTrimmed libs) {mesh : H → TrustHost} {host : H}
    (hon : requireBound libs (mesh host) = true) (actions : List (H × HostAction)) :
    (∀ before, before <+: actions →
      requireBound libs (before.foldl (meshHostStep libs) mesh host) = true) ↔
      Along (meshHostStep libs) (KeepsSwitchAt libs host) mesh actions := by
  refine foldl_holds_iff_along
    (I := fun mesh : H → TrustHost => requireBound libs (mesh host) = true)
    (fun mesh a hon => ?_) hon
  by_cases ha : a.1 = host
  · have hhost : meshHostStep libs mesh a host = hostStep libs (mesh host) a.2 := by
      rw [meshHostStep, ha, Function.update_self]
    rw [hhost, requireBound_hostStep_iff hpem hon]
    exact ⟨fun hkeeps _ => hkeeps, fun hkeeps => hkeeps ha⟩
  · have hhost : meshHostStep libs mesh a host = mesh host :=
      Function.update_of_ne (Ne.symm ha) _ _
    rw [hhost]
    exact iff_of_true hon fun heq => absurd heq ha

lemma plainTrustLibs_verifiesTrimmed : VerifiesTrimmed plainTrustLibs := by
  intro cert bytes signature
  have hbytes : plainBytes (trim cert) = plainBytes cert :=
    Except.ok.inj (plainCertLibs_skipsOuterSpace cert)
  change (signature == hexEncode (plainBytes (trim cert) ++ _)) = _
  rw [hbytes]
  rfl

/-- One holder turns the switch on, the other one rotates the CA without the row, and the first one
adopts the new CA. -/
def laggingRotation : List (Bool × HostAction) :=
  [(true, .enableRequireBound [] ⟨"p1", "t1"⟩),
    (false, .rotateMeshCa ⟨"new", "new"⟩ (fun m => ⟨m, "t2"⟩) ⟨"p2", "t2"⟩),
    (true, .adopt ⟨"new", "new", some "old", some "old", some 2⟩ 1 false)]

/-- The switch is on again for good when the first holder signs it under the new CA before the
overlap ends. -/
theorem require_bound_signed_again :
    requireBound plainTrustLibs ([(true, .enableRequireBound [] ⟨"p3", "t3"⟩),
      (true, .dropMeshCaPrevious)].foldl (meshHostStep plainTrustLibs)
        (laggingRotation.foldl (meshHostStep plainTrustLibs) plainMesh) true) = true := by
  refine (require_bound_stays_on_iff plainTrustLibs_verifiesTrimmed ?_ _).mpr ?_ _ List.prefix_rfl
  · decide +kernel
  · refine ⟨fun _ => trivial, fun _ => ⟨"new", by decide +kernel, ?_⟩, trivial⟩
    unfold HoldsSwitch
    decide +kernel

/-- A rotation by a holder that lacks the row and the end of the overlap turn the switch off. -/
theorem require_bound_turned_off :
    requireBound plainTrustLibs
      (laggingRotation.foldl (meshHostStep plainTrustLibs) plainMesh true) = true ∧
    requireBound plainTrustLibs ((laggingRotation ++ [(true, HostAction.dropMeshCaPrevious)]).foldl
      (meshHostStep plainTrustLibs) plainMesh true) = false := by
  refine ⟨?_, ?_⟩
  · decide +kernel
  · decide +kernel

end Orca
