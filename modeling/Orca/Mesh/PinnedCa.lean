import Mathlib.Data.List.Nodup
import Orca.Library.Invariant
import Orca.Mesh.Pki

/-!
# The pinned authority

The calls that replace the mesh CA a host pins: `rotate_mesh_ca`, `install_joined_mesh_ca` and the
request `mesh/push-ca-state`, run one after the other, with `drop_mesh_ca_previous` in between.

A host keeps the fingerprints of the last authorities it retired, so that it does not go back to one
of them.  `CaChange` is what a call does to the current slot, the previous slot and this history,
as long as a join does not replace an authority by another one and a push does not bring the
current authority in another spelling (`Forward`).  The result for such runs is
`pinned_ca_never_goes_back`.
-/

namespace Orca

open Check Invariant

/-! ## Calls -/

/-- A call that changes the authorities of a host. -/
inductive CaCall where
  /-- A rotation, with the authority it generates. -/
  | rotateMeshCa (new : PemPair)
  /-- A join that brings the authority of a mesh. -/
  | installJoinedMeshCa (certPem : String)
  /-- An admitted push, at a time, on a member that may have been demoted meanwhile. -/
  | pushCaState (params : CaStatePayload) (now : Int) (demoted : Bool)
  | dropMeshCaPrevious

/-- `drop_ca_keys_if_demoted`, with `remove_mesh_ca_keys`. -/
def dropCaKeysIfDemoted (demoted : Bool) (d : PkiDir) : PkiDir :=
  if demoted then (d.remove .caKey).remove .previousKey else d

/-- The directory after the writes of a call that was not refused. -/
def afterWrites (d : PkiDir) : Except String (List PkiWrite) → PkiDir
  | .ok ws => d.writeAll ws
  | .error _ => d

section Calls

variable (libs : CertLibs)

/-- The directory after a call. -/
def performCa (d : PkiDir) : CaCall → PkiDir
  | .rotateMeshCa new => afterWrites d (rotateMeshCa libs new d)
  | .installJoinedMeshCa certPem => afterWrites d (installJoinedMeshCa libs certPem d)
  | .pushCaState params now demoted =>
      match handlePushCaState libs params now d with
      | .ok ws => dropCaKeysIfDemoted demoted (d.writeAll ws)
      | .error _ => d
  | .dropMeshCaPrevious => dropMeshCaPrevious d

/-- The fingerprint of the certificate in a file, if there is one that can be read. -/
def slotFingerprint (d : PkiDir) (f : PkiFile) : Option String :=
  (d f).bind fun pem => (certFingerprint libs pem).toOption

/-- A generated authority is none that the host pins or has retired. -/
def FreshCa (d : PkiDir) : CaCall → Prop
  | .rotateMeshCa new =>
      ∃ fp, certFingerprint libs new.certPem = .ok fp ∧ slotFingerprint libs d .caCert ≠ some fp ∧
        fp ∉ retiredMeshCaFingerprints d
  | _ => True

/-- A join does not replace an authority by another one, and a push does not bring the current
authority again. -/
def Forward (d : PkiDir) : CaCall → Prop
  | .installJoinedMeshCa certPem =>
      slotFingerprint libs d .caCert = none ∨
        slotFingerprint libs d .caCert = (certFingerprint libs certPem).toOption
  | .pushCaState params _ _ =>
      slotFingerprint libs d .caCert ≠ (certFingerprint libs params.currentCertPem).toOption
  | _ => True

/-- `rustls_pemfile` skips what is around the armor. -/
def SkipsOuterSpace : Prop := ∀ s, libs.firstCert (trim s) = libs.firstCert s

end Calls

/-! ## The history -/

section History

variable {fp : String} {fps : List String}

/-- A fingerprint that is newest already stays so. -/
lemma retire_of_getLast (hnodup : fps.Nodup) (hlen : fps.length ≤ maxRetiredMeshCas)
    (hlast : fps.getLast? = some fp) : retire fp fps = fps := by
  obtain ⟨init, rfl⟩ : ∃ init, fps = init ++ [fp] := by
    obtain ⟨init, h⟩ := List.getLast?_eq_some_iff.mp hlast
    exact ⟨init, h⟩
  have hnot : fp ∉ init := fun hmem =>
    (List.disjoint_of_nodup_append hnodup) hmem List.mem_cons_self
  have hfilter : init.filter (fun f => f != fp) = init :=
    List.filter_eq_self.mpr fun f hf => by
      simp only [bne_iff_ne, ne_eq]
      exact fun h => hnot (h ▸ hf)
  have hsub : (init ++ [fp]).length - maxRetiredMeshCas = 0 := Nat.sub_eq_zero_of_le hlen
  have hself : (init ++ [fp]).filter (fun f => f != fp) ++ [fp] = init ++ [fp] := by
    simp [List.filter_append, hfilter]
  rw [retire, hself, hsub, List.drop_zero]

/-- A fingerprint that was not in the history becomes the newest, and the oldest one is forgotten
when there is no room. -/
lemma retire_of_not_mem (h : fp ∉ fps) :
    retire fp fps = (fps ++ [fp]).drop ((fps ++ [fp]).length - maxRetiredMeshCas) := by
  have hfilter : fps.filter (fun f => f != fp) = fps :=
    List.filter_eq_self.mpr fun f hf => by
      simp only [bne_iff_ne, ne_eq]
      exact fun heq => h (heq ▸ hf)
  simp only [retire, hfilter]

lemma length_retire_le : (retire fp fps).length ≤ maxRetiredMeshCas := by
  simp only [retire, List.length_drop]
  omega

lemma mem_of_mem_retire {f : String} (h : f ∈ retire fp fps) : f ∈ fps ∨ f = fp := by
  have hmem := List.mem_of_mem_drop h
  rcases List.mem_append.mp hmem with hmem | hmem
  · exact Or.inl (List.mem_of_mem_filter hmem)
  · exact Or.inr (List.mem_singleton.mp hmem)

lemma nodup_retire (h : fps.Nodup) : (retire fp fps).Nodup := by
  have hall : (fps.filter (fun f => f != fp) ++ [fp]).Nodup := by
    rw [List.nodup_append]
    refine ⟨h.filter _, List.nodup_singleton fp, ?_⟩
    intro f hf g hg
    rw [List.mem_singleton.mp hg]
    simpa using (List.mem_filter.mp hf).2
  exact hall.sublist (List.drop_sublist _ _)

lemma getLast?_retire (fp : String) (fps : List String) : (retire fp fps).getLast? = some fp := by
  have hlt : (fps.filter (fun f => f != fp) ++ [fp]).length - maxRetiredMeshCas <
      (fps.filter (fun f => f != fp) ++ [fp]).length := by
    simp only [List.length_append, List.length_singleton, maxRetiredMeshCas]
    omega
  rw [retire, List.getLast?_drop, if_neg (Nat.not_le.mpr hlt), List.getLast?_concat]

end History

/-! ## Reading the history back -/

/-- A fingerprint as it is written: not empty and without white space. -/
def FingerprintText (fp : String) : Prop := fp ≠ "" ∧ ∀ c ∈ fp.toList, isWhitespace c = false

section Reading

variable {libs : CertLibs} {d : PkiDir}

lemma fingerprintText_of_eq_ok {pem fp : String} (h : certFingerprint libs pem = .ok fp) :
    FingerprintText fp := by
  unfold certFingerprint at h
  obtain ⟨der, -, h⟩ := chain_ok_iff.mp h
  cases h
  refine ⟨colonHex_ne_empty ?_, isWhitespace_colonHex _⟩
  rw [ne_eq, ← List.length_eq_zero_iff, Vector.length_toList]
  decide

lemma retired_congr {d' : PkiDir} (h : d' .retired = d .retired) :
    retiredMeshCaFingerprints d' = retiredMeshCaFingerprints d := by
  unfold retiredMeshCaFingerprints
  rw [h]

/-- A history that was written reads back as it was. -/
lemma retired_of_unlines {fps : List String} (hne : fps ≠ [])
    (hclean : ∀ fp ∈ fps, FingerprintText fp) (h : d .retired = some (unlines fps)) :
    retiredMeshCaFingerprints d = fps := by
  have htrim : fps.map trim = fps := by
    have hid : fps.map trim = fps.map id :=
      List.map_congr_left fun fp hfp => trim_eq_self (hclean fp hfp).2
    rw [hid, List.map_id]
  have hfilter : fps.filter (fun l => l != "") = fps :=
    List.filter_eq_self.mpr fun fp hfp => by simpa using (hclean fp hfp).1
  unfold retiredMeshCaFingerprints
  rw [h]
  simp only [lines_unlines_of_isWhitespace hne fun fp hfp => (hclean fp hfp).2, htrim, hfilter]

/-- **Recording.**  After a record the history is the one with its fingerprint retired. -/
lemma retired_record {pem fp : String} {w : PkiWrite}
    (hclean : ∀ fp ∈ retiredMeshCaFingerprints d, FingerprintText fp)
    (hfp : certFingerprint libs pem = .ok fp) (h : recordRetiredMeshCa libs pem d = .ok w) :
    retiredMeshCaFingerprints (d.write w) = retire fp (retiredMeshCaFingerprints d) := by
  unfold recordRetiredMeshCa at h
  rw [hfp] at h
  cases h
  refine retired_of_unlines ?_ ?_ (if_pos rfl)
  · intro hnil
    have hlast := getLast?_retire fp (retiredMeshCaFingerprints d)
    rw [hnil] at hlast
    cases hlast
  · intro f hf
    rcases mem_of_mem_retire hf with hf | rfl
    · exact hclean f hf
    · exact fingerprintText_of_eq_ok hfp

lemma exists_fingerprint_of_record {pem : String} {w : PkiWrite}
    (h : recordRetiredMeshCa libs pem d = .ok w) : ∃ fp, certFingerprint libs pem = .ok fp := by
  unfold recordRetiredMeshCa at h
  obtain ⟨fp, hfp, -⟩ := chain_ok_iff.mp h
  exact ⟨fp, hfp⟩

lemma certFingerprint_trim (hpem : SkipsOuterSpace libs) (s : String) :
    certFingerprint libs (trim s) = certFingerprint libs s := by
  unfold certFingerprint
  rw [hpem s]

lemma slotFingerprint_of_eq {f : PkiFile} {pem : String} (h : d f = some pem) :
    slotFingerprint libs d f = (certFingerprint libs pem).toOption := by
  rw [slotFingerprint, h]
  rfl

end Reading

/-! ## What a call changes -/

/-- The invariant of a host that only went forward. -/
structure Pinned (libs : CertLibs) (d : PkiDir) : Prop where
  /-- The history is made of fingerprints. -/
  text : ∀ fp ∈ retiredMeshCaFingerprints d, FingerprintText fp
  /-- No fingerprint is in it twice. -/
  nodup : (retiredMeshCaFingerprints d).Nodup
  length_le : (retiredMeshCaFingerprints d).length ≤ maxRetiredMeshCas
  /-- The current authority is not in it. -/
  current : ∀ fp, slotFingerprint libs d .caCert = some fp → fp ∉ retiredMeshCaFingerprints d
  /-- The previous authority is the last one that was retired. -/
  previous : ∀ pem, d .previousCert = some pem → ∃ fp, certFingerprint libs pem = .ok fp ∧
    (retiredMeshCaFingerprints d).getLast? = some fp

/-- What a call does to the authorities of a host. -/
inductive CaChange (libs : CertLibs) (d d' : PkiDir) : Prop where
  | kept (hcurrent : slotFingerprint libs d' .caCert = slotFingerprint libs d .caCert)
      (hretired : retiredMeshCaFingerprints d' = retiredMeshCaFingerprints d)
      (hprevious : d' .previousCert = d .previousCert ∨ d' .previousCert = none)
  /-- The host had none and gets one. -/
  | joined (hnone : slotFingerprint libs d .caCert = none)
      (hretired : retiredMeshCaFingerprints d' = retiredMeshCaFingerprints d)
      (hprevious : d' .previousCert = d .previousCert)
      (hcurrent : ∀ fp, slotFingerprint libs d' .caCert = some fp →
        fp ∉ retiredMeshCaFingerprints d)
  /-- The current authority is retired and another one takes its place. -/
  | replaced (old new : String) (hold : slotFingerprint libs d .caCert = some old)
      (hretired : retiredMeshCaFingerprints d' = retire old (retiredMeshCaFingerprints d))
      (hprevious : ∃ pem, d' .previousCert = some pem ∧ certFingerprint libs pem = .ok old)
      (hcurrent : slotFingerprint libs d' .caCert = some new) (hne : new ≠ old)
      (hnew : new ∉ retiredMeshCaFingerprints d)

section Changes

variable {libs : CertLibs} {d : PkiDir}

/-- A change keeps the invariant. -/
lemma pinned_of_change {d' : PkiDir} (h : Pinned libs d) (hchange : CaChange libs d d') :
    Pinned libs d' := by
  cases hchange with
  | kept hcurrent hretired hprevious =>
    refine ⟨hretired ▸ h.text, hretired ▸ h.nodup, hretired ▸ h.length_le, ?_, ?_⟩
    · rw [hretired, hcurrent]
      exact h.current
    · intro pem hpem
      rw [hretired]
      rcases hprevious with hprevious | hprevious
      · exact h.previous pem (hprevious ▸ hpem)
      · rw [hprevious] at hpem
        cases hpem
  | joined hnone hretired hprevious hcurrent =>
    refine ⟨hretired ▸ h.text, hretired ▸ h.nodup, hretired ▸ h.length_le, ?_, ?_⟩
    · rw [hretired]
      exact hcurrent
    · rw [hretired, hprevious]
      exact h.previous
  | replaced old new hold hretired hprevious hcurrent hne hnew =>
    have holdText : FingerprintText old := by
      obtain ⟨pem, -, hfp⟩ := hprevious
      exact fingerprintText_of_eq_ok hfp
    refine ⟨?_, ?_, ?_, ?_, ?_⟩
    · intro fp hfp
      rw [hretired] at hfp
      rcases mem_of_mem_retire hfp with hfp | rfl
      · exact h.text fp hfp
      · exact holdText
    · rw [hretired]
      exact nodup_retire h.nodup
    · rw [hretired]
      exact length_retire_le
    · intro fp hfp hmem
      rw [hcurrent] at hfp
      cases hfp
      rw [hretired] at hmem
      rcases mem_of_mem_retire hmem with hmem | hmem
      · exact hnew hmem
      · exact hne hmem
    · intro pem hpem
      obtain ⟨pem', hpem', hfp⟩ := hprevious
      rw [hpem'] at hpem
      cases hpem
      exact ⟨old, hfp, hretired ▸ getLast?_retire _ _⟩

lemma slotFingerprint_congr {d' : PkiDir} {f : PkiFile} (h : d' f = d f) :
    slotFingerprint libs d' f = slotFingerprint libs d f := by
  unfold slotFingerprint
  rw [h]

/-- A rotation retires the current authority. -/
lemma change_rotateMeshCa (hd : Pinned libs d) {new : PemPair}
    (hfresh : FreshCa libs d (.rotateMeshCa new)) :
    CaChange libs d (performCa libs d (.rotateMeshCa new)) := by
  change CaChange libs d (afterWrites d (rotateMeshCa libs new d))
  cases hws : rotateMeshCa libs new d with
  | error e => exact .kept rfl rfl (Or.inl rfl)
  | ok ws =>
    obtain ⟨fp, hfp, hne, hnot⟩ := hfresh
    obtain ⟨curCertPem, curKeyPem, record, hcert, -, hrecord, rfl⟩ := rotateMeshCa_eq_ok hws
    obtain ⟨old, hold⟩ := exists_fingerprint_of_record hrecord
    have hslot : slotFingerprint libs d .caCert = some old := by
      rw [slotFingerprint_of_eq hcert, hold]
      rfl
    refine .replaced old fp hslot ?_ ⟨curCertPem, rfl, hold⟩ ?_ ?_ hnot
    · rw [← retired_record hd.text hold hrecord]
      exact retired_congr rfl
    · rw [slotFingerprint_of_eq (show _ = some new.certPem from rfl), hfp]
      rfl
    · rintro rfl
      exact hne hslot

/-- A join installs an authority where there is none, or the one that is there. -/
lemma change_installJoinedMeshCa {certPem : String}
    (hforward : Forward libs d (.installJoinedMeshCa certPem)) :
    CaChange libs d (performCa libs d (.installJoinedMeshCa certPem)) := by
  change CaChange libs d (afterWrites d (installJoinedMeshCa libs certPem d))
  cases hws : installJoinedMeshCa libs certPem d with
  | error e => exact .kept rfl rfl (Or.inl rfl)
  | ok ws =>
    obtain ⟨hcheck, hwrites⟩ := then_ok_iff.mp hws
    cases hwrites
    have hslot : slotFingerprint libs (afterWrites d (.ok [⟨.caCert, certPem⟩])) .caCert =
        (certFingerprint libs certPem).toOption := slotFingerprint_of_eq rfl
    have hretired : retiredMeshCaFingerprints (afterWrites d (.ok [⟨.caCert, certPem⟩])) =
        retiredMeshCaFingerprints d := retired_congr rfl
    rcases hforward with hnone | hsame
    · refine .joined hnone hretired rfl fun fp hfp => ?_
      obtain ⟨fp', hfp', hensure⟩ := chain_ok_iff.mp hcheck
      rw [hslot, context_eq_ok.mp hfp'] at hfp
      cases hfp
      simpa using hensure
    · exact .kept (hslot.trans hsame.symm) hretired (Or.inl rfl)

/-- What a push was checked for. -/
lemma checkCaRotation_eq_ok {params : CaStatePayload} {localCurrent : String}
    {localPrevious : Option String} {retired : List String} {now : Int}
    (h : checkCaRotation libs params localCurrent localPrevious retired now = .ok ()) :
    ∃ prevCert prevKey newFp, params.previousCertPem = some prevCert ∧
      params.previousKeyPem = some prevKey ∧ trim prevCert = trim localCurrent ∧
      trim params.currentCertPem ≠ trim localCurrent ∧
      (∀ p, localPrevious = some p → trim p ≠ trim params.currentCertPem) ∧
      certFingerprint libs (trim params.currentCertPem) = .ok newFp ∧ newFp ∉ retired := by
  unfold checkCaRotation at h
  obtain ⟨prevCert, hprevCert, h⟩ := chain_ok_iff.mp h
  obtain ⟨prevKey, hprevKey, h⟩ := chain_ok_iff.mp h
  obtain ⟨hchains, h⟩ := then_ok_iff.mp h
  obtain ⟨-, h⟩ := then_ok_iff.mp h
  obtain ⟨hcurrent, h⟩ := then_ok_iff.mp h
  obtain ⟨hprevious, h⟩ := then_ok_iff.mp h
  obtain ⟨newFp, hnewFp, h⟩ := chain_ok_iff.mp h
  obtain ⟨hretired, -⟩ := then_ok_iff.mp h
  refine ⟨prevCert, prevKey, newFp, required_eq_ok.mp hprevCert, required_eq_ok.mp hprevKey, ?_, ?_,
    ?_, context_eq_ok.mp hnewFp, ?_⟩
  · simpa using hchains
  · simpa using hcurrent
  · rintro p rfl
    simpa using hprevious
  · simpa using hretired

/-- The writes of an import whose slots are both in use. -/
lemma importMeshCaState_eq_ok {current key : String} {prevCert prevKey : Option String}
    {ws : List PkiWrite} (h : importMeshCaState libs current key prevCert prevKey d = .ok ws) :
    ∃ first second, retireSlot libs current d .previousCert = .ok first ∧
      retireSlot libs current (d.writeAll first) .caCert = .ok second ∧
      ws = first ++ second ++ [⟨.caCert, current⟩, ⟨.caKey, key⟩] ++
        previousSlotWrites prevCert prevKey := by
  unfold importMeshCaState at h
  obtain ⟨-, h⟩ := then_ok_iff.mp h
  obtain ⟨-, h⟩ := then_ok_iff.mp h
  obtain ⟨first, hfirst, h⟩ := chain_ok_iff.mp h
  obtain ⟨second, hsecond, h⟩ := chain_ok_iff.mp h
  cases h
  exact ⟨first, second, hfirst, hsecond, rfl⟩

/-- Retiring a slot writes the history only. -/
lemma file_retireSlot {current : String} {slot : PkiFile} {ws : List PkiWrite}
    (h : retireSlot libs current d slot = .ok ws) : ∀ w ∈ ws, w.file = .retired := by
  unfold retireSlot at h
  split at h
  · cases h
    simp
  · split at h
    · cases h
      simp
    · obtain ⟨record, hrecord, h⟩ := chain_ok_iff.mp h
      cases h
      intro w hw
      rw [List.mem_singleton.mp hw]
      exact file_recordRetiredMeshCa hrecord

/-- The history after a slot with another authority was retired. -/
lemma retired_retireSlot {current pem : String} {slot : PkiFile} {ws : List PkiWrite}
    (hclean : ∀ fp ∈ retiredMeshCaFingerprints d, FingerprintText fp) (hslot : d slot = some pem)
    (hne : trim pem ≠ trim current) (h : retireSlot libs current d slot = .ok ws) :
    ∃ fp, certFingerprint libs pem = .ok fp ∧
      retiredMeshCaFingerprints (d.writeAll ws) = retire fp (retiredMeshCaFingerprints d) := by
  unfold retireSlot at h
  rw [hslot] at h
  simp only [if_neg hne] at h
  obtain ⟨record, hrecord, h⟩ := chain_ok_iff.mp h
  cases h
  obtain ⟨fp, hfp⟩ := exists_fingerprint_of_record hrecord
  exact ⟨fp, hfp, retired_record hclean hfp hrecord⟩

/-- The previous slot is retired already, so that an import does not change the history for it. -/
lemma retired_retireSlot_previous (hd : Pinned libs d) {current : String} {ws : List PkiWrite}
    (hne : ∀ p, d .previousCert = some p → trim p ≠ trim current)
    (h : retireSlot libs current d .previousCert = .ok ws) :
    retiredMeshCaFingerprints (d.writeAll ws) = retiredMeshCaFingerprints d := by
  cases hprev : d .previousCert with
  | none =>
    unfold retireSlot at h
    rw [hprev] at h
    cases h
    rfl
  | some pem =>
    obtain ⟨fp, hfp, hretired⟩ := retired_retireSlot hd.text hprev (hne pem hprev) h
    obtain ⟨fp', hfp', hlast⟩ := hd.previous pem hprev
    rw [hfp] at hfp'
    cases hfp'
    rw [hretired, retire_of_getLast hd.nodup hd.length_le hlast]

lemma dropCaKeysIfDemoted_apply (demoted : Bool) {f : PkiFile} (hkey : f ≠ .caKey)
    (hprev : f ≠ .previousKey) : dropCaKeysIfDemoted demoted d f = d f := by
  unfold dropCaKeysIfDemoted
  split
  · rw [PkiDir.remove, if_neg hprev, PkiDir.remove, if_neg hkey]
  · rfl

lemma performCa_pushCaState {params : CaStatePayload} {now : Int} {ws : List PkiWrite}
    (h : handlePushCaState libs params now d = .ok ws) (demoted : Bool) :
    performCa libs d (.pushCaState params now demoted) =
      dropCaKeysIfDemoted demoted (d.writeAll ws) := by
  simp only [performCa, h]

/-- The slots after a push: the pushed certificate is current, and the previous one is the one that
was current before, up to what is around it. -/
lemma slots_pushCaState {params : CaStatePayload} {now : Int} {ws : List PkiWrite}
    (h : handlePushCaState libs params now d = .ok ws) (demoted : Bool) :
    ∃ localCurrent prevCert, d .caCert = some localCurrent ∧
      params.previousCertPem = some prevCert ∧ trim prevCert = trim localCurrent ∧
      (performCa libs d (.pushCaState params now demoted)) .caCert = some params.currentCertPem ∧
      (performCa libs d (.pushCaState params now demoted)) .previousCert = some prevCert := by
  rw [performCa_pushCaState h]
  obtain ⟨localCurrent, hlocal, h⟩ := chain_ok_iff.mp h
  obtain ⟨hcheck, himport⟩ := then_ok_iff.mp h
  obtain ⟨prevCert, prevKey, newFp, hprevCert, hprevKey, hchains, -, -, -, -⟩ :=
    checkCaRotation_eq_ok hcheck
  obtain ⟨first, second, -, -, rfl⟩ := importMeshCaState_eq_ok himport
  rw [hprevCert, hprevKey, dropCaKeysIfDemoted_apply demoted (by decide) (by decide),
    dropCaKeysIfDemoted_apply demoted (by decide) (by decide), List.append_assoc,
    PkiDir.writeAll_append]
  exact ⟨localCurrent, prevCert, required_eq_ok.mp hlocal, rfl, hchains, rfl, rfl⟩

/-- A push retires the current authority, unless it brings it again. -/
lemma change_pushCaState (hpem : SkipsOuterSpace libs) (hd : Pinned libs d)
    {params : CaStatePayload} {now : Int} {demoted : Bool}
    (hforward : Forward libs d (.pushCaState params now demoted)) :
    CaChange libs d (performCa libs d (.pushCaState params now demoted)) := by
  cases hws : handlePushCaState libs params now d with
  | error e =>
    have hperform : performCa libs d (.pushCaState params now demoted) = d := by
      simp only [performCa, hws]
    rw [hperform]
    exact .kept rfl rfl (Or.inl rfl)
  | ok ws =>
    obtain ⟨localCurrent, hlocal, h⟩ := chain_ok_iff.mp hws
    obtain ⟨hcheck, himport⟩ := then_ok_iff.mp h
    obtain ⟨prevCert, prevKey, newFp, hprevCert, hprevKey, -, hcurrent, hprevious, hnewFp, hnew⟩ :=
      checkCaRotation_eq_ok hcheck
    obtain ⟨first, second, hfirst, hsecond, hws'⟩ := importMeshCaState_eq_ok himport
    obtain ⟨localCurrent', prevCert', hlocal', -, hchains, hcaCert, hpreviousCert⟩ :=
      slots_pushCaState hws demoted
    rw [required_eq_ok] at hlocal
    obtain rfl : localCurrent = localCurrent' := Option.some.inj (hlocal.symm.trans hlocal')
    rw [certFingerprint_trim hpem] at hnewFp
    -- the previous slot is in the history already, the current one is added
    have hretiredFirst := retired_retireSlot_previous hd hprevious hfirst
    have hlocalFirst : d.writeAll first .caCert = some localCurrent := by
      rw [PkiDir.writeAll_of_forall_ne fun w hw => by rw [file_retireSlot hfirst w hw]; decide,
        hlocal]
    obtain ⟨old, hold, hretiredSecond⟩ := retired_retireSlot (by rw [hretiredFirst]; exact hd.text)
      hlocalFirst hcurrent.symm hsecond
    have hslot : slotFingerprint libs d .caCert = some old := by
      rw [slotFingerprint_of_eq hlocal, hold]
      rfl
    refine .replaced old newFp hslot ?_ ⟨prevCert', hpreviousCert, ?_⟩ ?_ ?_ hnew
    · rw [← hretiredFirst, ← hretiredSecond, performCa_pushCaState hws]
      refine retired_congr ?_
      rw [dropCaKeysIfDemoted_apply demoted (by decide) (by decide), hws', hprevCert, hprevKey,
        List.append_assoc, PkiDir.writeAll_append, PkiDir.writeAll_append d first second]
      rfl
    · rw [← certFingerprint_trim hpem, hchains, certFingerprint_trim hpem, hold]
    · rw [slotFingerprint_of_eq hcaCert, hnewFp]
      rfl
    · rintro rfl
      refine hforward ?_
      rw [hslot, hnewFp]
      rfl

/-- **One call.**  A call that goes forward keeps the current authority, gives the host its first
one, or retires the current one and puts one in its place that is not retired. -/
lemma change_performCa (hpem : SkipsOuterSpace libs) (hd : Pinned libs d) {call : CaCall}
    (hfresh : FreshCa libs d call) (hforward : Forward libs d call) :
    CaChange libs d (performCa libs d call) := by
  cases call with
  | rotateMeshCa new => exact change_rotateMeshCa hd hfresh
  | installJoinedMeshCa certPem => exact change_installJoinedMeshCa hforward
  | pushCaState params now demoted => exact change_pushCaState hpem hd hforward
  | dropMeshCaPrevious => exact .kept (slotFingerprint_congr rfl) (retired_congr rfl) (Or.inr rfl)

end Changes

/-! ## Runs -/

section Runs

variable {libs : CertLibs} {d : PkiDir}

/-- A host without a history or a previous authority has only gone forward. -/
lemma pinned_start (hretired : d .retired = none) (hprevious : d .previousCert = none) :
    Pinned libs d := by
  have hnil : retiredMeshCaFingerprints d = [] := by
    unfold retiredMeshCaFingerprints
    rw [hretired]
  refine ⟨?_, ?_, ?_, ?_, ?_⟩
  · simp [hnil]
  · simp [hnil]
  · simp [hnil]
  · simp [hnil]
  · intro pem hpem
    rw [hprevious] at hpem
    cases hpem

lemma pinned_run (hpem : SkipsOuterSpace libs) (hd : Pinned libs d) {calls : List CaCall}
    (hfresh : Along (performCa libs) (FreshCa libs) d calls)
    (hforward : Along (performCa libs) (Forward libs) d calls) :
    Pinned libs (calls.foldl (performCa libs) d) := by
  refine foldl_invariant_along (Q := fun d call => FreshCa libs d call ∧ Forward libs d call) ?_
    (along_and.mpr ⟨hfresh, hforward⟩) hd
  exact fun d call hd hstep => pinned_of_change hd (change_performCa hpem hd hstep.1 hstep.2)

/-- An authority has been retired, and what was retired after it is among `seen`: it is still in
the history, or this many others have taken its place. -/
def Behind (K : String) (seen : String → Prop) (fps : List String) : Prop :=
  (∃ older newer, fps = older ++ K :: newer ∧ ∀ fp ∈ newer, seen fp) ∨
    (K ∉ fps ∧ fps.length = maxRetiredMeshCas ∧ ∀ fp ∈ fps, seen fp)

/-- One more retired authority. -/
lemma behind_retire {K fp : String} {seen : String → Prop} {fps : List String}
    (hlen : fps.length ≤ maxRetiredMeshCas) (hnot : fp ∉ fps) (hseen : seen fp)
    (h : Behind K seen fps) : Behind K seen (retire fp fps) := by
  rw [retire_of_not_mem hnot]
  by_cases hfull : fps.length = maxRetiredMeshCas
  · -- the oldest one is forgotten
    have hdrop : (fps ++ [fp]).drop ((fps ++ [fp]).length - maxRetiredMeshCas) =
        fps.tail ++ [fp] := by
      have hone : (fps ++ [fp]).length - maxRetiredMeshCas = 1 := by
        rw [List.length_append, hfull, List.length_singleton, Nat.add_sub_cancel_left]
      have hne : fps ≠ [] := by
        rintro rfl
        cases hfull
      rw [hone, List.drop_one, List.tail_append_of_ne_nil hne]
    rw [hdrop]
    rcases h with ⟨older, newer, rfl, hnewer⟩ | ⟨hK, -, hall⟩
    · have hsub : ∀ f ∈ newer ++ [fp], seen f := by
        intro f hf
        rcases List.mem_append.mp hf with hf | hf
        · exact hnewer f hf
        · exact List.mem_singleton.mp hf ▸ hseen
      cases older with
      | nil =>
        by_cases hmem : K ∈ newer ++ [fp]
        · obtain ⟨older, newer', hsplit⟩ := List.append_of_mem hmem
          refine Or.inl ⟨older, newer', hsplit, fun f hf => hsub f ?_⟩
          rw [hsplit]
          exact List.mem_append_right _ (List.mem_cons_of_mem K hf)
        · refine Or.inr ⟨hmem, ?_, hsub⟩
          rw [List.nil_append, List.length_cons] at hfull
          rw [List.length_append, List.length_singleton]
          exact hfull
      | cons f older =>
        refine Or.inl ⟨older, newer ++ [fp], ?_, hsub⟩
        rw [List.cons_append, List.tail_cons, List.append_assoc, List.cons_append]
    · by_cases hagain : fp = K
      · subst hagain
        exact Or.inl ⟨fps.tail, [], rfl, by simp⟩
      · refine Or.inr ⟨?_, ?_, ?_⟩
        · intro hmem
          rcases List.mem_append.mp hmem with hmem | hmem
          · exact hK (List.mem_of_mem_tail hmem)
          · exact hagain (List.mem_singleton.mp hmem).symm
        · rw [List.length_append, List.length_tail, List.length_singleton, hfull]
          rfl
        · intro f hf
          rcases List.mem_append.mp hf with hf | hf
          · exact hall f (List.mem_of_mem_tail hf)
          · exact List.mem_singleton.mp hf ▸ hseen
  · have hroom : (fps ++ [fp]).length - maxRetiredMeshCas = 0 := by
      rw [List.length_append, List.length_singleton]
      omega
    rw [hroom, List.drop_zero]
    rcases h with ⟨older, newer, rfl, hnewer⟩ | ⟨-, hlength, -⟩
    · refine Or.inl ⟨older, newer ++ [fp], by simp, ?_⟩
      intro f hf
      rcases List.mem_append.mp hf with hf | hf
      · exact hnewer f hf
      · exact List.mem_singleton.mp hf ▸ hseen
    · exact absurd hlength hfull

/-- One call, while what was current in between is among `seen`. -/
lemma behind_of_change {d' : PkiDir} {K : String} {seen : String → Prop} (hd : Pinned libs d)
    (hseen : ∀ fp, slotFingerprint libs d .caCert = some fp → seen fp)
    (hchange : CaChange libs d d') (h : Behind K seen (retiredMeshCaFingerprints d)) :
    Behind K seen (retiredMeshCaFingerprints d') := by
  cases hchange with
  | kept _ hretired _ => rwa [hretired]
  | joined _ hretired _ _ => rwa [hretired]
  | replaced old new hold hretired _ _ _ _ =>
    rw [hretired]
    exact behind_retire hd.length_le (hd.current old hold) (hseen old hold) h

/-- A run of calls, while what was current in between is among `seen`. -/
lemma behind_run (hpem : SkipsOuterSpace libs) (hd : Pinned libs d) {K : String}
    {seen : String → Prop} {calls : List CaCall}
    (hfresh : Along (performCa libs) (FreshCa libs) d calls)
    (hforward : Along (performCa libs) (Forward libs) d calls)
    (hseen : ∀ before, before <+: calls → ∀ fp,
      slotFingerprint libs (before.foldl (performCa libs) d) .caCert = some fp → seen fp)
    (h : Behind K seen (retiredMeshCaFingerprints d)) :
    Behind K seen (retiredMeshCaFingerprints (calls.foldl (performCa libs) d)) := by
  induction calls generalizing d with
  | nil => exact h
  | cons call calls ih =>
    have hchange := change_performCa hpem hd hfresh.1 hforward.1
    refine ih (pinned_of_change hd hchange) hfresh.2 hforward.2 ?_ ?_
    · exact fun before hbefore => hseen (call :: before) ((List.prefix_cons_inj call).mpr hbefore)
    · exact behind_of_change hd (hseen [] List.nil_prefix) hchange h

/-- An authority that leaves the current slot is the newest of the history. -/
lemma retired_of_left {d' : PkiDir} {K : String} (hchange : CaChange libs d d')
    (hK : slotFingerprint libs d .caCert = some K)
    (hleft : slotFingerprint libs d' .caCert ≠ some K)
    (seen : String → Prop) : Behind K seen (retiredMeshCaFingerprints d') := by
  cases hchange with
  | kept hcurrent _ _ => exact absurd (hcurrent.trans hK) hleft
  | joined hnone _ _ _ =>
    rw [hnone] at hK
    cases hK
  | replaced old new hold hretired _ _ _ _ =>
    rw [hK] at hold
    cases hold
    obtain ⟨older, holder⟩ := List.getLast?_eq_some_iff.mp
      (hretired ▸ getLast?_retire K (retiredMeshCaFingerprints d))
    exact Or.inl ⟨older, [], holder, by simp⟩

end Runs

/-- **The pinned authority does not go backwards.**  On a host that starts without a history, along
every run in which joins do not replace an authority by another one and pushes do not bring the
current authority again, the current authority is never in the retired history, and one that left
the current slot is back in it only after the history has filled with others, each of which was
current after it. -/
theorem pinned_ca_never_goes_back {libs : CertLibs} (hpem : SkipsOuterSpace libs) {d : PkiDir}
    (hretired : d .retired = none) (hprevious : d .previousCert = none) {calls : List CaCall}
    (hfresh : Along (performCa libs) (FreshCa libs) d calls)
    (hforward : Along (performCa libs) (Forward libs) d calls) :
    (∀ before, before <+: calls → ∀ fp,
      slotFingerprint libs (before.foldl (performCa libs) d) .caCert = some fp →
      fp ∉ retiredMeshCaFingerprints (before.foldl (performCa libs) d)) ∧
    ∀ before call between K, before ++ call :: between <+: calls →
      slotFingerprint libs (before.foldl (performCa libs) d) .caCert = some K →
      slotFingerprint libs ((before ++ [call]).foldl (performCa libs) d) .caCert ≠ some K →
      slotFingerprint libs ((before ++ call :: between).foldl (performCa libs) d) .caCert = some K →
      let history := retiredMeshCaFingerprints
        ((before ++ call :: between).foldl (performCa libs) d)
      K ∉ history ∧ history.Nodup ∧ history.length = maxRetiredMeshCas ∧
        ∀ fp ∈ history, ∃ since, since <+: between ∧
          slotFingerprint libs ((before ++ call :: since).foldl (performCa libs) d) .caCert =
            some fp := by
  have hstart : Pinned libs d := pinned_start hretired hprevious
  have hpinned : ∀ before, before <+: calls →
      Pinned libs (before.foldl (performCa libs) d) := fun before hbefore =>
    pinned_run hpem hstart (along_of_initial hfresh hbefore) (along_of_initial hforward hbefore)
  refine ⟨fun before hbefore => (hpinned before hbefore).current, ?_⟩
  intro before call between K hinitial hK hleft hback
  have hrun : ∀ since, (before ++ call :: since).foldl (performCa libs) d =
      since.foldl (performCa libs)
        (performCa libs (before.foldl (performCa libs) d) call) := by
    intro since
    rw [List.foldl_append, List.foldl_cons]
  have hfreshRest := along_of_append (along_of_initial hfresh hinitial)
  have hforwardRest := along_of_append (along_of_initial hforward hinitial)
  have hbefore := hpinned before ((List.prefix_append _ _).trans hinitial)
  have hend := hpinned _ hinitial
  have hchange := change_performCa hpem hbefore hfreshRest.1 hforwardRest.1
  rw [List.foldl_concat] at hleft
  have hseen : ∀ since, since <+: between → ∀ fp, slotFingerprint libs (since.foldl
      (performCa libs) (performCa libs (before.foldl (performCa libs) d) call)) .caCert = some fp →
      ∃ since, since <+: between ∧ slotFingerprint libs
        ((before ++ call :: since).foldl (performCa libs) d) .caCert = some fp := by
    intro since hsince fp hfp
    refine ⟨since, hsince, ?_⟩
    rw [hrun since]
    exact hfp
  have hbehind := behind_run hpem (pinned_of_change hbefore hchange) hfreshRest.2 hforwardRest.2
    hseen (retired_of_left hchange hK hleft _)
  rw [← hrun between] at hbehind
  -- the authority is current again, so it is no longer in the history
  rcases hbehind with ⟨older, newer, hsplit, -⟩ | ⟨hnot, hlength, hall⟩
  · refine absurd ?_ (hend.current K hback)
    rw [hsplit]
    exact List.mem_append_right _ List.mem_cons_self
  · exact ⟨hnot, hend.nodup, hlength, hall⟩

lemma filter_not_dropWhile {α : Type*} (p : α → Bool) (l : List α) :
    (l.dropWhile p).filter (fun a => !p a) = l.filter (fun a => !p a) := by
  induction l with
  | nil => rfl
  | cons a l ih =>
    by_cases ha : p a = true
    · rw [List.dropWhile_cons_of_pos ha, ih, List.filter_cons_of_neg (by simp [ha])]
    · rw [List.dropWhile_cons_of_neg ha]

lemma plainCertLibs_skipsOuterSpace : SkipsOuterSpace plainCertLibs := by
  intro s
  refine congrArg Except.ok ?_
  unfold plainBytes trim
  rw [String.toList_ofList, List.filter_reverse, filter_not_dropWhile, List.filter_reverse,
    List.reverse_reverse, filter_not_dropWhile]

/-- A push of a certificate to the small host, chained from what it has. -/
def plainPush (current previous : String) : CaCall :=
  .pushCaState ⟨current, current, some previous, some previous, some 2⟩ 1 false

/-- A host that rotates its authority and takes a pushed one goes forward. -/
theorem pinned_ca_rotated_and_pushed :
    ∃ fp, slotFingerprint plainCertLibs ([.rotateMeshCa ⟨"new", "new"⟩,
        plainPush "newest" "new"].foldl (performCa plainCertLibs) plainDir) .caCert = some fp ∧
      fp ∉ retiredMeshCaFingerprints ([.rotateMeshCa ⟨"new", "new"⟩,
        plainPush "newest" "new"].foldl (performCa plainCertLibs) plainDir) := by
  have hfresh : Along (performCa plainCertLibs) (FreshCa plainCertLibs) plainDir
      [.rotateMeshCa ⟨"new", "new"⟩, plainPush "newest" "new"] :=
    ⟨⟨_, rfl, by decide +kernel, by decide +kernel⟩, trivial, trivial⟩
  have hforward : Along (performCa plainCertLibs) (Forward plainCertLibs) plainDir
      [.rotateMeshCa ⟨"new", "new"⟩, plainPush "newest" "new"] := by
    refine ⟨trivial, ?_, trivial⟩
    change slotFingerprint plainCertLibs _ .caCert ≠ _
    decide +kernel
  have hall := (pinned_ca_never_goes_back plainCertLibs_skipsOuterSpace rfl rfl hfresh hforward).1
  obtain ⟨fp, hfp⟩ : ∃ fp, slotFingerprint plainCertLibs ([.rotateMeshCa ⟨"new", "new"⟩,
      plainPush "newest" "new"].foldl (performCa plainCertLibs) plainDir) .caCert = some fp :=
    Option.isSome_iff_exists.mp (by decide +kernel)
  exact ⟨fp, hfp, hall _ List.prefix_rfl fp hfp⟩

/-- A push of the current certificate with a space in it is accepted and retires the authority that
it installs; a join replaces an authority without retiring it, so that the next one brings it
back. -/
theorem pinned_ca_goes_back :
    (∃ fp, slotFingerprint plainCertLibs
        (performCa plainCertLibs plainDir (plainPush "o ld" "old")) .caCert = some fp ∧
      fp ∈ retiredMeshCaFingerprints
        (performCa plainCertLibs plainDir (plainPush "o ld" "old"))) ∧
    slotFingerprint plainCertLibs (performCa plainCertLibs plainDir
      (.installJoinedMeshCa "new")) .caCert ≠ slotFingerprint plainCertLibs plainDir .caCert ∧
    slotFingerprint plainCertLibs ([.installJoinedMeshCa "new", .installJoinedMeshCa "old"].foldl
      (performCa plainCertLibs) plainDir) .caCert =
        slotFingerprint plainCertLibs plainDir .caCert ∧
    retiredMeshCaFingerprints ([.installJoinedMeshCa "new", .installJoinedMeshCa "old"].foldl
      (performCa plainCertLibs) plainDir) = [] := by
  refine ⟨?_, by decide +kernel, by decide +kernel, by decide +kernel⟩
  obtain ⟨fp, hfp⟩ : ∃ fp, slotFingerprint plainCertLibs
      (performCa plainCertLibs plainDir (plainPush "o ld" "old")) .caCert = some fp :=
    Option.isSome_iff_exists.mp (by decide +kernel)
  refine ⟨fp, hfp, ?_⟩
  have hmem : ∀ fp ∈ slotFingerprint plainCertLibs
      (performCa plainCertLibs plainDir (plainPush "o ld" "old")) .caCert,
      fp ∈ retiredMeshCaFingerprints
        (performCa plainCertLibs plainDir (plainPush "o ld" "old")) := by
    decide +kernel
  exact hmem fp hfp

end Orca
