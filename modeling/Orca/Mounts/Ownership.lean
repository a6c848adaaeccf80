import Orca.Mounts.NoStacking

/-!
# Releases of mounts that are not owned

The ledger says which mounts are orca's own, by target and source.  A target that is no longer
desired is released only while the source on top is the recorded one.  Of a desired target the
release asks only whether it is in the ledger, and an entry outlives the mount it describes: what
others have mounted there since is released with it.

What is missing is an invariant between the ledger file and the mount table: `TiedAt` says that
whatever is mounted at a target is from the source recorded for it.  `tiedAt_step` proves it of
every event that is `Quiet` at the target, that is, in which others mount nothing there from another
source and the applier does and reports what it was asked for; and a tick that finds its desired
targets tied releases nothing but its own (`releasesOwned_of_tied`).  Where the entries come from is
`fileInvariant_run`: a mount request that was carried out, or an adoption of what the table showed.
-/

namespace Orca.Mounts

/-! ## One tick -/

/-- Every target handed over for release is occupied on top by a mount from the source that the
ledger holds for it at that moment. -/
def ReleasesOwned (w : World) (i : Tick) : Prop :=
  ∀ t ∈ handed w i, ∃ recorded m, (work w i).ledger.lookup (normTarget t) = some recorded ∧
    top w.table (normTarget t) = some m ∧ sameSource m.source recorded = true

/-- At every desired target in the ledger whose release is due the source on top is the recorded
one. -/
def DueOwned (w : World) (i : Tick) : Prop :=
  ∀ p ∈ i.placements, releaseDue w i p = true →
    ∀ recorded, (loadLedger w i).lookup (normTarget p.target) = some recorded →
      ∃ m, top w.table (normTarget p.target) = some m ∧ sameSource m.source recorded = true

variable {w : World} {i : Tick}

/-- A tick releases only what it owns exactly if the desired mounts whose release is due are its
own. -/
theorem releasesOwned_iff : ReleasesOwned w i ↔ DueOwned w i := by
  constructor
  · intro h p hp hdue recorded hrecorded
    have howned : owned w i p.target = true := (owned_iff hp).mpr ⟨recorded, hrecorded⟩
    have hpaired : paired w i p = true := by rw [paired, hdue, howned, Bool.and_self]
    have hhanded : p.target ∈ handed w i := mem_handed_iff.mpr (Or.inl ⟨p, hp, hpaired, rfl⟩)
    obtain ⟨recorded', m, hlookup, hm, hsame⟩ := h p.target hhanded
    have hwork : (work w i).ledger.lookup (normTarget p.target) = some recorded := by
      refine lookup_work ?_
      rw [lookup_removeOrphans_of_desired hp]
      exact hrecorded
    rw [hwork, Option.some.injEq] at hlookup
    subst hlookup
    exact ⟨m, hm, hsame⟩
  · intro h t ht
    rcases mem_handed_iff.mp ht with ⟨p, hp, hpaired, rfl⟩ | hremoved
    · rw [paired, Bool.and_eq_true] at hpaired
      obtain ⟨recorded, hrecorded⟩ := (owned_iff hp).mp hpaired.2
      obtain ⟨m, hm, hsame⟩ := h p hp hpaired.1 recorded hrecorded
      refine ⟨recorded, m, lookup_work ?_, hm, hsame⟩
      rw [lookup_removeOrphans_of_desired hp]
      exact hrecorded
    · -- a removed target is compared with its entry before it is released
      obtain ⟨recorded, m, hrecorded, hnormal, hm, hsame⟩ := recorded_of_mem_removeOrphans hremoved
      rw [hnormal]
      exact ⟨recorded, m, lookup_work hrecorded, hm, hsame⟩

/-! ## Where the entries come from -/

/-- A mount from the source was requested for the target, and the target was reported mounted. -/
def Performed (w : World) (i : Tick) (t source : String) : Prop :=
  (∃ q ∈ requests w i, normTarget q.target = t ∧ q.source = source) ∧
    ∃ reported ∈ mounted w i, normTarget reported = t

/-- The tick found the source mounted at the target, from a network filesystem and as one of the
sources desired there. -/
def Adopted (w : World) (i : Tick) (t source : String) : Prop :=
  ∃ p ∈ i.placements, normTarget p.target = t ∧ activeAt (seen w i) t = some source ∧
    adoptOwns source (fstypeAt (seen w i) t) p.mount.sources = true

/-- An entry of the ledger that was there, or stands for a mount performed or adopted. -/
def Accounted (w : World) (i : Tick) (ledger : Ledger) : Prop :=
  ∀ t source, ledger.lookup t = some source →
    (loadLedger w i).lookup t = some source ∨ Performed w i t source ∨ Adopted w i t source

/-- Adoption adds an adopted entry. -/
lemma accounted_adopt {ledger : Ledger} (h : Accounted w i ledger) {p : Placement}
    (hp : p ∈ i.placements) :
    Accounted w i (adopt (seen w i) p.mount.sources ledger (normTarget p.target)) := by
  intro t source ht
  unfold adopt at ht
  split at ht
  · exact h t source ht
  · split at ht
    · rename_i active hactive
      split at ht
      · rename_i hadopts
        by_cases hne : t = normTarget p.target
        · subst hne
          rw [AList.lookup_insert, Option.some.injEq] at ht
          subst ht
          exact Or.inr (Or.inr ⟨p, hp, rfl, hactive, hadopts⟩)
        · rw [AList.lookup_insert_ne hne] at ht
          exact h t source ht
      · exact h t source ht
    · exact h t source ht

/-- An action adds at most an adopted entry. -/
lemma accounted_execute {s : Work} (h : Accounted w i s.ledger) (a : Action) :
    Accounted w i (execute w i s a).ledger := by
  unfold execute
  split
  · exact h
  · rename_i t
    split
    · rename_i p source hlast _
      obtain ⟨hp, rfl⟩ := lastFor_eq_some hlast
      split
      · exact h
      · split
        · exact accounted_adopt h hp
        · exact h
        · exact h
    · exact h

/-- Entries that leave the ledger need no account. -/
lemma accounted_dropReleased {ledger : Ledger} (h : Accounted w i ledger) (t : String) :
    Accounted w i (dropReleased w i ledger t) := by
  unfold dropReleased
  split
  · intro t' source ht
    by_cases hne : t' = normTarget t
    · subst hne
      rw [AList.lookup_erase] at ht
      cases ht
    · rw [AList.lookup_erase_ne hne] at ht
      exact h t' source ht
  · exact h

/-- Recording a mount that is reported adds a performed entry. -/
lemma accounted_recordMounted {ledger : Ledger} (h : Accounted w i ledger) {t : String}
    (ht : t ∈ mounted w i) : Accounted w i (recordMounted w i ledger t) := by
  unfold recordMounted
  split
  · rename_i recorded hsource
    intro t' source hlookup
    by_cases hne : t' = normTarget t
    · subst hne
      rw [AList.lookup_insert, Option.some.injEq] at hlookup
      subst hlookup
      obtain ⟨q, hq, rfl⟩ := Option.map_eq_some_iff.mp hsource
      have hmem := List.mem_filter.mp (List.mem_of_getLast? hq)
      exact Or.inr (Or.inl ⟨⟨q, hmem.1, of_decide_eq_true hmem.2, rfl⟩, t, ht, rfl⟩)
    · rw [AList.lookup_insert_ne hne] at hlookup
      exact h t' source hlookup
  · exact h

/-- What the ledger holds after a tick it held before, or it was performed or adopted. -/
lemma accounted_ledgerAfter : Accounted w i (ledgerAfter w i) := by
  have hremoved : Accounted w i (removeOrphans w i).1 := by
    intro t source ht
    rw [lookup_removeOrphans] at ht
    split at ht
    · cases ht
    · exact Or.inl ht
  have hwork : Accounted w i (work w i).ledger :=
    Invariant.foldl_invariant (I := fun s : Work => Accounted w i s.ledger)
      (fun a _ _ hs => accounted_execute hs a) hremoved
  refine Invariant.foldl_invariant (I := Accounted w i) (fun p hp _ h => accounted_adopt h hp) ?_
  refine Invariant.foldl_invariant (I := Accounted w i)
    (fun t ht _ h => accounted_recordMounted h ht) ?_
  exact Invariant.foldl_invariant (I := Accounted w i) (fun t _ _ h => accounted_dropReleased h t)
    hwork

/-! ## Runs -/

/-- The entry comes from an earlier tick of the run, which performed or adopted the mount. -/
def Provenance (table : List Mount) (before : List Event) (t source : String) : Prop :=
  ∃ earlier i, earlier ++ [.tick i] <+: before ∧
    (Performed (run (initial table) earlier) i t source ∨
      Adopted (run (initial table) earlier) i t source)

/-- The keys of the ledger file are in normal form, and its entries have a provenance. -/
structure FileInvariant (table : List Mount) (before : List Event) : Prop where
  normal : ∀ t ∈ (run (initial table) before).file, normTarget t = t
  /-- Every entry comes from an earlier tick. -/
  provenance : ∀ t source, (run (initial table) before).file.lookup t = some source →
    Provenance table before t source

/-- What a ledger file holds under normal keys is what is loaded from it. -/
lemma lookup_file_of_loadLedger (hnormal : ∀ t ∈ w.file, normTarget t = t) {t source : String}
    (h : (loadLedger w i).lookup t = some source) : w.file.lookup t = some source := by
  unfold loadLedger at h
  split at h
  · refine Invariant.foldl_invariant
      (I := fun ledger : Ledger => ledger.lookup t = some source → w.file.lookup t = some source)
      (fun e he ledger hledger hlookup => ?_) (fun hnone => ?_) h
    · have hmem : e.1 ∈ w.file := List.mem_keys_of_mem he
      rw [hnormal e.1 hmem] at hlookup
      by_cases hne : t = e.1
      · subst hne
        rw [AList.lookup_insert, Option.some.injEq] at hlookup
        subst hlookup
        exact AList.mem_lookup_iff.mpr he
      · rw [AList.lookup_insert_ne hne] at hlookup
        exact hledger hlookup
    · rw [AList.lookup_empty] at hnone
      cases hnone
  · rw [AList.lookup_empty] at h
    cases h

lemma Provenance.append {table : List Mount} {before : List Event} {t source : String}
    (h : Provenance table before t source) (e : Event) :
    Provenance table (before ++ [e]) t source := by
  obtain ⟨earlier, i, hinitial, hfrom⟩ := h
  exact ⟨earlier, i, hinitial.trans (List.prefix_append before [e]), hfrom⟩

lemma normTarget_of_accounted {t source : String}
    (h : (loadLedger w i).lookup t = some source ∨ Performed w i t source ∨ Adopted w i t source) :
    normTarget t = t := by
  rcases h with h | ⟨⟨q, _, rfl, _⟩, _⟩ | ⟨p, _, rfl, _⟩
  · exact normTarget_of_mem_loadLedger (AList.lookup_isSome.mp (by rw [h]; rfl))
  · exact normTarget_normTarget _
  · exact normTarget_normTarget _

/-- A ledger that cannot be saved leaves the file as it is. -/
lemma file_tick (w : World) (i : Tick) :
    (tick w i).file = if i.ledgerSaved then ledgerAfter w i else w.file := rfl

/-- The keys of the ledger file stay in normal form. -/
lemma normal_step (hnormal : ∀ t ∈ w.file, normTarget t = t) (e : Event) :
    ∀ t ∈ (step w e).file, normTarget t = t := by
  cases e with
  | tick i =>
    change ∀ t ∈ (tick w i).file, normTarget t = t
    rw [file_tick]
    split
    · intro t ht
      obtain ⟨source, hsource⟩ := Option.isSome_iff_exists.mp (AList.lookup_isSome.mpr ht)
      exact normTarget_of_accounted (accounted_ledgerAfter t source hsource)
    · exact hnormal
  | outside table => exact hnormal
  | restart => exact hnormal

/-- Every entry of the ledger file of a run comes from an earlier tick of it. -/
theorem fileInvariant_run (table : List Mount) (events : List Event) :
    FileInvariant table events := by
  induction events using List.reverseRecOn with
  | nil =>
    refine ⟨fun t ht => absurd ht (AList.notMem_empty t), fun t source h => ?_⟩
    have hempty : (run (initial table) []).file = ∅ := rfl
    rw [hempty, AList.lookup_empty] at h
    cases h
  | append_singleton before e ih =>
    have hrun : run (initial table) (before ++ [e]) = step (run (initial table) before) e := by
      rw [run, List.foldl_append]
      rfl
    refine ⟨?_, fun t source ht => ?_⟩
    · rw [hrun]
      exact normal_step ih.normal e
    · rw [hrun] at ht
      cases e with
      | outside others => exact (ih.provenance t source ht).append _
      | restart => exact (ih.provenance t source ht).append _
      | tick i =>
        change (tick (run (initial table) before) i).file.lookup t = some source at ht
        rw [file_tick] at ht
        split at ht
        · rcases accounted_ledgerAfter t source ht with hloaded | hnew
          · have hbefore := lookup_file_of_loadLedger ih.normal hloaded
            exact (ih.provenance t source hbefore).append _
          · exact ⟨before, i, List.prefix_rfl, hnew⟩
        · exact (ih.provenance t source ht).append _

/-- The entry of a target that is released was in the ledger when the tick loaded it. -/
lemma loaded_of_handed {t recorded : String} (ht : t ∈ handed w i)
    (h : (work w i).ledger.lookup (normTarget t) = some recorded) :
    (loadLedger w i).lookup (normTarget t) = some recorded := by
  have hbefore : ∃ source, (removeOrphans w i).1.lookup (normTarget t) = some source := by
    rcases mem_handed_iff.mp ht with ⟨p, hp, hpaired, rfl⟩ | hremoved
    · rw [paired, Bool.and_eq_true] at hpaired
      rw [lookup_removeOrphans_of_desired hp]
      exact (owned_iff hp).mp hpaired.2
    · obtain ⟨source, m, hsource, hnormal, -⟩ := recorded_of_mem_removeOrphans hremoved
      rw [hnormal]
      exact ⟨source, hsource⟩
  obtain ⟨source, hsource⟩ := hbefore
  rw [lookup_work hsource, Option.some.injEq] at h
  subst h
  rw [lookup_removeOrphans] at hsource
  split at hsource
  · cases hsource
  · exact hsource

/-! ## Ledger and mount table -/

/-- Whatever is mounted at the target is from the source that the ledger file holds for it. -/
def TiedAt (w : World) (t : String) : Prop :=
  ∀ source ∈ w.file.lookup t, ∀ m ∈ w.table, m.mountpoint = t → sameSource m.source source = true

/-- What is mounted, if `mount` is run and goes through. -/
def MountOutcome.through (o : MountOutcome) : Option Shown := if o.runs then o.mounts else none

/-- A mount at the target is reported exactly if it goes through, and then it is from the source
that was asked for, and lies on no other one. -/
def Faithful (t : String) (table : List Mount) (q : MountReq × MountOutcome) : Prop :=
  normTarget q.1.target = t → q.2.reported = q.2.through.isSome ∧
    ∀ s ∈ q.2.through, sameSource s.source q.1.source = true ∧
      ∀ m ∈ tableAtMount table q.1 q.2, m.mountpoint = t → sameSource m.source q.1.source = true

instance (t : String) (table : List Mount) (q : MountReq × MountOutcome) :
    Decidable (Faithful t table q) :=
  inferInstanceAs (Decidable (_ → _ ∧ ∀ s ∈ q.2.through, _ ∧ ∀ m ∈ _, _ → _))

/-- A tick does at the target what it reports and records. -/
structure Regular (w : World) (i : Tick) (t : String) : Prop where
  /-- The placements of the target are spelled alike. -/
  spelled : ∀ p ∈ i.placements, ∀ p' ∈ i.placements, normTarget p.target = t →
    normTarget p'.target = t → p.target = p'.target
  /-- What can be adopted lies on no other source. -/
  adoptable : t ∉ w.file → ∀ p ∈ i.placements, normTarget p.target = t →
    ∀ m ∈ top w.table t, adoptOwns m.source m.fstype p.mount.sources = true →
      ∀ m' ∈ w.table, m'.mountpoint = t → sameSource m'.source m.source = true
  /-- The mounts of the tick are what they are reported to be. -/
  faithful : Invariant.Along serve (Faithful t) (tableReleased w i) (attempts w i)
  /-- If the ledger is not saved, what goes through is from the source that is on file. -/
  saved : i.ledgerSaved = false → ∀ source ∈ w.file.lookup t, ∀ q ∈ attempts w i,
    normTarget q.1.target = t → q.2.through.isSome = true → sameSource q.1.source source = true

/-- Others put at the target no mount from another source than the one that is on file. -/
def LeavesAlone (w : World) (table : List Mount) (t : String) : Prop :=
  ∀ source ∈ w.file.lookup t, ∀ m ∈ table, m.mountpoint = t →
    m ∈ w.table ∨ sameSource m.source source = true

/-- An event does not come between the ledger and what is mounted at the target. -/
def QuietAt (t : String) (w : World) : Event → Prop
  | .tick i => Regular w i t
  | .outside table => LeavesAlone w table t
  | .restart => True

/-- A placement whose target is on file, and that is taken for mounted without a look at its own
mountpoint, has a mount there. -/
def Occupied (w : World) (i : Tick) : Prop :=
  ∀ p ∈ i.placements, normTarget p.target ∈ w.file →
    p.tableRead = .lost ∨ trimSlashes p.target.toList = [] → classify false p.health ≠ .missing →
      ∃ m ∈ w.table, m.mountpoint = normTarget p.target

/-- A tick of the rest of the run desires the target. -/
def DesiredIn (after : List Event) (t : String) : Prop :=
  ∃ i, Event.tick i ∈ after ∧ ∃ p ∈ i.placements, normTarget p.target = t

/-- Every tick finds a mount where it is told that there is one, and every event is quiet at the
targets that are desired after it. -/
def Undisturbed : World → List Event → Prop
  | _, [] => True
  | w, e :: after =>
    OnTick Occupied w e ∧ (∀ t, DesiredIn after t → QuietAt t w e) ∧ Undisturbed (step w e) after

/-! ## One tick keeps them tied -/

/-- A mount request adds what goes through, and nothing else. -/
lemma mem_runMount_iff {table : List Mount} {q : MountReq} {o : MountOutcome} {m : Mount} :
    m ∈ runMount table q o ↔ m ∈ tableAtMount table q o ∨
      ∃ s ∈ o.through, m = ⟨normTarget q.target, s.source, s.fstype, s.options,
        normTarget_normTarget _⟩ := by
  unfold runMount MountOutcome.through
  cases o.runs with
  | false => simp
  | true =>
    cases o.mounts with
    | none => simp
    | some s => simp

/-- Every mount of the table at the target is from the source. -/
def AllFrom (source t : String) (table : List Mount) : Prop :=
  ∀ m ∈ table, m.mountpoint = t → sameSource m.source source = true

variable {t : String}

/-- A faithful mount request keeps the mounts at a target from one source, and one that goes through
leaves no others. -/
lemma allFrom_serve {source : String} {table : List Mount} {q : MountReq × MountOutcome}
    (hfaithful : Faithful t table q) (hq : normTarget q.1.target = t → q.1.source = source)
    (h : AllFrom source t table ∨ normTarget q.1.target = t ∧ q.2.through.isSome = true) :
    AllFrom source t (serve table q) := by
  intro m hm hpoint
  rcases mem_runMount_iff.mp hm with hbefore | ⟨s, hs, rfl⟩
  · rcases h with hall | ⟨htarget, hthrough⟩
    · exact hall m (tableAtMount_subset hbefore) hpoint
    · obtain ⟨s, hs⟩ := Option.isSome_iff_exists.mp hthrough
      rw [← hq htarget]
      exact ((hfaithful htarget).2 s hs).2 m hbefore hpoint
  · rw [← hq hpoint]
    exact ((hfaithful hpoint).2 s hs).1

/-- So do faithful mount requests, one after another. -/
lemma allFrom_foldl_serve {source : String} {table : List Mount}
    {qs : List (MountReq × MountOutcome)} (hfaithful : Invariant.Along serve (Faithful t) table qs)
    (hqs : ∀ q ∈ qs, normTarget q.1.target = t → q.1.source = source)
    (h : AllFrom source t table ∨
      ∃ q ∈ qs, normTarget q.1.target = t ∧ q.2.through.isSome = true) :
    AllFrom source t (qs.foldl serve table) := by
  induction qs generalizing table with
  | nil =>
    rcases h with hall | ⟨q, hq, -⟩
    · exact hall
    · cases hq
  | cons q qs ih =>
    rw [List.foldl_cons]
    refine ih hfaithful.2 (fun q' hq' => hqs q' (List.mem_cons_of_mem q hq')) ?_
    have hhead := hqs q List.mem_cons_self
    rcases h with hall | ⟨q', hq', hthrough⟩
    · exact Or.inl (allFrom_serve hfaithful.1 hhead (Or.inl hall))
    · rcases List.mem_cons.mp hq' with rfl | htail
      · exact Or.inl (allFrom_serve hfaithful.1 hhead (Or.inr hthrough))
      · exact Or.inr ⟨q', htail, hthrough⟩

/-- Where nothing goes through, nothing is added. -/
lemma mem_table_of_mem_tableAfter
    (hnone : ∀ q ∈ attempts w i, normTarget q.1.target = t → q.2.through = none) {m : Mount}
    (hm : m ∈ tableAfter w i) (hpoint : m.mountpoint = t) : m ∈ w.table := by
  refine Invariant.foldl_invariant
    (I := fun table : List Mount => m ∈ table → m ∈ w.table)
    (fun q hq table hkept hmem => ?_) (fun hmem => tableReleased_subset hmem) hm
  rcases mem_runMount_iff.mp hmem with hbefore | ⟨s, hs, rfl⟩
  · exact hkept (tableAtMount_subset hbefore)
  · rw [hnone q hq hpoint] at hs
    cases hs

lemma Regular.reported_eq (h : Regular w i t) {q : MountReq × MountOutcome}
    (hq : q ∈ attempts w i) (ht : normTarget q.1.target = t) :
    q.2.reported = q.2.through.isSome :=
  Invariant.forall_mem_of_along
    (Invariant.along_mono (fun _ _ hfaithful ht => (hfaithful ht).1) h.faithful) q hq ht

/-- Requests for a target that is spelled in one way name one source. -/
lemma source_eq_of_spelled (h : Regular w i t) {q q' : MountReq} (hq : q ∈ requests w i)
    (hq' : q' ∈ requests w i) (ht : normTarget q.target = t) (ht' : normTarget q'.target = t) :
    q.source = q'.source := by
  obtain ⟨p, hp, -, -, hrequest⟩ := mem_requests_iff.mp hq
  obtain ⟨p', hp', -, -, hrequest'⟩ := mem_requests_iff.mp hq'
  obtain ⟨-, -, helected, -, htarget⟩ := requestFor_eq_some hrequest
  obtain ⟨-, -, helected', -, htarget'⟩ := requestFor_eq_some hrequest'
  rw [htarget] at ht
  rw [htarget'] at ht'
  rw [h.spelled p hp p' hp' ht ht', helected', Option.some.injEq] at helected
  exact helected.symm

lemma mem_requests_of_mem_attempts {q : MountReq × MountOutcome} (h : q ∈ attempts w i) :
    q.1 ∈ requests w i := by
  rw [← map_fst_attempts]
  exact List.mem_map_of_mem h

lemma mem_mounted_iff {target : String} :
    target ∈ mounted w i ↔ ∃ q ∈ attempts w i, q.2.reported = true ∧ q.1.target = target := by
  unfold mounted attempts
  simp only [List.mem_map, List.mem_filter, exists_exists_and_eq_and, and_assoc]

/-- What is reported as mounted is recorded with the source of its requests. -/
lemma lookup_ledgerAfter_of_reported (h : Regular w i t) {q : MountReq × MountOutcome}
    (hq : q ∈ attempts w i) (ht : normTarget q.1.target = t) (hreported : q.2.reported = true) :
    (ledgerAfter w i).lookup t = some q.1.source := by
  have hsource : mountedSource w i t = some q.1.source := by
    have hmem : q.1 ∈ (requests w i).filter fun q' => normTarget q'.target = t :=
      List.mem_filter.mpr ⟨mem_requests_of_mem_attempts hq, decide_eq_true ht⟩
    have hlast := List.getLast?_eq_some_getLast (List.ne_nil_of_mem hmem)
    rw [mountedSource, hlast, Option.map_some, Option.some.injEq]
    obtain ⟨hrequest, htarget⟩ :=
      List.mem_filter.mp (List.getLast_mem (List.ne_nil_of_mem hmem))
    exact source_eq_of_spelled h hrequest (mem_requests_of_mem_attempts hq)
      (of_decide_eq_true htarget) ht
  have hrecord : ∀ (ledger : Ledger) target, normTarget target = t →
      (recordMounted w i ledger target).lookup t = some q.1.source := by
    intro ledger target htarget
    rw [recordMounted, htarget, hsource]
    exact AList.lookup_insert _
  -- the recorded entry is overwritten with itself at most, and adoption does not touch it
  refine Invariant.foldl_invariant (I := fun ledger : Ledger => ledger.lookup t = some q.1.source)
    (fun _ _ _ hkept => lookup_adopt hkept) ?_
  refine Invariant.foldl_establishes (Q := fun ledger : Ledger => ledger.lookup t = some q.1.source)
    (mem_mounted_iff.mpr ⟨q, hq, hreported, rfl⟩) (fun ledger => hrecord ledger _ ht)
    (fun target _ ledger hkept => ?_) _
  by_cases htarget : normTarget target = t
  · exact hrecord ledger target htarget
  · unfold recordMounted
    split
    · rw [AList.lookup_insert_ne (Ne.symm htarget)]
      exact hkept
    · exact hkept

/-- The source of an adopted entry is on top of the table. -/
lemma top_of_adopted {source : String} (h : Adopted w i t source) :
    ∃ p ∈ i.placements, normTarget p.target = t ∧ ∃ m, top w.table t = some m ∧
      m.source = source ∧ adoptOwns m.source m.fstype p.mount.sources = true := by
  obtain ⟨p, hp, ht, hactive, howns⟩ := h
  obtain ⟨m, hm, rfl⟩ := top_of_activeAt_seen hactive
  refine ⟨p, hp, ht, m, hm, rfl, ?_⟩
  have hread : seen w i = w.table := by
    unfold seen at hactive ⊢
    split at hactive
    · rename_i hreadable
      exact if_pos hreadable
    · cases hactive
  rwa [hread, fstypeAt, hm] at howns

lemma mem_of_top {table : List Mount} {m : Mount} (h : top table t = some m) :
    m ∈ table ∧ m.mountpoint = t := by
  obtain ⟨hm, hpoint⟩ := List.mem_filter.mp (List.mem_of_getLast? h)
  exact ⟨hm, of_decide_eq_true hpoint⟩

/-- Whatever is mounted at an adopted target is from the adopted source. -/
lemma sameSource_of_adopted (htied : TiedAt w t) (h : Regular w i t) {source : String}
    (hadopted : Adopted w i t source) {m : Mount} (hm : m ∈ w.table) (hpoint : m.mountpoint = t) :
    sameSource m.source source = true := by
  obtain ⟨p, hp, ht, top', htop, rfl, howns⟩ := top_of_adopted hadopted
  by_cases hfile : t ∈ w.file
  · obtain ⟨recorded, hrecorded⟩ := Option.isSome_iff_exists.mp (AList.lookup_isSome.mpr hfile)
    have hbelow := htied recorded hrecorded m hm hpoint
    have habove := htied recorded hrecorded top' (mem_of_top htop).1 (mem_of_top htop).2
    rw [sameSource_comm] at habove
    exact sameSource_trans hbelow habove
  · exact h.adoptable hfile p hp ht top' htop howns m hm hpoint

/-- A regular tick keeps a target tied at which nothing goes through. -/
lemma tiedAt_tick_of_none (hnormal : ∀ t ∈ w.file, normTarget t = t) (htied : TiedAt w t)
    (h : Regular w i t)
    (hnone : ∀ q ∈ attempts w i, normTarget q.1.target = t → q.2.through = none) :
    TiedAt (tick w i) t := by
  intro source hsource m hm hpoint
  have hbefore : m ∈ w.table := mem_table_of_mem_tableAfter hnone hm hpoint
  rw [file_tick] at hsource
  split at hsource
  · rcases accounted_ledgerAfter t source hsource with hloaded | ⟨-, target, htarget, ht⟩ | hadopted
    · exact htied source (lookup_file_of_loadLedger hnormal hloaded) m hbefore hpoint
    · -- nothing is reported that does not go through
      obtain ⟨q, hq, hreported, rfl⟩ := mem_mounted_iff.mp htarget
      rw [h.reported_eq hq ht, hnone q hq ht] at hreported
      cases hreported
    · exact sameSource_of_adopted htied h hadopted hbefore hpoint
  · exact htied source hsource m hbefore hpoint

/-- A regular tick keeps a target tied at which a mount goes through. -/
lemma tiedAt_tick_of_through (h : Regular w i t) {q : MountReq × MountOutcome}
    (hq : q ∈ attempts w i) (ht : normTarget q.1.target = t)
    (hthrough : q.2.through.isSome = true) : TiedAt (tick w i) t := by
  intro source hsource m hm hpoint
  have hm : sameSource m.source q.1.source = true := by
    refine allFrom_foldl_serve h.faithful (fun q' hq' ht' => ?_) (Or.inr ⟨q, hq, ht, hthrough⟩)
      m hm hpoint
    exact source_eq_of_spelled h (mem_requests_of_mem_attempts hq')
      (mem_requests_of_mem_attempts hq) ht' ht
  rw [file_tick] at hsource
  split at hsource
  · have hreported : q.2.reported = true := by rw [h.reported_eq hq ht, hthrough]
    rw [lookup_ledgerAfter_of_reported h hq ht hreported, Option.mem_some_iff] at hsource
    rwa [← hsource]
  · rename_i hsaved
    have hkept := h.saved (Bool.eq_false_of_not_eq_true hsaved) source hsource q hq ht hthrough
    exact sameSource_trans hm hkept

lemma tiedAt_tick (hnormal : ∀ t ∈ w.file, normTarget t = t) (htied : TiedAt w t)
    (h : Regular w i t) : TiedAt (tick w i) t := by
  by_cases hthrough : ∃ q ∈ attempts w i, normTarget q.1.target = t ∧ q.2.through.isSome = true
  · obtain ⟨q, hq, ht, hthrough⟩ := hthrough
    exact tiedAt_tick_of_through h hq ht hthrough
  · refine tiedAt_tick_of_none hnormal htied h fun q hq ht => ?_
    by_contra hsome
    exact hthrough ⟨q, hq, ht, Option.isSome_iff_ne_none.mpr hsome⟩

/-- A quiet event keeps a target tied. -/
lemma tiedAt_step {e : Event} (hnormal : ∀ t ∈ w.file, normTarget t = t) (htied : TiedAt w t)
    (h : QuietAt t w e) : TiedAt (step w e) t := by
  cases e with
  | tick i => exact tiedAt_tick hnormal htied h
  | outside table =>
    intro source hsource m hm hpoint
    rcases h source hsource m hm hpoint with hbefore | hsame
    · exact htied source hsource m hbefore hpoint
    · exact hsame
  | restart => exact htied

/-- The normal form of a target that is not only slashes is what is left of it without the slashes
at its end. -/
lemma normTarget_eq_of_trimSlashes {t t' : String}
    (heq : trimSlashes t.toList = trimSlashes t'.toList) (hne : trimSlashes t'.toList ≠ []) :
    normTarget t = normTarget t' := by
  unfold normTarget
  rw [heq]
  simp [hne]

/-- A placement whose target is on file and that is taken for mounted has a mount there. -/
lemma exists_mount_of_presence (h : Occupied w i) {p : Placement} (hp : p ∈ i.placements)
    (hfile : normTarget p.target ∈ w.file) (hpresence : presence w p ≠ .missing) :
    ∃ m ∈ w.table, m.mountpoint = normTarget p.target := by
  have hlooked : targetHasNoMount w p = false := by
    by_contra hnot
    rw [presence, Bool.eq_true_of_not_eq_false hnot] at hpresence
    exact hpresence rfl
  rw [presence, hlooked] at hpresence
  by_cases hblind : p.tableRead = .lost ∨ trimSlashes p.target.toList = []
  · exact h p hp hfile hblind hpresence
  · obtain ⟨hread, hroot⟩ := not_or.mp hblind
    unfold targetHasNoMount at hlooked
    cases hcase : p.tableRead with
    | lost => exact absurd hcase hread
    | failed =>
      rw [hcase] at hlooked
      cases hlooked
    | read =>
      rw [hcase, Bool.not_eq_false', List.any_eq_true] at hlooked
      obtain ⟨m, hm, htrim⟩ := hlooked
      have hnorm := normTarget_eq_of_trimSlashes (of_decide_eq_true htrim) hroot
      exact ⟨m, hm, by rw [← hnorm, m.normal]⟩

/-- A tick that finds its desired targets tied and occupied releases only what it owns. -/
lemma releasesOwned_of_tied (hnormal : ∀ t ∈ w.file, normTarget t = t) (hoccupied : Occupied w i)
    (htied : ∀ p ∈ i.placements, TiedAt w (normTarget p.target)) : ReleasesOwned w i := by
  rw [releasesOwned_iff]
  intro p hp hdue recorded hrecorded
  have hfile := lookup_file_of_loadLedger hnormal hrecorded
  have howned : normTarget p.target ∈ w.file := AList.lookup_isSome.mp (by rw [hfile]; rfl)
  rw [releaseDue, Bool.and_eq_true] at hdue
  obtain ⟨p', hp', htarget⟩ := List.mem_map.mp (List.contains_iff_mem.mp hdue.1)
  obtain ⟨hplacement, hpresence⟩ := List.mem_filter.mp hp'
  obtain ⟨m, hm, hpoint⟩ : ∃ m ∈ w.table, m.mountpoint = normTarget p.target := by
    rw [← htarget] at howned ⊢
    exact exists_mount_of_presence hoccupied hplacement howned (of_decide_eq_true hpresence)
  obtain ⟨m', hm'⟩ := Option.ne_none_iff_exists'.mp fun hnone =>
    top_eq_none_iff.mp hnone m hm hpoint
  obtain ⟨hmem, hpoint'⟩ := mem_of_top hm'
  exact ⟨m', hm', htied p hp recorded hfile m' hmem hpoint'⟩

/-- Along an undisturbed run from a host whose desired targets are tied, nothing else is
released. -/
lemma along_releasesOwned {events : List Event} (hnormal : ∀ t ∈ w.file, normTarget t = t)
    (htied : ∀ t, DesiredIn events t → TiedAt w t) (h : Undisturbed w events) :
    Invariant.Along step (OnTick ReleasesOwned) w events := by
  induction events generalizing w with
  | nil => trivial
  | cons e after ih =>
    obtain ⟨hoccupied, hquiet, hafter⟩ := h
    refine ⟨?_, ih (normal_step hnormal e) (fun t ht => ?_) hafter⟩
    · cases e with
      | tick i =>
        refine releasesOwned_of_tied hnormal hoccupied fun p hp => ?_
        exact htied _ ⟨i, List.mem_cons_self, p, hp, rfl⟩
      | outside table => trivial
      | restart => trivial
    · obtain ⟨i, hi, hp⟩ := ht
      exact tiedAt_step hnormal (htied t ⟨i, List.mem_cons_of_mem e hi, hp⟩)
        (hquiet t ⟨i, hi, hp⟩)

/-- **Convergence releases only mounts of its own** in every run that is undisturbed at the targets
it still desires.  What the ledger holds for a target that is released was performed or adopted
earlier in any run. -/
theorem releases_owned (table : List Mount) (events : List Event) :
    (Undisturbed (initial table) events →
        Invariant.Along step (OnTick ReleasesOwned) (initial table) events) ∧
      ∀ before i, before ++ [.tick i] <+: events → ∀ t ∈ handed (run (initial table) before) i,
        ∀ recorded, (work (run (initial table) before) i).ledger.lookup (normTarget t) =
            some recorded →
          Provenance table before (normTarget t) recorded := by
  refine ⟨along_releasesOwned (fun t ht => absurd ht (AList.notMem_empty t)) ?_, ?_⟩
  · intro t _ source hsource
    cases hsource
  · intro before i _ t ht recorded hrecorded
    have hfile := fileInvariant_run table before
    exact hfile.provenance _ _
      (lookup_file_of_loadLedger hfile.normal (loaded_of_handed ht hrecorded))

/-! ## A share that goes stale -/

/-- The share as others mount it again, and a disk of theirs elsewhere. -/
def sharedTable : List Mount :=
  [⟨"/mnt/data", "NAS:/data/", "nfs4", ["hard"], normTarget_data⟩,
    ⟨"/srv", "/dev/sdb1", "ext4", ["rw"], by decide +kernel⟩]

/-- Convergence mounts the share, others mount it again, the daemon restarts, and the share goes
stale. -/
def staleEvents : List Event :=
  [.tick (smoothTick (nasPlacement "/mnt/data" .missing)), .outside sharedTable, .restart,
    .tick (smoothTick (nasPlacement "/mnt/data" .stale)),
    .tick (smoothTick (nasPlacement "/mnt/data" .stale))]

/-- A tick of the share in which its mounts are faithful is regular, if nothing but the share is
mounted at its target. -/
lemma regular_smoothTick {health : MountHealth} (htable : AllFrom "nas:/data" "/mnt/data" w.table)
    (hfaithful : Invariant.Along serve (Faithful "/mnt/data")
      (tableReleased w (smoothTick (nasPlacement "/mnt/data" health)))
      (attempts w (smoothTick (nasPlacement "/mnt/data" health)))) :
    Regular w (smoothTick (nasPlacement "/mnt/data" health)) "/mnt/data" where
  spelled := by
    intro p hp p' hp' _ _
    rw [List.mem_singleton.mp hp, List.mem_singleton.mp hp']
  adoptable := by
    intro _ p _ _ m hm _ m' hm' hpoint
    obtain ⟨hmem, hpoint'⟩ := mem_of_top hm
    have hown := htable m hmem hpoint'
    rw [sameSource_comm] at hown
    exact sameSource_trans (htable m' hm' hpoint) hown
  faithful := hfaithful
  saved := by
    intro hsaved
    cases hsaved

/-- The only target that is desired is the one of the share. -/
lemma eq_of_desiredIn {events : List Event} (hsub : events ⊆ staleEvents)
    (h : DesiredIn events t) : t = "/mnt/data" := by
  obtain ⟨i, hi, p, hp, rfl⟩ := h
  have hplacement : p.target = "/mnt/data" := by
    have hmem := hsub hi
    simp only [staleEvents, List.mem_cons, Event.tick.injEq, reduceCtorEq, List.not_mem_nil,
      or_false, false_or] at hmem
    rcases hmem with rfl | rfl | rfl <;> rw [List.mem_singleton.mp hp] <;> rfl
  rw [hplacement]
  exact normTarget_data

/-- The theorem at this run, in which the last tick releases the share. -/
theorem releases_owned_of_stale :
    Invariant.Along step (OnTick ReleasesOwned) (initial []) staleEvents ∧
      handed (run (initial []) (staleEvents.take 4))
        (smoothTick (nasPlacement "/mnt/data" .stale)) = ["/mnt/data"] := by
  have hoccupied : ∀ w health, Occupied w (smoothTick (nasPlacement "/mnt/data" health)) := by
    intro w health p hp _ hblind
    rw [List.mem_singleton.mp hp] at hblind
    rcases hblind with hlost | hroot
    · cases hlost
    · have hne : trimSlashes "/mnt/data".toList ≠ [] := by decide +kernel
      exact absurd hroot hne
  refine ⟨(releases_owned [] staleEvents).1 ⟨hoccupied _ _, fun t ht => ?_, trivial,
    fun t ht => ?_, trivial, fun t ht => trivial, hoccupied _ _, fun t ht => ?_, hoccupied _ _,
    fun t ht => ?_, trivial⟩, by decide +kernel⟩
  · rw [eq_of_desiredIn (List.tail_subset _) ht]
    exact regular_smoothTick (fun m hm => absurd hm List.not_mem_nil) (by decide +kernel)
  · rw [eq_of_desiredIn (List.drop_subset 2 _) ht]
    have htable : AllFrom "nas:/data" "/mnt/data" sharedTable := by
      unfold AllFrom
      decide +kernel
    intro source hsource m hm hpoint
    have hfile : (run (initial []) (staleEvents.take 1)).file.lookup "/mnt/data" =
        some "nas:/data" := by decide +kernel
    have heq : some "nas:/data" = some source := hfile.symm.trans hsource
    rw [Option.some.injEq] at heq
    subst heq
    exact Or.inr (htable m hm hpoint)
  · rw [eq_of_desiredIn (List.drop_subset 4 _) ht]
    refine regular_smoothTick ?_ (by decide +kernel)
    unfold AllFrom
    decide +kernel
  · rw [eq_of_desiredIn (List.drop_subset 5 _) ht]
    refine regular_smoothTick ?_ (by decide +kernel)
    unfold AllFrom
    decide +kernel

/-! ## A foreign mount at a desired target -/

/-- Convergence mounts the share; others unmount it and mount a disk in its place, which is found
healthy in the ticks that follow. -/
def foreignEvents : List Event :=
  [.tick (smoothTick (nasPlacement "/mnt/data" .missing)), .outside [foreignDisk],
    .tick (smoothTick (nasPlacement "/mnt/data" .ok)),
    .tick (smoothTick (nasPlacement "/mnt/data" .ok))]

/-- The run up to its last tick. -/
def foreignWorld : World := run (initial []) (foreignEvents.take 3)

/-- The disk is unmounted in the second tick that finds it. -/
theorem foreign_released :
    ¬(∀ (table : List Mount) (events : List Event),
        Invariant.Along step (OnTick ReleasesOwned) (initial table) events) ∧
      handed foreignWorld (smoothTick (nasPlacement "/mnt/data" .ok)) = ["/mnt/data"] ∧
        foreignWorld.table = [foreignDisk] := by
  have hhanded : handed foreignWorld (smoothTick (nasPlacement "/mnt/data" .ok)) =
      ["/mnt/data"] := by
    decide +kernel
  have htable : foreignWorld.table = [foreignDisk] := by decide +kernel
  refine ⟨fun hall => ?_, hhanded, htable⟩
  have hlast : ReleasesOwned foreignWorld (smoothTick (nasPlacement "/mnt/data" .ok)) :=
    (hall [] foreignEvents).2.2.2.1
  obtain ⟨recorded, m, hrecorded, hm, hsame⟩ := hlast "/mnt/data" (by simp [hhanded])
  have hsource : (work foreignWorld (smoothTick (nasPlacement "/mnt/data" .ok))).ledger.lookup
      (normTarget "/mnt/data") = some "nas:/data" := by decide +kernel
  have htop : top foreignWorld.table (normTarget "/mnt/data") = some foreignDisk := by
    decide +kernel
  rw [hsource, Option.some.injEq] at hrecorded
  rw [htop, Option.some.injEq] at hm
  subst hrecorded hm
  revert hsame
  decide +kernel

end Orca.Mounts
