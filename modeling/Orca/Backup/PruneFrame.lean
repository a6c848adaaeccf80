import Orca.Backup.PruneReport

/-!
# What a prune leaves alone

A prune removes slots of one kind and instance, each with all that is in its directory.  A directory
with a manifest is a slot whatever else is in it, so that the backups of others which are filed
beneath it go with it; and the preflight deletes what an earlier one left behind.

`prune_frame` says that nothing else is deleted, for any tree: a file stays unless it is in a slot
of the kind and the instance that is gone, or in a probe; and a directory with a manifest stays with
all that is in it unless it is itself in one of those.
-/

namespace Orca.Backup

section Frame

variable {parse : String → Option Manifest} {root : String} {faults : StepFaults}
  {t t' : List StoreFile} {s : StoredSlot} {f : StoreFile}

/-! ## The steps -/

lemma mem_removeDirAll {cause : Option String} {left : StorePath → Bool} {dir : StorePath}
    (hf : f ∈ t) (h : ¬Below dir f.path) : f ∈ removeDirAll cause left dir t := by
  refine List.mem_filter.mpr ⟨hf, ?_⟩
  rw [decide_eq_false h, Bool.not_false, Bool.true_or]

/-- The removal of a slot leaves what is not in it: nothing has the name that it is given. -/
lemma mem_removeSlot (hf : f ∈ t) (h : ¬Below s.dir f.path) :
    f ∈ (removeSlot root faults s t).1 := by
  unfold removeSlot
  split
  · exact hf
  · cases hrename : renameFails faults t s with
    | some cause => exact hf
    | none =>
      have hfree : filesBelow t (stagedDir s) = [] := by
        unfold renameFails at hrename
        split at hrename
        · exact nomatch hrename
        · split at hrename
          · assumption
          · exact nomatch hrename
      have hstaged : ¬Below (stagedDir s) f.path := by
        intro hbelow
        have hmem : f ∈ filesBelow t (stagedDir s) :=
          List.mem_filter.mpr ⟨hf, decide_eq_true hbelow⟩
        rw [hfree] at hmem
        exact List.not_mem_nil hmem
      have hmoved : f ∈ t.map (moveFile s.dir (stagedDir s)) :=
        List.mem_map.mpr ⟨f, hf, if_neg h⟩
      dsimp only
      split
      · exact mem_removeDirAll hmoved hstaged
      · exact mem_removeDirAll hmoved hstaged

/-- One selected slot: what is not in it is left, and not in the probes if it is the first one. -/
lemma mem_pruneOne {report : RemovalReport} (hf : f ∈ t) (h : ¬Below s.dir f.path)
    (hprobes : (report.removed.isEmpty && report.failures.isEmpty) = true →
      ¬Within (probes s) f.path) :
    f ∈ (pruneOne root faults (t, report) s).1 := by
  unfold pruneOne
  dsimp only
  by_cases hfirst : (report.removed.isEmpty && report.failures.isEmpty) = true
  · have hprobed := ((sameOutside_checkPrunable root faults s t).mem_iff (hprobes hfirst)).mpr hf
    rw [if_pos hfirst]
    split
    · exact hprobed
    · exact mem_removeSlot hprobed h
  · rw [if_neg hfirst]
    exact mem_removeSlot hf h

/-- All selected slots: what is in none of them is left, and not in the probes of the first. -/
lemma mem_foldl_pruneOne (ht : IsTree t) {chosen : List StoredSlot}
    (hchosen : ∀ r ∈ chosen, r ∈ located parse none none t) (hnodup : chosen.Nodup) (hf : f ∈ t)
    (hslots : ∀ r ∈ chosen, ¬Below r.dir f.path)
    (hprobes : ∀ r, chosen.head? = some r → ¬Within (probes r) f.path) :
    f ∈ (chosen.foldl (pruneOne root faults) (t, ⟨0, [], []⟩)).1 := by
  induction chosen using List.reverseRecOn with
  | nil => exact hf
  | append_singleton done r ih =>
    have hdone : ∀ q ∈ done, q ∈ located parse none none t :=
      fun q hq => hchosen q (List.mem_append_left _ hq)
    have hbefore := (List.nodup_append.mp hnodup).1
    have hprogress := progress_prune root faults ht done hdone hbefore
    rw [List.foldl_append]
    refine mem_pruneOne (ih hdone hbefore (fun q hq => hslots q (List.mem_append_left _ hq)) ?_)
      (hslots r (List.mem_append_right _ List.mem_cons_self)) ?_
    · intro q hq
      refine hprobes q ?_
      rw [List.head?_append_of_ne_nil done (List.ne_nil_of_mem (List.mem_of_mem_head? hq)), hq]
    · intro hfirst
      rw [hprogress.first_iff.mp hfirst] at hprobes
      exact hprobes r rfl

lemma payload_of_located {kind inst : Option String} (h : s ∈ located parse kind inst t) :
    s.payload = filesBelow t s.dir := by
  obtain ⟨g, -, hlocate⟩ := mem_located_iff.mp h
  obtain ⟨-, -, m, -, -, -, -, hslot⟩ := locate_eq_some_iff.mp hlocate
  exact congrArg Slot.payload hslot

lemma filesBelow_of_staysListed (h : StaysListed parse t t' s)
    (hs : s ∈ located parse none none t) : filesBelow t' s.dir = filesBelow t s.dir :=
  (payload_of_located (h none none hs)).symm.trans (payload_of_located hs)

/-! ## The directories that may go -/

/-- The directory of a slot of the kind and the instance that is gone. -/
def GoneSlot (parse : String → Option Manifest) (kind inst : String) (t t' : List StoreFile)
    (d : StorePath) : Prop :=
  ∃ s ∈ located parse (some kind) (some inst) t, filesBelow t' s.dir = [] ∧ d = s.dir

/-- A directory that the preflight of the prune makes and deletes. -/
def PruneProbe (parse : String → Option Manifest) (C : Calendar) (retention : Retention)
    (kind inst : String) (t : List StoreFile) (d : StorePath) : Prop :=
  ∃ s, (selectedSlots parse C retention kind inst t).head? = some s ∧ d ∈ probes s

/-- Each directory with a manifest that has its name and another identity is left with all that is
in it, unless it may go or is in a directory that may. -/
def KeepsOthers (parse : String → Option Manifest) (kind inst : String) (t t' : List StoreFile)
    (mayGo : StorePath → Prop) : Prop :=
  ∀ d, ∀ f ∈ t, ∀ m, f.path = d ++ [manifestName] → parse f.content = some m →
    d.getLast? = some m.id → ¬(m.kind = kind ∧ m.inst = inst) → (∀ e, mayGo e → ¬e <+: d) →
      ∀ g ∈ filesBelow t d, g ∈ t'

/-- Each file is left that is not in a directory that may go. -/
def KeepsRest (t t' : List StoreFile) (mayGo : StorePath → Prop) : Prop :=
  ∀ f ∈ t, (∀ e, mayGo e → ¬Below e f.path) → f ∈ t'

variable {C : Calendar} {retention : Retention} {kind inst : String}

lemma not_above_located {k i : Option String} (hs : s ∈ located parse k i t) {d : StorePath}
    (hd : d ≠ []) (hmanifest : HasManifest t d) (hbegins : d <+: s.dir) : d = s.dir := by
  by_contra hne
  exact (hasManifest_of_located hs).2.2 d ((List.mem_inits _ _).mpr hbegins) hd hne hmanifest

/-- Nothing that a directory with a manifest holds may go, unless the directory may. -/
lemma not_below_mayGo {d : StorePath} (hd : d ≠ []) (hmanifest : HasManifest t d)
    (hkept : ∀ e, GoneSlot parse kind inst t t' e ∨ PruneProbe parse C retention kind inst t e →
      ¬e <+: d) {p : StorePath} (hp : Below d p) :
    ∀ e, GoneSlot parse kind inst t t' e ∨ PruneProbe parse C retention kind inst t e →
      ¬Below e p := by
  intro e he hbelow
  have hnot := hkept e he
  have hbegins : d <+: e :=
    (List.prefix_or_prefix_of_prefix hbelow.1 hp.1).resolve_left hnot
  rcases he with ⟨s, hs, -, rfl⟩ | ⟨s, hs, he⟩
  · exact hnot ((not_above_located hs hd hmanifest hbegins) ▸ List.prefix_refl _)
  · -- the directory is above the probe, hence above the slot
    obtain ⟨name, -, rfl⟩ := reserved_of_mem_probes he
    rcases List.prefix_concat_iff.mp hbegins with heq | hbegins
    · exact hnot (heq ▸ List.prefix_refl _)
    · have hlocated := mem_located_of_selected (List.mem_of_mem_head? hs)
      have heq := not_above_located hlocated hd hmanifest
        (hbegins.trans (List.prefix_append s.collection [s.id]))
      exact not_dir_prefix_collection s (heq ▸ hbegins)

/-- A prune deletes nothing but what is in the slots of its kind and instance that are gone, and in
its probes. -/
lemma keepsRest_pruneStore (root : String) (faults : StepFaults) (ht : IsTree t) :
    KeepsRest t (pruneStore parse root C faults retention kind inst t).1 fun d =>
      GoneSlot parse kind inst t (pruneStore parse root C faults retention kind inst t).1 d ∨
        PruneProbe parse C retention kind inst t d := by
  intro f hf hkept
  have hchosen : ∀ r ∈ selectedSlots parse C retention kind inst t,
      r ∈ located parse none none t := fun r hr => mem_located_all (mem_located_of_selected hr)
  have hnodup : (selectedSlots parse C retention kind inst t).Nodup := nodup_selectedSlots ht
  have hprogress := progress_prune root faults ht _ hchosen hnodup
  by_cases hslots : ∀ r ∈ selectedSlots parse C retention kind inst t, ¬Below r.dir f.path
  · refine mem_foldl_pruneOne ht hchosen hnodup hf hslots fun r hr => ?_
    rintro ⟨d, hd, hbelow⟩
    exact hkept d (Or.inr ⟨r, hr, hd⟩) hbelow
  · -- a selected slot that holds the file is as it was
    push Not at hslots
    obtain ⟨r, hr, hbelow⟩ := hslots
    have hgone : filesBelow (pruneStore parse root C faults retention kind inst t).1 r.dir ≠ [] :=
      fun hnil => hkept r.dir (Or.inl ⟨r, mem_located_of_selected hr, hnil, rfl⟩) hbelow
    have hended := hprogress.ended r hr
    cases hended with
    | gone _ _ _ hfiles => exact absurd hfiles hgone
    | kept _ _ hlisted =>
      have hmem : f ∈ filesBelow t r.dir := List.mem_filter.mpr ⟨hf, decide_eq_true hbelow⟩
      rw [← filesBelow_of_staysListed hlisted (hchosen r hr)] at hmem
      exact (List.mem_filter.mp hmem).1
    | lost _ _ _ _ hfiles => exact absurd hfiles hgone

/-- Every directory with a manifest of another identity is left with all that it holds, and every
other file is left, unless it is in a slot of the kind and the instance that is gone or in a probe
of the prune. -/
theorem prune_frame (parse : String → Option Manifest) (root : String) (C : Calendar)
    (faults : StepFaults) (retention : Retention) (kind inst : String) (t : List StoreFile)
    (ht : IsTree t) :
    KeepsOthers parse kind inst t (pruneStore parse root C faults retention kind inst t).1
        (fun d =>
          GoneSlot parse kind inst t (pruneStore parse root C faults retention kind inst t).1 d ∨
            PruneProbe parse C retention kind inst t d) ∧
      KeepsRest t (pruneStore parse root C faults retention kind inst t).1 fun d =>
        GoneSlot parse kind inst t (pruneStore parse root C faults retention kind inst t).1 d ∨
          PruneProbe parse C retention kind inst t d := by
  have hrest : KeepsRest t (pruneStore parse root C faults retention kind inst t).1 fun d =>
      GoneSlot parse kind inst t (pruneStore parse root C faults retention kind inst t).1 d ∨
        PruneProbe parse C retention kind inst t d := keepsRest_pruneStore root faults ht
  refine ⟨fun d f hf m hpath _ hid _ hkept g hg => ?_, hrest⟩
  obtain ⟨hgt, hbelow⟩ := List.mem_filter.mp hg
  have hd : d ≠ [] := by
    rintro rfl
    exact nomatch hid
  exact hrest g hgt (not_below_mayGo hd ⟨f, hf, hpath⟩ hkept (of_decide_eq_true hbelow))

end Frame

/-! ## Backups beneath a slot, and in a probe -/

/-- Manifests of two backups of one host, one of which has the name of a directory of others, and of
a backup of another host. -/
def craftedManifest (content : String) : Option Manifest :=
  if content = "loki" then some ⟨"20250101-000000", "host", "loki", 0, 1, none⟩
  else some ⟨content, "host", "thor", 0, 1, none⟩

/-- A manifest has been put into the directory of the backups of all hosts. -/
def craftedStore : List StoreFile :=
  [⟨["zz", "manifest.json"], "zz"⟩,
    ⟨["hosts", "manifest.json"], "hosts"⟩,
    ⟨["hosts", "loki", "20250101-000000", "manifest.json"], "loki"⟩,
    ⟨["hosts", "loki", "20250101-000000", "payload", "etc.tar"], "data"⟩]

/-- Something is in the directory of a probe. -/
def storeWithProbe : List StoreFile :=
  twoBackups ++ [⟨["hosts", "thor", ".orca-prune-probe", "notes.txt"], "notes"⟩]

/-- Two backups of one host, of which one is removed. -/
theorem prune_frame_two_backups :
    KeepsOthers idManifest "host" "thor" twoBackups
        (pruneStore idManifest "/mnt/nas" noCalendar noStepFails keepNewest "host" "thor"
          twoBackups).1
        (fun d => GoneSlot idManifest "host" "thor" twoBackups
            (pruneStore idManifest "/mnt/nas" noCalendar noStepFails keepNewest "host" "thor"
              twoBackups).1 d ∨
          PruneProbe idManifest noCalendar keepNewest "host" "thor" twoBackups d) ∧
      KeepsRest twoBackups
        (pruneStore idManifest "/mnt/nas" noCalendar noStepFails keepNewest "host" "thor"
          twoBackups).1
        fun d => GoneSlot idManifest "host" "thor" twoBackups
            (pruneStore idManifest "/mnt/nas" noCalendar noStepFails keepNewest "host" "thor"
              twoBackups).1 d ∨
          PruneProbe idManifest noCalendar keepNewest "host" "thor" twoBackups d :=
  prune_frame idManifest "/mnt/nas" noCalendar noStepFails keepNewest "host" "thor" twoBackups
    (by decide)

/-- A prune deletes the backup of another host beneath a slot that it removes, and what is in its
probe. -/
theorem prune_deletes_beneath_slot_and_in_probe :
    ¬KeepsOthers craftedManifest "host" "thor" craftedStore
        (pruneStore craftedManifest "/mnt/nas" noCalendar noStepFails keepNewest "host" "thor"
          craftedStore).1 (fun _ => False) ∧
      ¬KeepsRest storeWithProbe
        (pruneStore idManifest "/mnt/nas" noCalendar noStepFails keepNewest "host" "thor"
          storeWithProbe).1
        (GoneSlot idManifest "host" "thor" storeWithProbe
          (pruneStore idManifest "/mnt/nas" noCalendar noStepFails keepNewest "host" "thor"
            storeWithProbe).1) := by
  constructor
  · intro h
    have hkept := h ["hosts", "loki", "20250101-000000"]
      ⟨["hosts", "loki", "20250101-000000", "manifest.json"], "loki"⟩ (by decide)
      ⟨"20250101-000000", "host", "loki", 0, 1, none⟩ rfl rfl rfl (by decide)
      (fun _ hno => hno.elim)
      ⟨["hosts", "loki", "20250101-000000", "payload", "etc.tar"], "data"⟩ (by decide)
    exact absurd hkept (by decide +kernel)
  · intro h
    have houtside : ∀ s ∈ located idManifest (some "host") (some "thor") storeWithProbe,
        ¬Below s.dir ["hosts", "thor", ".orca-prune-probe", "notes.txt"] := by decide +kernel
    have hkept := h ⟨["hosts", "thor", ".orca-prune-probe", "notes.txt"], "notes"⟩ (by decide)
      (by
        rintro e ⟨s, hs, -, rfl⟩
        exact houtside s hs)
    exact absurd hkept (by decide +kernel)

end Orca.Backup
