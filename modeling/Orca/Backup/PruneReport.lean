import Mathlib.Data.List.Nodup
import Orca.Backup.StoreTree

/-!
# The report of a prune

A prune takes a slot out of its store by a rename and deletes it under the new name.  Either half
can fail, and the report says of both that the backup is not removed.

`report_truthful_iff` says when that is right: no backup is renamed and then not deleted.  Such a
backup is in the failures, but no longer listed, and what is left of it has a name that no listing
and no later prune looks at.  Everything else the report says is right for every pattern of
failures: no step touches what belongs to another slot (`apart_of_mem_touched`), so the end of each
selected backup is the one that the tree before the prune gives it (`progress_prune`).
-/

namespace Orca.Backup

/-! ## Directories apart -/

/-- Neither directory is the other one or beneath it. -/
def Apart (d e : StorePath) : Prop := ¬d <+: e ∧ ¬e <+: d

lemma Apart.not_below {d e p : StorePath} (h : Apart d e) (hd : Below d p) : ¬Below e p := by
  intro he
  rcases List.prefix_or_prefix_of_prefix hd.1 he.1 with hbegins | hbegins
  · exact h.1 hbegins
  · exact h.2 hbegins

/-- Whatever is beneath one of some directories. -/
def Within (ds : List StorePath) (p : StorePath) : Prop := ∃ d ∈ ds, Below d p

/-- The directories that a prune makes in the directory of a slot. -/
def probes (s : StoredSlot) : List StorePath :=
  [probeDir s.collection, probeStagedDir s.collection]

/-- The directories that the removal of a slot works on. -/
def touched (s : StoredSlot) : List StorePath := s.dir :: stagedDir s :: probes s

lemma isReserved_removing (id : String) :
    isReserved (reservedPrefix ++ "removing-" ++ id) = true := by
  unfold isReserved
  rw [List.isPrefixOf_iff_prefix, String.toList_append, String.toList_append, List.append_assoc]
  exact List.prefix_append _ _

lemma reserved_of_mem_probes {s : StoredSlot} {d : StorePath} (h : d ∈ probes s) :
    ∃ name, isReserved name = true ∧ d = s.collection ++ [name] := by
  unfold probes at h
  rcases List.mem_cons.mp h with rfl | h
  · exact ⟨".orca-prune-probe", by decide +kernel, rfl⟩
  · rw [List.mem_singleton] at h
    subst h
    exact ⟨".orca-prune-probe-staged", by decide +kernel, rfl⟩

/-- No probe has the name that a slot is given. -/
lemma stagedDir_ne_probe (s r : StoredSlot) {d : StorePath} (h : d ∈ probes r) :
    d ≠ stagedDir s := by
  have hname : ∀ name : String, name.toList.getD 6 'x' = 'p' →
      r.collection ++ [name] ≠ stagedDir s := by
    intro name hp heq
    have hlast := (List.append_inj' heq rfl).2
    have hnames : name = reservedPrefix ++ "removing-" ++ s.id := (List.cons.inj hlast).1
    rw [hnames, String.toList_append, String.toList_append] at hp
    have hr : (reservedPrefix.toList ++ "removing-".toList ++ s.id.toList).getD 6 'x' = 'r' := rfl
    rw [hr] at hp
    exact absurd hp (by decide)
  unfold probes at h
  rcases List.mem_cons.mp h with rfl | h
  · exact hname _ (by decide +kernel)
  · rw [List.mem_singleton] at h
    subst h
    exact hname _ (by decide +kernel)

/-- A tree has one file at a path. -/
def IsTree (t : List StoreFile) : Prop := (t.map StoreFile.path).Nodup

instance (t : List StoreFile) : Decidable (IsTree t) := inferInstanceAs (Decidable (List.Nodup _))

section Slots

variable {parse : String → Option Manifest} {t t' : List StoreFile} {kind inst : Option String}
  {s r : StoredSlot}

lemma mem_located_all (h : s ∈ located parse kind inst t) : s ∈ located parse none none t := by
  obtain ⟨f, hf, hlocate⟩ := mem_located_iff.mp h
  obtain ⟨hpath, hvisible, m, hm, hvalid, -, -, hslot⟩ := locate_eq_some_iff.mp hlocate
  exact mem_located_iff.mpr
    ⟨f, hf, locate_eq_some_iff.mpr ⟨hpath, hvisible, m, hm, hvalid, rfl, rfl, hslot⟩⟩

/-- A directory is the one of at most one slot. -/
lemma eq_of_dir_eq (ht : IsTree t) (hs : s ∈ located parse none none t)
    (hr : r ∈ located parse none none t) (heq : r.dir = s.dir) : r = s := by
  obtain ⟨f, hf, hfs⟩ := mem_located_iff.mp hs
  obtain ⟨g, hg, hgr⟩ := mem_located_iff.mp hr
  have hpath : g.path = f.path := by
    rw [(locate_eq_some_iff.mp hgr).1, (locate_eq_some_iff.mp hfs).1, heq]
  have hfile : g = f := List.inj_on_of_nodup_map ht hg hf hpath
  rw [hfile, hfs] at hgr
  exact (Option.some.inj hgr).symm

/-- No slot is beneath another one. -/
lemma not_dir_prefix_of_ne (ht : IsTree t) (hs : s ∈ located parse none none t)
    (hr : r ∈ located parse none none t) (hne : r ≠ s) : ¬r.dir <+: s.dir := by
  intro hbegins
  have hdir : r.dir ≠ s.dir := fun heq => hne (eq_of_dir_eq ht hs hr heq)
  have hroot : r.dir ≠ [] := by
    unfold Slot.dir
    exact List.append_ne_nil_of_right_ne_nil _ (List.cons_ne_nil _ _)
  exact (hasManifest_of_located hs).2.2 _ ((List.mem_inits _ _).mpr hbegins) hroot hdir
    (hasManifest_of_located hr).1

lemma not_prefix_dir_of_reserved (hs : s ∈ located parse none none t) {c : StorePath}
    {name : String} (hname : isReserved name = true) : ¬c ++ [name] <+: s.dir := by
  intro hbegins
  have hmem : name ∈ s.dir := hbegins.subset (List.mem_append_right c List.mem_cons_self)
  have hnot := ((hasManifest_of_located hs).2.1 name hmem).1
  rw [hname] at hnot
  cases hnot

/-- A slot is not the directory of a reserved name beside it, and not beneath it. -/
lemma not_dir_prefix_of_reserved (hs : s ∈ located parse none none t) {c : StorePath}
    {name : String} (hname : isReserved name = true) (hc : ¬s.dir <+: c) :
    ¬s.dir <+: c ++ [name] := by
  intro hbegins
  rcases List.prefix_concat_iff.mp hbegins with heq | hbegins
  · exact not_prefix_dir_of_reserved hs hname (by rw [heq])
  · exact hc hbegins

lemma not_dir_prefix_collection (s : StoredSlot) : ¬s.dir <+: s.collection := by
  intro hbegins
  have hlength := hbegins.length_le
  unfold Slot.dir at hlength
  rw [List.length_append, List.length_singleton] at hlength
  omega

lemma apart_of_reserved (hs : s ∈ located parse none none t) {c : StorePath} {name : String}
    (hname : isReserved name = true) (hc : ¬s.dir <+: c) : Apart (c ++ [name]) s.dir :=
  ⟨not_prefix_dir_of_reserved hs hname, not_dir_prefix_of_reserved hs hname hc⟩

/-- Two directories of reserved names on the way to slots are apart, if they are not the same. -/
lemma apart_reserved (hs : s ∈ located parse none none t) (hr : r ∈ located parse none none t)
    {n m : String} (hn : isReserved n = true) (hm : isReserved m = true)
    (hne : r.collection ++ [m] ≠ s.collection ++ [n]) :
    Apart (r.collection ++ [m]) (s.collection ++ [n]) := by
  have hup : ∀ q : StoredSlot, q.collection <+: q.dir := fun q => List.prefix_append _ _
  constructor
  · intro hbegins
    rcases List.prefix_concat_iff.mp hbegins with heq | hbegins
    · exact hne heq
    · exact not_prefix_dir_of_reserved hs hm (hbegins.trans (hup s))
  · intro hbegins
    rcases List.prefix_concat_iff.mp hbegins with heq | hbegins
    · exact hne heq.symm
    · exact not_prefix_dir_of_reserved hr hn (hbegins.trans (hup r))

/-- What the removal of one slot works on is apart from another slot, and from the name that one is
given. -/
lemma apart_of_mem_touched (ht : IsTree t) (hs : s ∈ located parse none none t)
    (hr : r ∈ located parse none none t) (hne : r ≠ s) {d : StorePath} (hd : d ∈ touched r) :
    Apart d s.dir ∧ Apart d (stagedDir s) := by
  have hup : ∀ q : StoredSlot, q.collection <+: q.dir := fun q => List.prefix_append _ _
  have hsr : ¬s.dir <+: r.dir := not_dir_prefix_of_ne ht hr hs fun h => hne h.symm
  have hrs : ¬r.dir <+: s.dir := not_dir_prefix_of_ne ht hs hr hne
  have hcollection : ¬s.dir <+: r.collection := fun h => hsr (h.trans (hup r))
  unfold touched at hd
  rcases List.mem_cons.mp hd with rfl | hd
  · have hstaged : Apart (stagedDir s) r.dir :=
      apart_of_reserved hr (isReserved_removing s.id) fun h => hrs (h.trans (hup s))
    exact ⟨⟨hrs, hsr⟩, hstaged.2, hstaged.1⟩
  rcases List.mem_cons.mp hd with rfl | hd
  · refine ⟨apart_of_reserved hs (isReserved_removing r.id) hcollection,
      apart_reserved hs hr (isReserved_removing s.id) (isReserved_removing r.id) ?_⟩
    intro heq
    obtain ⟨hcoll, hname⟩ := List.append_inj' heq rfl
    have hid := (List.cons.inj hname).1
    have hids : r.id = s.id := by
      have htails := congrArg String.toList hid
      simp only [String.toList_append] at htails
      exact String.toList_injective (List.append_cancel_left htails)
    refine hne (eq_of_dir_eq ht hs hr ?_)
    unfold Slot.dir
    rw [hcoll, hids]
  · obtain ⟨name, hname, rfl⟩ := reserved_of_mem_probes hd
    exact ⟨apart_of_reserved hs hname hcollection,
      apart_reserved hs hr (isReserved_removing s.id) hname (stagedDir_ne_probe s r hd)⟩

/-! ## The end of one removal -/

/-- `check_prunable` ends in an error. -/
def ProbeFails (faults : StepFaults) (dir : StorePath) : Prop :=
  (faults.probeCreate dir).isSome ∨ (faults.probeRename dir).isSome ∨
    (faults.probeDelete dir).isSome

instance (faults : StepFaults) (dir : StorePath) : Decidable (ProbeFails faults dir) :=
  inferInstanceAs (Decidable (_ ∨ _))

/-- How the removal of a slot ends that has files. -/
def endOf (root : String) (faults : StepFaults) (t : List StoreFile) (s : StoredSlot) : Removal :=
  match renameFails faults t s with
  | some cause => .refused ("stage backup " ++ displayPath root s.dir ++ " for removal: " ++ cause)
  | none =>
      match faults.delete s.dir with
      | some cause =>
          .halfway ("remove staged backup " ++ displayPath root (stagedDir s) ++ ": " ++ cause)
      | none => .done

variable {root : String} {faults : StepFaults}

/-- The probe touches its own directories only. -/
lemma sameOutside_checkPrunable (root : String) (faults : StepFaults) (s : StoredSlot)
    (t : List StoreFile) :
    SameOutside (Within (probes s)) t (checkPrunable root faults s.collection t).1 := by
  have hprobe : ∀ p, Below (probeDir s.collection) p → Within (probes s) p :=
    fun p hp => ⟨_, List.mem_cons_self, hp⟩
  have hstaged : ∀ p, Below (probeStagedDir s.collection) p → Within (probes s) p :=
    fun p hp => ⟨_, List.mem_cons_of_mem _ List.mem_cons_self, hp⟩
  have hboth := ((sameOutside_removeDirAll (faults.probeDelete s.collection) faults.left
    (probeDir s.collection) t).mono hprobe).trans
    ((sameOutside_removeDirAll (faults.probeDelete s.collection) faults.left
      (probeStagedDir s.collection) _).mono hstaged)
  unfold checkPrunable
  dsimp only
  split
  · exact hboth
  · split
    · exact hboth
    · split
      · exact hboth
      · exact hboth

/-- What the probe says. -/
lemma checkPrunable_snd (root : String) (faults : StepFaults) (dir : StorePath)
    (t : List StoreFile) :
    (ProbeFails faults dir ∧ ∃ e, (checkPrunable root faults dir t).2 = .error e) ∨
      (¬ProbeFails faults dir ∧ (checkPrunable root faults dir t).2 = .ok ()) := by
  unfold checkPrunable ProbeFails
  dsimp only
  cases hcreate : faults.probeCreate dir with
  | some cause => exact Or.inl ⟨Or.inl rfl, _, rfl⟩
  | none =>
    cases hrename : faults.probeRename dir with
    | some cause => exact Or.inl ⟨Or.inr (Or.inl rfl), _, rfl⟩
    | none =>
      cases hdelete : faults.probeDelete dir with
      | some cause => exact Or.inl ⟨Or.inr (Or.inr rfl), _, rfl⟩
      | none => exact Or.inr ⟨by simp, rfl⟩

/-- Nothing is left beneath a slot that is renamed and deleted, be it in part. -/
lemma filesBelow_removed (hs : s ∈ located parse none none t) (cause : Option String)
    (left : StorePath → Bool) (t' : List StoreFile) :
    filesBelow (removeDirAll cause left (stagedDir s) (t'.map (moveFile s.dir (stagedDir s))))
      s.dir = [] := by
  unfold filesBelow
  refine List.filter_eq_nil_iff.mpr fun f hf hbelow => ?_
  have hf := (List.mem_filter.mp hf).1
  obtain ⟨g, -, rfl⟩ := List.mem_map.mp hf
  have hbelow := of_decide_eq_true hbelow
  by_cases hg : Below s.dir g.path
  · exact (apart_of_reserved hs (isReserved_removing s.id)
      (not_dir_prefix_collection s)).not_below (below_moveFile hg) hbelow
  · rw [moveFile, if_neg hg] at hbelow
    exact hg hbelow

/-- What the removal of a slot with files does, by its end. -/
lemma removeSlot_cases (root : String) (faults : StepFaults) (hs : s ∈ located parse none none t)
    (hfiles : filesBelow t' s.dir ≠ []) :
    SameOutside (Within (touched s)) t' (removeSlot root faults s t').1 ∧
      match endOf root faults t' s with
      | .done => (removeSlot root faults s t').2 = .ok () ∧
          filesBelow (removeSlot root faults s t').1 s.dir = []
      | .refused e => removeSlot root faults s t' = (t', .error e)
      | .halfway e => (removeSlot root faults s t').2 = .error e ∧
          filesBelow (removeSlot root faults s t').1 s.dir = [] := by
  have hslot : ∀ p, (Below s.dir p ∨ Below (stagedDir s) p) → Within (touched s) p := by
    rintro p (hp | hp)
    · exact ⟨_, List.mem_cons_self, hp⟩
    · exact ⟨_, List.mem_cons_of_mem _ List.mem_cons_self, hp⟩
  have hmoved := fun cause => ((sameOutside_map_moveFile s.dir (stagedDir s) t').mono hslot).trans
    ((sameOutside_removeDirAll cause faults.left (stagedDir s) _).mono
      fun p hp => hslot p (Or.inr hp))
  unfold removeSlot endOf
  rw [if_neg hfiles]
  cases hrename : renameFails faults t' s with
  | some cause => exact ⟨SameOutside.refl _ _, rfl⟩
  | none =>
    cases hdelete : faults.delete s.dir with
    | some cause => exact ⟨hmoved _, rfl, filesBelow_removed hs _ _ _⟩
    | none => exact ⟨hmoved _, rfl, filesBelow_removed hs _ _ _⟩

lemma endOf_congr (h : filesBelow t' (stagedDir s) = filesBelow t (stagedDir s)) :
    endOf root faults t' s = endOf root faults t s := by
  unfold endOf renameFails
  rw [h]

/-! ## The whole prune -/

/-- A selected slot that is not tried: the first one, when the probe in its directory fails. -/
def NotTried (faults : StepFaults) (chosen : List StoredSlot) (s : StoredSlot) : Prop :=
  chosen.head? = some s ∧ ProbeFails faults s.collection

/-- A slot is listed wherever it was, with the same files. -/
def StaysListed (parse : String → Option Manifest) (t t' : List StoreFile) (s : StoredSlot) :
    Prop :=
  ∀ kind inst, s ∈ located parse kind inst t → s ∈ located parse kind inst t'

/-- How a selected slot ended. -/
inductive Ended (parse : String → Option Manifest) (root : String) (faults : StepFaults)
    (t : List StoreFile) (chosen : List StoredSlot) (t' : List StoreFile)
    (report : RemovalReport) (s : StoredSlot) : Prop where
  | gone (htried : ¬NotTried faults chosen s) (hend : endOf root faults t s = .done)
      (hremoved : s ∈ report.removed) (hfiles : filesBelow t' s.dir = [])
  | kept (hend : NotTried faults chosen s ∨ ∃ e, endOf root faults t s = .refused e)
      (hfailure : ∃ e, failureOf root s e ∈ report.failures)
      (hlisted : StaysListed parse t t' s)
  /-- It is renamed, and reported as not removed. -/
  | lost (htried : ¬NotTried faults chosen s) (hend : ∃ e, endOf root faults t s = .halfway e)
      (hfailure : ∃ e, failureOf root s e ∈ report.failures) (hnot : s ∉ report.removed)
      (hfiles : filesBelow t' s.dir = [])

/-- A prune after some of the selected slots. -/
structure Progress (parse : String → Option Manifest) (root : String) (faults : StepFaults)
    (t : List StoreFile) (done : List StoredSlot) (t' : List StoreFile)
    (report : RemovalReport) : Prop where
  selected : report.selected = done.length
  /-- Each of them is in one of the two lists. -/
  counts : report.selected = report.removed.length + report.failures.length
  removed : ∀ s ∈ report.removed, s ∈ done
  ended : ∀ s ∈ done, Ended parse root faults t done t' report s
  others : ∀ s ∈ located parse none none t, s ∉ done → StaysListed parse t t' s
  /-- The names that the others are given are as free as before. -/
  staged : ∀ s ∈ located parse none none t, s ∉ done →
    filesBelow t' (stagedDir s) = filesBelow t (stagedDir s)

/-- A slot stays listed when only directories apart from it are touched. -/
lemma staysListed_of_apart {ds : List StorePath} (hapart : ∀ d ∈ ds, Apart d s.dir)
    {t'' : List StoreFile} (h : SameOutside (Within ds) t' t'')
    (hlisted : StaysListed parse t t' s) : StaysListed parse t t'' s := by
  intro kind inst hmem
  refine located_of_sameOutside h (hlisted kind inst hmem) ?_ ?_
  · rintro p hp ⟨d, hd, hbelow⟩
    exact (hapart d hd).not_below hbelow hp
  · rintro d hbegins - - ⟨e, he, hbelow⟩
    -- the manifest of a directory above is beneath what is touched only if the slot is
    rcases List.prefix_concat_iff.mp hbelow.1 with heq | hup
    · exact hbelow.2 heq
    · exact (hapart e he).1 (hup.trans hbegins)

lemma filesBelow_of_apart {ds : List StorePath} {dir : StorePath}
    (hapart : ∀ d ∈ ds, Apart d dir) {t'' : List StoreFile}
    (h : SameOutside (Within ds) t' t'') : filesBelow t'' dir = filesBelow t' dir := by
  refine h.filesBelow_eq ?_
  rintro p hp ⟨d, hd, hbelow⟩
  exact (hapart d hd).not_below hbelow hp

lemma apart_probes (hs : s ∈ located parse none none t) {d : StorePath} (hd : d ∈ probes s) :
    Apart d s.dir ∧ Apart d (stagedDir s) := by
  obtain ⟨name, hname, rfl⟩ := reserved_of_mem_probes hd
  exact ⟨apart_of_reserved hs hname (not_dir_prefix_collection s),
    apart_reserved hs hs (isReserved_removing s.id) hname (stagedDir_ne_probe s s hd)⟩

/-- The report with one more slot in one of its lists. -/
def Adds (root : String) (report : RemovalReport) (s : StoredSlot) (report' : RemovalReport) :
    Prop :=
  report'.selected = report.selected + 1 ∧
    (report'.removed = report.removed ++ [s] ∧ report'.failures = report.failures ∨
      report'.removed = report.removed ∧
        ∃ e, report'.failures = report.failures ++ [failureOf root s e])

/-- What has been reported stays reported. -/
lemma Adds.mem {report report' : RemovalReport} (h : Adds root report s report') :
    (∀ r ∈ report.removed, r ∈ report'.removed) ∧
      (∀ f ∈ report.failures, f ∈ report'.failures) ∧
        ∀ r ∈ report'.removed, r ∈ report.removed ∨ r = s := by
  rcases h.2 with ⟨hremoved, hfailures⟩ | ⟨hremoved, e, hfailures⟩
  · rw [hremoved, hfailures]
    refine ⟨fun r hr => List.mem_append_left _ hr, fun _ hf => hf, fun r hr => ?_⟩
    rcases List.mem_append.mp hr with hr | hr
    · exact Or.inl hr
    · exact Or.inr (List.mem_singleton.mp hr)
  · rw [hremoved, hfailures]
    exact ⟨fun _ hr => hr, fun f hf => List.mem_append_left _ hf, fun r hr => Or.inl hr⟩

lemma notTried_append {done : List StoredSlot} (hr : r ∈ done) :
    NotTried faults (done ++ [s]) r ↔ NotTried faults done r := by
  unfold NotTried
  have hhead : (done ++ [s]).head? = done.head? := by
    rw [List.head?_append_of_ne_nil done (List.ne_nil_of_mem hr)]
  rw [hhead]

/-- Another removal leaves a slot that has ended as it is. -/
lemma Ended.append (ht : IsTree t) {done : List StoredSlot} {report report' : RemovalReport}
    {t'' : List StoreFile} (hmem : r ∈ done) (hr : r ∈ located parse none none t)
    (hs : s ∈ located parse none none t) (hne : s ≠ r)
    (hsame : SameOutside (Within (touched s)) t' t'') (hadds : Adds root report s report')
    (h : Ended parse root faults t done t' report r) :
    Ended parse root faults t (done ++ [s]) t'' report' r := by
  have hapart : ∀ d ∈ touched s, Apart d r.dir :=
    fun d hd => (apart_of_mem_touched ht hr hs hne hd).1
  obtain ⟨hremoved', hfailures', hback⟩ := hadds.mem
  cases h with
  | gone htried hend hremoved hfiles =>
    refine .gone (fun h => htried ((notTried_append hmem).mp h)) hend (hremoved' r hremoved) ?_
    rw [filesBelow_of_apart hapart hsame, hfiles]
  | kept hend hfailure hlisted =>
    obtain ⟨e, hfailure⟩ := hfailure
    refine .kept (hend.imp_left (notTried_append hmem).mpr) ⟨e, hfailures' _ hfailure⟩
      (staysListed_of_apart hapart hsame hlisted)
  | lost htried hend hfailure hnot hfiles =>
    obtain ⟨e, hfailure⟩ := hfailure
    refine .lost (fun h => htried ((notTried_append hmem).mp h)) hend ⟨e, hfailures' _ hfailure⟩
      (fun hin => ?_) ?_
    · rcases hback r hin with hin | rfl
      · exact hnot hin
      · exact hne rfl
    · rw [filesBelow_of_apart hapart hsame, hfiles]

/-- A removal that ends takes the prune one slot further. -/
lemma Progress.append (ht : IsTree t) {done : List StoredSlot} {report report' : RemovalReport}
    {t'' : List StoreFile} (hdone : ∀ r ∈ done, r ∈ located parse none none t)
    (hs : s ∈ located parse none none t) (hnew : s ∉ done)
    (h : Progress parse root faults t done t' report)
    (hsame : SameOutside (Within (touched s)) t' t'') (hadds : Adds root report s report')
    (hend : Ended parse root faults t (done ++ [s]) t'' report' s) :
    Progress parse root faults t (done ++ [s]) t'' report' := by
  have hother : ∀ r ∈ located parse none none t, r ∉ done ++ [s] → r ∉ done ∧ s ≠ r := by
    intro r hr hnot
    refine ⟨fun hin => hnot (List.mem_append_left _ hin), fun heq => hnot ?_⟩
    exact List.mem_append_right _ (List.mem_singleton.mpr heq.symm)
  constructor
  · rw [hadds.1, h.selected, List.length_append, List.length_singleton]
  · have hcounts := h.counts
    rcases hadds with ⟨hselected, ⟨hremoved, hfailures⟩ | ⟨hremoved, e, hfailures⟩⟩
    · rw [hselected, hremoved, hfailures, List.length_append, List.length_singleton]
      omega
    · rw [hselected, hremoved, hfailures, List.length_append, List.length_singleton]
      omega
  · intro r hr
    rcases hadds.mem.2.2 r hr with hr | rfl
    · exact List.mem_append_left _ (h.removed r hr)
    · exact List.mem_append_right _ List.mem_cons_self
  · intro r hr
    rcases List.mem_append.mp hr with hr | hr
    · have hne : s ≠ r := fun heq => hnew (heq ▸ hr)
      exact (h.ended r hr).append ht hr (hdone r hr) hs hne hsame hadds
    · rw [List.mem_singleton.mp hr]
      exact hend
  · intro r hr hnot
    obtain ⟨hrest, hne⟩ := hother r hr hnot
    exact staysListed_of_apart (fun d hd => (apart_of_mem_touched ht hr hs hne hd).1) hsame
      (h.others r hr hrest)
  · intro r hr hnot
    obtain ⟨hrest, hne⟩ := hother r hr hnot
    rw [filesBelow_of_apart (fun d hd => (apart_of_mem_touched ht hr hs hne hd).2) hsame,
      h.staged r hr hrest]

lemma adds_record (root : String) (report : RemovalReport) (s : StoredSlot)
    (outcome : Except String Unit) :
    Adds root report s
      (({ report with selected := report.selected + 1 } : RemovalReport).record root s
        outcome) := by
  cases outcome with
  | ok _ => exact ⟨rfl, Or.inl ⟨rfl, rfl⟩⟩
  | error e => exact ⟨rfl, Or.inr ⟨rfl, e, rfl⟩⟩

lemma failure_mem_record (root : String) (report : RemovalReport) (s : StoredSlot) (e : String) :
    failureOf root s e ∈ (report.record root s (.error e)).failures :=
  List.mem_append_right _ List.mem_cons_self

lemma staysListed_probes (hs : s ∈ located parse none none t) {t'' : List StoreFile}
    (h : SameOutside (Within (probes s)) t' t'') (hlisted : StaysListed parse t t' s) :
    StaysListed parse t t'' s :=
  staysListed_of_apart (fun _ hd => (apart_probes hs hd).1) h hlisted

/-- A removal that is tried, in a tree that differs from the one before by the probes. -/
lemma progress_removeSlot (ht : IsTree t) {done : List StoredSlot} {report : RemovalReport}
    (hdone : ∀ r ∈ done, r ∈ located parse none none t) (hs : s ∈ located parse none none t)
    (hnew : s ∉ done) (h : Progress parse root faults t done t' report) {t'' : List StoreFile}
    (hprobes : SameOutside (Within (probes s)) t' t'')
    (htried : ¬NotTried faults (done ++ [s]) s) :
    Progress parse root faults t (done ++ [s]) (removeSlot root faults s t'').1
      (({ report with selected := report.selected + 1 } : RemovalReport).record root s
        (removeSlot root faults s t'').2) := by
  have hlisted : StaysListed parse t t'' s := staysListed_probes hs hprobes (h.others s hs hnew)
  have hfiles : filesBelow t'' s.dir ≠ [] :=
    fun hempty => dir_ne_of_empty hempty (hlisted none none hs) rfl
  have hend : endOf root faults t'' s = endOf root faults t s := by
    refine endOf_congr ?_
    rw [filesBelow_of_apart (fun d hd => (apart_probes hs hd).2) hprobes, h.staged s hs hnew]
  obtain ⟨hsame, hcases⟩ := removeSlot_cases root faults hs hfiles
  rw [hend] at hcases
  have htouched : SameOutside (Within (touched s)) t' (removeSlot root faults s t'').1 := by
    refine (hprobes.mono ?_).trans hsame
    rintro p ⟨d, hd, hp⟩
    exact ⟨d, List.mem_cons_of_mem _ (List.mem_cons_of_mem _ hd), hp⟩
  refine h.append ht hdone hs hnew htouched (adds_record root report s _) ?_
  cases hof : endOf root faults t s with
  | done =>
    rw [hof] at hcases
    rw [hcases.1]
    exact .gone htried hof (List.mem_append_right _ List.mem_cons_self) hcases.2
  | refused e =>
    rw [hof] at hcases
    rw [hcases]
    exact .kept (Or.inr ⟨e, hof⟩) ⟨e, failure_mem_record root _ s e⟩ hlisted
  | halfway e =>
    rw [hof] at hcases
    rw [hcases.1]
    exact .lost htried ⟨e, hof⟩ ⟨e, failure_mem_record root _ s e⟩
      (fun hin => hnew (h.removed s hin)) hcases.2

lemma Progress.first_iff {done : List StoredSlot} {report : RemovalReport}
    (h : Progress parse root faults t done t' report) :
    (report.removed.isEmpty && report.failures.isEmpty) = true ↔ done = [] := by
  have hlength : done.length = report.removed.length + report.failures.length :=
    h.selected.symm.trans h.counts
  rw [Bool.and_eq_true, List.isEmpty_iff_length_eq_zero, List.isEmpty_iff_length_eq_zero,
    ← List.length_eq_zero_iff]
  omega

/-- One removal goes on from where the prune is. -/
lemma progress_pruneOne (ht : IsTree t) {done : List StoredSlot} {report : RemovalReport}
    (hdone : ∀ r ∈ done, r ∈ located parse none none t) (hs : s ∈ located parse none none t)
    (hnew : s ∉ done) (h : Progress parse root faults t done t' report) :
    Progress parse root faults t (done ++ [s]) (pruneOne root faults (t', report) s).1
      (pruneOne root faults (t', report) s).2 := by
  have hprobe := sameOutside_checkPrunable root faults s t'
  unfold pruneOne
  dsimp only
  by_cases hfirst : (report.removed.isEmpty && report.failures.isEmpty) = true
  · rw [if_pos hfirst]
    have hnil : done = [] := h.first_iff.mp hfirst
    rcases checkPrunable_snd root faults s.collection t' with ⟨hfails, e, he⟩ | ⟨hok, he⟩
    · rw [he]
      dsimp only
      refine h.append ht hdone hs hnew (hprobe.mono ?_) (adds_record root report s _) ?_
      · rintro p ⟨d, hd, hp⟩
        exact ⟨d, List.mem_cons_of_mem _ (List.mem_cons_of_mem _ hd), hp⟩
      · refine .kept (Or.inl ⟨?_, hfails⟩) ⟨e, failure_mem_record root _ s e⟩
          (staysListed_probes hs hprobe (h.others s hs hnew))
        rw [hnil]
        rfl
    · rw [he]
      exact progress_removeSlot ht hdone hs hnew h hprobe fun hnot => hok hnot.2
  · rw [if_neg hfirst]
    refine progress_removeSlot ht hdone hs hnew h (SameOutside.refl _ _) fun hnot => ?_
    -- some slot was the first one before
    have hne : done ≠ [] := fun hnil => hfirst (h.first_iff.mpr hnil)
    have hhead := hnot.1
    rw [List.head?_append_of_ne_nil done hne] at hhead
    exact hnew (List.mem_of_mem_head? hhead)

/-- How far a prune gets with the slots it is given. -/
lemma progress_prune (root : String) (faults : StepFaults) (ht : IsTree t)
    (chosen : List StoredSlot) (hchosen : ∀ r ∈ chosen, r ∈ located parse none none t)
    (hnodup : chosen.Nodup) :
    Progress parse root faults t chosen
      (chosen.foldl (pruneOne root faults) (t, ⟨0, [], []⟩)).1
      (chosen.foldl (pruneOne root faults) (t, ⟨0, [], []⟩)).2 := by
  induction chosen using List.reverseRecOn with
  | nil =>
    refine ⟨rfl, rfl, ?_, ?_, fun s _ _ kind inst hmem => hmem, fun _ _ _ => rfl⟩
    · intro r hr
      cases hr
    · intro r hr
      cases hr
  | append_singleton done s ih =>
    rw [List.nodup_append] at hnodup
    have hdone : ∀ r ∈ done, r ∈ located parse none none t :=
      fun r hr => hchosen r (List.mem_append_left _ hr)
    have hnew : s ∉ done := fun hin => hnodup.2.2 s hin s List.mem_cons_self rfl
    rw [List.foldl_append]
    exact progress_pruneOne ht hdone (hchosen s (List.mem_append_right _ List.mem_cons_self)) hnew
      (ih hdone hnodup.1)

/-! ## What is selected -/

variable {C : Calendar} {retention : Retention} {kindName instName : String}

/-- The slots not to be kept are some of the slots. -/
lemma sublist_notKept (keep : List Nat) (slots : List StoredSlot) (i : Nat) :
    (notKept keep i slots).Sublist slots := by
  induction slots generalizing i with
  | nil => exact List.Sublist.slnil
  | cons s rest ih =>
    unfold notKept
    split
    · exact (ih (i + 1)).cons s
    · exact (ih (i + 1)).cons_cons s

lemma nodup_located (ht : IsTree t) : (located parse kind inst t).Nodup := by
  refine List.pairwise_filterMap.mpr ((List.pairwise_map.mp ht).imp ?_)
  rintro f g hpath s hs r hr rfl
  exact hpath ((locate_eq_some_iff.mp hs).1.trans (locate_eq_some_iff.mp hr).1.symm)

lemma mem_located_of_selected (h : s ∈ selectedSlots parse C retention kindName instName t) :
    s ∈ located parse (some kindName) (some instName) t := by
  unfold selectedSlots at h
  split at h
  · cases h
  · exact mem_listStore_iff.mp ((sublist_notKept _ _ 0).subset h)

lemma nodup_selectedSlots (ht : IsTree t) :
    (selectedSlots parse C retention kindName instName t).Nodup := by
  unfold selectedSlots
  split
  · exact List.nodup_nil
  · refine List.Nodup.sublist (sublist_notKept _ _ 0) ?_
    unfold listStore newestFirst
    exact (List.perm_insertionSort _ _).nodup_iff.mpr (nodup_located ht)

end Slots

/-! ## The report -/

/-- The report of a prune and the tree it leaves say the same of every backup. -/
structure TellsTruth (parse : String → Option Manifest) (root : String) (C : Calendar)
    (retention : Retention) (kind inst : String) (t t' : List StoreFile)
    (report : RemovalReport) : Prop where
  selected : report.selected = (selectedSlots parse C retention kind inst t).length
  /-- They are removed, or they are failures. -/
  counts : report.selected = report.removed.length + report.failures.length
  /-- One that is removed is no longer listed, and one that is a failure is listed with the same
  files. -/
  ended : ∀ s ∈ selectedSlots parse C retention kind inst t,
    (s ∈ report.removed ∧ ∀ r ∈ listStore parse none none t', r.dir ≠ s.dir) ∨
      (∃ e, failureOf root s e ∈ report.failures) ∧
        s ∈ listStore parse (some kind) (some inst) t'
  /-- All others are listed with the same files. -/
  others : ∀ s ∈ listStore parse none none t,
    s ∉ selectedSlots parse C retention kind inst t → s ∈ listStore parse none none t'

/-- Every selected slot that can be renamed can be deleted under its new name, if it is tried. -/
def NeverHalfway (parse : String → Option Manifest) (C : Calendar) (faults : StepFaults)
    (retention : Retention) (kind inst : String) (t : List StoreFile) : Prop :=
  ∀ s ∈ selectedSlots parse C retention kind inst t,
    ¬NotTried faults (selectedSlots parse C retention kind inst t) s →
      renameFails faults t s = none → faults.delete s.dir = none

/-- A removal ends halfway when the rename is right and the delete is not. -/
lemma endOf_halfway_iff (root : String) {faults : StepFaults} {t : List StoreFile}
    {s : StoredSlot} : (∃ e, endOf root faults t s = .halfway e) ↔
      ¬(renameFails faults t s = none → faults.delete s.dir = none) := by
  unfold endOf
  cases renameFails faults t s with
  | some cause => simp
  | none =>
    cases faults.delete s.dir with
    | some cause => simp
    | none => simp

/-- The report of a prune is right if and only if no selected backup is renamed and then not
deleted. -/
theorem report_truthful_iff (parse : String → Option Manifest) (root : String) (C : Calendar)
    (faults : StepFaults) (retention : Retention) (kind inst : String) (t : List StoreFile)
    (ht : IsTree t) :
    TellsTruth parse root C retention kind inst t
        (pruneStore parse root C faults retention kind inst t).1
        (pruneStore parse root C faults retention kind inst t).2 ↔
      NeverHalfway parse C faults retention kind inst t := by
  have hchosen : ∀ r ∈ selectedSlots parse C retention kind inst t,
      r ∈ located parse none none t := fun r hr => mem_located_all (mem_located_of_selected hr)
  have hprogress := progress_prune root faults ht _ hchosen (nodup_selectedSlots ht)
  unfold pruneStore
  constructor
  · intro htruth s hs htried
    by_contra hhalfway
    obtain ⟨e, hlost⟩ := (endOf_halfway_iff root).mpr hhalfway
    have hended := hprogress.ended s hs
    cases hended with
    | gone _ hend _ _ =>
      rw [hend] at hlost
      cases hlost
    | kept hend _ _ =>
      rcases hend with hnot | ⟨e', hend⟩
      · exact htried hnot
      · rw [hend] at hlost
        cases hlost
    | lost _ _ _ hnot hfiles =>
      rcases htruth.ended s hs with ⟨hremoved, -⟩ | ⟨-, hlisted⟩
      · exact hnot hremoved
      · exact dir_ne_of_empty hfiles (mem_listStore_iff.mp hlisted) rfl
  · intro hnever
    refine ⟨hprogress.selected, hprogress.counts, ?_, ?_⟩
    · intro s hs
      have hended := hprogress.ended s hs
      cases hended with
      | gone _ _ hremoved hfiles =>
        exact Or.inl ⟨hremoved, fun r hr => dir_ne_of_empty hfiles (mem_listStore_iff.mp hr)⟩
      | kept _ hfailure hlisted =>
        exact Or.inr ⟨hfailure, mem_listStore_iff.mpr (hlisted _ _ (mem_located_of_selected hs))⟩
      | lost htried hend _ _ _ =>
        exact absurd (hnever s hs htried) ((endOf_halfway_iff root).mp hend)
    · intro s hs hnot
      have hmem := mem_listStore_iff.mp hs
      exact mem_listStore_iff.mpr (hprogress.others s hmem hnot none none hmem)

/-! ## A backup that is renamed and not deleted -/

/-- A calendar, for a policy that does not ask for one. -/
def noCalendar : Calendar :=
  ⟨fun _ => true, fun _ => "", fun _ => "", fun _ => "", fun _ => "", fun _ => "", fun _ => ""⟩

/-- The newest backup is kept. -/
def keepNewest : Retention := ⟨some 1, none, none, none, none, none, none⟩

/-- Manifests that give the name of the slot. -/
def idManifest (content : String) : Option Manifest :=
  some ⟨content, "host", "thor", 0, 1, none⟩

/-- A store with two backups of one host. -/
def twoBackups : List StoreFile :=
  [⟨["hosts", "thor", "20250102T000000Z", "manifest.json"], "20250102T000000Z"⟩,
    ⟨["hosts", "thor", "20250102T000000Z", "payload", "etc.tar"], "new"⟩,
    ⟨["hosts", "thor", "20250101T000000Z", "manifest.json"], "20250101T000000Z"⟩,
    ⟨["hosts", "thor", "20250101T000000Z", "payload", "etc.tar"], "old"⟩]

/-- The delete of every slot fails, and leaves everything where it is. -/
def deleteFails : StepFaults :=
  ⟨fun _ => none, fun _ => none, fun _ => none, fun _ => none,
    fun _ => some "Input/output error (os error 5)", fun _ => true⟩

/-- Nothing fails. -/
def noStepFails : StepFaults :=
  ⟨fun _ => none, fun _ => none, fun _ => none, fun _ => none, fun _ => none, fun _ => false⟩

/-- The report of two backups is right when nothing fails. -/
theorem report_truthful_two_backups :
    TellsTruth idManifest "/mnt/nas" noCalendar keepNewest "host" "thor" twoBackups
      (pruneStore idManifest "/mnt/nas" noCalendar noStepFails keepNewest "host" "thor"
        twoBackups).1
      (pruneStore idManifest "/mnt/nas" noCalendar noStepFails keepNewest "host" "thor"
        twoBackups).2 :=
  (report_truthful_iff idManifest "/mnt/nas" noCalendar noStepFails keepNewest "host" "thor"
    twoBackups (by decide)).mpr fun _ _ _ _ => rfl

/-- The backup that is to be removed. -/
def oldBackup : StoredSlot :=
  ⟨"20250101T000000Z", 0, 1, none, ["hosts", "thor"], twoBackups.drop 2⟩

/-- A backup whose delete fails is reported as not removed, and is no longer listed. -/
theorem lost_backup_is_reported_kept :
    ¬TellsTruth idManifest "/mnt/nas" noCalendar keepNewest "host" "thor" twoBackups
      (pruneStore idManifest "/mnt/nas" noCalendar deleteFails keepNewest "host" "thor"
        twoBackups).1
      (pruneStore idManifest "/mnt/nas" noCalendar deleteFails keepNewest "host" "thor"
        twoBackups).2 := by
  have hselected : selectedSlots idManifest noCalendar keepNewest "host" "thor" twoBackups =
      [oldBackup] := by
    decide +kernel
  have hremoved : (pruneStore idManifest "/mnt/nas" noCalendar deleteFails keepNewest "host" "thor"
      twoBackups).2.removed = [] := by
    decide +kernel
  have hlisted : (listStore idManifest (some "host") (some "thor")
      (pruneStore idManifest "/mnt/nas" noCalendar deleteFails keepNewest "host" "thor"
        twoBackups).1).map Slot.id = ["20250102T000000Z"] := by
    decide +kernel
  intro htruth
  have hmem : oldBackup ∈ selectedSlots idManifest noCalendar keepNewest "host" "thor"
      twoBackups := by
    rw [hselected]
    exact List.mem_cons_self
  rcases htruth.ended oldBackup hmem with ⟨hin, -⟩ | ⟨-, hin⟩
  · rw [hremoved] at hin
    cases hin
  · have hid := List.mem_map_of_mem (f := Slot.id) hin
    rw [hlisted] at hid
    exact absurd hid (by decide)

end Orca.Backup
