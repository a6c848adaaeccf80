import Orca.Storage.Eviction

/-!
# What the storage janitor spares

The disks of virtual machines are declared so that the janitor reports them and never deletes them;
the marker files are what lets it delete below a root at all.  Both can lie inside an item of
another budget, and a scan only compares whole paths.  A run spares them exactly if no item that it
may evict overlaps a declared disk or holds a marker file (`KeepsApart`); that every deleted path
lies strictly inside an accepted root of a rebuildable class holds in every run.
-/

namespace Orca.Storage

open Invariant

/-! ## What a configuration declares -/

/-- The accepted roots of a budget. -/
def acceptedRoots (h : Host) (cfg : QuotaConfig) (b : ClassBudget) : List Path :=
  (resolveRoots h b.pathClass b.roots (resolveBases h cfg.bases).1).1

/-- The paths that the patterns of a budget find, accepted as roots or not. -/
def declaredRoots (h : Host) (b : ClassBudget) : List Path :=
  b.roots.flatMap fun pattern =>
    match h.glob (expandTilde h.homeVar pattern) with
    | .error _ => []
    | .ok paths => paths.filterMap h.canonicalize

/-- The declared disks of virtual machines. -/
def vmDiskRoots (h : Host) (cfg : QuotaConfig) (here : String) : List Path :=
  ((applicable cfg here).filter fun b => b.pathClass == .vmDisk).flatMap (declaredRoots h)

/-- The marker files of the accepted roots of rebuildable classes. -/
def markerFiles (h : Host) (cfg : QuotaConfig) (here : String) : List Path :=
  ((applicable cfg here).filter fun b => b.pathClass.rebuildable).flatMap fun b =>
    (acceptedRoots h cfg b).flatMap fun r =>
      ((markerNames b.pathClass).map fun m => r ++ [m]).filter (isPlainFile h.tree)

/-- The items of one budget. -/
def itemsOf (h : Host) (cfg : QuotaConfig) (b : ClassBudget) : List Path :=
  (acceptedRoots h cfg b).flatMap (unitsOf h.tree b.pathClass)

/-- The items that a run may evict: those of the rebuildable classes, but for a path that an earlier
budget has as a disk of a virtual machine. -/
def evictableItems (h : Host) (cfg : QuotaConfig) (here : String) : List Path :=
  (applicable cfg here).zipIdx.flatMap fun e =>
    if e.1.pathClass.rebuildable then
      (itemsOf h cfg e.1).filter fun u => !((applicable cfg here).take e.2).any fun b =>
        b.pathClass == .vmDisk && (acceptedRoots h cfg b).contains u
    else []

/-- A path lies strictly inside an accepted root of a rebuildable class, which carries its marker
and lies strictly inside an accepted base. -/
def InsideRoot (h : Host) (cfg : QuotaConfig) (here : String) (p : Path) : Prop :=
  ∃ b ∈ applicable cfg here, b.pathClass.rebuildable = true ∧ ∃ r ∈ acceptedRoots h cfg b,
    hasClassMarker h.tree b.pathClass r = true ∧
    (∃ base ∈ (resolveBases h cfg.bases).1, base <+: r ∧ base ≠ r) ∧ r <+: p ∧ r ≠ p

/-- What a run must spare. -/
structure Spares (h : Host) (cfg : QuotaConfig) (here : String) (deleted : List Path) : Prop where
  /-- No deleted path is, contains or lies under a declared disk. -/
  vmDisks : ∀ p ∈ deleted, ∀ v ∈ vmDiskRoots h cfg here, ¬Overlaps p v
  /-- Every deleted path lies inside a root. -/
  inside : ∀ p ∈ deleted, InsideRoot h cfg here p
  /-- The marker files are still there. -/
  markers : ∀ m ∈ markerFiles h cfg here, m ∉ deleted

/-- No item that may be evicted overlaps a declared disk or holds a marker file. -/
def KeepsApart (h : Host) (cfg : QuotaConfig) (here : String) : Prop :=
  ∀ u ∈ evictableItems h cfg here, (∀ v ∈ vmDiskRoots h cfg here, ¬Overlaps u v) ∧
    ∀ m ∈ markerFiles h cfg here, ¬u <+: m

instance (h : Host) (cfg : QuotaConfig) (here : String) : Decidable (KeepsApart h cfg here) :=
  inferInstanceAs (Decidable (∀ u ∈ evictableItems h cfg here, _ ∧ _))

/-! ## Roots -/

section Roots

variable {h : Host} {cfg : QuotaConfig} {here : String} {b : ClassBudget} {r u : Path}

/-- Every accepted root has passed its checks. -/
lemma rootVerdict_of_accepted (hr : r ∈ acceptedRoots h cfg b) :
    rootVerdict h b.pathClass (resolveBases h cfg.bases).1 r = .ok () := by
  refine foldl_invariant (I := fun acc : List Path × List RefusedRoot =>
    ∀ r ∈ acc.1, rootVerdict h b.pathClass (resolveBases h cfg.bases).1 r = .ok ())
    (fun pattern _ acc hacc => ?_) (fun _ h => absurd h List.not_mem_nil) r hr
  unfold resolvePattern
  split
  · exact hacc
  · refine foldl_invariant (I := fun acc : List Path × List RefusedRoot =>
      ∀ r ∈ acc.1, rootVerdict h b.pathClass (resolveBases h cfg.bases).1 r = .ok ())
      (fun found _ acc hacc => ?_) hacc
    unfold resolveFound
    split
    · exact hacc
    · rename_i canon _
      split
      · rename_i hok
        split
        · exact hacc
        · intro r hr
          rcases List.mem_append.mp hr with hr | hr
          · exact hacc r hr
          · rw [List.mem_singleton.mp hr]
            exact hok
      · exact hacc

/-- An accepted root lies strictly inside an accepted base and carries its marker. -/
lemma accepted_root (hr : r ∈ acceptedRoots h cfg b) :
    hasClassMarker h.tree b.pathClass r = true ∧
      ∃ base ∈ (resolveBases h cfg.bases).1, base <+: r ∧ base ≠ r := by
  have hok := rootVerdict_of_accepted hr
  unfold rootVerdict at hok
  split at hok
  · cases hok
  · rename_i hcheck
    refine ⟨by_contra fun hmarker => ?_, ?_⟩
    · rw [if_neg hmarker] at hok
      cases hok
    · unfold checkRoot at hcheck
      split at hcheck
      · cases hcheck
      · split at hcheck
        · cases hcheck
        · split at hcheck
          · cases hcheck
          · rename_i hbase
            obtain ⟨base, hmem, hbelow, hne⟩ : ∃ base ∈ (resolveBases h cfg.bases).1,
                base <+: r ∧ ¬r = base := by simpa using hbase
            exact ⟨base, hmem, hbelow, fun heq => hne heq.symm⟩

/-- An item of a rebuildable class is an entry of its root. -/
lemma unit_eq (hclass : b.pathClass.rebuildable = true) (hu : u ∈ unitsOf h.tree b.pathClass r) :
    ∃ name n, u = r ++ [name] ∧ h.tree.find u = some n := by
  unfold unitsOf at hu
  rw [hclass, Bool.not_true, if_neg Bool.false_ne_true] at hu
  obtain ⟨⟨name, m⟩, hentry, rfl⟩ := List.mem_map.mp hu
  have hentry := (List.mem_filter.mp hentry).1
  cases hroot : h.tree.find r with
  | none =>
    rw [hroot] at hentry
    cases hentry
  | some root =>
    rw [hroot] at hentry
    obtain ⟨n, hn⟩ : ∃ n, root.readDir.lookup name = some n := by
      refine Option.isSome_iff_exists.mp ?_
      rw [List.lookup_isSome_iff]
      exact ⟨_, hentry, beq_self_eq_true name⟩
    refine ⟨name, n, rfl, ?_⟩
    rw [Node.find_append, hroot, Option.bind_some]
    simp [Node.find, hn]

end Roots

/-! ## The items of a scan -/

/-- An item is kept unless one with its path is. -/
def keepFirst (pending : List Pending) (p : Pending) : List Pending :=
  if p.path ∈ pending.map Pending.path then pending else pending ++ [p]

/-- What a budget lists, the `i`-th one. -/
def listedBy (h : Host) (o : Observation) (cfg : QuotaConfig) (b : ClassBudget) (i : Nat) :
    List Pending :=
  (acceptedRoots h cfg b).flatMap fun r => (unitsOf h.tree b.pathClass r).map fun u =>
    ⟨u, r, (h.tree.find r).map (idOf o r), i, b.pathClass⟩

/-- What the budgets list, one after the other. -/
def listed (h : Host) (o : Observation) (cfg : QuotaConfig) (here : String) : List Pending :=
  (applicable cfg here).zipIdx.flatMap fun e => listedBy h o cfg e.1 e.2

section Scan

variable {h : Host} {o : Observation} {cfg : QuotaConfig} {here : String}

lemma subset_keepFirst (acc : List Pending) (p : Pending) : acc ⊆ keepFirst acc p := by
  unfold keepFirst
  split
  · exact List.Subset.refl _
  · exact List.subset_append_left _ _

/-- An item that is kept is the first one listed with its path. -/
lemma first_of_mem_keepFirst {items acc : List Pending} {p : Pending}
    (hp : p ∈ items.foldl keepFirst acc) :
    p ∈ acc ∨ ∃ before after, items = before ++ p :: after ∧
      p.path ∉ acc.map Pending.path ∧ p.path ∉ before.map Pending.path := by
  induction items generalizing acc with
  | nil => exact Or.inl hp
  | cons q items ih =>
    rcases ih hp with hp | ⟨before, after, rfl, hacc, hbefore⟩
    · unfold keepFirst at hp
      split at hp
      · exact Or.inl hp
      · rename_i hq
        rcases List.mem_append.mp hp with hp | hp
        · exact Or.inl hp
        · rw [List.mem_singleton.mp hp]
          exact Or.inr ⟨[], items, rfl, hq, List.not_mem_nil⟩
    · -- the path was not kept with the first item either
      have hfirst : p.path ≠ q.path := by
        intro heq
        refine hacc (heq ▸ ?_)
        unfold keepFirst
        split
        · assumption
        · simp
      refine Or.inr ⟨q :: before, after, rfl, fun hmem => hacc ?_, ?_⟩
      · exact List.map_subset _ (subset_keepFirst acc q) hmem
      · rw [List.map_cons, List.mem_cons, not_or]
        exact ⟨hfirst, hbefore⟩

lemma path_mem_keepFirst {items : List Pending} {p : Pending} (hp : p ∈ items)
    (acc : List Pending) : p.path ∈ (items.foldl keepFirst acc).map Pending.path := by
  refine foldl_establishes (Q := fun acc : List Pending => p.path ∈ acc.map Pending.path) hp
    (fun acc => ?_) (fun q _ acc hacc => List.map_subset _ (subset_keepFirst acc q) hacc) acc
  unfold keepFirst
  split
  · assumption
  · simp

/-- The roots of a budget are gone through one after the other. -/
lemma foldl_collectRoot (h : Host) (o : Observation) (c : PathClass) (roots : List Path)
    (acc : Collected) :
    (roots.foldl (collectRoot h o c) acc).classes = acc.classes ∧
      (roots.foldl (collectRoot h o c) acc).pending = (roots.flatMap fun r =>
        (unitsOf h.tree c r).map fun u => (⟨u, r, (h.tree.find r).map (idOf o r),
          acc.classes.length, c⟩ : Pending)).foldl keepFirst acc.pending := by
  induction roots generalizing acc with
  | nil => exact ⟨rfl, rfl⟩
  | cons r roots ih =>
    obtain ⟨hclasses, hpending⟩ := ih (collectRoot h o c acc r)
    refine ⟨hclasses, ?_⟩
    rw [List.foldl_cons, hpending, List.flatMap_cons, List.foldl_append, List.foldl_map]
    rfl

/-- The budgets are gone through one after the other. -/
lemma foldl_collectBudget (h : Host) (o : Observation) (cfg : QuotaConfig)
    (budgets : List ClassBudget) (acc : Collected) :
    (budgets.foldl (collectBudget h o (resolveBases h cfg.bases).1) acc).classes =
        acc.classes ++ budgets.map (fun b => (⟨b.pathClass, b.budgetBytes, acceptedRoots h cfg b,
          (resolveRoots h b.pathClass b.roots (resolveBases h cfg.bases).1).2⟩ : ClassScan)) ∧
      (budgets.foldl (collectBudget h o (resolveBases h cfg.bases).1) acc).pending =
        ((budgets.zipIdx acc.classes.length).flatMap fun e => listedBy h o cfg e.1 e.2).foldl
          keepFirst acc.pending := by
  induction budgets generalizing acc with
  | nil => exact ⟨(List.append_nil _).symm, rfl⟩
  | cons b budgets ih =>
    obtain ⟨hclasses, hpending⟩ := ih (collectBudget h o (resolveBases h cfg.bases).1 acc b)
    obtain ⟨hkept, hroots⟩ := foldl_collectRoot h o b.pathClass (acceptedRoots h cfg b) acc
    have hclasses' : (collectBudget h o (resolveBases h cfg.bases).1 acc b).classes =
        acc.classes ++ [⟨b.pathClass, b.budgetBytes, acceptedRoots h cfg b,
          (resolveRoots h b.pathClass b.roots (resolveBases h cfg.bases).1).2⟩] :=
      congrArg (· ++ _) hkept
    have hpending' : (collectBudget h o (resolveBases h cfg.bases).1 acc b).pending =
        (listedBy h o cfg b acc.classes.length).foldl keepFirst acc.pending := hroots
    refine ⟨?_, ?_⟩
    · rw [List.foldl_cons, hclasses, hclasses', List.append_assoc, List.map_cons,
        List.singleton_append]
    · rw [List.foldl_cons, hpending, hclasses', hpending', List.length_append,
        List.length_singleton, List.zipIdx_cons, List.flatMap_cons, List.foldl_append]

lemma units_scan : (scan h o cfg here true).units =
    ((listed h o cfg here).foldl keepFirst []).map (measureUnit h o true) := by
  have hfound := (foldl_collectBudget h o cfg (applicable cfg here) ⟨[], [], []⟩).2
  exact congrArg (List.map (measureUnit h o true)) hfound

/-- What is listed comes from a root of its budget. -/
lemma mem_listed {p : Pending} : p ∈ listed h o cfg here ↔
    ∃ b, (applicable cfg here)[p.classIdx]? = some b ∧ p.pathClass = b.pathClass ∧
      p.root ∈ acceptedRoots h cfg b ∧ p.path ∈ unitsOf h.tree b.pathClass p.root ∧
      p.rootId = (h.tree.find p.root).map (idOf o p.root) := by
  unfold listed listedBy
  simp only [List.mem_flatMap, List.mem_map]
  constructor
  · rintro ⟨⟨b, i⟩, hb, r, hr, u, hu, rfl⟩
    exact ⟨b, List.mem_zipIdx_iff_getElem?.mp hb, rfl, hr, hu, rfl⟩
  · rintro ⟨b, hb, hclass, hroot, hpath, hid⟩
    refine ⟨(b, p.classIdx), List.mem_zipIdx_iff_getElem?.mpr hb, p.root, hroot, p.path, hpath, ?_⟩
    obtain ⟨path, root, rootId, classIdx, pathClass⟩ := p
    simp only at hclass hid
    rw [hclass, hid]

/-- The budgets list in their order. -/
lemma listed_ordered (h : Host) (o : Observation) (cfg : QuotaConfig) (here : String) :
    (listed h o cfg here).Pairwise fun p q => p.classIdx ≤ q.classIdx := by
  unfold listed
  have hidx : ∀ e ∈ (applicable cfg here).zipIdx, ∀ p ∈ listedBy h o cfg e.1 e.2,
      p.classIdx = e.2 := by
    rintro e - p hp
    simp only [listedBy, List.mem_flatMap, List.mem_map] at hp
    obtain ⟨r, -, u, -, rfl⟩ := hp
    rfl
  rw [List.pairwise_flatMap]
  constructor
  · intro e he
    refine List.pairwise_iff_forall_sublist.mpr fun {p q} hpq => ?_
    have hp := hidx e he p (hpq.subset List.mem_cons_self)
    have hq := hidx e he q (hpq.subset (List.mem_cons_of_mem _ List.mem_cons_self))
    rw [hp, hq]
  · have hsorted : (applicable cfg here).zipIdx.Pairwise fun e e' => e.2 ≤ e'.2 := by
      rw [List.pairwise_iff_getElem]
      intro i j hi hj hij
      rw [List.getElem_zipIdx, List.getElem_zipIdx]
      exact Nat.add_le_add_left hij.le 0
    refine hsorted.imp_of_mem fun {e e'} he he' hle p hp q hq => ?_
    rw [hidx e he p hp, hidx e' he' q hq]
    exact hle

/-- An item that is kept is listed, and no earlier budget lists its path. -/
lemma kept_first {p : Pending} (hp : p ∈ (listed h o cfg here).foldl keepFirst []) :
    p ∈ listed h o cfg here ∧
      ∀ q ∈ listed h o cfg here, q.path = p.path → p.classIdx ≤ q.classIdx := by
  rcases first_of_mem_keepFirst hp with hp | ⟨before, after, hsplit, -, hbefore⟩
  · cases hp
  refine ⟨?_, fun q hq hpath => ?_⟩
  · rw [hsplit]
    exact List.mem_append_right _ List.mem_cons_self
  · have hordered := listed_ordered h o cfg here
    rw [hsplit, List.pairwise_append, List.pairwise_cons] at hordered
    rw [hsplit, List.mem_append, List.mem_cons] at hq
    rcases hq with hq | rfl | hq
    · exact absurd (hpath ▸ List.mem_map_of_mem hq) hbefore
    · exact le_refl _
    · exact hordered.2.1.1 q hq

/-- The path of an item that may be evicted is the one of its entry in its root. -/
lemma unit_path {p : Pending} (hp : p ∈ listed h o cfg here)
    (hclass : p.pathClass.rebuildable = true) :
    p.path = p.root ++ [(measureUnit h o true p).name] ∧ ∃ n, h.tree.find p.path = some n := by
  obtain ⟨b, -, hb, -, hpath, -⟩ := mem_listed.mp hp
  rw [hb] at hclass
  obtain ⟨name, n, heq, hn⟩ := unit_eq hclass hpath
  refine ⟨?_, n, hn⟩
  rw [heq]
  simp [measureUnit, heq]

/-- **The scan.**  An item that may be evicted is one that the configuration lets the janitor
evict, and lies in an accepted root. -/
lemma mem_evictableItems {u : QuotaUnit} (hu : u ∈ (scan h o cfg here true).units)
    (hevictable : u.evictable = true) : u.root ++ [u.name] ∈ evictableItems h cfg here ∧
      ∃ b ∈ applicable cfg here, b.pathClass.rebuildable = true ∧
        u.root ∈ acceptedRoots h cfg b := by
  rw [units_scan] at hu
  obtain ⟨p, hkept, rfl⟩ := List.mem_map.mp hu
  obtain ⟨hp, hfirst⟩ := kept_first hkept
  obtain ⟨b, hb, hclass, hroot, hpath, -⟩ := mem_listed.mp hp
  have hrebuildable : p.pathClass.rebuildable = true := by
    simp only [QuotaUnit.evictable, Bool.and_eq_true] at hevictable
    exact hevictable.1.1
  have hentry := (unit_path hp hrebuildable).1
  rw [hclass] at hrebuildable
  refine ⟨?_, b, List.mem_of_getElem? hb, hrebuildable, hroot⟩
  change p.root ++ [(measureUnit h o true p).name] ∈ evictableItems h cfg here
  rw [← hentry]
  refine List.mem_flatMap.mpr ⟨(b, p.classIdx), List.mem_zipIdx_iff_getElem?.mpr hb, ?_⟩
  rw [if_pos hrebuildable, List.mem_filter]
  refine ⟨List.mem_flatMap.mpr ⟨p.root, hroot, hpath⟩, ?_⟩
  -- an earlier budget with the path as a disk would have listed it first
  rw [Bool.not_eq_true', List.any_eq_false]
  intro b' hb' hdisk
  simp only [Bool.and_eq_true, beq_iff_eq, List.contains_iff_mem] at hdisk
  obtain ⟨j, hj, hbj⟩ := List.mem_take_iff_getElem.mp hb'
  have hlisted : (⟨p.path, p.path, (h.tree.find p.path).map (idOf o p.path), j, b'.pathClass⟩ :
      Pending) ∈ listed h o cfg here := by
    refine mem_listed.mpr ⟨b', ?_, rfl, hdisk.2, ?_, rfl⟩
    · exact List.getElem?_eq_some_iff.mpr ⟨(Nat.lt_min.mp hj).2, hbj⟩
    · rw [hdisk.1]
      exact List.mem_singleton.mpr rfl
  exact absurd (hfirst _ hlisted rfl) (not_le.mpr (Nat.lt_min.mp hj).1)

/-- No path is kept twice. -/
lemma nodup_keepFirst (items : List Pending) :
    ((items.foldl keepFirst []).map Pending.path).Nodup := by
  refine foldl_invariant (I := fun acc : List Pending => (acc.map Pending.path).Nodup)
    (fun p _ acc hacc => ?_) List.nodup_nil
  unfold keepFirst
  split
  · exact hacc
  · rename_i hp
    rw [List.map_append, List.nodup_append]
    refine ⟨hacc, List.nodup_singleton _, fun q hq q' hq' heq => hp ?_⟩
    rw [List.map_singleton, List.mem_singleton] at hq'
    rwa [← hq', ← heq]

/-- The path of every item that may be evicted is kept, for a rebuildable class. -/
lemma exists_kept (o : Observation) {u : Path} (hu : u ∈ evictableItems h cfg here) :
    ∃ p ∈ (listed h o cfg here).foldl keepFirst [], p.path = u ∧
      p.pathClass.rebuildable = true := by
  obtain ⟨⟨b, i⟩, hb, hu⟩ := List.mem_flatMap.mp hu
  have hb := List.mem_zipIdx_iff_getElem?.mp hb
  by_cases hrebuildable : b.pathClass.rebuildable = true
  swap
  · rw [if_neg hrebuildable] at hu
    cases hu
  rw [if_pos hrebuildable, List.mem_filter, Bool.not_eq_true', List.any_eq_false] at hu
  obtain ⟨hitem, hearlier⟩ := hu
  obtain ⟨r, hr, hunit⟩ := List.mem_flatMap.mp hitem
  have hlisted : (⟨u, r, (h.tree.find r).map (idOf o r), i, b.pathClass⟩ : Pending) ∈
      listed h o cfg here := mem_listed.mpr ⟨b, hb, rfl, hr, hunit, rfl⟩
  obtain ⟨p, hp, hpath⟩ := List.mem_map.mp (path_mem_keepFirst hlisted [])
  refine ⟨p, hp, hpath, by_contra fun hdisk => ?_⟩
  -- the path is kept for an earlier budget, as a disk
  obtain ⟨hplisted, hfirst⟩ := kept_first hp
  obtain ⟨b', hb', hclass, hroot, hpunit, -⟩ := mem_listed.mp hplisted
  rw [hclass] at hdisk
  have hvm : b'.pathClass = .vmDisk := by
    cases hc : b'.pathClass with
    | vmDisk => rfl
    | cargoTarget => exact absurd (by rw [hc]; rfl) hdisk
    | ciCache => exact absurd (by rw [hc]; rfl) hdisk
    | tmp => exact absurd (by rw [hc]; rfl) hdisk
  have hlt : p.classIdx < i := by
    refine lt_of_le_of_ne (hfirst _ hlisted hpath.symm) fun heq => hdisk ?_
    rw [heq] at hb'
    have hsame : b = b' := Option.some.inj (hb.symm.trans hb')
    rwa [← hsame]
  have hself : p.root = u := by
    rw [hvm] at hpunit
    exact (List.mem_singleton.mp hpunit).symm.trans hpath
  refine hearlier b' (List.mem_take_iff_getElem.mpr ?_) ?_
  · obtain ⟨hlength, hget⟩ := List.getElem?_eq_some_iff.mp hb'
    exact ⟨p.classIdx, Nat.lt_min.mpr ⟨hlt, hlength⟩, hget⟩
  · rw [hself] at hroot
    simp [hvm, hroot]

end Scan

/-! ## Every run -/

section Runs

variable {h : Host} {cfg : QuotaConfig} {here : String}

/-- Every deleted path lies inside a root. -/
lemma inside_enforceWith (os : Nat → Observation) (now : Nat) (dryRun : Bool) :
    ∀ p ∈ (enforceWith h os cfg here now dryRun).2, InsideRoot h cfg here p := by
  intro p hp
  obtain ⟨u, hu, hevictable, hbelow⟩ := (deleted_enforceWith h os cfg here now dryRun).2 p hp
  obtain ⟨-, b, hb, hrebuildable, hroot⟩ := mem_evictableItems hu hevictable
  obtain ⟨hmarker, hbase⟩ := accepted_root hroot
  refine ⟨b, hb, hrebuildable, u.root, hroot, hmarker, hbase,
    (List.prefix_append _ _).trans hbelow, fun heq => ?_⟩
  have hlength := hbelow.length_le
  rw [← heq, List.length_append, List.length_singleton] at hlength
  omega

/-- **Sparing.**  A run spares the disks and the marker files when they lie apart from the items. -/
lemma spares_of_keepsApart (hapart : KeepsApart h cfg here) (os : Nat → Observation) (now : Nat)
    (dryRun : Bool) : Spares h cfg here (enforceWith h os cfg here now dryRun).2 := by
  have hbelow : ∀ p ∈ (enforceWith h os cfg here now dryRun).2,
      ∃ u ∈ evictableItems h cfg here, u <+: p := by
    intro p hp
    obtain ⟨u, hu, hevictable, hbelow⟩ := (deleted_enforceWith h os cfg here now dryRun).2 p hp
    exact ⟨_, (mem_evictableItems hu hevictable).1, hbelow⟩
  refine ⟨fun p hp v hv hoverlaps => ?_, inside_enforceWith os now dryRun, fun m hm hdeleted => ?_⟩
  · obtain ⟨u, hu, hup⟩ := hbelow p hp
    exact (hapart u hu).1 v hv (overlaps_of_below hup hoverlaps)
  · obtain ⟨u, hu, hum⟩ := hbelow m hdeleted
    exact (hapart u hu).2 m hm hum

end Runs

/-! ## The worst case -/

/-- A system in which the root `r` is a volume of its own, the item `u` is all that takes space, no
lock is held and nothing fails. -/
def mountedAt (r u : Path) : Observation where
  stat := fun q => ⟨if r.isPrefixOf q then 1 else 0, 0, 0, if q = u then 1 else 0, 0⟩
  held := fun _ => false
  fails := fun _ => none

section WorstCase

variable {h : Host} {cfg : QuotaConfig} {here : String} {r : Path} {name : String}

lemma dev_of_below {q u : Path} (hq : r <+: q) : ((mountedAt r u).stat q).dev = 1 := by
  simp [mountedAt, hq]

lemma blocks_of_ne {q u : Path} (hq : q ≠ u) : ((mountedAt r u).stat q).blocks = 0 := by
  simp [mountedAt, hq]

/-- The item takes a block and does not cross. -/
lemma measure_item {n : Node} (hn : h.tree.find (r ++ [name]) = some n) :
    (measure h.tree (mountedAt r (r ++ [name])) [] (r ++ [name]) (some 1)).id =
        some (idOf (mountedAt r (r ++ [name])) (r ++ [name]) n) ∧
      (measure h.tree (mountedAt r (r ++ [name])) [] (r ++ [name]) (some 1)).bytes = 512 ∧
      (measure h.tree (mountedAt r (r ++ [name])) [] (r ++ [name]) (some 1)).crosses = false := by
  have hwalked := walked_measure (mountedAt r (r ++ [name])) 1
    (present_eq_some.mpr ⟨List.not_mem_nil, hn⟩)
  have hbytes : diskBytes ((mountedAt r (r ++ [name])).stat (r ++ [name])) = 512 := by
    simp [diskBytes, mountedAt, u64Max]
  have hdev : ∀ q, r ++ [name] <+: q → ((mountedAt r (r ++ [name])).stat q).dev = 1 :=
    fun q hq => dev_of_below ((List.prefix_append r [name]).trans hq)
  refine ⟨hwalked.id, ?_, ?_⟩
  · rw [hwalked.bytes (fun q hq => blocks_of_ne hq.2.symm)]
    · exact hbytes
    · exact min_le_right _ _
  · rw [hwalked.within fun q hq => hdev q hq.1, hdev _ List.prefix_rfl]
    rfl

/-- Every other item of a rebuildable class takes no space or crosses onto the volume. -/
lemma measure_others {o : Observation} (ho : o = mountedAt r (r ++ [name]))
    (hr : (h.tree.find r).isSome = true) {p : Pending} (hp : p ∈ listed h o cfg here)
    (hclass : p.pathClass.rebuildable = true) (hne : p.path ≠ r ++ [name])
    (hcrosses : (measureUnit h o true p).crosses = false) :
    (measureUnit h o true p).bytes = 0 := by
  obtain ⟨hpath, n, hn⟩ := unit_path hp hclass
  obtain ⟨b, -, -, -, -, hrootId⟩ := mem_listed.mp hp
  have hroot : ∃ root, h.tree.find p.root = some root := by
    rw [hpath, Node.find_append] at hn
    cases hroot : h.tree.find p.root with
    | none =>
      rw [hroot] at hn
      cases hn
    | some root => exact ⟨root, rfl⟩
  obtain ⟨root, hroot⟩ := hroot
  rw [hroot] at hrootId
  have hmeasure : measure h.tree o [] p.path (p.rootId.map FileId.dev) =
      measure h.tree o [] p.path (some (o.stat p.root).dev) := by
    rw [hrootId]
    rfl
  change (measure h.tree o [] p.path (p.rootId.map FileId.dev)).crosses = false at hcrosses
  change (measure h.tree o [] p.path (p.rootId.map FileId.dev)).bytes = 0
  rw [hmeasure] at hcrosses ⊢
  by_cases habove : p.path <+: r ++ [name]
  · -- an item above the volume has its root above it too
    obtain ⟨rest, hrest⟩ : p.path <+: r := by
      rcases List.prefix_concat_iff.mp habove with heq | hstrict
      · exact absurd heq hne
      · exact hstrict
    have houter : ¬r <+: p.root := by
      intro hle
      have hlength := hle.length_le
      rw [← hrest, hpath, List.length_append, List.length_append, List.length_singleton] at hlength
      omega
    have hdevRoot : (o.stat p.root).dev = 0 := by
      rw [ho]
      simp [mountedAt, houter]
    have hdev : (o.stat (p.path ++ rest)).dev ≠ (o.stat p.root).dev := by
      rw [hrest, hdevRoot, ho, dev_of_below List.prefix_rfl]
      exact Nat.one_ne_zero
    rw [crosses_measure (by rwa [hrest]) hdev] at hcrosses
    cases hcrosses
  · have hzero : ∀ q, p.path <+: q → (o.stat q).blocks = 0 := by
      rintro q hq
      rw [ho]
      refine blocks_of_ne ?_
      rintro rfl
      exact habove hq
    have hown : diskBytes (o.stat p.path) = 0 := by
      simp [diskBytes, hzero p.path List.prefix_rfl]
    have hwalked := walked_measure o (o.stat p.root).dev (present_eq_some.mpr
      ⟨List.not_mem_nil, hn⟩)
    rw [hwalked.bytes (fun q hq => hzero q hq.1)]
    · exact hown
    · exact min_le_right _ _

/-- What is at another place than the marked one is among the others. -/
lemma mem_of_getElem?_ne {α : Type} {before after : List α} {x y : α} {j : Nat}
    (hj : (before ++ x :: after)[j]? = some y) (hne : j ≠ before.length) : y ∈ before ++ after := by
  rcases Nat.lt_or_gt_of_ne hne with hlt | hgt
  · rw [List.getElem?_append_left hlt] at hj
    exact List.mem_append_left _ (List.mem_of_getElem? hj)
  · obtain ⟨k, rfl⟩ := Nat.exists_eq_add_of_lt hgt
    rw [Nat.add_assoc, List.getElem?_append_right (Nat.le_add_right _ _), Nat.add_sub_cancel_left,
      List.getElem?_cons_succ] at hj
    exact List.mem_append_right _ (List.mem_of_getElem? hj)

/-- The bytes of the items of a budget are those of the only one that counts. -/
lemma classUsed_eq {units before after : List QuotaUnit} {u : QuotaUnit}
    (hsplit : units = before ++ u :: after) (hcrosses : u.crosses = false)
    (hothers : ∀ w ∈ before ++ after, w.classIdx = u.classIdx → w.crosses = false → w.bytes = 0) :
    classUsed units u.classIdx = u.bytes % 2 ^ 64 := by
  have hzero : ∀ ws : List QuotaUnit, ws ⊆ before ++ after →
      ((ws.filter fun w =>
        w.classIdx == u.classIdx && !w.crosses).map QuotaUnit.bytes).sum = 0 := by
    intro ws hws
    refine List.sum_eq_zero_iff_forall_eq_nat.mpr fun x hx => ?_
    obtain ⟨w, hw, rfl⟩ := List.mem_map.mp hx
    obtain ⟨hmem, hcounts⟩ := List.mem_filter.mp hw
    simp only [Bool.and_eq_true, beq_iff_eq, Bool.not_eq_true'] at hcounts
    exact hothers w (hws hmem) hcounts.1 hcounts.2
  unfold classUsed
  rw [hsplit, List.filter_append, List.filter_cons_of_pos (by simp [hcrosses]), List.map_append,
    List.map_cons, List.sum_append, List.sum_cons, hzero before (List.subset_append_left _ _),
    hzero after (List.subset_append_right _ _), Nat.zero_add, Nat.add_zero]

lemma classes_scan {o : Observation} {i : Nat} {b : ClassBudget}
    (hb : (applicable cfg here)[i]? = some b) : ∃ c : ClassScan,
      (scan h o cfg here true).classes[i]? = some c ∧ c.pathClass = b.pathClass ∧
        c.budgetBytes = b.budgetBytes := by
  have hclasses : (scan h o cfg here true).classes = _ :=
    (foldl_collectBudget h o cfg (applicable cfg here) ⟨[], [], []⟩).1
  rw [hclasses, List.nil_append, List.getElem?_map, hb]
  exact ⟨_, rfl, rfl, rfl⟩

/-- With budgets of zero bytes, the only item of a budget that counts is in the plan. -/
lemma mem_plan_of_only {o : Observation} (hzero : ∀ b ∈ cfg.budgets, b.budgetBytes = 0)
    {before after : List Pending} {p : Pending}
    (hkept : (listed h o cfg here).foldl keepFirst [] = before ++ p :: after)
    (hclass : p.pathClass.rebuildable = true)
    (hevictable : (measureUnit h o true p).evictable = true)
    (hbytes : (measureUnit h o true p).bytes = 512)
    (hothers : ∀ q ∈ before ++ after, q.classIdx = p.classIdx →
      (measureUnit h o true q).crosses = false → (measureUnit h o true q).bytes = 0)
    (limits : FloorLimits) (now : Nat) : ∃ i,
      (scan h o cfg here true).units[i]? = some (measureUnit h o true p) ∧
        i ∈ (planEvictions (scan h o cfg here true) limits now).evict := by
  have hunits : (scan h o cfg here true).units = before.map (measureUnit h o true) ++
      measureUnit h o true p :: after.map (measureUnit h o true) := by
    rw [units_scan, hkept, List.map_append, List.map_cons]
  have hcrosses : (measureUnit h o true p).crosses = false := by
    simp only [QuotaUnit.evictable, Bool.and_eq_true, Bool.not_eq_true'] at hevictable
    exact hevictable.2
  have hat : (scan h o cfg here true).units[before.length]? = some (measureUnit h o true p) := by
    rw [hunits, List.getElem?_append_right (by simp)]
    simp
  have hrest : ∀ w ∈ before.map (measureUnit h o true) ++ after.map (measureUnit h o true),
      w.classIdx = p.classIdx → w.crosses = false → w.bytes = 0 := by
    intro w hw
    rw [← List.map_append] at hw
    obtain ⟨q, hq, rfl⟩ := List.mem_map.mp hw
    exact hothers q hq
  refine ⟨before.length, hat, subset_plan limits now ?_⟩
  -- the class of the item comes up in the loop over the budgets
  obtain ⟨b, hb, hpclass, -⟩ := mem_listed.mp (kept_first (hkept ▸ List.mem_append_right _
    List.mem_cons_self)).1
  obtain ⟨c, hc, hcclass, hcbytes⟩ := classes_scan (h := h) (o := o) hb
  have hbudget : c.budgetBytes = 0 :=
    hcbytes.trans (hzero b (List.mem_filter.mp (List.mem_of_getElem? hb)).1)
  refine foldl_establishes (Q := fun acc : BudgetPick => before.length ∈ acc.evict)
    (a := (c, p.classIdx)) (List.mem_zipIdx_iff_getElem?.mpr hc) (fun acc => ?_)
    (fun c' _ acc hacc => ?_) _
  · rw [hcclass, ← hpclass, hclass, Bool.not_true, if_neg Bool.false_ne_true, hbudget]
    have hused := classUsed_eq hunits hcrosses hrest
    refine mem_pickForBudget (mem_oldestFirst.mpr hat) rfl hevictable ?_ ?_ acc
    · rintro ⟨w, j⟩ hw hne hwclass hwevictable
      have hj := mem_oldestFirst.mp hw
      simp only [QuotaUnit.evictable, Bool.and_eq_true, Bool.not_eq_true'] at hwevictable
      refine hrest w (mem_of_getElem?_ne (hunits ▸ hj) fun heq => hne ?_) hwclass hwevictable.2
      rw [List.length_map] at heq
      rw [heq, hat] at hj
      rw [← Option.some.inj hj, heq]
    · change 0 < classUsed _ (measureUnit h o true p).classIdx
      rw [hused, hbytes]
      decide
  · split
    · exact hacc
    · exact subset_pickForBudget _ _ _ _ _ hacc

/-- A pending item as the worst case has it: an entry of its root that takes a block, with no lock
and no crossing. -/
structure WorstItem (h : Host) (o : Observation) (r : Path) (name : String) (n : Node)
    (p : Pending) : Prop where
  root : p.root = r
  path : p.path = r ++ [name]
  rebuildable : p.pathClass.rebuildable = true
  /-- The root is an open directory, whose identity is known. -/
  rootId : ∃ entries, h.tree.find r = some (.dir true entries) ∧
    p.rootId = some (idOf o r (.dir true entries))
  named : (measureUnit h o true p).name = name
  id : (measureUnit h o true p).id = some (idOf o (r ++ [name]) n)
  bytes : (measureUnit h o true p).bytes = 512
  evictable : (measureUnit h o true p).evictable = true

/-- The item is kept, as the worst case has it. -/
lemma exists_worstItem {n : Node} (hu : r ++ [name] ∈ evictableItems h cfg here)
    (hn : h.tree.find (r ++ [name]) = some n) :
    ∃ p ∈ (listed h (mountedAt r (r ++ [name])) cfg here).foldl keepFirst [],
      WorstItem h (mountedAt r (r ++ [name])) r name n p := by
  obtain ⟨p, hkept, hpath, hclass⟩ := exists_kept (mountedAt r (r ++ [name])) hu
  obtain ⟨hlisted, -⟩ := kept_first hkept
  obtain ⟨b, -, -, -, -, hrootId⟩ := mem_listed.mp hlisted
  obtain ⟨hroot, hname⟩ := List.append_inj' (hpath.symm.trans (unit_path hlisted hclass).1) rfl
  obtain ⟨entries, hdir⟩ : ∃ entries, h.tree.find r = some (.dir true entries) := by
    rw [Node.find_append] at hn
    cases hr : h.tree.find r with
    | none =>
      rw [hr] at hn
      cases hn
    | some root =>
      rw [hr, Option.bind_some] at hn
      obtain ⟨entries, -, rfl, -⟩ := Node.find_cons_isSome (q := []) (by rw [hn]; rfl)
      exact ⟨entries, rfl⟩
  rw [← hroot, hdir] at hrootId
  have hmeasure : measure h.tree (mountedAt r (r ++ [name])) [] p.path (p.rootId.map FileId.dev) =
      measure h.tree (mountedAt r (r ++ [name])) [] (r ++ [name]) (some 1) := by
    rw [hpath, hrootId, ← dev_of_below (u := r ++ [name]) (List.prefix_refl r)]
    rfl
  obtain ⟨hid, hbytes, hcrosses⟩ := measure_item hn
  rw [← hmeasure] at hid hbytes hcrosses
  refine ⟨p, hkept, hroot.symm, hpath, hclass, ⟨entries, hdir, hrootId⟩,
    (List.singleton_inj.mp hname).symm, hid, hbytes, ?_⟩
  have hlocks : ∀ paths, anyLockHeld h.tree (mountedAt r (r ++ [name])) [] paths = false := by
    intro paths
    simp [anyLockHeld, mountedAt]
  simp [QuotaUnit.evictable, measureUnit, hclass, hlocks, hcrosses]

/-- Nothing else of the budget of the item counts. -/
lemma others_of_worstItem {o : Observation} (ho : o = mountedAt r (r ++ [name]))
    {before after : List Pending} {n : Node} {p : Pending} (hp : WorstItem h o r name n p)
    (hkept : (listed h o cfg here).foldl keepFirst [] = before ++ p :: after) :
    ∀ q ∈ before ++ after, q.classIdx = p.classIdx →
      (measureUnit h o true q).crosses = false → (measureUnit h o true q).bytes = 0 := by
  intro q hq hidx hcrosses
  have hqmem : q ∈ before ++ p :: after := by
    rcases List.mem_append.mp hq with hq | hq
    · exact List.mem_append_left _ hq
    · exact List.mem_append_right _ (List.mem_cons_of_mem _ hq)
  have hpmem : p ∈ before ++ p :: after := List.mem_append_right _ List.mem_cons_self
  rw [← hkept] at hqmem hpmem
  obtain ⟨bp, hbp, hpclass, -⟩ := mem_listed.mp (kept_first hpmem).1
  obtain ⟨bq, hbq, hqclass, -⟩ := mem_listed.mp (kept_first hqmem).1
  have hclass : q.pathClass.rebuildable = true := by
    rw [hidx, hbp] at hbq
    cases hbq
    rw [hqclass, ← hpclass]
    exact hp.rebuildable
  have hne : q.path ≠ r ++ [name] := by
    intro heq
    have hnodup := nodup_keepFirst (listed h o cfg here)
    rw [hkept, List.map_append, List.map_cons, List.nodup_middle, List.nodup_cons,
      ← List.map_append] at hnodup
    rw [← hp.path] at heq
    exact hnodup.1 (heq ▸ List.mem_map_of_mem hq)
  obtain ⟨entries, hdir, -⟩ := hp.rootId
  exact measure_others ho (by rw [hdir]; rfl) (kept_first hqmem).1 hclass hne hcrosses

/-- **The worst case.**  With budgets of zero bytes there is a system in which an item that may be
evicted, and that nothing in the layout keeps from being removed, is deleted. -/
lemma deleted_in_worstCase (hzero : ∀ b ∈ cfg.budgets, b.budgetBytes = 0) {u : Path} {n : Node}
    (hu : u ∈ evictableItems h cfg here) (hn : h.tree.find u = some n)
    (hremovable : itemRemovable n = true) :
    ∃ o : Observation, ∀ now, u ∈ (enforceWith h (fun _ => o) cfg here now false).2 := by
  obtain ⟨r, name, rfl⟩ : ∃ r name, u = r ++ [name] := by
    obtain ⟨p, hkept, rfl, hclass⟩ := exists_kept (mountedAt [] []) hu
    exact ⟨_, _, (unit_path (kept_first hkept).1 hclass).1⟩
  obtain ⟨p, hkept, hp⟩ := exists_worstItem hu hn
  obtain ⟨before, after, hsplit⟩ := List.append_of_mem hkept
  refine ⟨mountedAt r (r ++ [name]), fun now => ?_⟩
  obtain ⟨i, hi, hplan⟩ := mem_plan_of_only hzero hsplit hp.rebuildable hp.evictable hp.bytes
    (others_of_worstItem rfl hp hsplit) cfg.floorLimits now
  refine mem_apply hplan hi (fun after gone hclosed => ?_) (fun _ h => absurd h List.not_mem_nil)
  obtain ⟨entries, hdir, hrootId⟩ := hp.rootId
  have hdev : ∀ q, r ++ [name] <+: q → ((mountedAt r (r ++ [name])).stat q).dev =
      ((mountedAt r (r ++ [name])).stat r).dev := by
    intro q hq
    rw [dev_of_below ((List.prefix_append r [name]).trans hq), dev_of_below List.prefix_rfl]
  exact mem_gone_removeUnit hclosed (fun _ => rfl) (fun _ => rfl) (fun _ => rfl) hdev hp.root
    hp.named hp.path hdir hn hrootId hp.id hremovable after

end WorstCase

/-! ## The janitor -/

/-- **The storage janitor.**  In every run every deleted path lies strictly inside an accepted root
of a rebuildable class.  When no item that may be evicted overlaps a declared disk or holds a marker
file, every run spares the disks and the marker files too; and when such an item can be removed as a
whole, there is a system in which a run with budgets of zero bytes does not. -/
theorem storage_janitor_spares (h : Host) (cfg : QuotaConfig) (here : String) :
    (∀ os now dryRun, ∀ p ∈ (enforceWith h os cfg here now dryRun).2, InsideRoot h cfg here p) ∧
    (KeepsApart h cfg here → ∀ os now dryRun,
      Spares h cfg here (enforceWith h os cfg here now dryRun).2) ∧
    ((∀ b ∈ cfg.budgets, b.budgetBytes = 0) →
      ∀ u ∈ evictableItems h cfg here, ((h.tree.find u).any itemRemovable = true) →
      ((∃ v ∈ vmDiskRoots h cfg here, Overlaps u v) ∨ ∃ m ∈ markerFiles h cfg here, u <+: m) →
      ∃ os, ∀ now, ¬Spares h cfg here (enforceWith h os cfg here now false).2) := by
  refine ⟨inside_enforceWith, spares_of_keepsApart, fun hzero u hu hitem hconflict => ?_⟩
  obtain ⟨n, hn, hremovable⟩ := (Option.any_eq_true _ _).mp hitem
  obtain ⟨o, hdeleted⟩ := deleted_in_worstCase hzero hu hn hremovable
  refine ⟨fun _ => o, fun now hspares => ?_⟩
  rcases hconflict with ⟨v, hv, hoverlaps⟩ | ⟨m, hm, rest, rfl⟩
  · exact hspares.vmDisks u (hdeleted now) v hv hoverlaps
  · refine hspares.markers _ hm ?_
    -- the marker file went with the item
    refine (deleted_enforceWith h (fun _ => o) cfg here now false).1 u (hdeleted now) rest ?_
    obtain ⟨b, -, hm⟩ := List.mem_flatMap.mp hm
    obtain ⟨r, -, hm⟩ := List.mem_flatMap.mp hm
    have hfile := (List.mem_filter.mp hm).2
    unfold isPlainFile at hfile
    exact Option.isSome_of_any hfile

/-- A host with a build directory below `/work`, in which a disk of a virtual machine lies, and
another disk beside it. -/
def buildHost : Host where
  tree := .dir true [("work", .dir true
    [("target", .dir true
      [("CACHEDIR.TAG", .file), ("debug", .dir true [("deps", .dir true [("blob", .file)]),
        ("disk.img", .file)])]),
      ("vm", .dir true [("disk.img", .file)])])]
  homeVar := "/root"
  home := some ["root"]
  temps := []
  canonicalize := fun s =>
    [("/work", ["work"]), ("/work/target", ["work", "target"]),
      ("/work/target/debug/disk.img", ["work", "target", "debug", "disk.img"]),
      ("/work/vm/disk.img", ["work", "vm", "disk.img"])].lookup s
  glob := fun pattern => .ok [pattern]
  volumeTable := []

/-- A budget of zero bytes for the build directory, and one for a disk. -/
def buildConfig (disk : String) : QuotaConfig where
  bases := ["/work"]
  floorPct := some 0
  floorMinAgeSecs := none
  floorMaxBytes := none
  floorMaxUnits := none
  budgets := [⟨.cargoTarget, 0, ["/work/target"], none⟩, ⟨.vmDisk, 0, [disk], none⟩]

/-- Every file takes a block, on one device. -/
def plainObservation : Observation where
  stat := fun _ => ⟨1, 0, 0, 1, 0⟩
  held := fun _ => false
  fails := fun _ => none

/-- The disk beside the build directory is spared by a run that deletes the build. -/
theorem storage_janitor_spares_disk_beside :
    ["work", "target", "debug", "deps", "blob"] ∈ (enforceWith buildHost (fun _ => plainObservation)
      (buildConfig "/work/vm/disk.img") "m" 100 false).2 ∧
    Spares buildHost (buildConfig "/work/vm/disk.img") "m" (enforceWith buildHost
      (fun _ => plainObservation) (buildConfig "/work/vm/disk.img") "m" 100 false).2 := by
  refine ⟨by decide +kernel, ?_⟩
  exact (storage_janitor_spares buildHost (buildConfig "/work/vm/disk.img") "m").2.1
    (by decide +kernel) (fun _ => plainObservation) 100 false

/-- The disk in the build directory is deleted with the build. -/
theorem storage_janitor_deletes_disk_inside :
    ["work", "target", "debug", "disk.img"] ∈
      vmDiskRoots buildHost (buildConfig "/work/target/debug/disk.img") "m" ∧
    ["work", "target", "debug", "disk.img"] ∈ (enforceWith buildHost (fun _ => plainObservation)
      (buildConfig "/work/target/debug/disk.img") "m" 100 false).2 := by
  decide +kernel

end Orca.Storage
