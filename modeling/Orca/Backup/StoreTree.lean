import Mathlib.Data.List.Infix
import Orca.Backup.Retention

/-!
# Backup stores on disk

The tree of files behind a backup store, and what a prune does to it step by step: the model of
`all_located`, `check_prunable`, `remove_slot` and `prune` in `system/src/backup/store.rs`.

A tree is the list of its files, in the order in which the walk meets them, with the path of each
beneath the root; a directory is there as long as a file is below it.  A slot is the directory of a
manifest.  The walk looks into no directory that has a manifest, a reserved name or the name of a
payload (`Visible`).  What a step may touch is a region of the tree, and `SameOutside` says that
all else is left alone; `located_of_sameOutside` is what follows for the listing.
-/

namespace Orca.Backup

/-- The path of a file or a directory beneath the root of its store. -/
abbrev StorePath := List String

/-- A file of a store. -/
structure StoreFile where
  path : StorePath
  content : String
deriving DecidableEq

/-- `MANIFEST`. -/
def manifestName : String := "manifest.json"

/-- `PAYLOAD`. -/
def payloadName : String := "payload"

/-- `RESERVED_PREFIX`. -/
def reservedPrefix : String := ".orca-"

/-- Whether a name is of the store's own bookkeeping. -/
def isReserved (name : String) : Bool := reservedPrefix.toList.isPrefixOf name.toList

/-- A path is beneath a directory. -/
def Below (dir p : StorePath) : Prop := dir <+: p ∧ dir ≠ p

instance (dir p : StorePath) : Decidable (Below dir p) := inferInstanceAs (Decidable (_ ∧ _))

/-- The files beneath a directory. -/
def filesBelow (t : List StoreFile) (dir : StorePath) : List StoreFile :=
  t.filter fun f => Below dir f.path

/-- `validate_id`. -/
def validateId (id : String) : Bool :=
  id ≠ "" && id.utf8ByteSize ≤ 255 && id.toList.head? ≠ some '.' && '/' ∉ id.toList &&
    '\x00' ∉ id.toList

/-- What the manifest of a slot says. -/
structure Manifest where
  id : String
  kind : String
  inst : String
  createdMs : Int
  sizeBytes : Nat
  /-- The host that wrote it, when it is recorded. -/
  writer : Option BackupWriter

/-- The directory of a slot. -/
def Slot.dir {σ : Type} (s : Slot σ) : StorePath := s.collection ++ [s.id]

/-- A slot with the files in its directory. -/
abbrev StoredSlot := Slot (List StoreFile)

/-! ## Listing -/

/-- Whether the directory has a manifest. -/
def HasManifest (t : List StoreFile) (dir : StorePath) : Prop :=
  ∃ f ∈ t, f.path = dir ++ [manifestName]

instance (t : List StoreFile) (dir : StorePath) : Decidable (HasManifest t dir) :=
  inferInstanceAs (Decidable (∃ f ∈ t, _))

/-- Whether the walk gets to a directory: no name on the way is reserved or of a payload, and no
directory on the way, the root apart, has a manifest. -/
def Visible (t : List StoreFile) (dir : StorePath) : Prop :=
  (∀ name ∈ dir, isReserved name = false ∧ name ≠ payloadName) ∧
    ∀ d ∈ dir.inits, d ≠ [] → d ≠ dir → ¬HasManifest t d

instance (t : List StoreFile) (dir : StorePath) : Decidable (Visible t dir) :=
  inferInstanceAs (Decidable (_ ∧ ∀ d ∈ dir.inits, _))

section Store

variable (parse : String → Option Manifest)

/-- The slot whose manifest a file is, if it is one of the kind and of the instance.  A manifest at
the root makes no slot. -/
def locate (kind inst : Option String) (t : List StoreFile) (f : StoreFile) : Option StoredSlot :=
  match f.path.reverse with
  | name :: id :: rest =>
      if name = manifestName ∧ Visible t (rest.reverse ++ [id]) then
        match parse f.content with
        | some m =>
            if validateId m.id = true ∧ m.id = id ∧ kind.all (· = m.kind) = true ∧
                inst.all (· = m.inst) = true then
              some ⟨m.id, m.createdMs, m.sizeBytes, m.writer, rest.reverse,
                filesBelow t (rest.reverse ++ [id])⟩
            else none
        | none => none
      else none
  | _ => none

/-- `located`, before the sort. -/
def located (kind inst : Option String) (t : List StoreFile) : List StoredSlot :=
  t.filterMap (locate parse kind inst t)

/-- `list`. -/
def listStore (kind inst : Option String) (t : List StoreFile) : List StoredSlot :=
  newestFirst (located parse kind inst t)

/-! ## The steps of a prune -/

/-- The steps that fail in a prune, each by the directory it works on, with the cause. -/
structure StepFaults where
  probeCreate : StorePath → Option String
  probeRename : StorePath → Option String
  probeDelete : StorePath → Option String
  rename : StorePath → Option String
  /-- A slot that was renamed cannot be deleted, or not all of it. -/
  delete : StorePath → Option String
  /-- The files that a delete which fails leaves behind. -/
  left : StorePath → Bool

/-- A path as it is shown. -/
def displayPath (root : String) (p : StorePath) : String := root ++ "/" ++ "/".intercalate p

/-- A recursive delete of a directory, which may fail and leave some of its files. -/
def removeDirAll (cause : Option String) (left : StorePath → Bool) (dir : StorePath)
    (t : List StoreFile) : List StoreFile :=
  t.filter fun f => !decide (Below dir f.path) || (cause.isSome && left f.path)

/-- The probe of `check_prunable`. -/
def probeDir (dir : StorePath) : StorePath := dir ++ [".orca-prune-probe"]

/-- The name the probe is given. -/
def probeStagedDir (dir : StorePath) : StorePath := dir ++ [".orca-prune-probe-staged"]

/-- `check_prunable`.  The probe is empty and adds no file; what an earlier one left is deleted. -/
def checkPrunable (root : String) (faults : StepFaults) (dir : StorePath) (t : List StoreFile) :
    List StoreFile × Except String Unit :=
  let advice := " — a prune here will fail: "
  let t := removeDirAll (faults.probeDelete dir) faults.left (probeDir dir) t
  let t := removeDirAll (faults.probeDelete dir) faults.left (probeStagedDir dir) t
  match faults.probeCreate dir with
  | some cause => (t, .error ("cannot create in " ++ displayPath root dir ++ advice ++ cause))
  | none =>
      match faults.probeRename dir with
      | some cause =>
          (t, .error ("cannot rename within " ++ displayPath root dir ++ advice ++ cause))
      | none =>
          match faults.probeDelete dir with
          | some cause =>
              (t, .error ("cannot delete in " ++ displayPath root dir ++ advice ++ cause))
          | none => (t, .ok ())

/-- The name a slot is given before it is deleted. -/
def stagedDir {σ : Type} (s : Slot σ) : StorePath :=
  s.collection ++ [reservedPrefix ++ "removing-" ++ s.id]

/-- A file that is moved along with its directory. -/
def moveFile (source target : StorePath) (f : StoreFile) : StoreFile :=
  if Below source f.path then { f with path := target ++ f.path.drop source.length } else f

/-- Why the rename of a slot fails, if it does: by itself, or because its new name is taken. -/
def renameFails {σ : Type} (faults : StepFaults) (t : List StoreFile) (s : Slot σ) :
    Option String :=
  match faults.rename s.dir with
  | some cause => some cause
  | none =>
      if filesBelow t (stagedDir s) = [] then none else some "Directory not empty (os error 39)"

/-- `remove_slot`. -/
def removeSlot (root : String) (faults : StepFaults) (s : StoredSlot) (t : List StoreFile) :
    List StoreFile × Except String Unit :=
  if filesBelow t s.dir = [] then (t, .ok ())
  else
    match renameFails faults t s with
    | some cause =>
        (t, .error ("stage backup " ++ displayPath root s.dir ++ " for removal: " ++ cause))
    | none =>
        let moved := t.map (moveFile s.dir (stagedDir s))
        let rest := removeDirAll (faults.delete s.dir) faults.left (stagedDir s) moved
        match faults.delete s.dir with
        | some cause =>
            (rest, .error
              ("remove staged backup " ++ displayPath root (stagedDir s) ++ ": " ++ cause))
        | none => (rest, .ok ())

/-- `PruneFailure`, with the path of the payload. -/
structure RemovalFailure where
  /-- The backup that is not removed. -/
  id : String
  path : String
  error : String
deriving DecidableEq

/-- `PruneReport`. -/
structure RemovalReport where
  /-- How many backups were to be removed. -/
  selected : Nat
  removed : List StoredSlot
  failures : List RemovalFailure

/-- The failure of a removal. -/
def failureOf (root : String) (s : StoredSlot) (error : String) : RemovalFailure :=
  ⟨s.id, displayPath root (s.dir ++ [payloadName]), error⟩

/-- What the report says of a removal. -/
def RemovalReport.record (root : String) (report : RemovalReport) (s : StoredSlot) :
    Except String Unit → RemovalReport
  | .ok () => { report with removed := report.removed ++ [s] }
  | .error e => { report with failures := report.failures ++ [failureOf root s e] }

/-- One selected backup: the probe, when nothing has been tried yet, and the removal. -/
def pruneOne (root : String) (faults : StepFaults) (state : List StoreFile × RemovalReport)
    (s : StoredSlot) : List StoreFile × RemovalReport :=
  let (t, report) := state
  let report := { report with selected := report.selected + 1 }
  let (t, probe) :=
    if report.removed.isEmpty && report.failures.isEmpty then
      checkPrunable root faults s.collection t
    else (t, .ok ())
  let (t, outcome) :=
    match probe with
    | .error e => (t, .error e)
    | .ok () => removeSlot root faults s t
  (t, report.record root s outcome)

/-- The slots that are not to be kept, from the `i`-th on. -/
def notKept (keep : List Nat) : Nat → List StoredSlot → List StoredSlot
  | _, [] => []
  | i, s :: rest => if i ∈ keep then notKept keep (i + 1) rest else s :: notKept keep (i + 1) rest

/-- The slots that a prune selects. -/
def selectedSlots (C : Calendar) (r : Retention) (kind inst : String) (t : List StoreFile) :
    List StoredSlot :=
  if r.isUnbounded then []
  else
    let slots := listStore parse (some kind) (some inst) t
    notKept (retained C slots r) 0 slots

/-- `prune`: the tree it leaves, and the report. -/
def pruneStore (root : String) (C : Calendar) (faults : StepFaults) (r : Retention)
    (kind inst : String) (t : List StoreFile) : List StoreFile × RemovalReport :=
  (selectedSlots parse C r kind inst t).foldl (pruneOne root faults) (t, ⟨0, [], []⟩)

/-! ## What a step leaves alone -/

/-- The files outside of a region are the same, in the same order. -/
def SameOutside (R : StorePath → Prop) (t t' : List StoreFile) : Prop :=
  ∀ Q : StorePath → Bool, (∀ p, Q p = true → ¬R p) →
    t'.filter (fun f => Q f.path) = t.filter fun f => Q f.path

variable {parse} {R R' : StorePath → Prop} {t t' t'' : List StoreFile} {kind inst : Option String}
  {s : StoredSlot}

lemma SameOutside.refl (R : StorePath → Prop) (t : List StoreFile) : SameOutside R t t :=
  fun _ _ => rfl

lemma SameOutside.trans (h : SameOutside R t t') (h' : SameOutside R t' t'') :
    SameOutside R t t'' := fun Q hQ => (h' Q hQ).trans (h Q hQ)

lemma SameOutside.mono (h : SameOutside R t t') (hR : ∀ p, R p → R' p) : SameOutside R' t t' :=
  fun Q hQ => h Q fun p hp hRp => hQ p hp (hR p hRp)

/-- A delete touches the directory only. -/
lemma sameOutside_removeDirAll (cause : Option String) (left : StorePath → Bool)
    (dir : StorePath) (t : List StoreFile) :
    SameOutside (Below dir) t (removeDirAll cause left dir t) := by
  intro Q hQ
  unfold removeDirAll
  rw [List.filter_filter]
  refine List.filter_congr fun f _ => ?_
  by_cases hbelow : Below dir f.path
  · have hq : Q f.path = false := by
      by_contra hq
      exact hQ f.path (Bool.eq_true_of_not_eq_false hq) hbelow
    rw [hq, Bool.false_and]
  · rw [decide_eq_false hbelow, Bool.not_false, Bool.true_or, Bool.and_true]

/-- A moved file is beneath the new name. -/
lemma below_moveFile {source target : StorePath} {f : StoreFile} (h : Below source f.path) :
    Below target (moveFile source target f).path := by
  obtain ⟨⟨rest, hrest⟩, hne⟩ := h
  have hmoved : (moveFile source target f).path = target ++ rest := by
    rw [moveFile, if_pos ⟨⟨rest, hrest⟩, hne⟩, ← hrest]
    dsimp only
    rw [List.drop_left]
  rw [hmoved]
  refine ⟨List.prefix_append target rest, fun heq => hne ?_⟩
  have hnil : rest = [] := by simpa using heq.symm
  rw [← hrest, hnil, List.append_nil]

/-- A rename touches the two names only. -/
lemma sameOutside_map_moveFile (source target : StorePath) (t : List StoreFile) :
    SameOutside (fun p => Below source p ∨ Below target p) t
      (t.map (moveFile source target)) := by
  intro Q hQ
  induction t with
  | nil => rfl
  | cons f rest ih =>
    rw [List.map_cons, List.filter_cons, List.filter_cons, ih]
    by_cases hbelow : Below source f.path
    · have hold : ¬Q f.path = true := fun hq => hQ _ hq (Or.inl hbelow)
      have hnew : ¬Q (moveFile source target f).path = true :=
        fun hq => hQ _ hq (Or.inr (below_moveFile hbelow))
      rw [if_neg hold, if_neg hnew]
    · rw [moveFile, if_neg hbelow]

lemma SameOutside.filesBelow_eq (h : SameOutside R t t') {dir : StorePath}
    (hdir : ∀ p, Below dir p → ¬R p) : filesBelow t' dir = filesBelow t dir :=
  h (fun p => decide (Below dir p)) fun p hp => hdir p (of_decide_eq_true hp)

lemma SameOutside.mem_iff (h : SameOutside R t t') {f : StoreFile} (hf : ¬R f.path) :
    f ∈ t' ↔ f ∈ t := by
  have hsame := h (fun p => decide (p = f.path)) fun p hp hR => hf (of_decide_eq_true hp ▸ hR)
  have hmem : f ∈ t'.filter (fun g => decide (g.path = f.path)) ↔
      f ∈ t.filter fun g => decide (g.path = f.path) := by rw [hsame]
  simpa using hmem

lemma SameOutside.hasManifest_iff (h : SameOutside R t t') {dir : StorePath}
    (hdir : ¬R (dir ++ [manifestName])) : HasManifest t' dir ↔ HasManifest t dir := by
  constructor
  · rintro ⟨f, hf, hpath⟩
    exact ⟨f, (h.mem_iff (hpath ▸ hdir)).mp hf, hpath⟩
  · rintro ⟨f, hf, hpath⟩
    exact ⟨f, (h.mem_iff (hpath ▸ hdir)).mpr hf, hpath⟩

/-! ## The listing, slot by slot -/

/-- A file that is the manifest of a slot. -/
lemma locate_eq_some_iff {f : StoreFile} : locate parse kind inst t f = some s ↔
    f.path = s.dir ++ [manifestName] ∧ Visible t s.dir ∧ ∃ m, parse f.content = some m ∧
      validateId m.id = true ∧ kind.all (· = m.kind) = true ∧ inst.all (· = m.inst) = true ∧
      s = ⟨m.id, m.createdMs, m.sizeBytes, m.writer, s.collection, filesBelow t s.dir⟩ := by
  unfold locate
  constructor
  · intro h
    split at h
    · rename_i name id rest hpath
      split at h
      · rename_i hdir
        split at h
        · rename_i m hm
          split at h
          · rename_i hok
            obtain ⟨hvalid, rfl, hkind, hinst⟩ := hok
            obtain rfl := Option.some.inj h
            refine ⟨?_, hdir.2, m, hm, hvalid, hkind, hinst, rfl⟩
            have hlist := congrArg List.reverse hpath
            rw [List.reverse_reverse, List.reverse_cons, List.reverse_cons, hdir.1] at hlist
            exact hlist
          · cases h
        · cases h
      · cases h
    · cases h
  · rintro ⟨hpath, hvisible, m, hm, hvalid, hkind, hinst, hs⟩
    have hid : m.id = s.id := by rw [hs]
    have hrev : f.path.reverse = manifestName :: s.id :: s.collection.reverse := by
      rw [hpath, Slot.dir, List.reverse_append, List.reverse_append]
      rfl
    rw [hrev]
    dsimp only
    rw [List.reverse_reverse, if_pos ⟨rfl, hvisible⟩, hm]
    dsimp only
    rw [if_pos ⟨hvalid, hid, hkind, hinst⟩]
    exact congrArg some hs.symm

lemma mem_located_iff : s ∈ located parse kind inst t ↔
    ∃ f ∈ t, locate parse kind inst t f = some s := List.mem_filterMap

lemma mem_listStore_iff : s ∈ listStore parse kind inst t ↔ s ∈ located parse kind inst t := by
  unfold listStore newestFirst
  exact (List.perm_insertionSort _ _).mem_iff

/-- A slot that is listed has its manifest, and the walk gets to it. -/
lemma hasManifest_of_located (h : s ∈ located parse kind inst t) :
    HasManifest t s.dir ∧ Visible t s.dir := by
  obtain ⟨f, hf, hlocate⟩ := mem_located_iff.mp h
  obtain ⟨hpath, hvisible, -⟩ := locate_eq_some_iff.mp hlocate
  exact ⟨⟨f, hf, hpath⟩, hvisible⟩

/-- A slot outside of the region stays listed, with the same files. -/
lemma located_of_sameOutside (h : SameOutside R t t') (hs : s ∈ located parse kind inst t)
    (hbelow : ∀ p, Below s.dir p → ¬R p)
    (habove : ∀ d, d <+: s.dir → d ≠ [] → d ≠ s.dir → ¬R (d ++ [manifestName])) :
    s ∈ located parse kind inst t' := by
  obtain ⟨f, hf, hlocate⟩ := mem_located_iff.mp hs
  obtain ⟨hpath, ⟨hnames, hup⟩, m, hm, hvalid, hkind, hinst, hslot⟩ :=
    locate_eq_some_iff.mp hlocate
  have hmanifest : Below s.dir f.path := by
    rw [hpath]
    exact ⟨List.prefix_append _ _, fun heq => by simp at heq⟩
  refine mem_located_iff.mpr ⟨f, (h.mem_iff (hbelow _ hmanifest)).mpr hf, ?_⟩
  refine locate_eq_some_iff.mpr ⟨hpath, ⟨hnames, ?_⟩, m, hm, hvalid, hkind, hinst, ?_⟩
  · intro d hd hne hned hhas
    have hbegins := (List.mem_inits d s.dir).mp hd
    exact hup d hd hne hned ((h.hasManifest_iff (habove d hbegins hne hned)).mp hhas)
  · rw [h.filesBelow_eq hbelow]
    exact hslot

lemma dir_ne_of_empty {dir : StorePath} (h : filesBelow t dir = [])
    (hs : s ∈ located parse kind inst t) : s.dir ≠ dir := by
  rintro rfl
  obtain ⟨⟨f, hf, hpath⟩, -⟩ := hasManifest_of_located hs
  have hmem : f ∈ filesBelow t s.dir := by
    refine List.mem_filter.mpr ⟨hf, decide_eq_true ?_⟩
    rw [hpath]
    exact ⟨List.prefix_append _ _, fun heq => by simp at heq⟩
  rw [h] at hmem
  cases hmem

end Store

end Orca.Backup
