import Orca.Library.Invariant
import Orca.Storage.Quota

/-!
# Eviction

The second half of a run of the janitor: `planEvictions` picks items, first until every class is
within its budget and then until every volume is above its free floor, `removeUnit` deletes one item
with everything below it, and `apply` goes through the plan.

The lemmas say where the deleted paths lie.  A removal only deletes paths at or below its item
(`deletesBelow_removeUnit`), the plan only has items that may be evicted (`mayEvict_of_mem_plan`),
and so a run only deletes paths at or below such items (`deleted_enforceWith`).
-/

namespace Orca.Storage

open Invariant

/-! ## Planning -/

/-- `floor_bytes`: the free space a volume must have. -/
def floorBytes (total floorPct : Nat) : Nat :=
  total / 100 * floorPct % 2 ^ 64

/-- `class_used`: the bytes the items of a budget take. -/
def classUsed (units : List QuotaUnit) (classIdx : Nat) : Nat :=
  ((units.filter fun u => u.classIdx == classIdx && !u.crosses).map QuotaUnit.bytes).sum % 2 ^ 64

/-- `FloorShortfall`: a volume whose floor is out of reach. -/
structure FloorShortfall where
  volume : String
  /-- The free space it must have. -/
  needBytes : Nat
  /-- The free space that eviction would reach. -/
  reachableBytes : Nat

/-- `Plan`: the items to evict, by their index, and from which time on an item counts as used
again. -/
structure Plan where
  /-- The indices, in order; the `picked` ones. -/
  evict : List Nat
  usedAfter : List (Nat × Nat)
  shortfalls : List FloorShortfall

/-- The items with their indices, the least recently used one first. -/
def oldestFirst (units : List QuotaUnit) : List (QuotaUnit × Nat) :=
  units.zipIdx.insertionSort fun a b => a.1.newestUnix ≤ b.1.newestUnix

/-- What the budgets pick: the indices and the bytes this frees on each volume. -/
structure BudgetPick where
  evict : List Nat
  freed : String → Nat

/-- An item is picked for its budget. -/
def BudgetPick.push (acc : BudgetPick) (u : QuotaUnit) (i : Nat) : BudgetPick where
  evict := acc.evict ++ [i]
  freed := fun v => if u.volume = some v then (acc.freed v + u.bytes) % 2 ^ 64 else acc.freed v

/-- The loop over the items for one budget. -/
def pickForBudget (classIdx budgetBytes : Nat) :
    List (QuotaUnit × Nat) → Nat → BudgetPick → BudgetPick
  | [], _, acc => acc
  | (u, i) :: rest, used, acc =>
    if used ≤ budgetBytes then acc
    else if u.classIdx != classIdx || !u.evictable then
      pickForBudget classIdx budgetBytes rest used acc
    else pickForBudget classIdx budgetBytes rest (used - u.bytes) (acc.push u i)

/-- The loop over the budgets. -/
def pickForBudgets (s : Scan) : BudgetPick :=
  s.classes.zipIdx.foldl (fun acc c =>
    if !c.1.pathClass.rebuildable then acc
    else pickForBudget c.2 c.1.budgetBytes (oldestFirst s.units) (classUsed s.units c.2) acc)
    ⟨[], fun _ => 0⟩

/-- What the loop over the items has for one volume. -/
structure FloorTry where
  free : Nat
  units : Nat
  spent : Nat
  tentative : List Nat

/-- The loop over the items for one volume. -/
def pickForFloor (limits : FloorLimits) (now : Nat) (volume : String) (need : Nat)
    (picked : List Nat) : List (QuotaUnit × Nat) → FloorTry → FloorTry
  | [], acc => acc
  | (u, i) :: rest, acc =>
    if need ≤ acc.free then acc
    else if picked.contains i || !u.evictable || u.volume != some volume ||
        decide (now - u.newestUnix < limits.minAgeSecs) then
      pickForFloor limits now volume need picked rest acc
    else if limits.maxUnits ≤ acc.units ||
        decide (limits.maxBytes < saturatingAdd acc.spent u.bytes) then acc
    else pickForFloor limits now volume need picked rest
      ⟨saturatingAdd acc.free u.bytes, acc.units + 1, saturatingAdd acc.spent u.bytes,
        acc.tentative ++ [i]⟩

/-- The plan with what floor eviction has spent. -/
structure FloorPick where
  plan : Plan
  floorUnits : Nat
  floorSpent : Nat

/-- One volume. -/
def pickForVolume (s : Scan) (limits : FloorLimits) (now : Nat) (freed : String → Nat)
    (acc : FloorPick) (v : String × Volume) : FloorPick :=
  let need := floorBytes v.2.total limits.floorPct
  let start := saturatingAdd v.2.avail (freed v.1)
  if need ≤ start then acc
  else
    let t := pickForFloor limits now v.1 need acc.plan.evict (oldestFirst s.units)
      ⟨start, acc.floorUnits, acc.floorSpent, []⟩
    if t.free < need then
      { acc with plan.shortfalls := acc.plan.shortfalls ++ [⟨v.1, need, t.free⟩] }
    else
      { plan :=
          { evict := acc.plan.evict ++ t.tentative
            usedAfter := acc.plan.usedAfter ++
              t.tentative.map fun i => (i, now - limits.minAgeSecs)
            shortfalls := acc.plan.shortfalls }
        floorUnits := t.units
        floorSpent := t.spent }

/-- `plan_evictions`: the items to evict. -/
def planEvictions (s : Scan) (limits : FloorLimits) (now : Nat) : Plan :=
  let picked := pickForBudgets s
  ((s.volumes.insertionSort fun a b => a.1 ≤ b.1).foldl (pickForVolume s limits now picked.freed)
    ⟨⟨picked.evict, [], []⟩, 0, 0⟩).plan

/-! ## Removing -/

/-- `EvictionOutcome`: how an eviction ended. -/
inductive EvictionOutcome where
  | planned
  | deleted
  | skippedLocked
  | skippedUnsafe
  | failed
  deriving DecidableEq

/-- What stops a removal. -/
abbrev Refusal := EvictionOutcome × String

/-- `refuse`. -/
def refuse (why : String) : Refusal :=
  (.skippedUnsafe, why)

/-- What a removal has done so far. -/
structure Progress where
  /-- The deleted paths, those of earlier removals included. -/
  gone : List Path
  freed : Nat

/-- `unlinkat`: an entry is removed, which frees its bytes. -/
def unlinkAt (o : Observation) (p : Path) (bytes : Nat) (a : Progress) :
    Progress × Option Refusal :=
  match o.fails p with
  | some e => (a, some (.failed, e))
  | none => (⟨p :: a.gone, (a.freed + bytes) % 2 ^ 64⟩, none)

/-- A directory whose entries were gone through is removed when they are all gone. -/
def thenUnlink (o : Observation) (p : Path) (entries : Progress × Option Refusal) :
    Progress × Option Refusal :=
  match entries with
  | (a, some e) => (a, some e)
  | (a, none) => unlinkAt o p 0 a

/-- `MAX_DEPTH`. -/
def maxDepth : Nat := 512

mutual

/-- One entry of `remove_tree`, at a depth below the item. -/
def removeEntry (o : Observation) (dev depth : Nat) (p : Path) (n : Node) (a : Progress) :
    Progress × Option Refusal :=
  if p ∈ a.gone then (a, none)
  else if (o.stat p).dev ≠ dev then (a, some (refuse "crosses onto another filesystem"))
  else
    match n with
    | .dir readable entries =>
      if maxDepth ≤ depth then (a, some (refuse "directory tree is too deep"))
      else if !readable then (a, some (.failed, "Permission denied (os error 13)"))
      else thenUnlink o p (removeEntries o dev (depth + 1) p entries a)
    | _ => unlinkAt o p (diskBytes (o.stat p)) a

/-- `remove_tree`: the entries of the directory at `p`, one after the other. -/
def removeEntries (o : Observation) (dev depth : Nat) (p : Path) :
    List (String × Node) → Progress → Progress × Option Refusal
  | [], a => (a, none)
  | (name, n) :: entries, a =>
    match removeEntry o dev depth (p ++ [name]) n a with
    | (a, some e) => (a, some e)
    | (a, none) => removeEntries o dev depth p entries a

end

/-- The refusal of an item with a held lock. -/
def lockHeld : Refusal :=
  (.skippedLocked, "a cargo/CI lock is held")

/-- `remove_unit_inner`, from where the item is open: the locks are probed and the item goes. -/
def removeItem (tree : Node) (o : Observation) (dev : Nat) (p : Path) (n : Node) (a : Progress) :
    Progress × Option Refusal :=
  match n with
  | .dir readable entries =>
    if !readable then (a, some (refuse "item is no longer a real directory"))
    else if anyLockHeld tree o a.gone (itemLockFiles tree p) then (a, some lockHeld)
    else thenUnlink o p (removeEntries o dev 0 p entries a)
  | _ => unlinkAt o p (diskBytes (o.stat p)) a

/-- `remove_unit_inner`: the root and the item must be those of the scan. -/
def removeUnitInner (tree : Node) (o : Observation) (root : Path) (rootId : FileId) (name : String)
    (unitId : FileId) (usedAfter : Nat) (a : Progress) : Progress × Option Refusal :=
  match present tree a.gone root with
  | some (.dir true entries) =>
    if idOf o root (.dir true entries) ≠ rootId then
      (a, some (refuse "root changed since the scan"))
    else
      match present tree a.gone (root ++ [name]) with
      | none => (a, some (refuse "item vanished since the scan"))
      | some n =>
        if idOf o (root ++ [name]) n ≠ unitId then
          (a, some (refuse "item changed since the scan"))
        else if usedAfter < (o.stat (root ++ [name])).mtime then
          (a, some (refuse "item was used since the scan"))
        else if anyLockHeld tree o a.gone (lockFilesIn root) then (a, some lockHeld)
        else removeItem tree o rootId.dev (root ++ [name]) n a
  | _ => (a, some (refuse "root is no longer a real directory"))

/-- `remove_unit`: an item is deleted. -/
def removeUnit (tree : Node) (o : Observation) (u : QuotaUnit) (usedAfter : Nat)
    (gone : List Path) : Progress × Option Refusal :=
  match u.rootId, u.id with
  | some rootId, some id =>
    if usedAfter ≠ u64Max ∧ usedAfter < (measure tree o gone u.path (some rootId.dev)).newest then
      (⟨gone, 0⟩, some (refuse "item was used since the scan"))
    else removeUnitInner tree o u.root rootId u.name id usedAfter ⟨gone, 0⟩
  | _, _ => (⟨gone, 0⟩, some (refuse "item identity unknown"))

/-- `Eviction`: the report on one item. -/
structure Eviction where
  path : String
  pathClass : Option PathClass
  bytes : Nat
  /-- The time of the last change in it. -/
  lastUsedUnix : Nat
  outcome : EvictionOutcome
  freedBytes : Nat
  /-- Whether a part of the item was deleted. -/
  isPartial : Bool
  error : Option String

/-- The report on an item and the deleted paths after it. -/
def evict (tree : Node) (o : Observation) (s : Scan) (u : QuotaUnit) (usedAfter : Nat)
    (dryRun : Bool) (gone : List Path) : Eviction × List Path :=
  let r := if dryRun then (⟨gone, 0⟩, none) else removeUnit tree o u usedAfter gone
  let outcome :=
    if dryRun then .planned else r.2.elim EvictionOutcome.deleted fun refusal => refusal.1
  ({ path := pathText u.path
     pathClass := s.classes[u.classIdx]?.map ClassScan.pathClass
     bytes := u.bytes
     lastUsedUnix := u.newestUnix
     outcome := outcome
     freedBytes := r.1.freed
     isPartial := outcome != .deleted && decide (0 < r.1.freed)
     error := r.2.map Prod.snd }, r.1.gone)

/-- `apply`: the plan is gone through; `os` is what the system reports at each removal. -/
def apply (tree : Node) (s : Scan) (usedAfter : List (Nat × Nat)) (dryRun : Bool) :
    List Nat → (Nat → Observation) → List Path → List Eviction × List Path
  | [], _, gone => ([], gone)
  | i :: plan, os, gone =>
    match s.units[i]? with
    | none => apply tree s usedAfter dryRun plan (fun k => os (k + 1)) gone
    | some u =>
      let r := evict tree (os 0) s u ((usedAfter.reverse.lookup i).getD u64Max) dryRun gone
      let rest := apply tree s usedAfter dryRun plan (fun k => os (k + 1)) r.2
      (r.1 :: rest.1, rest.2)

/-- `StorageQuotaEnforceOutput`: the report on a run. -/
structure StorageQuotaEnforceOutput where
  /-- Whether nothing was to be deleted. -/
  dryRun : Bool
  evictions : List Eviction
  /-- The bytes that were freed, or would be. -/
  freedBytes : Nat
  floorShortfalls : List FloorShortfall

/-- `enforce_with`: a run of the janitor, with the deleted paths; `os 0` is what the system reports
at the scan, and `os (k + 1)` at the `k`-th removal. -/
def enforceWith (h : Host) (os : Nat → Observation) (cfg : QuotaConfig) (here : String) (now : Nat)
    (dryRun : Bool) : StorageQuotaEnforceOutput × List Path :=
  let s := scan h (os 0) cfg here true
  let plan := planEvictions s cfg.floorLimits now
  let done := apply h.tree s plan.usedAfter dryRun plan.evict (fun k => os (k + 1)) []
  ({ dryRun := dryRun
     evictions := done.1
     freedBytes := (done.1.map fun e =>
       if e.outcome = .planned then e.bytes else e.freedBytes).sum % 2 ^ 64
     floorShortfalls := plan.shortfalls }, done.2)

/-! ## What a removal deletes -/

/-- Everything below a deleted path is deleted. -/
def ClosedBelow (tree : Node) (gone : List Path) : Prop :=
  ∀ p ∈ gone, ∀ q, (tree.find (p ++ q)).isSome = true → p ++ q ∈ gone

/-- What a step of a removal does to the deleted paths: it adds paths at or below `p`, and with a
path everything below it. -/
structure DeletesBelow (tree : Node) (p : Path) (a b : Progress) : Prop where
  kept : a.gone ⊆ b.gone
  /-- What is new lies at or below the path. -/
  below : ∀ q ∈ b.gone, q ∈ a.gone ∨ p <+: q
  /-- No path is deleted before what is below it. -/
  closed : ClosedBelow tree a.gone → ClosedBelow tree b.gone

section Removal

variable {tree : Node} {o : Observation} {dev depth : Nat} {p : Path} {a b c : Progress}

lemma DeletesBelow.refl (tree : Node) (p : Path) (a : Progress) : DeletesBelow tree p a a :=
  ⟨List.Subset.refl _, fun _ hq => Or.inl hq, fun h => h⟩

lemma DeletesBelow.trans (hab : DeletesBelow tree p a b) (hbc : DeletesBelow tree p b c) :
    DeletesBelow tree p a c := by
  refine ⟨List.Subset.trans hab.kept hbc.kept, fun q hq => ?_, fun h => hbc.closed (hab.closed h)⟩
  rcases hbc.below q hq with hq | hq
  · exact hab.below q hq
  · exact Or.inr hq

lemma DeletesBelow.of_below {p' : Path} (h : DeletesBelow tree p' a b) (hp : p <+: p') :
    DeletesBelow tree p a b :=
  ⟨h.kept, fun q hq => (h.below q hq).imp id hp.trans, h.closed⟩

/-- Removing an entry that has nothing left below it. -/
lemma deletesBelow_unlinkAt {n : Node} (hfind : tree.find p = some n)
    (hbelow : ∀ name q, (n.find (name :: q)).isSome = true → p ++ name :: q ∈ a.gone)
    (bytes : Nat) : DeletesBelow tree p a (unlinkAt o p bytes a).1 := by
  unfold unlinkAt
  split
  · exact DeletesBelow.refl tree p a
  · refine ⟨List.subset_cons_self _ _, fun q hq => ?_, fun h q hq r hr => ?_⟩
    · rcases List.mem_cons.mp hq with rfl | hq
      · exact Or.inr List.prefix_rfl
      · exact Or.inl hq
    · rcases List.mem_cons.mp hq with rfl | hq
      · cases r with
        | nil => exact (List.append_nil q).symm ▸ List.mem_cons_self
        | cons name r =>
          rw [Node.find_append, hfind, Option.bind_some] at hr
          exact List.mem_cons_of_mem _ (hbelow name r hr)
      · exact List.mem_cons_of_mem _ (h q hq r hr)

lemma mem_gone_unlinkAt {bytes : Nat} (h : (unlinkAt o p bytes a).2 = none) :
    p ∈ (unlinkAt o p bytes a).1.gone := by
  unfold unlinkAt at h ⊢
  split
  · rename_i e he
    rw [he] at h
    cases h
  · exact List.mem_cons_self

/-- A directory whose entries were gone through: the step deletes below it, and the directory itself
when it succeeds. -/
lemma deletesBelow_thenUnlink {entries : List (String × Node)} {r : Progress × Option Refusal}
    (hclosed : ClosedBelow tree a.gone) (hfind : tree.find p = some (.dir true entries))
    (hbelow : DeletesBelow tree p a r.1)
    (hdone : r.2 = none → ∀ name n, entries.lookup name = some n → p ++ [name] ∈ r.1.gone) :
    DeletesBelow tree p a (thenUnlink o p r).1 ∧
      ((thenUnlink o p r).2 = none → p ∈ (thenUnlink o p r).1.gone) := by
  obtain ⟨b, stopped⟩ := r
  cases stopped with
  | some e => exact ⟨hbelow, fun h => nomatch h⟩
  | none =>
    refine ⟨hbelow.trans (deletesBelow_unlinkAt hfind (fun name q hq => ?_) 0), mem_gone_unlinkAt⟩
    obtain ⟨entries, m, ⟨⟩, hm, -⟩ := Node.find_cons_isSome hq
    have hall := hbelow.closed hclosed _ (hdone rfl name m hm) q
    rw [List.append_assoc, List.singleton_append] at hall
    exact hall (by rwa [Node.find_append, hfind, Option.bind_some])

lemma deletesBelow_leaf {n : Node} (hfind : tree.find p = some n) (hleaf : n.fileType ≠ .dir)
    (bytes : Nat) : DeletesBelow tree p a (unlinkAt o p bytes a).1 := by
  refine deletesBelow_unlinkAt hfind (fun name q hq => ?_) bytes
  cases n with
  | dir readable entries => exact absurd rfl hleaf
  | file => cases hq
  | symlink => cases hq
  | other => cases hq

lemma find_entry {entries : List (String × Node)} (hfind : tree.find p = some (.dir true entries))
    {name : String} {n : Node} (hn : entries.lookup name = some n) :
    tree.find (p ++ [name]) = some n := by
  rw [Node.find_append, hfind]
  simp [Node.find, Node.readDir, hn]

end Removal

mutual

/-- **One entry.**  The removal of an entry deletes below it, and the entry itself when it
succeeds. -/
theorem deletesBelow_removeEntry (tree : Node) (o : Observation) (dev depth : Nat) (p : Path)
    (n : Node) (a : Progress) (hclosed : ClosedBelow tree a.gone)
    (hfind : tree.find p = some n ∨ p ∈ a.gone) :
    DeletesBelow tree p a (removeEntry o dev depth p n a).1 ∧
      ((removeEntry o dev depth p n a).2 = none → p ∈ (removeEntry o dev depth p n a).1.gone) := by
  by_cases hgone : p ∈ a.gone
  · rw [removeEntry.eq_def, if_pos hgone]
    exact ⟨DeletesBelow.refl tree p a, fun _ => hgone⟩
  rw [removeEntry.eq_def, if_neg hgone]
  have hfind := hfind.resolve_right hgone
  have hrefused : ∀ e : Refusal, DeletesBelow tree p a (a, some e).1 ∧
      ((a, some e).2 = none → p ∈ (a, some e).1.gone) := fun e =>
    ⟨DeletesBelow.refl tree p a, fun h => nomatch h⟩
  split
  · exact hrefused _
  · cases n with
    | dir readable entries =>
      dsimp only
      split
      · exact hrefused _
      · split
        · exact hrefused _
        · rename_i hreadable
          have hopen : readable = true := by simpa using hreadable
          subst hopen
          obtain ⟨hbelow, hdone⟩ := deletesBelow_removeEntries tree o dev (depth + 1) p entries a
            hclosed fun name m hm => Or.inl (find_entry hfind hm)
          exact deletesBelow_thenUnlink hclosed hfind hbelow hdone
    | file => exact ⟨deletesBelow_leaf hfind nofun _, mem_gone_unlinkAt⟩
    | symlink => exact ⟨deletesBelow_leaf hfind nofun _, mem_gone_unlinkAt⟩
    | other => exact ⟨deletesBelow_leaf hfind nofun _, mem_gone_unlinkAt⟩

/-- **The entries of a directory.** -/
theorem deletesBelow_removeEntries (tree : Node) (o : Observation) (dev depth : Nat) (p : Path)
    (entries : List (String × Node)) (a : Progress) (hclosed : ClosedBelow tree a.gone)
    (hlisted : ∀ name n, entries.lookup name = some n →
      tree.find (p ++ [name]) = some n ∨ p ++ [name] ∈ a.gone) :
    DeletesBelow tree p a (removeEntries o dev depth p entries a).1 ∧
      ((removeEntries o dev depth p entries a).2 = none → ∀ name n, entries.lookup name = some n →
        p ++ [name] ∈ (removeEntries o dev depth p entries a).1.gone) := by
  cases entries with
  | nil => exact ⟨DeletesBelow.refl tree p a, fun _ name n h => nomatch h⟩
  | cons e entries =>
    obtain ⟨name, n⟩ := e
    obtain ⟨hentry, hdone⟩ := deletesBelow_removeEntry tree o dev depth (p ++ [name]) n a hclosed
      (hlisted name n (by simp))
    have hbelow := hentry.of_below (List.prefix_append p [name])
    unfold removeEntries
    split
    · rename_i hresult
      rw [hresult] at hbelow
      exact ⟨hbelow, fun h => nomatch h⟩
    · rename_i b hresult
      rw [hresult] at hbelow hdone
      have hfirst : p ++ [name] ∈ b.gone := hdone rfl
      have hlater : ∀ name', name' ≠ name →
          ((name, n) :: entries).lookup name' = entries.lookup name' := by
        intro name' hname
        rw [List.lookup_cons, beq_false_of_ne hname]
      -- an entry with the name of the first one is deleted with it
      have hlisted' : ∀ name' m, entries.lookup name' = some m →
          tree.find (p ++ [name']) = some m ∨ p ++ [name'] ∈ b.gone := by
        intro name' m hm
        by_cases hname : name' = name
        · subst hname
          exact Or.inr hfirst
        · exact (hlisted name' m (by rw [hlater name' hname, hm])).imp id fun h => hbelow.kept h
      obtain ⟨hrest, hall⟩ := deletesBelow_removeEntries tree o dev depth p entries b
        (hbelow.closed hclosed) hlisted'
      refine ⟨hbelow.trans hrest, fun h name' m hm => ?_⟩
      by_cases hname : name' = name
      · subst hname
        exact hrest.kept hfirst
      · exact hall h name' m (by rwa [hlater name' hname] at hm)

end

/-! ## Removing as a whole -/

mutual

/-- Whether nothing in the layout stops the removal of an entry: no directory is closed and none is
too deep. -/
def removable (depth : Nat) : Node → Bool
  | .dir readable entries =>
    decide (depth < maxDepth) && readable && entriesRemovable (depth + 1) entries
  | _ => true

/-- Whether nothing in the layout stops the removal of the entries of a directory. -/
def entriesRemovable (depth : Nat) : List (String × Node) → Bool
  | [] => true
  | (_, n) :: entries => removable depth n && entriesRemovable depth entries

end

lemma unlinkAt_succeeds {o : Observation} (hfails : ∀ q, o.fails q = none) (p : Path) (bytes : Nat)
    (a : Progress) : (unlinkAt o p bytes a).2 = none := by
  simp only [unlinkAt, hfails]

lemma thenUnlink_succeeds {o : Observation} (hfails : ∀ q, o.fails q = none) {p : Path}
    {r : Progress × Option Refusal} (h : r.2 = none) : (thenUnlink o p r).2 = none := by
  obtain ⟨b, stopped⟩ := r
  cases h
  exact unlinkAt_succeeds hfails p 0 b

mutual

/-- The removal of an entry succeeds when neither the layout nor the system stops it. -/
theorem removeEntry_succeeds (o : Observation) (dev depth : Nat) (p : Path) (n : Node)
    (a : Progress) (hfails : ∀ q, o.fails q = none) (hdev : ∀ q, p <+: q → (o.stat q).dev = dev)
    (hn : removable depth n = true) : (removeEntry o dev depth p n a).2 = none := by
  by_cases hgone : p ∈ a.gone
  · rw [removeEntry.eq_def, if_pos hgone]
  rw [removeEntry.eq_def, if_neg hgone, if_neg (not_not.mpr (hdev p List.prefix_rfl))]
  cases n with
  | dir readable entries =>
    simp only [removable, Bool.and_eq_true, decide_eq_true_eq] at hn
    obtain ⟨⟨hdepth, rfl⟩, hentries⟩ := hn
    have hall := removeEntries_succeed o dev (depth + 1) p entries a hfails hdev hentries
    dsimp only
    rw [if_neg (Nat.not_le.mpr hdepth), if_neg (by simp)]
    exact thenUnlink_succeeds hfails hall
  | file => exact unlinkAt_succeeds hfails p _ a
  | symlink => exact unlinkAt_succeeds hfails p _ a
  | other => exact unlinkAt_succeeds hfails p _ a

/-- The removal of the entries of a directory succeeds when nothing stops it. -/
theorem removeEntries_succeed (o : Observation) (dev depth : Nat) (p : Path)
    (entries : List (String × Node)) (a : Progress) (hfails : ∀ q, o.fails q = none)
    (hdev : ∀ q, p <+: q → (o.stat q).dev = dev)
    (hentries : entriesRemovable depth entries = true) :
    (removeEntries o dev depth p entries a).2 = none := by
  cases entries with
  | nil => rfl
  | cons e entries =>
    obtain ⟨name, n⟩ := e
    simp only [entriesRemovable, Bool.and_eq_true] at hentries
    have hfirst := removeEntry_succeeds o dev depth (p ++ [name]) n a hfails
      (fun q hq => hdev q ((List.prefix_append p [name]).trans hq)) hentries.1
    unfold removeEntries
    split
    · rename_i hresult
      rw [hresult] at hfirst
      cases hfirst
    · exact removeEntries_succeed o dev depth p entries _ hfails hdev hentries.2

end

/-- Whether nothing in the layout stops the removal of an item. -/
def itemRemovable : Node → Bool
  | .dir readable entries => readable && entriesRemovable 0 entries
  | _ => true

/-! ## Removing an item -/

section Item

variable {tree : Node} {o : Observation}

/-- The removal of an open item deletes below it, and the item itself when it succeeds. -/
lemma deletesBelow_removeItem {dev : Nat} {p : Path} {n : Node} {a : Progress}
    (hclosed : ClosedBelow tree a.gone) (hfind : tree.find p = some n) :
    DeletesBelow tree p a (removeItem tree o dev p n a).1 ∧
      ((removeItem tree o dev p n a).2 = none → p ∈ (removeItem tree o dev p n a).1.gone) := by
  cases n with
  | dir readable entries =>
    unfold removeItem
    cases readable with
    | false => exact ⟨DeletesBelow.refl tree p a, fun h => nomatch h⟩
    | true =>
      simp only [Bool.not_true, Bool.false_eq_true, if_false]
      split
      · exact ⟨DeletesBelow.refl tree p a, fun h => nomatch h⟩
      · obtain ⟨hbelow, hdone⟩ := deletesBelow_removeEntries tree o dev 0 p entries a hclosed
          fun name m hm => Or.inl (find_entry hfind hm)
        exact deletesBelow_thenUnlink hclosed hfind hbelow hdone
  | file => exact ⟨deletesBelow_leaf hfind nofun _, mem_gone_unlinkAt⟩
  | symlink => exact ⟨deletesBelow_leaf hfind nofun _, mem_gone_unlinkAt⟩
  | other => exact ⟨deletesBelow_leaf hfind nofun _, mem_gone_unlinkAt⟩

lemma present_eq_some {gone : List Path} {p : Path} {n : Node} :
    present tree gone p = some n ↔ p ∉ gone ∧ tree.find p = some n := by
  unfold present
  split
  · rename_i h
    exact ⟨nofun, fun h' => absurd h h'.1⟩
  · rename_i h
    exact (and_iff_right h).symm

/-- **One item.**  The removal of an item deletes paths at or below its name in its root. -/
lemma deletesBelow_removeUnit (o : Observation) (u : QuotaUnit) (usedAfter : Nat)
    {gone : List Path} (hclosed : ClosedBelow tree gone) :
    DeletesBelow tree (u.root ++ [u.name]) ⟨gone, 0⟩ (removeUnit tree o u usedAfter gone).1 := by
  unfold removeUnit
  split
  · split
    · exact DeletesBelow.refl tree _ _
    · unfold removeUnitInner
      split
      · split
        · exact DeletesBelow.refl tree _ _
        · split
          · exact DeletesBelow.refl tree _ _
          · rename_i n hn
            split
            · exact DeletesBelow.refl tree _ _
            · split
              · exact DeletesBelow.refl tree _ _
              · split
                · exact DeletesBelow.refl tree _ _
                · exact (deletesBelow_removeItem hclosed (present_eq_some.mp hn).2).1
      · exact DeletesBelow.refl tree _ _
  · exact DeletesBelow.refl tree _ _

/-- The removal of an open item succeeds when neither the layout nor the system stops it. -/
lemma removeItem_succeeds {dev : Nat} {p : Path} {n : Node} (a : Progress)
    (hheld : ∀ q, o.held q = false) (hfails : ∀ q, o.fails q = none)
    (hdev : ∀ q, p <+: q → (o.stat q).dev = dev) (hn : itemRemovable n = true) :
    (removeItem tree o dev p n a).2 = none := by
  have hlocks : ∀ paths, anyLockHeld tree o a.gone paths = false := by
    intro paths
    simp [anyLockHeld, hheld]
  cases n with
  | dir readable entries =>
    simp only [itemRemovable, Bool.and_eq_true] at hn
    obtain ⟨rfl, hentries⟩ := hn
    unfold removeItem
    rw [hlocks]
    exact thenUnlink_succeeds hfails
      (removeEntries_succeed o dev 0 p entries a hfails hdev hentries)
  | file => exact unlinkAt_succeeds hfails p _ a
  | symlink => exact unlinkAt_succeeds hfails p _ a
  | other => exact unlinkAt_succeeds hfails p _ a

/-- **Removing an item.**  An item that is as the scan found it and that nothing stops is deleted,
or was before. -/
lemma mem_gone_removeUnit {u : QuotaUnit} {gone : List Path} {entries : List (String × Node)}
    {n : Node} {r : Path} {name : String} (hclosed : ClosedBelow tree gone)
    (hheld : ∀ q, o.held q = false) (hfails : ∀ q, o.fails q = none)
    (hmtime : ∀ q, (o.stat q).mtime = 0)
    (hdev : ∀ q, r ++ [name] <+: q → (o.stat q).dev = (o.stat r).dev)
    (hroot : u.root = r) (hname : u.name = name) (hpath : u.path = r ++ [name])
    (hdir : tree.find r = some (.dir true entries)) (hn : tree.find (r ++ [name]) = some n)
    (hrootId : u.rootId = some (idOf o r (.dir true entries)))
    (hid : u.id = some (idOf o (r ++ [name]) n)) (hremovable : itemRemovable n = true)
    (usedAfter : Nat) : r ++ [name] ∈ (removeUnit tree o u usedAfter gone).1.gone := by
  by_cases hgone : r ++ [name] ∈ gone
  · exact (deletesBelow_removeUnit o u usedAfter hclosed).kept hgone
  have hpresent : present tree gone (r ++ [name]) = some n := present_eq_some.mpr ⟨hgone, hn⟩
  -- a root that is gone would have taken the item with it
  have hopen : present tree gone r = some (.dir true entries) := by
    refine present_eq_some.mpr ⟨fun hmem => hgone ?_, hdir⟩
    exact hclosed r hmem [name] (by rw [hn]; rfl)
  have hquiet : (measure tree o gone (r ++ [name]) (some (o.stat r).dev)).newest = 0 := by
    rw [(walked_measure o _ hpresent).newest fun q _ => hmtime q]
    exact hmtime _
  have hlocks : anyLockHeld tree o gone (lockFilesIn r) = false := by
    simp [anyLockHeld, hheld]
  have hunit : removeUnit tree o u usedAfter gone =
      removeItem tree o (o.stat r).dev (r ++ [name]) n ⟨gone, 0⟩ := by
    simp only [removeUnit, hrootId, hid, hpath, hroot, hname, idOf, hquiet, Nat.not_lt_zero,
      and_false, if_false, removeUnitInner, hopen, hpresent, hmtime, hlocks, ne_eq,
      not_true_eq_false, Bool.false_eq_true]
  rw [hunit]
  exact (deletesBelow_removeItem hclosed hn).2
    (removeItem_succeeds _ hheld hfails hdev hremovable)

end Item

/-! ## The plan -/

section Plan

variable {s : Scan}

/-- The index of an item that may be evicted. -/
def MayEvict (s : Scan) (i : Nat) : Prop :=
  ∃ u, s.units[i]? = some u ∧ u.evictable = true

lemma mem_oldestFirst {units : List QuotaUnit} {u : QuotaUnit} {i : Nat} :
    (u, i) ∈ oldestFirst units ↔ units[i]? = some u := by
  rw [oldestFirst, List.mem_insertionSort, List.mem_zipIdx_iff_getElem?]

/-- A budget only picks items that may be evicted. -/
lemma mayEvict_pickForBudget {classIdx budgetBytes : Nat} {items : List (QuotaUnit × Nat)}
    (hitems : ∀ e ∈ items, s.units[e.2]? = some e.1) {used : Nat} {acc : BudgetPick}
    (hacc : ∀ i ∈ acc.evict, MayEvict s i) :
    ∀ i ∈ (pickForBudget classIdx budgetBytes items used acc).evict, MayEvict s i := by
  induction items generalizing used acc with
  | nil => exact hacc
  | cons e items ih =>
    obtain ⟨u, i⟩ := e
    have hrest : ∀ e ∈ items, s.units[e.2]? = some e.1 := fun e he =>
      hitems e (List.mem_cons_of_mem _ he)
    unfold pickForBudget
    split
    · exact hacc
    · split
      · exact ih hrest hacc
      · rename_i hpicked
        refine ih hrest fun j hj => ?_
        rcases List.mem_append.mp hj with hj | hj
        · exact hacc j hj
        · rw [List.mem_singleton.mp hj]
          refine ⟨u, hitems (u, i) List.mem_cons_self, ?_⟩
          simp only [Bool.or_eq_true, not_or] at hpicked
          simpa using hpicked.2

/-- A floor only picks items that may be evicted. -/
lemma mayEvict_pickForFloor {limits : FloorLimits} {now need : Nat} {volume : String}
    {picked : List Nat} {items : List (QuotaUnit × Nat)}
    (hitems : ∀ e ∈ items, s.units[e.2]? = some e.1) {acc : FloorTry}
    (hacc : ∀ i ∈ acc.tentative, MayEvict s i) :
    ∀ i ∈ (pickForFloor limits now volume need picked items acc).tentative, MayEvict s i := by
  induction items generalizing acc with
  | nil => exact hacc
  | cons e items ih =>
    obtain ⟨u, i⟩ := e
    have hrest : ∀ e ∈ items, s.units[e.2]? = some e.1 := fun e he =>
      hitems e (List.mem_cons_of_mem _ he)
    unfold pickForFloor
    split
    · exact hacc
    · split
      · exact ih hrest hacc
      · rename_i hpicked
        split
        · exact hacc
        · refine ih hrest fun j hj => ?_
          rcases List.mem_append.mp hj with hj | hj
          · exact hacc j hj
          · rw [List.mem_singleton.mp hj]
            refine ⟨u, hitems (u, i) List.mem_cons_self, ?_⟩
            simp only [Bool.or_eq_true, not_or] at hpicked
            simpa using hpicked.1.1.2

/-- **The plan.**  Every item of a plan may be evicted. -/
lemma mayEvict_of_mem_plan {limits : FloorLimits} {now i : Nat}
    (hi : i ∈ (planEvictions s limits now).evict) : MayEvict s i := by
  have hitems : ∀ e ∈ oldestFirst s.units, s.units[e.2]? = some e.1 := fun e he =>
    mem_oldestFirst.mp he
  have hbudgets : ∀ i ∈ (pickForBudgets s).evict, MayEvict s i := by
    unfold pickForBudgets
    generalize s.classes.zipIdx = classes
    refine foldl_invariant (I := fun acc : BudgetPick => ∀ i ∈ acc.evict, MayEvict s i)
      (fun c _ acc hacc => ?_) nofun
    split
    · exact hacc
    · exact mayEvict_pickForBudget hitems hacc
  have hfloors : ∀ vs : List (String × Volume), ∀ i ∈ (vs.foldl (pickForVolume s limits now
      (pickForBudgets s).freed) ⟨⟨(pickForBudgets s).evict, [], []⟩, 0, 0⟩).plan.evict,
      MayEvict s i := by
    intro vs
    refine foldl_invariant (I := fun acc : FloorPick => ∀ i ∈ acc.plan.evict, MayEvict s i)
      (fun v _ acc hacc => ?_) hbudgets
    unfold pickForVolume
    dsimp only
    split
    · exact hacc
    · split
      · exact hacc
      · intro i hi
        rcases List.mem_append.mp hi with hi | hi
        · exact hacc i hi
        · exact mayEvict_pickForFloor hitems (fun _ h => absurd h List.not_mem_nil) i hi
  exact hfloors _ i hi

/-- What a budget has picked stays picked. -/
lemma subset_pickForBudget (classIdx budgetBytes : Nat) (items : List (QuotaUnit × Nat))
    (used : Nat) (acc : BudgetPick) :
    acc.evict ⊆ (pickForBudget classIdx budgetBytes items used acc).evict := by
  induction items generalizing used acc with
  | nil => exact List.Subset.refl _
  | cons e items ih =>
    obtain ⟨u, i⟩ := e
    unfold pickForBudget
    split
    · exact List.Subset.refl _
    · split
      · exact ih used acc
      · exact List.Subset.trans (List.subset_append_left _ _) (ih _ (acc.push u i))

/-- A budget of zero bytes picks the only item that counts. -/
lemma mem_pickForBudget {classIdx i : Nat} {u : QuotaUnit} {items : List (QuotaUnit × Nat)}
    (hu : (u, i) ∈ items) (hclass : u.classIdx = classIdx) (hevictable : u.evictable = true)
    (hothers : ∀ e ∈ items, e ≠ (u, i) → e.1.classIdx = classIdx → e.1.evictable = true →
      e.1.bytes = 0)
    {used : Nat} (hused : 0 < used) (acc : BudgetPick) :
    i ∈ (pickForBudget classIdx 0 items used acc).evict := by
  induction items generalizing acc with
  | nil => cases hu
  | cons e items ih =>
    have hothers' : ∀ e ∈ items, e ≠ (u, i) → e.1.classIdx = classIdx → e.1.evictable = true →
        e.1.bytes = 0 := fun e he => hothers e (List.mem_cons_of_mem _ he)
    by_cases heq : e = (u, i)
    · subst heq
      unfold pickForBudget
      rw [if_neg (Nat.not_le.mpr hused), if_neg (by simp [hclass, hevictable])]
      exact subset_pickForBudget _ _ _ _ _ (List.mem_append_right _ List.mem_cons_self)
    · have hrest := (List.mem_cons.mp hu).resolve_left fun h => heq h.symm
      have hzero := hothers e List.mem_cons_self heq
      obtain ⟨w, j⟩ := e
      unfold pickForBudget
      rw [if_neg (Nat.not_le.mpr hused)]
      split
      · exact ih hrest hothers' acc
      · rename_i hpicked
        simp only [Bool.or_eq_true, not_or, bne_iff_ne, not_not, Bool.not_eq_true',
          Bool.not_eq_false] at hpicked
        rw [hzero hpicked.1 hpicked.2, Nat.sub_zero]
        exact ih hrest hothers' _

/-- What the budgets pick is in the plan. -/
lemma subset_plan (limits : FloorLimits) (now : Nat) :
    (pickForBudgets s).evict ⊆ (planEvictions s limits now).evict := by
  refine foldl_invariant (I := fun acc : FloorPick => (pickForBudgets s).evict ⊆ acc.plan.evict)
    (fun v _ acc hacc => ?_) (List.Subset.refl _)
  unfold pickForVolume
  dsimp only
  split
  · exact hacc
  · split
    · exact hacc
    · exact List.Subset.trans hacc (List.subset_append_left _ _)

end Plan

/-! ## A run -/

section Run

variable {tree : Node}

/-- The removal of a planned item deletes below it. -/
lemma deletesBelow_evict (o : Observation) (s : Scan) (u : QuotaUnit) (after : Nat)
    (dryRun : Bool) {gone : List Path} (hclosed : ClosedBelow tree gone) :
    gone ⊆ (evict tree o s u after dryRun gone).2 ∧
      ClosedBelow tree (evict tree o s u after dryRun gone).2 ∧
      ∀ q ∈ (evict tree o s u after dryRun gone).2, q ∈ gone ∨ u.root ++ [u.name] <+: q := by
  unfold evict
  cases dryRun with
  | true => exact ⟨List.Subset.refl _, hclosed, fun q hq => Or.inl hq⟩
  | false =>
    have h := deletesBelow_removeUnit o u after hclosed
    exact ⟨h.kept, h.closed hclosed, h.below⟩

/-- **The run over a plan.**  It deletes paths at or below the items of the plan, and with a path
everything below it. -/
lemma deleted_apply (s : Scan) (usedAfter : List (Nat × Nat)) (dryRun : Bool) (plan : List Nat)
    (os : Nat → Observation) {gone : List Path} (hclosed : ClosedBelow tree gone) :
    gone ⊆ (apply tree s usedAfter dryRun plan os gone).2 ∧
      ClosedBelow tree (apply tree s usedAfter dryRun plan os gone).2 ∧
      ∀ q ∈ (apply tree s usedAfter dryRun plan os gone).2, q ∈ gone ∨
        ∃ i ∈ plan, ∃ u, s.units[i]? = some u ∧ u.root ++ [u.name] <+: q := by
  induction plan generalizing os gone with
  | nil => exact ⟨List.Subset.refl _, hclosed, fun q hq => Or.inl hq⟩
  | cons i plan ih =>
    unfold apply
    split
    · obtain ⟨hkept, hclosed', hbelow⟩ := ih (fun k => os (k + 1)) hclosed
      refine ⟨hkept, hclosed', fun q hq => (hbelow q hq).imp id ?_⟩
      rintro ⟨j, hj, hu⟩
      exact ⟨j, List.mem_cons_of_mem _ hj, hu⟩
    · rename_i u hu
      obtain ⟨hkept, hclosed', hbelow⟩ := deletesBelow_evict (os 0) s u
        ((usedAfter.reverse.lookup i).getD u64Max) dryRun hclosed
      obtain ⟨hkept', hclosed'', hbelow'⟩ := ih (fun k => os (k + 1)) hclosed'
      refine ⟨List.Subset.trans hkept hkept', hclosed'', fun q hq => ?_⟩
      rcases hbelow' q hq with hq | ⟨j, hj, hu'⟩
      · exact (hbelow q hq).imp id fun hq => ⟨i, List.mem_cons_self, u, hu, hq⟩
      · exact Or.inr ⟨j, List.mem_cons_of_mem _ hj, hu'⟩

/-- An item of the plan that is removed whatever went before is deleted. -/
lemma mem_apply {s : Scan} {usedAfter : List (Nat × Nat)} {plan : List Nat} {o : Observation}
    {i : Nat} {u : QuotaUnit} {p : Path} (hi : i ∈ plan) (hu : s.units[i]? = some u)
    (hremoved : ∀ after gone, ClosedBelow tree gone → p ∈ (evict tree o s u after false gone).2)
    {gone : List Path} (hclosed : ClosedBelow tree gone) :
    p ∈ (apply tree s usedAfter false plan (fun _ => o) gone).2 := by
  induction plan generalizing gone with
  | nil => cases hi
  | cons j plan ih =>
    unfold apply
    by_cases hj : i = j
    · subst hj
      rw [hu]
      dsimp only
      have hclosed' := (deletesBelow_evict o s u ((usedAfter.reverse.lookup i).getD u64Max) false
        hclosed).2.1
      exact (deleted_apply s usedAfter false plan (fun _ => o) hclosed').1
        (hremoved _ gone hclosed)
    · have hrest := (List.mem_cons.mp hi).resolve_left hj
      split
      · exact ih hrest hclosed
      · exact ih hrest (deletesBelow_evict o s _ _ false hclosed).2.1

/-- **A whole run.**  Every deleted path lies at or below an item of the scan that may be evicted,
and with a path everything below it is deleted. -/
lemma deleted_enforceWith (h : Host) (os : Nat → Observation) (cfg : QuotaConfig) (here : String)
    (now : Nat) (dryRun : Bool) :
    ClosedBelow h.tree (enforceWith h os cfg here now dryRun).2 ∧
      ∀ q ∈ (enforceWith h os cfg here now dryRun).2, ∃ u ∈ (scan h (os 0) cfg here true).units,
        u.evictable = true ∧ u.root ++ [u.name] <+: q := by
  have hempty : ClosedBelow h.tree [] := nofun
  obtain ⟨-, hclosed, hbelow⟩ := deleted_apply (scan h (os 0) cfg here true)
    (planEvictions (scan h (os 0) cfg here true) cfg.floorLimits now).usedAfter dryRun
    (planEvictions (scan h (os 0) cfg here true) cfg.floorLimits now).evict (fun k => os (k + 1))
    hempty
  refine ⟨hclosed, fun q hq => ?_⟩
  rcases hbelow q hq with hq | ⟨i, hi, u, hu, hq⟩
  · cases hq
  · obtain ⟨u', hu', hevictable⟩ := mayEvict_of_mem_plan hi
    rw [hu] at hu'
    cases hu'
    exact ⟨u, List.mem_of_getElem? hu, hevictable, hq⟩

end Run

end Orca.Storage
