import Mathlib.Algebra.Order.BigOperators.Group.List
import Mathlib.Algebra.Order.Group.Nat
import Orca.Library.Budget
import Orca.Storage.Eviction

/-!
# The plan item by item

What `planEvictions` picks, for every scan whose items take fewer than `2 ^ 64` bytes.  The budgets
pick the shortest start of the items of each class, oldest first, that brings the class within its
budget (`budgetItems`).  A volume below its floor is then brought to it, or nothing is picked for
it; what is picked for volumes stays within the limits of a run, which go over all of them
(`FloorsDone`).
-/

namespace Orca.Storage

variable {s : Scan} {limits : FloorLimits} {now : Nat}

/-! ## What is said of a plan -/

/-- The bytes that an item takes. -/
def unitBytes (s : Scan) (i : Nat) : Nat := (s.units[i]?.map QuotaUnit.bytes).getD 0

/-- The bytes that some items take together. -/
def bytesOf (s : Scan) (items : List Nat) : Nat := (items.map (unitBytes s)).sum

/-- The items of a class among some items. -/
def ofClass (s : Scan) (classIdx : Nat) (items : List Nat) : List Nat :=
  items.filter fun i => s.units[i]?.map QuotaUnit.classIdx == some classIdx

/-- The items on a volume among some items. -/
def onVolume (s : Scan) (volume : String) (items : List Nat) : List Nat :=
  items.filter fun i => s.units[i]?.bind QuotaUnit.volume == some volume

/-- The items of a class that may be evicted, with their indices, the least recently used one
first. -/
def candidates (s : Scan) (classIdx : Nat) : List (QuotaUnit × Nat) :=
  (oldestFirst s.units).filter fun e => e.1.classIdx == classIdx && e.1.evictable

/-- The items of a class that may be evicted, the least recently used one first. -/
def evictableOf (s : Scan) (classIdx : Nat) : List Nat := (candidates s classIdx).map Prod.snd

/-- The bytes that the items of a class take, without those that are partly on another device. -/
def usedBytes (s : Scan) (classIdx : Nat) : Nat :=
  ((s.units.filter fun u => u.classIdx == classIdx && !u.crosses).map QuotaUnit.bytes).sum

/-- A plan that picks exactly what it should: `budget` for the budgets and then `floor` for the
floors of the volumes. -/
structure ExactPlan (s : Scan) (limits : FloorLimits) (now : Nat) (plan : Plan)
    (budget floor : List Nat) : Prop where
  /-- The plan is what is picked for the budgets and then what is picked for the floors. -/
  evict : plan.evict = budget ++ floor
  nodup : plan.evict.Nodup
  evictable : ∀ i ∈ plan.evict, MayEvict s i
  /-- The items of a class that may be evicted are listed, the least recently used one first. -/
  oldest : ∀ classIdx, ((candidates s classIdx).Pairwise fun a b =>
      a.1.newestUnix ≤ b.1.newestUnix) ∧ (evictableOf s classIdx).Nodup ∧
    ∀ i, i ∈ evictableOf s classIdx ↔
      ∃ u, s.units[i]? = some u ∧ u.classIdx = classIdx ∧ u.evictable = true
  /-- The budgets pick items of rebuildable classes. -/
  rebuildable : ∀ i ∈ budget, ∃ classIdx c, s.classes[classIdx]? = some c ∧
    c.pathClass.rebuildable = true ∧ i ∈ evictableOf s classIdx
  /-- Of a rebuildable class the budgets pick the shortest start of its items that may be evicted,
  oldest first, without which the class is within its budget, or all of them. -/
  shortest : ∀ classIdx c, s.classes[classIdx]? = some c → c.pathClass.rebuildable = true →
    ∃ n ≤ (evictableOf s classIdx).length,
      ofClass s classIdx budget = (evictableOf s classIdx).take n ∧
      (usedBytes s classIdx ≤ c.budgetBytes + bytesOf s ((evictableOf s classIdx).take n) ∨
        n = (evictableOf s classIdx).length) ∧
      ∀ m < n, c.budgetBytes + bytesOf s ((evictableOf s classIdx).take m) < usedBytes s classIdx
  /-- The floors pick no more items than a run may. -/
  maxUnits : floor.length ≤ limits.maxUnits
  /-- The floors pick no more bytes than a run may. -/
  maxBytes : bytesOf s floor ≤ limits.maxBytes
  /-- The floors pick items of the minimum age. -/
  aged : ∀ i ∈ floor, ∃ u, s.units[i]? = some u ∧ limits.minAgeSecs ≤ now - u.newestUnix
  /-- What the floors pick has a time from which on it counts as used again. -/
  cutoff : ∀ i ∈ floor, (i, now - limits.minAgeSecs) ∈ plan.usedAfter
  /-- The floors pick nothing that was picked for a budget. -/
  fresh : ∀ i ∈ floor, i ∉ budget
  /-- A volume that is below its floor after the budgets is brought to it, or nothing is picked for
  it and it is reported once. -/
  floors : ∀ v ∈ s.volumes,
    v.2.avail + bytesOf s (onVolume s v.1 budget) < floorBytes v.2.total limits.floorPct →
      floorBytes v.2.total limits.floorPct ≤ v.2.avail + bytesOf s (onVolume s v.1 budget) +
        bytesOf s (onVolume s v.1 floor) ∨
      onVolume s v.1 floor = [] ∧
        (plan.shortfalls.filter fun f => f.volume == v.1).length = 1

/-! ## Items with their indices -/

/-- The bytes of some items. -/
def itemBytes (items : List (QuotaUnit × Nat)) : Nat := (items.map fun e => e.1.bytes).sum

/-- The items on a volume. -/
def itemsOn (volume : String) (items : List (QuotaUnit × Nat)) : List (QuotaUnit × Nat) :=
  items.filter fun e => e.1.volume == some volume

lemma oldestFirst_perm (units : List QuotaUnit) : (oldestFirst units).Perm units.zipIdx :=
  List.perm_insertionSort _ _

lemma pairwise_oldestFirst (units : List QuotaUnit) :
    (oldestFirst units).Pairwise fun a b => a.1.newestUnix ≤ b.1.newestUnix := by
  have htotal : Std.Total fun a b : QuotaUnit × Nat => a.1.newestUnix ≤ b.1.newestUnix :=
    ⟨fun a b => Nat.le_total _ _⟩
  have htrans : IsTrans (QuotaUnit × Nat) fun a b => a.1.newestUnix ≤ b.1.newestUnix :=
    ⟨fun a b c => Nat.le_trans⟩
  exact List.pairwise_insertionSort _ _

lemma nodup_oldestFirst (units : List QuotaUnit) :
    ((oldestFirst units).map Prod.snd).Nodup := by
  rw [((oldestFirst_perm units).map Prod.snd).nodup_iff, List.zipIdx_map_snd]
  exact List.nodup_range'

/-- The items of a class that may be evicted. -/
lemma mem_evictableOf {classIdx i : Nat} : i ∈ evictableOf s classIdx ↔
    ∃ u, s.units[i]? = some u ∧ u.classIdx = classIdx ∧ u.evictable = true := by
  unfold evictableOf candidates
  rw [List.mem_map]
  constructor
  · rintro ⟨⟨u, j⟩, hmem, rfl⟩
    obtain ⟨hat, hcandidate⟩ := List.mem_filter.mp hmem
    rw [Bool.and_eq_true, beq_iff_eq] at hcandidate
    exact ⟨u, mem_oldestFirst.mp hat, hcandidate⟩
  · rintro ⟨u, hu, hclass, hevictable⟩
    refine ⟨(u, i), List.mem_filter.mpr ⟨mem_oldestFirst.mpr hu, ?_⟩, rfl⟩
    rw [Bool.and_eq_true, beq_iff_eq]
    exact ⟨hclass, hevictable⟩

/-- The bytes of some of the items are no more than those of all items. -/
lemma itemBytes_le {items : List (QuotaUnit × Nat)} (hnodup : (items.map Prod.snd).Nodup)
    (hitems : ∀ e ∈ items, e ∈ oldestFirst s.units) :
    itemBytes items ≤ (s.units.map QuotaUnit.bytes).sum := by
  obtain ⟨items', hperm, hsub⟩ := List.subperm_of_subset (List.Nodup.of_map _ hnodup) hitems
  have hindexed : s.units.zipIdx.map (fun e => e.1.bytes) = s.units.map QuotaUnit.bytes := by
    conv_rhs => rw [← List.zipIdx_map_fst 0 s.units, List.map_map]
    rfl
  have hall : ((oldestFirst s.units).map fun e => e.1.bytes).sum =
      (s.units.map QuotaUnit.bytes).sum := by
    rw [((oldestFirst_perm s.units).map fun e => e.1.bytes).sum_eq, hindexed]
  have hsame : itemBytes items = (items'.map fun e => e.1.bytes).sum := by
    unfold itemBytes
    rw [(hperm.symm.map fun e : QuotaUnit × Nat => e.1.bytes).sum_eq]
  rw [hsame, ← hall]
  exact (hsub.map _).sum_le_sum fun _ _ => Nat.zero_le _

/-- The bytes of some items, by their indices. -/
lemma bytesOf_map {items : List (QuotaUnit × Nat)}
    (hitems : ∀ e ∈ items, e ∈ oldestFirst s.units) :
    bytesOf s (items.map Prod.snd) = itemBytes items := by
  unfold bytesOf itemBytes
  rw [List.map_map]
  refine congrArg List.sum (List.map_congr_left fun e he => ?_)
  have hat : s.units[e.2]? = some e.1 := mem_oldestFirst.mp (hitems e he)
  simp only [Function.comp, unitBytes, hat, Option.map_some, Option.getD_some]

/-- The items on a volume, by their indices. -/
lemma onVolume_map (volume : String) {items : List (QuotaUnit × Nat)}
    (hitems : ∀ e ∈ items, e ∈ oldestFirst s.units) :
    onVolume s volume (items.map Prod.snd) = (itemsOn volume items).map Prod.snd := by
  unfold onVolume itemsOn
  rw [List.filter_map]
  refine congrArg (List.map Prod.snd) (List.filter_congr fun e he => ?_)
  have hat : s.units[e.2]? = some e.1 := mem_oldestFirst.mp (hitems e he)
  simp only [Function.comp, hat, Option.bind_some]

/-! ## The budgets -/

/-- What is picked for a budget. -/
def drained (s : Scan) (c : ClassScan × Nat) : List (QuotaUnit × Nat) :=
  if c.1.pathClass.rebuildable then
    Budget.drain (fun e => e.1.bytes) c.1.budgetBytes (classUsed s.units c.2) (candidates s c.2)
  else []

/-- What is picked for the budgets. -/
def budgetItems (s : Scan) : List (QuotaUnit × Nat) := s.classes.zipIdx.flatMap (drained s)

/-- The loop over the items for one budget drains the items of the class. -/
lemma pickForBudget_eq (classIdx budgetBytes : Nat) (items : List (QuotaUnit × Nat)) (used : Nat)
    (acc : BudgetPick) : pickForBudget classIdx budgetBytes items used acc =
      (Budget.drain (fun e => e.1.bytes) budgetBytes used
        (items.filter fun e => e.1.classIdx == classIdx && e.1.evictable)).foldl
          (fun acc e => acc.push e.1 e.2) acc := by
  induction items generalizing used acc with
  | nil => rfl
  | cons e items ih =>
    obtain ⟨u, i⟩ := e
    unfold pickForBudget
    by_cases hdone : used ≤ budgetBytes
    · have hnone : ∀ xs : List (QuotaUnit × Nat),
          Budget.drain (fun e => e.1.bytes) budgetBytes used xs = [] := by
        intro xs
        cases xs with
        | nil => rfl
        | cons x xs => exact if_pos hdone
      rw [if_pos hdone, hnone]
      rfl
    · rw [if_neg hdone]
      cases hpick : u.classIdx == classIdx && u.evictable with
      | false =>
        rw [if_pos (by revert hpick; cases u.evictable <;> simp), ih,
          List.filter_cons_of_neg (by rw [hpick]; exact Bool.false_ne_true)]
      | true =>
        rw [if_neg (by revert hpick; cases u.evictable <;> simp), ih,
          List.filter_cons_of_pos (p := fun e : QuotaUnit × Nat =>
            e.1.classIdx == classIdx && e.1.evictable) hpick, Budget.drain, if_neg hdone]
        rfl

/-- Items that are picked one after another. -/
lemma evict_foldl_push (items : List (QuotaUnit × Nat)) (acc : BudgetPick) :
    (items.foldl (fun acc e => acc.push e.1 e.2) acc).evict =
      acc.evict ++ items.map Prod.snd := by
  induction items generalizing acc with
  | nil => exact (List.append_nil _).symm
  | cons e items ih =>
    rw [List.foldl_cons, ih, List.map_cons]
    unfold BudgetPick.push
    rw [List.append_assoc]
    rfl

/-- The bytes that items free which are picked one after another. -/
lemma freed_foldl_push (volume : String) (items : List (QuotaUnit × Nat)) {acc : BudgetPick}
    (hacc : acc.freed volume < 2 ^ 64) :
    (items.foldl (fun acc e => acc.push e.1 e.2) acc).freed volume =
      (acc.freed volume + itemBytes (itemsOn volume items)) % 2 ^ 64 := by
  induction items generalizing acc with
  | nil => exact (Nat.mod_eq_of_lt hacc).symm
  | cons e items ih =>
    rw [List.foldl_cons]
    unfold itemsOn
    by_cases hvolume : e.1.volume = some volume
    · have hfreed : (acc.push e.1 e.2).freed volume = (acc.freed volume + e.1.bytes) % 2 ^ 64 :=
        if_pos hvolume
      rw [ih (by rw [hfreed]; exact Nat.mod_lt _ (by decide)), hfreed,
        List.filter_cons_of_pos (by simpa using hvolume), Nat.mod_add_mod, Nat.add_assoc]
      unfold itemBytes
      rw [List.map_cons, List.sum_cons]
      rfl
    · have hfreed : (acc.push e.1 e.2).freed volume = acc.freed volume := if_neg hvolume
      rw [ih (by rw [hfreed]; exact hacc), hfreed,
        List.filter_cons_of_neg (by simpa using hvolume)]
      rfl

/-- The loop over the budgets picks the items of one budget after another. -/
lemma pickForBudgets_eq (s : Scan) : pickForBudgets s =
    (budgetItems s).foldl (fun acc e => acc.push e.1 e.2) ⟨[], fun _ => 0⟩ := by
  unfold pickForBudgets budgetItems
  rw [List.foldl_flatMap]
  refine List.foldl_ext _ _ _ fun acc c _ => ?_
  unfold drained candidates
  cases c.1.pathClass.rebuildable with
  | false => rfl
  | true => exact pickForBudget_eq c.2 c.1.budgetBytes _ _ acc

lemma evict_pickForBudgets (s : Scan) :
    (pickForBudgets s).evict = (budgetItems s).map Prod.snd := by
  rw [pickForBudgets_eq, evict_foldl_push]
  rfl

/-- An item that is picked for the budgets is a candidate of a rebuildable class. -/
lemma mem_budgetItems {e : QuotaUnit × Nat} (he : e ∈ budgetItems s) :
    ∃ classIdx c, s.classes[classIdx]? = some c ∧ c.pathClass.rebuildable = true ∧
      e ∈ candidates s classIdx := by
  obtain ⟨c, hc, he⟩ := List.mem_flatMap.mp he
  unfold drained at he
  cases hclass : c.1.pathClass.rebuildable with
  | false =>
    rw [hclass] at he
    cases he
  | true =>
    rw [hclass] at he
    exact ⟨c.2, c.1, List.mem_zipIdx_iff_getElem?.mp hc, hclass,
      (Budget.drain_sublist _ _).subset he⟩

lemma mem_oldestFirst_of_mem_budgetItems :
    ∀ e ∈ budgetItems s, e ∈ oldestFirst s.units := by
  intro e he
  obtain ⟨_, _, -, -, hcandidate⟩ := mem_budgetItems he
  exact (List.mem_filter.mp hcandidate).1

lemma pairwise_classes (s : Scan) : s.classes.zipIdx.Pairwise fun c c' => c.2 ≠ c'.2 := by
  rw [← List.pairwise_map (f := Prod.snd) (R := (· ≠ ·)), List.zipIdx_map_snd]
  exact List.nodup_range'

lemma of_mem_drained {c : ClassScan × Nat} {e : QuotaUnit × Nat} (he : e ∈ drained s c) :
    s.units[e.2]? = some e.1 ∧ e.1.classIdx = c.2 := by
  unfold drained at he
  split at he
  · obtain ⟨hat, hcandidate⟩ := List.mem_filter.mp ((Budget.drain_sublist _ _).subset he)
    rw [Bool.and_eq_true, beq_iff_eq] at hcandidate
    exact ⟨mem_oldestFirst.mp hat, hcandidate.1⟩
  · cases he

/-- No item is picked for two budgets, or twice for one. -/
lemma nodup_budgetItems (s : Scan) : ((budgetItems s).map Prod.snd).Nodup := by
  unfold budgetItems
  rw [List.map_flatMap, List.nodup_flatMap]
  constructor
  · intro c _
    refine (nodup_oldestFirst s.units).sublist (List.Sublist.map _ ?_)
    unfold drained
    split
    · exact (Budget.drain_sublist _ _).trans List.filter_sublist
    · exact List.nil_sublist _
  · -- an item belongs to one class only
    refine (pairwise_classes s).imp fun {c c'} hne => ?_
    intro i hi hi'
    obtain ⟨e, he, rfl⟩ := List.mem_map.mp hi
    obtain ⟨e', he', hsame⟩ := List.mem_map.mp hi'
    obtain ⟨hat, hclass⟩ := of_mem_drained he
    obtain ⟨hat', hclass'⟩ := of_mem_drained he'
    rw [hsame, hat] at hat'
    rw [← Option.some.inj hat', hclass] at hclass'
    exact hne hclass'

/-- What the budgets free on a volume. -/
lemma freed_pickForBudgets (hbytes : (s.units.map QuotaUnit.bytes).sum < 2 ^ 64)
    (volume : String) :
    (pickForBudgets s).freed volume = itemBytes (itemsOn volume (budgetItems s)) := by
  have hsub : (itemsOn volume (budgetItems s)).Sublist (budgetItems s) := List.filter_sublist
  have hle := itemBytes_le ((hsub.map Prod.snd).nodup (nodup_budgetItems s)) fun e he =>
    mem_oldestFirst_of_mem_budgetItems e (hsub.subset he)
  rw [pickForBudgets_eq, freed_foldl_push volume (budgetItems s) (Nat.two_pow_pos 64),
    Nat.zero_add,
    Nat.mod_eq_of_lt (hle.trans_lt hbytes)]

lemma classUsed_eq_usedBytes (hbytes : (s.units.map QuotaUnit.bytes).sum < 2 ^ 64)
    (classIdx : Nat) :
    classUsed s.units classIdx = usedBytes s classIdx := by
  unfold classUsed usedBytes
  have hsub : (s.units.filter fun u => u.classIdx == classIdx && !u.crosses).Sublist s.units :=
    List.filter_sublist
  exact Nat.mod_eq_of_lt (((hsub.map QuotaUnit.bytes).sum_le_sum fun _ _ => Nat.zero_le _).trans_lt
    hbytes)

/-- The items of a class that are picked for the budgets are those that its own budget picks. -/
lemma ofClass_budgetItems {classIdx : Nat} {c : ClassScan} (hc : s.classes[classIdx]? = some c) :
    ofClass s classIdx ((budgetItems s).map Prod.snd) =
      (drained s (c, classIdx)).map Prod.snd := by
  have hown : ∀ c : ClassScan × Nat, c.2 = classIdx →
      ofClass s classIdx ((drained s c).map Prod.snd) = (drained s c).map Prod.snd := by
    intro c hsame
    refine List.filter_eq_self.mpr fun i hi => ?_
    obtain ⟨e, he, rfl⟩ := List.mem_map.mp hi
    obtain ⟨hat, hclass⟩ := of_mem_drained he
    rw [hat, Option.map_some, hclass, hsame]
    exact beq_self_eq_true _
  have hother : ∀ l : List (ClassScan × Nat), (∀ c ∈ l, c.2 ≠ classIdx) →
      ofClass s classIdx ((l.flatMap (drained s)).map Prod.snd) = [] := by
    intro l hl
    refine List.filter_eq_nil_iff.mpr fun i hi => ?_
    obtain ⟨e, he, rfl⟩ := List.mem_map.mp hi
    obtain ⟨c, hc, he⟩ := List.mem_flatMap.mp he
    obtain ⟨hat, hclass⟩ := of_mem_drained he
    rw [hat, Option.map_some, hclass]
    simpa using hl c hc
  -- the other budgets stand before and after this one
  obtain ⟨before, after, hsplit⟩ := List.append_of_mem
    ((List.mem_zipIdx_iff_getElem? (x := (c, classIdx))).mpr hc)
  have hdistinct := pairwise_classes s
  rw [hsplit, List.pairwise_append, List.pairwise_cons] at hdistinct
  obtain ⟨-, ⟨hafter, -⟩, hbefore⟩ := hdistinct
  have hfront := hother before fun c' hc' => hbefore c' hc' (c, classIdx) List.mem_cons_self
  have hback := hother after fun c' hc' => (hafter c' hc').symm
  unfold ofClass at hfront hback ⊢
  unfold budgetItems
  rw [hsplit, List.flatMap_append, List.flatMap_cons, List.map_append, List.map_append,
    List.filter_append, List.filter_append, hfront, hback, List.nil_append, List.append_nil]
  exact hown (c, classIdx) rfl

/-! ## The floors -/

lemma saturatingAdd_assoc (a b c : Nat) :
    saturatingAdd (saturatingAdd a b) c = saturatingAdd a (b + c) := by
  unfold saturatingAdd
  omega

/-- An item that may be picked for a volume. -/
def MayPick (limits : FloorLimits) (now : Nat) (volume : String) (picked : List Nat)
    (e : QuotaUnit × Nat) : Prop :=
  e.2 ∉ picked ∧ e.1.evictable = true ∧ e.1.volume = some volume ∧
    limits.minAgeSecs ≤ now - e.1.newestUnix

/-- What the loop over the items for one volume has after some more items. -/
def FloorTry.take (acc : FloorTry) (more : List (QuotaUnit × Nat)) : FloorTry where
  free := saturatingAdd acc.free (itemBytes more)
  units := acc.units + more.length
  spent := saturatingAdd acc.spent (itemBytes more)
  tentative := acc.tentative ++ more.map Prod.snd

lemma FloorTry.take_nil {acc : FloorTry} (hfree : acc.free ≤ u64Max) (hspent : acc.spent ≤ u64Max) :
    acc.take [] = acc := by
  have hadd : ∀ {n}, n ≤ u64Max → saturatingAdd n (itemBytes []) = n := fun h => Nat.min_eq_left h
  unfold FloorTry.take
  rw [hadd hfree, hadd hspent, List.map_nil, List.append_nil]
  rfl

lemma FloorTry.take_take (acc : FloorTry) (more more' : List (QuotaUnit × Nat)) :
    (acc.take more).take more' = acc.take (more ++ more') := by
  unfold FloorTry.take
  dsimp only
  rw [saturatingAdd_assoc, saturatingAdd_assoc, List.length_append, List.map_append, Nat.add_assoc,
    List.append_assoc]
  unfold itemBytes
  rw [List.map_append, List.sum_append]

/-- The run is within its limits. -/
def FloorTry.Within (limits : FloorLimits) (t : FloorTry) : Prop :=
  t.units ≤ limits.maxUnits ∧ t.spent ≤ limits.maxBytes

/-- From one state of the loop to another, some of the items are picked; if any are, the run stays
within its limits. -/
def Continues (limits : FloorLimits) (now : Nat) (volume : String) (picked : List Nat)
    (items : List (QuotaUnit × Nat)) (acc t : FloorTry) : Prop :=
  ∃ more : List (QuotaUnit × Nat), more.Sublist items ∧
    (∀ e ∈ more, MayPick limits now volume picked e) ∧ t = acc.take more ∧
    (more = [] ∨ t.Within limits)

lemma Continues.refl {volume : String} {picked : List Nat} (items : List (QuotaUnit × Nat))
    {acc : FloorTry} (hfree : acc.free ≤ u64Max) (hspent : acc.spent ≤ u64Max) :
    Continues limits now volume picked items acc acc :=
  ⟨[], List.nil_sublist _, fun _ he => absurd he List.not_mem_nil,
    (FloorTry.take_nil hfree hspent).symm, Or.inl rfl⟩

/-- The loop over the items for one volume picks items that it may pick. -/
lemma continues_pickForFloor (volume : String) (need : Nat) (picked : List Nat)
    (items : List (QuotaUnit × Nat)) {acc : FloorTry} (hfree : acc.free ≤ u64Max)
    (hspent : acc.spent ≤ u64Max) : Continues limits now volume picked items acc
      (pickForFloor limits now volume need picked items acc) := by
  induction items generalizing acc with
  | nil => exact Continues.refl [] hfree hspent
  | cons e items ih =>
    obtain ⟨u, i⟩ := e
    unfold pickForFloor
    split
    · exact Continues.refl _ hfree hspent
    · split
      · obtain ⟨more, hsub, hmay, hresult, hlimits⟩ := ih hfree hspent
        exact ⟨more, hsub.cons _, hmay, hresult, hlimits⟩
      · rename_i hpick
        split
        · exact Continues.refl _ hfree hspent
        · rename_i hlimit
          simp only [Bool.or_eq_true, List.contains_iff_mem, decide_eq_true_eq, not_or, Nat.not_le,
            Nat.not_lt, Bool.not_eq_true', bne_iff_ne, ne_eq, not_not, Bool.not_eq_false]
            at hpick hlimit
          obtain ⟨⟨⟨hnew, hevictable⟩, hvolume⟩, hage⟩ := hpick
          have hone : (⟨saturatingAdd acc.free u.bytes, acc.units + 1,
              saturatingAdd acc.spent u.bytes, acc.tentative ++ [i]⟩ : FloorTry) =
                acc.take [(u, i)] := rfl
          have hwithin : (acc.take [(u, i)]).Within limits := hlimit
          rw [hone]
          have hrest : Continues limits now volume picked items (acc.take [(u, i)])
              (pickForFloor limits now volume need picked items (acc.take [(u, i)])) :=
            ih (Nat.min_le_right _ _) (Nat.min_le_right _ _)
          obtain ⟨more, hsub, hmay, hresult, hlimits⟩ := hrest
          refine ⟨(u, i) :: more, hsub.cons_cons _, List.forall_mem_cons.mpr
            ⟨⟨hnew, hevictable, hvolume, hage⟩, hmay⟩, ?_, Or.inr ?_⟩
          · rw [hresult, FloorTry.take_take]
            rfl
          · rcases hlimits with rfl | hlimits
            · rw [hresult, FloorTry.take_take]
              exact hwithin
            · exact hlimits

/-- A volume that is below its floor after the budgets is brought to it, or nothing is picked for it
and it is reported once. -/
def Settled (limits : FloorLimits) (budget floor : List (QuotaUnit × Nat))
    (shortfalls : List FloorShortfall) (v : String × Volume) : Prop :=
  v.2.avail + itemBytes (itemsOn v.1 budget) < floorBytes v.2.total limits.floorPct →
    floorBytes v.2.total limits.floorPct ≤ v.2.avail + itemBytes (itemsOn v.1 budget) +
      itemBytes (itemsOn v.1 floor) ∨
    itemsOn v.1 floor = [] ∧ (shortfalls.filter fun f => f.volume == v.1).length = 1

/-- The state of the loop over the volumes, when `floor` is picked for those that are done. -/
structure FloorsDone (s : Scan) (limits : FloorLimits) (now : Nat)
    (budget : List (QuotaUnit × Nat)) (done : List (String × Volume)) (acc : FloorPick)
    (floor : List (QuotaUnit × Nat)) : Prop where
  /-- The items are those of the scan. -/
  items : ∀ e ∈ floor, e ∈ oldestFirst s.units
  /-- The plan is what is picked for the budgets and for the floors. -/
  evict : acc.plan.evict = (budget ++ floor).map Prod.snd
  nodup : ((budget ++ floor).map Prod.snd).Nodup
  /-- Every item that is picked for a floor has its time. -/
  usedAfter : acc.plan.usedAfter = floor.map fun e => (e.2, now - limits.minAgeSecs)
  units : acc.floorUnits = floor.length
  spent : acc.floorSpent = saturatingAdd 0 (itemBytes floor)
  /-- The run is within its limits. -/
  within : floor.length ≤ limits.maxUnits ∧ saturatingAdd 0 (itemBytes floor) ≤ limits.maxBytes
  /-- The items may be picked, and for a volume that is done. -/
  may : ∀ e ∈ floor, e.1.evictable = true ∧ limits.minAgeSecs ≤ now - e.1.newestUnix ∧
    ∃ v ∈ done, e.1.volume = some v.1
  reported : ∀ f ∈ acc.plan.shortfalls, ∃ v ∈ done, f.volume = v.1
  settled : ∀ v ∈ done, Settled limits budget floor acc.plan.shortfalls v

lemma itemsOn_eq_self {volume : String} {items : List (QuotaUnit × Nat)}
    (h : ∀ e ∈ items, e.1.volume = some volume) : itemsOn volume items = items :=
  List.filter_eq_self.mpr fun e he => beq_iff_eq.mpr (h e he)

lemma itemsOn_eq_nil {volume : String} {items : List (QuotaUnit × Nat)}
    (h : ∀ e ∈ items, e.1.volume ≠ some volume) : itemsOn volume items = [] := by
  refine List.filter_eq_nil_iff.mpr fun e he => ?_
  simpa using h e he

lemma itemsOn_append (volume : String) (items items' : List (QuotaUnit × Nat)) :
    itemsOn volume (items ++ items') = itemsOn volume items ++ itemsOn volume items' :=
  List.filter_append _ _

lemma itemBytes_append (items items' : List (QuotaUnit × Nat)) :
    itemBytes (items ++ items') = itemBytes items + itemBytes items' := by
  unfold itemBytes
  rw [List.map_append, List.sum_append]

section Volumes

variable {budget floor : List (QuotaUnit × Nat)} {done : List (String × Volume)} {acc : FloorPick}
  {v : String × Volume} {freed : String → Nat}

lemma FloorsDone.itemsOn_new (h : FloorsDone s limits now budget done acc floor)
    (hnew : v.1 ∉ done.map Prod.fst) : itemsOn v.1 floor = [] := by
  refine itemsOn_eq_nil fun e he hvolume => ?_
  obtain ⟨-, -, w, hw, hon⟩ := h.may e he
  rw [hon] at hvolume
  exact hnew (List.mem_map.mpr ⟨w, hw, Option.some.inj hvolume⟩)

/-- A volume that is above its floor needs nothing. -/
lemma FloorsDone.skip (h : FloorsDone s limits now budget done acc floor)
    (hfreed : freed v.1 = itemBytes (itemsOn v.1 budget))
    (henough : floorBytes v.2.total limits.floorPct ≤ saturatingAdd v.2.avail (freed v.1)) :
    FloorsDone s limits now budget (done ++ [v]) acc floor := by
  refine { h with may := fun e he => ?_, reported := fun f hf => ?_, settled := fun w hw => ?_ }
  · obtain ⟨hevictable, hage, w, hw, hon⟩ := h.may e he
    exact ⟨hevictable, hage, w, List.mem_append_left _ hw, hon⟩
  · obtain ⟨w, hw, hon⟩ := h.reported f hf
    exact ⟨w, List.mem_append_left _ hw, hon⟩
  · rcases List.mem_append.mp hw with hw | hw
    · exact h.settled w hw
    · obtain rfl := List.mem_singleton.mp hw
      intro hbelow
      rw [hfreed] at henough
      exact absurd (henough.trans (Nat.min_le_left _ _)) (Nat.not_le.mpr hbelow)

/-- A volume whose floor is out of reach is reported, and nothing is picked for it. -/
lemma FloorsDone.report (h : FloorsDone s limits now budget done acc floor)
    (hnew : v.1 ∉ done.map Prod.fst) (needBytes reachableBytes : Nat) :
    FloorsDone s limits now budget (done ++ [v])
      { acc with plan.shortfalls := acc.plan.shortfalls ++ [⟨v.1, needBytes, reachableBytes⟩] }
      floor := by
  have hother : ∀ w ∈ done, w.1 ≠ v.1 := by
    intro w hw hsame
    exact hnew (List.mem_map.mpr ⟨w, hw, hsame⟩)
  refine { h with may := fun e he => ?_, reported := fun f hf => ?_, settled := fun w hw => ?_ }
  · obtain ⟨hevictable, hage, w, hw, hon⟩ := h.may e he
    exact ⟨hevictable, hage, w, List.mem_append_left _ hw, hon⟩
  · rcases List.mem_append.mp hf with hf | hf
    · obtain ⟨w, hw, hon⟩ := h.reported f hf
      exact ⟨w, List.mem_append_left _ hw, hon⟩
    · rw [List.mem_singleton.mp hf]
      exact ⟨v, List.mem_append_right _ List.mem_cons_self, rfl⟩
  · unfold Settled
    dsimp only
    rw [List.filter_append]
    rcases List.mem_append.mp hw with hw | hw
    · have hnone : ([⟨v.1, needBytes, reachableBytes⟩] : List FloorShortfall).filter
          (fun f => f.volume == w.1) = [] := by
        rw [List.filter_cons_of_neg (by simpa using (hother w hw).symm), List.filter_nil]
      rw [hnone, List.append_nil]
      exact h.settled w hw
    · obtain rfl := List.mem_singleton.mp hw
      have hbefore : acc.plan.shortfalls.filter (fun f => f.volume == w.1) = [] := by
        refine List.filter_eq_nil_iff.mpr fun f hf => ?_
        obtain ⟨w', hw', hon⟩ := h.reported f hf
        rw [hon]
        simpa using hother w' hw'
      intro _
      refine Or.inr ⟨h.itemsOn_new hnew, ?_⟩
      rw [hbefore, List.filter_cons_of_pos (by simp)]
      rfl

/-- A volume is brought to its floor. -/
lemma FloorsDone.reach (h : FloorsDone s limits now budget done acc floor)
    (hnew : v.1 ∉ done.map Prod.fst) (hfreed : freed v.1 = itemBytes (itemsOn v.1 budget))
    {t : FloorTry}
    (ht : Continues limits now v.1 acc.plan.evict (oldestFirst s.units)
      ⟨saturatingAdd v.2.avail (freed v.1), acc.floorUnits, acc.floorSpent, []⟩ t)
    (hreached : floorBytes v.2.total limits.floorPct ≤ t.free) :
    ∃ floor', FloorsDone s limits now budget (done ++ [v])
      { plan :=
          { evict := acc.plan.evict ++ t.tentative
            usedAfter := acc.plan.usedAfter ++
              t.tentative.map fun i => (i, now - limits.minAgeSecs)
            shortfalls := acc.plan.shortfalls }
        floorUnits := t.units
        floorSpent := t.spent } floor' := by
  obtain ⟨more, hsub, hmay, rfl, hlimits⟩ := ht
  have hon : ∀ e ∈ more, e.1.volume = some v.1 := fun e he => (hmay e he).2.2.1
  have hspent : saturatingAdd acc.floorSpent (itemBytes more) =
      saturatingAdd 0 (itemBytes (floor ++ more)) := by
    rw [h.spent, saturatingAdd_assoc, itemBytes_append]
  refine ⟨floor ++ more, ?_⟩
  constructor
  case items =>
    intro e he
    rcases List.mem_append.mp he with he | he
    · exact h.items e he
    · exact hsub.subset he
  case evict =>
    change acc.plan.evict ++ ([] ++ more.map Prod.snd) = _
    rw [h.evict, List.nil_append, ← List.map_append, List.append_assoc]
  case nodup =>
    rw [← List.append_assoc, List.map_append]
    refine List.Nodup.append h.nodup ((hsub.map _).nodup (nodup_oldestFirst _)) ?_
    intro i hi hi'
    obtain ⟨e, he, rfl⟩ := List.mem_map.mp hi'
    rw [← h.evict] at hi
    exact (hmay e he).1 hi
  case usedAfter =>
    change acc.plan.usedAfter ++ ([] ++ more.map Prod.snd).map _ = _
    rw [h.usedAfter, List.nil_append, List.map_map, List.map_append]
    rfl
  case units =>
    change acc.floorUnits + more.length = _
    rw [h.units, List.length_append]
  case spent => exact hspent
  case within =>
    rcases hlimits with rfl | hlimits
    · rw [List.append_nil]
      exact h.within
    · rw [List.length_append, ← hspent, ← h.units]
      exact hlimits
  case may =>
    intro e he
    rcases List.mem_append.mp he with he | he
    · obtain ⟨hevictable, hage, w, hw, hvolume⟩ := h.may e he
      exact ⟨hevictable, hage, w, List.mem_append_left _ hw, hvolume⟩
    · obtain ⟨-, hevictable, hvolume, hage⟩ := hmay e he
      exact ⟨hevictable, hage, v, List.mem_append_right _ List.mem_cons_self, hvolume⟩
  case reported =>
    intro f hf
    obtain ⟨w, hw, hvolume⟩ := h.reported f hf
    exact ⟨w, List.mem_append_left _ hw, hvolume⟩
  case settled =>
    intro w hw
    unfold Settled
    dsimp only
    rw [itemsOn_append]
    rcases List.mem_append.mp hw with hw | hw
    · have hnone : itemsOn w.1 more = [] := by
        refine itemsOn_eq_nil fun e he hvolume => ?_
        rw [hon e he] at hvolume
        exact hnew (List.mem_map.mpr ⟨w, hw, (Option.some.inj hvolume).symm⟩)
      rw [hnone, List.append_nil]
      exact h.settled w hw
    · obtain rfl := List.mem_singleton.mp hw
      intro _
      rw [h.itemsOn_new hnew, itemsOn_eq_self hon, List.nil_append, ← hfreed]
      refine Or.inl (hreached.trans ?_)
      change saturatingAdd (saturatingAdd w.2.avail (freed w.1)) (itemBytes more) ≤ _
      rw [saturatingAdd_assoc, Nat.add_assoc]
      exact Nat.min_le_left _ _

/-- One volume is settled, and the others stay so. -/
lemma FloorsDone.step (h : FloorsDone s limits now budget done acc floor)
    (hnew : v.1 ∉ done.map Prod.fst) (hfreed : freed v.1 = itemBytes (itemsOn v.1 budget)) :
    ∃ floor', FloorsDone s limits now budget (done ++ [v])
      (pickForVolume s limits now freed acc v) floor' := by
  unfold pickForVolume
  dsimp only
  split
  · rename_i henough
    exact ⟨floor, h.skip hfreed henough⟩
  · split
    · exact ⟨floor, h.report hnew _ _⟩
    · rename_i hreached
      refine h.reach hnew hfreed (continues_pickForFloor _ _ _ _ (Nat.min_le_right _ _) ?_)
        (Nat.not_lt.mp hreached)
      rw [h.spent]
      exact Nat.min_le_right _ _

/-- The volumes are settled one after another. -/
lemma FloorsDone.run {vs : List (String × Volume)}
    (h : FloorsDone s limits now budget done acc floor)
    (hnodup : ((done ++ vs).map Prod.fst).Nodup)
    (hfreed : ∀ name, freed name = itemBytes (itemsOn name budget)) :
    ∃ floor', FloorsDone s limits now budget (done ++ vs)
      (vs.foldl (pickForVolume s limits now freed) acc) floor' := by
  induction vs generalizing done acc floor with
  | nil =>
    rw [List.append_nil]
    exact ⟨floor, h⟩
  | cons v vs ih =>
    have hnew : v.1 ∉ done.map Prod.fst := by
      intro hmem
      rw [List.map_append, List.map_cons] at hnodup
      exact (List.nodup_append.mp hnodup).2.2 _ hmem _ List.mem_cons_self rfl
    have hstep : ∃ floor', FloorsDone s limits now budget (done ++ [v])
        (pickForVolume s limits now freed acc v) floor' := h.step hnew (hfreed v.1)
    obtain ⟨floor', h'⟩ := hstep
    have hsplit : done ++ v :: vs = (done ++ [v]) ++ vs := by
      rw [List.append_assoc, List.singleton_append]
    rw [hsplit] at hnodup ⊢
    exact ih h' hnodup

end Volumes

/-! ## The whole plan -/

/-- What is picked for the floors: what the plan has after the items for the budgets. -/
def floorPicks (s : Scan) (limits : FloorLimits) (now : Nat) : List Nat :=
  (planEvictions s limits now).evict.drop (pickForBudgets s).evict.length

/-- Of a rebuildable class the budgets pick the shortest start of its items without which it is
within its budget, or all of them. -/
lemma shortest_budgets (hbytes : (s.units.map QuotaUnit.bytes).sum < 2 ^ 64) {classIdx : Nat}
    {c : ClassScan} (hc : s.classes[classIdx]? = some c)
    (hclass : c.pathClass.rebuildable = true) : ∃ n ≤ (evictableOf s classIdx).length,
      ofClass s classIdx (pickForBudgets s).evict = (evictableOf s classIdx).take n ∧
      (usedBytes s classIdx ≤ c.budgetBytes + bytesOf s ((evictableOf s classIdx).take n) ∨
        n = (evictableOf s classIdx).length) ∧
      ∀ m < n, c.budgetBytes + bytesOf s ((evictableOf s classIdx).take m) <
        usedBytes s classIdx := by
  have hdrained : drained s (c, classIdx) = Budget.drain (fun e => e.1.bytes) c.budgetBytes
      (usedBytes s classIdx) (candidates s classIdx) := by
    rw [← classUsed_eq_usedBytes hbytes]
    exact if_pos hclass
  have hcandidates : ∀ n, bytesOf s ((evictableOf s classIdx).take n) =
      (((candidates s classIdx).take n).map fun e => e.1.bytes).sum := by
    intro n
    have hitems : ∀ e ∈ (candidates s classIdx).take n, e ∈ oldestFirst s.units := fun e he =>
      (List.mem_filter.mp (List.mem_of_mem_take he)).1
    unfold evictableOf
    rw [← List.map_take, bytesOf_map hitems]
    rfl
  have hlength : (evictableOf s classIdx).length = (candidates s classIdx).length :=
    List.length_map _
  obtain ⟨n, hn, hdrain, hleft, hshort⟩ :=
    (Budget.drain_spec (usedBytes s classIdx) (candidates s classIdx) :
    ∃ n ≤ (candidates s classIdx).length, Budget.drain (fun e : QuotaUnit × Nat => e.1.bytes)
      c.budgetBytes (usedBytes s classIdx) (candidates s classIdx) = _ ∧ _)
  simp only [hcandidates, hlength]
  refine ⟨n, hn, ?_, hleft, hshort⟩
  rw [evict_pickForBudgets, ofClass_budgetItems hc, hdrained, hdrain]
  exact List.map_take

/-- The plan settles the volumes. -/
lemma exists_floorsDone (hbytes : (s.units.map QuotaUnit.bytes).sum < 2 ^ 64)
    (hvolumes : (s.volumes.map Prod.fst).Nodup) (limits : FloorLimits) (now : Nat) :
    ∃ acc floor, acc.plan = planEvictions s limits now ∧
      FloorsDone s limits now (budgetItems s) (s.volumes.insertionSort fun a b => a.1 ≤ b.1) acc
        floor := by
  have hstart : FloorsDone s limits now (budgetItems s) []
      ⟨⟨(pickForBudgets s).evict, [], []⟩, 0, 0⟩ [] := by
    constructor
    case items => exact fun e he => absurd he List.not_mem_nil
    case evict => rw [List.append_nil, evict_pickForBudgets]
    case nodup =>
      rw [List.append_nil]
      exact nodup_budgetItems s
    case usedAfter => rfl
    case units => rfl
    case spent => rfl
    case within => exact ⟨Nat.zero_le _, Nat.zero_le _⟩
    case may => exact fun e he => absurd he List.not_mem_nil
    case reported => exact fun f hf => absurd hf List.not_mem_nil
    case settled => exact fun v hv => absurd hv List.not_mem_nil
  have hnodup : (([] ++ s.volumes.insertionSort fun a b : String × Volume => a.1 ≤ b.1).map
      Prod.fst).Nodup :=
    ((List.perm_insertionSort (fun a b : String × Volume => a.1 ≤ b.1)
      s.volumes).map Prod.fst).nodup_iff.mpr hvolumes
  obtain ⟨floor, h⟩ := hstart.run hnodup (freed_pickForBudgets hbytes)
  exact ⟨_, floor, rfl, h⟩

/-- The eviction plan is exact, for every scan whose items take fewer than `2 ^ 64` bytes and whose
volumes have different names. -/
theorem plan_is_exact (hbytes : (s.units.map QuotaUnit.bytes).sum < 2 ^ 64)
    (hvolumes : (s.volumes.map Prod.fst).Nodup) (limits : FloorLimits) (now : Nat) :
    ExactPlan s limits now (planEvictions s limits now) (pickForBudgets s).evict
      (floorPicks s limits now) := by
  obtain ⟨acc, floor, hplan, h⟩ := exists_floorsDone hbytes hvolumes limits now
  have hevict := h.evict
  rw [hplan, List.map_append, ← evict_pickForBudgets] at hevict
  have hfloor : floorPicks s limits now = floor.map Prod.snd := by
    unfold floorPicks
    rw [hevict, List.drop_left]
  have hnodup := h.nodup
  rw [List.map_append, ← evict_pickForBudgets] at hnodup
  have hbudget : ∀ e ∈ budgetItems s, e ∈ oldestFirst s.units := mem_oldestFirst_of_mem_budgetItems
  have hbytesFloor : bytesOf s (floorPicks s limits now) = saturatingAdd 0 (itemBytes floor) := by
    have hle := itemBytes_le (List.nodup_append.mp hnodup).2.1 h.items
    rw [hfloor, bytesOf_map h.items]
    unfold saturatingAdd u64Max
    omega
  constructor
  case evict => rw [hevict, hfloor]
  case nodup =>
    rw [hevict]
    exact hnodup
  case evictable => exact fun i hi => mayEvict_of_mem_plan hi
  case oldest =>
    intro classIdx
    have hsub : (candidates s classIdx).Sublist (oldestFirst s.units) := List.filter_sublist
    exact ⟨(pairwise_oldestFirst s.units).sublist hsub,
      (hsub.map Prod.snd).nodup (nodup_oldestFirst s.units), fun i => mem_evictableOf⟩
  case rebuildable =>
    intro i hi
    rw [evict_pickForBudgets] at hi
    obtain ⟨e, he, rfl⟩ := List.mem_map.mp hi
    obtain ⟨classIdx, c, hc, hclass, hcandidate⟩ := mem_budgetItems he
    exact ⟨classIdx, c, hc, hclass, List.mem_map_of_mem hcandidate⟩
  case shortest => exact fun classIdx c hc hclass => shortest_budgets hbytes hc hclass
  case maxUnits =>
    rw [hfloor, List.length_map]
    exact h.within.1
  case maxBytes =>
    rw [hbytesFloor]
    exact h.within.2
  case aged =>
    intro i hi
    rw [hfloor] at hi
    obtain ⟨e, he, rfl⟩ := List.mem_map.mp hi
    exact ⟨e.1, mem_oldestFirst.mp (h.items e he), (h.may e he).2.1⟩
  case cutoff =>
    intro i hi
    rw [hfloor] at hi
    obtain ⟨e, he, rfl⟩ := List.mem_map.mp hi
    rw [← hplan, h.usedAfter]
    exact List.mem_map_of_mem (f := fun e : QuotaUnit × Nat => (e.2, now - limits.minAgeSecs)) he
  case fresh =>
    intro i hi hmem
    rw [hfloor] at hi
    exact (List.nodup_append.mp hnodup).2.2 i hmem i hi rfl
  case floors =>
    intro v hv
    have hsettled := h.settled v ((List.mem_insertionSort _).mpr hv)
    have hon : ∀ items : List (QuotaUnit × Nat), (∀ e ∈ items, e ∈ oldestFirst s.units) →
        bytesOf s (onVolume s v.1 (items.map Prod.snd)) = itemBytes (itemsOn v.1 items) := by
      intro items hitems
      have hkept : ∀ e ∈ itemsOn v.1 items, e ∈ oldestFirst s.units := fun e he =>
        hitems e (List.mem_filter.mp he).1
      rw [onVolume_map v.1 hitems, bytesOf_map hkept]
    rw [hfloor, evict_pickForBudgets, hon _ hbudget, hon _ h.items, onVolume_map v.1 h.items,
      List.map_eq_nil_iff, ← hplan]
    exact hsettled

/-- An item of the only class on the only volume. -/
def smallItem (name : String) (newestUnix : Nat) : QuotaUnit :=
  ⟨["a", name], name, none, ["a"], none, 0, some "/", 8, newestUnix, false, false, true⟩

/-- Two items of a class with a budget of ten bytes, on a volume with a tenth of free space. -/
def twoItems : Scan :=
  ⟨[], [⟨.tmp, 10, [["a"]], []⟩], [smallItem "x" 2, smallItem "y" 1], [("/", ⟨1000, 100⟩)]⟩

/-- The older item is picked for the budget, and the other one for the floor. -/
theorem plan_of_two_items_is_exact :
    (planEvictions twoItems ⟨11, 60, 100, 1⟩ 1000).evict = [1, 0] ∧
      ExactPlan twoItems ⟨11, 60, 100, 1⟩ 1000 (planEvictions twoItems ⟨11, 60, 100, 1⟩ 1000)
        (pickForBudgets twoItems).evict (floorPicks twoItems ⟨11, 60, 100, 1⟩ 1000) :=
  ⟨by decide, plan_is_exact (by decide) (by decide) _ _⟩

end Orca.Storage
