import Orca.Library.Invariant
import Orca.Mounts.Converge

/-!
# What a tick hands to the applier

The tick collects its releases and mount requests in one fold over the actions of the plan.  Seen
from the placements the outcome is simple: a placement is released exactly if its release is due and
its target is in the ledger (`paired`), and a mount of it becomes a request exactly if it follows
such a release or nothing is seen mounted at its target (`requests_eq`).  The fold does what each
placement's part does, since the target of a mount that is not preceded by its own release is
released by no other placement either.

The last section follows the entries of the ledger through a tick.
-/

namespace Orca.Mounts

section Tick

variable (w : World) (i : Tick)

/-- A target is in the ledger when the plan is made. -/
def owned (t : String) : Bool := decide (normTarget t ∈ (removeOrphans w i).1)

/-- The release of a placement that is mounted is due: it is stale, or swapped, or mounted again for
its options. -/
def releaseDue (p : Placement) : Bool :=
  (mountedAny w i).contains p.target &&
    (!(healthy w i).contains p.target || swapDue w i p || (optionDrift w i).contains p.target)

/-- A placement is released before it is mounted. -/
def paired (p : Placement) : Bool := releaseDue w i p && owned w i p.target

/-- A placement is to be mounted. -/
def mountDue (p : Placement) : Bool :=
  !(mountedAny w i).contains p.target || releaseDue w i p

/-- The request for a target that has an elected source. -/
def requestFor (t : String) : Option MountReq :=
  match lastFor i t, electedSource w i t with
  | some p, some source => some (mountReq p.mount source)
  | _, _ => none

/-- The requests made for a placement. -/
def reqsFor (p : Placement) : List MountReq :=
  if mountDue w i p && (paired w i p || (activeAt (seen w i) p.target).isNone) then
    (requestFor w i p.target).toList
  else []

/-! ## The plan of a placement -/

/-- The actions of a placement that are carried out. -/
lemma retainOwnedUnmounts_planFor (p : Placement) :
    retainOwnedUnmounts (planFor w i p) (removeOrphans w i).1 =
      if paired w i p then [.unmount p.target, .mount p.target]
      else if mountDue w i p then [.mount p.target] else [] := by
  unfold planFor paired mountDue releaseDue owned
  cases hmounted : (mountedAny w i).contains p.target with
  | false => simp [retainOwnedUnmounts]
  | true =>
    -- a mounted target is released in all three cases alike
    cases hhealthy : (healthy w i).contains p.target <;>
      cases hswap : swapDue w i p <;>
        cases hdrift : (optionDrift w i).contains p.target <;>
          by_cases howned : normTarget p.target ∈ (removeOrphans w i).1 <;>
            simp [retainOwnedUnmounts, howned]

lemma isDesired_of_mem_mountedAny {t : String} (h : t ∈ mountedAny w i) : isDesired i t = true := by
  obtain ⟨p, hp, rfl⟩ := List.mem_map.mp h
  exact List.any_eq_true.mpr ⟨p, List.mem_of_mem_filter hp, decide_eq_true rfl⟩

lemma plan_eq : plan w i = i.placements.flatMap (planFor w i) := by
  have hnone : (mountedAny w i).filter (fun t => !isDesired i t) = [] := by
    rw [List.filter_eq_nil_iff]
    intro t ht
    simp [isDesired_of_mem_mountedAny w i ht]
  rw [plan, hnone, List.map_nil, List.append_nil]

lemma actions_eq :
    actions w i =
      (i.placements.flatMap fun p => retainOwnedUnmounts (planFor w i p) (removeOrphans w i).1) ++
        (removeOrphans w i).2.map Action.unmount := by
  rw [actions, plan_eq, retainOwnedUnmounts, List.filter_flatMap]
  rfl

/-! ## The fold over the plan -/

/-- Only mounted targets that are in the ledger have been released. -/
def OnlyPaired (s : Work) : Prop :=
  ∀ t ∈ s.unmounts, (mountedAny w i).contains t = true ∧ owned w i t = true

/-- A release and the mount after it. -/
lemma execute_paired (s : Work) (t : String) :
    [Action.unmount t, Action.mount t].foldl (execute w i) s =
      { s with unmounts := s.unmounts ++ [t], reqs := s.reqs ++ (requestFor w i t).toList } := by
  simp only [List.foldl_cons, List.foldl_nil, execute, requestFor]
  cases lastFor i t with
  | none => simp
  | some p =>
    cases electedSource w i t with
    | none => simp
    | some source => simp

/-- A mount that is not preceded by a release becomes a request if nothing is seen mounted. -/
lemma execute_bare {s : Work} {t : String} (h : t ∉ s.unmounts) :
    (execute w i s (.mount t)).unmounts = s.unmounts ∧
      (execute w i s (.mount t)).reqs = s.reqs ++
        if (activeAt (seen w i) t).isNone then (requestFor w i t).toList else [] := by
  simp only [execute, requestFor]
  cases lastFor i t with
  | none => simp
  | some p =>
    cases electedSource w i t with
    | none => simp
    | some source =>
      have hbare : s.unmounts.contains t = false := by simpa using h
      simp only [hbare]
      cases hactive : activeAt (seen w i) t with
      | none => simp [mountExecution]
      | some active =>
        cases hexec : mountExecution source p.mount.sources (some active) with
        | proceed => exact absurd (mountExecution_eq_proceed_iff.mp hexec) (Option.some_ne_none _)
        | adopt => simp
        | foreign other => simp

/-- The part of a placement adds its release and its requests. -/
lemma execute_planFor {s : Work} (hs : OnlyPaired w i s) (p : Placement) :
    ((retainOwnedUnmounts (planFor w i p) (removeOrphans w i).1).foldl (execute w i) s).unmounts =
        s.unmounts ++ (if paired w i p then [p.target] else []) ∧
      ((retainOwnedUnmounts (planFor w i p) (removeOrphans w i).1).foldl (execute w i) s).reqs =
        s.reqs ++ reqsFor w i p := by
  rw [retainOwnedUnmounts_planFor, reqsFor]
  cases hpaired : paired w i p with
  | true =>
    have hdue : mountDue w i p = true := by
      rw [paired, Bool.and_eq_true] at hpaired
      rw [mountDue, hpaired.1, Bool.or_true]
    rw [if_pos rfl, if_pos rfl, execute_paired, hdue]
    exact ⟨rfl, rfl⟩
  | false =>
    rw [if_neg Bool.false_ne_true, if_neg Bool.false_ne_true]
    cases hdue : mountDue w i p with
    | false => simp
    | true =>
      -- no other placement releases the target
      have hbare : p.target ∉ s.unmounts := by
        intro hmem
        obtain ⟨hmounted, howned⟩ := hs p.target hmem
        rw [mountDue, hmounted, Bool.not_true, Bool.false_or] at hdue
        rw [paired, hdue, howned] at hpaired
        cases hpaired
      have hexec := execute_bare w i hbare
      rw [if_pos rfl, List.foldl_cons, List.foldl_nil, hexec.1, hexec.2]
      simp

/-- The part of a placement releases its target only if it is mounted and in the ledger. -/
lemma onlyPaired_planFor {s : Work} (hs : OnlyPaired w i s) (p : Placement) :
    OnlyPaired w i
      ((retainOwnedUnmounts (planFor w i p) (removeOrphans w i).1).foldl (execute w i) s) := by
  intro t ht
  rw [(execute_planFor w i hs p).1] at ht
  rcases List.mem_append.mp ht with ht | ht
  · exact hs t ht
  · cases hpaired : paired w i p with
    | false =>
      rw [hpaired] at ht
      cases ht
    | true =>
      rw [hpaired, if_pos rfl, List.mem_singleton] at ht
      subst ht
      rw [paired, releaseDue, Bool.and_eq_true, Bool.and_eq_true] at hpaired
      exact ⟨hpaired.1.1, hpaired.2⟩

/-- The parts of the placements, one after another. -/
lemma execute_placements {ps : List Placement} {s : Work} (hs : OnlyPaired w i s) :
    ((ps.flatMap fun p => retainOwnedUnmounts (planFor w i p) (removeOrphans w i).1).foldl
          (execute w i) s).unmounts =
        s.unmounts ++ (ps.filter (paired w i)).map Placement.target ∧
      ((ps.flatMap fun p => retainOwnedUnmounts (planFor w i p) (removeOrphans w i).1).foldl
          (execute w i) s).reqs = s.reqs ++ ps.flatMap (reqsFor w i) := by
  induction ps generalizing s with
  | nil => simp
  | cons p ps ih =>
    rw [List.flatMap_cons, List.foldl_append]
    have hhead := execute_planFor w i hs p
    have htail := ih (onlyPaired_planFor w i hs p)
    refine ⟨?_, ?_⟩
    · rw [htail.1, hhead.1, List.filter_cons]
      split <;> simp
    · rw [htail.2, hhead.2, List.flatMap_cons, List.append_assoc]

lemma execute_unmounts (ts : List String) (s : Work) :
    (ts.map Action.unmount).foldl (execute w i) s = { s with unmounts := s.unmounts ++ ts } := by
  induction ts generalizing s with
  | nil => simp
  | cons t ts ih =>
    rw [List.map_cons, List.foldl_cons, ih]
    simp [execute]

/-- What is released: the placements that are released before they are mounted, and what was
removed. -/
theorem handed_eq :
    handed w i =
      (i.placements.filter (paired w i)).map Placement.target ++ (removeOrphans w i).2 := by
  have hstart : OnlyPaired w i ⟨[], [], (removeOrphans w i).1⟩ := fun t ht => by cases ht
  rw [handed, work, actions_eq, List.foldl_append, execute_unmounts]
  dsimp only
  rw [(execute_placements w i hstart).1]
  rfl

/-- What is requested, placement by placement. -/
theorem requests_eq : requests w i = i.placements.flatMap (reqsFor w i) := by
  have hstart : OnlyPaired w i ⟨[], [], (removeOrphans w i).1⟩ := fun t ht => by cases ht
  rw [requests, work, actions_eq, List.foldl_append, execute_unmounts]
  dsimp only
  rw [(execute_placements w i hstart).2]
  rfl

end Tick

/-! ## Single releases and requests -/

variable {w : World} {i : Tick}

lemma lastFor_eq_some {t : String} {p : Placement} (h : lastFor i t = some p) :
    p ∈ i.placements ∧ p.target = t := by
  have hmem := List.mem_filter.mp (List.mem_of_getLast? h)
  exact ⟨hmem.1, of_decide_eq_true hmem.2⟩

lemma exists_lastFor {p : Placement} (h : p ∈ i.placements) :
    ∃ q, lastFor i p.target = some q ∧ q ∈ i.placements ∧ q.target = p.target := by
  have hne : i.placements.filter (fun q => q.target = p.target) ≠ [] :=
    List.ne_nil_of_mem (List.mem_filter.mpr ⟨h, decide_eq_true rfl⟩)
  have hlast : lastFor i p.target = some ((i.placements.filter _).getLast hne) :=
    List.getLast?_eq_some_getLast hne
  exact ⟨_, hlast, lastFor_eq_some hlast⟩

lemma mem_handed_iff {t : String} :
    t ∈ handed w i ↔ (∃ p ∈ i.placements, paired w i p = true ∧ p.target = t) ∨
      t ∈ (removeOrphans w i).2 := by
  rw [handed_eq, List.mem_append, List.mem_map]
  simp only [List.mem_filter, and_assoc]

/-- A request is for the elected source of its target. -/
lemma requestFor_eq_some {t : String} {q : MountReq} (h : requestFor w i t = some q) :
    ∃ p, lastFor i t = some p ∧ electedSource w i t = some q.source ∧
      q = mountReq p.mount q.source ∧ q.target = t := by
  unfold requestFor at h
  cases hlast : lastFor i t with
  | none =>
    rw [hlast] at h
    cases h
  | some p =>
    cases helected : electedSource w i t with
    | none =>
      rw [hlast, helected] at h
      cases h
    | some source =>
      rw [hlast, helected] at h
      cases h
      exact ⟨p, rfl, rfl, rfl, (lastFor_eq_some hlast).2⟩

/-- A request is made for a placement that is to be mounted, after its release or where nothing is
seen mounted. -/
lemma mem_requests_iff {q : MountReq} :
    q ∈ requests w i ↔ ∃ p ∈ i.placements, mountDue w i p = true ∧
      (paired w i p = true ∨ activeAt (seen w i) p.target = none) ∧
        requestFor w i p.target = some q := by
  rw [requests_eq, List.mem_flatMap]
  refine exists_congr fun p => and_congr_right fun _ => ?_
  rw [reqsFor]
  by_cases h : mountDue w i p = true ∧
      (paired w i p = true ∨ activeAt (seen w i) p.target = none)
  · rw [if_pos (by simpa using h), Option.mem_toList]
    simp [h.1, h.2]
  · rw [if_neg (by simpa using h)]
    constructor
    · intro hq
      cases hq
    · rintro ⟨hdue, hguard, -⟩
      exact absurd ⟨hdue, hguard⟩ h

/-! ## The ledger in a tick -/

/-- The removed target is still mounted from the source that is recorded for it. -/
def orphanDue (w : World) (i : Tick) (t : String) : Bool :=
  orphanAction (((loadLedger w i).lookup t).getD "") (activeAt (seen w i) t) = .unmount

lemma removeOrphan_of_due {ledger : Ledger} (acc : List String) {x : String}
    (hlookup : ledger.lookup x = (loadLedger w i).lookup x) (hdue : orphanDue w i x = true) :
    removeOrphan w i (ledger, acc) x = (ledger, acc ++ [x]) := by
  have haction := of_decide_eq_true hdue
  rw [removeOrphan, hlookup, haction]

/-- A removed target that is not due is forgotten. -/
lemma removeOrphan_of_not_due {ledger : Ledger} (acc : List String) {x : String}
    (hlookup : ledger.lookup x = (loadLedger w i).lookup x) (hdue : orphanDue w i x = false) :
    removeOrphan w i (ledger, acc) x = (ledger.erase x, acc) := by
  have haction := of_decide_eq_false hdue
  rw [removeOrphan, hlookup]
  split
  · rename_i hunmount
    exact absurd hunmount haction
  · rfl
  · rfl

/-- Of a list of distinct targets those that are due are released, and the others forgotten. -/
lemma foldl_removeOrphan {ts : List String} (hts : ts.Nodup) {ledger : Ledger} (acc : List String)
    (hledger : ∀ t ∈ ts, ledger.lookup t = (loadLedger w i).lookup t) :
    (ts.foldl (removeOrphan w i) (ledger, acc)).2 = acc ++ ts.filter (orphanDue w i) ∧
      ∀ t, (ts.foldl (removeOrphan w i) (ledger, acc)).1.lookup t =
        if t ∈ ts ∧ orphanDue w i t = false then none else ledger.lookup t := by
  induction ts generalizing ledger acc with
  | nil => simp
  | cons x ts ih =>
    obtain ⟨hx, hnodup⟩ := List.nodup_cons.mp hts
    have hlookup : ledger.lookup x = (loadLedger w i).lookup x := hledger x List.mem_cons_self
    rw [List.foldl_cons]
    cases hdue : orphanDue w i x with
    | true =>
      have hih := ih hnodup (acc ++ [x]) fun t ht => hledger t (List.mem_cons_of_mem x ht)
      rw [removeOrphan_of_due acc hlookup hdue, hih.1, List.filter_cons_of_pos hdue,
        List.append_assoc]
      refine ⟨rfl, fun t => ?_⟩
      rw [hih.2]
      by_cases ht : t = x
      · subst ht
        simp [hdue]
      · simp [ht]
    | false =>
      have hne : ∀ t ∈ ts, t ≠ x := fun t ht heq => hx (heq ▸ ht)
      have hrest : ∀ t ∈ ts, (ledger.erase x).lookup t = (loadLedger w i).lookup t := by
        intro t ht
        rw [AList.lookup_erase_ne (hne t ht)]
        exact hledger t (List.mem_cons_of_mem x ht)
      have hih := ih hnodup acc hrest
      rw [removeOrphan_of_not_due acc hlookup hdue, hih.1,
        List.filter_cons_of_neg (by rw [hdue]; exact Bool.false_ne_true)]
      refine ⟨rfl, fun t => ?_⟩
      rw [hih.2]
      by_cases ht : t = x
      · subst ht
        simp [hdue, AList.lookup_erase]
      · rw [AList.lookup_erase_ne ht]
        simp [ht]

lemma nodup_orphanTargets : (orphanTargets w i).Nodup :=
  (loadLedger w i).keys_nodup.filter _

lemma mem_removeOrphans_iff {t : String} :
    t ∈ (removeOrphans w i).2 ↔ t ∈ orphanTargets w i ∧ orphanDue w i t = true := by
  have hfold : (removeOrphans w i).2 = [] ++ (orphanTargets w i).filter (orphanDue w i) :=
    (foldl_removeOrphan nodup_orphanTargets [] fun _ _ => rfl).1
  rw [hfold, List.nil_append, List.mem_filter]

lemma lookup_removeOrphans (t : String) :
    (removeOrphans w i).1.lookup t =
      if t ∈ orphanTargets w i ∧ orphanDue w i t = false then none
      else (loadLedger w i).lookup t :=
  (foldl_removeOrphan nodup_orphanTargets [] fun _ _ => rfl).2 t

lemma lookup_removeOrphans_of_desired {p : Placement} (hp : p ∈ i.placements) :
    (removeOrphans w i).1.lookup (normTarget p.target) =
      (loadLedger w i).lookup (normTarget p.target) := by
  rw [lookup_removeOrphans, if_neg]
  rintro ⟨horphan, -⟩
  have hnot := of_decide_eq_true (List.mem_filter.mp horphan).2
  exact hnot (List.mem_map.mpr ⟨p, hp, rfl⟩)

lemma owned_iff {p : Placement} (hp : p ∈ i.placements) :
    owned w i p.target = true ↔
      ∃ source, (loadLedger w i).lookup (normTarget p.target) = some source := by
  rw [owned, decide_eq_true_iff, ← AList.lookup_isSome, lookup_removeOrphans_of_desired hp,
    Option.isSome_iff_exists]

/-- The targets of a loaded ledger are in normal form. -/
lemma normTarget_of_mem_loadLedger {t : String} (h : t ∈ loadLedger w i) : normTarget t = t := by
  have hall : ∀ t ∈ loadLedger w i, normTarget t = t := by
    unfold loadLedger
    split
    · refine Invariant.foldl_invariant (I := fun ledger : Ledger => ∀ t ∈ ledger, normTarget t = t)
        (fun e _ ledger hledger t ht => ?_) fun t ht => absurd ht (AList.notMem_empty t)
      rcases (AList.mem_insert ledger).mp ht with rfl | ht
      · exact normTarget_normTarget e.1
      · exact hledger t ht
    · exact fun t ht => absurd ht (AList.notMem_empty t)
  exact hall t h

lemma top_of_activeAt_seen {t a : String} (h : activeAt (seen w i) t = some a) :
    ∃ m, top w.table t = some m ∧ m.source = a := by
  unfold activeAt seen at h
  split at h
  · exact Option.map_eq_some_iff.mp h
  · cases h

/-- A removed target that is released is still mounted from the source that is recorded. -/
lemma recorded_of_mem_removeOrphans {t : String} (h : t ∈ (removeOrphans w i).2) :
    ∃ recorded m, (removeOrphans w i).1.lookup t = some recorded ∧ normTarget t = t ∧
      top w.table t = some m ∧ sameSource m.source recorded = true := by
  obtain ⟨horphan, hdue⟩ := mem_removeOrphans_iff.mp h
  have hmem : t ∈ loadLedger w i := AList.mem_keys.mpr (List.mem_filter.mp horphan).1
  obtain ⟨recorded, hrecorded⟩ := Option.isSome_iff_exists.mp (AList.lookup_isSome.mpr hmem)
  obtain ⟨a, hactive, hsame⟩ := orphanAction_eq_unmount_iff.mp (of_decide_eq_true hdue)
  obtain ⟨m, hm, rfl⟩ := top_of_activeAt_seen hactive
  rw [hrecorded, Option.getD_some] at hsame
  refine ⟨recorded, m, ?_, normTarget_of_mem_loadLedger hmem, hm, hsame⟩
  rw [lookup_removeOrphans, if_neg (fun hnot => by rw [hdue] at hnot; cases hnot.2)]
  exact hrecorded

/-- Adoption does not touch an entry that is there. -/
lemma lookup_adopt {table : List Mount} {sources : List String} {ledger : Ledger} {t k v : String}
    (h : ledger.lookup k = some v) : (adopt table sources ledger t).lookup k = some v := by
  unfold adopt
  split
  · exact h
  · rename_i hnew
    have hne : k ≠ t := by
      rintro rfl
      exact hnew (AList.lookup_isSome.mp (by rw [h]; rfl))
    split
    · split
      · rw [AList.lookup_insert_ne hne]
        exact h
      · exact h
    · exact h

/-- An action does not touch an entry of the ledger that is there. -/
lemma lookup_execute {s : Work} {k v : String} (h : s.ledger.lookup k = some v) (a : Action) :
    (execute w i s a).ledger.lookup k = some v := by
  unfold execute
  split
  · exact h
  · split
    · split
      · exact h
      · split
        · exact lookup_adopt h
        · exact h
        · exact h
    · exact h

lemma lookup_work {k v : String} (h : (removeOrphans w i).1.lookup k = some v) :
    (work w i).ledger.lookup k = some v :=
  Invariant.foldl_invariant (I := fun s : Work => s.ledger.lookup k = some v)
    (fun a _ _ hs => lookup_execute hs a) h

/-! ## A share and a disk to try it with -/

/-- A share that is desired at a target. -/
def nasMount (target : String) : DesiredMount :=
  ⟨target, "nfs4", ["nas:/data"], .default, none, "hard"⟩

/-- The placement, with what its probe finds; its source answers, and the mount is not held. -/
def nasPlacement (target : String) (health : MountHealth) : Placement :=
  ⟨nasMount target, .read, health, fun _ => true, false, false⟩

/-- A tick with one placement, in which everything succeeds. -/
def smoothTick (p : Placement) : Tick where
  placements := [p]
  tableReadable := true
  ledgerReadable := true
  ledgerSaved := true
  replication := fun _ => none
  unmountOutcome := fun _ => ⟨true, fun _ => false, true⟩
  mountOutcome := fun _ => ⟨none, true, some ⟨"nas:/data", "nfs4", ["hard"]⟩, true⟩

lemma normTarget_data : normTarget "/mnt/data" = "/mnt/data" := by decide +kernel

/-- A disk that somebody else mounts. -/
def foreignDisk : Mount := ⟨"/mnt/data", "/dev/sdb1", "ext4", ["rw"], normTarget_data⟩

end Orca.Mounts
