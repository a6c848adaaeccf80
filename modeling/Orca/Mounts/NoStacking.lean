import Orca.Mounts.Execution

/-!
# Mounts on top of mounts

A filesystem must be mounted only where nothing is mounted yet.  Before a mount without a release
the tick looks its target up in the mount table it has read, under the target's own spelling, and a
table that could not be read is empty; after a release it does not look at all, whether the release
went through or not.  So a mount stacks if it slips past the look-up or if its release leaves
something behind, and of two mounts of one mountpoint the second stacks.

`unstacked_of_free` proves from the table alone that requests for distinct mountpoints that are all
empty do not stack, and `free_of_unstacked` that this is necessary where every request is carried
out.  `neverStacks_of_stackFree` traces this back to the placements.
-/

namespace Orca.Mounts

/-! ## The table under releases and mounts -/

lemma top_eq_none_iff {table : List Mount} {mountpoint : String} :
    top table mountpoint = none ↔ ∀ m ∈ table, m.mountpoint ≠ mountpoint := by
  rw [top, List.getLast?_eq_none_iff, List.filter_eq_nil_iff]
  simp only [decide_eq_true_eq]

lemma release_subset {table : List Mount} {mountpoint : String} {o : UnmountOutcome} :
    release table mountpoint o ⊆ table := by
  unfold release
  split
  · intro m hm
    have hmem := List.eraseP_subset (List.mem_reverse.mp (List.mem_of_mem_filter hm))
    exact List.mem_reverse.mp hmem
  · exact fun m hm => hm

lemma top_eq_none_of_subset {table table' : List Mount} {mountpoint : String} (h : table' ⊆ table)
    (hfree : top table mountpoint = none) : top table' mountpoint = none :=
  top_eq_none_iff.mpr fun m hm => top_eq_none_iff.mp hfree m (h hm)

lemma tableAtMount_subset {table : List Mount} {q : MountReq} {o : MountOutcome} :
    tableAtMount table q o ⊆ table := by
  unfold tableAtMount
  split
  · exact release_subset
  · exact fun m hm => hm

/-- A request adds a mount at its own mountpoint only. -/
lemma mem_runMount {table : List Mount} {q : MountReq} {o : MountOutcome} {m : Mount}
    (h : m ∈ runMount table q o) : m ∈ table ∨ m.mountpoint = normTarget q.target := by
  unfold runMount at h
  split at h
  · split at h
    · rcases List.mem_append.mp h with hm | hm
      · exact Or.inl (tableAtMount_subset hm)
      · rw [List.mem_singleton] at hm
        subst hm
        exact Or.inr rfl
    · exact Or.inl (tableAtMount_subset h)
  · exact Or.inl (tableAtMount_subset h)

/-- Requests are carried out one after another. -/
def serve (table : List Mount) (q : MountReq × MountOutcome) : List Mount := runMount table q.1 q.2

/-- Where `mount` is run for a request, nothing is mounted at its mountpoint. -/
def Unstacked (table : List Mount) (q : MountReq × MountOutcome) : Prop :=
  q.2.runs = true → top (tableAtMount table q.1 q.2) (normTarget q.1.target) = none

/-- Two requests are for different mountpoints. -/
def Apart (q q' : MountReq) : Prop := normTarget q.target ≠ normTarget q'.target

/-- Requests for distinct mountpoints, all of them empty, do not stack. -/
lemma unstacked_of_free {table : List Mount} {qs : List (MountReq × MountOutcome)}
    (hfree : ∀ q ∈ qs, top table (normTarget q.1.target) = none)
    (hapart : qs.Pairwise fun q q' => Apart q.1 q'.1) :
    Invariant.Along serve Unstacked table qs := by
  induction qs generalizing table with
  | nil => trivial
  | cons q qs ih =>
    obtain ⟨hhead, htail⟩ := List.pairwise_cons.mp hapart
    refine ⟨fun _ => top_eq_none_of_subset tableAtMount_subset (hfree q List.mem_cons_self), ?_⟩
    refine ih (fun q' hq' => top_eq_none_iff.mpr fun m hm heq => ?_) htail
    rcases mem_runMount hm with hmem | hpoint
    · exact top_eq_none_iff.mp (hfree q' (List.mem_cons_of_mem q hq')) m hmem heq
    · exact hhead q' hq' (hpoint.symm.trans heq)

/-- The request is carried out: the mountpoint can be created, and the mount goes through. -/
def MountOutcome.CarriedOut (o : MountOutcome) : Prop :=
  o.firstRelease = none ∧ o.runs = true ∧ o.mounts.isSome = true

/-- A request that is carried out adds its mount to the table. -/
lemma runMount_of_carriedOut {table : List Mount} {q : MountReq} {o : MountOutcome}
    (h : o.CarriedOut) :
    tableAtMount table q o = table ∧
      ∃ m, runMount table q o = table ++ [m] ∧ m.mountpoint = normTarget q.target := by
  obtain ⟨hfirst, hruns, hmounts⟩ := h
  obtain ⟨s, hs⟩ := Option.isSome_iff_exists.mp hmounts
  have htable : tableAtMount table q o = table := by
    rw [tableAtMount, hfirst]
  refine ⟨htable, ⟨normTarget q.target, s.source, s.fstype, s.options, normTarget_normTarget _⟩,
    ?_, rfl⟩
  rw [runMount, if_pos hruns, hs, htable]

/-- Requests that are carried out and do not stack are for distinct mountpoints, all of them
empty. -/
lemma free_of_unstacked {table : List Mount} {qs : List (MountReq × MountOutcome)}
    (hout : ∀ q ∈ qs, q.2.CarriedOut) (h : Invariant.Along serve Unstacked table qs) :
    (∀ q ∈ qs, top table (normTarget q.1.target) = none) ∧
      qs.Pairwise fun q q' => Apart q.1 q'.1 := by
  induction qs generalizing table with
  | nil => exact ⟨fun q hq => absurd hq List.not_mem_nil, List.Pairwise.nil⟩
  | cons q qs ih =>
    have hcarried := hout q List.mem_cons_self
    obtain ⟨htable, m, hserve, hpoint⟩ := @runMount_of_carriedOut table q.1 q.2 hcarried
    have hhead : top table (normTarget q.1.target) = none := by
      have hfree := h.1 hcarried.2.1
      rwa [htable] at hfree
    obtain ⟨hfree, hapart⟩ := ih (fun q' hq' => hout q' (List.mem_cons_of_mem q hq')) h.2
    have hserve' : serve table q = table ++ [m] := hserve
    rw [hserve'] at hfree
    refine ⟨fun q' hq' => ?_, List.pairwise_cons.mpr ⟨fun q' hq' heq => ?_, hapart⟩⟩
    · rcases List.mem_cons.mp hq' with rfl | hq'
      · exact hhead
      · exact top_eq_none_of_subset (List.subset_append_left table [m]) (hfree q' hq')
    · have hm : m ∈ table ++ [m] := List.mem_append_right table (List.mem_singleton_self m)
      exact top_eq_none_iff.mp (hfree q' hq') m hm (hpoint.trans heq)

/-! ## One tick -/

section Tick

variable (w : World) (i : Tick)

/-- No request of the tick stacks: the releases come first, then the requests in order. -/
def NeverStacks : Prop := Invariant.Along serve Unstacked (tableReleased w i) (attempts w i)

/-- A mount of the placement is requested: it is due, comes after a release or finds nothing mounted
in the table that was read, and a source is elected. -/
def requested (p : Placement) : Bool :=
  mountDue w i p && (paired w i p || (activeAt (seen w i) p.target).isNone) &&
    (electedSource w i p.target).isSome

/-- Nothing keeps the mount of the placement from stacking: it comes after a release, or the table
could not be read, or the target is not spelled as the kernel spells it. -/
def Unguarded (p : Placement) : Prop :=
  paired w i p = true ∨ i.tableReadable = false ∨ normTarget p.target ≠ p.target

/-- No mount can stack. -/
structure StackFree : Prop where
  /-- Where a mount is requested and nothing keeps it from stacking, the releases of the tick leave
  nothing mounted. -/
  free : ∀ p ∈ i.placements, requested w i p = true → Unguarded w i p →
    top (tableReleased w i) (normTarget p.target) = none
  /-- No two mounts are requested at one mountpoint. -/
  apart : i.placements.Pairwise fun p p' =>
    requested w i p = true → requested w i p' = true → normTarget p.target ≠ normTarget p'.target

end Tick

variable {w : World} {i : Tick}

/-- A request of a placement is for its target. -/
lemma of_mem_reqsFor {p : Placement} {q : MountReq} (h : q ∈ reqsFor w i p) :
    requested w i p = true ∧ q.target = p.target := by
  unfold reqsFor at h
  split at h
  · rename_i hguard
    obtain ⟨p', _, helected, _, htarget⟩ := requestFor_eq_some (Option.mem_toList.mp h)
    refine ⟨?_, htarget⟩
    rw [requested, hguard, helected]
    rfl
  · cases h

lemma exists_mem_reqsFor {p : Placement} (hp : p ∈ i.placements) (h : requested w i p = true) :
    ∃ q ∈ reqsFor w i p, q.target = p.target := by
  rw [requested, Bool.and_eq_true] at h
  obtain ⟨p', hlast, _, htarget⟩ := exists_lastFor hp
  obtain ⟨source, hsource⟩ := Option.isSome_iff_exists.mp h.2
  refine ⟨mountReq p'.mount source, ?_, htarget⟩
  rw [reqsFor, if_pos h.1, requestFor, hlast, hsource]
  exact List.mem_singleton_self _

lemma tableReleased_subset : tableReleased w i ⊆ w.table :=
  Invariant.foldl_invariant (I := fun table : List Mount => table ⊆ w.table)
    (fun _ _ _ hsub => List.Subset.trans release_subset hsub) fun _ hm => hm

/-- A mount that the look-up guards finds its mountpoint empty. -/
lemma free_of_guarded {p : Placement} (h : requested w i p = true) (hguard : ¬Unguarded w i p) :
    top (tableReleased w i) (normTarget p.target) = none := by
  rw [Unguarded, not_or, not_or, not_not] at hguard
  obtain ⟨hbare, hread, hnormal⟩ := hguard
  have hseen : seen w i = w.table := if_pos (Bool.of_not_eq_false hread)
  have hactive : activeAt (seen w i) p.target = none := by
    rw [requested, Bool.and_eq_true, Bool.and_eq_true, Bool.or_eq_true] at h
    exact Option.isNone_iff_eq_none.mp (h.1.2.resolve_left hbare)
  rw [activeAt, Option.map_eq_none_iff, hseen] at hactive
  rw [hnormal]
  exact top_eq_none_of_subset tableReleased_subset hactive

/-- The condition on the placements is that the requests are for distinct mountpoints that the
releases leave empty. -/
lemma stackFree_iff :
    StackFree w i ↔
      (∀ q ∈ requests w i, top (tableReleased w i) (normTarget q.target) = none) ∧
        (requests w i).Pairwise Apart := by
  rw [requests_eq, List.pairwise_flatMap]
  constructor
  · intro h
    refine ⟨fun q hq => ?_, fun p _ => ?_, h.apart.imp fun hapart q hq q' hq' => ?_⟩
    · obtain ⟨p, hp, hq⟩ := List.mem_flatMap.mp hq
      obtain ⟨hrequested, htarget⟩ := of_mem_reqsFor hq
      rw [htarget]
      by_cases hguard : Unguarded w i p
      · exact h.free p hp hrequested hguard
      · exact free_of_guarded hrequested hguard
    · -- a placement has one request at most
      unfold reqsFor
      split
      · cases requestFor w i p.target with
        | none => exact List.Pairwise.nil
        | some q => exact List.pairwise_singleton _ _
      · exact List.Pairwise.nil
    · obtain ⟨hrequested, htarget⟩ := of_mem_reqsFor hq
      obtain ⟨hrequested', htarget'⟩ := of_mem_reqsFor hq'
      rw [Apart, htarget, htarget']
      exact hapart hrequested hrequested'
  · rintro ⟨hfree, -, hapart⟩
    refine ⟨fun p hp hrequested _ => ?_,
      hapart.imp_of_mem fun hp hp' h hrequested hrequested' => ?_⟩
    · obtain ⟨q, hq, htarget⟩ := exists_mem_reqsFor hp hrequested
      rw [← htarget]
      exact hfree q (List.mem_flatMap.mpr ⟨p, hp, hq⟩)
    · obtain ⟨q, hq, htarget⟩ := exists_mem_reqsFor hp hrequested
      obtain ⟨q', hq', htarget'⟩ := exists_mem_reqsFor hp' hrequested'
      have hne := h q hq q' hq'
      rwa [Apart, htarget, htarget'] at hne

lemma map_fst_attempts : (attempts w i).map Prod.fst = requests w i := by
  rw [attempts, List.map_map]
  exact List.zipIdx_map_fst 0 (requests w i)

lemma forall_attempts_iff {P : MountReq → Prop} :
    (∀ q ∈ attempts w i, P q.1) ↔ ∀ q ∈ requests w i, P q := by
  rw [← map_fst_attempts, List.forall_mem_map]

lemma pairwise_attempts_iff :
    ((attempts w i).Pairwise fun q q' => Apart q.1 q'.1) ↔ (requests w i).Pairwise Apart := by
  rw [← map_fst_attempts, List.pairwise_map]

lemma neverStacks_of_stackFree (h : StackFree w i) : NeverStacks w i := by
  obtain ⟨hfree, hapart⟩ := stackFree_iff.mp h
  exact unstacked_of_free (forall_attempts_iff.mpr hfree) (pairwise_attempts_iff.mpr hapart)

lemma stackFree_of_neverStacks (hout : ∀ n, (i.mountOutcome n).CarriedOut)
    (h : NeverStacks w i) : StackFree w i := by
  have hattempts : ∀ q ∈ attempts w i, q.2.CarriedOut := by
    intro q hq
    obtain ⟨x, _, rfl⟩ := List.mem_map.mp hq
    exact hout x.2
  obtain ⟨hfree, hapart⟩ := free_of_unstacked hattempts h
  exact stackFree_iff.mpr ⟨forall_attempts_iff.mp hfree, pairwise_attempts_iff.mp hapart⟩

/-! ## Runs -/

/-- **Convergence never stacks** in a run in which, in every tick, the releases leave nothing at the
mountpoints whose mounts nothing else keeps from stacking, and no two mounts are requested at one
mountpoint.  Of a tick that carries out every request the condition is necessary. -/
theorem never_stacks (table : List Mount) (events : List Event) :
    (Invariant.Along step (OnTick StackFree) (initial table) events →
        Invariant.Along step (OnTick NeverStacks) (initial table) events) ∧
      ∀ w i, (∀ n, (i.mountOutcome n).CarriedOut) → (NeverStacks w i ↔ StackFree w i) := by
  refine ⟨fun h => ?_, fun w i hout => ⟨stackFree_of_neverStacks hout, neverStacks_of_stackFree⟩⟩
  exact Invariant.along_mono (onTick_mono fun _ _ => neverStacks_of_stackFree) h

/-! ## A target with a slash at the end -/

/-- The theorem at a run in which the share is mounted where nothing is mounted, and stays. -/
theorem never_stacks_sample :
    Invariant.Along step (OnTick NeverStacks) (initial [])
      [.tick (smoothTick (nasPlacement "/mnt/data" .missing)),
        .tick (smoothTick (nasPlacement "/mnt/data" .ok))] := by
  refine (never_stacks [] _).1 ⟨⟨fun p hp _ _ => ?_, List.pairwise_singleton _ _⟩,
    ⟨fun p hp hrequested _ => ?_, List.pairwise_singleton _ _⟩, trivial⟩
  · rw [List.mem_singleton.mp hp]
    decide +kernel
  · obtain rfl := List.mem_singleton.mp hp
    revert hrequested
    decide +kernel

/-- Two ticks that find the disk at the target stale. -/
def slashEvents : List Event :=
  [.tick (smoothTick (nasPlacement "/mnt/data/" .stale)),
    .tick (smoothTick (nasPlacement "/mnt/data/" .stale))]

/-- The host after the first of them. -/
def slashWorld : World := run (initial [foreignDisk]) (slashEvents.take 1)

/-- A share that is desired at a target with a slash at the end is mounted over the disk of somebody
else. -/
theorem slash_stacks :
    ¬(∀ (table : List Mount) (events : List Event),
        Invariant.Along step (OnTick NeverStacks) (initial table) events) ∧
      (run (initial [foreignDisk]) slashEvents).table.map Mount.source =
        ["/dev/sdb1", "nas:/data"] := by
  refine ⟨fun hall => ?_, by decide +kernel⟩
  have hlast : NeverStacks slashWorld (smoothTick (nasPlacement "/mnt/data/" .stale)) :=
    (hall [foreignDisk] slashEvents).2.1
  obtain ⟨hfree, -⟩ := stackFree_iff.mp (stackFree_of_neverStacks (fun _ => ⟨rfl, rfl, rfl⟩) hlast)
  have hrequests : requests slashWorld (smoothTick (nasPlacement "/mnt/data/" .stale)) =
      [mountReq (nasMount "/mnt/data/") "nas:/data"] := by decide +kernel
  have hbusy := hfree (mountReq (nasMount "/mnt/data/") "nas:/data") (by simp [hrequests])
  revert hbusy
  decide +kernel

end Orca.Mounts
