import Orca.Mounts.Satisfied

/-!
# Mounts of replicated shares

A share may name a replication relationship.  As long as it is not known that the replicas are in
step, a mount of the share must not be moved from one of them to another.  The gate for this is in
the decision about healthy mounts; a mount that is stale, or that the tick takes for missing, gets
whatever source has been elected.

`keepsReplica_iff` says exactly when a tick keeps such mounts where they are.
-/

namespace Orca.Mounts

/-- No request for the target of a placement whose replication is not confirmed healthy names
another source than the one mounted there at the start of the tick. -/
def KeepsReplica (w : World) (i : Tick) : Prop :=
  ∀ p ∈ i.placements, ∀ ref, p.mount.replication = some ref → i.replication ref ≠ some true →
    ∀ m, top w.table (normTarget p.target) = some m →
      ∀ q ∈ requests w i, q.target = p.target → sameSource m.source q.source = true

/-- The tick mounts the elected source at the target: it takes the target for missing and sees
nothing mounted there; or the target is confirmed stale, and is released or seen unmounted; or it is
healthy, and a swap of one of its placements is confirmed and carried out. -/
def MountsElected (w : World) (i : Tick) (t : String) : Prop :=
  (t ∉ mountedAny w i ∧ activeAt (seen w i) t = none) ∨
    (t ∈ mountedAny w i ∧ t ∉ healthy w i ∧ (owned w i t = true ∨ activeAt (seen w i) t = none)) ∨
      (t ∈ mountedAny w i ∧ t ∈ healthy w i ∧ owned w i t = true ∧
        ∃ p ∈ i.placements, p.target = t ∧ swapDue w i p = true)

/-- Where a placement with unconfirmed replication is mounted from another source than the elected
one, the tick does not mount the elected source. -/
def ReplicaGuarded (w : World) (i : Tick) : Prop :=
  ∀ p ∈ i.placements, ∀ ref, p.mount.replication = some ref → i.replication ref ≠ some true →
    ∀ m, top w.table (normTarget p.target) = some m →
      ∀ source, electedSource w i p.target = some source → sameSource m.source source = false →
        ¬MountsElected w i p.target

variable {w : World} {i : Tick} {p : Placement}

/-- What is to be mounted again for its options is on its elected source. -/
lemma sameSource_of_driftDue {m : Mount} {source : String} (h : driftDue w i p = true)
    (hm : top w.table (normTarget p.target) = some m)
    (helected : electedSource w i p.target = some source) : sameSource m.source source = true := by
  obtain ⟨m', hm', -⟩ := top_of_driftDue h
  rw [driftDue, Bool.and_eq_true, decide_eq_true_iff] at h
  obtain ⟨e, a, he, ha, hsame⟩ := sameSource_of_driftAction h.2
  rw [helected, Option.some.injEq] at he
  rw [activeAt, hm', Option.map_some, Option.some.injEq] at ha
  rw [← he, ← ha, top_eq_of_top_seen hm hm', sameSource_comm] at hsame
  exact hsame

/-- A mount that is requested for a target mounted elsewhere comes from one of three branches. -/
lemma mountsElected_of_requested {m : Mount} {source : String} (hp : p ∈ i.placements)
    (hdue : mountDue w i p = true)
    (hguard : paired w i p = true ∨ activeAt (seen w i) p.target = none)
    (helected : electedSource w i p.target = some source)
    (hm : top w.table (normTarget p.target) = some m)
    (hsame : sameSource m.source source = false) : MountsElected w i p.target := by
  have howned : paired w i p = true → owned w i p.target = true := fun h => by
    rw [paired, Bool.and_eq_true] at h
    exact h.2
  by_cases hmounted : p.target ∈ mountedAny w i
  · have hrelease : releaseDue w i p = true := by simpa [mountDue, hmounted] using hdue
    by_cases hhealthy : p.target ∈ healthy w i
    · have hwhy : swapDue w i p = true ∨ p.target ∈ optionDrift w i := by
        simpa [releaseDue, hmounted, hhealthy] using hrelease
      rcases hwhy with hswap | hdrift
      · obtain ⟨_, a, _, _, _, hactive⟩ := active_of_swapDue hswap
        rcases hguard with hpaired | hnone
        · exact Or.inr (Or.inr ⟨hmounted, hhealthy, howned hpaired, p, hp, rfl, hswap⟩)
        · rw [hactive] at hnone
          cases hnone
      · -- a mount on another source is not mounted again for its options
        obtain ⟨p', hp', htarget⟩ := List.mem_map.mp hdrift
        rw [← htarget] at hm helected
        rw [sameSource_of_driftDue (List.mem_filter.mp hp').2 hm helected] at hsame
        cases hsame
    · exact Or.inr (Or.inl ⟨hmounted, hhealthy, hguard.imp_left howned⟩)
  · have hbare : paired w i p = false := by simp [paired, releaseDue, hmounted]
    rcases hguard with hpaired | hnone
    · rw [hbare] at hpaired
      cases hpaired
    · exact Or.inl ⟨hmounted, hnone⟩

/-- Each of the three branches requests a mount of the elected source. -/
lemma exists_request_of_mountsElected {source : String} (hp : p ∈ i.placements)
    (helected : electedSource w i p.target = some source) (h : MountsElected w i p.target) :
    ∃ q ∈ requests w i, q.target = p.target ∧ q.source = source := by
  have hrequest : ∀ p' ∈ i.placements, p'.target = p.target → mountDue w i p' = true →
      (paired w i p' = true ∨ activeAt (seen w i) p'.target = none) →
        ∃ q ∈ requests w i, q.target = p.target ∧ q.source = source := by
    intro p' hp' htarget hdue hguard
    obtain ⟨last, hlast, _, hlasttarget⟩ := exists_lastFor hp'
    refine ⟨mountReq last.mount source, mem_requests_iff.mpr ⟨p', hp', hdue, hguard, ?_⟩,
      hlasttarget.trans htarget, rfl⟩
    rw [requestFor, hlast, htarget, helected]
  rcases h with ⟨hmounted, hnone⟩ | ⟨hmounted, hhealthy, hguard⟩ |
    ⟨hmounted, _, howned, p', hp', htarget, hswap⟩
  · exact hrequest p hp rfl (by simp [mountDue, hmounted]) (Or.inr hnone)
  · have hrelease : releaseDue w i p = true := by simp [releaseDue, hmounted, hhealthy]
    refine hrequest p hp rfl (by simp [mountDue, hrelease]) (hguard.imp_left fun howned => ?_)
    rw [paired, hrelease, howned, Bool.and_self]
  · have hrelease : releaseDue w i p' = true := by simp [releaseDue, htarget, hmounted, hswap]
    refine hrequest p' hp' htarget (by simp [mountDue, hrelease]) (Or.inl ?_)
    rw [paired, hrelease, htarget, howned, Bool.and_self]

/-- A tick moves no mount of an unconfirmed replica exactly if none of its branches mounts the
elected source over it. -/
theorem keepsReplica_iff : KeepsReplica w i ↔ ReplicaGuarded w i := by
  constructor
  · intro h p hp ref href hhealth m hm source helected hsame hmounts
    obtain ⟨q, hq, htarget, rfl⟩ := exists_request_of_mountsElected hp helected hmounts
    rw [h p hp ref href hhealth m hm q hq htarget] at hsame
    cases hsame
  · intro h p hp ref href hhealth m hm q hq htarget
    obtain ⟨p', hp', hdue, hguard, hrequest⟩ := mem_requests_iff.mp hq
    obtain ⟨_, _, helected, _, htarget'⟩ := requestFor_eq_some hrequest
    have heq : p'.target = p.target := htarget'.symm.trans htarget
    rw [← Bool.not_eq_false]
    intro hsame
    refine h p hp ref href hhealth m hm q.source (heq ▸ helected) hsame ?_
    rw [← heq] at hm ⊢
    exact mountsElected_of_requested hp' hdue hguard helected hm hsame

/-- The gate holds a swap of a placement that is alone at its target. -/
lemma not_swapDue_of_gate {ref : String} (hp : p ∈ i.placements)
    (halone : ∀ p' ∈ i.placements, p'.target = p.target → p' = p)
    (href : p.mount.replication = some ref) (hhealth : i.replication ref ≠ some true) :
    swapDue w i p = false := by
  rw [Bool.eq_false_iff]
  intro hswap
  obtain ⟨sig, a, hsig, hswap, _, _⟩ := active_of_swapDue hswap
  obtain ⟨p', _, rfl⟩ := Option.map_eq_some_iff.mp hsig
  have hgate := (shouldSwap_iff.mp hswap).2.2.1 (by rw [href]; rfl)
  -- the health in the signal is that of the placement's own reference
  have hown : replicationHealth i p.target = i.replication ref := by
    have hne : i.placements.filter (fun p' => p'.target = p.target && p'.mount.replication.isSome) ≠
        [] := List.ne_nil_of_mem (List.mem_filter.mpr ⟨hp, by simp [href]⟩)
    have hmem := List.mem_filter.mp (List.getLast_mem hne)
    rw [Bool.and_eq_true, decide_eq_true_iff] at hmem
    rw [replicationHealth, List.getLast?_eq_some_getLast hne, halone _ hmem.1 hmem.2.1,
      Option.bind_some, href, Option.bind_some]
  exact hhealth (hown ▸ hgate)

/-- **No mount is moved to an unconfirmed replica** in a run exactly if in every tick, where the
elected source is another one than the source mounted, none of the branches that mount the elected
source is taken.  The branch for healthy mounts is never taken by a placement alone at its target.
-/
theorem keeps_replica (table : List Mount) (events : List Event) :
    (Invariant.Along step (OnTick KeepsReplica) (initial table) events ↔
        Invariant.Along step (OnTick ReplicaGuarded) (initial table) events) ∧
      ∀ w i p ref, p ∈ i.placements → (∀ p' ∈ i.placements, p'.target = p.target → p' = p) →
        p.mount.replication = some ref → i.replication ref ≠ some true → swapDue w i p = false := by
  refine ⟨Invariant.along_congr (onTick_congr fun _ _ => keepsReplica_iff), ?_⟩
  exact fun w i p ref => not_swapDue_of_gate

/-! ## A stale mount of a replicated share -/

/-- A share with two replicas, whose relationship nobody reports on; `live` tells which answer. -/
def replicaPlacement (health : MountHealth) (live : ℕ → Bool) : Placement :=
  { nasPlacement "/mnt/data" health with
    mount := { nasMount "/mnt/data" with sources := ["a:/d", "b:/d"], replication := some "rel" }
    live := live }

/-- A tick in which the source `a` is what a mount request mounts. -/
def replicaTick (p : Placement) : Tick :=
  { smoothTick p with mountOutcome := fun _ => ⟨none, true, some ⟨"a:/d", "nfs4", ["hard"]⟩, true⟩ }

/-- The first replica is mounted, and stops answering: the mount is found stale twice. -/
def replicaEvents : List Event :=
  [.tick (replicaTick (replicaPlacement .missing fun _ => true)),
    .tick (replicaTick (replicaPlacement .stale (· = 1))),
    .tick (replicaTick (replicaPlacement .stale (· = 1)))]

/-- The host before the last tick. -/
def replicaWorld : World := run (initial []) (replicaEvents.take 2)

/-- The second replica is mounted in place of the first, although nobody has confirmed it. -/
theorem replica_moved :
    ¬(∀ (table : List Mount) (events : List Event),
        Invariant.Along step (OnTick KeepsReplica) (initial table) events) ∧
      replicaWorld.table.map Mount.source = ["a:/d"] ∧
        (requests replicaWorld
          (replicaTick (replicaPlacement .stale (· = 1)))).map MountReq.source = ["b:/d"] := by
  refine ⟨fun hall => ?_, by decide +kernel, by decide +kernel⟩
  have hlast : KeepsReplica replicaWorld (replicaTick (replicaPlacement .stale (· = 1))) :=
    (hall [] replicaEvents).2.2.1
  have hmounted : top replicaWorld.table (normTarget "/mnt/data") =
      some ⟨"/mnt/data", "a:/d", "nfs4", ["hard"], normTarget_data⟩ := by decide +kernel
  have hrequests : requests replicaWorld (replicaTick (replicaPlacement .stale (· = 1))) =
      [⟨"b:/d", "/mnt/data", "nfs4", "hard"⟩] := by decide +kernel
  have hsame := hlast _ (List.mem_singleton_self _) "rel" rfl (by decide) _ hmounted
    ⟨"b:/d", "/mnt/data", "nfs4", "hard"⟩ (by simp [hrequests]) rfl
  revert hsame
  decide +kernel

end Orca.Mounts
