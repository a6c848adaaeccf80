import Orca.Mounts.Execution

/-!
# Placements that are satisfied

A placement that is mounted, healthy, on its elected source and without drifted options needs
nothing.  Whether the live source is the elected one is asked twice: the drift path compares the two
through `sameSource`, the transition of the election compares them as they are spelled.  Where the
kernel spells the source in another way than the route, the transition sees another source and
swaps.

`leftAlone_iff` says exactly when a tick leaves the target of such a placement alone, and
`leftAlone_of_spelling` that a placement alone at its target is left alone if the two spellings
agree.
-/

namespace Orca.Mounts

/-- The placement is satisfied by the mount `m`, which is from the elected source `e`. -/
structure SatisfiedBy (p : Placement) (m : Mount) (e : String) (w : World) (i : Tick) : Prop where
  desired : p ∈ i.placements
  /-- It is found mounted and healthy. -/
  healthy : presence w p = .healthy
  mounted : top w.table (normTarget p.target) = some m
  elected : electedSource w i p.target = some e
  same : sameSource m.source e = true
  options : optionsDrifted p.mount.options m.options = false

/-- The tick neither releases the target nor requests a mount of it. -/
def LeftAlone (t : String) (w : World) (i : Tick) : Prop :=
  t ∉ handed w i ∧ ∀ q ∈ requests w i, q.target ≠ t

/-- The target is in the ledger, and a swap of a placement there is confirmed, or one there is to be
mounted again for its options. -/
def ActionDue (t : String) (w : World) (i : Tick) : Prop :=
  owned w i t = true ∧
    ∃ p ∈ i.placements, p.target = t ∧ (swapDue w i p = true ∨ driftDue w i p = true)

variable {w : World} {i : Tick} {p : Placement} {m : Mount} {e : String}

lemma contains_of_healthy (hp : p ∈ i.placements) (h : presence w p = .healthy) :
    (mountedAny w i).contains p.target = true ∧ (healthy w i).contains p.target = true := by
  constructor
  · rw [List.contains_iff_mem]
    exact List.mem_map.mpr ⟨p, List.mem_filter.mpr ⟨hp, by simp [h]⟩, rfl⟩
  · rw [List.contains_iff_mem]
    refine List.mem_append_left _ ?_
    exact List.mem_map.mpr ⟨p, List.mem_filter.mpr ⟨hp, by simp [h]⟩, rfl⟩

/-- At a healthy target a release is due for a swap or for the options only. -/
lemma releaseDue_iff_of_healthy (hp : p ∈ i.placements) (h : presence w p = .healthy)
    {p' : Placement} (htarget : p'.target = p.target) :
    releaseDue w i p' = true ↔ swapDue w i p' = true ∨
      ∃ p'' ∈ i.placements, p''.target = p.target ∧ driftDue w i p'' = true := by
  obtain ⟨hmounted, hhealthy⟩ := contains_of_healthy hp h
  have hdrift : (optionDrift w i).contains p.target = true ↔
      ∃ p'' ∈ i.placements, p''.target = p.target ∧ driftDue w i p'' = true := by
    rw [List.contains_iff_mem, optionDrift, List.mem_map]
    constructor
    · rintro ⟨p'', hp'', heq⟩
      exact ⟨p'', (List.mem_filter.mp hp'').1, heq, (List.mem_filter.mp hp'').2⟩
    · rintro ⟨p'', hp'', heq, hdue⟩
      exact ⟨p'', List.mem_filter.mpr ⟨hp'', hdue⟩, heq⟩
  rw [releaseDue, htarget, hmounted, hhealthy, ← hdrift]
  simp

lemma active_of_swapDue (h : swapDue w i p = true) :
    ∃ sig a, failover w i p.target = some sig ∧ shouldSwap p.mount sig = true ∧
      sig.active = some a ∧ activeAt (seen w i) p.target = some a := by
  obtain ⟨sig, hsig, hswap⟩ := (Option.any_eq_true _ _).mp h
  obtain ⟨a, ha⟩ := active_of_swapCandidate (shouldSwap_iff.mp hswap).2.1
  refine ⟨sig, a, hsig, hswap, ha, ?_⟩
  obtain ⟨p', _, rfl⟩ := Option.map_eq_some_iff.mp hsig
  exact ha

/-- What is to be mounted again for its options is seen mounted, with options that have drifted. -/
lemma top_of_driftDue (h : driftDue w i p = true) :
    ∃ m, top (seen w i) p.target = some m ∧ optionsDrifted p.mount.options m.options = true := by
  rw [driftDue, Bool.and_eq_true, Bool.and_eq_true, Bool.and_eq_true] at h
  exact (Option.any_eq_true _ _).mp h.1.1.2

lemma not_mem_removed (hp : p ∈ i.placements) : p.target ∉ (removeOrphans w i).2 := by
  intro h
  obtain ⟨horphan, -⟩ := mem_removeOrphans_iff.mp h
  obtain ⟨_, _, _, hnormal, _⟩ := recorded_of_mem_removeOrphans h
  have hnot := of_decide_eq_true (List.mem_filter.mp horphan).2
  exact hnot (List.mem_map.mpr ⟨p, hp, hnormal⟩)

/-- A tick leaves the target of a healthy placement alone exactly if no action is due. -/
theorem leftAlone_iff (hp : p ∈ i.placements) (h : presence w p = .healthy) :
    LeftAlone p.target w i ↔ ¬ActionDue p.target w i := by
  constructor
  · rintro ⟨hhanded, -⟩ ⟨howned, p', hp', htarget, hdue⟩
    refine hhanded (mem_handed_iff.mpr (Or.inl ⟨p', hp', ?_, htarget⟩))
    rw [paired, htarget, howned, Bool.and_true, releaseDue_iff_of_healthy hp h htarget]
    exact hdue.imp_right fun hdrift => ⟨p', hp', htarget, hdrift⟩
  · intro hnot
    -- whatever is due at the target would be an action
    have hpaired : ∀ p' ∈ i.placements, p'.target = p.target → paired w i p' = false := by
      intro p' hp' htarget
      rw [Bool.eq_false_iff]
      intro hpaired
      rw [paired, Bool.and_eq_true, releaseDue_iff_of_healthy hp h htarget, htarget] at hpaired
      obtain ⟨hswap | ⟨p'', hp'', htarget'', hdrift⟩, howned⟩ := hpaired
      · exact hnot ⟨howned, p', hp', htarget, Or.inl hswap⟩
      · exact hnot ⟨howned, p'', hp'', htarget'', Or.inr hdrift⟩
    constructor
    · intro hhanded
      rcases mem_handed_iff.mp hhanded with ⟨p', hp', hp'paired, htarget⟩ | hremoved
      · rw [hpaired p' hp' htarget] at hp'paired
        cases hp'paired
      · exact not_mem_removed hp hremoved
    · intro q hq htarget
      obtain ⟨p', hp', hdue, hguard, hrequest⟩ := mem_requests_iff.mp hq
      obtain ⟨_, _, _, _, hq'⟩ := requestFor_eq_some hrequest
      have htarget' : p'.target = p.target := hq'.symm.trans htarget
      -- something is seen mounted at a healthy target at which an action is due
      rcases hguard with hp'paired | hnone
      · rw [hpaired p' hp' htarget'] at hp'paired
        cases hp'paired
      · have hmounted := (contains_of_healthy hp h).1
        rw [mountDue, htarget', hmounted, Bool.not_true, Bool.false_or,
          releaseDue_iff_of_healthy hp h htarget'] at hdue
        rcases hdue with hswap | ⟨p'', _, htarget'', hdrift⟩
        · obtain ⟨_, a, _, _, _, hactive⟩ := active_of_swapDue hswap
          rw [hactive] at hnone
          cases hnone
        · obtain ⟨m', hm', _⟩ := top_of_driftDue hdrift
          rw [htarget', ← htarget'', activeAt, hm'] at hnone
          cases hnone

/-- What the tick sees mounted at a target spelled as the kernel spells it is on top there. -/
lemma top_eq_of_top_seen {t : String} {m m' : Mount} (hm : top w.table (normTarget t) = some m)
    (hm' : top (seen w i) t = some m') : m' = m := by
  have hseen : top w.table t = some m' := by
    unfold seen at hm'
    split at hm'
    · exact hm'
    · cases hm'
  have hpoint : m'.mountpoint = t :=
    of_decide_eq_true (List.mem_filter.mp (List.mem_of_getLast? hseen)).2
  have hnormal : normTarget t = t := by
    rw [← hpoint]
    exact m'.normal
  rw [hnormal, hseen] at hm
  exact Option.some.inj hm

/-- A satisfied placement, alone at its target, is left alone if the kernel spells the source as the
route does. -/
lemma leftAlone_of_spelling (h : SatisfiedBy p m e w i) (hspelled : m.source = e)
    (halone : ∀ p' ∈ i.placements, p'.target = p.target → p' = p) : LeftAlone p.target w i := by
  refine (leftAlone_iff h.desired h.healthy).mpr ?_
  rintro ⟨-, p', hp', htarget, hdue⟩
  obtain rfl := halone p' hp' htarget
  rcases hdue with hswap | hdrift
  · obtain ⟨sig, a, hsig, hswap, ha, hactive⟩ := active_of_swapDue hswap
    obtain ⟨m', hm', rfl⟩ := Option.map_eq_some_iff.mp hactive
    obtain rfl := top_eq_of_top_seen h.mounted hm'
    obtain ⟨p'', _, rfl⟩ := Option.map_eq_some_iff.mp hsig
    obtain ⟨election, helection, hsource⟩ := Option.bind_eq_some_iff.mp h.elected
    cases election with
    | empty => cases hsource
    | elected source index =>
      have hsource' : source = e := Option.some.inj hsource
      have hcandidate := (shouldSwap_iff.mp hswap).2.1
      rw [@not_swapCandidate_of_eq _ _ source index (by simp [signal, helection])
        (by rw [ha, hspelled, hsource'])] at hcandidate
      cases hcandidate
  · obtain ⟨m', hm', hdrifted⟩ := top_of_driftDue hdrift
    rw [top_eq_of_top_seen h.mounted hm', h.options] at hdrifted
    cases hdrifted

/-- **A satisfied placement is left alone** in a tick exactly if no action is due at its target, and
in a run in which it stays satisfied by the same mount and the same elected source exactly if no
action is due in any of its ticks.  None is due at a placement alone at its target if the source is
spelled as it is elected. -/
theorem satisfied_left_alone (p : Placement) (m : Mount) (e : String) :
    (∀ w i, SatisfiedBy p m e w i → (LeftAlone p.target w i ↔ ¬ActionDue p.target w i)) ∧
      (∀ w events, Invariant.Along step (OnTick (SatisfiedBy p m e)) w events →
        (Invariant.Along step (OnTick (LeftAlone p.target)) w events ↔
          Invariant.Along step (OnTick fun w i => ¬ActionDue p.target w i) w events)) ∧
        ∀ w i, SatisfiedBy p m e w i → m.source = e →
          (∀ p' ∈ i.placements, p'.target = p.target → p' = p) → LeftAlone p.target w i := by
  have htick : ∀ w i, SatisfiedBy p m e w i → (LeftAlone p.target w i ↔ ¬ActionDue p.target w i) :=
    fun w i h => leftAlone_iff h.desired h.healthy
  refine ⟨htick, fun w events h => ?_, fun w i => leftAlone_of_spelling⟩
  have hboth : ∀ {P Q : World → Tick → Prop}, (∀ w i, SatisfiedBy p m e w i → P w i → Q w i) →
      Invariant.Along step (OnTick P) w events → Invariant.Along step (OnTick Q) w events := by
    intro P Q himp hP
    refine Invariant.along_mono (fun w event hevent => ?_) (Invariant.along_and.mpr ⟨h, hP⟩)
    cases event with
    | tick i => exact himp w i hevent.1 hevent.2
    | outside table => trivial
    | restart => trivial
  exact ⟨hboth fun w i hs => (htick w i hs).mp, hboth fun w i hs => (htick w i hs).mpr⟩

/-! ## A host in capital letters -/

/-- The share under a route that spells its host in capital letters. -/
def capitalPlacement (health : MountHealth) : Placement :=
  { nasPlacement "/mnt/data" health with
    mount := { nasMount "/mnt/data" with sources := ["NAS:/data"] } }

/-- The share as the kernel shows it. -/
def nasShown : Mount := ⟨"/mnt/data", "nas:/data", "nfs4", ["hard"], normTarget_data⟩

/-- The host after convergence has mounted the share and found it healthy once. -/
def capitalWorld : World :=
  run (initial [])
    [.tick (smoothTick (capitalPlacement .missing)), .tick (smoothTick (capitalPlacement .ok))]

/-- The placement is satisfied by the mount, but for the spelling of the source. -/
lemma capital_satisfied :
    SatisfiedBy (capitalPlacement .ok) nasShown "NAS:/data" capitalWorld
      (smoothTick (capitalPlacement .ok)) where
  desired := List.mem_singleton_self _
  healthy := by decide +kernel
  mounted := by decide +kernel
  elected := by decide +kernel
  same := by decide +kernel
  options := by decide +kernel

/-- The theorem at a run in which the share is mounted under the spelling of its route. -/
theorem satisfied_left_alone_sample :
    LeftAlone "/mnt/data"
      (run (initial []) [.tick (smoothTick (nasPlacement "/mnt/data" .missing))])
      (smoothTick (nasPlacement "/mnt/data" .ok)) := by
  refine (satisfied_left_alone (nasPlacement "/mnt/data" .ok) nasShown "nas:/data").2.2 _
    (smoothTick (nasPlacement "/mnt/data" .ok)) ⟨List.mem_singleton_self _, ?_, ?_, ?_, ?_, ?_⟩ rfl
    fun p' hp' _ => List.mem_singleton.mp hp'
  all_goals decide +kernel

/-- The share is released and mounted again in the second tick that finds it healthy. -/
theorem satisfied_remounted :
    ¬(∀ (p : Placement) (m : Mount) (e : String) (table : List Mount) (events : List Event)
        (i : Tick),
        SatisfiedBy p m e (run (initial table) events) i →
          LeftAlone p.target (run (initial table) events) i) ∧
      handed capitalWorld (smoothTick (capitalPlacement .ok)) = ["/mnt/data"] ∧
        (requests capitalWorld (smoothTick (capitalPlacement .ok))).map MountReq.source =
          ["NAS:/data"] := by
  have hhanded : handed capitalWorld (smoothTick (capitalPlacement .ok)) = ["/mnt/data"] := by
    decide +kernel
  refine ⟨fun hall => ?_, hhanded, by decide +kernel⟩
  have halone : LeftAlone "/mnt/data" capitalWorld (smoothTick (capitalPlacement .ok)) :=
    hall (capitalPlacement .ok) nasShown "NAS:/data" [] _ (smoothTick (capitalPlacement .ok))
      capital_satisfied
  exact halone.1 (by simp [hhanded])

end Orca.Mounts
