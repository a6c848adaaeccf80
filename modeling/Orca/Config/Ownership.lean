import Orca.Config.Rows
import Orca.Library.Check

/-!
# Ownership of config rows

What `reconcile_ownership` leaves.  A stray is a row this system wrote (`is_replica = 0`) under an
id that is not its own.  The strays are taken one after the other: a stray whose key the local id
holds already gives way, any other one is put under the local id.

`Reclaiming` is the invariant of that loop.  The test for the row under the local id looks at the
key alone, so that a stray gives way to a replica as well, and then no writable row is left.  The
result says that this is the only way for the call to fall short
(`reconcileOwnership_keeps_one_writable_iff`).
-/

namespace Orca

/-- What a row configures. -/
def ConfigRow.setting (r : ConfigRow) : String × String := (r.noun, r.name)

/-- The key of a row under another owner. -/
def ConfigRow.keyUnder (r : ConfigRow) (owner : String) : String × String × String :=
  (r.noun, r.name, owner)

lemma ConfigRow.key_eq_keyUnder {r r' : ConfigRow} {owner : String} :
    r.key = r'.keyUnder owner ↔ r.setting = r'.setting ∧ r.hostOwner = owner := by
  simp [ConfigRow.key, ConfigRow.keyUnder, ConfigRow.setting, and_assoc]

namespace ConfigStore

/-- What a call of `reconcile_ownership` on `s` should leave. -/
structure Reconciled (s : ConfigStore) (peers : List String) (localId : String)
    (s' : ConfigStore) : Prop where
  /-- A writable row is owned by this system. -/
  owned : ∀ r ∈ s'.rows.rows, r.isReplica = false → r.hostOwner = localId
  /-- A setting that had a writable row has exactly one. -/
  one : ∀ r ∈ s.rows.rows, r.isReplica = false →
    ∃! r', r' ∈ s'.rows.rows ∧ r'.isReplica = false ∧ r'.setting = r.setting
  /-- A row of a listed system that is not there any more was writable. -/
  kept : ∀ r ∈ s.rows.rows, r.hostOwner ∈ peers → r ∉ s'.rows.rows → r.isReplica = false
  settled : s'.reconcileOwnership peers localId = .ok (s', 0)

/-- The call succeeds and leaves one writable row of each setting. -/
def KeepsOneWritable (s : ConfigStore) (peers : List String) (localId : String) : Prop :=
  ∃ s' n, s.reconcileOwnership peers localId = .ok (s', n) ∧ s.Reconciled peers localId s'

/-- No stray has a replica for the row of its key under the local id. -/
def NoReplicaUnder (s : ConfigStore) (localId : String) : Prop :=
  ∀ stray ∈ s.strays localId, ∀ r ∈ s.rows.rows,
    r.key = stray.keyUnder localId → r.isReplica = false

instance (s : ConfigStore) (localId : String) : Decidable (s.NoReplicaUnder localId) :=
  inferInstanceAs (Decidable (∀ stray ∈ s.strays localId, ∀ r ∈ s.rows.rows,
    r.key = stray.keyUnder localId → r.isReplica = false))

lemma mem_strays {s : ConfigStore} {localId : String} {r : ConfigRow} :
    r ∈ s.strays localId ↔ r ∈ s.rows.rows ∧ r.isReplica = false ∧ r.hostOwner ≠ localId := by
  simp [strays]

/-! ## One stray -/

lemma id_eq_iff {s : ConfigStore} {stray : ConfigRow} (hstray : stray ∈ s.rows.rows) :
    ∀ r ∈ s.rows.rows, decide (r.id = stray.id) = true ↔ r = stray := by
  intro r hr
  rw [decide_eq_true_eq]
  exact ⟨fun h => s.rows.eq_of_uid hr hstray h, fun h => h ▸ rfl⟩

/-- A stray whose key is held under the local id is deleted. -/
lemma reclaim_of_held {localId : String} {s : ConfigStore} {stray own : ConfigRow}
    (hstray : stray ∈ s.rows.rows) (hown : own ∈ s.rows.rows)
    (hkey : own.key = stray.keyUnder localId) :
    ∃ s', reclaim localId s stray = .ok s' ∧
      ∀ r, r ∈ s'.rows.rows ↔ r ∈ s.rows.rows ∧ r ≠ stray := by
  have hheld : s.getOwned localId stray.noun stray.name = some own :=
    KeyedTable.find_eq_some_iff.mpr ⟨hown, hkey⟩
  refine ⟨_, if_pos (by rw [hheld]; rfl), ?_⟩
  intro r
  rw [UniqueTable.mem_deleteWhere]
  refine and_congr_right fun hr => ?_
  rw [← Bool.not_eq_true, id_eq_iff hstray r hr]

/-- A stray whose key is free under the local id is put under it. -/
lemma reclaim_of_free {localId : String} {s : ConfigStore} {stray : ConfigRow}
    (hstray : stray ∈ s.rows.rows) (hfree : ∀ r ∈ s.rows.rows, r.key ≠ stray.keyUnder localId) :
    ∃ s', reclaim localId s stray = .ok s' ∧ ∀ r, r ∈ s'.rows.rows ↔
      r = { stray with hostOwner := localId } ∨ (r ∈ s.rows.rows ∧ r ≠ stray) := by
  have hnone : s.getOwned localId stray.noun stray.name = none :=
    KeyedTable.find_eq_none_iff.mpr hfree
  have hheld : ¬(s.getOwned localId stray.noun stray.name).isSome = true := by
    rw [hnone]
    exact Bool.false_ne_true
  obtain ⟨rows, hrows, hmem⟩ := UniqueTable.updateWhere_of_free (t := s.rows)
    (f := fun r : ConfigRow => { r with hostOwner := localId }) hstray (id_eq_iff hstray)
    (fun r hr _ => hfree r hr)
    (fun r hr hne heq => hne (s.rows.eq_of_uid hr hstray heq))
  refine ⟨{ s with rows }, ?_, hmem⟩
  rw [reclaim, if_neg hheld, hrows]

/-! ## The loop over the strays -/

/-- The state of the loop when the strays `todo` are left. -/
structure Reclaiming (localId : String) (s₀ : ConfigStore) (todo : List ConfigRow)
    (s : ConfigStore) : Prop where
  /-- The strays that are left are in the table. -/
  pending : ∀ r ∈ todo, r ∈ s.rows.rows
  stray : ∀ r ∈ todo, r ∈ s₀.strays localId
  nodup : todo.Nodup
  replicas : ∀ r, r.isReplica = true → (r ∈ s.rows.rows ↔ r ∈ s₀.rows.rows)
  /-- Every other writable row is owned by this system. -/
  owned : ∀ r ∈ s.rows.rows, r.isReplica = false → r.hostOwner = localId ∨ r ∈ todo
  /-- Every writable row is still to come or its key is held under the local id. -/
  held : ∀ r ∈ s₀.rows.rows, r.isReplica = false →
    r ∈ todo ∨ ∃ own ∈ s.rows.rows, own.key = r.keyUnder localId

/-- The loop starts with all strays to come. -/
lemma reclaiming_start (localId : String) (s : ConfigStore) :
    Reclaiming localId s (s.strays localId) s where
  pending := fun r hr => (mem_strays.mp hr).1
  stray := fun _ hr => hr
  nodup := (List.Nodup.of_map _ s.rows.nodup).filter _
  replicas := fun _ _ => Iff.rfl
  owned := by
    intro r hr hw
    by_cases howner : r.hostOwner = localId
    · exact Or.inl howner
    · exact Or.inr (mem_strays.mpr ⟨hr, hw, howner⟩)
  held := by
    intro r hr hw
    by_cases howner : r.hostOwner = localId
    · exact Or.inr ⟨r, hr, ConfigRow.key_eq_keyUnder.mpr ⟨rfl, howner⟩⟩
    · exact Or.inl (mem_strays.mpr ⟨hr, hw, howner⟩)

/-- One stray is taken care of. -/
lemma Reclaiming.step {localId : String} {s₀ s : ConfigStore} {stray : ConfigRow}
    {todo : List ConfigRow} (h : Reclaiming localId s₀ (stray :: todo) s) :
    ∃ s', reclaim localId s stray = .ok s' ∧ Reclaiming localId s₀ todo s' := by
  obtain ⟨hnot, hnodup⟩ := List.nodup_cons.mp h.nodup
  have hstray : stray ∈ s.rows.rows := h.pending stray List.mem_cons_self
  obtain ⟨-, hwritable, howner⟩ := mem_strays.mp (h.stray stray List.mem_cons_self)
  have hne : ∀ r ∈ todo, r ≠ stray := fun r hr heq => hnot (heq ▸ hr)
  by_cases hheld : ∃ own ∈ s.rows.rows, own.key = stray.keyUnder localId
  · obtain ⟨own, hown, hkey⟩ := hheld
    obtain ⟨s', hs', hmem⟩ := reclaim_of_held hstray hown hkey
    -- the row that the stray gives way to stays, and every row under the local id does
    have hstay : ∀ r ∈ s.rows.rows, r.hostOwner = localId → r ∈ s'.rows.rows :=
      fun r hr hlocal => (hmem r).mpr ⟨hr, fun heq => howner (heq ▸ hlocal)⟩
    refine ⟨s', hs', ⟨?_, ?_, hnodup, ?_, ?_, ?_⟩⟩
    · exact fun r hr => (hmem r).mpr ⟨h.pending r (List.mem_cons_of_mem _ hr), hne r hr⟩
    · exact fun r hr => h.stray r (List.mem_cons_of_mem _ hr)
    · intro r hr
      rw [hmem, ← h.replicas r hr]
      refine ⟨And.left, fun hin => ⟨hin, ?_⟩⟩
      rintro rfl
      rw [hr] at hwritable
      cases hwritable
    · intro r hr hw
      obtain ⟨hr, hrne⟩ := (hmem r).mp hr
      rcases h.owned r hr hw with hlocal | hin
      · exact Or.inl hlocal
      · exact Or.inr (List.mem_of_ne_of_mem hrne hin)
    · intro r hr hw
      rcases h.held r hr hw with hin | ⟨own', hown', hkey'⟩
      · rcases List.mem_cons.mp hin with rfl | hin
        · exact Or.inr ⟨own, hstay own hown (ConfigRow.key_eq_keyUnder.mp hkey).2, hkey⟩
        · exact Or.inl hin
      · exact Or.inr ⟨own', hstay own' hown' (ConfigRow.key_eq_keyUnder.mp hkey').2, hkey'⟩
  · have hfree : ∀ r ∈ s.rows.rows, r.key ≠ stray.keyUnder localId :=
      fun r hr hkey => hheld ⟨r, hr, hkey⟩
    obtain ⟨s', hs', hmem⟩ := reclaim_of_free hstray hfree
    refine ⟨s', hs', ⟨?_, ?_, hnodup, ?_, ?_, ?_⟩⟩
    · exact fun r hr => (hmem r).mpr (Or.inr ⟨h.pending r (List.mem_cons_of_mem _ hr), hne r hr⟩)
    · exact fun r hr => h.stray r (List.mem_cons_of_mem _ hr)
    · intro r hr
      rw [hmem, ← h.replicas r hr]
      constructor
      · rintro (rfl | ⟨hin, -⟩)
        · rw [show stray.isReplica = true from hr] at hwritable
          cases hwritable
        · exact hin
      · intro hin
        refine Or.inr ⟨hin, ?_⟩
        rintro rfl
        rw [hr] at hwritable
        cases hwritable
    · intro r hr hw
      rcases (hmem r).mp hr with rfl | ⟨hr, hrne⟩
      · exact Or.inl rfl
      · rcases h.owned r hr hw with hlocal | hin
        · exact Or.inl hlocal
        · exact Or.inr (List.mem_of_ne_of_mem hrne hin)
    · intro r hr hw
      rcases h.held r hr hw with hin | ⟨own, hown, hkey⟩
      · rcases List.mem_cons.mp hin with rfl | hin
        · exact Or.inr ⟨{ r with hostOwner := localId }, (hmem _).mpr (Or.inl rfl), rfl⟩
        · exact Or.inl hin
      · have hne : own ≠ stray := fun heq =>
          howner (heq ▸ (ConfigRow.key_eq_keyUnder.mp hkey).2)
        exact Or.inr ⟨own, (hmem own).mpr (Or.inr ⟨hown, hne⟩), hkey⟩

/-- The loop takes care of every stray and never fails. -/
lemma Reclaiming.run {localId : String} {s₀ s : ConfigStore} {todo : List ConfigRow}
    (h : Reclaiming localId s₀ todo s) :
    ∃ s', todo.foldlM (reclaim localId) s = .ok s' ∧ Reclaiming localId s₀ [] s' := by
  induction todo generalizing s with
  | nil => exact ⟨s, rfl, h⟩
  | cons stray todo ih =>
    obtain ⟨mid, hmid, hnext⟩ := h.step
    obtain ⟨s', hs', hdone⟩ := ih hnext
    exact ⟨s', Check.foldlM_cons_ok_iff.mpr ⟨mid, hmid, hs'⟩, hdone⟩

/-! ## The whole call -/

lemma isAbandoned_iff {localId : String} {peers : List String} {r : ConfigRow} :
    isAbandoned localId peers r = true ↔
      r.isReplica = true ∧ r.hostOwner ≠ localId ∧ r.hostOwner ∉ peers := by
  simp [isAbandoned, and_assoc]

/-- The call succeeds; it leaves what the loop leaves, without the abandoned replicas. -/
lemma reconcileOwnership_ok (s : ConfigStore) (peers : List String) (localId : String) :
    ∃ s' n, s.reconcileOwnership peers localId = .ok (s', n) ∧ ∃ mid,
      Reclaiming localId s [] mid ∧
      ∀ r, r ∈ s'.rows.rows ↔ r ∈ mid.rows.rows ∧ isAbandoned localId peers r = false := by
  obtain ⟨mid, hmid, hdone⟩ := (reclaiming_start localId s).run
  refine ⟨_, _, Check.chain_ok_iff.mpr ⟨mid, hmid, rfl⟩, mid, hdone, ?_⟩
  exact fun r => UniqueTable.mem_deleteWhere

/-- A store without strays and without abandoned replicas is left as it is. -/
lemma reconcileOwnership_settled {s : ConfigStore} {peers : List String} {localId : String}
    (howned : ∀ r ∈ s.rows.rows, r.isReplica = false → r.hostOwner = localId)
    (hlisted : ∀ r ∈ s.rows.rows, isAbandoned localId peers r = false) :
    s.reconcileOwnership peers localId = .ok (s, 0) := by
  have hstrays : s.strays localId = [] := by
    rw [List.eq_nil_iff_forall_not_mem]
    intro r hr
    obtain ⟨hin, hw, hne⟩ := mem_strays.mp hr
    exact hne (howned r hin hw)
  have habandoned : s.rows.rows.filter (isAbandoned localId peers) = [] := by
    rw [List.filter_eq_nil_iff]
    intro r hr
    rw [hlisted r hr]
    exact Bool.false_ne_true
  refine Check.chain_ok_iff.mpr ⟨s, ?_, ?_⟩
  · rw [hstrays]
    rfl
  · rw [hstrays, habandoned, UniqueTable.deleteWhere_eq_self hlisted]
    rfl

/-- What a call leaves, whatever the store: writable rows are owned by this system, replicas of
listed systems stay, and a second call changes nothing. -/
lemma reconcileOwnership_spec (s : ConfigStore) (peers : List String) (localId : String) :
    ∃ s' n, s.reconcileOwnership peers localId = .ok (s', n) ∧
      (∀ r ∈ s'.rows.rows, r.isReplica = false → r.hostOwner = localId) ∧
      (∀ r, r.isReplica = true → (r ∈ s'.rows.rows ↔
        r ∈ s.rows.rows ∧ (r.hostOwner = localId ∨ r.hostOwner ∈ peers))) ∧
      (∀ r ∈ s.rows.rows, r.isReplica = false →
        ∃ own ∈ s'.rows.rows, own.key = r.keyUnder localId) ∧
      s'.reconcileOwnership peers localId = .ok (s', 0) := by
  obtain ⟨s', n, hok, mid, hdone, hmem⟩ := reconcileOwnership_ok s peers localId
  have howned : ∀ r ∈ s'.rows.rows, r.isReplica = false → r.hostOwner = localId := by
    intro r hr hw
    exact (hdone.owned r ((hmem r).mp hr).1 hw).resolve_right List.not_mem_nil
  refine ⟨s', n, hok, howned, ?_, ?_, ?_⟩
  · intro r hr
    rw [hmem, hdone.replicas r hr, ← Bool.not_eq_true, isAbandoned_iff]
    refine and_congr_right fun _ => ?_
    tauto
  · intro r hr hw
    obtain ⟨own, hown, hkey⟩ := (hdone.held r hr hw).resolve_left List.not_mem_nil
    refine ⟨own, (hmem own).mpr ⟨hown, ?_⟩, hkey⟩
    rw [← Bool.not_eq_true, isAbandoned_iff]
    exact fun h => h.2.1 (ConfigRow.key_eq_keyUnder.mp hkey).2
  · exact reconcileOwnership_settled howned fun r hr => ((hmem r).mp hr).2

/-- A store in which a stray meets a replica under the local id loses the writable row. -/
lemma NoReplicaUnder.of_keepsOneWritable {s : ConfigStore} {peers : List String}
    {localId : String} (h : s.KeepsOneWritable peers localId) : s.NoReplicaUnder localId := by
  obtain ⟨s', n, hok, howned, hreplicas, -, -⟩ := reconcileOwnership_spec s peers localId
  obtain ⟨s'', n'', hok'', h⟩ := h
  obtain ⟨rfl, rfl⟩ : s' = s'' ∧ n = n'' := by
    rw [hok, Except.ok.injEq, Prod.mk.injEq] at hok''
    exact hok''
  intro stray hstray r hr hkey
  obtain ⟨hin, hw, -⟩ := mem_strays.mp hstray
  -- a replica under the local id would stay, beside the writable row of its key
  by_contra hrep
  have hrep : r.isReplica = true := by simpa using hrep
  obtain ⟨own, ⟨hown, hownw, howns⟩, -⟩ := h.one stray hin hw
  have hkeep : r ∈ s'.rows.rows :=
    (hreplicas r hrep).mpr ⟨hr, Or.inl (ConfigRow.key_eq_keyUnder.mp hkey).2⟩
  have hownkey : own.key = stray.keyUnder localId :=
    ConfigRow.key_eq_keyUnder.mpr ⟨howns, howned own hown hownw⟩
  rw [s'.rows.eq_of_key hown hkeep (hownkey.trans hkey.symm), hrep] at hownw
  cases hownw

/-- A row of the local id that a writable row made room for, or that was there, is writable. -/
lemma NoReplicaUnder.writable {s : ConfigStore} {localId : String} (h : s.NoReplicaUnder localId)
    {r own : ConfigRow} (hr : r ∈ s.rows.rows) (hw : r.isReplica = false)
    (hown : own ∈ s.rows.rows) (hkey : own.key = r.keyUnder localId) : own.isReplica = false := by
  by_cases howner : r.hostOwner = localId
  · have hrkey : own.key = r.key :=
      hkey.trans (ConfigRow.key_eq_keyUnder.mpr ⟨rfl, howner⟩).symm
    rw [s.rows.eq_of_key hown hr hrkey]
    exact hw
  · exact h r (mem_strays.mpr ⟨hr, hw, howner⟩) own hown hkey

/-- A store in which no stray meets a replica under the local id keeps one writable row. -/
lemma NoReplicaUnder.keepsOneWritable {s : ConfigStore} {localId : String}
    (h : s.NoReplicaUnder localId) (peers : List String) : s.KeepsOneWritable peers localId := by
  obtain ⟨s', n, hok, howned, hreplicas, hheld, hsettled⟩ :=
    reconcileOwnership_spec s peers localId
  refine ⟨s', n, hok, ⟨howned, ?_, ?_, hsettled⟩⟩
  · intro r hr hw
    obtain ⟨own, hown, hkey⟩ := hheld r hr hw
    have hownw : own.isReplica = false := by
      by_contra hrep
      have hin := ((hreplicas own (by simpa using hrep)).mp hown).1
      exact hrep (h.writable hr hw hin hkey)
    refine ⟨own, ⟨hown, hownw, (ConfigRow.key_eq_keyUnder.mp hkey).1⟩, ?_⟩
    rintro r' ⟨hr', hw', hsetting'⟩
    refine s'.rows.eq_of_key hr' hown (Eq.trans ?_ hkey.symm)
    exact ConfigRow.key_eq_keyUnder.mpr ⟨hsetting', howned r' hr' hw'⟩
  · intro r hr hpeer hgone
    by_contra hrep
    exact hgone ((hreplicas r (by simpa using hrep)).mpr ⟨hr, Or.inr hpeer⟩)

/-- **Ownership reconciliation.**  A call of `reconcile_ownership` leaves exactly one writable row
of every setting that had one, and all else that it is for, if and only if no stray has a replica
for the row of its key under the local id. -/
theorem reconcileOwnership_keeps_one_writable_iff (s : ConfigStore) (peers : List String)
    (localId : String) : s.KeepsOneWritable peers localId ↔ s.NoReplicaUnder localId :=
  ⟨NoReplicaUnder.of_keepsOneWritable, fun h => h.keepsOneWritable peers⟩

/-- A setting written under an earlier id, and the replica of it that came back under the current
one before that id was stamped. -/
def restoredBesideStray : ConfigStore where
  rows :=
    { rows :=
        [⟨"id1", "host-old", "host_status", "retention_days", "2", false, "2026-07-05T10:00:00Z",
          "local"⟩,
        ⟨"id2", "host-a", "host_status", "retention_days", "9", true, "2026-07-05T10:00:00Z",
          "mesh"⟩]
      nodup := by decide
      uid_nodup := by decide }
  history := []

/-- The stray gives way to the replica, and no writable row is left. -/
theorem stray_gives_way_to_replica :
    ¬restoredBesideStray.KeepsOneWritable [] "host-a" := by
  intro h
  have hnone : ¬restoredBesideStray.NoReplicaUnder "host-a" := by decide
  exact hnone (NoReplicaUnder.of_keepsOneWritable h)

end ConfigStore

end Orca
