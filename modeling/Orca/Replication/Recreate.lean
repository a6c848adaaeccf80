import Orca.Replication.Tombstones

/-!
# Re-creating a deleted row

A host that re-creates a row after a delete calls `note_write`, which is to supersede the tombstone
by a newer `upsert` operation.  The two compete by `(stamp_ms, op_id)`, and a tombstone may carry
the clock of another host: an operation of a peer is accepted up to `MAX_LWW_SKEW_MILLIS` ahead of
the local clock.  `recreate_survives_iff` says exactly when the re-created row survives.
-/

namespace Orca

open Invariant

/-! ## Runs of the op-log -/

/-- A step of the op-log of a host. -/
inductive OpEvent where
  /-- `note_delete`, with the id it mints. -/
  | noteDelete (opId origin entity keyCol keyVal : String) (stampMs : Int64)
  /-- `note_write`, with the id it mints. -/
  | noteWrite (opId origin entity keyCol keyVal : String) (stampMs : Int64)
  /-- `replicate_merge`, with the tables it finds. -/
  | merge (ctx : MergeCtx) (tables : String → Table) (host : Host) (rows : Json)

/-- One step.  A statement that fails leaves the log as it was. -/
def OpEvent.run (pols : List EntityPolicy) (log : OpLog) : OpEvent → OpLog
  | .noteDelete opId origin entity keyCol keyVal stampMs =>
      (log.noteDelete opId origin entity keyCol keyVal stampMs).toOption.getD log
  | .noteWrite opId origin entity keyCol keyVal stampMs =>
      (log.noteWrite opId origin entity keyCol keyVal stampMs).toOption.getD log
  | .merge ctx tables host rows => (replicateMerge pols ctx ⟨log, tables, host⟩ rows).1

/-- The op-log after a run from the empty log. -/
def runOps (pols : List EntityPolicy) (events : List OpEvent) : OpLog :=
  events.foldl (OpEvent.run pols) .empty

/-! ## The key after the next merge -/

section NextMerge

variable {inv : Inventory} {ctx : MergeCtx} {bundle : Bundle} {db : Database}

/-- `replicate_merge` touches only the keys of the rows it is given. -/
lemma find_mergeOps_of_no_key {pols : List EntityPolicy} {k : String × String} (rows : List Json)
    (hrows : ∀ row ∈ rows, (opRowOfJson row).key ≠ k) (log : OpLog) (merged : Nat) :
    (mergeOps pols ctx db rows log merged).1.find k = log.find k := by
  induction rows generalizing log merged with
  | nil => rfl
  | cons row rows ih =>
    have htail := fun x hx => hrows x (List.mem_cons_of_mem row hx)
    unfold mergeOps
    split
    · exact ih htail log merged
    · rename_i r hadm
      split
      · rfl
      · rename_i log' n hupsert
        rw [ih htail]
        have hne : k ≠ r.key := by
          rw [key_of_admitOp hadm]
          exact (hrows row List.mem_cons_self).symm
        rcases OpLog.upsert_cases hupsert with ⟨-, rfl, -⟩ | ⟨hc, -, rfl, -⟩
        · rfl
        · rw [OpLog.find_store, Function.update_of_ne hne]

/-- The bundle brings nothing newer on the key than what the log holds. -/
def NothingNewer (log : OpLog) (bundle : Bundle) (k : String × String) : Prop :=
  ∀ r ∈ bundle.ops, r.key = k → ∃ cur, log.find k = some cur ∧ r.stamp ≤ cur.stamp

/-- Phase 1 of a bundle that brings nothing newer on a key leaves the operation of the key. -/
lemma find_mergeOpLog {k : String × String} (hnew : NothingNewer db.ops bundle k) :
    (mergeOpLog inv ctx bundle db).1.ops.find k = db.ops.find k := by
  cases hfind : db.ops.find k with
  | some cur =>
    obtain ⟨hmem, rfl⟩ := KeyedTable.find_eq_some_iff.mp hfind
    refine KeyedTable.mem_rows_iff.mp (mem_ops_mergeOpLog hmem fun r hr hkey => ?_)
    obtain ⟨cur', hcur', hle⟩ := hnew r hr hkey
    obtain rfl : cur = cur' := by simpa [hfind] using hcur'
    exact hle
  | none =>
    unfold mergeOpLog
    split
    · exact hfind
    · rename_i rows hrows
      refine (find_mergeOps_of_no_key (rows.asArray.getD []) (fun row hrow hkey => ?_) _ 0).trans
        hfind
      have hmem : opRowOfJson row ∈ bundle.ops := by
        unfold Bundle.ops
        rw [hrows]
        exact List.mem_map_of_mem hrow
      obtain ⟨cur, hcur, -⟩ := hnew _ hmem hkey
      rw [hfind] at hcur
      cases hcur

/-- Enforcing deletes removes no row that none of them names. -/
lemma mem_tables_applyPendingDeletes {entity : String} {row : Row} (hrow : row ∈ db.tables entity)
    (hkeep : ∀ p ∈ db.ops.pending, p.entity = entity →
      (inv.schema entity).holds p.keyCol (.text p.keyVal) row = false) :
    row ∈ (applyPendingDeletes inv ctx db).1.tables entity := by
  refine foldl_invariant (I := fun acc : Database × Nat => row ∈ acc.1.tables entity) ?_ hrow
  intro p hp acc hacc
  rcases applyDelete_cases inv ctx acc p with h | ⟨-, -, h⟩ | h
  · rw [h]
    exact hacc
  · rw [h]
    exact hacc
  · rw [h, tables_deleteRows]
    split
    · rename_i he
      subst he
      rw [List.mem_filter, hkeep p hp rfl]
      exact ⟨hacc, rfl⟩
    · exact hacc

end NextMerge

/-! ## The re-created row -/

/-- A row of the key survives: the operation of the key is not a delete, and when the next bundle
brings nothing newer on the key, its `apply_pending_deletes` removes no row of the table that no
delete of another key names. -/
def RecreateSurvives (inv : Inventory) (log : OpLog) (entity keyVal : String) : Prop :=
  (∀ r, log.find (entity, keyVal) = some r → r.op ≠ "delete") ∧
    ∀ (ctx : MergeCtx) (bundle : Bundle) (db : Database), db.ops = log →
      NothingNewer log bundle (entity, keyVal) →
      let mid := (mergeDomains inv ctx bundle (mergeOpLog inv ctx bundle db)).1
      ∀ row ∈ mid.tables entity,
        (∀ p ∈ mid.ops.pending, p.key ≠ (entity, keyVal) → p.entity = entity →
          (inv.schema entity).holds p.keyCol (.text p.keyVal) row = false) →
        row ∈ (applyPendingDeletes inv ctx mid).1.tables entity

/-- A row survives as soon as the operation of its key is not a delete. -/
lemma recreateSurvives_of_not_delete {inv : Inventory} {log : OpLog} {entity keyVal : String}
    (h : ∀ r, log.find (entity, keyVal) = some r → r.op ≠ "delete") :
    RecreateSurvives inv log entity keyVal := by
  refine ⟨h, fun ctx bundle db hdb hnew => ?_⟩
  subst hdb
  intro mid row hrow hother
  refine mem_tables_applyPendingDeletes hrow fun p hp hentity => ?_
  refine hother p hp (fun hkey => ?_) hentity
  -- the operation of the key is still the one that is not a delete
  rw [OpLog.pending, List.mem_filter, beq_iff_eq] at hp
  have hfind : mid.ops.find (entity, keyVal) = some p :=
    KeyedTable.find_eq_some_iff.mpr ⟨hp.1, hkey⟩
  rw [ops_mergeDomains, find_mergeOpLog hnew] at hfind
  exact h p hfind hp.2

/-- The log after `note_write` with a fresh id. -/
lemma noteWrite_fresh {log : OpLog} {opId : String} (hfresh : ∀ r ∈ log.rows, r.opId ≠ opId)
    (origin entity keyCol keyVal : String) (stampMs : Int64) :
    ∃ log', log.noteWrite opId origin entity keyCol keyVal stampMs = .ok log' ∧
      ((∀ r, log'.find (entity, keyVal) = some r → r.op ≠ "delete") ↔
        ∀ d, log.find (entity, keyVal) = some d → d.op = "delete" →
          d.stamp < toLex (stampMs.toInt, opId)) := by
  have hclash : ∀ r : OpRow, r.opId = opId → ¬log.Clash r := by
    rintro r rfl ⟨x, hx, hid, -⟩
    exact hfresh x hx hid
  unfold OpLog.noteWrite
  by_cases hdel : log.hasDelete entity keyVal = true
  · obtain ⟨d, hfind, hop⟩ := OpLog.hasDelete_eq_true_iff.mp hdel
    rw [if_pos hdel]
    unfold OpLog.put
    generalize hu : (⟨opId, entity, keyCol, keyVal, "upsert", origin, stampMs, true⟩ : OpRow) = u
    have hkey : u.key = (entity, keyVal) := by rw [← hu]; rfl
    have hstamp : u.stamp = toLex (stampMs.toInt, opId) := by rw [← hu]; rfl
    have huop : u.op ≠ "delete" := by rw [← hu]; exact (by decide : "upsert" ≠ "delete")
    have hfree : ¬log.Clash u := hclash u (by rw [← hu])
    by_cases hlt : d.stamp < u.stamp
    · have hacc : log.Accepts u := by
        intro cur hcur
        rw [hkey, hfind] at hcur
        cases hcur
        exact hlt
      rw [OpLog.upsert_of_accepts hacc hfree]
      refine ⟨log.store u hfree, rfl, ?_⟩
      rw [OpLog.find_store, hkey, Function.update_self]
      constructor
      · intro _ d' hd' _
        rw [hfind] at hd'
        cases hd'
        exact hstamp ▸ hlt
      · intro _ r hr
        cases hr
        exact huop
    · have hacc : ¬log.Accepts u := fun hacc => hlt (hacc d (hkey ▸ hfind))
      rw [OpLog.upsert_of_not_accepts hacc]
      refine ⟨log, rfl, ?_⟩
      constructor
      · intro h
        exact absurd hop (h d hfind)
      · intro h
        exact absurd (hstamp ▸ h d hfind hop) hlt
  · rw [if_neg hdel]
    refine ⟨log, rfl, ?_⟩
    have hnone : ∀ r, log.find (entity, keyVal) = some r → r.op ≠ "delete" :=
      fun r hr hop => hdel (OpLog.hasDelete_eq_true_iff.mpr ⟨r, hr, hop⟩)
    exact ⟨fun _ d hd hop => absurd hop (hnone d hd), fun _ => hnone⟩

/-- **When a re-create survives.**  After every run of deletes, writes and merges of peers'
operations, `note_write` succeeds, and the row it stands for survives if and only if a delete stored
for its key has an earlier stamp than the write: an earlier millisecond, or the same one and a
smaller id than the one `note_write` mints. -/
theorem recreate_survives_iff (inv : Inventory) (events : List OpEvent)
    (opId origin entity keyCol keyVal : String) (now : Int64)
    (hfresh : ∀ r ∈ (runOps inv.policies events).rows, r.opId ≠ opId) :
    (∃ log',
      (runOps inv.policies events).noteWrite opId origin entity keyCol keyVal now = .ok log' ∧
        RecreateSurvives inv log' entity keyVal) ↔
      ∀ d, (runOps inv.policies events).find (entity, keyVal) = some d → d.op = "delete" →
        d.stamp < toLex (now.toInt, opId) := by
  obtain ⟨log', hwrite, hiff⟩ := noteWrite_fresh hfresh origin entity keyCol keyVal now
  rw [← hiff]
  constructor
  · rintro ⟨log'', hwrite', hsurvives⟩
    rw [hwrite] at hwrite'
    cases hwrite'
    exact hsurvives.1
  · exact fun h => ⟨log', hwrite, recreateSurvives_of_not_delete h⟩

/-! ### A retiring peer whose clock is ahead -/

/-- A peer retires: it deletes its own row of `mesh_peers`, by its own clock. -/
def peerRetires (stampMs : Int64) : OpEvent :=
  .merge ⟨1000000, some "p"⟩ (fun _ => []) ⟨"h1", "h1", false⟩
    (.array [OpRow.toJson ⟨"op1", "mesh_peers", "peer_id", "p", "delete", "p", stampMs, false⟩])

/-- The row of a peer that retired in the past can be re-created. -/
theorem recreate_survives_past_delete :
    ∃ log', (runOps endpointsInventory.policies [peerRetires 999999]).noteWrite "op2" "h1"
        "mesh_peers" "peer_id" "p" 1000000 = .ok log' ∧
      RecreateSurvives endpointsInventory log' "mesh_peers" "p" := by
  refine (recreate_survives_iff endpointsInventory [peerRetires 999999] "op2" "h1" "mesh_peers"
    "peer_id" "p" 1000000 (by decide +kernel)).mpr ?_
  have hfind : (runOps endpointsInventory.policies [peerRetires 999999]).find ("mesh_peers", "p") =
      some ⟨"op1", "mesh_peers", "peer_id", "p", "delete", "p", 999999, false⟩ := by
    decide +kernel
  intro d hd _
  rw [hfind] at hd
  cases hd
  exact Prod.Lex.toLex_lt_toLex.mpr (Or.inl (by decide))

/-- The row of a peer whose clock is a millisecond ahead cannot: the delete stays. -/
theorem recreate_lost_to_future_delete :
    (∀ r ∈ (runOps endpointsInventory.policies [peerRetires 1000001]).rows, r.opId ≠ "op2") ∧
      ¬∃ log', (runOps endpointsInventory.policies [peerRetires 1000001]).noteWrite "op2" "h1"
          "mesh_peers" "peer_id" "p" 1000000 = .ok log' ∧
        RecreateSurvives endpointsInventory log' "mesh_peers" "p" := by
  refine ⟨by decide +kernel, ?_⟩
  rintro ⟨log', hwrite, hsurvives⟩
  have hdel : ((runOps endpointsInventory.policies [peerRetires 1000001]).noteWrite "op2" "h1"
      "mesh_peers" "peer_id" "p" 1000000).toOption.map (fun log => log.hasDelete "mesh_peers" "p") =
        some true := by
    decide +kernel
  rw [hwrite] at hdel
  have hdel' : log'.hasDelete "mesh_peers" "p" = true := by simpa [Except.toOption] using hdel
  obtain ⟨r, hr, hop⟩ := OpLog.hasDelete_eq_true_iff.mp hdel'
  exact hsurvives.1 r hr hop

end Orca
