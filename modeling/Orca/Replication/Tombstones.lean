import Orca.Library.Invariant
import Orca.Replication.MergeBundle

/-!
# Tombstones under merges

A delete authored on this host is an operation of the op-log with `local_origin = 1`.  This file
follows such a tombstone through merges of bundles: first through `replicate_merge`, where it
competes with incoming operations on its key, then through `apply_pending_deletes`, which enforces
it.  The results are that a deleted row does not come back (`no_resurrection`) and what an operation
of a peer that is turned down does to a tombstone (`rejected_op_keeps_tombstone_iff`).
-/

namespace Orca

open Invariant

/-! ## Through `replicate_merge` -/

section ReplicateMerge

variable {pols : List EntityPolicy} {ctx : MergeCtx} {db : Database}

/-- What `replicate_merge` writes for an incoming operation has its key and its stamp; only the
operation itself may be replaced, by a refusal. -/
lemma admitOp_eq_some {r r' : OpRow} (h : admitOp pols ctx db r = some r') :
    r.considered = true ∧
      ((checkOp pols ctx db r = .ok () ∧ r' = r) ∨
        (checkOp pols ctx db r = .error rowDeleteRefused ∧ r.op = "delete" ∧
          r' = r.refusal)) := by
  unfold admitOp at h
  split at h
  · rename_i hconsidered
    refine ⟨hconsidered, ?_⟩
    split at h
    · rename_i hcheck
      cases h
      exact Or.inl ⟨hcheck, rfl⟩
    · rename_i reason hcheck
      split at h
      · cases h
      · rename_i hreason
        rw [not_or, not_not, not_not] at hreason
        cases h
        exact Or.inr ⟨by rw [hcheck, hreason.1], hreason.2, rfl⟩
  · cases h

lemma key_of_admitOp {r r' : OpRow} (h : admitOp pols ctx db r = some r') : r'.key = r.key := by
  rcases (admitOp_eq_some h).2 with ⟨-, rfl⟩ | ⟨-, -, rfl⟩ <;> rfl

lemma stamp_of_admitOp {r r' : OpRow} (h : admitOp pols ctx db r = some r') :
    r'.stamp = r.stamp := by
  rcases (admitOp_eq_some h).2 with ⟨-, rfl⟩ | ⟨-, -, rfl⟩ <;> rfl

/-- An upsert leaves a row alone that has another key, or is at least as new. -/
lemma mem_rows_of_upsert {log log' : OpLog} {d r : OpRow} {n : Nat} (hd : d ∈ log.rows)
    (hr : r.key = d.key → r.stamp ≤ d.stamp) (h : log.upsert r = .ok (log', n)) :
    d ∈ log'.rows := by
  rcases OpLog.upsert_cases h with ⟨-, rfl, -⟩ | ⟨hc, hacc, rfl, -⟩
  · exact hd
  · rw [OpLog.mem_rows_store]
    refine Or.inr ⟨hd, fun hkey => ?_⟩
    exact absurd (hacc d (hkey ▸ KeyedTable.mem_rows_iff.mp hd)) (not_lt.mpr (hr hkey.symm))

/-- A stored operation survives `replicate_merge` of rows that bring nothing newer on its key. -/
lemma mem_rows_mergeOps {d : OpRow} (rows : List Json)
    (hrows : ∀ row ∈ rows, (opRowOfJson row).key = d.key → (opRowOfJson row).stamp ≤ d.stamp)
    {log : OpLog} (hd : d ∈ log.rows) (merged : Nat) :
    d ∈ (mergeOps pols ctx db rows log merged).1.rows := by
  induction rows generalizing log merged with
  | nil => exact hd
  | cons row rows ih =>
    have htail := fun x hx => hrows x (List.mem_cons_of_mem row hx)
    unfold mergeOps
    split
    · exact ih htail hd merged
    · rename_i r hadm
      split
      · exact hd
      · rename_i log' n hupsert
        refine ih htail (mem_rows_of_upsert hd (fun hkey => ?_) hupsert) _
        rw [stamp_of_admitOp hadm]
        exact hrows row List.mem_cons_self (by rw [← key_of_admitOp hadm, hkey])

end ReplicateMerge

/-! ## Through `apply_pending_deletes` -/

section ApplyPendingDeletes

variable {inv : Inventory} {ctx : MergeCtx}

/-- `op_target` never refuses a single row. -/
lemma opTarget_ne_rowDeleteRefused {pols : List EntityPolicy} {entity keyCol : String} :
    opTarget pols entity keyCol ≠ .error rowDeleteRefused := by
  have hkey : undeclaredKey ≠ rowDeleteRefused := by decide
  have hentity : ("entity is not replicated" : String) ≠ rowDeleteRefused := by decide
  unfold opTarget
  split
  · split
    · exact nofun
    · simpa using hkey
  · split
    · simpa using hkey
    · split
      · simpa using hentity
      · split
        · exact nofun
        · simpa using hkey

/-- What one iteration of `apply_pending_deletes` can have done: nothing, mark an operation of a
peer as refused, or delete the rows of the key. -/
lemma applyDelete_cases (inv : Inventory) (ctx : MergeCtx) (acc : Database × Nat) (p : OpRow) :
    applyDelete inv ctx acc p = acc ∨
      (p.localOrigin = false ∧
        peerDeleteAllowed inv.policies ctx acc.1.tables p.entity p.keyCol p.keyVal =
          .error rowDeleteRefused ∧
        applyDelete inv ctx acc p =
          ({ acc.1 with ops := acc.1.ops.markRefused p.entity p.keyVal }, acc.2)) ∨
      applyDelete inv ctx acc p =
        ((deleteRows inv acc.1 p.entity p.keyCol p.keyVal).1,
          acc.2 + (deleteRows inv acc.1 p.entity p.keyCol p.keyVal).2) := by
  unfold applyDelete
  simp only
  split
  · rename_i reason hcheck
    split
    · rename_i hreason
      subst hreason
      by_cases hlocal : p.localOrigin = true
      · rw [if_pos hlocal] at hcheck
        cases htarget : opTarget inv.policies p.entity p.keyCol with
        | ok _ => simp [htarget, Except.map] at hcheck
        | error e =>
          rw [htarget] at hcheck
          cases hcheck
          exact absurd htarget opTarget_ne_rowDeleteRefused
      · rw [if_neg hlocal] at hcheck
        exact Or.inr (Or.inl ⟨Bool.not_eq_true _ ▸ hlocal, hcheck, rfl⟩)
    · exact Or.inl rfl
  · split
    · exact Or.inl rfl
    · split
      · exact Or.inl rfl
      · exact Or.inr (Or.inr rfl)

/-- The tables after a `DELETE`: rows of one table are gone. -/
lemma tables_deleteRows (db : Database) (entity keyCol keyVal e : String) :
    (deleteRows inv db entity keyCol keyVal).1.tables e =
      if e = entity then
        (db.tables entity).filter fun r => !(inv.schema entity).holds keyCol (.text keyVal) r
      else db.tables e := by
  unfold deleteRows
  by_cases he : e = entity
  · subst he
    simp
  · simp [he]

/-- Enforcing an operation adds no row to any table. -/
lemma tables_applyDelete_subset (acc : Database × Nat) (p : OpRow) (e : String) :
    (applyDelete inv ctx acc p).1.tables e ⊆ acc.1.tables e := by
  rcases applyDelete_cases inv ctx acc p with h | ⟨-, -, h⟩ | h
  · rw [h]
    exact List.Subset.refl _
  · rw [h]
    exact List.Subset.refl _
  · rw [h, tables_deleteRows]
    split
    · rename_i he
      subst he
      exact List.filter_subset_self _
    · exact List.Subset.refl _

/-- Enforcing an operation leaves every operation of this host as it is. -/
lemma mem_ops_applyDelete {d : OpRow} (hlocal : d.localOrigin = true) {acc : Database × Nat}
    (hd : d ∈ acc.1.ops.rows) (p : OpRow) : d ∈ (applyDelete inv ctx acc p).1.ops.rows := by
  rcases applyDelete_cases inv ctx acc p with h | ⟨-, -, h⟩ | h
  · rw [h]
    exact hd
  · rw [h]
    exact List.mem_map.mpr ⟨d, hd, OpLog.refuseRow_of_localOrigin _ _ hlocal⟩
  · rw [h]
    exact hd

/-- No row of the table has the key. -/
def Database.Clean (inv : Inventory) (db : Database) (entity keyCol keyVal : String) : Prop :=
  ∀ r ∈ db.tables entity, (inv.schema entity).holds keyCol (.text keyVal) r = false

/-- A delete of this host that can be enforced: it names a declared key of a registered entity, and
its `DELETE` statement does not fail. -/
structure LocalDelete (inv : Inventory) (d : OpRow) : Prop where
  op_eq : d.op = "delete"
  localOrigin : d.localOrigin = true
  registered : ∃ reg ∈ inv.domains, reg.name = d.entity ∧ d.keyCol ∈ reg.keys
  succeeds : ∀ db, inv.deleteFails db d.entity d.keyCol d.keyVal = false

/-- A registered entity with a declared key column is a target. -/
lemma opTarget_of_registered {reg : ReplicatedRegistration} (hreg : reg ∈ inv.domains)
    {keyCol : String} (hkey : keyCol ∈ reg.keys) :
    opTarget inv.policies reg.name keyCol = .ok (some reg.toEntityPolicy) := by
  have hmem : reg ∈ inv.registrations := List.mem_mergeSort.mpr hreg
  have hfind : inv.policies.find? (fun p => p.name == reg.name) = some reg.toEntityPolicy := by
    unfold Inventory.policies
    rw [List.find?_map]
    cases hf : inv.registrations.find? ((fun p : EntityPolicy => p.name == reg.name) ∘
        fun reg => reg.toEntityPolicy) with
    | none => simpa using List.find?_eq_none.mp hf reg hmem
    | some x =>
      -- names are distinct
      have hx : x ∈ inv.domains := List.mem_mergeSort.mp (List.mem_of_find?_eq_some hf)
      have hname : x.name = reg.name := by simpa using List.find?_some hf
      rw [List.inj_on_of_nodup_map inv.names_nodup hx hreg hname]
      rfl
  unfold opTarget
  rw [if_neg reg.name_ne_peers, if_neg reg.name_ne_ops, hfind]
  simp only [if_pos hkey]

/-- Enforcing a delete of this host removes the rows of its key. -/
lemma clean_applyDelete {d : OpRow} (hd : LocalDelete inv d) (acc : Database × Nat) :
    (applyDelete inv ctx acc d).1.Clean inv d.entity d.keyCol d.keyVal := by
  obtain ⟨reg, hreg, hname, hkey⟩ := hd.registered
  have htarget : opTarget inv.policies d.entity d.keyCol = .ok (some reg.toEntityPolicy) :=
    hname ▸ opTarget_of_registered hreg hkey
  have hident : (!isIdent d.entity || !isIdent d.keyCol) = false := by
    rw [← hname, reg.name_isIdent, reg.keys_isIdent _ hkey]
    rfl
  have hstep : (applyDelete inv ctx acc d).1 =
      (deleteRows inv acc.1 d.entity d.keyCol d.keyVal).1 := by
    simp [applyDelete, hd.localOrigin, htarget, Except.map, hident, hd.succeeds]
  intro r hr
  rw [hstep, tables_deleteRows, if_pos rfl, List.mem_filter] at hr
  simpa using hr.2

/-- `apply_pending_deletes` keeps every operation of this host. -/
lemma mem_ops_applyPendingDeletes {d : OpRow} (hlocal : d.localOrigin = true) {db : Database}
    (hd : d ∈ db.ops.rows) : d ∈ (applyPendingDeletes inv ctx db).1.ops.rows :=
  foldl_invariant (I := fun acc : Database × Nat => d ∈ acc.1.ops.rows)
    (fun p _ _ hacc => mem_ops_applyDelete hlocal hacc p) hd

/-- `apply_pending_deletes` enforces every stored delete of this host. -/
lemma clean_applyPendingDeletes {d : OpRow} (hd : LocalDelete inv d) {db : Database}
    (hmem : d ∈ db.ops.rows) :
    (applyPendingDeletes inv ctx db).1.Clean inv d.entity d.keyCol d.keyVal := by
  have hpending : d ∈ db.ops.pending := by
    simp [OpLog.pending, hmem, hd.op_eq]
  refine foldl_establishes
    (Q := fun acc : Database × Nat => acc.1.Clean inv d.entity d.keyCol d.keyVal) hpending
    (clean_applyDelete hd) ?_ (db, 0)
  intro p _ acc hacc r hr
  exact hacc r (tables_applyDelete_subset acc p d.entity hr)

end ApplyPendingDeletes

/-! ## Through `merge_bundle` -/

section MergeBundle

variable {inv : Inventory} {ctx : MergeCtx} {bundle : Bundle}

lemma ops_mergeDomains (acc : Database × Nat) :
    (mergeDomains inv ctx bundle acc).1.ops = acc.1.ops := by
  refine foldl_invariant (I := fun x : Database × Nat => x.1.ops = acc.1.ops) ?_ rfl
  intro reg _ x hx
  unfold mergeDomain
  split
  · exact hx
  · exact hx

lemma runHooks_eq (db : Database) :
    (runHooks inv db).ops = db.ops ∧ (runHooks inv db).tables = db.tables := by
  unfold runHooks
  refine foldl_invariant (I := fun x : Database => x.ops = db.ops ∧ x.tables = db.tables) ?_
    ⟨rfl, rfl⟩
  exact fun _ _ _ hx => hx

/-- A stored operation survives phase 1 of a bundle that brings nothing newer on its key. -/
lemma mem_ops_mergeOpLog {d : OpRow} {db : Database} (hd : d ∈ db.ops.rows)
    (hops : ∀ r ∈ bundle.ops, r.key = d.key → r.stamp ≤ d.stamp) :
    d ∈ (mergeOpLog inv ctx bundle db).1.ops.rows := by
  unfold mergeOpLog
  split
  · exact hd
  · rename_i rows hrows
    refine mem_rows_mergeOps (rows.asArray.getD []) (fun row hrow => ?_) hd 0
    refine hops (opRowOfJson row) ?_
    unfold Bundle.ops
    rw [hrows]
    exact List.mem_map_of_mem hrow

lemma mergeBundle_of_too_many (inv : Inventory) (ctx : MergeCtx) (db : Database)
    (h : bundle.rows > maxBundleRows) :
    (mergeBundle inv ctx bundle db).db = db := by
  simp [mergeBundle, h]

/-- The database after a bundle within the row cap, hooks apart. -/
lemma mergeBundle_within (inv : Inventory) (ctx : MergeCtx) (db : Database)
    (h : bundle.rows ≤ maxBundleRows) :
    (mergeBundle inv ctx bundle db).db.ops = (applyPendingDeletes inv ctx
        (mergeDomains inv ctx bundle (mergeOpLog inv ctx bundle db)).1).1.ops ∧
      (mergeBundle inv ctx bundle db).db.tables = (applyPendingDeletes inv ctx
        (mergeDomains inv ctx bundle (mergeOpLog inv ctx bundle db)).1).1.tables := by
  unfold mergeBundle
  rw [if_neg (not_lt.mpr h)]
  simp only
  split
  · exact runHooks_eq _
  · exact ⟨rfl, rfl⟩

/-- **One bundle.**  A delete of this host survives a bundle that brings nothing newer on its key,
and a bundle within the row cap leaves no row of that key. -/
lemma mergeBundle_keeps_delete (ctx : MergeCtx) {d : OpRow} (hd : LocalDelete inv d) {db : Database}
    (hmem : d ∈ db.ops.rows) (hops : ∀ r ∈ bundle.ops, r.key = d.key → r.stamp ≤ d.stamp) :
    d ∈ (mergeBundle inv ctx bundle db).db.ops.rows ∧
      (bundle.rows ≤ maxBundleRows ∨ db.Clean inv d.entity d.keyCol d.keyVal →
        (mergeBundle inv ctx bundle db).db.Clean inv d.entity d.keyCol d.keyVal) := by
  by_cases hcap : bundle.rows ≤ maxBundleRows
  · obtain ⟨hopsEq, htables⟩ := mergeBundle_within inv ctx db hcap
    have hmid : d ∈ (mergeDomains inv ctx bundle (mergeOpLog inv ctx bundle db)).1.ops.rows := by
      rw [ops_mergeDomains]
      exact mem_ops_mergeOpLog hmem hops
    refine ⟨hopsEq ▸ mem_ops_applyPendingDeletes hd.localOrigin hmid, fun _ => ?_⟩
    unfold Database.Clean
    rw [htables]
    exact clean_applyPendingDeletes hd hmid
  · have hsame := mergeBundle_of_too_many inv ctx db (not_le.mp hcap)
    rw [hsame]
    exact ⟨hmem, fun h => h.resolve_left hcap⟩

/-- **No resurrection.**  A delete authored on this host survives every sequence of merges, from any
peers and with any contents, that bring no newer operation on its key: it stays in the op-log as an
operation of this host and stays exported.  From the first bundle within the row cap on, and from
the start if the table held none, no row of the key is left after any of these merges. -/
theorem no_resurrection {d : OpRow} (hd : LocalDelete inv d) {db : Database}
    (hmem : d ∈ db.ops.rows) (calls : List (MergeCtx × Bundle))
    (hcalls : ∀ call ∈ calls, ∀ r ∈ call.2.ops, r.key = d.key → r.stamp ≤ d.stamp) :
    let db' := calls.foldl (fun db call => (mergeBundle inv call.1 call.2 db).db) db
    d ∈ db'.ops.rows ∧ d ∈ db'.ops.exported ∧
      ((∃ call ∈ calls, call.2.rows ≤ maxBundleRows) ∨ db.Clean inv d.entity d.keyCol d.keyVal →
        db'.Clean inv d.entity d.keyCol d.keyVal) := by
  induction calls generalizing db with
  | nil =>
    refine ⟨hmem, ?_, fun h => ?_⟩
    · rw [OpLog.mem_exported, hd.op_eq]
      exact ⟨hmem, by decide⟩
    · rcases h with ⟨call, hcall, -⟩ | hclean
      · cases hcall
      · exact hclean
  | cons call calls ih =>
    obtain ⟨hmem', hclean'⟩ := mergeBundle_keeps_delete call.1 hd hmem
      (hcalls call List.mem_cons_self)
    obtain ⟨hstored, hexported, hfinal⟩ :=
      ih hmem' fun c hc => hcalls c (List.mem_cons_of_mem call hc)
    refine ⟨hstored, hexported, fun h => hfinal ?_⟩
    rcases h with ⟨c, hc, hcap⟩ | hclean
    · rcases List.mem_cons.mp hc with rfl | hc
      · exact Or.inr (hclean' (Or.inl hcap))
      · exact Or.inl ⟨c, hc, hcap⟩
    · exact Or.inr (hclean' (Or.inr hclean))

end MergeBundle

/-! ### A deleted endpoint -/

/-- A program that replicates `endpoints` only. -/
def endpointsInventory : Inventory where
  domains := [endpointsRegistration plainLibs .untyped]
  names_nodup := List.nodup_singleton _
  hooks := []
  schema := fun _ => .untyped
  deleteFails := fun _ _ _ _ => false

/-- A delete of the endpoint `e1` authored on this host. -/
def deletedEndpoint : OpRow where
  opId := "op1"
  entity := "endpoints"
  keyCol := "id"
  keyVal := "e1"
  op := "delete"
  origin := "h1"
  stampMs := 1000
  localOrigin := true

lemma deletedEndpoint_localDelete : LocalDelete endpointsInventory deletedEndpoint where
  op_eq := rfl
  localOrigin := rfl
  registered :=
    ⟨endpointsRegistration plainLibs .untyped, List.mem_singleton_self _, rfl, by decide⟩
  succeeds := fun _ => rfl

/-- A database that has logged the delete and holds the given endpoints. -/
def deletedDatabase (ids : List String) : Database where
  ops := ⟨⟨[deletedEndpoint], List.nodup_singleton _⟩, List.nodup_singleton _⟩
  tables := fun _ => ids.map fun id c => if c = "id" then .text id else .null
  host := ⟨"h1", "h1", false⟩

/-- A version of the endpoint from a peer, followed by the given rows. -/
def endpointRows (rest : List Json) : List Json :=
  .object [("id", .string "e1"), ("updated_at", .number (.posInt 5))] :: rest

/-- A bundle of such rows. -/
def endpointBundle (rest : List Json) : Bundle :=
  ⟨[("endpoints", .array (endpointRows rest))], List.nodup_singleton _⟩

/-- A stale row of a peer is gone after the merge that carried it. -/
theorem no_resurrection_endpoint :
    (mergeBundle endpointsInventory ⟨2000, some "peer"⟩ (endpointBundle [])
      (deletedDatabase ["e1", "e2"])).db.Clean endpointsInventory "endpoints" "id" "e1" := by
  have hmem : deletedEndpoint ∈ (deletedDatabase ["e1", "e2"]).ops.rows := List.mem_singleton_self _
  refine (no_resurrection deletedEndpoint_localDelete hmem
    [(⟨2000, some "peer"⟩, endpointBundle [])] ?_).2.2 (Or.inl ?_)
  · intro call hcall r hr
    rw [List.mem_singleton] at hcall
    subst hcall
    cases hr
  · exact ⟨_, List.mem_singleton_self _, by decide⟩

/-- A bundle above the row cap, without operations. -/
def oversizedBundle : Bundle :=
  ⟨[("x", .array (List.replicate 100001 .null))], List.nodup_singleton _⟩

lemma rows_oversizedBundle : oversizedBundle.rows > maxBundleRows := by
  have hrows : oversizedBundle.rows = 100001 := by
    simp only [oversizedBundle, Bundle.rows, List.map_cons, List.map_nil, Json.asArray,
      Option.map_some, List.length_replicate, Option.getD_some, List.sum_cons, List.sum_nil,
      Nat.add_zero]
  rw [hrows]
  decide

/-- A row that is there when a bundle above the row cap arrives is still there afterwards: the merge
returns before it enforces the delete. -/
theorem deleted_row_stays_above_row_cap :
    LocalDelete endpointsInventory deletedEndpoint ∧
      deletedEndpoint ∈ (deletedDatabase ["e1"]).ops.rows ∧ oversizedBundle.ops = [] ∧
      ¬(mergeBundle endpointsInventory ⟨2000, some "peer"⟩ oversizedBundle
          (deletedDatabase ["e1"])).db.Clean endpointsInventory "endpoints" "id" "e1" := by
  refine ⟨deletedEndpoint_localDelete, List.mem_singleton_self _, rfl, ?_⟩
  rw [mergeBundle_of_too_many _ _ _ rows_oversizedBundle]
  intro hclean
  have hrow := hclean (fun c => if c = "id" then .text "e1" else .null)
    (List.mem_singleton_self _)
  revert hrow
  decide

/-! ## Operations that are turned down -/

/-- A tombstone is intact: it is stored as it was, exported, and among the deletes that
`apply_pending_deletes` enforces. -/
def OpLog.Intact (log : OpLog) (d : OpRow) : Prop :=
  d ∈ log.rows ∧ d ∈ log.exported ∧ d ∈ log.pending

lemma OpLog.intact_iff {log : OpLog} {d : OpRow} (hop : d.op = "delete") :
    log.Intact d ↔ d ∈ log.rows := by
  simp [OpLog.Intact, OpLog.pending, hop]

section Rejected

variable {pols : List EntityPolicy} {ctx : MergeCtx} {db : Database} {row : Json} {r : OpRow}

lemma replicateMerge_of_dropped (hadm : admitOp pols ctx db (opRowOfJson row) = none) :
    (replicateMerge pols ctx db (.array [row])).1 = db.ops := by
  simp only [replicateMerge, Json.asArray, Option.getD_some, mergeOps, hadm]

lemma replicateMerge_of_upsert (hadm : admitOp pols ctx db (opRowOfJson row) = some r)
    {log : OpLog} {n : Nat} (hupsert : db.ops.upsert r = .ok (log, n)) :
    (replicateMerge pols ctx db (.array [row])).1 = log := by
  simp only [replicateMerge, Json.asArray, Option.getD_some, mergeOps, hadm, hupsert]

lemma replicateMerge_of_error (hadm : admitOp pols ctx db (opRowOfJson row) = some r) {e : String}
    (hupsert : db.ops.upsert r = .error e) :
    (replicateMerge pols ctx db (.array [row])).1 = db.ops := by
  simp only [replicateMerge, Json.asArray, Option.getD_some, mergeOps, hadm, hupsert]

/-- A rejected operation is dropped, unless it is a delete that is refused for its row. -/
lemma admitOp_of_rejected {reason : String} (hrejected : checkOp pols ctx db r = .error reason)
    (hrecord : ¬(r.considered = true ∧ reason = rowDeleteRefused ∧ r.op = "delete")) :
    admitOp pols ctx db r = none := by
  unfold admitOp
  split
  · rename_i hconsidered
    rw [hrejected]
    simp only
    rw [if_pos]
    by_contra hnot
    rw [not_or, not_not, not_not] at hnot
    exact hrecord ⟨hconsidered, hnot⟩
  · rfl

/-- A refusal that is recorded leaves a delete on its key in the log, unless it is newer and its id
is free. -/
lemma mem_rows_of_refusal_iff {d : OpRow} (hd : d ∈ db.ops.rows) (hop : d.op = "delete")
    (hkey : (opRowOfJson row).key = d.key)
    (hadm : admitOp pols ctx db (opRowOfJson row) = some (opRowOfJson row).refusal) :
    d ∈ (replicateMerge pols ctx db (.array [row])).1.rows ↔
      ¬(d.stamp < (opRowOfJson row).stamp ∧ ¬db.ops.Clash (opRowOfJson row)) := by
  have hfind : db.ops.find (opRowOfJson row).key = some d := hkey ▸ KeyedTable.mem_rows_iff.mp hd
  by_cases hnewer : d.stamp < (opRowOfJson row).stamp
  · have hacc : db.ops.Accepts (opRowOfJson row).refusal := by
      intro cur hcur
      obtain rfl : d = cur := by simpa [hfind] using hcur
      exact hnewer
    by_cases hclash : db.ops.Clash (opRowOfJson row)
    · rw [replicateMerge_of_error hadm (OpLog.upsert_of_clash hacc hclash)]
      simp [hd, hclash]
    · have hfree : ¬db.ops.Clash (opRowOfJson row).refusal := hclash
      rw [replicateMerge_of_upsert hadm (OpLog.upsert_of_accepts hacc hfree)]
      simp only [hnewer, hclash, not_false_eq_true, and_self, not_true_eq_false, iff_false]
      -- the refusal has taken the place of the delete
      rw [OpLog.mem_rows_store]
      rintro (rfl | ⟨-, hne⟩)
      · rw [OpRow.refusal_op] at hop
        exact absurd hop (by decide)
      · exact hne hkey.symm
  · have hacc : ¬db.ops.Accepts (opRowOfJson row).refusal := fun hacc => hnewer (hacc d hfind)
    rw [replicateMerge_of_upsert hadm (OpLog.upsert_of_not_accepts hacc)]
    simp [hd, hnewer]

/-- **An operation that is turned down.**  For every op-log, every peer and every incoming operation
on the key of a stored delete that the checks reject, `replicate_merge` leaves the delete intact
except when the rejection is that of the single row: then the refusal is recorded under the stamp of
the sender, and replaces the delete if that stamp is newer and its id is free. -/
theorem rejected_op_keeps_tombstone_iff {pols : List EntityPolicy} {ctx : MergeCtx} {db : Database}
    {d : OpRow} (hd : d ∈ db.ops.rows) (hop : d.op = "delete") {row : Json}
    (hkey : (opRowOfJson row).key = d.key) {reason : String}
    (hrejected : checkOp pols ctx db (opRowOfJson row) = .error reason) :
    (replicateMerge pols ctx db (.array [row])).1.Intact d ↔
      ¬((opRowOfJson row).considered = true ∧ reason = rowDeleteRefused ∧
        (opRowOfJson row).op = "delete" ∧ d.stamp < (opRowOfJson row).stamp ∧
        ¬db.ops.Clash (opRowOfJson row)) := by
  rw [OpLog.intact_iff hop]
  by_cases hrecord : (opRowOfJson row).considered = true ∧ reason = rowDeleteRefused ∧
      (opRowOfJson row).op = "delete"
  · obtain ⟨hconsidered, rfl, hdelete⟩ := hrecord
    have hadm : admitOp pols ctx db (opRowOfJson row) = some (opRowOfJson row).refusal := by
      simp [admitOp, hconsidered, hrejected, hdelete]
    rw [mem_rows_of_refusal_iff hd hop hkey hadm]
    simp only [hconsidered, hdelete, true_and]
  · rw [replicateMerge_of_dropped (admitOp_of_rejected hrejected hrecord)]
    simp only [hd, true_iff]
    exact fun h => hrecord ⟨h.1, h.2.1, h.2.2.1⟩

end Rejected

/-! ### A config row deleted on two hosts -/

/-- A database that deleted the config row `c1` at the given time and holds no config rows. -/
def deletedConfig (stampMs : Int64) : Database where
  ops := ⟨⟨[⟨"op1", "config_rows", "id", "c1", "delete", "h1", stampMs, true⟩],
    List.nodup_singleton _⟩, List.nodup_singleton _⟩
  tables := fun _ => []
  host := ⟨"h1", "h1", false⟩

/-- A delete of the same row by a peer. -/
def peerConfigDelete (stampMs : Int64) : Json :=
  OpRow.toJson ⟨"op2", "config_rows", "id", "c1", "delete", "h2", stampMs, false⟩

/-- An older delete of a peer leaves the tombstone intact. -/
theorem rejected_op_keeps_tombstone_older :
    (replicateMerge [configRowsPolicy] ⟨5000, some "h2"⟩ (deletedConfig 2000)
      (.array [peerConfigDelete 1000])).1.Intact
        ⟨"op1", "config_rows", "id", "c1", "delete", "h1", 2000, true⟩ := by
  have hrejected : checkOp [configRowsPolicy] ⟨5000, some "h2"⟩ (deletedConfig 2000)
      (opRowOfJson (peerConfigDelete 1000)) = .error rowDeleteRefused := by rfl
  refine (rejected_op_keeps_tombstone_iff (List.mem_singleton_self _) rfl (by decide +kernel)
    hrejected).mpr ?_
  decide +kernel

/-- A newer delete of a peer is turned down, since the row it names is gone, and yet replaces the
tombstone. -/
theorem rejected_op_replaces_tombstone :
    checkOp [configRowsPolicy] ⟨5000, some "h2"⟩ (deletedConfig 1000)
        (opRowOfJson (peerConfigDelete 2000)) = .error rowDeleteRefused ∧
      ¬(replicateMerge [configRowsPolicy] ⟨5000, some "h2"⟩ (deletedConfig 1000)
        (.array [peerConfigDelete 2000])).1.Intact
          ⟨"op1", "config_rows", "id", "c1", "delete", "h1", 1000, true⟩ := by
  refine ⟨by rfl, fun h => ?_⟩
  have hmem := h.1
  revert hmem
  decide +kernel

end Orca
