import Mathlib.Data.List.Perm.Basic
import Orca.Library.Invariant
import Orca.Replication.Tombstones

/-!
# Content roots

The model of the content roots of `db/src/replicate.rs`: `compute_root`, the memo with
`invalidate_root` and `invalidate_all_roots`, and `roots`.  Peers compare these roots to decide
whether they hold the same rows.

A `Node` is a database with the memo of its file.  An `Action` is one of the operations that touch
either: origin writes with their `notify_write`, merges, `reap` and `roots`.  The memo is `Fresh`
when every root in it is the root of the rows as they are.  Origin writes, `reap` and `roots` keep
it fresh.  A merge drops the memo by its counts of rows, and a count misses some writes;
`QuietMerge` says that none of these occurs.
-/

namespace Orca

open Invariant

/-! ## The roots of a database -/

/-- A registered entity as `roots` sees it. -/
structure Exporter where
  name : String
  exportRows : Database → Except String Json

/-- The op-log as a registered entity. -/
def opsExporter : Exporter := ⟨opsEntity, fun db => .ok db.ops.replicateExport⟩

/-- Any other registered entity. -/
def ReplicatedRegistration.exporter (reg : ReplicatedRegistration) : Exporter :=
  ⟨reg.name, fun db => reg.exportRows (db.tables reg.name)⟩

/-- `registrations`, with the op-log: in name order. -/
def Inventory.exporters (inv : Inventory) : List Exporter :=
  (inv.domains.map ReplicatedRegistration.exporter ++ [opsExporter]).mergeSort
    fun a b => decide (a.name ≤ b.name)

/-- `compute_root`.  The hash is that of the exported rows. -/
def computeRoot (hash : Json → String) (db : Database) (e : Exporter) : Except String String :=
  (e.exportRows db).map hash

/-- `RootMap`: the memo of one database file. -/
abbrev RootMap := String → Option String

/-- `invalidate_root`. -/
def RootMap.invalidateRoot (cache : RootMap) (entity : String) : RootMap :=
  Function.update cache entity none

/-- `invalidate_all_roots`. -/
def RootMap.invalidateAllRoots (_ : RootMap) : RootMap := fun _ => none

/-- The loop of `roots` on a database file: the memo it leaves, and the roots by entity name. -/
def rootsLoop (hash : Json → String) (db : Database) :
    List Exporter → RootMap → RootMap × Except String (List (String × String))
  | [], cache => (cache, .ok [])
  | e :: es, cache =>
      match cache e.name with
      | some h =>
          let res := rootsLoop hash db es cache
          (res.1, res.2.map fun out => (e.name, h) :: out)
      | none =>
          match computeRoot hash db e with
          | .error err => (cache, .error err)
          | .ok h =>
              let res := rootsLoop hash db es (Function.update cache e.name (some h))
              (res.1, res.2.map fun out => (e.name, h) :: out)

/-- The loop of `roots` without a memo, as it runs on a database in memory. -/
def uncachedLoop (hash : Json → String) (db : Database) :
    List Exporter → Except String (List (String × String))
  | [] => .ok []
  | e :: es =>
      match computeRoot hash db e with
      | .error err => .error err
      | .ok h => (uncachedLoop hash db es).map fun out => (e.name, h) :: out

/-- The roots of the rows as they are. -/
def uncachedRoots (inv : Inventory) (hash : Json → String) (db : Database) :
    Except String (List (String × String)) :=
  uncachedLoop hash db inv.exporters

/-! ## Nodes -/

/-- A database file with its memo. -/
structure Node where
  db : Database
  cache : RootMap

/-- `roots`. -/
def Node.roots (inv : Inventory) (hash : Json → String) (n : Node) :
    Node × Except String (List (String × String)) :=
  let res := rootsLoop hash n.db inv.exporters n.cache
  (⟨n.db, res.1⟩, res.2)

/-- The node after `put` returned: an error has written nothing, otherwise `notify_write` drops the
root of the op-log. -/
def Node.afterPut (n : Node) : Except String OpLog → Node
  | .error _ => n
  | .ok log => ⟨{ n.db with ops := log }, n.cache.invalidateRoot opsEntity⟩

/-- What can happen to a node. -/
inductive Action where
  /-- An origin write that leaves the given rows in the table of an entity, with its
  `notify_write`. -/
  | write (entity : String) (rows : Table)
  | noteDelete (opId entity keyCol keyVal : String) (stampMs : Int64)
  | noteWrite (opId entity keyCol keyVal : String) (stampMs : Int64)
  | merge (ctx : MergeCtx) (bundle : Bundle)
  | reap (nowMs ttlMs : Int)
  | roots

/-- One action. -/
def Node.step (inv : Inventory) (hash : Json → String) (n : Node) : Action → Node
  | .write entity rows =>
      ⟨{ n.db with tables := Function.update n.db.tables entity rows },
        n.cache.invalidateRoot entity⟩
  | .noteDelete opId entity keyCol keyVal stampMs =>
      n.afterPut (n.db.ops.noteDelete opId n.db.host.displayName entity keyCol keyVal stampMs)
  | .noteWrite opId entity keyCol keyVal stampMs =>
      if n.db.ops.hasDelete entity keyVal then
        n.afterPut (n.db.ops.noteWrite opId n.db.host.displayName entity keyCol keyVal stampMs)
      else n
  | .merge ctx bundle =>
      let res := mergeBundle inv ctx bundle n.db
      ⟨res.db, if res.invalidated then n.cache.invalidateAllRoots else n.cache⟩
  | .reap nowMs ttlMs =>
      let res := n.db.ops.reap nowMs ttlMs
      ⟨{ n.db with ops := res.1 }, if res.2 > 0 then n.cache.invalidateRoot opsEntity else n.cache⟩
  | .roots => (n.roots inv hash).1

/-- The memo is fresh: a root in it is the root of the rows as they are. -/
def Node.Fresh (inv : Inventory) (hash : Json → String) (n : Node) : Prop :=
  ∀ e ∈ inv.exporters, ∀ h, n.cache e.name = some h → computeRoot hash n.db e = .ok h

/-! ## What the roots depend on -/

section Exporters

variable {inv : Inventory} {hash : Json → String} {db db' : Database} {n : Node}

lemma mem_exporters {e : Exporter} :
    e ∈ inv.exporters ↔ e = opsExporter ∨ ∃ reg ∈ inv.domains, reg.exporter = e := by
  simp [Inventory.exporters, List.mem_mergeSort, or_comm]

/-- Two registered entities of one name are one. -/
lemma exporter_eq_of_name {e e' : Exporter} (he : e ∈ inv.exporters) (he' : e' ∈ inv.exporters)
    (hname : e.name = e'.name) : e = e' := by
  rcases mem_exporters.mp he with rfl | ⟨reg, hreg, rfl⟩
  · rcases mem_exporters.mp he' with rfl | ⟨reg', -, rfl⟩
    · rfl
    · exact absurd hname.symm reg'.name_ne_ops
  · rcases mem_exporters.mp he' with rfl | ⟨reg', hreg', rfl⟩
    · exact absurd hname reg.name_ne_ops
    · rw [List.inj_on_of_nodup_map inv.names_nodup hreg hreg' hname]

lemma exportRows_eq (hops : db'.ops.exported = db.ops.exported) (htables : db'.tables = db.tables)
    (e : Exporter) (he : e ∈ inv.exporters) : e.exportRows db' = e.exportRows db := by
  rcases mem_exporters.mp he with rfl | ⟨reg, -, rfl⟩
  · simp only [opsExporter, OpLog.replicateExport, hops]
  · simp only [ReplicatedRegistration.exporter, htables]

lemma Node.Fresh.of_exports_eq (hn : n.Fresh inv hash)
    (h : ∀ e ∈ inv.exporters, e.exportRows db' = e.exportRows n.db) :
    (Node.mk db' n.cache).Fresh inv hash := by
  intro e he root hroot
  have hold : computeRoot hash n.db e = .ok root := hn e he root hroot
  unfold computeRoot at hold ⊢
  rw [h e he, hold]

/-- A memo stays fresh when one export changes and its root is dropped. -/
lemma Node.Fresh.of_invalidateRoot (hn : n.Fresh inv hash) {entity : String}
    (h : ∀ e ∈ inv.exporters, e.name ≠ entity → e.exportRows db' = e.exportRows n.db) :
    (Node.mk db' (n.cache.invalidateRoot entity)).Fresh inv hash := by
  intro e he root hroot
  have hne : e.name ≠ entity := by
    rintro rfl
    simp [RootMap.invalidateRoot] at hroot
  have hcached : n.cache e.name = some root := by
    simpa [RootMap.invalidateRoot, hne] using hroot
  have hold : computeRoot hash n.db e = .ok root := hn e he root hcached
  unfold computeRoot at hold ⊢
  rw [h e he hne, hold]

lemma exportRows_of_ops (log : OpLog) (e : Exporter) (he : e ∈ inv.exporters)
    (hne : e.name ≠ opsEntity) : e.exportRows { db with ops := log } = e.exportRows db := by
  rcases mem_exporters.mp he with rfl | ⟨reg, -, rfl⟩
  · exact absurd rfl hne
  · rfl

end Exporters

/-! ## `roots` on a fresh memo -/

section Loop

variable {inv : Inventory} {hash : Json → String} {db : Database}

/-- The loop of `roots` over registered entities, from a fresh memo: it returns the roots of the
rows as they are, and leaves a fresh memo. -/
lemma rootsLoop_of_fresh (es : List Exporter) (hes : es ⊆ inv.exporters) {cache : RootMap}
    (hfresh : (Node.mk db cache).Fresh inv hash) :
    (rootsLoop hash db es cache).2 = uncachedLoop hash db es ∧
      (Node.mk db (rootsLoop hash db es cache).1).Fresh inv hash := by
  induction es generalizing cache with
  | nil => exact ⟨rfl, hfresh⟩
  | cons e es ih =>
    have he : e ∈ inv.exporters := hes List.mem_cons_self
    have hes' : es ⊆ inv.exporters := fun x hx => hes (List.mem_cons_of_mem e hx)
    unfold rootsLoop uncachedLoop
    cases hcache : cache e.name with
    | some h =>
      have hroot : computeRoot hash db e = .ok h := hfresh e he h hcache
      obtain ⟨hout, hleft⟩ := ih hes' hfresh
      simp only [hroot, hout, true_and]
      exact hleft
    | none =>
      cases hroot : computeRoot hash db e with
      | error err => exact ⟨rfl, hfresh⟩
      | ok h =>
        -- the root that goes into the memo is that of the only entity of this name
        have hfresh' : (Node.mk db (Function.update cache e.name (some h))).Fresh inv hash := by
          intro e' he' h' hh'
          by_cases hname : e'.name = e.name
          · obtain rfl : e' = e := exporter_eq_of_name he' he hname
            obtain rfl : h = h' := by simpa using hh'
            exact hroot
          · exact hfresh e' he' h' (by simpa [hname] using hh')
        obtain ⟨hout, hleft⟩ := ih hes' hfresh'
        simp only [hout, true_and]
        exact hleft

/-- On a fresh memo `roots` returns the roots of the rows as they are. -/
lemma Node.roots_of_fresh {n : Node} (hfresh : n.Fresh inv hash) :
    (n.roots inv hash).2 = uncachedRoots inv hash n.db :=
  (rootsLoop_of_fresh inv.exporters (List.Subset.refl _) hfresh).1

/-- `roots` keeps the memo fresh. -/
lemma Node.fresh_roots {n : Node} (hfresh : n.Fresh inv hash) :
    (n.roots inv hash).1.Fresh inv hash :=
  (rootsLoop_of_fresh inv.exporters (List.Subset.refl _) hfresh).2

/-- Equal roots of two databases come from equal hashes of every export. -/
lemma computeRoot_eq_of_uncachedLoop {db' : Database} (es : List Exporter)
    {out : List (String × String)} (h : uncachedLoop hash db es = .ok out)
    (h' : uncachedLoop hash db' es = .ok out) :
    ∀ e ∈ es, ∃ root, computeRoot hash db e = .ok root ∧ computeRoot hash db' e = .ok root := by
  induction es generalizing out with
  | nil => simp
  | cons e es ih =>
    unfold uncachedLoop at h h'
    cases hroot : computeRoot hash db e with
    | error err => simp [hroot] at h
    | ok root =>
      cases hroot' : computeRoot hash db' e with
      | error err => simp [hroot'] at h'
      | ok root' =>
        rw [hroot] at h
        rw [hroot'] at h'
        cases hrest : uncachedLoop hash db es with
        | error err => simp [hrest, Except.map] at h
        | ok rest =>
          cases hrest' : uncachedLoop hash db' es with
          | error err => simp [hrest', Except.map] at h'
          | ok rest' =>
            simp only [hrest, Except.map, Except.ok.injEq] at h
            simp only [hrest', Except.map, Except.ok.injEq] at h'
            rw [← h, List.cons.injEq, Prod.mk.injEq] at h'
            obtain ⟨⟨-, rfl⟩, rfl⟩ := h'
            intro x hx
            rcases List.mem_cons.mp hx with rfl | hx
            · exact ⟨root', hroot, hroot'⟩
            · exact ih hrest hrest' x hx

/-- With an injective hash, databases with the same roots export the same rows. -/
lemma exportRows_eq_of_uncachedRoots (hhash : Function.Injective hash) {db' : Database}
    {out : List (String × String)} (h : uncachedRoots inv hash db = .ok out)
    (h' : uncachedRoots inv hash db' = .ok out) :
    ∀ e ∈ inv.exporters, e.exportRows db = e.exportRows db' := by
  intro e he
  obtain ⟨root, hroot, hroot'⟩ := computeRoot_eq_of_uncachedLoop inv.exporters h h' e he
  unfold computeRoot at hroot hroot'
  cases hrows : e.exportRows db with
  | error err => simp [hrows, Except.map] at hroot
  | ok rows =>
    cases hrows' : e.exportRows db' with
    | error err => simp [hrows', Except.map] at hroot'
    | ok rows' =>
      simp only [hrows, Except.map, Except.ok.injEq] at hroot
      simp only [hrows', Except.map, Except.ok.injEq] at hroot'
      rw [hhash (hroot.trans hroot'.symm)]

end Loop

/-! ## Merges that count every write -/

/-- A merge that counts every write it makes, if it makes one.  The four writes that are not counted
do not occur: a refusal that is recorded over an exported operation, an operation or a row that is
merged before the merge of its entity fails, and a stored delete of a peer that
`apply_pending_deletes` marks as refused. -/
structure QuietMerge (inv : Inventory) (ctx : MergeCtx) (bundle : Bundle) (db : Database) :
    Prop where
  /-- No delete of a peer that is refused for its row is newer than an exported operation on its
  key. -/
  refusals : ∀ o ∈ bundle.ops, o.considered = true → o.op = "delete" →
    checkOp inv.policies ctx db o = .error rowDeleteRefused →
    ∀ cur, db.ops.find o.key = some cur → cur.op ≠ "refused" → ¬cur.stamp < o.stamp
  /-- If the merge of the op-log fails, it fails before its first write. -/
  ops_clean : ∀ rows, bundle.get opsEntity = some rows → ∀ log e,
    replicateMerge inv.policies ctx db rows = (log, .error e) → log = db.ops
  /-- If the merge of an entity fails, it fails before its first write. -/
  domain_clean : ∀ reg ∈ inv.domains, ∀ rows, bundle.get reg.name = some rows → ∀ t e,
    reg.merge ctx (mergeOpLog inv ctx bundle db).1 rows = (t, .error e) → t = db.tables reg.name
  /-- No stored delete of a peer is refused for its row. -/
  pending : ∀ p ∈ db.ops.pending, p.localOrigin = false →
    peerDeleteAllowed inv.policies ctx db.tables p.entity p.keyCol p.keyVal ≠
      .error rowDeleteRefused

section Quiet

variable {pols : List EntityPolicy} {inv : Inventory} {ctx : MergeCtx} {bundle : Bundle}
  {db : Database}

/-- The operations that are exported, in row order. -/
def OpLog.live (log : OpLog) : List OpRow := log.rows.filter fun r => r.op != "refused"

/-- A refusal that replaces nothing but a refusal is not seen in the export. -/
lemma OpLog.live_store_refused {log : OpLog} {r : OpRow} (hc : ¬log.Clash r) (hr : r.op = "refused")
    (hold : ∀ cur, log.find r.key = some cur → cur.op = "refused") :
    (log.store r hc).live = log.live := by
  have hrefused : ∀ x ∈ log.rows, x.key = r.key → x.op = "refused" :=
    fun x hx hkey => hold x (hkey ▸ KeyedTable.mem_rows_iff.mp hx)
  unfold OpLog.live OpLog.store OpLog.storeTable
  rw [KeyedTable.rows_upsert]
  split
  · rw [List.filter_map]
    have hfilter : log.rows.filter ((fun x : OpRow => x.op != "refused") ∘
        fun x => if x.key = r.key then r else x) = log.rows.filter fun x => x.op != "refused" := by
      refine List.filter_congr fun x hx => ?_
      by_cases hkey : x.key = r.key
      · simp [hkey, hr, hrefused x hx hkey]
      · simp [hkey]
    rw [hfilter]
    refine (List.map_congr_left fun x hx => ?_).trans (List.map_id _)
    -- what is left has another key
    obtain ⟨hx, hop⟩ := List.mem_filter.mp hx
    have hkey : x.key ≠ r.key := fun hkey => by simp [hrefused x hx hkey] at hop
    simp [hkey]
  · rw [List.filter_append]
    simp [hr]

/-- The loop of `replicate_merge` counts upwards. -/
lemma mergeOps_le (rows : List Json) {log log' : OpLog} {merged m : Nat}
    (h : mergeOps pols ctx db rows log merged = (log', .ok m)) : merged ≤ m := by
  induction rows generalizing log merged with
  | nil =>
    simp only [mergeOps, Prod.mk.injEq, Except.ok.injEq] at h
    exact h.2.le
  | cons row rows ih =>
    unfold mergeOps at h
    split at h
    · exact ih h
    · split at h
      · cases h
      · have hle := ih h
        split at hle <;> omega

/-- A `replicate_merge` that succeeds, counts nothing and records no refusal over an exported
operation leaves the exported operations as they were. -/
lemma live_mergeOps (rows : List Json)
    (hquiet : ∀ row ∈ rows, (opRowOfJson row).considered = true → (opRowOfJson row).op = "delete" →
      checkOp pols ctx db (opRowOfJson row) = .error rowDeleteRefused →
      ∀ cur, db.ops.find (opRowOfJson row).key = some cur → cur.op ≠ "refused" →
        ¬cur.stamp < (opRowOfJson row).stamp)
    {log log' : OpLog} {merged : Nat} (hlive : log.live = db.ops.live)
    (h : mergeOps pols ctx db rows log merged = (log', .ok merged)) : log'.live = db.ops.live := by
  induction rows generalizing log with
  | nil =>
    simp only [mergeOps, Prod.mk.injEq] at h
    rw [← h.1]
    exact hlive
  | cons row rows ih =>
    have htail := fun x hx => hquiet x (List.mem_cons_of_mem row hx)
    unfold mergeOps at h
    split at h
    · exact ih htail hlive h
    · rename_i r hadm
      split at h
      · cases h
      · rename_i log₁ k hupsert
        rcases OpLog.upsert_cases hupsert with ⟨-, rfl, rfl⟩ | ⟨hc, hacc, rfl, rfl⟩
        · simp only [Nat.add_zero, ite_self] at h
          exact ih htail hlive h
        · by_cases hop : r.op = "refused"
          · simp only [hop, ne_eq, not_true_eq_false, if_false] at h
            refine ih htail ?_ h
            rw [OpLog.live_store_refused hc hop ?_, hlive]
            -- an exported operation in its place would be one of the start
            intro cur hcur
            by_contra hexported
            obtain ⟨hconsidered, hcases⟩ := admitOp_eq_some hadm
            rcases hcases with ⟨-, rfl⟩ | ⟨hcheck, hdelete, rfl⟩
            · simp [OpRow.considered, hop] at hconsidered
            · obtain ⟨hmem, hkey⟩ := KeyedTable.find_eq_some_iff.mp hcur
              have hmem' : cur ∈ db.ops.live := by
                rw [← hlive]
                exact List.mem_filter.mpr ⟨hmem, by simpa using hexported⟩
              have hfind : db.ops.find (opRowOfJson row).key = some cur :=
                KeyedTable.find_eq_some_iff.mpr ⟨(List.mem_filter.mp hmem').1, hkey⟩
              exact hquiet row List.mem_cons_self hconsidered hdelete hcheck cur hfind hexported
                (hacc cur hcur)
          · simp only [ne_eq, hop, not_false_eq_true, if_true] at h
            exact absurd (mergeOps_le rows h) (by omega)

/-- Phase 1 of a quiet merge that counts nothing leaves the exported operations as they were. -/
lemma QuietMerge.live_mergeOpLog (hq : QuietMerge inv ctx bundle db)
    (h : (mergeOpLog inv ctx bundle db).2 = 0) :
    (mergeOpLog inv ctx bundle db).1.ops.live = db.ops.live := by
  have hrefusals := hq.refusals
  unfold Bundle.ops at hrefusals
  unfold mergeOpLog at h ⊢
  cases hget : bundle.get opsEntity with
  | none => rfl
  | some rows =>
    rw [hget] at h hrefusals
    simp only at h ⊢
    cases hres : replicateMerge inv.policies ctx db rows with
    | mk log res =>
      cases res with
      | error e => rw [hq.ops_clean rows hget log e hres]
      | ok m =>
        obtain rfl : m = 0 := by simpa [hres, mergedCount] using h
        refine live_mergeOps (rows.asArray.getD []) (fun row hrow => ?_) rfl hres
        exact hrefusals _ (List.mem_map_of_mem hrow)

lemma tables_mergeOpLog (inv : Inventory) (ctx : MergeCtx) (bundle : Bundle) (db : Database) :
    (mergeOpLog inv ctx bundle db).1.tables = db.tables := by
  unfold mergeOpLog
  split
  · rfl
  · rfl

lemma le_mergeDomain (ctx : MergeCtx) (bundle : Bundle) (acc : Database × Nat)
    (reg : ReplicatedRegistration) : acc.2 ≤ (mergeDomain ctx bundle acc reg).2 := by
  unfold mergeDomain
  split
  · exact Nat.le_refl _
  · exact Nat.le_add_right _ _

lemma le_mergeDomains (inv : Inventory) (ctx : MergeCtx) (bundle : Bundle) (acc : Database × Nat) :
    acc.2 ≤ (mergeDomains inv ctx bundle acc).2 :=
  foldl_invariant (I := fun x : Database × Nat => acc.2 ≤ x.2)
    (fun reg _ x hx => Nat.le_trans hx (le_mergeDomain ctx bundle x reg)) (Nat.le_refl _)

/-- Phase 2 of a quiet merge that counts nothing leaves the database as phase 1 left it. -/
lemma QuietMerge.mergeDomains_eq (hq : QuietMerge inv ctx bundle db)
    (h : (mergeDomains inv ctx bundle (mergeOpLog inv ctx bundle db)).2 =
      (mergeOpLog inv ctx bundle db).2) :
    mergeDomains inv ctx bundle (mergeOpLog inv ctx bundle db) = mergeOpLog inv ctx bundle db := by
  refine foldl_eq_of_count_eq (fun reg _ x => le_mergeDomain ctx bundle x reg)
    (fun reg hreg hcount => ?_) h
  have hreg' : reg ∈ inv.domains := List.mem_mergeSort.mp hreg
  unfold mergeDomain at hcount ⊢
  cases hget : bundle.get reg.name with
  | none => rfl
  | some rows =>
    simp only [hget] at hcount ⊢
    cases hres : reg.merge ctx (mergeOpLog inv ctx bundle db).1 rows with
    | mk t res =>
      have ht : t = (mergeOpLog inv ctx bundle db).1.tables reg.name := by
        cases res with
        | error e => rw [hq.domain_clean reg hreg' rows hget t e hres, tables_mergeOpLog]
        | ok m =>
          obtain rfl : m = 0 := by simpa [hres, mergedCount] using hcount
          exact reg.merge_zero hres
      simp only [hres] at hcount ⊢
      rw [ht, Function.update_eq_self, hcount]

/-- A `DELETE` that removes no row changes nothing. -/
lemma deleteRows_eq {entity keyCol keyVal : String}
    (h : (deleteRows inv db entity keyCol keyVal).2 = 0) :
    (deleteRows inv db entity keyCol keyVal).1 = db := by
  unfold deleteRows at h ⊢
  simp only at h ⊢
  rw [List.countP_eq_zero] at h
  have hkept : (db.tables entity).filter
      (fun r => !(inv.schema entity).holds keyCol (.text keyVal) r) = db.tables entity := by
    refine List.filter_eq_self.mpr fun r hr => ?_
    simpa using h r hr
  rw [hkept, Function.update_eq_self]

/-- An `apply_pending_deletes` that counts nothing and refuses no stored delete of a peer changes
nothing. -/
lemma applyPendingDeletes_eq
    (hquiet : ∀ p ∈ db.ops.pending, p.localOrigin = false →
      peerDeleteAllowed inv.policies ctx db.tables p.entity p.keyCol p.keyVal ≠
        .error rowDeleteRefused)
    (h : (applyPendingDeletes inv ctx db).2 = 0) : (applyPendingDeletes inv ctx db).1 = db := by
  have hall : applyPendingDeletes inv ctx db = (db, 0) := by
    refine foldl_eq_of_count_eq (fun p _ x => ?_) (fun p hp hcount => ?_) h
    · rcases applyDelete_cases inv ctx x p with hx | ⟨-, -, hx⟩ | hx
      · rw [hx]
      · rw [hx]
      · rw [hx]
        exact Nat.le_add_right _ _
    · rcases applyDelete_cases inv ctx (db, 0) p with hx | ⟨hlocal, hno, -⟩ | hx
      · exact hx
      · exact absurd hno (hquiet p hp hlocal)
      · rw [hx] at hcount ⊢
        simp only [Nat.zero_add] at hcount ⊢
        rw [deleteRows_eq hcount, hcount]
  rw [hall]

/-- A merge that keeps the memo has counted nothing. -/
lemma counts_eq_zero (hcap : bundle.rows ≤ maxBundleRows)
    (h : (mergeBundle inv ctx bundle db).invalidated = false) :
    (mergeDomains inv ctx bundle (mergeOpLog inv ctx bundle db)).2 = 0 ∧
      (applyPendingDeletes inv ctx
        (mergeDomains inv ctx bundle (mergeOpLog inv ctx bundle db)).1).2 = 0 := by
  unfold mergeBundle at h
  rw [if_neg (not_lt.mpr hcap)] at h
  simp only at h
  split at h
  · cases h
  · rename_i hzero
    rw [not_or, not_lt, not_lt, Nat.le_zero, Nat.le_zero] at hzero
    exact hzero

/-- Deletes are exported, so logs with the same exported operations have the same deletes. -/
lemma OpLog.pending_subset {log log' : OpLog} (h : log'.live = log.live) :
    log'.pending ⊆ log.pending := by
  intro p hp
  obtain ⟨hmem, hop⟩ := List.mem_filter.mp hp
  have hdelete : p.op = "delete" := by simpa using hop
  have hp' : p ∈ log.live := by
    rw [← h]
    exact List.mem_filter.mpr ⟨hmem, by simp [hdelete]⟩
  exact List.mem_filter.mpr ⟨(List.mem_filter.mp hp').1, hop⟩

/-- **A quiet merge.**  If it keeps the memo, then it has changed neither the exported operations
nor a table. -/
lemma QuietMerge.mergeBundle_eq (hcap : bundle.rows ≤ maxBundleRows)
    (hq : QuietMerge inv ctx bundle db)
    (h : (mergeBundle inv ctx bundle db).invalidated = false) :
    (mergeBundle inv ctx bundle db).db.ops.exported = db.ops.exported ∧
      (mergeBundle inv ctx bundle db).db.tables = db.tables := by
  obtain ⟨hops, htables⟩ := mergeBundle_within inv ctx db hcap
  obtain ⟨hmerged, happlied⟩ := counts_eq_zero hcap h
  have hphase1 : (mergeOpLog inv ctx bundle db).2 = 0 := by
    have hle := le_mergeDomains inv ctx bundle (mergeOpLog inv ctx bundle db)
    omega
  have hlive := hq.live_mergeOpLog hphase1
  have hdomains := hq.mergeDomains_eq (by rw [hmerged, hphase1])
  rw [hdomains] at hops htables happlied
  -- the deletes that are enforced are those of the start
  have hkept := applyPendingDeletes_eq (fun p hp hlocal => by
    rw [tables_mergeOpLog]
    exact hq.pending p (OpLog.pending_subset hlive hp) hlocal) happlied
  rw [hkept] at hops htables
  refine ⟨?_, by rw [htables, tables_mergeOpLog]⟩
  rw [hops]
  unfold OpLog.live at hlive
  unfold OpLog.exported
  rw [hlive]

end Quiet

/-! ## Runs -/

/-- The condition on a step: a merge that is not dropped for its size counts every write. -/
def Node.Quiet (inv : Inventory) (n : Node) : Action → Prop
  | .merge ctx bundle => bundle.rows ≤ maxBundleRows → QuietMerge inv ctx bundle n.db
  | _ => True

section Runs

variable {inv : Inventory} {hash : Json → String} {n : Node}

/-- `put` keeps the memo fresh. -/
lemma Node.fresh_afterPut (hn : n.Fresh inv hash) (res : Except String OpLog) :
    (n.afterPut res).Fresh inv hash := by
  cases res with
  | error e => exact hn
  | ok log => exact hn.of_invalidateRoot fun e he hne => exportRows_of_ops log e he hne

/-- `reap` keeps the memo fresh: if it drops nothing, the log is the same. -/
lemma Node.fresh_reap (hn : n.Fresh inv hash) (nowMs ttlMs : Int) :
    (n.step inv hash (.reap nowMs ttlMs)).Fresh inv hash := by
  unfold Node.step
  simp only
  split
  · exact hn.of_invalidateRoot fun e he hne => exportRows_of_ops _ e he hne
  · rename_i hzero
    refine hn.of_exports_eq (exportRows_eq ?_ rfl)
    have hkept : (n.db.ops.reap nowMs ttlMs).1.rows = n.db.ops.rows := by
      refine List.filter_eq_self.mpr fun r hr => ?_
      have hnone := List.countP_eq_zero.mp (Nat.le_zero.mp (not_lt.mp hzero)) r hr
      simpa using hnone
    unfold OpLog.exported
    rw [hkept]

/-- A quiet merge keeps the memo fresh. -/
lemma Node.fresh_merge (hn : n.Fresh inv hash) {ctx : MergeCtx} {bundle : Bundle}
    (hq : n.Quiet inv (.merge ctx bundle)) :
    (n.step inv hash (.merge ctx bundle)).Fresh inv hash := by
  unfold Node.step
  simp only
  split
  · exact fun e _ h hh => nomatch hh
  · rename_i hkept
    refine hn.of_exports_eq ?_
    by_cases hcap : bundle.rows ≤ maxBundleRows
    · obtain ⟨hops, htables⟩ := (hq hcap).mergeBundle_eq hcap (Bool.not_eq_true _ ▸ hkept)
      exact exportRows_eq hops htables
    · rw [mergeBundle_of_too_many inv ctx n.db (not_le.mp hcap)]
      exact fun _ _ => rfl

/-- **One step.**  A quiet step keeps the memo fresh. -/
lemma Node.fresh_step (a : Action) (hn : n.Fresh inv hash) (hq : n.Quiet inv a) :
    (n.step inv hash a).Fresh inv hash := by
  cases a with
  | write entity rows =>
    refine hn.of_invalidateRoot fun e he hne => ?_
    rcases mem_exporters.mp he with rfl | ⟨reg, -, rfl⟩
    · rfl
    · simp only [ReplicatedRegistration.exporter] at hne ⊢
      rw [Function.update_of_ne hne]
  | noteDelete opId entity keyCol keyVal stampMs => exact fresh_afterPut hn _
  | noteWrite opId entity keyCol keyVal stampMs =>
    simp only [Node.step]
    split
    · exact fresh_afterPut hn _
    · exact hn
  | merge ctx bundle => exact fresh_merge hn hq
  | reap nowMs ttlMs => exact fresh_reap hn nowMs ttlMs
  | roots => exact fresh_roots hn

/-- **The memo is fresh.**  After every run of quiet steps from an empty memo, `roots` returns for
every registered entity the root of its rows as they are, and fails exactly when computing them
would.  Hence, the hash being injective, a database with these roots exports the same rows. -/
theorem roots_fresh {db : Database} (run : List Action)
    (hquiet : Along (Node.step inv hash) (Node.Quiet inv) ⟨db, fun _ => none⟩ run) :
    let n := run.foldl (Node.step inv hash) ⟨db, fun _ => none⟩
    (n.roots inv hash).2 = uncachedRoots inv hash n.db ∧
      (Function.Injective hash → ∀ other out, (n.roots inv hash).2 = .ok out →
        uncachedRoots inv hash other = .ok out →
        ∀ e ∈ inv.exporters, e.exportRows n.db = e.exportRows other) := by
  intro n
  have hfresh : n.Fresh inv hash :=
    foldl_invariant_along (fun _ a hs hq => Node.fresh_step a hs hq) hquiet fun _ _ _ h => nomatch h
  refine ⟨Node.roots_of_fresh hfresh, fun hhash other out hout hother => ?_⟩
  rw [Node.roots_of_fresh hfresh] at hout
  exact exportRows_eq_of_uncachedRoots hhash hout hother

end Runs

/-! ### A malformed row after a good one -/

/-- A hash of sample rows: the `updated_at` of each. -/
def sampleHash (rows : Json) : String :=
  String.ofList ((rows.asArray.getD []).map fun row =>
    Char.ofNat ((((row.get? "updated_at").bind Json.asI64).getD 0).toNatClampNeg + 48))

/-- A database with the endpoint `e1`, last written at time `1`. -/
def endpointDatabase : Database where
  ops := .empty
  tables := fun _ =>
    [fun c => if c = "id" then .text "e1" else if c = "updated_at" then .integer 1 else .null]
  host := ⟨"h1", "h1", false⟩

/-- A merge of well-formed rows between two calls of `roots`. -/
def wellFormedRun : List Action := [.roots, .merge ⟨2000, some "h2"⟩ (endpointBundle []), .roots]

/-- A merge that fails at a malformed row between two calls of `roots`. -/
def malformedRun : List Action := [.roots, .merge ⟨2000, some "h2"⟩ (endpointBundle [.null])]

/-- The entities of the sample, in name order. -/
lemma exporters_endpointsInventory : endpointsInventory.exporters =
    [(endpointsRegistration plainLibs .untyped).exporter, opsExporter] :=
  List.mergeSort_of_pairwise (by decide)

/-- The merge of well-formed rows is quiet. -/
lemma quietMerge_endpointBundle :
    QuietMerge endpointsInventory ⟨2000, some "h2"⟩ (endpointBundle []) endpointDatabase where
  refusals := fun o ho => nomatch ho
  ops_clean := by
    intro rows hget
    have hnone : (endpointBundle []).get opsEntity = none := rfl
    cases hnone.symm.trans hget
  domain_clean := by
    intro reg hreg rows hget t e hres
    obtain rfl := List.mem_singleton.mp hreg
    have hrows : (endpointBundle []).get "endpoints" = some (.array (endpointRows [])) := rfl
    cases hrows.symm.trans hget
    -- it does not fail
    have hok : (mergeTable plainLibs .untyped endpointsSpec 2000
        (endpointDatabase.tables "endpoints") (.array (endpointRows []))).2 = .ok 1 := by
      decide +kernel
    cases (congrArg Prod.snd hres).symm.trans hok
  pending := fun p hp => nomatch hp

/-- After the merge of well-formed rows, the second call of `roots` is up to date. -/
theorem roots_fresh_wellFormed :
    let n := wellFormedRun.foldl (Node.step endpointsInventory sampleHash)
      ⟨endpointDatabase, fun _ => none⟩
    (n.roots endpointsInventory sampleHash).2 =
      uncachedRoots endpointsInventory sampleHash n.db :=
  (roots_fresh wellFormedRun
    ⟨trivial, fun _ => quietMerge_endpointBundle, trivial, trivial⟩).1

/-- A merge that fails at its second row has written the first, counts nothing and keeps the memo:
the next call of `roots` returns the root of the endpoint as it was. -/
theorem roots_stale_malformed :
    let n := malformedRun.foldl (Node.step endpointsInventory sampleHash)
      ⟨endpointDatabase, fun _ => none⟩
    (n.roots endpointsInventory sampleHash).2 =
        .ok [("endpoints", "1"), ("replication_ops", "")] ∧
      uncachedRoots endpointsInventory sampleHash n.db =
        .ok [("endpoints", "5"), ("replication_ops", "")] := by
  simp only [malformedRun, List.foldl_cons, List.foldl_nil, Node.step, Node.roots, uncachedRoots,
    exporters_endpointsInventory]
  decide +kernel

end Orca
