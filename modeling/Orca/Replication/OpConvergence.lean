import Orca.Replication.Tombstones

/-!
# Convergence of the op-log

Operations travel in bundles, in any order and any number of times.  When every one of them is
admitted, the op-log they leave depends only on which operations there were: it holds, for every
key, the one with the greatest stamp.  Two things stand between the statement and the library's
theorem on last-writer-wins maps: the ids, which the table wants distinct, and the legacy names,
which `replicate_merge` replaces before it looks at the key.
-/

namespace Orca

open LastWriterWins

/-! ## Operations that are admitted whatever the state -/

/-- The operation is on an entity whose rows any peer may delete, by a declared key. -/
def Unconditional (pols : List EntityPolicy) (r : OpRow) : Prop :=
  ∃ pol allowed, pols.find? (fun p => p.name == r.entity) = some pol ∧ r.keyCol ∈ pol.keys ∧
    pol.peerDelete = some allowed ∧ ∀ ctx tables keyVal, allowed ctx tables keyVal = true

/-- The operation has all its fields, is not a refusal, is not too far in the future, and is on an
entity whose rows any peer may delete. -/
structure Deliverable (pols : List EntityPolicy) (now : Int) (r : OpRow) : Prop where
  /-- No field is missing, and the operation is not a refusal of the sender. -/
  considered : r.considered = true
  /-- The stamp is within the bound. -/
  bounded : r.stampMs.toInt ≤ now + maxLwwSkewMillis
  /-- Any peer may delete rows of the entity. -/
  unconditional : Unconditional pols r

/-- Such an operation is admitted as it is. -/
lemma admitOp_of_deliverable {pols : List EntityPolicy} {ctx : MergeCtx} {r : OpRow}
    (h : Deliverable pols ctx.now r) (db : Database) : admitOp pols ctx db r = some r := by
  obtain ⟨pol, allowed, hfind, hkey, hpeer, hallowed⟩ := h.unconditional
  have hname : pol.name = r.entity := by simpa using List.find?_some hfind
  have htarget : opTarget pols r.entity r.keyCol = .ok (some pol) := by
    unfold opTarget
    rw [if_neg (hname ▸ pol.name_ne_peers), if_neg (hname ▸ pol.name_ne_ops), hfind]
    simp only [if_pos hkey]
  have hmillis : checkIncomingMillis ctx.now r.stampMs.toInt = .ok r.stampMs.toInt := by
    simp only [checkIncomingMillis, checkLwwMillis]
    rw [if_neg (not_lt.mpr h.bounded)]
  have hcheck : checkOp pols ctx db r = .ok () := by
    unfold checkOp
    rw [hmillis]
    simp only [peerOpAllowed]
    rw [if_neg (hname ▸ pol.name_ne_peers)]
    simp [peerDeleteAllowed, htarget, hpeer, hallowed]
  simp [admitOp, h.considered, hcheck]

/-! ## A bundle of admitted operations -/

/-- `replicate_merge` of admitted operations gives them to the last-writer-wins map of the log, as
long as an id belongs to one operation only. -/
lemma find_mergeOps {pols : List EntityPolicy} {ctx : MergeCtx} (db : Database) {P : OpRow → Prop}
    (hid : ∀ a b, P a → P b → a.opId = b.opId → a = b) (rows : List Json)
    (hrows : ∀ row ∈ rows, P (opRowOfJson row) ∧ Deliverable pols ctx.now (opRowOfJson row))
    {log : OpLog} (hlog : ∀ x ∈ log.rows, P x) (merged : Nat) :
    (∀ x ∈ (mergeOps pols ctx db rows log merged).1.rows, P x) ∧
      (mergeOps pols ctx db rows log merged).1.find =
        (rows.map opRowOfJson).foldl (put OpRow.key OpRow.stamp) log.find := by
  induction rows generalizing log merged with
  | nil => exact ⟨hlog, rfl⟩
  | cons row rows ih =>
    obtain ⟨hP, hdeliverable⟩ := hrows row List.mem_cons_self
    have htail := fun x hx => hrows x (List.mem_cons_of_mem row hx)
    have hclash : ¬log.Clash (opRowOfJson row) := by
      rintro ⟨x, hx, heq, hne⟩
      exact hne (by rw [hid x _ (hlog x hx) hP heq])
    unfold mergeOps
    rw [admitOp_of_deliverable hdeliverable db, List.map_cons, List.foldl_cons]
    cases hupsert : log.upsert (opRowOfJson row) with
    | error e => exact absurd (OpLog.upsert_eq_error hupsert).2 hclash
    | ok res =>
      obtain ⟨log', n⟩ := res
      have hlog' : ∀ x ∈ log'.rows, P x := by
        rcases OpLog.upsert_cases hupsert with ⟨-, rfl, -⟩ | ⟨hc, -, rfl, -⟩
        · exact hlog
        · intro x hx
          rcases OpLog.mem_rows_store.mp hx with rfl | ⟨hx, -⟩
          · exact hP
          · exact hlog x hx
      rw [← OpLog.find_of_upsert hupsert]
      simp only [hupsert]
      exact ih htail hlog' _

/-- A bundle of operations as it reaches a host: with the clock and the peer of the merge, and the
state of the host at that time. -/
structure Delivery where
  ctx : MergeCtx
  tables : String → Table
  host : Host
  rows : List Json

/-- `replicate_merge` of a bundle. -/
def deliver (pols : List EntityPolicy) (log : OpLog) (d : Delivery) : OpLog :=
  (replicateMerge pols d.ctx ⟨log, d.tables, d.host⟩ (.array d.rows)).1

/-- A run of bundles gives their operations to the map of the log, one after another. -/
lemma find_foldl_deliver {pols : List EntityPolicy} {P : OpRow → Prop}
    (hid : ∀ a b, P a → P b → a.opId = b.opId → a = b) (ds : List Delivery)
    (hds : ∀ d ∈ ds, ∀ row ∈ d.rows, P (opRowOfJson row) ∧
      Deliverable pols d.ctx.now (opRowOfJson row))
    {log : OpLog} (hlog : ∀ x ∈ log.rows, P x) :
    (ds.foldl (deliver pols) log).find =
      ((ds.flatMap Delivery.rows).map opRowOfJson).foldl (put OpRow.key OpRow.stamp) log.find := by
  induction ds generalizing log with
  | nil => rfl
  | cons d ds ih =>
    obtain ⟨hlog', hfind⟩ := find_mergeOps ⟨log, d.tables, d.host⟩ hid d.rows
      (hds d List.mem_cons_self) hlog 0
    rw [List.foldl_cons, List.flatMap_cons, List.map_append, List.foldl_append, ← hfind]
    exact ih (fun x hx => hds x (List.mem_cons_of_mem d hx)) hlog'

/-- **Op-log convergence.**  Let the operations of a collection have distinct ids, all their fields,
stamps within the bound, no refusals among them, and declared keys of entities whose rows any peer
may delete.  Whatever the order in which they are merged, however they are split into bundles and
however often each is repeated, the op-log ends with exactly one row for every key they have under
current names: the one with the greatest stamp. -/
theorem opLog_converges {pols : List EntityPolicy} {ops : List Json} {ds : List Delivery}
    (hid : ∀ a ∈ ops, ∀ b ∈ ops, (opRowOfJson a).opId = (opRowOfJson b).opId → a = b)
    (hsame : ∀ row, row ∈ ds.flatMap Delivery.rows ↔ row ∈ ops)
    (hds : ∀ d ∈ ds, ∀ row ∈ d.rows, Deliverable pols d.ctx.now (opRowOfJson row)) :
    (∀ r, r ∈ (ds.foldl (deliver pols) .empty).rows ↔
      IsLatest OpRow.key OpRow.stamp (· ∈ ops.map opRowOfJson) r.key r) ∧
    ∀ row ∈ ops, ∃! r, r ∈ (ds.foldl (deliver pols) .empty).rows ∧
      r.key = (opRowOfJson row).key := by
  have hid' : ∀ a b, a ∈ ops.map opRowOfJson → b ∈ ops.map opRowOfJson → a.opId = b.opId →
      a = b := by
    intro a b ha hb heq
    obtain ⟨x, hx, rfl⟩ := List.mem_map.mp ha
    obtain ⟨y, hy, rfl⟩ := List.mem_map.mp hb
    rw [hid x hx y hy heq]
  have hmem : ∀ r, r ∈ (ds.flatMap Delivery.rows).map opRowOfJson ↔ r ∈ ops.map opRowOfJson := by
    intro r
    simp only [List.mem_map, hsame]
  have hfind : (ds.foldl (deliver pols) .empty).find =
      ((ds.flatMap Delivery.rows).map opRowOfJson).foldl (put OpRow.key OpRow.stamp)
        fun _ => none := by
    refine find_foldl_deliver (P := (· ∈ ops.map opRowOfJson)) hid' ds ?_ (by simp)
    intro d hd row hrow
    refine ⟨List.mem_map_of_mem ((hsame row).mp ?_), hds d hd row hrow⟩
    exact List.mem_flatMap.mpr ⟨d, hd, hrow⟩
  have hrep : Represents OpRow.key OpRow.stamp (ds.foldl (deliver pols) .empty).find
      (· ∈ ops.map opRowOfJson) := by
    rw [hfind]
    have hall := represents_foldl_put OpRow.key OpRow.stamp
      ((ds.flatMap Delivery.rows).map opRowOfJson)
    simpa only [hmem] using hall
  -- the stamp ends with the id, so it tells operations apart
  have hinj : ∀ k : String × String, ∀ a b, a ∈ ops.map opRowOfJson → b ∈ ops.map opRowOfJson →
      OpRow.key a = k → OpRow.key b = k → a.stamp = b.stamp → a = b := by
    intro k a b ha hb _ _ hstamp
    exact hid' a b ha hb (Prod.ext_iff.mp (toLex_inj.mp hstamp)).2
  refine ⟨fun r => ?_, fun row hrow => ?_⟩
  · rw [← hrep.eq_some_iff (hinj r.key), KeyedTable.find_eq_some_iff]
    simp
  · cases hcur : (ds.foldl (deliver pols) .empty).find (opRowOfJson row).key with
    | none => exact absurd rfl (hrep.occupied hcur _ (List.mem_map_of_mem hrow))
    | some r =>
      refine ⟨r, KeyedTable.find_eq_some_iff.mp hcur, fun x hx => ?_⟩
      have hx' := KeyedTable.find_eq_some_iff.mpr hx
      rw [hcur] at hx'
      exact (Option.some.inj hx').symm

/-! ### Two names of one entity -/

/-- An entity whose rows any peer may delete, under its current name. -/
def trustPolicy : EntityPolicy where
  name := "mesh_trust"
  keys := ["peer_id"]
  peerDelete := some allowPeerDelete
  name_isIdent := by decide
  keys_isIdent := by decide
  name_ne_ops := by decide
  name_ne_peers := by decide

/-- An operation on the key `p`, under either name of the entity. -/
def trustOp (opId entity op : String) (stampMs : Int64) : Json :=
  OpRow.toJson ⟨opId, entity, "peer_id", "p", op, "h2", stampMs, false⟩

/-- A bundle of operations for a host without rows. -/
def trustDelivery (rows : List Json) : Delivery where
  ctx := ⟨5000, some "h2"⟩
  tables := fun _ => []
  host := ⟨"h1", "h1", false⟩
  rows := rows

/-- A delete under the legacy name and a newer one under the current name. -/
def trustOps : List Json :=
  [trustOp "a" "pod_trust" "delete" 1000, trustOp "b" "mesh_trust" "delete" 2000]

lemma unconditional_trustOp {row : Json} (hentity : (opRowOfJson row).entity = "mesh_trust")
    (hkeyCol : (opRowOfJson row).keyCol = "peer_id") :
    Unconditional [trustPolicy] (opRowOfJson row) := by
  refine ⟨trustPolicy, allowPeerDelete, ?_, ?_, rfl, fun _ _ _ => rfl⟩
  · rw [hentity]
    rfl
  · rw [hkeyCol]
    exact List.mem_singleton_self _

/-- The newer of these operations, followed twice by the older one, leaves one row. -/
theorem opLog_converges_legacy :
    ∃! r, r ∈ ([trustDelivery [trustOp "b" "mesh_trust" "delete" 2000,
          trustOp "a" "pod_trust" "delete" 1000],
        trustDelivery [trustOp "a" "pod_trust" "delete" 1000]].foldl (deliver [trustPolicy])
          .empty).rows ∧ r.key = (opRowOfJson (trustOp "a" "pod_trust" "delete" 1000)).key := by
  have hid : ∀ x ∈ trustOps, ∀ y ∈ trustOps,
      (opRowOfJson x).opId = (opRowOfJson y).opId → x = y := by
    intro x hx y hy heq
    simp only [trustOps, List.mem_cons, List.not_mem_nil, or_false] at hx hy
    rcases hx with rfl | rfl <;> rcases hy with rfl | rfl
    · rfl
    · exact absurd heq (by decide +kernel)
    · exact absurd heq (by decide +kernel)
    · rfl
  refine (opLog_converges hid ?_ ?_).2 _ List.mem_cons_self
  · intro row
    simp only [trustOps, List.flatMap_cons, List.flatMap_nil, trustDelivery, List.append_nil,
      List.mem_append, List.mem_cons, List.not_mem_nil, or_false]
    constructor
    · rintro ((h | h) | h) <;> simp [h]
    · rintro (h | h) <;> simp [h]
  · intro d hd row hrow
    have hrow' : d.ctx.now = 5000 ∧ (row = trustOp "b" "mesh_trust" "delete" 2000 ∨
        row = trustOp "a" "pod_trust" "delete" 1000) := by
      simp only [List.mem_cons, List.not_mem_nil, or_false] at hd
      rcases hd with rfl | rfl
      · exact ⟨rfl, by simpa [trustDelivery] using hrow⟩
      · exact ⟨rfl, Or.inr (by simpa [trustDelivery] using hrow)⟩
    obtain ⟨hnow, rfl | rfl⟩ := hrow'
    · exact ⟨by decide +kernel, by rw [hnow]; decide +kernel,
        unconditional_trustOp (by decide +kernel) (by decide +kernel)⟩
    · exact ⟨by decide +kernel, by rw [hnow]; decide +kernel,
        unconditional_trustOp (by decide +kernel) (by decide +kernel)⟩

/-- A refusal with all its fields, on an entity whose rows any peer may delete, leaves no row at
all. -/
theorem opLog_drops_refused :
    Unconditional [trustPolicy] (opRowOfJson (trustOp "a" "mesh_trust" "refused" 1000)) ∧
      (opRowOfJson (trustOp "a" "mesh_trust" "refused" 1000)).stampMs.toInt ≤
        5000 + maxLwwSkewMillis ∧
      ([trustDelivery [trustOp "a" "mesh_trust" "refused" 1000]].foldl (deliver [trustPolicy])
        .empty).rows = [] :=
  ⟨unconditional_trustOp (by decide +kernel) (by decide +kernel), by decide +kernel,
    by decide +kernel⟩

end Orca
