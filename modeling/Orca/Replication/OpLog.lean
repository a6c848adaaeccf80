import Mathlib.Data.String.Basic
import Mathlib.Data.Prod.Lex
import Mathlib.Data.List.Nodup
import Mathlib.Order.Basic
import Orca.Basic
import Orca.Data.Value
import Orca.Library.KeyedTable
import Orca.Library.LastWriterWins

/-!
# The op-log

The model of `replication_ops.rs` up to the SQL statements that write the table: the legacy names,
the guarded upsert behind `put` and `replicate_merge`, `note_delete`, `note_write`, `is_deleted`,
`reap` and `replicate_export`.

The table has two uniqueness constraints, `PRIMARY KEY (op_id)` and `UNIQUE (entity, key_val)`, and
`OpLog` carries both.  The upsert names the second as its conflict target, so that SQLite looks for
a row of the same key first; a clash of the `op_id` with a row of another key is an error.  Under
the key the log is a last-writer-wins map for the stamp `(stamp_ms, op_id)`
(`OpLog.find_of_upsert`).
-/

namespace Orca

/-- `replication_ops::ENTITY`. -/
def opsEntity : String := "replication_ops"

/-- `LEGACY_ENTITIES`: entity names of earlier releases with the names they have now. -/
def legacyEntities : List (String × String) :=
  [("pod_peers", "mesh_peers"),
    ("pod_peer_addresses", "mesh_peer_addresses"),
    ("pod_trust", "mesh_trust"),
    ("pod_self", "mesh_self"),
    ("pod_discovery", "mesh_discovery"),
    ("pod_pending_offers", "mesh_pending_offers")]

/-- `LEGACY_KEY_COLS`: key columns of earlier releases, by current entity name. -/
def legacyKeyCols : List (String × String × String) :=
  [("mesh_self", "pod_id", "mesh_id"),
    ("mesh_pending_offers", "pod_id", "mesh_id")]

/-- `canonical_key_col`. -/
def canonicalKeyCol (entity keyCol : String) : String :=
  match legacyKeyCols.find? fun l => l.1 == entity && l.2.1 == keyCol with
  | some l => l.2.2
  | none => keyCol

/-- `canonical_entity`. -/
def canonicalEntity (entity : String) : String :=
  match legacyEntities.find? fun l => l.1 == entity with
  | some l => l.2
  | none => entity

/-- `DEFAULT_TTL_MS`: 30 days. -/
def defaultTtlMs : Int := 30 * 24 * 60 * 60 * 1000

/-- `is_ident`: a bare SQL identifier. -/
def isIdent (ident : String) : Bool :=
  match ident.toList with
  | [] => false
  | c :: cs => (c.isAlpha || c == '_') && cs.all fun c => c.isAlphanum || c == '_'

/-! ## Rows -/

/-- A row of `replication_ops`. -/
structure OpRow where
  /-- Unique id of the operation, primary key of the table. -/
  opId : String
  /-- The replicated table the operation is about. -/
  entity : String
  /-- The key column of that table. -/
  keyCol : String
  /-- The value of the key column. -/
  keyVal : String
  /-- The operation: `delete`, `upsert`, or `refused` for a delete this host turned down. -/
  op : String
  /-- Name of the host that authored it. -/
  origin : String
  /-- When it was authored, in milliseconds since the epoch. -/
  stampMs : Int64
  localOrigin : Bool
deriving DecidableEq

namespace OpRow

/-- The columns of the `UNIQUE (entity, key_val)` constraint. -/
def key (r : OpRow) : String × String := (r.entity, r.keyVal)

/-- The stamp by which two operations on one key are ordered. -/
def stamp (r : OpRow) : Int ×ₗ String := toLex (r.stampMs.toInt, r.opId)

/-- The `WHERE` clause of the guarded upsert, with `r` for `excluded`. -/
def newerThan (r cur : OpRow) : Bool :=
  cur.stampMs < r.stampMs || (r.stampMs == cur.stampMs && cur.opId < r.opId)

lemma newerThan_iff (r cur : OpRow) : r.newerThan cur = true ↔ cur.stamp < r.stamp := by
  unfold newerThan stamp
  rw [Prod.Lex.toLex_lt_toLex, Bool.or_eq_true, Bool.and_eq_true, decide_eq_true_eq,
    decide_eq_true_eq, beq_iff_eq, Int64.lt_iff_toInt_lt]
  have heq : r.stampMs = cur.stampMs ↔ cur.stampMs.toInt = r.stampMs.toInt := by
    rw [Int64.toInt_inj]
    exact eq_comm
  rw [heq]

/-- The record of a delete that was turned down: the operation under its own stamp, as `refused`. -/
def refusal (r : OpRow) : OpRow := { r with op := "refused" }

@[simp] lemma refusal_key (r : OpRow) : r.refusal.key = r.key := rfl

@[simp] lemma refusal_stamp (r : OpRow) : r.refusal.stamp = r.stamp := rfl

@[simp] lemma refusal_opId (r : OpRow) : r.refusal.opId = r.opId := rfl

@[simp] lemma refusal_op (r : OpRow) : r.refusal.op = "refused" := rfl

/-- The JSON object `replicate_export` writes for a row.  `local_origin` stays at home. -/
def toJson (r : OpRow) : Json :=
  .object
    [("op_id", .string r.opId),
      ("entity", .string r.entity),
      ("key_col", .string r.keyCol),
      ("key_val", .string r.keyVal),
      ("op", .string r.op),
      ("origin", .string r.origin),
      ("stamp_ms", sqlToJson (.integer r.stampMs))]

end OpRow

/-! ## The table -/

/-- The table `replication_ops`, with `UNIQUE (entity, key_val)`. -/
structure OpLog extends KeyedTable OpRow.key where
  /-- `PRIMARY KEY (op_id)`. -/
  opId_nodup : (rows.map OpRow.opId).Nodup

namespace OpLog

/-- The empty log. -/
def empty : OpLog := ⟨.empty, List.nodup_nil⟩

@[simp] lemma rows_empty : empty.rows = [] := rfl

/-- The `op_id` of `r` already belongs to a row of another key. -/
def Clash (log : OpLog) (r : OpRow) : Prop := ∃ x ∈ log.rows, x.opId = r.opId ∧ x.key ≠ r.key

instance (log : OpLog) (r : OpRow) : Decidable (log.Clash r) :=
  inferInstanceAs (Decidable (∃ x ∈ log.rows, x.opId = r.opId ∧ x.key ≠ r.key))

/-- The rows after `r` took the place of the row of its key, or was appended. -/
def storeTable (log : OpLog) (r : OpRow) : KeyedTable OpRow.key :=
  log.toKeyedTable.upsert r (fun _ => r) fun _ _ => rfl

/-- A store sets the row of one key. -/
lemma find_storeTable (log : OpLog) (r : OpRow) :
    (log.storeTable r).find = Function.update log.find r.key (some r) := by
  funext k
  unfold storeTable
  rw [KeyedTable.find_upsert]
  by_cases hk : k = r.key
  · rw [if_pos hk, hk, Function.update_self]
    cases log.find r.key <;> rfl
  · rw [if_neg hk, Function.update_of_ne hk]

/-- The rows after a store. -/
lemma mem_storeTable {log : OpLog} {r x : OpRow} :
    x ∈ (log.storeTable r).rows ↔ x = r ∨ (x ∈ log.rows ∧ x.key ≠ r.key) := by
  rw [KeyedTable.mem_rows_iff, find_storeTable, KeyedTable.mem_rows_iff]
  by_cases hk : x.key = r.key
  · rw [hk, Function.update_self]
    simp [eq_comm]
  · rw [Function.update_of_ne hk]
    have hne : x ≠ r := fun h => hk (congrArg OpRow.key h)
    simp [hk, hne]

/-- A store keeps the ids distinct, unless the new id belongs to a row of another key. -/
lemma opId_nodup_storeTable {log : OpLog} {r : OpRow} (hclash : ¬log.Clash r) :
    ((log.storeTable r).rows.map OpRow.opId).Nodup := by
  -- rows of the new table with one id have one key, hence are one row
  refine (List.nodup_map_iff_inj_on (List.Nodup.of_map _ (log.storeTable r).nodup)).mpr ?_
  have hnew : ∀ y, y ∈ log.rows → y.key ≠ r.key → y.opId ≠ r.opId :=
    fun y hy hne heq => hclash ⟨y, hy, heq, hne⟩
  intro x hx y hy heq
  rcases mem_storeTable.mp hx with hxr | ⟨hx', hxk⟩
  · rcases mem_storeTable.mp hy with hyr | ⟨hy', hyk⟩
    · rw [hxr, hyr]
    · exact absurd (heq.symm.trans (congrArg OpRow.opId hxr)) (hnew y hy' hyk)
  · rcases mem_storeTable.mp hy with hyr | ⟨hy', hyk⟩
    · exact absurd (heq.trans (congrArg OpRow.opId hyr)) (hnew x hx' hxk)
    · exact List.inj_on_of_nodup_map log.opId_nodup hx' hy' heq

/-- Store a row under its key. -/
def store (log : OpLog) (r : OpRow) (h : ¬log.Clash r) : OpLog where
  toKeyedTable := log.storeTable r
  opId_nodup := opId_nodup_storeTable h

/-- The rows of a log after a store. -/
@[simp] lemma mem_rows_store {log : OpLog} {r : OpRow} {h : ¬log.Clash r} {x : OpRow} :
    x ∈ (log.store r h).rows ↔ x = r ∨ (x ∈ log.rows ∧ x.key ≠ r.key) :=
  mem_storeTable

lemma find_store (log : OpLog) (r : OpRow) (h : ¬log.Clash r) :
    (log.store r h).find = Function.update log.find r.key (some r) :=
  find_storeTable log r

/-! ## The guarded upsert -/

/-- Whether the upsert writes: the key has no row, or an older one. -/
def Accepts (log : OpLog) (r : OpRow) : Prop :=
  ∀ cur, log.find r.key = some cur → cur.stamp < r.stamp

/-- The decision as the SQL takes it. -/
def accepts (log : OpLog) (r : OpRow) : Bool :=
  match log.find r.key with
  | none => true
  | some cur => r.newerThan cur

/-- The decision of the SQL is `Accepts`. -/
lemma accepts_iff {log : OpLog} {r : OpRow} : log.accepts r = true ↔ log.Accepts r := by
  unfold accepts Accepts
  cases log.find r.key with
  | none => simp
  | some cur => simp [OpRow.newerThan_iff]

instance (log : OpLog) (r : OpRow) : Decidable (log.Accepts r) :=
  decidable_of_iff _ accepts_iff

/-- The message of a violated primary key. -/
def opIdTaken : String := "UNIQUE constraint failed: replication_ops.op_id"

/-- `INSERT … ON CONFLICT (entity, key_val) DO UPDATE … WHERE` newer, with the number of rows it
changed. -/
def upsert (log : OpLog) (r : OpRow) : Except String (OpLog × Nat) :=
  if log.accepts r then
    if h : log.Clash r then .error opIdTaken else .ok (log.store r h, 1)
  else .ok (log, 0)

lemma upsert_of_not_accepts {log : OpLog} {r : OpRow} (h : ¬log.Accepts r) :
    log.upsert r = .ok (log, 0) := by
  rw [← accepts_iff] at h
  simp [upsert, h]

lemma upsert_of_accepts {log : OpLog} {r : OpRow} (h : log.Accepts r) (hc : ¬log.Clash r) :
    log.upsert r = .ok (log.store r hc, 1) := by
  rw [← accepts_iff] at h
  simp [upsert, h, hc]

lemma upsert_of_clash {log : OpLog} {r : OpRow} (h : log.Accepts r) (hc : log.Clash r) :
    log.upsert r = .error opIdTaken := by
  rw [← accepts_iff] at h
  simp [upsert, h, hc]

/-- What an upsert that succeeds can have done. -/
lemma upsert_cases {log log' : OpLog} {r : OpRow} {n : Nat} (h : log.upsert r = .ok (log', n)) :
    (¬log.Accepts r ∧ log' = log ∧ n = 0) ∨
      ∃ hc : ¬log.Clash r, log.Accepts r ∧ log' = log.store r hc ∧ n = 1 := by
  by_cases hacc : log.Accepts r
  · by_cases hc : log.Clash r
    · rw [upsert_of_clash hacc hc] at h
      cases h
    · rw [upsert_of_accepts hacc hc] at h
      cases h
      exact Or.inr ⟨hc, hacc, rfl, rfl⟩
  · rw [upsert_of_not_accepts hacc] at h
    cases h
    exact Or.inl ⟨hacc, rfl, rfl⟩

/-- An upsert fails only on a taken id, which it checks after the guard. -/
lemma upsert_eq_error {log : OpLog} {r : OpRow} {e : String} (h : log.upsert r = .error e) :
    log.Accepts r ∧ log.Clash r := by
  by_cases hacc : log.Accepts r
  · by_cases hc : log.Clash r
    · exact ⟨hacc, hc⟩
    · rw [upsert_of_accepts hacc hc] at h
      cases h
  · rw [upsert_of_not_accepts hacc] at h
    cases h

/-- **Refinement.**  Seen through its keys, the table is a last-writer-wins map and the upsert gives
one entry to it. -/
theorem find_of_upsert {log log' : OpLog} {r : OpRow} {n : Nat}
    (h : log.upsert r = .ok (log', n)) :
    log'.find = LastWriterWins.put OpRow.key OpRow.stamp log.find r := by
  unfold LastWriterWins.put LastWriterWins.join
  rcases upsert_cases h with ⟨hacc, rfl, -⟩ | ⟨hc, hacc, rfl, -⟩
  · unfold Accepts at hacc
    push Not at hacc
    obtain ⟨cur, hcur, hle⟩ := hacc
    rw [hcur]
    simp only [if_neg (not_lt.mpr hle)]
    rw [← hcur, Function.update_eq_self]
  · rw [find_store]
    congr 1
    cases hcur : log.find r.key with
    | none => rfl
    | some cur => simp only [if_pos (hacc cur hcur)]

/-! ## Local operations -/

/-- `put`, with the id minted by `utils::id::new` and the name `origin` reads from the settings. -/
def put (log : OpLog) (opId origin entity keyCol keyVal op : String) (stampMs : Int64) :
    Except String OpLog :=
  (log.upsert ⟨opId, entity, keyCol, keyVal, op, origin, stampMs, true⟩).map Prod.fst

/-- `note_delete`. -/
def noteDelete (log : OpLog) (opId origin entity keyCol keyVal : String) (stampMs : Int64) :
    Except String OpLog :=
  log.put opId origin entity keyCol keyVal "delete" stampMs

/-- The `has_delete` query of `note_write`. -/
def hasDelete (log : OpLog) (entity keyVal : String) : Bool :=
  log.rows.any fun r => r.key == (entity, keyVal) && r.op == "delete"

/-- `note_write`: supersede a tombstone, do nothing when there is none. -/
def noteWrite (log : OpLog) (opId origin entity keyCol keyVal : String) (stampMs : Int64) :
    Except String OpLog :=
  if log.hasDelete entity keyVal then log.put opId origin entity keyCol keyVal "upsert" stampMs
  else .ok log

lemma hasDelete_eq_true_iff {log : OpLog} {entity keyVal : String} :
    log.hasDelete entity keyVal = true ↔
      ∃ r, log.find (entity, keyVal) = some r ∧ r.op = "delete" := by
  simp only [hasDelete, List.any_eq_true, Bool.and_eq_true, beq_iff_eq,
    KeyedTable.find_eq_some_iff, and_assoc]

/-- `is_deleted`: a tombstone of the key no older than the cutoff. -/
def isDeleted (log : OpLog) (entity keyVal : String) (nowMs ttlMs : Int) : Bool :=
  log.rows.any fun r =>
    r.key == (entity, keyVal) && r.op == "delete" && wrapI64 (nowMs - ttlMs) ≤ r.stampMs.toInt

/-- `reap`: drop the operations older than the cutoff, and say how many. -/
def reap (log : OpLog) (nowMs ttlMs : Int) : OpLog × Nat :=
  let keep := fun r : OpRow => decide (wrapI64 (nowMs - ttlMs) ≤ r.stampMs.toInt)
  (⟨log.filter keep, log.opId_nodup.sublist (List.filter_sublist.map _)⟩,
    log.rows.countP fun r => !keep r)

/-- What the `UPDATE … SET op = 'refused'` of `apply_pending_deletes` makes of a row. -/
def refuseRow (entity keyVal : String) (r : OpRow) : OpRow :=
  if r.key = (entity, keyVal) ∧ r.op = "delete" ∧ r.localOrigin = false then r.refusal else r

lemma refuseRow_key (entity keyVal : String) (r : OpRow) :
    (refuseRow entity keyVal r).key = r.key := by
  unfold refuseRow
  split <;> rfl

lemma refuseRow_opId (entity keyVal : String) (r : OpRow) :
    (refuseRow entity keyVal r).opId = r.opId := by
  unfold refuseRow
  split <;> rfl

lemma refuseRow_of_localOrigin (entity keyVal : String) {r : OpRow} (h : r.localOrigin = true) :
    refuseRow entity keyVal r = r := by
  simp [refuseRow, h]

/-- The `UPDATE … SET op = 'refused'` of `apply_pending_deletes`. -/
def markRefused (log : OpLog) (entity keyVal : String) : OpLog where
  toKeyedTable := log.modify (refuseRow entity keyVal) (refuseRow_key entity keyVal)
  opId_nodup := by
    have h : (log.rows.map (refuseRow entity keyVal)).map OpRow.opId = log.rows.map OpRow.opId := by
      rw [List.map_map]
      exact List.map_congr_left fun r _ => refuseRow_opId entity keyVal r
    exact h ▸ log.opId_nodup

/-- The rows `replicate_export` selects, in `op_id` order. -/
def exported (log : OpLog) : List OpRow :=
  (log.rows.filter fun r => r.op != "refused").mergeSort fun a b => decide (a.opId ≤ b.opId)

/-- `replicate_export`. -/
def replicateExport (log : OpLog) : Json := .array (log.exported.map OpRow.toJson)

/-- Every row but a refused one is exported. -/
@[simp] lemma mem_exported {log : OpLog} {r : OpRow} :
    r ∈ log.exported ↔ r ∈ log.rows ∧ r.op ≠ "refused" := by
  simp [exported]

end OpLog

end Orca
