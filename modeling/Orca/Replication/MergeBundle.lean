import Mathlib.Data.List.Sort
import Orca.Library.Invariant
import Orca.Replication.OpLog
import Orca.Replication.ReplicateTable

/-!
# Merging a bundle

The model of the replication registry and of `merge_bundle` (`db/src/replicate.rs`), with the rest
of `replication_ops.rs`: the checks of a peer's operation, `replicate_merge` and
`apply_pending_deletes`.

A registered entity is a `ReplicatedRegistration`.  Its `merge` reads the whole database and writes
its own table; its `export` reads its own table.  The op-log is registered by the code itself, with
no key columns and no peer deletes, and is not among the registrations of the inventory.
-/

namespace Orca

/-! ## The database and the registry -/

/-- What a merge reads beside the database. -/
structure MergeCtx where
  /-- The reading of `now_millis_since_epoch`. -/
  now : Int
  /-- `current_merge_peer`: the peer whose bundle is merged. -/
  peer : Option String

/-- The state of this host outside the replicated tables. -/
structure Host where
  localSystemId : String
  /-- `host.display_name`. -/
  displayName : String
  /-- `get_secure`: whether this host is a secure member. -/
  secure : Bool

/-- The database of a host. -/
structure Database where
  /-- The table `replication_ops`. -/
  ops : OpLog
  /-- Every other table that replication reads or writes. -/
  tables : String → Table
  /-- Settings and tier of the host. -/
  host : Host

/-- `PEER_TOMBSTONE_ENTITY` -/
def peerTombstoneEntity : String := "mesh_peers"
/-- `PEER_TOMBSTONE_KEY_COL` -/
def peerTombstoneKeyCol : String := "peer_id"

/-- The part of a `ReplicatedRegistration` that decides about operations of peers. -/
structure EntityPolicy where
  /-- The name of the entity and of its table. -/
  name : String
  /-- The columns by which a row may be deleted. -/
  keys : List String
  /-- Whether a peer may delete the row of a key, if peers may delete rows at all. -/
  peerDelete : Option (MergeCtx → (String → Table) → String → Bool)
  name_isIdent : isIdent name = true
  keys_isIdent : ∀ c ∈ keys, isIdent c = true
  name_ne_ops : name ≠ opsEntity
  /-- The peer table is not replicated. -/
  name_ne_peers : name ≠ peerTombstoneEntity

/-- `allow_peer_delete`. -/
def allowPeerDelete (_ : MergeCtx) (_ : String → Table) (_ : String) : Bool := true

/-- `ReplicatedRegistration`, for every entity but the op-log. -/
structure ReplicatedRegistration extends EntityPolicy where
  exportRows : Table → Except String Json
  /-- `merge`: the table it leaves, and its result. -/
  merge : MergeCtx → Database → Json → Table × Except String Nat
  /-- A merge that reports zero rows wrote nothing. -/
  merge_zero : ∀ {ctx db rows t}, merge ctx db rows = (t, .ok 0) → t = db.tables name

/-- What the program has registered, and how SQLite treats its tables. -/
structure Inventory where
  domains : List ReplicatedRegistration
  names_nodup : (domains.map fun reg => reg.name).Nodup
  hooks : List (Database → Host)
  schema : String → Schema
  /-- Whether a `DELETE` fails, for instance on a foreign key. -/
  deleteFails : Database → String → String → String → Bool

/-- `registrations`, without the op-log: in name order. -/
def Inventory.registrations (inv : Inventory) : List ReplicatedRegistration :=
  inv.domains.mergeSort fun a b => decide (a.name ≤ b.name)

/-- The policies of the registered entities. -/
def Inventory.policies (inv : Inventory) : List EntityPolicy :=
  inv.registrations.map fun reg => reg.toEntityPolicy

/-- The table `endpoints`. -/
def endpointsRegistration (lib : Libs) (s : Schema) : ReplicatedRegistration where
  name := "endpoints"
  keys := ["id"]
  peerDelete := none
  name_isIdent := by decide
  keys_isIdent := by decide
  name_ne_ops := by decide
  name_ne_peers := by decide
  exportRows := fun t => .ok (exportTable endpointsSpec.columns endpointsSpec.pk t)
  merge := fun ctx db rows => mergeTable lib s endpointsSpec ctx.now (db.tables "endpoints") rows
  merge_zero := mergeArray_zero

/-- The table `mounts`. -/
def mountsRegistration (lib : Libs) (s : Schema) : ReplicatedRegistration where
  name := "mounts"
  keys := ["id"]
  peerDelete := none
  name_isIdent := by decide
  keys_isIdent := by decide
  name_ne_ops := by decide
  name_ne_peers := by decide
  exportRows := fun t => .ok (exportTable mountsSpec.columns mountsSpec.pk t)
  merge := fun ctx db rows =>
    mergeTableNatural lib s mountsSpec ctx.now (db.tables "mounts") rows
  merge_zero := mergeArray_zero

/-- `PEER_WRITABLE_NOUNS` -/
def peerWritableNouns : List String := ["display", "graphics", "host_status"]

/-- `peer_may_delete` of `config_store.rs`: the row is there, its noun is open to peers, and the
sender owns it. -/
def configPeerMayDelete (ctx : MergeCtx) (tables : String → Table) (rowId : String) : Bool :=
  match (tables "config_rows").find? fun r => r "id" == .text rowId with
  | none => false
  | some r =>
      match r "noun", r "host_owner" with
      | .text noun, .text owner => noun ∈ peerWritableNouns && ctx.peer == some owner
      | _, _ => false

/-- The policy of `config_rows`. -/
def configRowsPolicy : EntityPolicy where
  name := "config_rows"
  keys := ["id"]
  peerDelete := some configPeerMayDelete
  name_isIdent := by decide
  keys_isIdent := by decide
  name_ne_ops := by decide
  name_ne_peers := by decide

/-! ## Whether a peer's operation is allowed -/

/-- `ROW_DELETE_REFUSED` -/
def rowDeleteRefused : String := "delete not permitted for this row"

/-- The reason for a key column that was not declared. -/
def undeclaredKey : String := "key column is not a declared key"

/-- `op_target`.  The op-log is registered with no keys. -/
def opTarget (pols : List EntityPolicy) (entity keyCol : String) :
    Except String (Option EntityPolicy) :=
  if entity = peerTombstoneEntity then
    if keyCol = peerTombstoneKeyCol then .ok none else .error undeclaredKey
  else if entity = opsEntity then .error undeclaredKey
  else
    match pols.find? fun r => r.name == entity with
    | none => .error "entity is not replicated"
    | some reg => if keyCol ∈ reg.keys then .ok (some reg) else .error undeclaredKey

/-- `peer_delete_allowed`. -/
def peerDeleteAllowed (pols : List EntityPolicy) (ctx : MergeCtx) (tables : String → Table)
    (entity keyCol keyVal : String) : Except String Unit :=
  match opTarget pols entity keyCol with
  | .error e => .error e
  | .ok none => .ok ()
  | .ok (some reg) =>
      match reg.peerDelete with
      | some allowed => if allowed ctx tables keyVal then .ok () else .error rowDeleteRefused
      | none => .error "entity is not peer-deletable"

/-- `peer_op_allowed`. -/
def peerOpAllowed (pols : List EntityPolicy) (ctx : MergeCtx) (db : Database)
    (entity keyCol keyVal op : String) : Except String Unit :=
  if entity = peerTombstoneEntity then
    match opTarget pols entity keyCol with
    | .error e => .error e
    | .ok _ =>
        if op ≠ "delete" then .error "peers may not clear peer tombstones"
        else if keyVal = db.host.localSystemId then .error "tombstone targets the local host"
        else if ctx.peer ≠ some keyVal then .error "peer tombstone not sent by the retiring peer"
        else .ok ()
  else peerDeleteAllowed pols ctx db.tables entity keyCol keyVal

/-! ## Merging the op-log -/

/-- The closure `s` of `replicate_merge`. -/
def strField (row : Json) (k : String) : String := ((row.get? k).bind Json.asStr).getD ""

/-- The operation an incoming row stands for, with its legacy names replaced. -/
def opRowOfJson (row : Json) : OpRow :=
  let entity := canonicalEntity (strField row "entity")
  { opId := strField row "op_id"
    entity := entity
    keyCol := canonicalKeyCol entity (strField row "key_col")
    keyVal := strField row "key_val"
    op := strField row "op"
    origin := strField row "origin"
    stampMs := ((row.get? "stamp_ms").bind Json.asI64).getD 0
    localOrigin := false }

/-- The checks of `replicate_merge` on a row with nothing missing: the clock, then the
permission. -/
def checkOp (pols : List EntityPolicy) (ctx : MergeCtx) (db : Database) (r : OpRow) :
    Except String Unit :=
  match checkIncomingMillis ctx.now r.stampMs.toInt with
  | .error e => .error e
  | .ok _ => peerOpAllowed pols ctx db r.entity r.keyCol r.keyVal r.op

/-- Whether `replicate_merge` looks at a row at all: nothing is missing, and it is not a refusal of
the sender. -/
def OpRow.considered (r : OpRow) : Bool :=
  !(r.opId == "" || r.entity == "" || r.keyVal == "" || r.op == "") && r.op != "refused"

/-- The row `replicate_merge` writes for an incoming operation, if any: the operation itself, or a
record of its refusal. -/
def admitOp (pols : List EntityPolicy) (ctx : MergeCtx) (db : Database) (r : OpRow) :
    Option OpRow :=
  if r.considered then
    match checkOp pols ctx db r with
    | .ok _ => some r
    | .error reason =>
        if reason ≠ rowDeleteRefused ∨ r.op ≠ "delete" then none else some r.refusal
  else none

/-- The loop of `replicate_merge`.  The checks read no operation, so they see the database from
before the loop. -/
def mergeOps (pols : List EntityPolicy) (ctx : MergeCtx) (db : Database) :
    List Json → OpLog → Nat → OpLog × Except String Nat
  | [], log, merged => (log, .ok merged)
  | row :: rows, log, merged =>
      match admitOp pols ctx db (opRowOfJson row) with
      | none => mergeOps pols ctx db rows log merged
      | some r =>
          match log.upsert r with
          | .error e => (log, .error e)
          | .ok (log', n) =>
              mergeOps pols ctx db rows log' (if r.op ≠ "refused" then merged + n else merged)

/-- `replicate_merge`. -/
def replicateMerge (pols : List EntityPolicy) (ctx : MergeCtx) (db : Database) (rows : Json) :
    OpLog × Except String Nat :=
  mergeOps pols ctx db (rows.asArray.getD []) db.ops 0

/-! ## Applying deletes -/

/-- `DELETE FROM entity WHERE key_col = key_val`, with the number of rows it removed. -/
def deleteRows (inv : Inventory) (db : Database) (entity keyCol keyVal : String) :
    Database × Nat :=
  let hit := (inv.schema entity).holds keyCol (.text keyVal)
  let kept := (db.tables entity).filter fun r => !hit r
  ({ db with tables := Function.update db.tables entity kept }, (db.tables entity).countP hit)

/-- One iteration of `apply_pending_deletes`. -/
def applyDelete (inv : Inventory) (ctx : MergeCtx) (acc : Database × Nat) (p : OpRow) :
    Database × Nat :=
  let db := acc.1
  let check : Except String Unit :=
    if p.localOrigin then (opTarget inv.policies p.entity p.keyCol).map fun _ => ()
    else peerDeleteAllowed inv.policies ctx db.tables p.entity p.keyCol p.keyVal
  match check with
  | .error reason =>
      if reason = rowDeleteRefused then
        ({ db with ops := db.ops.markRefused p.entity p.keyVal }, acc.2)
      else acc
  | .ok _ =>
      if !isIdent p.entity || !isIdent p.keyCol then acc
      else if inv.deleteFails db p.entity p.keyCol p.keyVal then acc
      else
        let res := deleteRows inv db p.entity p.keyCol p.keyVal
        (res.1, acc.2 + res.2)

/-- The operations `apply_pending_deletes` selects before its loop. -/
def OpLog.pending (log : OpLog) : List OpRow := log.rows.filter fun r => r.op == "delete"

/-- `apply_pending_deletes`. -/
def applyPendingDeletes (inv : Inventory) (ctx : MergeCtx) (db : Database) : Database × Nat :=
  db.ops.pending.foldl (applyDelete inv ctx) (db, 0)

/-! ## `merge_bundle` -/

/-- `BTreeMap<String, Value>`: the rows of each entity. -/
structure Bundle where
  entries : List (String × Json)
  keys_nodup : (entries.map Prod.fst).Nodup

/-- The rows of an entity. -/
def Bundle.get (bundle : Bundle) (entity : String) : Option Json := bundle.entries.lookup entity

/-- The number of rows of a bundle. -/
def Bundle.rows (bundle : Bundle) : Nat :=
  (bundle.entries.map fun e => (e.2.asArray.map List.length).getD 0).sum

/-- The operations a bundle carries. -/
def Bundle.ops (bundle : Bundle) : List OpRow :=
  (((bundle.get opsEntity).bind Json.asArray).getD []).map opRowOfJson

/-- The count a merge adds to the total: nothing when it failed. -/
def mergedCount : Except String Nat → Nat
  | .ok n => n
  | .error _ => 0

/-- Phase 1 of `merge_bundle`: the op-log. -/
def mergeOpLog (inv : Inventory) (ctx : MergeCtx) (bundle : Bundle) (db : Database) :
    Database × Nat :=
  match bundle.get opsEntity with
  | none => (db, 0)
  | some rows =>
      let res := replicateMerge inv.policies ctx db rows
      ({ db with ops := res.1 }, mergedCount res.2)

/-- One iteration of phase 2 of `merge_bundle`: an entity. -/
def mergeDomain (ctx : MergeCtx) (bundle : Bundle) (acc : Database × Nat)
    (reg : ReplicatedRegistration) : Database × Nat :=
  match bundle.get reg.name with
  | none => acc
  | some rows =>
      let res := reg.merge ctx acc.1 rows
      ({ acc.1 with tables := Function.update acc.1.tables reg.name res.1 },
        acc.2 + mergedCount res.2)

/-- Phase 2 of `merge_bundle`: every entity, in name order. -/
def mergeDomains (inv : Inventory) (ctx : MergeCtx) (bundle : Bundle) (acc : Database × Nat) :
    Database × Nat :=
  inv.registrations.foldl (mergeDomain ctx bundle) acc

/-- The post-merge hooks. -/
def runHooks (inv : Inventory) (db : Database) : Database :=
  inv.hooks.foldl (fun db hook => { db with host := hook db }) db

/-- What `merge_bundle` leaves. -/
structure MergeOutcome where
  db : Database
  total : Nat
  /-- Whether it dropped the cached content roots. -/
  invalidated : Bool

/-- `merge_bundle`. -/
def mergeBundle (inv : Inventory) (ctx : MergeCtx) (bundle : Bundle) (db : Database) :
    MergeOutcome :=
  if bundle.rows > maxBundleRows then ⟨db, 0, false⟩
  else
    let merged := mergeDomains inv ctx bundle (mergeOpLog inv ctx bundle db)
    let applied := applyPendingDeletes inv ctx merged.1
    if merged.2 > 0 ∨ applied.2 > 0 then ⟨runHooks inv applied.1, merged.2, true⟩
    else ⟨applied.1, merged.2, false⟩

end Orca
