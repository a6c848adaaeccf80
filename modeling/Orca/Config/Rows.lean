import Orca.Library.UniqueTable
import Orca.Replication.MergeBundle

/-!
# Config rows

The model of `db/src/config_store.rs` as far as replication and ownership go: the table
`config_rows` with `get_owned`, `upsert_mesh_row`, `replicate_merge` and `reconcile_ownership`.

The table has two uniqueness constraints, `PRIMARY KEY (id)` and `UNIQUE (noun, name, host_owner)`.
The upsert names the second as its conflict target, so that SQLite looks for a row of the same key
first; a clash of the id with a row of another key is an error.  The column `uuidv7` holds the id
of its row, since every statement writes the two together, and is left out.

A merge runs outside a transaction, so that a failing row keeps what was written before.  What it
takes from outside is in `ConfigEnv`, and what the clock and the id generator give when the turn
of a row comes is in `Turn`.
-/

namespace Orca

/-- `ConfigRow`. -/
structure ConfigRow where
  /-- The id of the row, a uuidv7. -/
  id : String
  /-- The system that owns the row. -/
  hostOwner : String
  /-- What kind of setting the row is. -/
  noun : String
  name : String
  json : String
  /-- Whether another system owns the row. -/
  isReplica : Bool
  updatedAt : String
  updatedBy : String
deriving DecidableEq

/-- The columns of the `UNIQUE (noun, name, host_owner)` constraint. -/
def ConfigRow.key (r : ConfigRow) : String × String × String := (r.noun, r.name, r.hostOwner)

/-- `ConfigHistoryEntry`. -/
structure ConfigHistoryEntry where
  id : Int64
  /-- The row the entry is about, by its id. -/
  rowId : String
  priorJson : String
  changedAt : String
  changedBy : String
deriving DecidableEq

/-- The table `config_rows`. -/
abbrev ConfigRows := UniqueTable ConfigRow.key ConfigRow.id

/-- The tables the config store writes. -/
structure ConfigStore where
  rows : ConfigRows
  history : List ConfigHistoryEntry

namespace ConfigStore

/-- A store without rows. -/
def empty : ConfigStore := ⟨.empty, []⟩

/-- `get_owned`. -/
def getOwned (s : ConfigStore) (hostOwner noun name : String) : Option ConfigRow :=
  s.rows.find (noun, name, hostOwner)

end ConfigStore

/-! ## Rows from the mesh -/

/-- The fields `replicate_merge` reads from an incoming row. -/
structure ConfigWire where
  hostOwner : String
  noun : String
  name : String
  json : String
  updatedAt : String
  updatedBy : String
  /-- `uuidv7`, empty when the sender has none. -/
  uuidv7 : String
deriving DecidableEq

namespace ConfigWire

/-- The closure `field` of `replicate_merge`. -/
def field (row : Json) (k : String) : String := ((row.get? k).bind Json.asStr).getD ""

/-- The fields of an incoming row, with the default of `updated_by`. -/
def ofJson (row : Json) : ConfigWire where
  hostOwner := field row "host_owner"
  noun := field row "noun"
  name := field row "name"
  json := field row "json"
  updatedAt := field row "updated_at"
  updatedBy := if field row "updated_by" = "" then "mesh" else field row "updated_by"
  uuidv7 := field row "uuidv7"

/-- The JSON object `replicate_export` writes for a row. -/
def toJson (w : ConfigWire) : Json :=
  .object
    [("host_owner", .string w.hostOwner),
      ("noun", .string w.noun),
      ("name", .string w.name),
      ("json", .string w.json),
      ("updated_at", .string w.updatedAt),
      ("updated_by", .string w.updatedBy),
      ("uuidv7", .string w.uuidv7)]

/-- An exported row is read back, the writer replaced when there is none. -/
lemma ofJson_toJson (w : ConfigWire) :
    ofJson w.toJson = { w with updatedBy := if w.updatedBy = "" then "mesh" else w.updatedBy } := by
  rfl

/-- The natural key of an incoming row. -/
def key (w : ConfigWire) : String × String × String := (w.noun, w.name, w.hostOwner)

/-- The values bound to the columns of the `INSERT`. -/
def row (w : ConfigWire) (id : String) (isReplica : Bool) : ConfigRow :=
  ⟨id, w.hostOwner, w.noun, w.name, w.json, isReplica, w.updatedAt, w.updatedBy⟩

@[simp] lemma row_key (w : ConfigWire) (id : String) (rep : Bool) : (w.row id rep).key = w.key :=
  rfl

@[simp] lemma row_id (w : ConfigWire) (id : String) (rep : Bool) : (w.row id rep).id = id := rfl

@[simp] lemma row_updatedAt (w : ConfigWire) (id : String) (rep : Bool) :
    (w.row id rep).updatedAt = w.updatedAt := rfl

end ConfigWire

namespace ConfigRow

/-- `DO UPDATE SET`: the payload columns of `excluded`. -/
def takePayload (excluded cur : ConfigRow) : ConfigRow :=
  { cur with
    json := excluded.json, isReplica := excluded.isReplica, updatedAt := excluded.updatedAt,
    updatedBy := excluded.updatedBy }

@[simp] lemma takePayload_key (excluded cur : ConfigRow) :
    (excluded.takePayload cur).key = cur.key := rfl

@[simp] lemma takePayload_id (excluded cur : ConfigRow) :
    (excluded.takePayload cur).id = cur.id := rfl

@[simp] lemma takePayload_updatedAt (excluded cur : ConfigRow) :
    (excluded.takePayload cur).updatedAt = excluded.updatedAt := rfl

/-- The row under another id. -/
def withId (r : ConfigRow) (id : String) : ConfigRow := { r with id := id }

@[simp] lemma withId_key (r : ConfigRow) (id : String) : (r.withId id).key = r.key := rfl

@[simp] lemma withId_id (r : ConfigRow) (id : String) : (r.withId id).id = id := rfl

@[simp] lemma withId_updatedAt (r : ConfigRow) (id : String) :
    (r.withId id).updatedAt = r.updatedAt := rfl

/-- A row taken from the mesh, in the place of one of its own key. -/
lemma takePayload_row {w : ConfigWire} {id : String} {rep : Bool} {cur : ConfigRow}
    (h : cur.key = w.key) : (w.row id rep).takePayload cur = w.row cur.id rep := by
  obtain ⟨curId, hostOwner, noun, name, json, isReplica, updatedAt, updatedBy⟩ := cur
  obtain ⟨rfl, rfl, rfl⟩ : noun = w.noun ∧ name = w.name ∧ hostOwner = w.hostOwner := by
    simpa [key, ConfigWire.key] using h
  rfl

@[simp] lemma withId_row (w : ConfigWire) (id id' : String) (rep : Bool) :
    (w.row id rep).withId id' = w.row id' rep := rfl

end ConfigRow

/-- What a merge takes from outside the tables it writes. -/
structure ConfigEnv where
  lib : Libs
  /-- Whether `serde_json` accepts a text. -/
  isJson : String → Bool
  /-- `local_system_id`, empty before it is stamped. -/
  localId : String
  /-- `current_merge_peer`. -/
  peer : Option String

/-- The readings when the turn of an incoming row comes. -/
structure Turn where
  now : Int
  /-- `utils::id::new`. -/
  minted : String

/-- The message of a violated primary key. -/
def configIdTaken : String := "UNIQUE constraint failed: config_rows.id"

/-- The message of a payload that does not parse. -/
def configNotJson (w : ConfigWire) : String :=
  "mesh payload for " ++ w.noun ++ "/" ++ w.name ++ " is not valid JSON"

namespace ConfigStore

/-- `UPDATE config_history SET row_id`: the history of a row moves to its new id. -/
def moveHistory (history : List ConfigHistoryEntry) (old new : String) : List ConfigHistoryEntry :=
  history.map fun h => if h.rowId = old then { h with rowId := new } else h

/-- The rewrite of an id by `upsert_mesh_row`: the row takes an incoming id that is less than its
own, and its history moves with it.  `wrote` is whether the payload was written. -/
def convergeId (s : ConfigStore) (w : ConfigWire) (wrote : Bool) :
    ConfigStore × Except String Bool :=
  if w.uuidv7 = "" then (s, .ok wrote)
  else
    match s.getOwned w.hostOwner w.noun w.name with
    | none => (s, .ok wrote)
    | some cur =>
        if w.uuidv7 < cur.id then
          let history := moveHistory s.history cur.id w.uuidv7
          match s.rows.updateWhere (fun r => r.id = cur.id) fun r => r.withId w.uuidv7 with
          | none => (⟨s.rows, history⟩, .error configIdTaken)
          | some rows => (⟨rows, history⟩, .ok true)
        else (s, .ok wrote)

/-- `upsert_mesh_row`. -/
def upsertMeshRow (env : ConfigEnv) (turn : Turn) (s : ConfigStore) (w : ConfigWire)
    (isReplica : Bool) : ConfigStore × Except String Bool :=
  if env.isJson w.json then
    match checkIncomingLww env.lib turn.now w.updatedAt with
    | .error _ => (s, .ok false)
    | .ok _ =>
        let owned := s.getOwned w.hostOwner w.noun w.name
        let rowId := if w.uuidv7 = "" then (owned.map ConfigRow.id).getD turn.minted else w.uuidv7
        let newer := owned.all fun cur => lwwStrIsNewer env.lib w.updatedAt cur.updatedAt
        if newer then
          let excluded := w.row rowId isReplica
          match s.rows.upsert excluded excluded.takePayload with
          | none => (s, .error configIdTaken)
          | some rows => convergeId ⟨rows, s.history⟩ w true
        else convergeId s w false
  else (s, .error (configNotJson w))

/-- One iteration of `replicate_merge`. -/
def mergeRow (env : ConfigEnv) (turn : Turn) (s : ConfigStore) (row : Json) :
    ConfigStore × Except String Bool :=
  let w := ConfigWire.ofJson row
  if w.hostOwner = "" ∨ w.noun = "" ∨ w.name = "" then (s, .ok false)
  else if w.noun ∉ peerWritableNouns then (s, .ok false)
  else if env.peer ≠ some w.hostOwner then (s, .ok false)
  else upsertMeshRow env turn s w (env.localId = "" || w.hostOwner ≠ env.localId)

/-- The loop of `replicate_merge`. -/
def mergeLoop (env : ConfigEnv) :
    List (Json × Turn) → ConfigStore → Nat → ConfigStore × Except String Nat
  | [], s, merged => (s, .ok merged)
  | (row, turn) :: rest, s, merged =>
      match mergeRow env turn s row with
      | (s, .error e) => (s, .error e)
      | (s, .ok wrote) => mergeLoop env rest s (if wrote then merged + 1 else merged)

/-- The rows of a bundle, each with the readings of its turn.  What is no array has no rows. -/
def arrivals (rows : Json) (turns : Nat → Turn) : List (Json × Turn) :=
  (rows.asArray.getD []).zipIdx.map fun r => (r.1, turns r.2)

/-- `replicate_merge`. -/
def replicateMerge (env : ConfigEnv) (turns : Nat → Turn) (s : ConfigStore) (rows : Json) :
    ConfigStore × Except String Nat :=
  mergeLoop env (arrivals rows turns) s 0

/-! ## Ownership -/

/-- One iteration of the loop of `reconcile_ownership`: a stray gives way to the row under the local
id, or is put under that id. -/
def reclaim (localId : String) (s : ConfigStore) (stray : ConfigRow) : Except String ConfigStore :=
  if (s.getOwned localId stray.noun stray.name).isSome then
    .ok { s with rows := s.rows.deleteWhere fun r => r.id = stray.id }
  else
    match s.rows.updateWhere (fun r => r.id = stray.id) fun r =>
      { r with hostOwner := localId } with
    | none =>
      .error ("UNIQUE constraint failed: config_rows.noun, config_rows.name, " ++
        "config_rows.host_owner")
    | some rows => .ok { s with rows }

/-- The `SELECT` of the strays. -/
def strays (s : ConfigStore) (localId : String) : List ConfigRow :=
  s.rows.rows.filter fun r => !r.isReplica && r.hostOwner ≠ localId

/-- A replica whose owner the roster `peers` does not list. -/
def isAbandoned (localId : String) (peers : List String) (r : ConfigRow) : Bool :=
  r.isReplica && r.hostOwner ≠ localId && !peers.contains r.hostOwner

/-- `reconcile_ownership`, given the ids of `mesh_peers`, with the number of rows it changed. -/
def reconcileOwnership (s : ConfigStore) (peers : List String) (localId : String) :
    Except String (ConfigStore × Nat) := do
  let strays := s.strays localId
  let reclaimed ← strays.foldlM (reclaim localId) s
  let abandoned := reclaimed.rows.rows.filter (isAbandoned localId peers)
  .ok ({ reclaimed with rows := reclaimed.rows.deleteWhere (isAbandoned localId peers) },
    strays.length + abandoned.length)

end ConfigStore

end Orca
