import Mathlib.Data.List.Lex
import Mathlib.Order.Nat
import Mathlib.Logic.Relation
import Orca.Data.Schema

/-!
# Column-list table replication

The model of `macro-runtime/src/replicate_table.rs`: the checks of an incoming last-write-wins
value, `export_table`, the protection of columns a peer may not write, and the two merges
`merge_table` and `merge_table_natural`.

A merge is a loop over the incoming rows.  `mergeRows` is that loop, for any step that either
fails, skips the row, or writes it; an error ends the loop and leaves what was written before.
The libraries `serde_json` and `chrono` are parameters (`Libs`).  Audit counters and log lines
carry no state the code reads back and are left out.
-/

namespace Orca

/-- `MAX_LWW_SKEW_MILLIS` -/
def maxLwwSkewMillis : Int := 300000

/-- `MAX_BUNDLE_ROWS` -/
def maxBundleRows : Nat := 100000

/-- A `utils::time::Timestamp`, in nanoseconds since the epoch. -/
abbrev Timestamp := Int

/-- `Timestamp::unix_millis`. -/
def Timestamp.unixMillis (ts : Timestamp) : Int := ts / 1000000

/-- What the replicator takes from `serde_json` and from `chrono`. -/
structure Libs where
  json : JsonText
  parseRfc3339 : String → Option Timestamp
  toRfc3339 : Timestamp → String

/-- Libraries for rows without nested JSON and without textual timestamps, which call neither. -/
def plainLibs : Libs where
  json := ⟨fun _ => none, fun _ => ""⟩
  parseRfc3339 := fun _ => none
  toRfc3339 := fun _ => ""

/-! ## Last-write-wins values -/

/-- `canonical_rfc3339_millis`. -/
def canonicalRfc3339Millis (lib : Libs) (s : String) : Option Int :=
  (lib.parseRfc3339 s).bind fun ts => if lib.toRfc3339 ts = s then some ts.unixMillis else none

/-- `check_lww_millis`, with the reading of the clock. -/
def checkLwwMillis (now : Int) : Option Int → Except String Int
  | none => .error "non-canonical lww"
  | some m => if m > now + maxLwwSkewMillis then .error "lww too far in the future" else .ok m

/-- `check_incoming_millis`. -/
def checkIncomingMillis (now millis : Int) : Except String Int := checkLwwMillis now (some millis)

/-- `check_incoming_lww`. -/
def checkIncomingLww (lib : Libs) (now : Int) (lww : String) : Except String Int :=
  checkLwwMillis now (canonicalRfc3339Millis lib lww)

/-- `lww_str_is_newer`. -/
def lwwStrIsNewer (lib : Libs) (incoming localLww : String) : Bool :=
  let localMillis := (lib.parseRfc3339 localLww).map Timestamp.unixMillis
  match canonicalRfc3339Millis lib incoming, localMillis with
  | some i, some l => decide (i > l)
  | _, _ => false

/-- `check_incoming_lww_json`. -/
def checkIncomingLwwJson (lib : Libs) (now : Int) : Json → Except String Int
  | .string s => checkIncomingLww lib now s
  | .number n => checkLwwMillis now (n.asI64.map Int64.toInt)
  | _ => .error "uncomparable lww"

/-- `json_is_newer_than_sql`. -/
def jsonIsNewerThanSql (lib : Libs) : Json → SqlValue → Bool
  | .string i, .text l => lwwStrIsNewer lib i l
  | .number i, .integer l => decide ((i.asI64.getD Int64.minValue) > l)
  | .number i, .real l => decide (i.asF64 > l.toFloat)
  | _, _ => false

/-! ## Export -/

/-- The JSON object of a row. -/
def exportRow (columns : List String) (r : Row) : Json :=
  .object (columns.map fun c => (c, sqlToJson (r c)))

/-- The order of `ORDER BY` on cells: by type, then by value.  Doubles are compared with numbers by
value. -/
def SqlValue.le : SqlValue → SqlValue → Bool
  | .null, _ => true
  | _, .null => false
  | .integer i, .integer j => i ≤ j
  | .integer i, .real d => i.toFloat ≤ d.toFloat
  | .real d, .integer i => d.toFloat ≤ i.toFloat
  | .real d, .real e => d.toFloat ≤ e.toFloat
  | .integer _, _ => true
  | .real _, _ => true
  | .text _, .integer _ => false
  | .text _, .real _ => false
  | .text s, .text t => s ≤ t
  | .text _, .blob _ => true
  | .blob a, .blob b => a.map UInt8.toNat ≤ b.map UInt8.toNat
  | .blob _, _ => false

/-- `export_table`. -/
def exportTable (columns : List String) (pk : String) (t : Table) : Json :=
  .array ((t.mergeSort fun a b => SqlValue.le (a pk) (b pk)).map (exportRow columns))

/-! ## Protection -/

/-- `str::split_once('.')`. -/
def splitOnceDot (w : String) : Option (String × String) :=
  match w.toList.span (· != '.') with
  | (_, []) => none
  | (a, _ :: b) => some (String.ofList a, String.ofList b)

/-- `Protection`: the columns that keep their local value, and the `column.key` entries that open
single keys of them. -/
structure Protection where
  cols : List String
  /-- Writable keys of protected JSON columns. -/
  jsonWritable : List (String × String)

namespace Protection

/-- `Protection::new`. -/
def new (columns exempt peerWritable : List String) : Protection :=
  let cols := columns.filter fun c => !exempt.contains c && !peerWritable.contains c
  ⟨cols, (peerWritable.filterMap splitOnceDot).filter fun w => cols.contains w.1⟩

/-- The keys of a JSON column that a peer may write. -/
def keysOf (p : Protection) (col : String) : List String :=
  (p.jsonWritable.filter fun w => w.1 == col).map Prod.snd

end Protection

/-- The closure `parse` of `merge_json_keys`. -/
def parseObjectText (jt : JsonText) : Option Json → Option (List (String × Json))
  | some (.string s) => jt.parseObject s
  | _ => none

/-- `!=` on the results of `Map::get`. -/
def optionDiffers : Option Json → Option Json → Bool
  | none, none => false
  | some a, some b => !a.eqv b
  | _, _ => true

/-- One iteration of the loop of `merge_json_keys`: take over the incoming entry of a key. -/
def takeKey (inc : List (String × Json)) (acc : List (String × Json) × Bool) (k : String) :
    List (String × Json) × Bool :=
  if optionDiffers (acc.1.lookup k) (inc.lookup k) then
    match inc.lookup k with
    | some v => (insertEntry acc.1 k v, true)
    | none => (removeEntry acc.1 k, true)
  else acc

/-- `merge_json_keys`. -/
def mergeJsonKeys (jt : JsonText) (localVal : Json) (incoming : Option Json) (keys : List String) :
    Json :=
  match parseObjectText jt (some localVal) with
  | none => localVal
  | some out =>
      let inc := (parseObjectText jt incoming).getD []
      let res := keys.foldl (takeKey inc) (out, false)
      if res.2 then .string (jt.toText (.object res.1)) else localVal

/-- The value `Protection::apply` gives to a protected column. -/
def Protection.mergedValue (p : Protection) (jt : JsonText) (cell : SqlValue)
    (incoming : Option Json) (col : String) : Json :=
  if (p.keysOf col).isEmpty then sqlToJson cell
  else mergeJsonKeys jt (sqlToJson cell) incoming (p.keysOf col)

/-- One iteration of the loop of `Protection::apply`. -/
def Protection.applyCol (p : Protection) (jt : JsonText) (cur : Row) (obj : List (String × Json))
    (col : String) : List (String × Json) :=
  let merged := p.mergedValue jt (cur col) (obj.lookup col) col
  if optionDiffers (obj.lookup col) (some merged) then insertEntry obj col merged else obj

/-- `Protection::apply`, given the row its `SELECT` finds: the object with the protected columns put
back, or nothing when a peer may not create the row. -/
def Protection.apply (p : Protection) (jt : JsonText) (cur : Option Row)
    (obj : List (String × Json)) : Option (List (String × Json)) :=
  if p.cols.isEmpty then some obj
  else cur.map fun r => p.cols.foldl (p.applyCol jt r) obj

/-! ## The merge loop -/

/-- The loop of a merge over the incoming rows.  The step fails, skips the row (`none`) or writes
it; the result is the table and the number of rows written. -/
def mergeRows (step : Table → Json → Except String (Option Table)) :
    List Json → Table → Nat → Table × Except String Nat
  | [], t, merged => (t, .ok merged)
  | row :: rows, t, merged =>
      match step t row with
      | .error e => (t, .error e)
      | .ok none => mergeRows step rows t merged
      | .ok (some t') => mergeRows step rows t' (merged + 1)

/-- `serde_json::from_value::<Vec<Value>>` before the loop. -/
def mergeArray (step : Table → Json → Except String (Option Table)) (t : Table) (rows : Json) :
    Table × Except String Nat :=
  match rows.asArray with
  | none => (t, .error "merge rows not an array")
  | some rows => mergeRows step rows t 0

/-- The values bound to the columns of the `INSERT`. -/
def boundValues (jt : JsonText) (obj : List (String × Json)) : Row := fun c =>
  jsonToSql jt ((obj.lookup c).getD .null)

/-! ## `merge_table` -/

/-- The arguments of `merge_table` that describe the table. -/
structure TableSpec where
  columns : List String
  pk : String
  lww : String
  /-- Columns, and `column.key` entries, that a peer may write. -/
  peerWritable : List String
  pk_mem : pk ∈ columns

/-- The protection `merge_table` sets up. -/
def TableSpec.protection (spec : TableSpec) : Protection :=
  .new spec.columns [spec.pk, spec.lww] spec.peerWritable

/-- The rest of an iteration of `merge_table`, once the columns it needs were found. -/
def mergeTableWrite (lib : Libs) (s : Schema) (spec : TableSpec) (now : Int) (t : Table)
    (obj : List (String × Json)) (incomingLww pkJson : Json) : Option Table :=
  match checkIncomingLwwJson lib now incomingLww with
  | .error _ => none
  | .ok _ =>
      let cur := t.find? (s.holds spec.pk (jsonToSql lib.json pkJson))
      if cur.any fun r => !jsonIsNewerThanSql lib incomingLww (r spec.lww) then none
      else
        match spec.protection.apply lib.json cur obj with
        | none => none
        | some obj => s.upsert spec.pk spec.columns (boundValues lib.json obj) t

/-- One iteration of `merge_table`. -/
def mergeTableRow (lib : Libs) (s : Schema) (spec : TableSpec) (now : Int) (t : Table)
    (row : Json) : Except String (Option Table) :=
  match row.asObject with
  | none => .error "merge row not an object"
  | some obj =>
      match obj.lookup spec.lww with
      | none => .error "merge row missing lww column"
      | some incomingLww =>
          match obj.lookup spec.pk with
          | none => .error "merge row missing pk column"
          | some pkJson => .ok (mergeTableWrite lib s spec now t obj incomingLww pkJson)

/-- `merge_table`. -/
def mergeTable (lib : Libs) (s : Schema) (spec : TableSpec) (now : Int) (t : Table) (rows : Json) :
    Table × Except String Nat :=
  mergeArray (mergeTableRow lib s spec now) t rows

/-! ## `merge_table_natural` -/

/-- The arguments of `merge_table_natural` that describe the table. -/
structure NaturalSpec extends TableSpec where
  /-- The columns that identify a row. -/
  naturalKey : List String
  preserve : List String
  /-- A local column is not replicated. -/
  preserve_disjoint : ∀ c ∈ preserve, c ∉ columns

/-- The protection `merge_table_natural` sets up: the key is protected like any other column. -/
def NaturalSpec.protection (spec : NaturalSpec) : Protection :=
  .new spec.columns [spec.lww] spec.peerWritable

/-- The `WHERE` clause of the target: the natural key, or the primary key. -/
def isTarget (s : Schema) (spec : NaturalSpec) (nkVals : List SqlValue) (pkVal : SqlValue)
    (r : Row) : Bool :=
  (spec.naturalKey.zip nkVals).all (fun e => s.holds e.1 e.2 r) || s.holds spec.pk pkVal r

/-- What an iteration of `merge_table_natural` is about to write. -/
structure NaturalPlan where
  /-- The `WHERE` clause of the `DELETE`. -/
  target : Row → Bool
  old : Option Row
  /-- The values bound to the columns of the `INSERT`. -/
  vals : Row

/-- The writes of an iteration under its savepoint: delete the target, insert the row, and put the
local columns of the deleted row back.  `none` is a rollback. -/
def replaceRow (s : Schema) (spec : NaturalSpec) (plan : NaturalPlan) (t : Table) : Option Table :=
  match s.insert spec.pk (t.filter fun r => !plan.target r)
      (s.written spec.columns plan.vals s.defaults) with
  | none => none
  | some t =>
      match plan.old with
      | none => some t
      | some old =>
          if spec.preserve.isEmpty then some t
          else s.update spec.preserve old (s.holds spec.pk (plan.vals spec.pk)) t

/-- An iteration of `merge_table_natural` up to its savepoint, once the columns it needs were
found. -/
def planNatural (lib : Libs) (s : Schema) (spec : NaturalSpec) (now : Int) (t : Table)
    (obj : List (String × Json)) (incomingLww pkJson : Json) (nkVals : List SqlValue) :
    Option NaturalPlan :=
  match checkIncomingLwwJson lib now incomingLww with
  | .error _ => none
  | .ok _ =>
      let target := isTarget s spec nkVals (jsonToSql lib.json pkJson)
      let targets := t.filter target
      if targets.length > 1 then none
      else if targets.head?.any fun r => !jsonIsNewerThanSql lib incomingLww (r spec.lww) then none
      else
        match spec.protection.apply lib.json targets.head? obj with
        | none => none
        | some obj => some ⟨target, targets.head?, boundValues lib.json obj⟩

/-- An iteration of `merge_table_natural` up to its savepoint. -/
def planNaturalRow (lib : Libs) (s : Schema) (spec : NaturalSpec) (now : Int) (t : Table)
    (row : Json) : Except String (Option NaturalPlan) :=
  match row.asObject with
  | none => .error "merge row not an object"
  | some obj =>
      match obj.lookup spec.lww with
      | none => .error "merge row missing lww column"
      | some incomingLww =>
          match obj.lookup spec.pk with
          | none => .error "merge row missing pk column"
          | some pkJson =>
              match spec.naturalKey.mapM fun c => obj.lookup c with
              | none => .error "merge row missing natural-key column"
              | some nk =>
                  .ok (planNatural lib s spec now t obj incomingLww pkJson
                    (nk.map (jsonToSql lib.json)))

/-- One iteration of `merge_table_natural`. -/
def mergeNaturalRow (lib : Libs) (s : Schema) (spec : NaturalSpec) (now : Int) (t : Table)
    (row : Json) : Except String (Option Table) :=
  (planNaturalRow lib s spec now t row).map fun plan =>
    plan.bind fun plan => replaceRow s spec plan t

/-- `merge_table_natural`. -/
def mergeTableNatural (lib : Libs) (s : Schema) (spec : NaturalSpec) (now : Int) (t : Table)
    (rows : Json) : Table × Except String Nat :=
  mergeArray (mergeNaturalRow lib s spec now) t rows

/-! ## The tables of the core -/

/-- The arguments `endpoints_replication.rs` passes to `merge_table`. -/
def endpointsSpec : TableSpec where
  columns := ["id", "provider", "name", "routes", "enabled", "auth_principal", "insecure",
    "created_at", "updated_at", "config"]
  pk := "id"
  lww := "updated_at"
  peerWritable := []
  pk_mem := by decide

/-- The arguments `mounts.rs` passes to `merge_table_natural`. -/
def mountsSpec : NaturalSpec where
  columns := ["id", "name", "share_id", "host", "target", "guest", "remount_policy", "enabled",
    "created_at", "updated_at"]
  pk := "id"
  lww := "updated_at"
  peerWritable := []
  pk_mem := by decide
  naturalKey := ["host", "name"]
  preserve := ["health", "active_route", "active_options", "drift", "multi_mounted"]
  preserve_disjoint := by decide

/-! ## Facts about the loop -/

/-- `Q` holds of every iteration of the loop: of the table it finds and of its row. -/
def EachStep (step : Table → Json → Except String (Option Table)) (Q : Table → Json → Prop) :
    List Json → Table → Prop
  | [], _ => True
  | row :: rows, t =>
      Q t row ∧
        match step t row with
        | .error _ => True
        | .ok none => EachStep step Q rows t
        | .ok (some t') => EachStep step Q rows t'

/-- What holds of every table and row holds of every iteration. -/
lemma eachStep_of_forall {step : Table → Json → Except String (Option Table)}
    {Q : Table → Json → Prop} (hQ : ∀ t row, Q t row) (rows : List Json) (t : Table) :
    EachStep step Q rows t := by
  induction rows generalizing t with
  | nil => trivial
  | cons row rows ih =>
    refine ⟨hQ t row, ?_⟩
    split
    · trivial
    · exact ih t
    · exact ih _

/-- A reflexive and transitive relation between tables that every write establishes, from a table
with an invariant that every write keeps, relates the tables before and after the loop. -/
lemma mergeRows_relates {step : Table → Json → Except String (Option Table)}
    {Q : Table → Json → Prop} {I : Table → Prop} {R : Table → Table → Prop}
    (hrefl : ∀ t, R t t) (htrans : ∀ {t u v}, R t u → R u v → R t v)
    (hinv : ∀ {t t' row}, I t → Q t row → step t row = .ok (some t') → I t')
    (hstep : ∀ {t t' row}, I t → Q t row → step t row = .ok (some t') → R t t')
    {rows : List Json} {t : Table} (ht : I t) (hQ : EachStep step Q rows t) (merged : Nat) :
    R t (mergeRows step rows t merged).1 := by
  induction rows generalizing t merged with
  | nil => exact hrefl t
  | cons row rows ih =>
    obtain ⟨hrow, hrows⟩ := hQ
    unfold mergeRows
    cases heq : step t row with
    | error e => exact hrefl t
    | ok res =>
      rw [heq] at hrows
      cases res with
      | none => exact ih ht hrows merged
      | some t' => exact htrans (hstep ht hrow heq) (ih (hinv ht hrow heq) hrows (merged + 1))

/-- The loop counts every write: it counts at least what it started with, and if it counts no more,
it wrote nothing. -/
lemma mergeRows_counts {step : Table → Json → Except String (Option Table)} (rows : List Json)
    {t t' : Table} {merged n : Nat} (h : mergeRows step rows t merged = (t', .ok n)) :
    merged ≤ n ∧ (n = merged → t' = t) := by
  induction rows generalizing t merged with
  | nil =>
    simp only [mergeRows, Prod.mk.injEq, Except.ok.injEq] at h
    obtain ⟨rfl, rfl⟩ := h
    exact ⟨Nat.le_refl _, fun _ => rfl⟩
  | cons row rows ih =>
    unfold mergeRows at h
    split at h
    · cases h
    · exact ih h
    · obtain ⟨hle, -⟩ := ih h
      exact ⟨by omega, fun heq => by omega⟩

lemma mergeArray_zero {step : Table → Json → Except String (Option Table)} {t t' : Table}
    {rows : Json} (h : mergeArray step t rows = (t', .ok 0)) : t' = t := by
  unfold mergeArray at h
  split at h
  · cases h
  · exact (mergeRows_counts _ h).2 rfl

end Orca
