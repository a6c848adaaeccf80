import Mathlib.Data.List.Sort
import Orca.Library.KeyedTable
import Orca.Library.Sqlite
import Orca.Plugins.Namespaces
import Orca.Replication.OpLog

/-!
# Database operations of plugins

A plugin has no connection to the database: it sends a typed operation, and `exec_db_op` runs it on
one table.  The table of a plugin's own namespace is made from the rows that are written to it; a
table of the core is named as it is, and keeps its columns.

An operation reads and writes the table it names, and the command log when the table is replicated.
So it is a function of these two (`Site`), and `execDbOp` puts what it leaves of them back into the
database.
-/

namespace Orca.Plugins

open Sqlite Secrets Check

/-! ## Operations -/

/-- `DbValue`. -/
inductive DbValue (ρ : Type) where
  | null
  | int (i : Int64)
  | real (r : ρ)
  | text (s : String)
  | bool (b : Bool)
  | blob (bytes : List UInt8)
  deriving DecidableEq

/-- `DbRow`: a value for each of some columns. -/
abbrev DbRow (ρ : Type) := KeyedTable fun e : String × DbValue ρ => e.1

section Rows

variable {ρ : Type}

/-- `to_sql`. -/
def DbValue.toSql : DbValue ρ → Value ρ
  | .null => .null
  | .int i => .int i
  | .real r => .real r
  | .text s => .text s
  | .bool b => .int (if b then 1 else 0)
  | .blob bytes => .blob bytes

/-- `from_sql`. -/
def DbValue.fromSql : Value ρ → DbValue ρ
  | .null => .null
  | .int i => .int i
  | .real r => .real r
  | .text s => .text s
  | .blob bytes => .blob bytes

/-- The value of the row in a column. -/
def DbRow.get (row : DbRow ρ) (name : String) : Option (DbValue ρ) :=
  (KeyedTable.find row name).map Prod.snd

/-- The entries of the row in the order of the names. -/
def DbRow.inOrder (row : DbRow ρ) : List (String × DbValue ρ) :=
  row.rows.insertionSort fun a b => a.1 ≤ b.1

/-- The values that a statement binds for the row. -/
def DbRow.values (row : DbRow ρ) : List (String × Value ρ) :=
  row.inOrder.map fun e => (e.1, e.2.toSql)

end Rows

/-- `DbOp`. -/
inductive DbOp (ρ : Type) where
  | list (nameSpace table : String)
  | get (nameSpace table keyCol key : String)
  | insert (nameSpace table : String) (row : DbRow ρ)
  | update (nameSpace table keyCol : String) (row : DbRow ρ)
  | upsert (nameSpace table : String) (row : DbRow ρ)
  | delete (nameSpace table keyCol key : String)

namespace DbOp

variable {ρ : Type}

/-- `namespace`. -/
def nameSpace : DbOp ρ → String
  | .list ns _ | .get ns _ _ _ | .insert ns _ _ | .update ns _ _ _ | .upsert ns _ _
  | .delete ns _ _ _ => ns

/-- `op_table`. -/
def table : DbOp ρ → String
  | .list _ t | .get _ t _ _ | .insert _ t _ | .update _ t _ _ | .upsert _ t _
  | .delete _ t _ _ => t

/-- `kind`. -/
def kind : DbOp ρ → String
  | .list .. => "list"
  | .get .. => "get"
  | .insert .. => "insert"
  | .update .. => "update"
  | .upsert .. => "upsert"
  | .delete .. => "delete"

/-- The operation only reads. -/
def isRead : DbOp ρ → Bool
  | .list .. | .get .. => true
  | _ => false

end DbOp

/-- `DbReply`. -/
structure DbReply (ρ : Type) where
  rows : List (DbRow ρ)
  affected : Nat

/-- The reply that says nothing was found. -/
def DbReply.none {ρ : Type} : DbReply ρ := ⟨[], 0⟩

/-! ## The database -/

/-- A database. -/
structure Db (ρ : Type) where
  /-- The tables by name, the command log apart. -/
  tables : String → Option (RowidTable ρ)
  ops : OpLog

/-- What does not change while the daemon runs. -/
structure Daemon (ρ : Type) where
  numbers : Numbers ρ
  /-- `is_registered`: the tables that are replicated. -/
  registered : String → Bool
  /-- The text of a real number as a key. -/
  renderKey : ρ → String

/-- What happens during a call. -/
structure CallEnv where
  /-- The id that is minted for an entry of the command log. -/
  opId : String
  origin : String
  stampMs : Int64
  starts : Option String
  /-- A statement that reads cannot be run. -/
  read : Option String
  /-- The statement that writes cannot be run. -/
  write : Option String
  commit : Option String

/-- What an operation reads and writes: the table it names, and the command log. -/
structure Site (ρ : Type) where
  table : Option (RowidTable ρ)
  ops : OpLog

/-- `resolve_op_table`. -/
def resolveOpTable (nameSpace table : String) : Except String String :=
  if nameSpace = "" then do
    validateIdent "table" table
    .ok table
  else physicalTableName nameSpace table

section Exec

variable {ρ : Type} (D : Daemon ρ) (env : CallEnv)

/-- `existing_columns`. -/
def existingColumns (table : Option (RowidTable ρ)) : List String :=
  (table.map fun t => t.columns.map Column.name).getD []

/-- The row as the plugin sees it. -/
def toDbRow (t : RowidTable ρ) (r : RowidRow ρ) : DbRow ρ where
  rows := t.columns.map fun c => (c.name, .fromSql (t.cell r c))
  nodup := by
    have hnames : ((t.columns.map Column.name).map foldName).Nodup := by
      rw [List.map_map]
      exact t.distinct
    rw [List.map_map]
    exact hnames.of_map

/-! ## Tables made from rows -/

/-- `sql_type_for`. -/
def DbValue.sqlTypeFor : DbValue ρ → Affinity
  | .int _ | .bool _ => .integer
  | .real _ => .real
  | .blob _ => .blob
  | .text _ | .null => .text

/-- The names of the columns are valid. -/
def validateColumns (entries : List (String × DbValue ρ)) : Except String Unit :=
  entries.forM fun e => validateIdent "column" e.1

/-- The column that is made for an entry. -/
def columnFor (e : String × DbValue ρ) : Column ρ := ⟨e.1, e.2.sqlTypeFor, false, .null⟩

/-- The table that the first row makes. -/
def tableFor (row : DbRow ρ) : Except String (RowidTable ρ) := do
  validateColumns row.inOrder
  let columns := row.inOrder.map columnFor
  let pk := if (row.get "name").isSome then some "name" else (row.inOrder.map Prod.fst).head?
  let rowidPk := columns.any fun c => pk == some c.name && c.affinity == .integer
  if h : DistinctNames columns then
    .ok ⟨columns, h, pk, rowidPk, if rowidPk then [] else [pk.toList], []⟩
  else .error "duplicate column name"

/-- `ALTER TABLE .. ADD COLUMN`. -/
def addColumn (t : RowidTable ρ) (e : String × DbValue ρ) : Except String (RowidTable ρ) :=
  if h : DistinctNames (t.columns ++ [columnFor e]) then
    .ok { t with columns := t.columns ++ [columnFor e], distinct := h }
  else .error ("duplicate column name: " ++ e.1)

/-- The columns that are missing are added, one after another. -/
def addColumns : List (String × DbValue ρ) → RowidTable ρ → RowidTable ρ × Except String Unit
  | [], t => (t, .ok ())
  | e :: rest, t =>
    match (do validateIdent "column" e.1; addColumn t e) with
    | .error err => (t, .error err)
    | .ok t' => addColumns rest t'

/-- `ensure_table_for_row`. -/
def ensureTableForRow (physical : String) (row : DbRow ρ) (allowDdl : Bool)
    (table : Option (RowidTable ρ)) : Option (RowidTable ρ) × Except String Unit :=
  let existing := existingColumns table
  if !allowDdl then
    if existing.isEmpty then (table, .error ("table `" ++ physical ++ "` does not exist"))
    else
      match row.inOrder.find? fun e => e.1 ∉ existing with
      | some e => (table, .error ("unknown column `" ++ e.1 ++ "` on `" ++ physical ++ "`"))
      | none => (table, .ok ())
  else
    match table with
    | some t =>
      let (t', result) := addColumns (row.inOrder.filter fun e => e.1 ∉ existing) t
      (some t', result)
    | none =>
      match tableFor row with
      | .ok t => (some t, .ok ())
      | .error e => (none, .error e)

/-! ## Writes -/

/-- `dbvalue_to_key`. -/
def DbValue.toKey : DbValue ρ → Option String
  | .text s => some s
  | .int i => some (toString i)
  | .real r => some (D.renderKey r)
  | .bool b => some (if b then "1" else "0")
  | .null | .blob _ => none

/-- The command log after a row has been written. -/
def noteWritten (physical : String) (t : RowidTable ρ) (row : DbRow ρ) (ops : OpLog) : OpLog :=
  if D.registered physical then
    match t.pk.bind fun pk => ((row.get pk).bind (DbValue.toKey D)).map fun key => (pk, key) with
    | some (pk, key) =>
      match ops.noteWrite env.opId env.origin physical pk key env.stampMs with
      | .ok ops' => ops'
      | .error _ => ops
    | none => ops
  else ops

/-- The command log after rows have been deleted. -/
def noteDeleted (physical keyCol key : String) (ops : OpLog) : OpLog :=
  if D.registered physical then
    match ops.noteDelete env.opId env.origin physical keyCol key env.stampMs with
    | .ok ops' => ops'
    | .error _ => ops
  else ops

/-- `write_row`. -/
def writeRow (nameSpace table physical : String) (row : DbRow ρ) (replace : Bool) (site : Site ρ) :
    Site ρ × Except String (DbReply ρ) :=
  if row.rows.isEmpty then (site, .error ("write to `" ++ table ++ "` has no columns"))
  else
    match ensureTableForRow physical row (nameSpace != "") site.table with
    | (made, .error e) => ({ site with table := made }, .error e)
    | (none, .ok ()) => (site, .error ("no such table: " ++ physical))
    | (some t, .ok ()) =>
      match (do
        validateColumns row.inOrder
        match env.write with
        | some e => .error e
        | none => t.insert D.numbers replace row.values) with
      | .error e => ({ site with table := some t }, .error e)
      | .ok t' => (⟨some t', noteWritten D env physical t' row site.ops⟩, .ok ⟨[], 1⟩)

/-- The values that an update sets. -/
def updateSets (keyCol : String) (row : DbRow ρ) : List (String × Value ρ) :=
  row.values.filter fun e => e.1 != keyCol

/-- `update_row`. -/
def updateRow (table physical keyCol : String) (row : DbRow ρ) (site : Site ρ) :
    Site ρ × Except String (DbReply ρ) :=
  match (do
    validateIdent "column" keyCol
    let key ← required (row.get keyCol)
      ("update of `" ++ table ++ "` missing key column `" ++ keyCol ++ "`")
    validateColumns (row.inOrder.filter fun e => e.1 != keyCol)
    if (updateSets keyCol row).isEmpty then
      .error ("update of `" ++ table ++ "` sets no columns")
    else
      match env.write, site.table with
      | some e, _ => .error e
      | none, none => .error ("no such table: " ++ physical)
      | none, some t => t.update D.numbers keyCol key.toSql (updateSets keyCol row)) with
  | .error e => (site, .error e)
  | .ok (t', n) => ({ site with table := some t' }, .ok ⟨[], n⟩)

/-- The delete of `exec_db_op`. -/
def deleteRow (physical keyCol key : String) (site : Site ρ) :
    Site ρ × Except String (DbReply ρ) :=
  match (do
    validateIdent "column" keyCol
    match env.write, site.table with
    | some e, _ => .error e
    | none, none => .error ("no such table: " ++ physical)
    | none, some t => .ok (t.delete D.numbers keyCol (.text key))) with
  | .error e => (site, .error e)
  | .ok (t', n) =>
    (⟨some t', if 0 < n then noteDeleted D env physical keyCol key site.ops else site.ops⟩,
      .ok ⟨[], n⟩)

/-! ## Reads -/

/-- The rows of a table that satisfy a condition. -/
def readRows (table : Option (RowidTable ρ)) (p : RowidTable ρ → RowidRow ρ → Bool) :
    Except String (DbReply ρ) :=
  match env.read, table with
  | some e, _ => .error e
  | none, some t => .ok ⟨(t.rows.filter (p t)).map (toDbRow t), 0⟩
  | none, none => .ok .none

/-- The get of `exec_db_op`. -/
def getRows (keyCol key : String) (table : Option (RowidTable ρ)) : Except String (DbReply ρ) := do
  validateIdent "column" keyCol
  readRows env table fun t => t.hits D.numbers keyCol (.text key)

/-! ## The dispatch -/

/-- The operation on the table it names. -/
def execOn (op : DbOp ρ) (physical : String) (site : Site ρ) :
    Site ρ × Except String (DbReply ρ) :=
  match op with
  | .list _ _ => (site, readRows env site.table fun _ _ => true)
  | .get _ _ keyCol key => (site, getRows D env keyCol key site.table)
  | .insert ns table row => writeRow D env ns table physical row false site
  | .upsert ns table row => writeRow D env ns table physical row true site
  | .update _ table keyCol row => updateRow D env table physical keyCol row site
  | .delete _ _ keyCol key => deleteRow D env physical keyCol key site

/-- `exec_db_op`. -/
def execDbOp (db : Db ρ) (op : DbOp ρ) : Db ρ × Except String (DbReply ρ) :=
  match resolveOpTable op.nameSpace op.table with
  | .error e => (db, .error e)
  | .ok physical =>
    let (site, result) := execOn D env op physical ⟨db.tables physical, db.ops⟩
    (⟨Function.update db.tables physical site.table, site.ops⟩, result)

end Exec

/-! ## Rows -/

section Lemmas

variable {ρ : Type} {D : Daemon ρ} {env : CallEnv}

lemma get_toDbRow {t : RowidTable ρ} {c : Column ρ} (hc : c ∈ t.columns) (r : RowidRow ρ) :
    (toDbRow t r).get c.name = some (.fromSql (t.cell r c)) := by
  have hfind : (toDbRow t r).find c.name = some (c.name, .fromSql (t.cell r c)) :=
    KeyedTable.find_eq_some_iff.mpr ⟨List.mem_map_of_mem hc, rfl⟩
  unfold DbRow.get
  rw [hfind, Option.map_some]

lemma fromSql_eq_text {v : Value ρ} {s : String} : DbValue.fromSql v = .text s ↔ v = .text s := by
  cases v <;> simp [DbValue.fromSql]

lemma mem_inOrder {row : DbRow ρ} {e : String × DbValue ρ} : e ∈ row.inOrder ↔ e ∈ row.rows :=
  (List.perm_insertionSort _ row.rows).mem_iff

lemma get_eq_some_iff {row : DbRow ρ} {name : String} {v : DbValue ρ} :
    row.get name = some v ↔ (name, v) ∈ row.rows := by
  unfold DbRow.get
  rw [Option.map_eq_some_iff]
  constructor
  · rintro ⟨⟨name', v'⟩, hfind, rfl⟩
    obtain ⟨hmem, rfl⟩ := KeyedTable.find_eq_some_iff.mp hfind
    exact hmem
  · exact fun hmem => ⟨(name, v), KeyedTable.find_eq_some_iff.mpr ⟨hmem, rfl⟩, rfl⟩

/-- The characters of a valid name have no upper case. -/
lemma toLower_of_identChar {c : Char} (h : (isIdentStart c || c.isDigit) = true) :
    c.toLower = c := by
  have hupper : ¬(c.val ≥ 'A'.val ∧ c.val ≤ 'Z'.val) := by
    rintro ⟨hA, hZ⟩
    have hlower : c.isLower = (decide (c.val ≥ 'a'.val) && decide (c.val ≤ 'z'.val)) := rfl
    simp only [isIdentStart, hlower, Char.isDigit, Bool.or_eq_true, beq_iff_eq,
      decide_eq_true_eq, ge_iff_le, Bool.and_eq_true, UInt32.le_iff_toNat_le] at h hA hZ
    rcases h with (rfl | h) | h
    · exact absurd hZ (by decide)
    · have hz : 'Z'.val.toNat < 'a'.val.toNat := by decide
      exact absurd (Nat.le_trans h.1 hZ) (Nat.not_le.mpr hz)
    · have h9 : '9'.val.toNat < 'A'.val.toNat := by decide
      exact absurd (Nat.le_trans hA h.2) (Nat.not_le.mpr h9)
  unfold Char.toLower
  rw [dif_neg hupper]

lemma validateIdent_eq_ok {kind s : String} : validateIdent kind s = .ok () ↔
    s.utf8ByteSize ≤ 64 ∧ s.toList.head?.any isIdentStart = true ∧
      ∀ c ∈ s.toList, (isIdentStart c || c.isDigit) = true := by
  unfold validateIdent
  rw [ensure_eq_ok, Bool.and_eq_true, Bool.and_eq_true, decide_eq_true_eq, List.all_eq_true,
    and_assoc]

lemma foldName_of_ident {kind s : String} (h : validateIdent kind s = .ok ()) : foldName s = s := by
  obtain ⟨-, -, hchars⟩ := validateIdent_eq_ok.mp h
  have hsame : s.toList.map Char.toLower = s.toList :=
    (List.map_congr_left fun c hc => toLower_of_identChar (hchars c hc)).trans (List.map_id _)
  unfold foldName
  rw [hsame, String.ofList_toList]

/-- A valid name is no number. -/
lemma ident_ne_toString {N : Numbers ρ} {kind s : String} (h : validateIdent kind s = .ok ())
    (i : Int64) : s ≠ toString i := by
  obtain ⟨-, hhead, -⟩ := validateIdent_eq_ok.mp h
  have hword : s.toList.head?.any (fun c => c.isAlpha || c == '_') = true := by
    cases hfirst : s.toList.head? with
    | none =>
      rw [hfirst] at hhead
      exact hhead
    | some c =>
      rw [hfirst] at hhead
      rw [Option.any_some, show c.isAlpha = (c.isUpper || c.isLower) from rfl]
      simp only [Option.any_some, isIdentStart, Bool.or_eq_true] at hhead ⊢
      tauto
  rintro rfl
  exact absurd ((N.parse_word _ hword).symm.trans (N.parse_int i)) (Option.some_ne_none _).symm

lemma validateColumns_eq_ok {entries : List (String × DbValue ρ)} :
    validateColumns entries = .ok () ↔ ∀ e ∈ entries, validateIdent "column" e.1 = .ok () := by
  unfold validateColumns
  induction entries with
  | nil => exact iff_of_true rfl fun e he => absurd he List.not_mem_nil
  | cons e rest ih =>
    rw [List.forM_eq_forM, List.forM_cons, then_ok_iff, ← List.forM_eq_forM, ih,
      List.forall_mem_cons]

/-- The values of a row that a statement sets are those of its entries. -/
lemma mem_values {row : DbRow ρ} {e : String × Value ρ} :
    e ∈ row.values ↔ ∃ v, row.get e.1 = some v ∧ e.2 = v.toSql := by
  unfold DbRow.values
  rw [List.mem_map]
  constructor
  · rintro ⟨⟨name, v⟩, hmem, rfl⟩
    exact ⟨v, get_eq_some_iff.mpr (mem_inOrder.mp hmem), rfl⟩
  · rintro ⟨v, hget, hv⟩
    exact ⟨(e.1, v), mem_inOrder.mpr (get_eq_some_iff.mp hget), by rw [← hv]⟩

/-- The value that a row gives for a column whose name is in lower case. -/
lemma given_values {row : DbRow ρ} (hvalid : validateColumns row.inOrder = .ok ()) {c : Column ρ}
    (hc : foldName c.name = c.name) :
    RowidTable.given row.values c = (row.get c.name).map DbValue.toSql := by
  have hname {e : String × Value ρ} (he : e ∈ row.values) : foldName e.1 = e.1 := by
    obtain ⟨v, hget, -⟩ := mem_values.mp he
    have hmem := mem_inOrder.mpr (get_eq_some_iff.mp hget)
    exact foldName_of_ident (validateColumns_eq_ok.mp hvalid _ hmem)
  unfold RowidTable.given
  cases hfind : row.values.find? fun e => foldName e.1 == foldName c.name with
  | none =>
    cases hget : row.get c.name with
    | none => rfl
    | some v =>
      have hmem : (c.name, v.toSql) ∈ row.values := mem_values.mpr ⟨v, hget, rfl⟩
      simpa using List.find?_eq_none.mp hfind _ hmem
  | some e =>
    have hmem := List.mem_of_find?_eq_some hfind
    have hsame : foldName e.1 = foldName c.name := by simpa using List.find?_some hfind
    rw [hname hmem, hc] at hsame
    obtain ⟨v, hget, hv⟩ := mem_values.mp hmem
    rw [← hsame, hget, Option.map_some, Option.map_some, hv]

/-! ## Statements that succeed -/

/-- A row that is written to a table of the core. -/
lemma writeRow_ok {table physical : String} {row : DbRow ρ} {replace : Bool} {site : Site ρ}
    {reply : DbReply ρ}
    (h : (writeRow D env "" table physical row replace site).2 = .ok reply) :
    ∃ t t', site.table = some t ∧ validateColumns row.inOrder = .ok () ∧
      t.insert D.numbers replace row.values = .ok t' ∧
      (writeRow D env "" table physical row replace site).1.table = some t' := by
  have hensure : ensureTableForRow physical row ("" != "") site.table =
      (site.table, (ensureTableForRow physical row false site.table).2) := by
    unfold ensureTableForRow
    dsimp only
    split
    · split
      · rfl
      · split <;> rfl
    · rename_i hddl
      exact absurd rfl hddl
  unfold writeRow at *
  split at h
  · cases h
  rename_i hsome
  rw [if_neg hsome]
  rw [hensure] at h ⊢
  cases hmade : (ensureTableForRow physical row false site.table).2 with
  | error e =>
    rw [hmade] at h
    cases h
  | ok u =>
    rw [hmade] at h
    cases htable : site.table with
    | none =>
      rw [htable] at h
      cases h
    | some t =>
      rw [htable] at h
      dsimp only at h ⊢
      split at h
      · cases h
      · rename_i t' hstatement
        obtain ⟨hvalid, hwrite⟩ := then_ok_iff.mp hstatement
        cases hfault : env.write with
        | some e =>
          rw [hfault] at hwrite
          cases hwrite
        | none =>
          rw [hfault] at hwrite
          obtain rfl := Except.ok.inj h
          exact ⟨t, t', rfl, hvalid, hwrite, rfl⟩

/-- Rows that are updated. -/
lemma updateRow_ok {table physical keyCol : String} {row : DbRow ρ} {site : Site ρ}
    {reply : DbReply ρ} (h : (updateRow D env table physical keyCol row site).2 = .ok reply) :
    ∃ t t' n key, site.table = some t ∧ validateIdent "column" keyCol = .ok () ∧
      row.get keyCol = some key ∧
      validateColumns (row.inOrder.filter fun e => e.1 != keyCol) = .ok () ∧
      t.update D.numbers keyCol key.toSql (updateSets keyCol row) = .ok (t', n) ∧
      (updateRow D env table physical keyCol row site).1.table = some t' := by
  unfold updateRow at *
  split at h
  · cases h
  · rename_i t' n hstatement
    obtain ⟨hident, hrest⟩ := then_ok_iff.mp hstatement
    obtain ⟨key, hkey, hrest⟩ := chain_ok_iff.mp hrest
    obtain ⟨hvalid, hrest⟩ := then_ok_iff.mp hrest
    rw [required_eq_ok] at hkey
    obtain rfl := Except.ok.inj h
    split at hrest
    · cases hrest
    · cases hwrite : env.write with
      | some e =>
        rw [hwrite] at hrest
        cases hrest
      | none =>
        cases htable : site.table with
        | none =>
          rw [hwrite, htable] at hrest
          cases hrest
        | some t =>
          rw [hwrite, htable] at hrest
          exact ⟨t, t', n, key, rfl, hident, hkey, hvalid, hrest, rfl⟩

/-- Rows that are deleted. -/
lemma deleteRow_ok {physical keyCol key : String} {site : Site ρ} {reply : DbReply ρ}
    (h : (deleteRow D env physical keyCol key site).2 = .ok reply) :
    ∃ t, site.table = some t ∧
      (deleteRow D env physical keyCol key site).1.table =
        some (t.delete D.numbers keyCol (.text key)).1 := by
  unfold deleteRow at *
  split at h
  · cases h
  · rename_i t' n hstatement
    obtain ⟨-, hrest⟩ := then_ok_iff.mp hstatement
    cases hwrite : env.write with
    | some e =>
      rw [hwrite] at hrest
      cases hrest
    | none =>
      cases htable : site.table with
      | none =>
        rw [hwrite, htable] at hrest
        cases hrest
      | some t =>
        rw [hwrite, htable] at hrest
        obtain ⟨rfl, rfl⟩ := Prod.mk.inj (Except.ok.inj hrest)
        obtain rfl := Except.ok.inj h
        exact ⟨t, rfl, rfl⟩

/-- A row that is read is one of the table. -/
lemma mem_readRows {table : Option (RowidTable ρ)} {p : RowidTable ρ → RowidRow ρ → Bool}
    {reply : DbReply ρ} (h : readRows env table p = .ok reply) {row : DbRow ρ}
    (hrow : row ∈ reply.rows) :
    ∃ t r, table = some t ∧ r ∈ t.rows ∧ row = toDbRow t r := by
  unfold readRows at h
  split at h
  · cases h
  · rename_i t _
    obtain rfl := Except.ok.inj h
    obtain ⟨r, hr, rfl⟩ := List.mem_map.mp hrow
    exact ⟨t, r, rfl, (List.mem_filter.mp hr).1, rfl⟩
  · obtain rfl := Except.ok.inj h
    cases hrow

/-- A row that is written is not returned. -/
lemma rows_writeRow {ns table physical : String} {row : DbRow ρ} {replace : Bool} {site : Site ρ}
    {reply : DbReply ρ} (h : (writeRow D env ns table physical row replace site).2 = .ok reply) :
    reply.rows = [] := by
  unfold writeRow at h
  split at h
  · cases h
  split at h
  · cases h
  · cases h
  split at h
  · cases h
  · rw [← Except.ok.inj h]

/-- A write returns no rows. -/
lemma rows_of_write {op : DbOp ρ} (hwrite : op.isRead = false) {physical : String} {site : Site ρ}
    {reply : DbReply ρ} (h : (execOn D env op physical site).2 = .ok reply) : reply.rows = [] := by
  cases op with
  | list ns table => cases hwrite
  | get ns table keyCol key => cases hwrite
  | insert ns table row => exact rows_writeRow h
  | upsert ns table row => exact rows_writeRow h
  | update ns table keyCol row =>
    unfold execOn updateRow at h
    dsimp only at h
    split at h
    · cases h
    · rw [← Except.ok.inj h]
  | delete ns table keyCol key =>
    unfold execOn deleteRow at h
    dsimp only at h
    split at h
    · cases h
    · rw [← Except.ok.inj h]

/-- The rows that an operation returns are rows of its table. -/
lemma rows_execOn {op : DbOp ρ} {physical : String} {site : Site ρ} {reply : DbReply ρ}
    (h : (execOn D env op physical site).2 = .ok reply) {row : DbRow ρ} (hrow : row ∈ reply.rows) :
    ∃ t r, site.table = some t ∧ r ∈ t.rows ∧ row = toDbRow t r := by
  cases hread : op.isRead with
  | false =>
    rw [rows_of_write hread h] at hrow
    cases hrow
  | true =>
    cases op with
    | list ns table => exact mem_readRows h hrow
    | get ns table keyCol key =>
      obtain ⟨-, h⟩ := then_ok_iff.mp h
      exact mem_readRows h hrow
    | insert ns table row' => cases hread
    | upsert ns table row' => cases hread
    | update ns table keyCol row' => cases hread
    | delete ns table keyCol key => cases hread

/-- Only the operations on a table that is replicated are logged. -/
lemma ops_execOn (op : DbOp ρ) {physical : String} (h : D.registered physical = false)
    (site : Site ρ) : (execOn D env op physical site).1.ops = site.ops := by
  have hwrite (ns table : String) (row : DbRow ρ) (replace : Bool) :
      (writeRow D env ns table physical row replace site).1.ops = site.ops := by
    unfold writeRow
    split
    · rfl
    split
    · rfl
    · rfl
    split
    · rfl
    · simp only [noteWritten, h, Bool.false_eq_true, if_false]
  cases op with
  | list ns table => rfl
  | get ns table keyCol key => rfl
  | insert ns table row => exact hwrite ns table row false
  | upsert ns table row => exact hwrite ns table row true
  | update ns table keyCol row =>
    unfold execOn updateRow
    dsimp only
    split <;> rfl
  | delete ns table keyCol key =>
    unfold execOn deleteRow
    dsimp only
    split
    · rfl
    · simp only [noteDeleted, h, Bool.false_eq_true, if_false, ite_self]

/-! ## One table -/

lemma execDbOp_of_error {db : Db ρ} {op : DbOp ρ} {e : String}
    (h : resolveOpTable op.nameSpace op.table = .error e) :
    execDbOp D env db op = (db, .error e) := by
  unfold execDbOp
  rw [h]

/-- An operation acts on the table it names and the command log. -/
lemma execDbOp_of_ok {db : Db ρ} {op : DbOp ρ} {physical : String}
    (h : resolveOpTable op.nameSpace op.table = .ok physical) :
    execDbOp D env db op =
      (⟨Function.update db.tables physical
          (execOn D env op physical ⟨db.tables physical, db.ops⟩).1.table,
        (execOn D env op physical ⟨db.tables physical, db.ops⟩).1.ops⟩,
      (execOn D env op physical ⟨db.tables physical, db.ops⟩).2) := by
  unfold execDbOp
  rw [h]

/-- The other tables stay as they are. -/
theorem tables_execDbOp (db : Db ρ) (op : DbOp ρ) {n : String}
    (h : resolveOpTable op.nameSpace op.table ≠ .ok n) :
    (execDbOp D env db op).1.tables n = db.tables n := by
  cases hresolve : resolveOpTable op.nameSpace op.table with
  | error e => rw [execDbOp_of_error hresolve]
  | ok physical =>
    rw [execDbOp_of_ok hresolve]
    refine Function.update_of_ne (fun hsame => h ?_) _ _
    rw [hresolve, hsame]

/-- The rows that are returned are rows of the table that is named. -/
theorem rows_execDbOp {db : Db ρ} {op : DbOp ρ} {reply : DbReply ρ}
    (h : (execDbOp D env db op).2 = .ok reply) {row : DbRow ρ} (hrow : row ∈ reply.rows) :
    ∃ n t r, resolveOpTable op.nameSpace op.table = .ok n ∧ db.tables n = some t ∧ r ∈ t.rows ∧
      row = toDbRow t r := by
  cases hresolve : resolveOpTable op.nameSpace op.table with
  | error e =>
    rw [execDbOp_of_error hresolve] at h
    cases h
  | ok physical =>
    rw [execDbOp_of_ok hresolve] at h
    obtain ⟨t, r, ht, hr, hsame⟩ := rows_execOn h hrow
    exact ⟨physical, t, r, rfl, ht, hr, hsame⟩

/-- The command log has an entry only for a table that is replicated. -/
theorem ops_execDbOp (db : Db ρ) (op : DbOp ρ)
    (h : ∀ n, resolveOpTable op.nameSpace op.table = .ok n → D.registered n = false) :
    (execDbOp D env db op).1.ops = db.ops := by
  cases hresolve : resolveOpTable op.nameSpace op.table with
  | error e => rw [execDbOp_of_error hresolve]
  | ok physical =>
    rw [execDbOp_of_ok hresolve]
    exact ops_execOn op (h physical hresolve) _

/-- A read leaves the database. -/
lemma execDbOp_of_isRead {db : Db ρ} {op : DbOp ρ} (h : op.isRead = true) :
    (execDbOp D env db op).1 = db := by
  cases hresolve : resolveOpTable op.nameSpace op.table with
  | error e => rw [execDbOp_of_error hresolve]
  | ok physical =>
    rw [execDbOp_of_ok hresolve]
    have hsite : (execOn D env op physical ⟨db.tables physical, db.ops⟩).1 =
        ⟨db.tables physical, db.ops⟩ := by
      cases op with
      | list => rfl
      | get => rfl
      | insert => cases h
      | update => cases h
      | upsert => cases h
      | delete => cases h
    rw [hsite, Function.update_eq_self]

end Lemmas

end Orca.Plugins
