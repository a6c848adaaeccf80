import Orca.Secrets.Isolation

/-!
# Secret columns of a plugin

A plugin declares tables, and may mark columns of them as secret.  `migrateSecretColumns` moves the
values of these columns into the store of secrets: the value of a row goes under the name made from
the namespace, the primary key of the row and the column, and the column is cleared.  A name that
the store already has a record for keeps what it has, and the column is cleared all the same.

The whole call is one transaction (`PluginDb` is what it reads and writes), and each of its
statements may fail (`SqlFaults`).
-/

namespace Orca.Secrets

open Check

/-! ## Declarations -/

/-- `ColumnDef`: what the migration reads of a declared column. -/
structure ColumnDef where
  name : String
  notNull : Bool
  primaryKey : Bool
  secret : Bool

/-- `TableDef`: a declared table. -/
structure TableDef where
  /-- The name that the plugin has for it. -/
  table : String
  columns : List ColumnDef

/-- `SchemaDecl`: what a plugin declares. -/
structure SchemaDecl where
  nameSpace : String
  tables : List TableDef

/-- The characters that an identifier may start with. -/
def isIdentStart (c : Char) : Bool := c == '_' || c.isLower

/-- `validate_ident`. -/
def validateIdent (kind s : String) : Except String Unit :=
  ensure (decide (s.utf8ByteSize ≤ 64) && s.toList.head?.any isIdentStart &&
      s.toList.all (fun c => isIdentStart c || c.isDigit))
    ("invalid " ++ kind ++ " identifier `" ++ s ++ "`: must match [a-z_][a-z0-9_]* (max 64)")

/-- Two underscores follow each other. -/
def hasDoubleUnderscore : List Char → Bool
  | '_' :: '_' :: _ => true
  | _ :: rest => hasDoubleUnderscore rest
  | [] => false

/-- `validate_segment`. -/
def validateSegment (kind s : String) : Except String Unit := do
  validateIdent kind s
  ensure (!hasDoubleUnderscore s.toList)
    ("invalid " ++ kind ++ " identifier `" ++ s ++ "`: must not contain `__`")

/-- `validate_principal`. -/
def validatePrincipal (s : String) : Except String Unit :=
  ensure (isValidPluginId s) ("invalid principal `" ++ s ++
    "`: must match [a-z][a-z0-9-]* without trailing or doubled `-` (max 64)")

/-- The name of a table in the database. -/
def physicalName (nameSpace table : String) : String :=
  "plug__" ++ String.ofList (nameSpace.toList.map fun c => if c = '-' then '_' else c) ++ "__" ++
    table

/-- `physical_table_name`. -/
def physicalTableName (nameSpace table : String) : Except String String := do
  validatePrincipal nameSpace
  validateSegment "table" table
  .ok (physicalName nameSpace table)

/-! ## Tables -/

/-- A value in a row. -/
inductive Cell where
  | null
  | text (s : String)
  /-- A number or a blob, with what reading `CAST(.. AS TEXT)` of it gives. -/
  | other (cast : Except String String)

/-- The value is neither `NULL` nor the empty text. -/
def Cell.nonEmpty : Cell → Bool
  | null => false
  | text s => s != ""
  | other _ => true

/-- The value is not `NULL`. -/
def Cell.notNull : Cell → Bool
  | null => false
  | _ => true

/-- Reading `CAST(.. AS TEXT)` of the value as a string. -/
def Cell.cast : Cell → Except String String
  | null => .error "Invalid column type Null"
  | text s => .ok s
  | other c => c

/-- A row, by column. -/
abbrev Row := String → Cell

/-- What a migration reads and writes. -/
structure PluginDb where
  /-- The rows of a table, in the order in which they are scanned. -/
  tables : String → List Row
  store : SecretStore

/-- A statement of a migration. -/
inductive Statement where
  | start
  /-- The rows with a secret are read. -/
  | select (table key column : String)
  /-- `get`: the record of a secret is read. -/
  | get (name : String)
  /-- The statements of `upsert`. -/
  | upsert (name : String)
  /-- The statements of `write_inline_value`. -/
  | write (name : String)
  /-- The column of a row is cleared. -/
  | update (table key column inst : String)
  | commit

/-- The statements that fail, with their errors. -/
abbrev SqlFaults := PluginDb → Statement → Option String

/-- A statement is run. -/
def attempt (fails : SqlFaults) (db : PluginDb) (statement : Statement) : Except String Unit :=
  match fails db statement with
  | none => .ok ()
  | some e => .error e

/-! ## Migration -/

/-- `SecretColumnMigration`: what a migration did. -/
structure SecretColumnMigration where
  /-- The values that went into the store. -/
  moved : ℕ
  /-- The names that the store had already. -/
  alreadyStored : ℕ
  /-- The rows whose key makes no name. -/
  skipped : ℕ
  names : List String
  deriving DecidableEq

/-- `valid_instance`: the key of a row may be a part of a name. -/
def validInstance (pk : String) : Bool :=
  !pk.toList.isEmpty && !pk.toList.contains '.' && !pk.toList.any isControl

/-- A secret column, with its table and the primary key of it. -/
structure SecretColumn where
  nameSpace : String
  table : String
  key : String
  column : String
  notNull : Bool

namespace SecretColumn

/-- The name of the secret of a row. -/
def secretName (p : SecretColumn) (inst : String) : String :=
  p.nameSpace ++ "." ++ inst ++ "." ++ p.column

/-- What a cleared column has. -/
def cleared (p : SecretColumn) : Cell := if p.notNull then .text "" else .null

/-- The `UPDATE` of a migration, on one row. -/
def clear (p : SecretColumn) (inst : String) (row : Row) : Row :=
  if (row p.key).cast = .ok inst then Function.update row p.column p.cleared else row

/-- The key and the value of a row, as strings. -/
def readRow (p : SecretColumn) (row : Row) : Except String (String × String) := do
  let inst ← (row p.key).cast
  let value ← (row p.column).cast
  .ok (inst, value)

/-- The `SELECT` of a migration: the rows with a key and a value that is not empty. -/
def select (p : SecretColumn) (rows : List Row) : Except String (List (String × String)) :=
  (rows.filter fun row => (row p.key).notNull && (row p.column).nonEmpty).mapM p.readRow

end SecretColumn

/-- Where a migration is. -/
structure Migration where
  db : PluginDb
  seen : List String
  report : SecretColumnMigration

/-- A value that the store has no record for goes into it. -/
def storeValue (fails : SqlFaults) (now : String) (db : PluginDb) (name value : String) :
    Except String SecretStore := do
  attempt fails db (.upsert name)
  let row ← upsert db.store name "inline" "" none now
  attempt fails { db with store := row.2 } (.write name)
  writeInlineValue row.2 name value

/-- The writes of a migration for one row. -/
def moveValue (fails : SqlFaults) (now : String) (p : SecretColumn) (db : PluginDb)
    (inst value : String) : Except String PluginDb := do
  let name := p.secretName inst
  let stored := (db.store.secrets name).isSome
  let store ← (if stored then .ok db.store else storeValue fails now db name value)
  attempt fails { db with store := store } (.update p.table p.key p.column inst)
  let rows := (db.tables p.table).map (p.clear inst)
  .ok { tables := Function.update db.tables p.table rows, store := store }

/-- One more name in a report. -/
def SecretColumnMigration.count (r : SecretColumnMigration) (stored : Bool) (name : String) :
    SecretColumnMigration :=
  { moved := if stored then r.moved else r.moved + 1
    alreadyStored := if stored then r.alreadyStored + 1 else r.alreadyStored
    skipped := r.skipped
    names := r.names ++ [name] }

/-- The body of the loop over the rows of a column. -/
def migrateInstance (fails : SqlFaults) (now : String) (dryRun : Bool) (p : SecretColumn)
    (s : Migration) (row : String × String) : Except String Migration :=
  if validInstance row.1 then do
    let name := p.secretName row.1
    ensure (!s.seen.contains name)
      ("secret name `" ++ name ++ "` is produced by more than one table; refusing to migrate")
    attempt fails s.db (.get name)
    let stored := (s.db.store.secrets name).isSome
    let db ← (if dryRun then .ok s.db else moveValue fails now p s.db row.1 row.2)
    .ok ⟨db, name :: s.seen, s.report.count stored name⟩
  else .ok { s with report := { s.report with skipped := s.report.skipped + 1 } }

/-- The body of the loop over the secret columns of a table. -/
def migrateColumn (fails : SqlFaults) (now : String) (dryRun : Bool) (s : Migration)
    (p : SecretColumn) : Except String Migration := do
  validateIdent "column" p.column
  attempt fails s.db (.select p.table p.key p.column)
  let rows ← p.select (s.db.tables p.table)
  rows.foldlM (migrateInstance fails now dryRun p) s

/-- The body of the loop over the tables. -/
def migrateTable (fails : SqlFaults) (now : String) (dryRun : Bool) (nameSpace : String)
    (s : Migration) (t : TableDef) : Except String Migration :=
  let secretCols := t.columns.filter ColumnDef.secret
  if secretCols.isEmpty then .ok s
  else do
    let pk ← required (t.columns.find? ColumnDef.primaryKey)
      ("table `" ++ t.table ++ "` declares secret columns but no primary key")
    validateIdent "column" pk.name
    let physical ← physicalTableName nameSpace t.table
    secretCols.foldlM (fun s col =>
      migrateColumn fails now dryRun s ⟨nameSpace, physical, pk.name, col.name, col.notNull⟩) s

/-- The transaction of a migration. -/
def migrateTables (fails : SqlFaults) (now : String) (dryRun : Bool) (db : PluginDb)
    (decl : SchemaDecl) : Except String Migration := do
  attempt fails db .start
  let s ← decl.tables.foldlM (migrateTable fails now dryRun decl.nameSpace) ⟨db, [], ⟨0, 0, 0, []⟩⟩
  attempt fails s.db .commit
  .ok s

/-- `migrate_secret_columns`: the report, and the tables after the call.  A transaction that ends
with an error is rolled back. -/
def migrateSecretColumns (fails : SqlFaults) (now : String) (db : PluginDb) (principal : String)
    (decl : SchemaDecl) (dryRun : Bool) : Except String SecretColumnMigration × PluginDb :=
  if !decl.tables.any (fun t => t.columns.any ColumnDef.secret) then (.ok ⟨0, 0, 0, []⟩, db)
  else if decl.nameSpace ≠ principal then
    (.error ("schema namespace `" ++ decl.nameSpace ++ "` is not the plugin id `" ++ principal ++
      "`; refusing to migrate secret columns"), db)
  else
    match migrateTables fails now dryRun db decl with
    | .ok s => (.ok s.report, s.db)
    | .error e => (.error e, db)

end Orca.Secrets
