import Orca.Library.FirstCome
import Orca.Plugins.DefaultLiteral
import Orca.Plugins.Namespaces

/-!
# Declared tables and indexes of a plugin

`apply_decl`, which makes the tables, columns and indexes that a plugin declares.  An index has a
name in the database that is put together from the namespace, the table and the name that the plugin
has for it; `CREATE INDEX IF NOT EXISTS` leaves the database as it is if an index of that name
exists, whatever it is an index of.

The engine is a parameter (`Engine`): it refuses a statement, or gives what becomes of the rows of
the database.  A name in an index that is no column of its table is a text (`IndexTerm`).

Two names are put together in the same way only if an underscore has moved from the end of the
table's name to the start of the index's (`indexName_eq_iff`).  The indexes that a run of
declarations declares exist as declared if and only if no table is applied with an index whose name
stands for another one (`declared_indexes_exist_iff`).
-/

namespace Orca.Plugins

open Secrets Check

/-! ## Declarations -/

/-- `ColumnSpec`: a declared column. -/
structure ColumnSpec extends ColumnDef where
  sqlType : String
  default : Option String

/-- `IndexSpec`: a declared index. -/
structure IndexSpec where
  /-- The name that the plugin has for it. -/
  name : String
  /-- The columns that it is an index of. -/
  columns : List String
  unique : Bool

/-- `TableSchema`: a declared table. -/
structure TableSchema where
  /-- The name that the plugin has for it. -/
  table : String
  columns : List ColumnSpec
  indexes : List IndexSpec

/-- `SchemaDecl`: what a plugin declares. -/
structure SchemaDecl where
  nameSpace : String
  tables : List TableSchema

/-- `MigrationReport`: what applying a table did. -/
structure MigrationReport where
  /-- The name of the table in the database. -/
  physicalTable : String
  createdTable : Bool
  addedColumns : List String
  /-- The names of the indexes in the database. -/
  createdIndexes : List String

/-- The name of an index in the database. -/
def indexName (nameSpace table index : String) : String :=
  "plug__" ++ nameSpace ++ "__" ++ table ++ "__" ++ index

/-- `physical_index_name`. -/
def physicalIndexName (nameSpace table index : String) : Except String String := do
  validateIdent "index" index
  .ok (indexName nameSpace table index)

/-- `to_ascii_uppercase`. -/
def toAsciiUppercase (s : String) : String := String.ofList (s.toList.map Char.toUpper)

/-- `validate_type`. -/
def validateType (t : String) : Except String Unit :=
  let other := toAsciiUppercase t
  ensure (["TEXT", "INTEGER", "REAL", "BLOB", "NUMERIC"].contains other)
    ("invalid column type `" ++ other ++ "`: allowed TEXT|INTEGER|REAL|BLOB|NUMERIC")

/-- `column_ddl`. -/
def columnDdl (c : ColumnSpec) : Except String String := do
  validateIdent "column" c.name
  validateType c.sqlType
  let ddl := "\"" ++ c.name ++ "\" " ++ toAsciiUppercase c.sqlType
  let ddl := if c.primaryKey then ddl ++ " PRIMARY KEY" else ddl
  let ddl := if c.notNull then ddl ++ " NOT NULL" else ddl
  match c.default with
  | none => .ok ddl
  | some d => do
    let lit ← required (defaultLiteral d)
      ("column `" ++ c.name ++ "` default `" ++ d ++ "` is not a literal")
    .ok (ddl ++ " DEFAULT " ++ lit)

/-! ## The database -/

/-- A name that an index lists: it is a column, or a text if the table has no such column. -/
inductive IndexTerm where
  | column (name : String)
  | text (s : String)
  deriving DecidableEq

/-- An index of the database. -/
structure IndexEntry where
  name : String
  table : String
  terms : List IndexTerm
  unique : Bool
  deriving DecidableEq

/-- What applying a declaration reads and writes. -/
structure SchemaDb (ρ : Type) where
  /-- The columns of a table with their types.  A table that does not exist has none. -/
  columns : String → List (String × String)
  /-- The indexes; their names are distinct. -/
  indexes : KeyedTable fun i : IndexEntry => foldCase i.name
  content : ρ

/-- A statement of `apply`. -/
inductive DdlStatement where
  /-- `PRAGMA table_info`. -/
  | tableInfo (physical : String)
  | createTable (physical cols : String)
  /-- `ALTER TABLE .. ADD COLUMN`. -/
  | addColumn (physical col : String)
  /-- `CREATE INDEX IF NOT EXISTS`. -/
  | createIndex (unique : Bool) (name physical : String) (columns : List String)

/-- What becomes of the rows by a statement, or the error if it is refused. -/
abbrev Engine (ρ : Type) := SchemaDb ρ → DdlStatement → Except String ρ

section Apply

variable {ρ : Type}

/-- What a name in an index on the table is. -/
def indexTerm (columns : List (String × String)) (name : String) : IndexTerm :=
  if columns.any fun c => foldCase c.1 == foldCase name then .column name else .text name

/-- The index that `CREATE INDEX` makes on a table with the columns. -/
def indexEntry (columns : List (String × String)) (name physical : String) (idx : IndexSpec) :
    IndexEntry :=
  ⟨name, physical, idx.columns.map (indexTerm columns), idx.unique⟩

/-- A column as `PRAGMA table_info` has it. -/
def liveColumn (c : ColumnSpec) : String × String := (c.name, toAsciiUppercase c.sqlType)

/-- The table gets columns. -/
def SchemaDb.addColumns (db : SchemaDb ρ) (physical : String) (columns : List ColumnSpec)
    (content : ρ) : SchemaDb ρ where
  columns := Function.update db.columns physical (db.columns physical ++ columns.map liveColumn)
  indexes := db.indexes
  content := content

/-- The index is made, if there is none of its name. -/
def SchemaDb.addIndex (db : SchemaDb ρ) (name physical : String) (idx : IndexSpec) (content : ρ) :
    SchemaDb ρ where
  columns := db.columns
  indexes := db.indexes.insertNew (indexEntry (db.columns physical) name physical idx)
  content := content

variable (engine : Engine ρ)

/-- The rounds of `apply` over the columns of a table that exists. -/
def convergeColumn (schema : TableSchema) (physical : String) (existing : List (String × String))
    (state : MigrationReport × SchemaDb ρ) (c : ColumnSpec) :
    Except String (MigrationReport × SchemaDb ρ) := do
  validateIdent "column" c.name
  match existing.find? fun live => live.1 == c.name with
  | some (_, liveType) => do
    ensure (toAsciiLowercase liveType == toAsciiLowercase c.sqlType)
      ("column `" ++ schema.table ++ "." ++ c.name ++ "` is " ++ liveType ++
        " on disk but declared " ++ c.sqlType ++ "; refusing implicit destructive retype")
    .ok state
  | none => do
    ensure (!(c.notNull && c.default.isNone))
      ("new column `" ++ schema.table ++ "." ++ c.name ++ "` is NOT NULL but has no default; " ++
        "a default is required to add it to an existing table")
    let ddl ← columnDdl c
    let content ← engine state.2 (.addColumn physical ddl)
    .ok ({ state.1 with addedColumns := state.1.addedColumns ++ [c.name] },
      state.2.addColumns physical [c] content)

/-- What `apply` does for the columns: it creates the table, or adds columns to it. -/
def convergeColumns (schema : TableSchema) (physical : String) (db : SchemaDb ρ) :
    Except String (MigrationReport × SchemaDb ρ) := do
  let _ ← engine db (.tableInfo physical)
  let existing := db.columns physical
  if existing.isEmpty then do
    let cols ← schema.columns.mapM columnDdl
    let content ← engine db (.createTable physical (", ".intercalate cols))
    .ok (⟨physical, true, [], []⟩, db.addColumns physical schema.columns content)
  else
    schema.columns.foldlM (convergeColumn engine schema physical existing)
      (⟨physical, false, [], []⟩, db)

/-- The rounds of `apply` over the indexes. -/
def createIndex (nameSpace table physical : String) (state : MigrationReport × SchemaDb ρ)
    (idx : IndexSpec) : Except String (MigrationReport × SchemaDb ρ) := do
  let physIdx ← physicalIndexName nameSpace table idx.name
  ensure (!idx.columns.isEmpty) ("index `" ++ idx.name ++ "` lists no columns")
  idx.columns.foldlM (fun _ col => validateIdent "column" col) ()
  let content ← engine state.2 (.createIndex idx.unique physIdx physical idx.columns)
  .ok ({ state.1 with createdIndexes := state.1.createdIndexes ++ [physIdx] },
    state.2.addIndex physIdx physical idx content)

/-- `apply`. -/
def apply (nameSpace : String) (schema : TableSchema) (db : SchemaDb ρ) :
    Except String (MigrationReport × SchemaDb ρ) := do
  let physical ← physicalTableName nameSpace schema.table
  ensure (!schema.columns.isEmpty) ("table `" ++ schema.table ++ "` declares no columns")
  let state ← convergeColumns engine schema physical db
  schema.indexes.foldlM (createIndex engine nameSpace schema.table physical) state

/-- The loop of `apply_decl` over the tables. -/
def applyTables (nameSpace : String) :
    List TableSchema → SchemaDb ρ → Except String (List MigrationReport × SchemaDb ρ)
  | [], db => .ok ([], db)
  | table :: tables, db => do
    let (report, db) ← apply engine nameSpace table db
    let (reports, db) ← applyTables nameSpace tables db
    .ok (report :: reports, db)

/-- `apply_decl`. -/
def applyDecl (principal : String) (decl : SchemaDecl) (db : SchemaDb ρ) :
    Except String (List MigrationReport × SchemaDb ρ) :=
  if decl.tables.isEmpty then .ok ([], db)
  else do
    ensure (decl.nameSpace != "") "schema declaration lists tables but no namespace"
    validatePrincipal principal
    ensure (decl.nameSpace == principal)
      ("plugin '" ++ principal ++ "' declared schema namespace '" ++ decl.nameSpace ++
        "' — refusing foreign namespace")
    applyTables engine decl.nameSpace decl.tables db

end Apply

/-! ## What an accepted table does -/

/-- The names of the columns of a table. -/
def SchemaDb.columnNames {ρ : Type} (db : SchemaDb ρ) (physical : String) : List String :=
  (db.columns physical).map Prod.fst

section Accepted

variable {ρ : Type} {engine : Engine ρ}

/-- A table that gets columns has those that it had, and the new ones. -/
lemma columnNames_addColumns (db : SchemaDb ρ) (physical : String) (columns : List ColumnSpec)
    (content : ρ) : (db.addColumns physical columns content).columnNames physical =
      db.columnNames physical ++ columns.map (·.name) := by
  simp only [SchemaDb.columnNames, SchemaDb.addColumns, Function.update_self, List.map_append,
    List.map_map]
  rfl

/-- A round over the columns adds the column, unless the table has it. -/
lemma convergeColumn_ok {schema : TableSchema} {physical : String}
    {existing : List (String × String)} {state state' : MigrationReport × SchemaDb ρ}
    {c : ColumnSpec} (h : convergeColumn engine schema physical existing state c = .ok state')
    (hlive : ∀ live ∈ existing, live.1 ∈ state.2.columnNames physical) :
    state'.2.indexes = state.2.indexes ∧ ∀ name, name ∈ state'.2.columnNames physical ↔
      name ∈ state.2.columnNames physical ∨ name = c.name := by
  obtain ⟨-, h⟩ := then_ok_iff.mp h
  cases hfind : existing.find? fun live => live.1 == c.name with
  | some live =>
    rw [hfind] at h
    obtain ⟨-, h⟩ := then_ok_iff.mp h
    cases h
    have hname : live.1 = c.name := by simpa using List.find?_some hfind
    refine ⟨rfl, fun name => ⟨Or.inl, fun hname' => hname'.elim id ?_⟩⟩
    rintro rfl
    exact hname ▸ hlive live (List.mem_of_find?_eq_some hfind)
  | none =>
    rw [hfind] at h
    obtain ⟨-, h⟩ := then_ok_iff.mp h
    obtain ⟨ddl, -, h⟩ := chain_ok_iff.mp h
    obtain ⟨content, -, h⟩ := chain_ok_iff.mp h
    cases h
    refine ⟨rfl, fun name => ?_⟩
    rw [columnNames_addColumns, List.mem_append, List.map_singleton, List.mem_singleton]

/-- The rounds over the columns add those that the table does not have. -/
lemma foldlM_convergeColumn_ok {schema : TableSchema} {physical : String}
    {existing : List (String × String)} {columns : List ColumnSpec}
    {state state' : MigrationReport × SchemaDb ρ}
    (h : columns.foldlM (convergeColumn engine schema physical existing) state = .ok state')
    (hlive : ∀ live ∈ existing, live.1 ∈ state.2.columnNames physical) :
    state'.2.indexes = state.2.indexes ∧ ∀ name, name ∈ state'.2.columnNames physical ↔
      name ∈ state.2.columnNames physical ∨ name ∈ columns.map (·.name) := by
  induction columns generalizing state with
  | nil =>
    cases h
    exact ⟨rfl, fun name => by simp⟩
  | cons c columns ih =>
    obtain ⟨mid, hmid, hrest⟩ := foldlM_cons_ok_iff.mp h
    obtain ⟨hindexes, hnames⟩ := convergeColumn_ok hmid hlive
    obtain ⟨hindexes', hnames'⟩ := ih hrest fun live hl => (hnames _).mpr (Or.inl (hlive live hl))
    refine ⟨hindexes'.trans hindexes, fun name => ?_⟩
    rw [hnames', hnames, List.map_cons, List.mem_cons, or_assoc]

/-- The table has the columns that it had, and those that are declared. -/
lemma convergeColumns_ok {schema : TableSchema} {physical : String} {db : SchemaDb ρ}
    {state : MigrationReport × SchemaDb ρ}
    (h : convergeColumns engine schema physical db = .ok state) :
    state.2.indexes = db.indexes ∧ ∀ name, name ∈ state.2.columnNames physical ↔
      name ∈ db.columnNames physical ∨ name ∈ schema.columns.map (·.name) := by
  obtain ⟨-, -, h⟩ := chain_ok_iff.mp h
  by_cases hnew : (db.columns physical).isEmpty = true
  · rw [if_pos hnew] at h
    obtain ⟨cols, -, h⟩ := chain_ok_iff.mp h
    obtain ⟨content, -, h⟩ := chain_ok_iff.mp h
    cases h
    refine ⟨rfl, fun name => ?_⟩
    rw [columnNames_addColumns, List.mem_append]
  · rw [if_neg hnew] at h
    exact foldlM_convergeColumn_ok h fun live hlive => List.mem_map_of_mem hlive

/-- The rounds over the indexes make those whose names are free. -/
lemma foldlM_createIndex_ok {nameSpace table physical : String} {indexes : List IndexSpec}
    {state state' : MigrationReport × SchemaDb ρ}
    (h : indexes.foldlM (createIndex engine nameSpace table physical) state = .ok state') :
    state'.2.columns = state.2.columns ∧ state'.2.indexes =
      (indexes.map fun idx => indexEntry (state.2.columns physical)
        (indexName nameSpace table idx.name) physical idx).foldl KeyedTable.insertNew
          state.2.indexes := by
  induction indexes generalizing state with
  | nil =>
    cases h
    exact ⟨rfl, rfl⟩
  | cons idx indexes ih =>
    obtain ⟨mid, hmid, hrest⟩ := foldlM_cons_ok_iff.mp h
    obtain ⟨physIdx, hname, hmid⟩ := chain_ok_iff.mp hmid
    obtain ⟨-, hmid⟩ := then_ok_iff.mp hmid
    obtain ⟨-, hmid⟩ := then_ok_iff.mp hmid
    obtain ⟨content, -, hmid⟩ := chain_ok_iff.mp hmid
    obtain ⟨-, hname⟩ := then_ok_iff.mp hname
    cases hname
    cases hmid
    exact ih hrest

/-- What an accepted table does to the indexes and to its columns. -/
lemma apply_ok {nameSpace : String} {schema : TableSchema} {db : SchemaDb ρ}
    {result : MigrationReport × SchemaDb ρ} (h : apply engine nameSpace schema db = .ok result) :
    (∀ name, name ∈ result.2.columnNames (physicalName nameSpace schema.table) ↔
      name ∈ db.columnNames (physicalName nameSpace schema.table) ∨
        name ∈ schema.columns.map (·.name)) ∧
    result.2.indexes = (schema.indexes.map fun idx =>
      indexEntry (result.2.columns (physicalName nameSpace schema.table))
        (indexName nameSpace schema.table idx.name) (physicalName nameSpace schema.table)
        idx).foldl KeyedTable.insertNew db.indexes := by
  obtain ⟨physical, hphysical, h⟩ := chain_ok_iff.mp h
  obtain ⟨-, h⟩ := then_ok_iff.mp h
  obtain ⟨state, hstate, h⟩ := chain_ok_iff.mp h
  obtain ⟨-, -, rfl⟩ := physicalTableName_eq_ok.mp hphysical
  obtain ⟨hindexes, hnames⟩ := convergeColumns_ok hstate
  obtain ⟨hcolumns, hnew⟩ := foldlM_createIndex_ok h
  refine ⟨fun name => ?_, ?_⟩
  · rw [← hnames]
    unfold SchemaDb.columnNames
    rw [hcolumns]
  · rw [hnew, hindexes, hcolumns]

end Accepted

/-! ## Declared indexes -/

/-- A declared index, with its namespace and its table. -/
structure DeclaredIndex where
  nameSpace : String
  /-- The name that the plugin has for the table. -/
  table : String
  index : IndexSpec

/-- The name of the index in the database. -/
def DeclaredIndex.name (i : DeclaredIndex) : String := indexName i.nameSpace i.table i.index.name

/-- The index as it is declared: on its own table, with its columns and its uniqueness. -/
def DeclaredIndex.entry (i : DeclaredIndex) : IndexEntry :=
  ⟨i.name, physicalName i.nameSpace i.table, i.index.columns.map .column, i.index.unique⟩

/-- The indexes that are declared with a table. -/
def TableSchema.declared (nameSpace : String) (schema : TableSchema) : List DeclaredIndex :=
  schema.indexes.map fun idx => ⟨nameSpace, schema.table, idx⟩

section Fits

variable {ρ : Type}

/-- The index exists as it is declared. -/
def SchemaDb.Stands (db : SchemaDb ρ) (i : DeclaredIndex) : Prop := i.entry ∈ db.indexes.rows

/-- The indexes of a table fit the database that the table is applied to: no name of theirs is that
of another index, and what is not there yet is an index of columns of the table. -/
structure TableFits (db : SchemaDb ρ) (nameSpace : String) (schema : TableSchema) : Prop where
  /-- An index of the database that has the name is the declared one. -/
  free : ∀ i ∈ schema.declared nameSpace, ∀ e ∈ db.indexes.rows,
    foldCase e.name = foldCase i.name → e = i.entry
  /-- Two of the indexes have one name only if they are declared alike. -/
  distinct : ∀ i ∈ schema.declared nameSpace, ∀ j ∈ schema.declared nameSpace,
    foldCase i.name = foldCase j.name → i.entry = j.entry
  /-- An index whose name is free lists columns that the table has or that are declared. -/
  columns : ∀ i ∈ schema.declared nameSpace,
    (∀ e ∈ db.indexes.rows, foldCase e.name ≠ foldCase i.name) → ∀ c ∈ i.index.columns,
      ∃ name, (name ∈ db.columnNames (physicalName nameSpace schema.table) ∨
        name ∈ schema.columns.map (·.name)) ∧ foldCase name = foldCase c

/-- A name in an index is a column if the table has one of that name. -/
lemma indexTerm_eq_column {columns : List (String × String)} {name : String} :
    indexTerm columns name = .column name ↔
      ∃ c ∈ columns.map Prod.fst, foldCase c = foldCase name := by
  have hany : (columns.any fun c => foldCase c.1 == foldCase name) = true ↔
      ∃ c ∈ columns.map Prod.fst, foldCase c = foldCase name := by
    simp only [List.any_eq_true, beq_iff_eq, List.mem_map, exists_exists_and_eq_and]
  unfold indexTerm
  split
  next h => exact iff_of_true rfl (hany.mp h)
  next h => exact iff_of_false nofun fun hc => h (hany.mpr hc)

/-- What `CREATE INDEX` makes is the declared index if the table has its columns. -/
lemma indexEntry_eq_entry {columns : List (String × String)} {i : DeclaredIndex} :
    indexEntry columns i.name (physicalName i.nameSpace i.table) i.index = i.entry ↔
      ∀ c ∈ i.index.columns, ∃ name ∈ columns.map Prod.fst, foldCase name = foldCase c := by
  have hterms : indexEntry columns i.name (physicalName i.nameSpace i.table) i.index = i.entry ↔
      i.index.columns.map (indexTerm columns) = i.index.columns.map .column := by
    constructor
    · exact congrArg IndexEntry.terms
    · intro h
      unfold indexEntry DeclaredIndex.entry
      rw [h]
  rw [hterms, List.map_inj_left]
  exact forall₂_congr fun c _ => indexTerm_eq_column

variable {engine : Engine ρ} {nameSpace : String} {schema : TableSchema} {db : SchemaDb ρ}
  {result : MigrationReport × SchemaDb ρ}

lemma stands_iff {db : SchemaDb ρ} {i : DeclaredIndex} :
    db.Stands i ↔ db.indexes.find (foldCase i.name) = some i.entry :=
  KeyedTable.mem_rows_iff

lemma of_mem_declared {i : DeclaredIndex} (h : i ∈ schema.declared nameSpace) :
    i.nameSpace = nameSpace ∧ i.table = schema.table := by
  obtain ⟨idx, -, rfl⟩ := List.mem_map.mp h
  exact ⟨rfl, rfl⟩

/-- The index of a name after a table is the one before it, or the first that is made. -/
lemma find_apply (h : apply engine nameSpace schema db = .ok result) (k : String) :
    result.2.indexes.find k = (db.indexes.find k).or
      (((schema.declared nameSpace).find? fun i => decide (foldCase i.name = k)).map fun i =>
        indexEntry (result.2.columns (physicalName nameSpace schema.table)) i.name
          (physicalName i.nameSpace i.table) i.index) := by
  obtain ⟨-, hindexes⟩ := apply_ok h
  rw [hindexes, KeyedTable.find_foldl_insertNew, TableSchema.declared, List.find?_map,
    List.find?_map, Option.map_map]
  rfl

lemma find_apply_of_some (h : apply engine nameSpace schema db = .ok result) {k : String}
    {e : IndexEntry} (he : db.indexes.find k = some e) : result.2.indexes.find k = some e := by
  rw [find_apply h, he, Option.some_or]

/-- The name of a declared index is that of an index after the table is applied. -/
lemma exists_find_apply (h : apply engine nameSpace schema db = .ok result) {i : DeclaredIndex}
    (hi : i ∈ schema.declared nameSpace) :
    ∃ e, result.2.indexes.find (foldCase i.name) = some e := by
  rw [find_apply h]
  cases db.indexes.find (foldCase i.name) with
  | some e => exact ⟨e, Option.some_or⟩
  | none =>
    rw [Option.none_or]
    cases hfind : (schema.declared nameSpace).find? fun j =>
        decide (foldCase j.name = foldCase i.name) with
    | some j => exact ⟨_, rfl⟩
    | none => exact absurd (decide_eq_true rfl) (List.find?_eq_none.mp hfind i hi)

/-- An index whose name is free is the first that is declared with the name. -/
lemma exists_first (h : apply engine nameSpace schema db = .ok result) {i : DeclaredIndex}
    (hi : i ∈ schema.declared nameSpace) (hfree : db.indexes.find (foldCase i.name) = none) :
    ∃ j ∈ schema.declared nameSpace, foldCase j.name = foldCase i.name ∧
      result.2.indexes.find (foldCase i.name) =
        some (indexEntry (result.2.columns (physicalName nameSpace schema.table)) j.name
          (physicalName j.nameSpace j.table) j.index) := by
  rw [find_apply h, hfree, Option.none_or]
  cases hfind : (schema.declared nameSpace).find? fun j =>
      decide (foldCase j.name = foldCase i.name) with
  | some j =>
    exact ⟨j, List.mem_of_find?_eq_some hfind, by simpa using List.find?_some hfind, rfl⟩
  | none => exact absurd (decide_eq_true rfl) (List.find?_eq_none.mp hfind i hi)

/-- After a table is applied, its indexes exist as declared if and only if they fit the database
before it. -/
theorem stands_apply_iff (h : apply engine nameSpace schema db = .ok result) :
    (∀ i ∈ schema.declared nameSpace, result.2.Stands i) ↔ TableFits db nameSpace schema := by
  obtain ⟨hnames, -⟩ := apply_ok h
  simp only [stands_iff]
  constructor
  · intro hstands
    refine ⟨?_, ?_, ?_⟩
    · intro i hi e he hname
      have hfind := find_apply_of_some h (KeyedTable.find_eq_some_iff.mpr ⟨he, hname⟩)
      rw [hstands i hi] at hfind
      exact (Option.some.inj hfind).symm
    · intro i hi j hj hname
      have hfind := hstands i hi
      rw [hname, hstands j hj] at hfind
      exact (Option.some.inj hfind).symm
    · intro i hi hfree c hc
      obtain ⟨j, hj, hname, hmade⟩ := exists_first h hi (KeyedTable.find_eq_none_iff.mpr hfree)
      -- the index that is made stands both for the first and for this one
      have hjstands := hstands j hj
      rw [hname, hmade] at hjstands
      rw [hstands i hi] at hmade
      have hcolumns := indexEntry_eq_entry.mp (Option.some.inj hjstands)
      have hsame : i.index.columns.map IndexTerm.column = j.index.columns.map IndexTerm.column := by
        have hentry := (Option.some.inj hmade).trans (Option.some.inj hjstands)
        exact congrArg IndexEntry.terms hentry
      rw [List.map_inj_right fun _ _ heq => IndexTerm.column.inj heq] at hsame
      obtain ⟨name, hname, hfold⟩ := hcolumns c (hsame ▸ hc)
      exact ⟨name, (hnames name).mp hname, hfold⟩
  · intro hfits i hi
    cases hfind : db.indexes.find (foldCase i.name) with
    | some e =>
      obtain ⟨he, hname⟩ := KeyedTable.find_eq_some_iff.mp hfind
      rw [find_apply_of_some h hfind, hfits.free i hi e he hname]
    | none =>
      obtain ⟨j, hj, hname, hmade⟩ := exists_first h hi hfind
      have hentry := hfits.distinct j hj i hi hname
      rw [hmade, ← hentry]
      refine congrArg some (indexEntry_eq_entry.mpr fun c hc => ?_)
      rw [← hname] at hfind
      obtain ⟨name, hmem, hfold⟩ := hfits.columns j hj (KeyedTable.find_eq_none_iff.mp hfind) c hc
      exact ⟨name, (hnames name).mpr hmem, hfold⟩

end Fits

/-! ## Runs of declarations -/

section Runs

variable {ρ : Type}

/-- A call of `apply_decl`. -/
structure Call (ρ : Type) where
  principal : String
  decl : SchemaDecl
  /-- What has become of the rows since the call before. -/
  rows : ρ → ρ

/-- The indexes that a call declares. -/
def Call.declared (call : Call ρ) : List DeclaredIndex :=
  call.decl.tables.flatMap (TableSchema.declared call.decl.nameSpace)

/-- The database that a call starts from. -/
def Call.start (call : Call ρ) (db : SchemaDb ρ) : SchemaDb ρ :=
  { db with content := call.rows db.content }

variable (engine : Engine ρ)

/-- What a table makes of the database. -/
def tableStep (nameSpace : String) (schema : TableSchema) (db : SchemaDb ρ) :
    Except String (SchemaDb ρ) := do
  let (_, db) ← apply engine nameSpace schema db
  .ok db

/-- What a call makes of the database. -/
def callStep (call : Call ρ) (db : SchemaDb ρ) : Except String (SchemaDb ρ) := do
  let (_, db) ← applyDecl engine call.principal call.decl (call.start db)
  .ok db

/-- Calls that are all accepted, one after another. -/
def runCalls : List (Call ρ) → SchemaDb ρ → Except String (SchemaDb ρ) :=
  FirstCome.runSteps (callStep engine)

/-- Each table that a call declares fits the database that it is applied to. -/
def CallFits (call : Call ρ) (db : SchemaDb ρ) : Prop :=
  FirstCome.AlongRun (tableStep engine call.decl.nameSpace)
    (fun schema db => TableFits db call.decl.nameSpace schema) call.decl.tables (call.start db)

/-- In every call of a run, each declared table fits the database that it is applied to. -/
def RunFits : List (Call ρ) → SchemaDb ρ → Prop :=
  FirstCome.AlongRun (callStep engine) (CallFits engine)

variable {engine}

/-- The entry of a declared index, under its name. -/
def IsEntry (declared : List DeclaredIndex) (k : String) (e : IndexEntry) : Prop :=
  ∃ i ∈ declared, k = foldCase i.name ∧ e = i.entry

/-- Tables put their indexes into the database. -/
lemma claims_tableStep (nameSpace : String) :
    FirstCome.Claims (tableStep engine nameSpace) (fun db k => db.indexes.find k)
      (fun schema => IsEntry (schema.declared nameSpace))
      fun schema db => TableFits db nameSpace schema where
  keeps h := by
    obtain ⟨result, hresult, hdb⟩ := chain_ok_iff.mp h
    cases hdb
    exact find_apply_of_some hresult
  takes h := by
    obtain ⟨result, hresult, hdb⟩ := chain_ok_iff.mp h
    cases hdb
    rintro k e ⟨i, hi, rfl, rfl⟩
    exact exists_find_apply hresult hi
  stands_iff h := by
    obtain ⟨result, hresult, hdb⟩ := chain_ok_iff.mp h
    cases hdb
    rw [← stands_apply_iff hresult]
    simp only [stands_iff]
    constructor
    · exact fun hstands i hi => hstands _ _ ⟨i, hi, rfl, rfl⟩
    · rintro hstands k e ⟨i, hi, rfl, rfl⟩
      exact hstands i hi

/-- The loop over the tables is a run of its rounds. -/
lemma runSteps_of_applyTables {nameSpace : String} {tables : List TableSchema} {db : SchemaDb ρ}
    {result : List MigrationReport × SchemaDb ρ}
    (h : applyTables engine nameSpace tables db = .ok result) :
    FirstCome.runSteps (tableStep engine nameSpace) tables db = .ok result.2 := by
  induction tables generalizing db result with
  | nil =>
    cases h
    rfl
  | cons table tables ih =>
    obtain ⟨first, hfirst, h⟩ := chain_ok_iff.mp h
    obtain ⟨rest, hrest, h⟩ := chain_ok_iff.mp h
    cases h
    have hlater := ih hrest
    exact FirstCome.runSteps_cons.mpr ⟨first.2, chain_ok_iff.mpr ⟨first, hfirst, rfl⟩, hlater⟩

/-- An accepted call is a run over its tables, and its namespace is the id of a plugin if there are
any. -/
lemma callStep_ok {call : Call ρ} {db db' : SchemaDb ρ} (h : callStep engine call db = .ok db') :
    FirstCome.runSteps (tableStep engine call.decl.nameSpace) call.decl.tables (call.start db) =
      .ok db' ∧ (call.decl.tables ≠ [] → isValidPluginId call.decl.nameSpace = true) := by
  obtain ⟨result, hresult, hdb⟩ := chain_ok_iff.mp h
  cases hdb
  unfold applyDecl at hresult
  by_cases hempty : call.decl.tables.isEmpty = true
  · rw [if_pos hempty] at hresult
    cases hresult
    rw [List.isEmpty_iff] at hempty
    rw [hempty]
    exact ⟨rfl, fun hne => absurd rfl hne⟩
  · rw [if_neg hempty] at hresult
    obtain ⟨-, hresult⟩ := then_ok_iff.mp hresult
    obtain ⟨hvalid, hresult⟩ := then_ok_iff.mp hresult
    obtain ⟨hsame, hresult⟩ := then_ok_iff.mp hresult
    rw [ensure_eq_ok, beq_iff_eq] at hsame
    refine ⟨runSteps_of_applyTables hresult, fun _ => ?_⟩
    rw [hsame]
    exact ensure_eq_ok.mp hvalid

/-- Calls put the indexes that they declare into the database. -/
lemma claims_callStep : FirstCome.Claims (callStep engine) (fun db k => db.indexes.find k)
    (fun call => IsEntry call.declared) (CallFits engine) where
  keeps {call _ _} h := (claims_tableStep call.decl.nameSpace).run.keeps (callStep_ok h).1
  takes {call _ _} h := by
    rintro k e ⟨i, hi, hk, he⟩
    obtain ⟨schema, hschema, hi⟩ := List.mem_flatMap.mp hi
    exact (claims_tableStep call.decl.nameSpace).run.takes (callStep_ok h).1
      ⟨schema, hschema, i, hi, hk, he⟩
  stands_iff {call _ _} h := by
    refine Iff.trans ?_ ((claims_tableStep call.decl.nameSpace).run.stands_iff (callStep_ok h).1)
    refine forall₂_congr fun k e => imp_congr ?_ Iff.rfl
    constructor
    · rintro ⟨i, hi, hk, he⟩
      obtain ⟨schema, hschema, hi⟩ := List.mem_flatMap.mp hi
      exact ⟨schema, hschema, i, hi, hk, he⟩
    · rintro ⟨schema, hschema, i, hi, hk, he⟩
      exact ⟨i, List.mem_flatMap.mpr ⟨schema, hschema, hi⟩, hk, he⟩

end Runs

/-! ## Names of indexes -/

/-- A text between underscores is determined by what is put together, but for an underscore that can
stand on either side of the separator. -/
lemma separator_eq_iff {t t' i i' : List Char} (ht : hasDoubleUnderscore t = false)
    (ht' : hasDoubleUnderscore t' = false) :
    t ++ '_' :: '_' :: i = t' ++ '_' :: '_' :: i' ↔ t = t' ∧ i = i' ∨
      t' = t ++ ['_'] ∧ i = '_' :: i' ∨ t = t' ++ ['_'] ∧ i' = '_' :: i := by
  have hshift : ∀ {t r i i' : List Char}, hasDoubleUnderscore (t ++ r) = false →
      '_' :: '_' :: i = r ++ '_' :: '_' :: i' → r = [] ∧ i = i' ∨ r = ['_'] ∧ i = '_' :: i' := by
    intro t r i i' hdouble h
    rw [← Bool.not_eq_true, hasDoubleUnderscore_iff] at hdouble
    cases r with
    | nil => exact Or.inl ⟨rfl, (List.cons.inj (List.cons.inj h).2).2⟩
    | cons c r =>
      obtain ⟨hc, hrest⟩ := List.cons.inj h
      cases r with
      | nil => exact Or.inr ⟨by rw [hc], (List.cons.inj hrest).2⟩
      | cons d r =>
        obtain ⟨hd, -⟩ := List.cons.inj hrest
        rw [← hc, ← hd] at hdouble
        exact absurd ⟨t, r, by simp⟩ hdouble
  constructor
  · intro h
    rcases List.append_eq_append_iff.mp h with ⟨r, rfl, hr⟩ | ⟨r, rfl, hr⟩
    · rcases hshift ht' hr with ⟨rfl, hi⟩ | ⟨rfl, hi⟩
      · exact Or.inl ⟨(List.append_nil _).symm, hi⟩
      · exact Or.inr (Or.inl ⟨rfl, hi⟩)
    · rcases hshift ht hr with ⟨rfl, hi⟩ | ⟨rfl, hi⟩
      · exact Or.inl ⟨List.append_nil _, hi.symm⟩
      · exact Or.inr (Or.inr ⟨rfl, hi⟩)
  · rintro (⟨rfl, rfl⟩ | ⟨rfl, rfl⟩ | ⟨rfl, rfl⟩)
    · rfl
    · rw [List.append_assoc]
      rfl
    · rw [List.append_assoc]
      rfl

lemma toList_indexName (nameSpace table index : String) : (indexName nameSpace table index).toList =
    "plug__".toList ++ (nameSpace.toList ++ '_' :: '_' ::
      (table.toList ++ '_' :: '_' :: index.toList)) := by
  unfold indexName
  simp only [String.toList_append, List.append_assoc]
  rfl

lemma hasDoubleUnderscore_of_segment {kind s : String} (h : validateSegment kind s = .ok ()) :
    hasDoubleUnderscore s.toList = false := by
  obtain ⟨-, h⟩ := then_ok_iff.mp h
  rw [ensure_eq_ok, Bool.not_eq_true'] at h
  exact h

/-- Two indexes have one name in the database if they have the same namespace and are the same index
of the same table, or if an underscore has moved between the table and the index. -/
theorem indexName_eq_iff {p q t t' i i' : String} (hp : isValidPluginId p = true)
    (hq : isValidPluginId q = true) (ht : validateSegment "table" t = .ok ())
    (ht' : validateSegment "table" t' = .ok ()) :
    indexName p t i = indexName q t' i' ↔ p = q ∧ (t = t' ∧ i = i' ∨
      t' = t ++ "_" ∧ i = "_" ++ i' ∨ t = t' ++ "_" ∧ i' = "_" ++ i) := by
  have hstop : ∀ (r : List Char), ∀ c ∈ ('_' :: r).head?, (c != '_') = false := by
    rintro r c hc
    obtain rfl : '_' = c := Option.some.inj hc
    rfl
  have hword {p : String} (hp : isValidPluginId p = true) (r : List Char) :
      (p.toList ++ '_' :: r).takeWhile (· != '_') = p.toList :=
    Words.takeWhile_append_stop
      (fun c hc => bne_iff_ne.mpr fun heq => underscore_notMem hp (heq ▸ hc)) (hstop r)
  have hsplit : indexName p t i = indexName q t' i' ↔ p = q ∧
      t.toList ++ '_' :: '_' :: i.toList = t'.toList ++ '_' :: '_' :: i'.toList := by
    rw [← String.toList_inj, toList_indexName, toList_indexName, List.append_cancel_left_eq]
    constructor
    · intro h
      have hpq : p = q := by
        rw [← String.toList_inj, ← hword hp, h, hword hq]
      subst hpq
      have htail := List.append_cancel_left h
      exact ⟨rfl, (List.cons.inj (List.cons.inj htail).2).2⟩
    · rintro ⟨rfl, htail⟩
      rw [htail]
  rw [hsplit, separator_eq_iff (hasDoubleUnderscore_of_segment ht)
    (hasDoubleUnderscore_of_segment ht')]
  refine and_congr_right fun _ => or_congr ?_ (or_congr ?_ ?_)
  · rw [String.toList_inj, String.toList_inj]
  · rw [← String.toList_inj, ← String.toList_inj, String.toList_append, String.toList_append]
    rfl
  · rw [← String.toList_inj, ← String.toList_inj, String.toList_append, String.toList_append]
    rfl

/-- The index `_b` of the table `a` has the name of the index `b` of the table `a_`. -/
theorem indexName_eq_of_moved_underscore :
    indexName "acme" "a" "_b" = indexName "acme" "a_" "b" :=
  (indexName_eq_iff (by decide) (by decide) rfl rfl).mpr ⟨rfl, Or.inr (Or.inl ⟨rfl, rfl⟩)⟩

/-- Declared indexes that are the same index of the database are the same declaration. -/
lemma entry_injective {i j : DeclaredIndex} (hi : isValidPluginId i.nameSpace = true)
    (hj : isValidPluginId j.nameSpace = true) (h : i.entry = j.entry) : i = j := by
  have hname : i.name = j.name := congrArg IndexEntry.name h
  have htable := congrArg IndexEntry.table h
  have hterms : i.index.columns.map IndexTerm.column = j.index.columns.map IndexTerm.column :=
    congrArg IndexEntry.terms h
  have hunique : i.index.unique = j.index.unique := congrArg IndexEntry.unique h
  rw [List.map_inj_right fun _ _ heq => IndexTerm.column.inj heq] at hterms
  obtain ⟨nameSpace, table, name, columns, unique⟩ := i
  obtain ⟨nameSpace', table', name', columns', unique'⟩ := j
  obtain ⟨rfl, rfl⟩ := physicalName_injective hi hj htable
  obtain rfl : columns = columns' := hterms
  obtain rfl : unique = unique' := hunique
  have hchars := congrArg String.toList hname
  unfold DeclaredIndex.name at hchars
  rw [toList_indexName, toList_indexName] at hchars
  have hindex := List.append_cancel_left hchars
  have htail := List.append_cancel_left hindex
  have hlast := List.append_cancel_left (List.cons.inj (List.cons.inj htail).2).2
  obtain rfl : name = name' :=
    String.toList_inj.mp (List.cons.inj (List.cons.inj hlast).2).2
  rfl

/-- The namespace of a declared index is the id of a plugin, if its call is accepted. -/
lemma nameSpace_valid {ρ : Type} {engine : Engine ρ} {calls : List (Call ρ)} {db db' : SchemaDb ρ}
    (h : runCalls engine calls db = .ok db') {call : Call ρ} (hcall : call ∈ calls)
    {i : DeclaredIndex} (hi : i ∈ call.declared) : isValidPluginId i.nameSpace = true := by
  induction calls generalizing db with
  | nil => cases hcall
  | cons first calls ih =>
    obtain ⟨mid, hmid, hrest⟩ := FirstCome.runSteps_cons.mp h
    rcases List.mem_cons.mp hcall with rfl | hcall
    · obtain ⟨schema, hschema, hi⟩ := List.mem_flatMap.mp hi
      rw [(of_mem_declared hi).1]
      exact (callStep_ok hmid).2 (List.ne_nil_of_mem hschema)
    · exact ih hrest hcall

/-- Every declared index exists, exactly where names do not clash.  After a run of accepted
declarations, from any database, each declared index exists on its own table with its columns and
its uniqueness, and different declared indexes are different indexes, if and only if each table fits
the database that it is applied to (`TableFits`). -/
theorem declared_indexes_exist_iff {ρ : Type} {engine : Engine ρ} {calls : List (Call ρ)}
    {db db' : SchemaDb ρ} (h : runCalls engine calls db = .ok db') :
    ((∀ call ∈ calls, ∀ i ∈ call.declared, db'.Stands i) ∧
      ∀ c ∈ calls, ∀ i ∈ c.declared, ∀ c' ∈ calls, ∀ j ∈ c'.declared,
        i ≠ j → i.entry ≠ j.entry) ↔
      RunFits engine calls db := by
  have hdistinct : ∀ c ∈ calls, ∀ i ∈ c.declared, ∀ c' ∈ calls, ∀ j ∈ c'.declared,
      i ≠ j → i.entry ≠ j.entry := fun c hc i hi c' hc' j hj hne hentry =>
    hne (entry_injective (nameSpace_valid h hc hi) (nameSpace_valid h hc' hj) hentry)
  rw [and_iff_left hdistinct, RunFits, ← claims_callStep.run.stands_iff h]
  simp only [stands_iff]
  constructor
  · rintro hstands k e ⟨call, hcall, i, hi, rfl, rfl⟩
    exact hstands call hcall i hi
  · exact fun hstands call hcall i hi => hstands _ _ ⟨call, hcall, i, hi, rfl, rfl⟩

/-- A column of texts. -/
def idColumn : ColumnSpec := ⟨⟨"id", true, true, false⟩, "TEXT", none⟩

/-- An engine that refuses nothing. -/
def plainEngine : Engine Unit := fun _ _ => .ok ()

/-- A database without tables. -/
def emptySchemaDb : SchemaDb Unit := ⟨fun _ => [], .empty, ()⟩

/-- A plugin declares a table `a` with an index `_b`, and a table `a_` with a unique index `b`. -/
def clashingCall : Call Unit where
  principal := "acme"
  decl := ⟨"acme", [⟨"a", [idColumn], [⟨"_b", ["id"], false⟩]⟩,
    ⟨"a_", [idColumn], [⟨"b", ["id"], true⟩]⟩]⟩
  rows := id

/-- A plugin declares a table with a unique index. -/
def plainCall : Call Unit where
  principal := "acme"
  decl := ⟨"acme", [⟨"a", [idColumn], [⟨"b", ["id"], true⟩]⟩]⟩
  rows := id

lemma exists_ok {ε α : Type} {x : Except ε α} (h : x.toBool = true) : ∃ a, x = .ok a := by
  cases x with
  | ok a => exact ⟨a, rfl⟩
  | error e => exact absurd h Bool.false_ne_true

/-- The declaration is accepted, and its two indexes do not both exist. -/
theorem clashing_index_is_lost :
    ∃ db', runCalls plainEngine [clashingCall] emptySchemaDb = .ok db' ∧
      ¬∀ call ∈ [clashingCall], ∀ i ∈ call.declared, db'.Stands i := by
  have hok : (runCalls plainEngine [clashingCall] emptySchemaDb).toBool = true := by decide
  obtain ⟨db', hdb'⟩ := exists_ok hok
  refine ⟨db', hdb', fun hstands => ?_⟩
  have hdeclared := hstands clashingCall List.mem_cons_self
  have hfirst := hdeclared ⟨"acme", "a", ⟨"_b", ["id"], false⟩⟩ List.mem_cons_self
  have hsecond := hdeclared ⟨"acme", "a_", ⟨"b", ["id"], true⟩⟩
    (List.mem_cons_of_mem _ List.mem_cons_self)
  -- the names are the same, so that the two would be one index
  have hentry := db'.indexes.eq_of_key hfirst hsecond (by decide)
  exact absurd (congrArg IndexEntry.unique hentry) (by decide)

/-- A declaration whose names do not clash is accepted, and its index exists. -/
theorem plain_index_exists :
    ∃ db', runCalls plainEngine [plainCall] emptySchemaDb = .ok db' ∧
      ∀ call ∈ [plainCall], ∀ i ∈ call.declared, db'.Stands i := by
  have hok : (runCalls plainEngine [plainCall] emptySchemaDb).toBool = true := by decide
  obtain ⟨db', hdb'⟩ := exists_ok hok
  have hfits : TableFits (plainCall.start emptySchemaDb) "acme"
      ⟨"a", [idColumn], [⟨"b", ["id"], true⟩]⟩ := by
    refine ⟨fun i _ e he => absurd he List.not_mem_nil, ?_, ?_⟩
    · intro i hi j hj _
      rw [List.mem_singleton.mp hi, List.mem_singleton.mp hj]
    · intro i hi _ c hc
      obtain rfl := List.mem_singleton.mp hi
      obtain rfl := List.mem_singleton.mp hc
      exact ⟨"id", Or.inr List.mem_cons_self, rfl⟩
  have hrun : RunFits plainEngine [plainCall] emptySchemaDb :=
    ⟨⟨hfits, fun _ _ => trivial⟩, fun _ _ => trivial⟩
  exact ⟨db', hdb', ((declared_indexes_exist_iff hdb').mpr hrun).1⟩

end Orca.Plugins
