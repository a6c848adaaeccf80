import Orca.Library.Evolution
import Orca.Secrets.ColumnMigration

/-!
# The dry run of a migration

With `dry_run` the migration of secret columns goes through the same loops and writes nothing, so it
should report what the real run does.  `findings` is what the secret columns find in the tables, one
column after the other: in a dry run in the tables as they are, in a real one in the tables as the
columns before left them.  A call succeeds if and only if the declaration is admitted, what is found
passes, and in a real run each new name is valid and each update is accepted (`call_ok_iff`).

A dry run meets neither the rules for names nor its own writes.  The writes make no difference where
no column disturbs another (`Undisturbed`): then the columns find the same in both runs
(`findings_eq`), and afterwards only the rows that were skipped (`findings_finalTables`).
-/

namespace Orca.Secrets

open Check

/-! ## The database -/

/-- The tables of the plugin. -/
abbrev Tables := String → List Row

/-- What the database refuses: a read in the same way in every run, an update by the tables that it
is run on, and no write of a secret. -/
structure Refusals where
  reads : Statement → Option String
  updates : Tables → Statement → Option String

/-- The statements that fail. -/
def Refusals.fails (h : Refusals) : SqlFaults
  | _, .upsert _ => none
  | _, .write _ => none
  | db, .update table key column inst => h.updates db.tables (.update table key column inst)
  | _, statement => h.reads statement

/-- The host may write all secrets. -/
def SecretStore.MayWriteAll (s : SecretStore) : Prop := s.tier.all (fun t => t == 1) = true

/-! ## What is found -/

/-- The tables after the update of one row. -/
def rowTables (dryRun : Bool) (p : SecretColumn) (row : String × String) (tables : Tables) :
    Tables :=
  if !dryRun && validInstance row.1 then
    Function.update tables p.table ((tables p.table).map (p.clear row.1))
  else tables

/-- The tables after the updates of a column. -/
def columnTables (dryRun : Bool) (p : SecretColumn) (rows : List (String × String))
    (tables : Tables) : Tables :=
  rows.foldl (fun tables row => rowTables dryRun p row tables) tables

/-- A column with the keys and the values that it finds. -/
abbrev Finding := SecretColumn × List (String × String)

/-- What the columns find, one after the other. -/
def findings (dryRun : Bool) : List SecretColumn → Tables → Except String (List Finding)
  | [], _ => .ok []
  | p :: ps, tables => do
    let rows ← p.select (tables p.table)
    let rest ← findings dryRun ps (columnTables dryRun p rows tables)
    .ok ((p, rows) :: rest)

/-- The tables after all columns. -/
def finalTables (dryRun : Bool) (found : List Finding) (tables : Tables) : Tables :=
  found.foldl (fun tables f => columnTables dryRun f.1 f.2 tables) tables

/-- The names of the rows of a column that make one. -/
def rowNames (p : SecretColumn) (rows : List (String × String)) : List String :=
  (p.takings rows).map Prod.fst

/-- The number of the rows of a column that make no name. -/
def rowsSkipped (rows : List (String × String)) : ℕ := rows.countP fun row => !validInstance row.1

/-- The names that are found. -/
def namesFound (found : List Finding) : List String := found.flatMap fun f => rowNames f.1 f.2

/-- The number of the rows that are skipped. -/
def skippedFound (found : List Finding) : ℕ := (found.map fun f => rowsSkipped f.2).sum

/-- A report with more names and more rows that were skipped. -/
def SecretColumnMigration.add (r : SecretColumnMigration) (store : SecretStore)
    (names : List String) (skipped : ℕ) : SecretColumnMigration where
  moved := r.moved + names.countP fun n => (store.secrets n).isNone
  alreadyStored := r.alreadyStored + names.countP fun n => (store.secrets n).isSome
  skipped := r.skipped + skipped
  names := r.names ++ names

/-- The report on what is found. -/
def reportOf (store : SecretStore) (found : List Finding) : SecretColumnMigration :=
  SecretColumnMigration.add ⟨0, 0, 0, []⟩ store (namesFound found) (skippedFound found)

/-! ## What is accepted -/

/-- The names differ from each other and from those before, their records can be read, and in a real
run the new ones are valid. -/
def Passes (h : Refusals) (dryRun : Bool) (store : SecretStore) (seen names : List String) : Prop :=
  names.Nodup ∧ ∀ n ∈ names, n ∉ seen ∧ h.reads (.get n) = none ∧
    (dryRun = false → store.secrets n = none → ValidName n)

/-- The update of a row is accepted, if there is one. -/
def RowAccepted (h : Refusals) (dryRun : Bool) (p : SecretColumn) (row : String × String)
    (tables : Tables) : Prop :=
  dryRun = false → validInstance row.1 = true →
    h.updates tables (.update p.table p.key p.column row.1) = none

/-- The updates of a column are accepted, one after the other. -/
def RowsAccepted (h : Refusals) (dryRun : Bool) (p : SecretColumn) :
    List (String × String) → Tables → Prop
  | [], _ => True
  | row :: rows, tables =>
    RowAccepted h dryRun p row tables ∧
      RowsAccepted h dryRun p rows (rowTables dryRun p row tables)

/-- The updates of all columns are accepted, one after the other. -/
def Accepted (h : Refusals) (dryRun : Bool) : List Finding → Tables → Prop
  | [], _ => True
  | (p, rows) :: found, tables =>
    RowsAccepted h dryRun p rows tables ∧
      Accepted h dryRun found (columnTables dryRun p rows tables)

/-- A table has no secret columns, or a primary key and names that are valid. -/
def TableDef.Checked (nameSpace : String) (t : TableDef) : Prop :=
  t.columns.filter ColumnDef.secret = [] ∨
    ∃ pk, t.columns.find? ColumnDef.primaryKey = some pk ∧ validateIdent "column" pk.name = .ok () ∧
      ∃ physical, physicalTableName nameSpace t.table = .ok physical

/-- The column has a valid name and can be read. -/
def ColumnAdmitted (h : Refusals) (p : SecretColumn) : Prop :=
  validateIdent "column" p.column = .ok () ∧ h.reads (.select p.table p.key p.column) = none

/-- The declaration has no secret columns, or is one of the plugin with valid names, and the
database can be read. -/
def Admitted (h : Refusals) (principal : String) (decl : SchemaDecl) : Prop :=
  decl.tables.any (fun t => t.columns.any ColumnDef.secret) = false ∨
    (decl.nameSpace = principal ∧ h.reads .start = none ∧ h.reads .commit = none ∧
      (∀ t ∈ decl.tables, t.Checked decl.nameSpace) ∧
      ∀ p ∈ decl.secretColumns, ColumnAdmitted h p)

/-- A call finds something, and this passes and is accepted. -/
structure Goes (h : Refusals) (dryRun : Bool) (db : PluginDb) (decl : SchemaDecl)
    (found : List Finding) : Prop where
  found_eq : findings dryRun decl.secretColumns db.tables = .ok found
  passes : Passes h dryRun db.store [] (namesFound found)
  accepted : Accepted h dryRun found db.tables

/-! ## Rounds -/

/-- What a part of a migration does. -/
structure Ran (s s' : Migration) (names : List String) (skipped : ℕ) (tables : Tables) : Prop where
  tables_eq : s'.db.tables = tables
  seen : ∀ n, n ∈ s'.seen ↔ n ∈ names ∨ n ∈ s.seen
  report : s'.report = s.report.add s.db.store names skipped
  records : ∀ n, n ∉ names → s'.db.store.secrets n = s.db.store.secrets n
  tier : s'.db.store.tier = s.db.store.tier

section Parts

variable {h : Refusals} {now : String} {dryRun : Bool} {p : SecretColumn} {s mid s' : Migration}
  {a b : List String} {k l : ℕ} {tables tables' : Tables}

/-- One part after the other passes. -/
lemma passes_append (hran : Ran s mid a k tables) :
    Passes h dryRun s.db.store s.seen (a ++ b) ↔
      Passes h dryRun s.db.store s.seen a ∧ Passes h dryRun mid.db.store mid.seen b := by
  unfold Passes
  rw [List.nodup_append, List.forall_mem_append]
  constructor
  · rintro ⟨⟨ha, hb, hapart⟩, hfirst, hrest⟩
    refine ⟨⟨ha, hfirst⟩, hb, fun n hn => ?_⟩
    have hnot : n ∉ a := fun hmem => hapart n hmem n hn rfl
    obtain ⟨hseen, hread, hvalid⟩ := hrest n hn
    rw [hran.seen, hran.records n hnot]
    exact ⟨not_or.mpr ⟨hnot, hseen⟩, hread, hvalid⟩
  · rintro ⟨⟨ha, hfirst⟩, hb, hrest⟩
    have hnot : ∀ n ∈ b, n ∉ a ∧ n ∉ s.seen := fun n hn =>
      not_or.mp fun hmem => (hrest n hn).1 ((hran.seen n).mpr hmem)
    refine ⟨⟨ha, hb, fun n hn m hm heq => (hnot m hm).1 (heq ▸ hn)⟩, hfirst, fun n hn => ?_⟩
    obtain ⟨-, hread, hvalid⟩ := hrest n hn
    rw [hran.records n (hnot n hn).1] at hvalid
    exact ⟨(hnot n hn).2, hread, hvalid⟩

lemma Ran.refl (s : Migration) : Ran s s [] 0 s.db.tables where
  tables_eq := rfl
  seen := by simp
  report := by simp [SecretColumnMigration.add]
  records := fun _ _ => rfl
  tier := rfl

/-- One part after the other. -/
lemma Ran.trans (hran : Ran s mid a k tables) (hran' : Ran mid s' b l tables')
    (hpasses : Passes h dryRun mid.db.store mid.seen b) : Ran s s' (a ++ b) (k + l) tables' := by
  have hcount : ∀ q : Option SecretRecord → Bool,
      b.countP (fun n => q (mid.db.store.secrets n)) =
        b.countP fun n => q (s.db.store.secrets n) := by
    intro q
    refine List.countP_congr fun n hn => ?_
    rw [hran.records n fun hmem => (hpasses.2 n hn).1 ((hran.seen n).mpr (Or.inl hmem))]
  refine ⟨hran'.tables_eq, fun n => ?_, ?_, fun n hn => ?_, hran'.tier.trans hran.tier⟩
  · rw [hran'.seen, hran.seen, List.mem_append]
    tauto
  · rw [hran'.report, hran.report]
    simp only [SecretColumnMigration.add, hcount Option.isNone, hcount Option.isSome,
      List.countP_append, List.append_assoc, Nat.add_assoc]
  · rw [List.mem_append, not_or] at hn
    rw [hran'.records n hn.2, hran.records n hn.1]

lemma Ran.mayWriteAll (hran : Ran s s' a k tables) (hwrite : s.db.store.MayWriteAll) :
    s'.db.store.MayWriteAll := by
  unfold SecretStore.MayWriteAll
  rw [hran.tier]
  exact hwrite

/-- A part of a migration succeeds if and only if its names pass and its updates are accepted, and
what it does then. -/
structure Round (h : Refusals) (dryRun : Bool) (result : Except String Migration) (s : Migration)
    (names : List String) (skipped : ℕ) (tables : Tables) (accepted : Prop) : Prop where
  isOk : (∃ s', result = .ok s') ↔ Passes h dryRun s.db.store s.seen names ∧ accepted
  ran : ∀ s', result = .ok s' → Ran s s' names skipped tables

lemma Round.refl (s : Migration) : Round h dryRun (.ok s) s [] 0 s.db.tables True where
  isOk := iff_of_true ⟨s, rfl⟩ ⟨⟨List.nodup_nil, by simp⟩, trivial⟩
  ran := by
    rintro s' ⟨⟩
    exact Ran.refl s

/-- One part and then another. -/
lemma Round.trans {result : Except String Migration} {rest : Migration → Except String Migration}
    {accepted accepted' : Prop} (hfirst : Round h dryRun result s a k tables accepted)
    (hrest : ∀ mid, Ran s mid a k tables → Round h dryRun (rest mid) mid b l tables' accepted') :
    Round h dryRun (result >>= rest) s (a ++ b) (k + l) tables' (accepted ∧ accepted') := by
  constructor
  · constructor
    · rintro ⟨s', hs'⟩
      obtain ⟨mid, hmid, hs'⟩ := chain_ok_iff.mp hs'
      have hran := hfirst.ran mid hmid
      obtain ⟨hpasses, haccepted⟩ := hfirst.isOk.mp ⟨mid, hmid⟩
      obtain ⟨hpasses', haccepted'⟩ := (hrest mid hran).isOk.mp ⟨s', hs'⟩
      exact ⟨(passes_append hran).mpr ⟨hpasses, hpasses'⟩, haccepted, haccepted'⟩
    · rintro ⟨hpasses, haccepted, haccepted'⟩
      obtain ⟨mid, hmid⟩ := hfirst.isOk.mpr ⟨⟨(List.nodup_append.mp hpasses.1).1, fun n hn =>
        hpasses.2 n (List.mem_append_left b hn)⟩, haccepted⟩
      have hran := hfirst.ran mid hmid
      obtain ⟨s', hs'⟩ :=
        (hrest mid hran).isOk.mpr ⟨((passes_append hran).mp hpasses).2, haccepted'⟩
      exact ⟨s', chain_ok_iff.mpr ⟨mid, hmid, hs'⟩⟩
  · intro s' hs'
    obtain ⟨mid, hmid, hs'⟩ := chain_ok_iff.mp hs'
    have hran := hfirst.ran mid hmid
    have hpasses := (hrest mid hran).isOk.mp ⟨s', hs'⟩
    exact hran.trans ((hrest mid hran).ran s' hs') hpasses.1

/-! ## Rows -/

/-- A statement that is not refused. -/
@[simp] lemma attempt_eq_ok {fails : SqlFaults} {db : PluginDb} {statement : Statement} :
    attempt fails db statement = .ok () ↔ fails db statement = none := by
  unfold attempt
  cases fails db statement <;> simp

lemma rowNames_cons (p : SecretColumn) (row : String × String) (rows : List (String × String)) :
    rowNames p (row :: rows) = rowNames p [row] ++ rowNames p rows := by
  unfold rowNames SecretColumn.takings
  rw [← List.map_append, ← List.map_append, ← List.filter_append, List.singleton_append]

/-- A host that may write all secrets stores each value with a valid name. -/
lemma storeValue_isOk {db : PluginDb} {name value : String} (hwrite : db.store.MayWriteAll) :
    (∃ store, storeValue h.fails now db name value = .ok store) ↔ ValidName name := by
  constructor
  · rintro ⟨store, hstore⟩
    exact (storeValue_spec hstore).1
  · intro hvalid
    have hallowed : ∀ store : SecretStore, store.tier = db.store.tier →
        ensureWriteAllowed store name = .ok () := by
      intro store htier
      unfold ensureWriteAllowed
      rw [ensure_eq_ok, htier, show db.store.tier.all (fun t => t == 1) = true from hwrite]
      rfl
    have hupsert : ∃ made, upsert db.store name "inline" "" none now = .ok made := by
      unfold upsert
      rw [hallowed _ rfl, show ensureValidName name = .ok () from hvalid]
      exact ⟨_, rfl⟩
    obtain ⟨⟨created, row⟩, hrow⟩ := hupsert
    have hwritten : ∃ store, writeInlineValue row name value = .ok store := by
      unfold writeInlineValue
      rw [hallowed row (touches_upsert hrow).tier]
      exact ⟨_, rfl⟩
    obtain ⟨store, hstore⟩ := hwritten
    refine ⟨store, ?_⟩
    refine then_ok_iff.mpr ⟨rfl, chain_ok_iff.mpr ⟨_, hrow, ?_⟩⟩
    exact then_ok_iff.mpr ⟨rfl, hstore⟩

/-- What the writes for a row do. -/
lemma moveValue_touches {db db' : PluginDb} {inst value : String}
    (hmove : moveValue h.fails now p db inst value = .ok db') :
    db'.tables = Function.update db.tables p.table ((db.tables p.table).map (p.clear inst)) ∧
      Touches (p.secretName inst) db.store db'.store := by
  obtain ⟨store, hstore, hmove⟩ := chain_ok_iff.mp hmove
  obtain ⟨-, hmove⟩ := then_ok_iff.mp hmove
  cases hmove
  refine ⟨rfl, ?_⟩
  by_cases hrecord : (db.store.secrets (p.secretName inst)).isSome = true
  · rw [if_pos hrecord] at hstore
    cases hstore
    exact Touches.refl _ _
  · rw [if_neg hrecord] at hstore
    exact (storeValue_spec hstore).2.1

/-- The writes for a row succeed if a new name is valid and the update is accepted. -/
lemma moveValue_isOk {db : PluginDb} {inst value : String} (hwrite : db.store.MayWriteAll) :
    (∃ db', moveValue h.fails now p db inst value = .ok db') ↔
      (db.store.secrets (p.secretName inst) = none → ValidName (p.secretName inst)) ∧
        h.updates db.tables (.update p.table p.key p.column inst) = none := by
  constructor
  · rintro ⟨db', hmove⟩
    obtain ⟨store, hstore, hmove⟩ := chain_ok_iff.mp hmove
    obtain ⟨hupdate, -⟩ := then_ok_iff.mp hmove
    refine ⟨fun hnone => ?_, attempt_eq_ok.mp hupdate⟩
    rw [hnone] at hstore
    exact (storeValue_spec hstore).1
  · rintro ⟨hvalid, hupdate⟩
    have hstore : ∃ store, (if (db.store.secrets (p.secretName inst)).isSome then .ok db.store
        else storeValue h.fails now db (p.secretName inst) value) = .ok store := by
      cases hrecord : db.store.secrets (p.secretName inst) with
      | some r => exact ⟨_, rfl⟩
      | none => exact (storeValue_isOk hwrite).mpr (hvalid hrecord)
    obtain ⟨store, hstore⟩ := hstore
    exact ⟨_, chain_ok_iff.mpr ⟨store, hstore, then_ok_iff.mpr ⟨attempt_eq_ok.mpr hupdate, rfl⟩⟩⟩

lemma rowNames_singleton (p : SecretColumn) (row : String × String) :
    rowNames p [row] = if validInstance row.1 then [p.secretName row.1] else [] := by
  unfold rowNames SecretColumn.takings
  cases hvalid : validInstance row.1 <;> simp [hvalid]

/-- What the round for a row does. -/
lemma migrateInstance_ran {row : String × String}
    (hround : migrateInstance h.fails now dryRun p s row = .ok s') :
    Ran s s' (rowNames p [row]) (rowsSkipped [row]) (rowTables dryRun p row s.db.tables) := by
  rw [rowNames_singleton]
  unfold migrateInstance at hround
  unfold rowTables rowsSkipped
  cases hvalid : validInstance row.1 with
  | false =>
    rw [hvalid, if_neg Bool.false_ne_true] at hround
    cases hround
    exact ⟨by simp, by simp, by simp [SecretColumnMigration.add, hvalid], fun _ _ => rfl, rfl⟩
  | true =>
    rw [hvalid, if_pos rfl] at hround
    obtain ⟨-, hround⟩ := then_ok_iff.mp hround
    obtain ⟨-, hround⟩ := then_ok_iff.mp hround
    obtain ⟨db, hdb, hround⟩ := chain_ok_iff.mp hround
    cases hround
    have htouches : Touches (p.secretName row.1) s.db.store db.store := by
      cases dryRun with
      | true =>
        cases hdb
        exact Touches.refl _ _
      | false => exact (moveValue_touches hdb).2
    refine ⟨?_, by simp, ?_, fun n hn => htouches.secrets n (by simpa using hn), htouches.tier⟩
    · cases dryRun with
      | true =>
        cases hdb
        rfl
      | false => exact (moveValue_touches hdb).1
    · cases hrecord : s.db.store.secrets (p.secretName row.1) <;>
        simp [SecretColumnMigration.add, SecretColumnMigration.count, hrecord, hvalid]

/-- The round for a row succeeds if its name passes and its update is accepted. -/
lemma migrateInstance_isOk {row : String × String} (hwrite : s.db.store.MayWriteAll) :
    (∃ s', migrateInstance h.fails now dryRun p s row = .ok s') ↔
      Passes h dryRun s.db.store s.seen (rowNames p [row]) ∧
        RowAccepted h dryRun p row s.db.tables := by
  rw [rowNames_singleton]
  unfold migrateInstance RowAccepted
  cases hvalid : validInstance row.1 with
  | false => simp [Passes]
  | true =>
    have hmove : (∃ db, (if dryRun then .ok s.db
        else moveValue h.fails now p s.db row.1 row.2) = .ok db) ↔ (dryRun = false →
          (s.db.store.secrets (p.secretName row.1) = none → ValidName (p.secretName row.1)) ∧
            h.updates s.db.tables (.update p.table p.key p.column row.1) = none) := by
      cases dryRun with
      | true => simp
      | false => simpa using moveValue_isOk hwrite
    have hread : h.fails s.db (.get (p.secretName row.1)) = h.reads (.get (p.secretName row.1)) :=
      rfl
    constructor
    · rintro ⟨s', hround⟩
      obtain ⟨hseen, hround⟩ := then_ok_iff.mp hround
      obtain ⟨hget, hround⟩ := then_ok_iff.mp hround
      obtain ⟨db, hdb, -⟩ := chain_ok_iff.mp hround
      have hreal := hmove.mp ⟨db, hdb⟩
      rw [attempt_eq_ok, hread] at hget
      rw [ensure_eq_ok] at hseen
      refine ⟨⟨by simp, fun n hn => ?_⟩, fun hdry _ => (hreal hdry).2⟩
      rw [if_pos rfl, List.mem_singleton] at hn
      subst hn
      exact ⟨by simpa using hseen, hget, fun hdry => (hreal hdry).1⟩
    · rintro ⟨⟨-, hnames⟩, hupdate⟩
      obtain ⟨hseen, hget, hnew⟩ := hnames _ (by rw [if_pos rfl]; exact List.mem_singleton_self _)
      obtain ⟨db, hdb⟩ := hmove.mpr fun hdry => ⟨hnew hdry, hupdate hdry rfl⟩
      refine ⟨_, then_ok_iff.mpr ⟨ensure_eq_ok.mpr (by simpa using hseen),
        then_ok_iff.mpr ⟨attempt_eq_ok.mpr hget, chain_ok_iff.mpr ⟨db, hdb, rfl⟩⟩⟩⟩

lemma round_migrateInstance (row : String × String) (hwrite : s.db.store.MayWriteAll) :
    Round h dryRun (migrateInstance h.fails now dryRun p s row) s (rowNames p [row])
      (rowsSkipped [row]) (rowTables dryRun p row s.db.tables)
      (RowAccepted h dryRun p row s.db.tables) :=
  ⟨migrateInstance_isOk hwrite, fun _ => migrateInstance_ran⟩

/-- The rounds for the rows of a column. -/
lemma round_migrateInstances (rows : List (String × String)) (hwrite : s.db.store.MayWriteAll) :
    Round h dryRun (rows.foldlM (migrateInstance h.fails now dryRun p) s) s (rowNames p rows)
      (rowsSkipped rows) (columnTables dryRun p rows s.db.tables)
      (RowsAccepted h dryRun p rows s.db.tables) := by
  induction rows generalizing s with
  | nil => exact Round.refl s
  | cons row rows ih =>
    have hfirst : Round h dryRun (migrateInstance h.fails now dryRun p s row) s _ _ _ _ :=
      round_migrateInstance row hwrite
    have hround := hfirst.trans fun mid hran => hran.tables_eq ▸ ih (hran.mayWriteAll hwrite)
    have hskipped : rowsSkipped [row] + rowsSkipped rows = rowsSkipped (row :: rows) := by
      unfold rowsSkipped
      rw [← List.countP_append, List.singleton_append]
    rw [← rowNames_cons, hskipped] at hround
    exact hround

/-! ## Columns -/

/-- A column that is admitted and was read goes through its rows. -/
lemma migrateColumn_eq {rows : List (String × String)} (hadmitted : ColumnAdmitted h p)
    (hselect : p.select (s.db.tables p.table) = .ok rows) :
    migrateColumn h.fails now dryRun s p =
      rows.foldlM (migrateInstance h.fails now dryRun p) s := by
  have hread : attempt h.fails s.db (.select p.table p.key p.column) = .ok () :=
    attempt_eq_ok.mpr hadmitted.2
  unfold migrateColumn
  rw [hadmitted.1, hread, hselect]
  rfl

/-- A column whose round succeeds is admitted, and its rows can be read. -/
lemma of_migrateColumn (hcolumn : migrateColumn h.fails now dryRun s p = .ok s') :
    ColumnAdmitted h p ∧ ∃ rows, p.select (s.db.tables p.table) = .ok rows := by
  obtain ⟨hident, hcolumn⟩ := then_ok_iff.mp hcolumn
  obtain ⟨hread, hcolumn⟩ := then_ok_iff.mp hcolumn
  obtain ⟨rows, hselect, -⟩ := chain_ok_iff.mp hcolumn
  exact ⟨⟨hident, attempt_eq_ok.mp hread⟩, rows, hselect⟩

/-- The rounds for columns that are admitted and find something. -/
lemma round_migrateColumns {ps : List SecretColumn} {found : List Finding}
    (hadmitted : ∀ p ∈ ps, ColumnAdmitted h p)
    (hfound : findings dryRun ps s.db.tables = .ok found) (hwrite : s.db.store.MayWriteAll) :
    Round h dryRun (ps.foldlM (migrateColumn h.fails now dryRun) s) s (namesFound found)
      (skippedFound found) (finalTables dryRun found s.db.tables)
      (Accepted h dryRun found s.db.tables) := by
  induction ps generalizing s found with
  | nil =>
    cases hfound
    exact Round.refl s
  | cons p ps ih =>
    rw [List.forall_mem_cons] at hadmitted
    obtain ⟨rows, hselect, hfound⟩ := chain_ok_iff.mp hfound
    obtain ⟨rest, hrest, hfound⟩ := chain_ok_iff.mp hfound
    cases hfound
    have hfirst : Round h dryRun (migrateColumn h.fails now dryRun s p) s _ _ _ _ :=
      migrateColumn_eq hadmitted.1 hselect ▸ round_migrateInstances rows hwrite
    refine hfirst.trans fun mid hran => ?_
    have hround := ih hadmitted.2 (by rw [hran.tables_eq]; exact hrest) (hran.mayWriteAll hwrite)
    rw [hran.tables_eq] at hround
    exact hround

/-- Columns whose rounds succeed are admitted, and find something. -/
lemma of_migrateColumns {ps : List SecretColumn} (hwrite : s.db.store.MayWriteAll)
    (hcolumns : ps.foldlM (migrateColumn h.fails now dryRun) s = .ok s') :
    (∀ p ∈ ps, ColumnAdmitted h p) ∧ ∃ found, findings dryRun ps s.db.tables = .ok found := by
  induction ps generalizing s with
  | nil => exact ⟨by simp, [], rfl⟩
  | cons p ps ih =>
    obtain ⟨mid, hmid, hrest⟩ := foldlM_cons_ok_iff.mp hcolumns
    obtain ⟨hadmitted, rows, hselect⟩ := of_migrateColumn hmid
    have hran := (round_migrateInstances rows hwrite).ran mid
      (migrateColumn_eq hadmitted hselect ▸ hmid)
    obtain ⟨hadmitted', rest, hfound⟩ := ih (hran.mayWriteAll hwrite) hrest
    rw [hran.tables_eq] at hfound
    exact ⟨List.forall_mem_cons.mpr ⟨hadmitted, hadmitted'⟩, _,
      chain_ok_iff.mpr ⟨rows, hselect, chain_ok_iff.mpr ⟨rest, hfound, rfl⟩⟩⟩

/-! ## Calls -/

/-- The secret columns of a table that is checked go one after the other. -/
lemma migrateTable_eq {nameSpace : String} {t : TableDef} (hchecked : t.Checked nameSpace) :
    migrateTable h.fails now dryRun nameSpace s t =
      (t.secretColumns nameSpace).foldlM (migrateColumn h.fails now dryRun) s := by
  unfold migrateTable TableDef.secretColumns
  rcases hchecked with hnone | ⟨pk, hpk, hident, physical, hphysical⟩
  · dsimp only
    rw [hnone]
    cases t.columns.find? ColumnDef.primaryKey <;> rfl
  · have heq : physical = physicalName nameSpace t.table := by
      obtain ⟨-, hrest⟩ := then_ok_iff.mp hphysical
      obtain ⟨-, hrest⟩ := then_ok_iff.mp hrest
      exact (Except.ok.inj hrest).symm
    dsimp only
    rw [hpk]
    split
    · rename_i hempty
      rw [List.isEmpty_iff.mp hempty]
      rfl
    · simp only [required, bind, Except.bind, hident, hphysical, heq, List.foldlM_map]

/-- A table whose round succeeds is checked. -/
lemma checked_of_migrateTable {nameSpace : String} {t : TableDef}
    (htable : migrateTable h.fails now dryRun nameSpace s t = .ok s') : t.Checked nameSpace := by
  unfold migrateTable at htable
  dsimp only at htable
  split at htable
  · rename_i hempty
    exact Or.inl (List.isEmpty_iff.mp hempty)
  · obtain ⟨pk, hpk, htable⟩ := chain_ok_iff.mp htable
    obtain ⟨hident, htable⟩ := then_ok_iff.mp htable
    obtain ⟨physical, hphysical, -⟩ := chain_ok_iff.mp htable
    exact Or.inr ⟨pk, required_eq_ok.mp hpk, hident, physical, hphysical⟩

/-- The rounds for the tables are the rounds for all secret columns, if the tables are checked. -/
lemma migrateTables_isOk {nameSpace : String} {ts : List TableDef} :
    ts.foldlM (migrateTable h.fails now dryRun nameSpace) s = .ok s' ↔
      (∀ t ∈ ts, t.Checked nameSpace) ∧
        (ts.flatMap (TableDef.secretColumns nameSpace)).foldlM
          (migrateColumn h.fails now dryRun) s = .ok s' := by
  induction ts generalizing s with
  | nil => simp
  | cons t ts ih =>
    rw [foldlM_cons_ok_iff, List.forall_mem_cons, List.flatMap_cons, List.foldlM_append]
    constructor
    · rintro ⟨mid, hmid, hrest⟩
      have hchecked := checked_of_migrateTable hmid
      obtain ⟨hall, hrest⟩ := ih.mp hrest
      exact ⟨⟨hchecked, hall⟩, chain_ok_iff.mpr ⟨mid, migrateTable_eq hchecked ▸ hmid, hrest⟩⟩
    · rintro ⟨⟨hchecked, hall⟩, hrest⟩
      obtain ⟨mid, hmid, hrest⟩ := chain_ok_iff.mp hrest
      exact ⟨mid, (migrateTable_eq hchecked).trans hmid, ih.mpr ⟨hall, hrest⟩⟩

end Parts

section Calls

variable {h : Refusals} {now principal : String} {dryRun : Bool} {db : PluginDb} {decl : SchemaDecl}
  {found : List Finding} {report : SecretColumnMigration}

/-- Where a migration starts. -/
def PluginDb.start (db : PluginDb) : Migration := ⟨db, [], ⟨0, 0, 0, []⟩⟩

lemma round_secretColumns (now : String) (hwrite : db.store.MayWriteAll)
    (hadmitted : ∀ p ∈ decl.secretColumns, ColumnAdmitted h p)
    (hfound : findings dryRun decl.secretColumns db.tables = .ok found) :
    Round h dryRun (decl.secretColumns.foldlM (migrateColumn h.fails now dryRun) db.start) db.start
      (namesFound found) (skippedFound found) (finalTables dryRun found db.tables)
      (Accepted h dryRun found db.tables) :=
  round_migrateColumns (s := db.start) hadmitted hfound hwrite

/-- A transaction that succeeds. -/
lemma of_migrateTables {s : Migration} (hwrite : db.store.MayWriteAll)
    (hok : migrateTables h.fails now dryRun db decl = .ok s) :
    h.reads .start = none ∧ h.reads .commit = none ∧
      (∀ t ∈ decl.tables, t.Checked decl.nameSpace) ∧
      (∀ p ∈ decl.secretColumns, ColumnAdmitted h p) ∧
      ∃ found, Goes h dryRun db decl found ∧ Ran db.start s (namesFound found) (skippedFound found)
        (finalTables dryRun found db.tables) := by
  obtain ⟨hstart, hok⟩ := then_ok_iff.mp hok
  obtain ⟨s', htables, hok⟩ := chain_ok_iff.mp hok
  obtain ⟨hcommit, hok⟩ := then_ok_iff.mp hok
  cases hok
  obtain ⟨hchecked, hcolumns⟩ := migrateTables_isOk.mp htables
  obtain ⟨hadmitted, found, hfound⟩ := of_migrateColumns (s := db.start) hwrite hcolumns
  have hround := round_secretColumns now hwrite hadmitted hfound
  obtain ⟨hpasses, haccepted⟩ := hround.isOk.mp ⟨s, hcolumns⟩
  exact ⟨attempt_eq_ok.mp hstart, attempt_eq_ok.mp hcommit, hchecked, hadmitted, found,
    ⟨hfound, hpasses, haccepted⟩, hround.ran s hcolumns⟩

/-- A transaction that goes. -/
lemma migrateTables_isOk_of_goes (now : String) (hwrite : db.store.MayWriteAll)
    (hstart : h.reads .start = none) (hcommit : h.reads .commit = none)
    (hchecked : ∀ t ∈ decl.tables, t.Checked decl.nameSpace)
    (hadmitted : ∀ p ∈ decl.secretColumns, ColumnAdmitted h p)
    (hgoes : Goes h dryRun db decl found) :
    ∃ s, migrateTables h.fails now dryRun db decl = .ok s := by
  have hround := round_secretColumns now hwrite hadmitted hgoes.found_eq
  obtain ⟨s, hs⟩ := hround.isOk.mpr ⟨hgoes.passes, hgoes.accepted⟩
  exact ⟨s, then_ok_iff.mpr ⟨attempt_eq_ok.mpr hstart, chain_ok_iff.mpr ⟨s,
    migrateTables_isOk.mpr ⟨hchecked, hs⟩, then_ok_iff.mpr ⟨attempt_eq_ok.mpr hcommit, rfl⟩⟩⟩⟩

/-- A call that succeeds reports what it finds, and leaves the tables as its columns leave them. -/
lemma of_call (hwrite : db.store.MayWriteAll)
    (hok : (migrateSecretColumns h.fails now db principal decl dryRun).1 = .ok report) :
    Admitted h principal decl ∧ ∃ found, Goes h dryRun db decl found ∧
      report = reportOf db.store found ∧
      (migrateSecretColumns h.fails now db principal decl dryRun).2.tables =
        finalTables dryRun found db.tables ∧
      (migrateSecretColumns h.fails now db principal decl dryRun).2.store.MayWriteAll := by
  unfold migrateSecretColumns at hok ⊢
  split at hok
  · rename_i hnone
    rw [if_pos hnone]
    rw [Bool.not_eq_true'] at hnone
    cases hok
    have hnil := secretColumns_eq_nil hnone
    have hgoes : Goes h dryRun db decl [] :=
      ⟨by rw [hnil]; rfl, ⟨List.nodup_nil, by simp [namesFound]⟩, trivial⟩
    exact ⟨Or.inl hnone, [], hgoes, rfl, rfl, hwrite⟩
  · rename_i hsome
    rw [if_neg hsome]
    split at hok
    · cases hok
    · rename_i hspace
      rw [if_neg hspace]
      rw [ne_eq, not_not] at hspace
      cases hs : migrateTables h.fails now dryRun db decl with
      | error e =>
        rw [hs] at hok
        cases hok
      | ok s =>
        rw [hs] at hok
        cases hok
        obtain ⟨hstart, hcommit, hchecked, hadmitted, found, hgoes, hran⟩ :=
          of_migrateTables hwrite hs
        exact ⟨Or.inr ⟨hspace, hstart, hcommit, hchecked, hadmitted⟩, found, hgoes, hran.report,
          hran.tables_eq, hran.mayWriteAll hwrite⟩

/-- A call succeeds if and only if the declaration is admitted and it goes, and it reports what it
finds. -/
theorem call_ok_iff (hwrite : db.store.MayWriteAll) :
    (migrateSecretColumns h.fails now db principal decl dryRun).1 = .ok report ↔
      Admitted h principal decl ∧ ∃ found, Goes h dryRun db decl found ∧
        report = reportOf db.store found := by
  constructor
  · intro hok
    obtain ⟨hadmitted, found, hgoes, hreport, -, -⟩ := of_call hwrite hok
    exact ⟨hadmitted, found, hgoes, hreport⟩
  · rintro ⟨hadmitted, found, hgoes, rfl⟩
    -- The call succeeds with some report, and this is the one on what it finds.
    suffices hsome : ∃ report,
        (migrateSecretColumns h.fails now db principal decl dryRun).1 = .ok report by
      obtain ⟨report, hok⟩ := hsome
      obtain ⟨-, found', hgoes', hreport, -, -⟩ := of_call hwrite hok
      obtain rfl := Except.ok.inj (hgoes.found_eq.symm.trans hgoes'.found_eq)
      rw [hok, hreport]
    unfold migrateSecretColumns
    rcases hadmitted with hnone | ⟨hspace, hstart, hcommit, hchecked, hadmitted⟩
    · rw [hnone]
      exact ⟨_, rfl⟩
    · split
      · exact ⟨_, rfl⟩
      · rw [if_neg (not_not.mpr hspace)]
        obtain ⟨s, hs⟩ :=
          migrateTables_isOk_of_goes now hwrite hstart hcommit hchecked hadmitted hgoes
        rw [hs]
        exact ⟨_, rfl⟩

end Calls

/-! ## What is predicted -/

/-- What is asked of the two runs: they succeed with the same reports, and after a real run that
succeeds the next one moves nothing and skips the same number of rows. -/
structure Predicted (h : Refusals) (now principal : String) (db : PluginDb) (decl : SchemaDecl) :
    Prop where
  same : ∀ report, (migrateSecretColumns h.fails now db principal decl true).1 = .ok report ↔
    (migrateSecretColumns h.fails now db principal decl false).1 = .ok report
  settled : ∀ report, (migrateSecretColumns h.fails now db principal decl false).1 = .ok report →
    ∀ later dryRun, (migrateSecretColumns h.fails later
      (migrateSecretColumns h.fails now db principal decl false).2 principal decl dryRun).1 =
        .ok ⟨0, 0, report.skipped, []⟩

/-- The names that the store has no record for are valid. -/
def Storable (store : SecretStore) (found : List Finding) : Prop :=
  ∀ n ∈ namesFound found, store.secrets n = none → ValidName n

section Findings

variable {h : Refusals} {now principal : String} {dryRun : Bool} {db : PluginDb} {decl : SchemaDecl}
  {ps : List SecretColumn} {p q : SecretColumn} {tables tables' : Tables}
  {found rest : List Finding}

/-- A dry run leaves the tables as they are. -/
@[simp] lemma columnTables_true (p : SecretColumn) (rows : List (String × String))
    (tables : Tables) : columnTables true p rows tables = tables := by
  induction rows with
  | nil => rfl
  | cons row rows ih => exact ih

lemma rowsAccepted_true (h : Refusals) (p : SecretColumn) (rows : List (String × String))
    (tables : Tables) : RowsAccepted h true p rows tables := by
  induction rows generalizing tables with
  | nil => trivial
  | cons row rows ih => exact ⟨nofun, ih _⟩

lemma accepted_true (h : Refusals) (found : List Finding) (tables : Tables) :
    Accepted h true found tables := by
  induction found generalizing tables with
  | nil => trivial
  | cons f found ih =>
    obtain ⟨p, rows⟩ := f
    exact ⟨rowsAccepted_true h p rows tables, ih _⟩

lemma validInstance_of_rowNames {rows : List (String × String)} (hnames : rowNames p rows = []) :
    ∀ row ∈ rows, validInstance row.1 = false := by
  intro row hrow
  refine Bool.eq_false_iff.mpr fun hvalid => ?_
  have htaking : (p.secretName row.1, row.2) ∈ p.takings rows :=
    List.mem_map.mpr ⟨row, List.mem_filter.mpr ⟨hrow, hvalid⟩, rfl⟩
  rw [List.map_eq_nil_iff.mp hnames] at htaking
  exact absurd htaking List.not_mem_nil

lemma rowTables_of_invalid {row : String × String} (hrow : validInstance row.1 = false) :
    rowTables dryRun p row tables = tables := by
  unfold rowTables
  rw [hrow, Bool.and_false]
  rfl

/-- Rows whose keys make no names are not updated. -/
lemma columnTables_of_invalid {rows : List (String × String)}
    (hrows : ∀ row ∈ rows, validInstance row.1 = false) :
    columnTables dryRun p rows tables = tables := by
  induction rows with
  | nil => rfl
  | cons row rows ih =>
    rw [List.forall_mem_cons] at hrows
    unfold columnTables at ih ⊢
    rw [List.foldl_cons, rowTables_of_invalid hrows.1]
    exact ih hrows.2

/-- Rows whose keys make no names are accepted. -/
lemma rowsAccepted_of_invalid {rows : List (String × String)}
    (hrows : ∀ row ∈ rows, validInstance row.1 = false) : RowsAccepted h dryRun p rows tables := by
  induction rows with
  | nil => trivial
  | cons row rows ih =>
    rw [List.forall_mem_cons] at hrows
    refine ⟨fun _ hvalid => ?_, (rowTables_of_invalid hrows.1).symm ▸ ih hrows.2⟩
    rw [hrows.1] at hvalid
    exact nomatch hvalid

/-- If no name is found, each kind of run finds the same and makes no update. -/
lemma findings_of_names_nil (h : Refusals) (dryRun : Bool)
    (hfound : findings true ps tables = .ok rest) (hnames : namesFound rest = []) :
    findings dryRun ps tables = .ok rest ∧ Accepted h dryRun rest tables := by
  induction ps generalizing rest with
  | nil =>
    cases hfound
    exact ⟨rfl, trivial⟩
  | cons p ps ih =>
    obtain ⟨rows, hselect, hfound⟩ := chain_ok_iff.mp hfound
    obtain ⟨rest', hrest, hfound⟩ := chain_ok_iff.mp hfound
    cases hfound
    rw [columnTables_true] at hrest
    have hsplit := List.append_eq_nil_iff.mp
      (show rowNames p rows ++ namesFound rest' = [] from hnames)
    have hrows := validInstance_of_rowNames hsplit.1
    obtain ⟨hfound', haccepted'⟩ := ih hrest hsplit.2
    have htables : columnTables dryRun p rows tables = tables := columnTables_of_invalid hrows
    refine ⟨chain_ok_iff.mpr ⟨rows, hselect, chain_ok_iff.mpr ⟨rest', ?_, rfl⟩⟩,
      rowsAccepted_of_invalid hrows, ?_⟩
    · rw [htables]
      exact hfound'
    · rw [htables]
      exact haccepted'

lemma reportOf_of_names_nil {store : SecretStore} (hnames : namesFound found = []) :
    reportOf store found = ⟨0, 0, skippedFound found, []⟩ := by
  simp [reportOf, SecretColumnMigration.add, hnames]

/-- Equal reports are on the same names. -/
lemma namesFound_eq_of_reportOf {store store' : SecretStore}
    (heq : reportOf store found = reportOf store' rest) : namesFound found = namesFound rest := by
  have hnames := congrArg SecretColumnMigration.names heq
  simpa only [reportOf, SecretColumnMigration.add, List.nil_append] using hnames

lemma Passes.dry {store : SecretStore} {seen names : List String}
    (hpasses : Passes h dryRun store seen names) : Passes h true store seen names :=
  ⟨hpasses.1, fun n hn => ⟨(hpasses.2 n hn).1, (hpasses.2 n hn).2.1, fun hdry => nomatch hdry⟩⟩

lemma Passes.real {store : SecretStore} {seen names : List String}
    (hpasses : Passes h true store seen names)
    (hvalid : ∀ n ∈ names, store.secrets n = none → ValidName n) :
    Passes h false store seen names :=
  ⟨hpasses.1, fun n hn => ⟨(hpasses.2 n hn).1, (hpasses.2 n hn).2.1, fun _ => hvalid n hn⟩⟩

/-- If the dry run predicts the real one and succeeds, the real one finds the same names. -/
lemma Predicted.goes (hpredicted : Predicted h now principal db decl)
    (hwrite : db.store.MayWriteAll) (hadmitted : Admitted h principal decl)
    (hgoes : Goes h true db decl found) :
    ∃ found', Goes h false db decl found' ∧ namesFound found' = namesFound found := by
  obtain ⟨-, found', hgoes', hreport⟩ := (call_ok_iff hwrite).mp
    ((hpredicted.same _).mp ((call_ok_iff hwrite).mpr ⟨hadmitted, found, hgoes, rfl⟩))
  exact ⟨found', hgoes', (namesFound_eq_of_reportOf hreport).symm⟩

/-- Then the new names are valid. -/
lemma Predicted.storable (hpredicted : Predicted h now principal db decl)
    (hwrite : db.store.MayWriteAll) (hadmitted : Admitted h principal decl)
    (hgoes : Goes h true db decl found) : Storable db.store found := by
  obtain ⟨found', hgoes', hnames⟩ := hpredicted.goes hwrite hadmitted hgoes
  intro n hn
  exact (hgoes'.passes.2 n (hnames ▸ hn)).2.2 rfl

end Findings

/-! ## Columns that find what is cleared -/

/-- What a column finds in a row: nothing, or the key and the value, if they can be read. -/
def SecretColumn.find (p : SecretColumn) (row : Row) : Option (Except String (String × String)) :=
  if (row p.key).notNull && (row p.column).nonEmpty then some (p.readRow row) else none

/-- A column finds a key in a row that makes a name. -/
def SecretColumn.Takes (p : SecretColumn) (row : Row) : Prop :=
  ∃ inst value, p.find row = some (.ok (inst, value)) ∧ validInstance inst = true

/-- The row has the key of one of the rows, possibly of itself, that the column takes. -/
def SecretColumn.Clears (p : SecretColumn) (rows : List Row) (row : Row) : Prop :=
  ∃ taken ∈ rows, p.Takes taken ∧ (row p.key).cast = (taken p.key).cast

/-- A column finds in a row the same after another one is cleared in it. -/
def SameWithout (p q : SecretColumn) (row : Row) : Prop :=
  q.find (Function.update row p.column p.cleared) = q.find row

/-- The later column finds in no row of their table what the earlier one clears, and the earlier one
finds there no key that the later one clears, unless it has taken the row itself. -/
def Undisturbed (tables : Tables) (p q : SecretColumn) : Prop :=
  p.table = q.table → ∀ row ∈ tables p.table,
    (p.Clears (tables p.table) row → SameWithout p q row) ∧
      (q.Clears (tables p.table) row → p.Takes row ∨ SameWithout q p row)

/-- No column is declared twice for a table, and none is the key of another. -/
def SchemaDecl.Separate (decl : SchemaDecl) : Prop :=
  decl.secretColumns.Pairwise fun p q => p.table = q.table →
    p.column ≠ q.column ∧ p.column ≠ q.key ∧ q.column ≠ p.key

section Undisturbed

variable {h : Refusals} {db : PluginDb} {decl : SchemaDecl} {ps : List SecretColumn}
  {p q : SecretColumn} {start tables : Tables} {found : List Finding} {row row' row'' : Row}
  {rows : List (String × String)} {table : String}

lemma find_congr (hkey : row' p.key = row p.key) (hcolumn : row' p.column = row p.column) :
    p.find row' = p.find row := by
  unfold SecretColumn.find SecretColumn.readRow
  rw [hkey, hcolumn]

lemma find_eq_none (hempty : (row p.column).nonEmpty = false) : p.find row = none := by
  unfold SecretColumn.find
  rw [hempty, Bool.and_false]
  rfl

lemma undisturbed_of_separate (hseparate : decl.Separate) (tables : Tables) :
    decl.secretColumns.Pairwise (Undisturbed tables) := by
  refine hseparate.imp fun hapart htable row _ => ?_
  obtain ⟨hcolumn, hkey, hkey'⟩ := hapart htable
  refine ⟨fun _ => ?_, fun _ => Or.inr ?_⟩
  · exact find_congr (Function.update_of_ne hkey.symm _ _) (Function.update_of_ne hcolumn.symm _ _)
  · exact find_congr (Function.update_of_ne hkey'.symm _ _) (Function.update_of_ne hcolumn _ _)

lemma select_cons (p : SecretColumn) (row : Row) (rows : List Row) :
    p.select (row :: rows) =
      match p.find row with
      | some r => do
        let r ← r
        let rest ← p.select rows
        .ok (r :: rest)
      | none => p.select rows := by
  unfold SecretColumn.select SecretColumn.find
  rw [List.filter_cons]
  split
  · rw [List.mapM_cons]
    rfl
  · rfl

lemma select_of_find_eq {rows rows' : List Row}
    (hrows : List.Forall₂ (fun row row' => p.find row' = p.find row) rows rows') :
    p.select rows' = p.select rows := by
  induction hrows with
  | nil => rfl
  | cons hrow _ ih => rw [select_cons, select_cons, hrow, ih]

/-- What is found in a row is selected. -/
lemma mem_of_find {rows : List Row} {selected : List (String × String)}
    {r : Except String (String × String)} (hselect : p.select rows = .ok selected)
    (hrow : row ∈ rows) (hfind : p.find row = some r) : ∃ pair ∈ selected, r = .ok pair := by
  induction rows generalizing selected with
  | nil => cases hrow
  | cons head rows ih =>
    rw [select_cons] at hselect
    rcases List.mem_cons.mp hrow with rfl | hrow
    · rw [hfind] at hselect
      obtain ⟨pair, hpair, hselect⟩ := chain_ok_iff.mp hselect
      obtain ⟨rest, -, hselect⟩ := chain_ok_iff.mp hselect
      cases hselect
      exact ⟨pair, List.mem_cons_self, hpair⟩
    · cases hhead : p.find head with
      | none =>
        rw [hhead] at hselect
        exact ih hselect hrow
      | some found =>
        rw [hhead] at hselect
        obtain ⟨first, -, hselect⟩ := chain_ok_iff.mp hselect
        obtain ⟨rest, hrest, hselect⟩ := chain_ok_iff.mp hselect
        cases hselect
        obtain ⟨pair, hpair, heq⟩ := ih hrest hrow
        exact ⟨pair, List.mem_cons_of_mem first hpair, heq⟩

/-- What is selected is found in a row. -/
lemma exists_find_of_mem {rows : List Row} {selected : List (String × String)}
    {r : String × String} (hselect : p.select rows = .ok selected) (hr : r ∈ selected) :
    ∃ row ∈ rows, p.find row = some (.ok r) := by
  induction rows generalizing selected with
  | nil =>
    cases hselect
    cases hr
  | cons head rows ih =>
    rw [select_cons] at hselect
    cases hhead : p.find head with
    | none =>
      rw [hhead] at hselect
      obtain ⟨row, hrow, hfind⟩ := ih hselect hr
      exact ⟨row, List.mem_cons_of_mem head hrow, hfind⟩
    | some found =>
      rw [hhead] at hselect
      obtain ⟨r', hr', hselect⟩ := chain_ok_iff.mp hselect
      obtain ⟨rest, hrest, hselect⟩ := chain_ok_iff.mp hselect
      cases hselect
      rcases List.mem_cons.mp hr with rfl | hr
      · exact ⟨head, List.mem_cons_self, hhead.trans (congrArg some hr')⟩
      · obtain ⟨row, hrow, hfind⟩ := ih hrest hr
        exact ⟨row, List.mem_cons_of_mem head hrow, hfind⟩

/-- What is found is what the cells of the row are read as. -/
lemma cast_key_of_find {inst value : String} (hfind : p.find row = some (.ok (inst, value))) :
    (row p.key).cast = .ok inst := by
  unfold SecretColumn.find at hfind
  split at hfind
  · obtain ⟨inst', hinst, hpair⟩ := chain_ok_iff.mp (Option.some.inj hfind)
    obtain ⟨value', -, hpair⟩ := chain_ok_iff.mp hpair
    cases hpair
    exact hinst
  · cases hfind

/-! ## Rows as the columns before left them -/

/-- Some cells of a row are emptied. -/
def Emptied (row row' : Row) : Prop := ∀ c, row' c = row c ∨ (row' c).nonEmpty = false

lemma Emptied.update (hrow : Emptied row row') (p : SecretColumn) :
    Emptied row (Function.update row' p.column p.cleared) := by
  intro c
  by_cases hc : c = p.column
  · subst hc
    rw [Function.update_self]
    exact Or.inr (nonEmpty_cleared p)
  · rw [Function.update_of_ne hc]
    exact hrow c

/-- If a column finds the same in a row of which some cells are emptied, it also does after one more
is, which makes no difference to it in the row as it was. -/
lemma find_update_eq (hrow : Emptied row row') (hfind : q.find row' = q.find row)
    (hsame : SameWithout p q row) :
    q.find (Function.update row' p.column p.cleared) = q.find row := by
  by_cases hcolumn : q.column = p.column
  · have hempty : ∀ r : Row, q.find (Function.update r p.column p.cleared) = none := fun r =>
      find_eq_none (by rw [hcolumn, Function.update_self]; exact nonEmpty_cleared p)
    rw [hempty row', ← hsame, hempty row]
  · rcases hrow q.column with hkept | hempty
    · by_cases hkey : q.key = p.column
      · rw [← hsame]
        refine find_congr ?_ ?_
        · rw [hkey, Function.update_self, Function.update_self]
        · rw [Function.update_of_ne hcolumn, Function.update_of_ne hcolumn, hkept]
      · rw [← hfind]
        exact find_congr (Function.update_of_ne hkey _ _) (Function.update_of_ne hcolumn _ _)
    · rw [find_eq_none (by rwa [Function.update_of_ne hcolumn]), ← hfind, find_eq_none hempty]

/-- The columns of a table find in a row, of which some cells may be emptied, what they found
before. -/
structure SameFor (ps : List SecretColumn) (table : String) (row row' : Row) : Prop where
  emptied : Emptied row row'
  find_eq : ∀ q ∈ ps, q.table = table → q.find row' = q.find row

/-- The columns find in all tables what they found before. -/
def AllSameFor (start : Tables) (ps : List SecretColumn) (tables : Tables) : Prop :=
  ∀ table, List.Forall₂ (SameFor ps table) (start table) (tables table)

lemma AllSameFor.refl (start : Tables) (ps : List SecretColumn) : AllSameFor start ps start :=
  fun _ => List.forall₂_same.mpr fun _ _ => ⟨fun _ => Or.inl rfl, fun _ _ _ => rfl⟩

lemma AllSameFor.select_eq (hsame : AllSameFor start ps tables) (hp : p ∈ ps) :
    p.select (tables p.table) = p.select (start p.table) :=
  select_of_find_eq ((hsame p.table).imp fun _ _ hrow => hrow.find_eq p hp rfl)

lemma forall₂_imp_of_mem {R S : Row → Row → Prop} {l l' : List Row} (hrows : List.Forall₂ R l l')
    (himp : ∀ row ∈ l, ∀ row' ∈ l', R row row' → S row row') : List.Forall₂ S l l' := by
  rw [List.forall₂_iff_zip] at hrows ⊢
  refine ⟨hrows.1, fun hzip => ?_⟩
  obtain ⟨hrow, hrow'⟩ := List.of_mem_zip hzip
  exact himp _ hrow _ hrow' (hrows.2 hzip)

/-- What the updates of a column do. -/
lemma columnTables_false (p : SecretColumn) (rows : List (String × String)) (tables : Tables) :
    columnTables false p rows tables =
      Function.update tables p.table ((tables p.table).map (p.clearAll rows)) := by
  induction rows generalizing tables with
  | nil =>
    have hid : p.clearAll [] = id := rfl
    rw [hid, List.map_id, Function.update_eq_self]
    rfl
  | cons row rows ih =>
    have hstep : rowTables false p row tables =
        Function.update tables p.table ((tables p.table).map fun r =>
          if validInstance row.1 then p.clear row.1 r else r) := by
      unfold rowTables
      cases validInstance row.1 with
      | false => simp
      | true => rfl
    unfold columnTables at ih ⊢
    rw [List.foldl_cons, hstep, ih, Function.update_idem, Function.update_self, List.map_map]
    rfl

/-- What the updates of a column do to a row: they leave it, and then the column does not take it,
or they clear the column. -/
inductive RowRound (p : SecretColumn) (start : Tables) (table : String) (row row' : Row) :
    Row → Prop
  | kept (hnot : p.table = table → ¬p.Takes row) : RowRound p start table row row' row'
  | cleared (htable : p.table = table) (hclears : p.Clears (start table) row) :
    RowRound p start table row row' (Function.update row' p.column p.cleared)

/-- The updates of a column do this to the rows of its table. -/
lemma rowRound_clearAll (hsame : AllSameFor start (p :: ps) tables)
    (hselect : p.select (tables p.table) = .ok rows) (hmem : row' ∈ tables p.table)
    (hrow : SameFor (p :: ps) p.table row row') :
    RowRound p start p.table row row' (p.clearAll rows row') := by
  rw [clearAll_eq_ite]
  split
  · rename_i hcleared
    obtain ⟨r, hr, hvalid, hcast⟩ := hcleared
    refine .cleared rfl ?_
    -- what was selected is found at the start, and the key of this row was not emptied
    obtain ⟨taken', htaken', hfound⟩ := exists_find_of_mem hselect hr
    obtain ⟨taken, htaken, hsameTaken⟩ := Evolution.exists_of_mem_kept (hsame p.table) htaken'
    have hfound' : p.find taken = some (.ok r) :=
      (hsameTaken.find_eq p List.mem_cons_self rfl).symm.trans hfound
    refine ⟨taken, htaken, ⟨r.1, r.2, hfound', hvalid⟩, ?_⟩
    rw [cast_key_of_find hfound']
    rcases hrow.emptied p.key with hkey | hempty
    · rwa [← hkey]
    · rw [nonEmpty_of_cast hcast hvalid] at hempty
      cases hempty
  · rename_i hkept
    refine .kept fun _ htakes => ?_
    obtain ⟨inst, value, hfound, hvalid⟩ := htakes
    have hfound' : p.find row' = some (.ok (inst, value)) :=
      (hrow.find_eq p List.mem_cons_self rfl).trans hfound
    obtain ⟨pair, hpair, heq⟩ := mem_of_find hselect hmem hfound'
    cases heq
    exact hkept ⟨_, hpair, hvalid, cast_key_of_find hfound'⟩

/-- The updates of a column do this to the rows of all tables. -/
lemma forall₂_columnTables {R S : Row → Row → Prop} (hsame : AllSameFor start (p :: ps) tables)
    (hselect : p.select (tables p.table) = .ok rows)
    (hrows : List.Forall₂ R (start table) (tables table))
    (hround : ∀ row ∈ start table, ∀ row' row'', SameFor (p :: ps) table row row' → R row row' →
      RowRound p start table row row' row'' → S row row'') :
    List.Forall₂ S (start table) (columnTables false p rows tables table) := by
  have hboth : List.Forall₂ (fun row row' => SameFor (p :: ps) table row row' ∧ R row row')
      (start table) (tables table) :=
    List.Forall₂.mp (fun _ _ hrow hR => ⟨hrow, hR⟩) (hsame table) hrows
  rw [columnTables_false]
  by_cases htable : table = p.table
  · subst htable
    rw [Function.update_self, List.forall₂_map_right_iff]
    exact forall₂_imp_of_mem hboth fun row hrow row' hrow' hR =>
      hround row hrow row' _ hR.1 hR.2 (rowRound_clearAll hsame hselect hrow' hR.1)
  · rw [Function.update_of_ne htable]
    exact forall₂_imp_of_mem hboth fun row hrow row' _ hR =>
      hround row hrow row' row' hR.1 hR.2 (.kept fun heq => absurd heq.symm htable)

/-- The columns that an earlier one does not disturb find after its updates what they found
before. -/
lemma allSameFor_columnTables (hsame : AllSameFor start (p :: ps) tables)
    (hselect : p.select (tables p.table) = .ok rows) (hps : ∀ q ∈ ps, Undisturbed start p q) :
    AllSameFor start ps (columnTables false p rows tables) := by
  intro table
  refine forall₂_columnTables hsame hselect (hsame table)
    fun row hrow row' row'' hkept _ hround => ?_
  cases hround with
  | kept => exact ⟨hkept.emptied, fun q hq => hkept.find_eq q (List.mem_cons_of_mem p hq)⟩
  | cleared htable hclears =>
    subst htable
    refine ⟨hkept.emptied.update p, fun q hq hq' => ?_⟩
    refine find_update_eq hkept.emptied (hkept.find_eq q (List.mem_cons_of_mem p hq) hq') ?_
    exact ((hps q hq hq'.symm row hrow).1 hclears)

/-- Undisturbed columns find in a real run what they find in a dry one. -/
lemma findings_eq (hps : ps.Pairwise (Undisturbed start)) (hsame : AllSameFor start ps tables) :
    findings false ps tables = findings true ps start := by
  induction ps generalizing tables with
  | nil => rfl
  | cons p ps ih =>
    obtain ⟨hhead, htail⟩ := List.pairwise_cons.mp hps
    unfold findings
    rw [hsame.select_eq List.mem_cons_self]
    cases hselect : p.select (start p.table) with
    | error e => rfl
    | ok rows =>
      have hselect' : p.select (tables p.table) = .ok rows :=
        (hsame.select_eq List.mem_cons_self).trans hselect
      have hrest := ih htail (allSameFor_columnTables hsame hselect' hhead)
      simp only [bind, Except.bind, columnTables_true, hrest]

/-! ## What is left to find -/

/-- A column has emptied the rows that it took, and finds in the others what it found before. -/
structure DoneFor (p : SecretColumn) (row row' : Row) : Prop where
  emptied : Emptied row row'
  taken : p.Takes row → (row' p.column).nonEmpty = false
  find_eq : ¬p.Takes row → p.find row' = p.find row

/-- A column has done so after its own updates. -/
lemma doneFor_columnTables (hsame : AllSameFor start (p :: ps) tables)
    (hselect : p.select (tables p.table) = .ok rows) :
    List.Forall₂ (DoneFor p) (start p.table) (columnTables false p rows tables p.table) := by
  refine forall₂_columnTables hsame hselect (hsame p.table)
    fun row hrow row' row'' hkept _ hround => ?_
  cases hround with
  | kept hnot =>
    refine ⟨hkept.emptied, fun htakes => absurd htakes (hnot rfl), fun _ => ?_⟩
    exact hkept.find_eq p List.mem_cons_self rfl
  | cleared _ hclears =>
    refine ⟨hkept.emptied.update p, fun _ => ?_, fun hnot => ?_⟩
    · rw [Function.update_self]
      exact nonEmpty_cleared p
    · -- the row has a key that makes a name, so there is nothing in the column
      have hnone : p.find row = none := by
        cases hfind : p.find row with
        | none => rfl
        | some r =>
          obtain ⟨taken, -, ⟨inst, value, hfound, hvalid⟩, hcast⟩ := hclears
          have hselect' : p.select (start p.table) = .ok rows :=
            (hsame.select_eq List.mem_cons_self).symm.trans hselect
          obtain ⟨pair, -, rfl⟩ := mem_of_find hselect' hrow hfind
          refine absurd ⟨pair.1, pair.2, hfind, ?_⟩ hnot
          rw [cast_key_of_find hfound, cast_key_of_find hfind, Except.ok.injEq] at hcast
          rwa [hcast]
      rw [hnone]
      exact find_eq_none (by rw [Function.update_self]; exact nonEmpty_cleared p)

/-- The updates of a later column that does not disturb it keep this so. -/
lemma doneFor_columnTables_of_later (hsame : AllSameFor start (q :: ps) tables)
    (hselect : q.select (tables q.table) = .ok rows) (hapart : Undisturbed start p q)
    (hdone : List.Forall₂ (DoneFor p) (start p.table) (tables p.table)) :
    List.Forall₂ (DoneFor p) (start p.table) (columnTables false q rows tables p.table) := by
  refine forall₂_columnTables hsame hselect hdone fun row hrow row' row'' _ hdone hround => ?_
  cases hround with
  | kept => exact hdone
  | cleared htable hclears =>
    have hemptied := hdone.emptied.update q
    refine ⟨hemptied, fun htakes => ?_, fun hnot => ?_⟩
    · by_cases hcolumn : p.column = q.column
      · rw [hcolumn, Function.update_self]
        exact nonEmpty_cleared q
      · rw [Function.update_of_ne hcolumn]
        exact hdone.taken htakes
    · have hlater := (hapart htable.symm row hrow).2 (htable ▸ hclears)
      exact find_update_eq hdone.emptied (hdone.find_eq hnot) (hlater.resolve_left hnot)

/-- The rows of a column that make no name. -/
def leftOver (f : Finding) : Finding := (f.1, f.2.filter fun row => !validInstance row.1)

/-- A column that has emptied the rows that it took selects the rows that make no name. -/
lemma select_of_doneFor {rows rows' : List Row} {selected : List (String × String)}
    (hdone : List.Forall₂ (DoneFor p) rows rows') (hselect : p.select rows = .ok selected) :
    p.select rows' = .ok (selected.filter fun row => !validInstance row.1) := by
  induction hdone generalizing selected with
  | nil =>
    cases hselect
    rfl
  | @cons row row' rows rows' hrow _ ih =>
    rw [select_cons] at hselect ⊢
    by_cases htakes : p.Takes row
    · rw [find_eq_none (hrow.taken htakes)]
      obtain ⟨inst, value, hfind, hvalid⟩ := htakes
      rw [hfind] at hselect
      obtain ⟨pair, hpair, hselect⟩ := chain_ok_iff.mp hselect
      obtain ⟨rest, hrest, hselect⟩ := chain_ok_iff.mp hselect
      cases hpair
      cases hselect
      rw [List.filter_cons_of_neg (by simp [hvalid])]
      exact ih hrest
    · rw [hrow.find_eq htakes]
      cases hfind : p.find row with
      | none =>
        rw [hfind] at hselect
        exact ih hselect
      | some r =>
        rw [hfind] at hselect
        obtain ⟨pair, hpair, hselect⟩ := chain_ok_iff.mp hselect
        obtain ⟨rest, hrest, hselect⟩ := chain_ok_iff.mp hselect
        cases hselect
        have hinvalid : validInstance pair.1 = false := Bool.eq_false_iff.mpr fun hvalid =>
          htakes ⟨pair.1, pair.2, hfind.trans (congrArg some hpair), hvalid⟩
        rw [List.filter_cons_of_pos (by simp [hinvalid])]
        exact chain_ok_iff.mpr ⟨pair, hpair, chain_ok_iff.mpr ⟨_, ih hrest, rfl⟩⟩

/-- A column is done for in the tables that the later ones leave. -/
lemma doneFor_finalTables (hps : ps.Pairwise (Undisturbed start))
    (hsame : AllSameFor start ps tables) (hfound : findings false ps tables = .ok found)
    (hapart : ∀ q ∈ ps, Undisturbed start p q)
    (hdone : List.Forall₂ (DoneFor p) (start p.table) (tables p.table)) :
    List.Forall₂ (DoneFor p) (start p.table) (finalTables false found tables p.table) := by
  induction ps generalizing tables found with
  | nil =>
    cases hfound
    exact hdone
  | cons q ps ih =>
    obtain ⟨hhead, htail⟩ := List.pairwise_cons.mp hps
    rw [List.forall_mem_cons] at hapart
    obtain ⟨rows, hselect, hfound⟩ := chain_ok_iff.mp hfound
    obtain ⟨rest, hrest, hfound⟩ := chain_ok_iff.mp hfound
    cases hfound
    have hlater := ih htail (allSameFor_columnTables hsame hselect hhead) hrest hapart.2
      (doneFor_columnTables_of_later hsame hselect hapart.1 hdone)
    exact hlater

/-- In the tables that a real run leaves, undisturbed columns find the rows that make no name. -/
lemma findings_finalTables (hps : ps.Pairwise (Undisturbed start))
    (hsame : AllSameFor start ps tables) (hfound : findings false ps tables = .ok found) :
    findings true ps (finalTables false found tables) = .ok (found.map leftOver) := by
  induction ps generalizing tables found with
  | nil =>
    cases hfound
    rfl
  | cons p ps ih =>
    obtain ⟨hhead, htail⟩ := List.pairwise_cons.mp hps
    obtain ⟨rows, hselect, hfound⟩ := chain_ok_iff.mp hfound
    obtain ⟨rest, hrest, hfound⟩ := chain_ok_iff.mp hfound
    cases hfound
    have hsame' := allSameFor_columnTables hsame hselect hhead
    have hdone := doneFor_finalTables htail hsame' hrest hhead
      (doneFor_columnTables hsame hselect)
    have hselect' : p.select (start p.table) = .ok rows :=
      (hsame.select_eq List.mem_cons_self).symm.trans hselect
    refine chain_ok_iff.mpr ⟨_, select_of_doneFor hdone hselect', chain_ok_iff.mpr ⟨_, ?_, rfl⟩⟩
    rw [columnTables_true]
    exact ih htail hsame' hrest

lemma namesFound_leftOver (found : List Finding) : namesFound (found.map leftOver) = [] := by
  refine List.flatMap_eq_nil_iff.mpr fun f hf => ?_
  obtain ⟨f, -, rfl⟩ := List.mem_map.mp hf
  unfold rowNames SecretColumn.takings leftOver
  rw [List.map_map, List.map_eq_nil_iff, List.filter_filter]
  exact List.filter_eq_nil_iff.mpr fun row _ => by simp

lemma skippedFound_leftOver (found : List Finding) :
    skippedFound (found.map leftOver) = skippedFound found := by
  unfold skippedFound
  rw [List.map_map]
  refine congrArg List.sum (List.map_congr_left fun f _ => ?_)
  simp [leftOver, rowsSkipped, List.countP_filter]

/-- Where no column disturbs another, a real run goes if and only if the dry run does, the new names
are valid and the updates are accepted. -/
lemma goes_false_iff (hps : decl.secretColumns.Pairwise (Undisturbed db.tables)) :
    Goes h false db decl found ↔ Goes h true db decl found ∧ Storable db.store found ∧
      Accepted h false found db.tables := by
  have hsame := findings_eq hps (AllSameFor.refl db.tables decl.secretColumns)
  constructor
  · intro hgoes
    refine ⟨⟨hsame ▸ hgoes.found_eq, hgoes.passes.dry, accepted_true h found db.tables⟩, ?_,
      hgoes.accepted⟩
    exact fun n hn => (hgoes.passes.2 n hn).2.2 rfl
  · rintro ⟨hgoes, hstorable, haccepted⟩
    exact ⟨hsame ▸ hgoes.found_eq, hgoes.passes.real hstorable, haccepted⟩

/-- Where no column disturbs another, a call after a real run that succeeded finds no name, and the
rows that this one skipped. -/
lemma call_again_of_goes {later : String} {dryRun : Bool} {db' : PluginDb}
    (hps : decl.secretColumns.Pairwise (Undisturbed db.tables))
    (hadmitted : Admitted h principal decl) (hgoes : Goes h false db decl found)
    (htables : db'.tables = finalTables false found db.tables) (hwrite : db'.store.MayWriteAll) :
    (migrateSecretColumns h.fails later db' principal decl dryRun).1 =
      .ok ⟨0, 0, skippedFound found, []⟩ := by
  have hnames := namesFound_leftOver found
  have hrest := findings_finalTables hps (AllSameFor.refl db.tables decl.secretColumns)
    hgoes.found_eq
  obtain ⟨hrest', haccepted⟩ := findings_of_names_nil h dryRun hrest hnames
  rw [← htables] at hrest' haccepted
  refine (call_ok_iff hwrite).mpr ⟨hadmitted, found.map leftOver, ⟨hrest', ?_, haccepted⟩, ?_⟩
  · rw [hnames]
    exact ⟨List.nodup_nil, by simp⟩
  · rw [reportOf_of_names_nil hnames, skippedFound_leftOver]

/-- Where no column disturbs another, the dry run predicts the real one if and only if it is
refused, or the new names are valid and the updates are accepted. -/
lemma predicted_iff_of_undisturbed (hwrite : db.store.MayWriteAll)
    (hps : decl.secretColumns.Pairwise (Undisturbed db.tables)) :
    Predicted h now principal db decl ↔ (Admitted h principal decl → ∀ found,
      Goes h true db decl found →
        Storable db.store found ∧ Accepted h false found db.tables) := by
  constructor
  · intro hpredicted hadmitted found hgoes
    obtain ⟨found', hgoes', -⟩ := hpredicted.goes hwrite hadmitted hgoes
    obtain ⟨hdry, hreal⟩ := (goes_false_iff hps).mp hgoes'
    obtain rfl := Except.ok.inj (hgoes.found_eq.symm.trans hdry.found_eq)
    exact hreal
  · intro hgoes
    constructor
    case same =>
      intro report
      rw [call_ok_iff hwrite, call_ok_iff hwrite]
      refine and_congr_right fun hadmitted => exists_congr fun found => ?_
      rw [goes_false_iff hps, and_congr_left_iff]
      exact fun _ => ⟨fun hdry => ⟨hdry, hgoes hadmitted found hdry⟩, And.left⟩
    case settled =>
      intro report hok later dryRun
      obtain ⟨hadmitted, found, hfound, rfl, htables, hwrite'⟩ := of_call hwrite hok
      rw [call_again_of_goes hps hadmitted hfound htables hwrite']
      simp [reportOf, SecretColumnMigration.add]

end Undisturbed

/-- A database that refuses nothing. -/
def noRefusals : Refusals := ⟨fun _ => none, fun _ _ => none⟩

/-- An endpoint whose name has a blank. -/
def namedEndpoint : PluginDb where
  tables := fun t =>
    if t = "plug__acme__endpoints" then
      [fun c => if c = "name" then .text "living room"
        else if c = "token" then .text "tok-a" else .null]
    else []
  store := noSecrets

end Orca.Secrets
