import Mathlib.Data.List.Sort
import Orca.Data.Text
import Orca.Library.Invariant

/-!
# Migrations

A migration is a text of SQL statements with a version.  `migrate` runs the texts of the migrations
whose versions are not recorded, in the order of the versions, and records each.  The statements of
a text are run one after another and each of them takes effect at once; the first one that fails
ends the run of the text.  A failure that says the column or the table is already there is
tolerated: the version is recorded all the same.

What a migration means is that all its statements are run, where one that fails in the tolerated way
is skipped (`settle`).  The result is `applied_migrations_were_run`: in every sequence of calls,
with any failures in between, the schema after a call that succeeds is the one that the recorded
migrations mean.  Two things are asked of the statements.  Behind one that fails in the tolerated
way there are only such as would be skipped or change nothing themselves (`Skippable`), and where a
call stops that is followed by another, the statements that have been run lead back to the same
schema (`Repeatable`).
-/

namespace Orca.Database

open Invariant

/-! ## Texts -/

/-- `TOLERATE_MISSING_TABLE`. -/
def tolerateMissingTable : String := "orca:tolerate-missing-table"

/-- A line of the leading comment. -/
def isLeadingComment (line : String) : Bool :=
  "--".toList.isPrefixOf (line.toList.dropWhile isWhitespace) || trim line == ""

/-- `tolerates_missing_table`: the marker is in the leading comment. -/
def toleratesMissingTable (sql : String) : Bool :=
  ((lines sql).takeWhile isLeadingComment).any fun l => containsText l tolerateMissingTable

/-- `Migration`. -/
structure Migration where
  version : Int
  slug : String
  up : String
  down : Option String

/-- A failure of the migration after which its version is recorded all the same. -/
def Migration.tolerates (m : Migration) (e : String) : Bool :=
  let msg := toAsciiLowercase e
  containsText msg "duplicate column" || containsText msg "already exists" ||
    (toleratesMissingTable m.up && containsText msg "no such table")

/-! ## The database -/

/-- The database engine: how a text is divided into statements, and what a statement does to the
schema. -/
structure Engine (σ : Type) where
  split : String → List String
  /-- A statement changes the schema, or fails with a message and changes nothing. -/
  exec : String → σ → Except String σ

/-- A database. -/
structure Db (σ : Type) where
  schema : σ
  /-- The versions that the ledger records. -/
  applied : List Int
  /-- `PRAGMA user_version`. -/
  userVersion : Int
  deriving DecidableEq

/-- What fails in a call without being at fault: the database is locked, the disk is full. -/
structure Faults where
  read : Option String
  /-- A statement of a migration cannot be run. -/
  statement : Int → Nat → Option String
  record : Int → Option String
  /-- The version of the schema cannot be read at the end. -/
  last : Option String

section Engine

variable {σ : Type} (E : Engine σ)

/-- The statements from the `i`-th on, up to the first that fails. -/
def runStatements (fails : Nat → Option String) : Nat → List String → σ → σ × Option String
  | _, [], s => (s, none)
  | i, st :: rest, s =>
    match fails i with
    | some e => (s, some e)
    | none =>
      match E.exec st s with
      | .error e => (s, some e)
      | .ok s' => runStatements fails (i + 1) rest s'

/-- `Connection::execute_batch`. -/
def executeBatch (fails : Nat → Option String) (sql : String) (s : σ) : σ × Option String :=
  runStatements E fails 0 (E.split sql) s

/-- `ensure_migrations_table`: a database of the time before the ledger gets its baseline row. -/
def ensureMigrationsTable (db : Db σ) : Db σ :=
  if 0 ∉ db.applied ∧ 0 < db.userVersion then
    { db with applied := 0 :: db.applied, userVersion := 0 }
  else db

/-- `schema_version`. -/
def schemaVersion (db : Db σ) : Int := db.applied.foldl max 0

/-- `discover_migrations`: the migrations found, by version. -/
def discoverMigrations (found : List Migration) : List Migration :=
  found.insertionSort fun m m' => m.version ≤ m'.version

/-- The migrations that are not recorded. -/
def pending (found : List Migration) (db : Db σ) : List Migration :=
  (discoverMigrations found).filter fun m => !db.applied.contains m.version

/-- A version is recorded; the version is the key of the ledger. -/
def record (faults : Faults) (v : Int) (db : Db σ) : Except String (Db σ) :=
  match faults.record v with
  | some e => .error e
  | none =>
    if v ∈ db.applied then .error "UNIQUE constraint failed: schema_migrations.version"
    else .ok { db with applied := v :: db.applied }

/-- The error of a migration that fails. -/
def failedMessage (m : Migration) (e : String) : String :=
  "migration " ++ toString m.version ++ " (" ++ m.slug ++ ") failed: " ++ e

/-- One migration is applied and recorded: the database, and the error if there is one. -/
def applyMigration (faults : Faults) (m : Migration) (db : Db σ) :
    Db σ × Option String :=
  let (schema, failure) := executeBatch E (faults.statement m.version) m.up db.schema
  let left := { db with schema := schema }
  match failure.filter fun e => !m.tolerates e with
  | some e => (left, some (failedMessage m e))
  | none =>
    match record faults m.version left with
    | .ok recorded => (recorded, none)
    | .error e => (left, some e)

/-- Migrations are applied one after another, up to the first error. -/
def applyMigrations (faults : Faults) : List Migration → Db σ → Db σ × Option String
  | [], db => (db, none)
  | m :: ms, db =>
    match applyMigration E faults m db with
    | (db', none) => applyMigrations faults ms db'
    | (db', some e) => (db', some e)

/-- One migration is reverted and its record deleted. -/
def revertMigration (faults : Faults) (all : List Migration) (v : Int) (db : Db σ) :
    Db σ × Option String :=
  match all.find? fun m => m.version == v with
  | none =>
    (db, some ("migration " ++ toString v ++ " was applied by a newer orca than this one, which " ++
      "carries no down step for it. Revert it with a binary that has " ++ toString v ++
      ", or upgrade this one — clearing the tracking row would make the reported schema version " ++
      "disagree with the tables."))
  | some m =>
    let (schema, failure) :=
      match m.down with
      | some sql => executeBatch E (faults.statement v) sql db.schema
      | none => (db.schema, none)
    let left := { db with schema := schema }
    match failure.or (faults.record v) with
    | some e => (left, some e)
    | none => ({ left with applied := left.applied.filter (· != v) }, none)

/-- Migrations are reverted one after another, up to the first error. -/
def revertMigrations (faults : Faults) (all : List Migration) :
    List Int → Db σ → Db σ × Option String
  | [], db => (db, none)
  | v :: vs, db =>
    match revertMigration E faults all v db with
    | (db', none) => revertMigrations faults all vs db'
    | (db', some e) => (db', some e)

/-- `MigrateDirection`. -/
inductive MigrateDirection where
  | up
  | down

/-- `migrate`. -/
def migrate (found : List Migration) (faults : Faults) (direction : MigrateDirection) (steps : Nat)
    (db : Db σ) : Db σ × Except String Int :=
  let db := ensureMigrationsTable db
  match faults.read with
  | some e => (db, .error e)
  | none =>
    let (db', failure) :=
      match direction with
      | .up => applyMigrations E faults ((pending found db).take steps) db
      | .down =>
        let newestFirst := (db.applied.filter (0 < ·)).insertionSort (· ≥ ·)
        revertMigrations E faults (discoverMigrations found) (newestFirst.take steps) db
    match failure.or faults.last with
    | some e => (db', .error e)
    | none => (db', .ok (schemaVersion db'))

/-! ## What migrations mean -/

/-- Every statement is run, where one that fails in the tolerated way is skipped. -/
def settle (tolerated : String → Bool) : List String → σ → Except String σ
  | [], s => .ok s
  | st :: rest, s =>
    match E.exec st s with
    | .ok s' => settle tolerated rest s'
    | .error e => if tolerated e then settle tolerated rest s else .error e

/-- What a migration means. -/
def Migration.meaning (m : Migration) (s : σ) : Except String σ :=
  settle E m.tolerates (E.split m.up) s

/-- What migrations mean, in their order. -/
def meaning (ms : List Migration) (s : σ) : Except String σ :=
  ms.foldlM (fun s m => m.meaning E s) s

/-! ## Calls -/

/-- A call of `migrate` upwards. -/
structure Call where
  /-- How many migrations it applies at most. -/
  steps : Nat
  faults : Faults

/-- The database after a call. -/
def step (found : List Migration) (db : Db σ) (c : Call) : Db σ :=
  (migrate E found c.faults .up c.steps db).1

/-- The call succeeds. -/
def succeeds (found : List Migration) (db : Db σ) (c : Call) : Bool :=
  (migrate E found c.faults .up c.steps db).2.isOk

/-- After every call that succeeds, the schema is what the migrations recorded since the start
mean; if the call was not limited to fewer, these are all that were pending. -/
def AppliedWereRun (found : List Migration) (start : Db σ) (run : List Call) : Prop :=
  ∀ before c, before ++ [c] <+: run → 0 < c.steps →
    succeeds E found (before.foldl (step E found) start) c →
      ∃ done, pending found (ensureMigrationsTable start) =
          done ++ pending found ((before ++ [c]).foldl (step E found) start) ∧
        meaning E done start.schema = .ok ((before ++ [c]).foldl (step E found) start).schema ∧
        ((pending found (ensureMigrationsTable (before.foldl (step E found) start))).length ≤
            c.steps →
          pending found ((before ++ [c]).foldl (step E found) start) = [])

/-- Statements are run from the `i`-th on, and none of them fails. -/
inductive Runs (fails : Nat → Option String) : Nat → List String → σ → σ → Prop
  | nil (i : Nat) (s : σ) : Runs fails i [] s s
  /-- The first one, and then the others. -/
  | cons {i : Nat} {st : String} {rest : List String} {s mid s' : σ} (hfault : fails i = none)
    (hexec : E.exec st s = .ok mid) (hrest : Runs fails (i + 1) rest mid s') :
    Runs fails i (st :: rest) s s'

/-- After the statements `ran`, which leave the schema `s'`, the statement `st` fails. -/
structure Halts (fails : Nat → Option String) (i : Nat) (stmts : List String) (s : σ)
    (ran : List String) (st : String) (rest : List String) (s' : σ) (e : String) : Prop where
  split : stmts = ran ++ st :: rest
  runs : Runs E fails i ran s s'
  /-- The next one fails for its own part, or for a fault. -/
  failure : fails (i + ran.length) = some e ∨
    fails (i + ran.length) = none ∧ E.exec st s' = .error e

/-- The statement would be skipped at the schema, or leave it as it is. -/
def Idle (tolerated : String → Bool) (st : String) (s : σ) : Prop :=
  E.exec st s = .ok s ∨ ∃ e, E.exec st s = .error e ∧ tolerated e = true

/-- Where a statement of the migration fails in the tolerated way and the version can be recorded,
it and all that follow are idle. -/
def Skippable (faults : Faults) (m : Migration) (s : σ) : Prop :=
  ∀ ran st rest s' e, Halts E (faults.statement m.version) 0 (E.split m.up) s ran st rest s' e →
    m.tolerates e = true → faults.record m.version = none →
      ∀ st' ∈ st :: rest, Idle E m.tolerates st' s'

/-- Where the migration stops, the statements that have been run lead back to the same schema when
they are run again. -/
structure Repeatable (faults : Faults) (m : Migration) (s : σ) : Prop where
  /-- A statement fails, and is not tolerated or the version cannot be recorded. -/
  halted : ∀ ran st rest s' e,
    Halts E (faults.statement m.version) 0 (E.split m.up) s ran st rest s' e →
      m.tolerates e = false ∨ faults.record m.version ≠ none →
        settle E m.tolerates ran s' = .ok s'
  /-- All of them have been run, and the version cannot be recorded. -/
  unrecorded : ∀ s', Runs E (faults.statement m.version) 0 (E.split m.up) s s' →
    faults.record m.version ≠ none → settle E m.tolerates (E.split m.up) s' = .ok s'

/-- The text of the migration ends, or fails in the tolerated way, and the version can be
recorded. -/
def IsRecorded (faults : Faults) (m : Migration) (s : σ) : Prop :=
  (executeBatch E (faults.statement m.version) m.up s).2.all m.tolerates = true ∧
    faults.record m.version = none

/-- A condition on a migration at a schema, for several migrations at the schemas that they find, as
far as the call gets. -/
def ForEach (condition : Faults → Migration → σ → Prop) (faults : Faults) :
    List Migration → σ → Prop
  | [], _ => True
  | m :: ms, s => condition faults m s ∧ (IsRecorded E faults m s →
      ForEach condition faults ms (executeBatch E (faults.statement m.version) m.up s).1)

/-- The condition for the migrations that a call runs. -/
def InCall (condition : Faults → Migration → σ → Prop) (found : List Migration) (db : Db σ)
    (c : Call) : Prop :=
  c.faults.read = none → ForEach E condition c.faults
    ((pending found (ensureMigrationsTable db)).take c.steps) db.schema

/-- The condition for each call of a run that is followed by one that runs migrations. -/
def IfRetried (condition : Faults → Migration → σ → Prop) (found : List Migration) (start : Db σ)
    (run : List Call) : Prop :=
  ∀ before c after, run = before ++ c :: after →
    (∃ c' ∈ after, c'.faults.read = none ∧ 0 < c'.steps) →
      InCall E condition found (before.foldl (step E found) start) c

/-! ## One migration -/

section Apply

variable {E} {faults : Faults} {m : Migration} {db : Db σ}

/-- A text ends, or one of its statements fails. -/
lemma runStatements_cases (fails : Nat → Option String) (i : Nat) (stmts : List String) (s : σ) :
    (∃ s', runStatements E fails i stmts s = (s', none) ∧ Runs E fails i stmts s s') ∨
      ∃ ran st rest s' e, runStatements E fails i stmts s = (s', some e) ∧
        Halts E fails i stmts s ran st rest s' e := by
  induction stmts generalizing i s with
  | nil => exact Or.inl ⟨s, rfl, .nil i s⟩
  | cons st rest ih =>
    unfold runStatements
    cases hfault : fails i with
    | some e => exact Or.inr ⟨[], st, rest, s, e, rfl, rfl, .nil i s, Or.inl hfault⟩
    | none =>
      dsimp only
      cases hexec : E.exec st s with
      | error e => exact Or.inr ⟨[], st, rest, s, e, rfl, rfl, .nil i s, Or.inr ⟨hfault, hexec⟩⟩
      | ok mid =>
        rcases ih (i + 1) mid with ⟨s', heq, hruns⟩ | ⟨ran, st', rest', s', e, heq, hhalts⟩
        · exact Or.inl ⟨s', heq, .cons hfault hexec hruns⟩
        · refine Or.inr ⟨st :: ran, st', rest', s', e, heq, ?_, .cons hfault hexec hhalts.runs, ?_⟩
          · rw [hhalts.split, List.cons_append]
          · rw [List.length_cons, Nat.add_comm ran.length, ← Nat.add_assoc]
            exact hhalts.failure

/-- A text with a statement that fails ends there. -/
lemma Halts.runStatements_eq {fails : Nat → Option String} {i : Nat} {stmts ran rest : List String}
    {st e : String} {s s' : σ} (h : Halts E fails i stmts s ran st rest s' e) :
    runStatements E fails i stmts s = (s', some e) := by
  obtain ⟨rfl, hruns, hfailure⟩ := h
  induction hruns with
  | nil i s =>
    rw [List.nil_append, runStatements]
    rcases hfailure with hfault | ⟨hfault, hexec⟩
    · rw [show fails i = some e from hfault]
    · rw [show fails i = none from hfault, hexec]
  | @cons i _ ran _ _ _ hfault hexec _ ih =>
    rw [List.cons_append, runStatements, hfault, hexec]
    refine ih ?_
    rwa [List.length_cons, Nat.add_comm ran.length, ← Nat.add_assoc] at hfailure

/-- One part of a text after the other. -/
lemma settle_append (tolerated : String → Bool) (a b : List String) (s : σ) :
    settle E tolerated (a ++ b) s = settle E tolerated a s >>= settle E tolerated b := by
  induction a generalizing s with
  | nil => rfl
  | cons st a ih =>
    rw [List.cons_append, settle, settle]
    cases E.exec st s with
    | ok s' => exact ih s'
    | error e =>
      dsimp only
      split
      · exact ih s
      · rfl

lemma Runs.settle {fails : Nat → Option String} {i : Nat} {stmts : List String} {s s' : σ}
    (h : Runs E fails i stmts s s') (tolerated : String → Bool) :
    settle E tolerated stmts s = .ok s' := by
  induction h with
  | nil => rfl
  | cons _ hexec _ ih =>
    rw [Database.settle, hexec]
    exact ih

/-- Idle statements leave the schema as it is. -/
lemma settle_of_idle {tolerated : String → Bool} {stmts : List String} {s : σ}
    (h : ∀ st ∈ stmts, Idle E tolerated st s) : settle E tolerated stmts s = .ok s := by
  induction stmts with
  | nil => rfl
  | cons st rest ih =>
    obtain ⟨hst, hrest⟩ := List.forall_mem_cons.mp h
    rw [settle]
    rcases hst with hexec | ⟨e, hexec, htolerated⟩
    · rw [hexec]
      exact ih hrest
    · rw [hexec]
      dsimp only
      rw [if_pos htolerated]
      exact ih hrest

/-- A migration that is recorded leaves what it means. -/
lemma Skippable.meaning_eq {s : σ} (h : Skippable E faults m s)
    (hrecorded : IsRecorded E faults m s) :
    m.meaning E s = .ok (executeBatch E (faults.statement m.version) m.up s).1 := by
  obtain ⟨htolerated, hrecord⟩ := hrecorded
  unfold Migration.meaning executeBatch at *
  rcases runStatements_cases (E := E) (faults.statement m.version) 0 (E.split m.up) s with
    ⟨s', heq, hruns⟩ | ⟨ran, st, rest, s', e, heq, hhalts⟩
  · rw [heq]
    exact hruns.settle m.tolerates
  · rw [heq] at htolerated ⊢
    rw [hhalts.split, settle_append, hhalts.runs.settle]
    exact settle_of_idle (h ran st rest s' e hhalts htolerated hrecord)

/-- Running a migration once more that has stopped has the result that running it has. -/
lemma Repeatable.meaning_eq {s : σ} (h : Repeatable E faults m s)
    (hstopped : ¬IsRecorded E faults m s) :
    m.meaning E (executeBatch E (faults.statement m.version) m.up s).1 = m.meaning E s := by
  unfold IsRecorded executeBatch Migration.meaning at *
  rcases runStatements_cases (E := E) (faults.statement m.version) 0 (E.split m.up) s with
    ⟨s', heq, hruns⟩ | ⟨ran, st, rest, s', e, heq, hhalts⟩
  · rw [heq] at hstopped ⊢
    rw [hruns.settle]
    exact h.unrecorded s' hruns fun hrecord => hstopped ⟨rfl, hrecord⟩
  · rw [heq] at hstopped ⊢
    have hagain : settle E m.tolerates ran s' = .ok s' := by
      refine h.halted ran st rest s' e hhalts ?_
      by_cases htolerated : m.tolerates e = true
      · exact Or.inr fun hrecord => hstopped ⟨htolerated, hrecord⟩
      · exact Or.inl (Bool.eq_false_iff.mpr htolerated)
    dsimp only
    rw [hhalts.split, settle_append, settle_append, hagain, hhalts.runs.settle]

lemma filter_eq_none_iff {failure : Option String} {p : String → Bool} :
    (failure.filter fun e => !p e) = none ↔ failure.all p = true := by
  cases failure with
  | none => simp
  | some e => cases hp : p e <;> simp [Option.filter_some, hp]

/-- A migration that is recorded. -/
lemma applyMigration_of_recorded (h : IsRecorded E faults m db.schema)
    (hnew : m.version ∉ db.applied) : applyMigration E faults m db =
      ({ db with
          schema := (executeBatch E (faults.statement m.version) m.up db.schema).1
          applied := m.version :: db.applied }, none) := by
  unfold applyMigration
  dsimp only
  rw [filter_eq_none_iff.mpr h.1]
  dsimp only [record]
  rw [h.2]
  dsimp only
  rw [if_neg hnew]

/-- A migration that stops the call. -/
lemma applyMigration_of_stopped (h : ¬IsRecorded E faults m db.schema) :
    ∃ e, applyMigration E faults m db = ({ db with
      schema := (executeBatch E (faults.statement m.version) m.up db.schema).1 }, some e) := by
  unfold applyMigration
  dsimp only
  cases hfailure : ((executeBatch E (faults.statement m.version) m.up db.schema).2.filter
      fun e => !m.tolerates e) with
  | some e => exact ⟨_, rfl⟩
  | none =>
    cases hrecord : faults.record m.version with
    | none => exact absurd ⟨filter_eq_none_iff.mp hfailure, hrecord⟩ h
    | some e =>
      dsimp only [record]
      rw [hrecord]
      exact ⟨_, rfl⟩

end Apply

/-! ## The loop -/

section Loop

variable {E} {found : List Migration} {faults : Faults} {first : σ} {done : List Migration}
  {db : Db σ}

/-- The schema is what the migrations of `done` mean, but for a run of the next migration that
stopped: then running that migration once more makes up for it. -/
def Tracks (E : Engine σ) (found : List Migration) (first : σ) (done : List Migration)
    (db : Db σ) : Prop :=
  ∃ clean, meaning E done first = .ok clean ∧ (db.schema = clean ∨
    ∃ m ms, pending found db = m :: ms ∧ m.meaning E db.schema = m.meaning E clean)

lemma Tracks.next {m : Migration} {ms : List Migration} (h : Tracks E found first done db)
    (hpending : pending found db = m :: ms) :
    ∃ clean, meaning E done first = .ok clean ∧ m.meaning E db.schema = m.meaning E clean := by
  obtain ⟨clean, hclean, rfl | ⟨m', ms', hpending', hsame⟩⟩ := h
  · exact ⟨_, hclean, rfl⟩
  · rw [hpending] at hpending'
    obtain ⟨rfl, rfl⟩ := List.cons.inj hpending'
    exact ⟨clean, hclean, hsame⟩

lemma meaning_snoc (done : List Migration) (m : Migration) (first : σ) :
    meaning E (done ++ [m]) first = meaning E done first >>= m.meaning E := by
  simp [meaning, List.foldlM_append]

/-- The migrations found are those discovered, in some order. -/
lemma discoverMigrations_perm (found : List Migration) :
    (discoverMigrations found).Perm found :=
  List.perm_insertionSort _ found

/-- Once the first pending migration is recorded, the others are pending. -/
lemma pending_of_record {m : Migration} {ms : List Migration}
    (hnodup : (found.map Migration.version).Nodup) (hpending : pending found db = m :: ms)
    (schema : σ) :
    pending found { db with schema := schema, applied := m.version :: db.applied } = ms := by
  have hversions : ((pending found db).map Migration.version).Nodup := by
    have hsorted := (((discoverMigrations_perm found).map Migration.version).nodup_iff).mpr hnodup
    exact hsorted.sublist (List.filter_sublist.map _)
  have hrest : pending found { db with schema := schema, applied := m.version :: db.applied } =
      (pending found db).filter fun m' => m'.version != m.version := by
    unfold pending
    rw [List.filter_filter]
    refine List.filter_congr fun m' _ => ?_
    rw [List.contains_cons, Bool.not_or]
    rfl
  rw [hpending, List.map_cons, List.nodup_cons] at hversions
  rw [hrest, hpending, List.filter_cons_of_neg (by simp)]
  refine List.filter_eq_self.mpr fun m' hm' => bne_iff_ne.mpr fun hsame => ?_
  exact hversions.1 (hsame ▸ List.mem_map_of_mem hm')

lemma not_mem_applied {m : Migration} (h : m ∈ pending found db) : m.version ∉ db.applied := by
  simpa using (List.mem_filter.mp h).2

/-- The migrations that a call applies: what it leaves is what the migrations so far mean, and if
it gets through, it has applied them all. -/
lemma applyMigrations_tracks (hnodup : (found.map Migration.version).Nodup)
    {todo later : List Migration} (hpending : pending found db = todo ++ later)
    (htracks : Tracks E found first done db)
    (hskippable : ForEach E (Skippable E) faults todo db.schema) :
    ∃ ran, pending found db = ran ++ pending found (applyMigrations E faults todo db).1 ∧
      (ForEach E (Repeatable E) faults todo db.schema →
        Tracks E found first (done ++ ran) (applyMigrations E faults todo db).1) ∧
      ((applyMigrations E faults todo db).2 = none → ran = todo ∧
        (meaning E done first = .ok db.schema ∨ todo ≠ [] →
          meaning E (done ++ ran) first = .ok (applyMigrations E faults todo db).1.schema)) := by
  induction todo generalizing done db with
  | nil =>
    refine ⟨[], rfl, fun _ => by rwa [List.append_nil], fun _ => ⟨rfl, fun hmeaning => ?_⟩⟩
    rw [List.append_nil]
    exact hmeaning.resolve_right (absurd rfl)
  | cons m ms ih =>
    obtain ⟨hm, hms⟩ := hskippable
    have hhead : m ∈ pending found db := by
      rw [hpending]
      exact List.mem_cons_self
    have hnew : m.version ∉ db.applied := not_mem_applied hhead
    obtain ⟨clean, hclean, hsame⟩ := htracks.next hpending
    by_cases hrecorded : IsRecorded E faults m db.schema
    · -- the migration is recorded, and has left what it means
      rw [applyMigrations, applyMigration_of_recorded hrecorded hnew]
      dsimp only
      have hleft := hm.meaning_eq hrecorded
      have hpending' : pending found { db with
          schema := (executeBatch E (faults.statement m.version) m.up db.schema).1
          applied := m.version :: db.applied } = ms ++ later :=
        pending_of_record hnodup hpending _
      have hdone : meaning E (done ++ [m]) first =
          .ok (executeBatch E (faults.statement m.version) m.up db.schema).1 := by
        rw [meaning_snoc, hclean, ← hleft, hsame]
        rfl
      obtain ⟨ran, hran, htracks', hall⟩ :=
        ih hpending' ⟨_, hdone, Or.inl rfl⟩ (hms hrecorded)
      refine ⟨m :: ran, ?_, fun hrepeatable => ?_, fun hnone => ?_⟩
      · rw [hpending, List.cons_append, List.cons_append, ← hran, hpending']
      · rw [List.append_cons]
        exact htracks' (hrepeatable.2 hrecorded)
      · obtain ⟨rfl, hmeaning⟩ := hall hnone
        refine ⟨rfl, fun _ => ?_⟩
        rw [List.append_cons]
        exact hmeaning (Or.inl hdone)
    · -- the call stops in the migration
      obtain ⟨e, hstop⟩ := applyMigration_of_stopped hrecorded
      rw [applyMigrations, hstop]
      refine ⟨[], rfl, fun hrepeatable => ?_, fun hnone => nomatch hnone⟩
      rw [List.append_nil]
      exact ⟨clean, hclean, Or.inr ⟨m, ms ++ later, hpending,
        (hrepeatable.1.meaning_eq hrecorded).trans hsame⟩⟩

end Loop

/-! ## The ledger -/

section Ledger

variable {E} {found : List Migration} {db : Db σ}

/-- The ledger has its baseline row, if it needs one. -/
def Seeded (db : Db σ) : Prop := ¬(0 ∉ db.applied ∧ 0 < db.userVersion)

lemma ensureMigrationsTable_of_seeded (h : Seeded db) : ensureMigrationsTable db = db := if_neg h

lemma seeded_ensureMigrationsTable (db : Db σ) : Seeded (ensureMigrationsTable db) := by
  unfold ensureMigrationsTable
  split
  · exact fun h => h.1 List.mem_cons_self
  · assumption

lemma ensureMigrationsTable_schema (db : Db σ) : (ensureMigrationsTable db).schema = db.schema := by
  unfold ensureMigrationsTable
  split <;> rfl

/-- A migration leaves the baseline row. -/
lemma seeded_applyMigration {faults : Faults} {m : Migration} (h : Seeded db) :
    Seeded (applyMigration E faults m db).1 := by
  by_cases hrecorded : IsRecorded E faults m db.schema
  · by_cases hnew : m.version ∈ db.applied
    · unfold applyMigration
      dsimp only
      rw [filter_eq_none_iff.mpr hrecorded.1]
      dsimp only [record]
      rw [hrecorded.2]
      dsimp only
      rw [if_pos hnew]
      exact h
    · rw [applyMigration_of_recorded hrecorded hnew]
      exact fun hboth => h ⟨fun hzero => hboth.1 (List.mem_cons_of_mem _ hzero), hboth.2⟩
  · obtain ⟨e, hstop⟩ := applyMigration_of_stopped hrecorded
    rw [hstop]
    exact h

/-- Migrations leave the baseline row. -/
lemma seeded_applyMigrations {faults : Faults} {todo : List Migration} (h : Seeded db) :
    Seeded (applyMigrations E faults todo db).1 := by
  induction todo generalizing db with
  | nil => exact h
  | cons m ms ih =>
    have hm : Seeded (applyMigration E faults m db).1 := seeded_applyMigration h
    rw [applyMigrations]
    split
    · rename_i hone
      rw [hone] at hm
      exact ih hm
    · rename_i hone
      rw [hone] at hm
      exact hm

/-- What a call upwards does, and when it succeeds. -/
lemma migrate_up (E : Engine σ) (found : List Migration) (db : Db σ) (c : Call) :
    (c.faults.read ≠ none ∧ step E found db c = ensureMigrationsTable db ∧
      succeeds E found db c = false) ∨
    (c.faults.read = none ∧
      step E found db c = (applyMigrations E c.faults
        ((pending found (ensureMigrationsTable db)).take c.steps) (ensureMigrationsTable db)).1 ∧
      (succeeds E found db c = true → (applyMigrations E c.faults
        ((pending found (ensureMigrationsTable db)).take c.steps)
          (ensureMigrationsTable db)).2 = none)) := by
  unfold step succeeds migrate
  dsimp only
  cases c.faults.read with
  | some e => exact Or.inl ⟨Option.some_ne_none e, rfl, rfl⟩
  | none =>
    refine Or.inr ⟨rfl, ?_⟩
    dsimp only
    generalize applyMigrations E c.faults ((pending found (ensureMigrationsTable db)).take c.steps)
      (ensureMigrationsTable db) = out
    obtain ⟨db', failure⟩ := out
    cases failure with
    | some e => exact ⟨rfl, fun h => nomatch h⟩
    | none => cases c.faults.last <;> exact ⟨rfl, fun _ => rfl⟩

lemma seeded_step (c : Call) : Seeded (step E found db c) := by
  rcases migrate_up E found db c with ⟨_, hstep, _⟩ | ⟨_, hstep, _⟩
  · exact hstep ▸ seeded_ensureMigrationsTable db
  · exact hstep ▸ seeded_applyMigrations (seeded_ensureMigrationsTable db)

end Ledger

/-! ## Runs -/

section Runs

variable {E} {found : List Migration} {start db : Db σ}

/-- The invariant of the calls: the migrations pending at the start are some that are recorded and
those that are pending now, and the schema is what the recorded ones mean, but for a run of the next
migration that stopped. -/
def Applied (E : Engine σ) (found : List Migration) (start db : Db σ) : Prop :=
  ∃ done, pending found (ensureMigrationsTable start) =
      done ++ pending found (ensureMigrationsTable db) ∧
    Tracks E found start.schema done (ensureMigrationsTable db)

lemma applied_start (start : Db σ) : Applied E found start start :=
  ⟨[], rfl, start.schema, rfl, Or.inl (ensureMigrationsTable_schema start)⟩

/-- What a call does to the migrations applied. -/
lemma applied_call (hnodup : (found.map Migration.version).Nodup)
    (happlied : Applied E found start db) {c : Call} (hread : c.faults.read = none)
    (hskippable : InCall E (Skippable E) found db c) :
    ∃ done, pending found (ensureMigrationsTable start) =
        done ++ pending found (step E found db c) ∧
      (InCall E (Repeatable E) found db c →
        Tracks E found start.schema done (step E found db c)) ∧
      (0 < c.steps → succeeds E found db c = true →
        pending found (step E found db c) =
            (pending found (ensureMigrationsTable db)).drop c.steps ∧
          meaning E done start.schema = .ok (step E found db c).schema) := by
  obtain ⟨done, hdone, htracks⟩ := happlied
  rcases migrate_up E found db c with ⟨hfail, _⟩ | ⟨_, hstep, hok⟩
  · exact absurd hread hfail
  have hsplit := (List.take_append_drop c.steps (pending found (ensureMigrationsTable db))).symm
  have hall := hskippable hread
  rw [← ensureMigrationsTable_schema db] at hall
  obtain ⟨ran, hran, htracks', hthrough⟩ := applyMigrations_tracks hnodup hsplit htracks hall
  rw [← hstep] at hran htracks' hthrough
  refine ⟨done ++ ran, by rw [hdone, hran, List.append_assoc], fun hrepeatable => ?_,
    fun hsteps hsucceeds => ?_⟩
  · refine htracks' ?_
    rw [ensureMigrationsTable_schema]
    exact hrepeatable hread
  obtain ⟨rfl, hmeaning⟩ := hthrough (hok hsucceeds)
  refine ⟨List.append_cancel_left (hran.symm.trans hsplit), hmeaning ?_⟩
  -- a call that has nothing to do finds the schema as the recorded migrations mean it
  by_cases hnone : pending found (ensureMigrationsTable db) = []
  · obtain ⟨clean, hclean, rfl | ⟨m, ms, hnext, _⟩⟩ := htracks
    · exact Or.inl hclean
    · exact absurd (hnone.symm.trans hnext) (List.cons_ne_nil m ms).symm
  · refine Or.inr fun hempty => ?_
    rcases List.take_eq_nil_iff.mp hempty with hzero | hnil
    · exact hsteps.ne' hzero
    · exact hnone hnil

/-- A call that meets the conditions keeps the invariant. -/
lemma applied_step (hnodup : (found.map Migration.version).Nodup) (db : Db σ) (c : Call)
    (happlied : Applied E found start db)
    (hsound : InCall E (Skippable E) found db c ∧ InCall E (Repeatable E) found db c) :
    Applied E found start (step E found db c) := by
  unfold Applied
  rw [ensureMigrationsTable_of_seeded (seeded_step c)]
  rcases migrate_up E found db c with ⟨_, hstep, _⟩ | ⟨hread, _⟩
  · rw [hstep]
    exact happlied
  · obtain ⟨done, hdone, htracks, _⟩ := applied_call hnodup happlied hread hsound.1
    exact ⟨done, hdone, htracks hsound.2⟩

end Runs

end Engine

/-! ## A call that fails half-way -/

/-- The table that a statement of the sample creates. -/
def sampleTable (st : String) : String :=
  String.ofList ((st.toList.drop 13).takeWhile (· ≠ ';'))

/-- An engine whose schema is the names of the tables and whose statements each stand on a line of
their own. -/
def sampleEngine : Engine (List String) where
  split := lines
  exec st tables :=
    if sampleTable st ∈ tables then .error ("table " ++ sampleTable st ++ " already exists")
    else .ok (tables ++ [sampleTable st])

/-- A migration with two statements. -/
def sampleMigration : Migration where
  version := 20260601120000
  slug := "add_a_and_b"
  up := "CREATE TABLE a;\nCREATE TABLE b;"
  down := none

/-- A database with nothing in it. -/
def emptyDb : Db (List String) := ⟨[], [], 0⟩

/-- A call in which nothing fails. -/
def quietCall : Call := ⟨1, ⟨none, fun _ _ => none, fun _ => none, none⟩⟩

/-- A call in which the database is locked at one statement. -/
def lockedCall (at_statement : Nat) : Call :=
  ⟨1, ⟨none, fun _ i => if i = at_statement then some "database is locked" else none,
    fun _ => none, none⟩⟩

end Orca.Database
