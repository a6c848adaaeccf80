import Mathlib.Data.List.Sort
import Orca.Library.KeyedTable
import Orca.Secrets.PluginColumns

/-!
# Namespaces of plugins

The tables of a plugin have names made from its id and the plugin's own name for the table, with
`__` before, between and after the id: `plug__<id>__<table>`.  The dashes of the id are written as
underscores.  The id neither ends with a dash nor has two in a row, and the name of the table has no
two underscores in a row; so a name is made in one way only (`physicalTableName_injective`), even
though the table's name may start or end with an underscore.

`dropNamespace` drops the tables of a plugin: those in the database whose names could have been made
for it.  It drops all of them or none, whichever of its statements fail (`namespaces_never_alias`).
-/

namespace Orca.Plugins

open Secrets Check

/-! ## Names are made in one way -/

/-- Dashes as underscores. -/
def foldDashes (l : List Char) : List Char := l.map fun c => if c = '-' then '_' else c

lemma isValidPluginId_iff {id : String} : isValidPluginId id = true ↔
    id.utf8ByteSize ≤ 64 ∧ id.toList.head?.any Char.isLower = true ∧
      (∀ c ∈ id.toList, (c == '-' || c.isLower || c.isDigit) = true) ∧
      id.toList.getLast? ≠ some '-' ∧ hasDoubleDash id.toList = false := by
  simp only [isValidPluginId, Bool.and_eq_true, decide_eq_true_eq, List.all_eq_true,
    Bool.not_eq_true', bne_iff_ne, ne_eq, and_assoc]

lemma underscore_notMem {id : String} (h : isValidPluginId id = true) : '_' ∉ id.toList :=
  fun hmem => absurd ((isValidPluginId_iff.mp h).2.2.1 '_' hmem) (by decide)

/-- Without underscores, the folded text determines the text. -/
lemma foldDashes_injective {l l' : List Char} (hl : '_' ∉ l) (hl' : '_' ∉ l')
    (h : foldDashes l = foldDashes l') : l = l' := by
  have hback : ∀ l : List Char, '_' ∉ l →
      (foldDashes l).map (fun c => if c = '_' then '-' else c) = l := by
    intro l hl
    unfold foldDashes
    rw [List.map_map]
    conv_rhs => rw [← List.map_id l]
    refine List.map_congr_left fun c hc => ?_
    have hne : c ≠ '_' := fun heq => hl (heq ▸ hc)
    by_cases hdash : c = '-'
    · simp [hdash]
    · simp [hdash, hne]
  rw [← hback l hl, ← hback l' hl', h]

/-- Two underscores in a row. -/
lemma hasDoubleUnderscore_iff (l : List Char) :
    hasDoubleUnderscore l = true ↔ ['_', '_'] <:+: l := by
  fun_induction hasDoubleUnderscore l with
  | case1 rest => exact iff_of_true rfl ⟨[], rest, rfl⟩
  | case2 c rest hne ih =>
    rw [ih, List.infix_cons_iff]
    refine ⟨Or.inr, fun h => h.resolve_left ?_⟩
    rintro ⟨tail, htail⟩
    exact hne tail (List.cons.inj htail).1.symm (List.cons.inj htail).2.symm
  | case3 => exact iff_of_false Bool.false_ne_true (by simp)

/-- Two dashes in a row. -/
lemma hasDoubleDash_iff (l : List Char) : hasDoubleDash l = true ↔ ['-', '-'] <:+: l := by
  fun_induction hasDoubleDash l with
  | case1 rest => exact iff_of_true rfl ⟨[], rest, rfl⟩
  | case2 c rest hne ih =>
    rw [ih, List.infix_cons_iff]
    refine ⟨Or.inr, fun h => h.resolve_left ?_⟩
    rintro ⟨tail, htail⟩
    exact hne tail (List.cons.inj htail).1.symm (List.cons.inj htail).2.symm
  | case3 => exact iff_of_false Bool.false_ne_true (by simp)

lemma eq_dash_of_fold {l : List Char} (hl : '_' ∉ l) {c : Char} (hc : c ∈ l)
    (h : (if c = '-' then '_' else c) = '_') : c = '-' := by
  by_contra hne
  rw [if_neg hne] at h
  exact hl (h ▸ hc)

/-- Folding makes two underscores in a row only out of two dashes in a row. -/
lemma hasDoubleUnderscore_foldDashes {l : List Char} (hl : '_' ∉ l)
    (h : hasDoubleDash l = false) : hasDoubleUnderscore (foldDashes l) = false := by
  rw [← Bool.not_eq_true, hasDoubleUnderscore_iff]
  rw [← Bool.not_eq_true, hasDoubleDash_iff] at h
  rintro ⟨start, rest, heq⟩
  obtain ⟨front, last, rfl, hfront, rfl⟩ := List.append_eq_map_iff.mp heq
  obtain ⟨front, mid, rfl, rfl, hmid⟩ := List.append_eq_map_iff.mp hfront.symm
  obtain ⟨c, mid, rfl, hc, hmid⟩ := List.map_eq_cons_iff.mp hmid
  obtain ⟨d, mid, rfl, hd, hmid⟩ := List.map_eq_cons_iff.mp hmid
  obtain rfl := List.map_eq_nil_iff.mp hmid
  have hcdash : c = '-' := eq_dash_of_fold hl (by simp) hc
  have hddash : d = '-' := eq_dash_of_fold hl (by simp) hd
  subst hcdash hddash
  exact h ⟨front, last, rfl⟩

lemma getLast?_foldDashes {l : List Char} (hl : '_' ∉ l) (h : l.getLast? ≠ some '-') :
    (foldDashes l).getLast? ≠ some '_' := by
  unfold foldDashes
  rw [List.getLast?_map]
  intro hlast
  obtain ⟨c, hc, hfold⟩ := Option.map_eq_some_iff.mp hlast
  rw [eq_dash_of_fold hl (List.mem_of_getLast? hc) hfold] at hc
  exact h hc

/-- The text before a separator of two underscores, which it neither has in it nor runs into, is not
an initial part of another such text. -/
lemma eq_nil_of_separated {front rest tail tail' : List Char}
    (hlast : (front ++ rest).getLast? ≠ some '_')
    (hdouble : hasDoubleUnderscore (front ++ rest) = false)
    (h : '_' :: '_' :: tail = rest ++ '_' :: '_' :: tail') : rest = [] := by
  rw [← Bool.not_eq_true, hasDoubleUnderscore_iff] at hdouble
  cases rest with
  | nil => rfl
  | cons c rest =>
    obtain ⟨hc, hrest⟩ := List.cons.inj h
    subst hc
    cases rest with
    | nil => exact absurd List.getLast?_concat hlast
    | cons d rest =>
      obtain ⟨hd, -⟩ := List.cons.inj hrest
      subst hd
      exact absurd ⟨front, rest, by simp⟩ hdouble

/-- A text that is put together with a separator of two underscores can be taken apart in one
way. -/
lemma separated_injective {front front' tail tail' : List Char}
    (hlast : front.getLast? ≠ some '_') (hdouble : hasDoubleUnderscore front = false)
    (hlast' : front'.getLast? ≠ some '_') (hdouble' : hasDoubleUnderscore front' = false)
    (h : front ++ '_' :: '_' :: tail = front' ++ '_' :: '_' :: tail') :
    front = front' ∧ tail = tail' := by
  rcases List.append_eq_append_iff.mp h with ⟨rest, rfl, hrest⟩ | ⟨rest, rfl, hrest⟩
  · obtain rfl := eq_nil_of_separated hlast' hdouble' hrest
    exact ⟨(List.append_nil _).symm, by simpa using hrest⟩
  · obtain rfl := eq_nil_of_separated hlast hdouble hrest
    exact ⟨List.append_nil _, by simpa using hrest.symm⟩

lemma physicalTableName_eq_ok {p t name : String} : physicalTableName p t = .ok name ↔
    isValidPluginId p = true ∧ validateSegment "table" t = .ok () ∧ name = physicalName p t := by
  unfold physicalTableName validatePrincipal
  rw [then_ok_iff, then_ok_iff, ensure_eq_ok, Except.ok.injEq]
  tauto

lemma toList_physicalName (p t : String) : (physicalName p t).toList =
    "plug__".toList ++ (foldDashes p.toList ++ '_' :: '_' :: t.toList) := by
  unfold physicalName foldDashes
  simp only [String.toList_append, String.toList_ofList, List.append_assoc]
  rfl

/-- What is behind the id determines the id, whatever it is. -/
lemma physicalName_injective {p q t u : String} (hp : isValidPluginId p = true)
    (hq : isValidPluginId q = true) (h : physicalName p t = physicalName q u) : p = q ∧ t = u := by
  obtain ⟨-, -, -, hplast, hpdouble⟩ := isValidPluginId_iff.mp hp
  obtain ⟨-, -, -, hqlast, hqdouble⟩ := isValidPluginId_iff.mp hq
  have hp' := underscore_notMem hp
  have hq' := underscore_notMem hq
  have hchars := congrArg String.toList h
  rw [toList_physicalName, toList_physicalName] at hchars
  obtain ⟨hfold, htable⟩ := separated_injective (getLast?_foldDashes hp' hplast)
    (hasDoubleUnderscore_foldDashes hp' hpdouble) (getLast?_foldDashes hq' hqlast)
    (hasDoubleUnderscore_foldDashes hq' hqdouble) (List.append_cancel_left hchars)
  exact ⟨String.toList_injective (foldDashes_injective hp' hq' hfold),
    String.toList_injective htable⟩

/-- A name is made for one plugin and one of its tables. -/
theorem physicalTableName_injective {p q t u name : String}
    (h : physicalTableName p t = .ok name) (h' : physicalTableName q u = .ok name) :
    p = q ∧ t = u := by
  obtain ⟨hp, -, rfl⟩ := physicalTableName_eq_ok.mp h
  obtain ⟨hq, -, heq⟩ := physicalTableName_eq_ok.mp h'
  exact physicalName_injective hp hq heq

/-! ## Dropping a namespace -/

/-- A table of the database. -/
structure SqlTable (ρ : Type) where
  name : String
  content : ρ

/-- A name as the database compares it: without regard to the case of its letters. -/
def foldCase (name : String) : String := String.ofList (name.toList.map Char.toLower)

/-- The tables of a database; their names are distinct. -/
abbrev SqlTables (ρ : Type) := KeyedTable fun t : SqlTable ρ => foldCase t.name

/-- A statement of `drop_namespace` that may fail. -/
inductive DropStatement where
  /-- The names of the tables are read. -/
  | select
  | savepoint
  | drop (table : String)
  /-- `ROLLBACK TO` and `RELEASE`, after a `DROP` that failed. -/
  | rollback
  /-- `RELEASE`, once every table is dropped. -/
  | release

section Drop

variable {ρ : Type}

/-- `DROP TABLE`. -/
def dropTable (table : String) (db : SqlTables ρ) : SqlTables ρ :=
  db.filter fun t => foldCase t.name != foldCase table

/-- `strip_prefix`. -/
def stripPrefix (start s : String) : Option String :=
  (start.toList.isPrefixOf? s.toList).map String.ofList

/-- The name is one of a table of the plugin. -/
def isTableOf (nameSpace name : String) : Bool :=
  (stripPrefix (physicalName nameSpace "") name).any fun t => (validateSegment "table" t).isOk

/-- The names that are dropped, in order. -/
def namespaceTables (nameSpace : String) (db : SqlTables ρ) : List String :=
  ((db.rows.map SqlTable.name).filter (isTableOf nameSpace)).insertionSort (· ≤ ·)

variable (fails : SqlTables ρ → DropStatement → Option String)

/-- A statement that may fail. -/
def run (db : SqlTables ρ) (statement : DropStatement) : Except String Unit :=
  match fails db statement with
  | none => .ok ()
  | some e => .error e

/-- A table is dropped.  If it cannot be, what has been dropped is rolled back, and a rollback that
fails is reported in its place. -/
def dropOne (db : SqlTables ρ) (table : String) : Except String (SqlTables ρ) :=
  match fails db (.drop table) with
  | none => .ok (dropTable table db)
  | some e => do
    run fails db .rollback
    .error e

/-- The tables are dropped one after another, up to the first that cannot be. -/
def dropEach (tables : List String) (db : SqlTables ρ) : Except String (SqlTables ρ) :=
  tables.foldlM (dropOne fails) db

/-- The statements of `drop_namespace`. -/
def dropAll (nameSpace : String) (db : SqlTables ρ) :
    Except String (List String × SqlTables ρ) := do
  validatePrincipal nameSpace
  run fails db .select
  run fails db .savepoint
  let dropped ← dropEach fails (namespaceTables nameSpace db) db
  run fails dropped .release
  .ok (namespaceTables nameSpace db, dropped)

/-- `drop_namespace`, with the tables as the transaction it runs in leaves them.
`purge_plugin_data` gives up on any error, and so does not commit what a failing rollback or release
leaves dropped. -/
def dropNamespace (nameSpace : String) (db : SqlTables ρ) :
    Except String (List String) × SqlTables ρ :=
  match dropAll fails nameSpace db with
  | .ok (tables, dropped) => (.ok tables, dropped)
  | .error e => (.error e, db)

variable {fails}

/-- The names of a plugin's tables are those that could have been made for it. -/
lemma isTableOf_iff {p : String} (hp : isValidPluginId p = true) (name : String) :
    isTableOf p name = true ↔ ∃ t, physicalTableName p t = .ok name := by
  have hname : ∀ t, physicalName p t = physicalName p "" ++ t := by
    intro t
    unfold physicalName
    rw [String.append_empty]
  unfold isTableOf stripPrefix
  rw [Option.any_eq_true]
  constructor
  · rintro ⟨t, hstrip, hvalid⟩
    obtain ⟨rest, hrest, rfl⟩ := Option.map_eq_some_iff.mp hstrip
    refine ⟨String.ofList rest, physicalTableName_eq_ok.mpr ⟨hp, ?_, ?_⟩⟩
    · cases hsegment : validateSegment "table" (String.ofList rest) with
      | ok u => rfl
      | error e => rw [hsegment] at hvalid; cases hvalid
    · rw [hname]
      refine String.toList_injective ?_
      rw [String.toList_append, String.toList_ofList]
      exact (List.isPrefixOf?_eq_some_iff_append_eq.mp hrest).symm
  · rintro ⟨t, ht⟩
    obtain ⟨-, hvalid, rfl⟩ := physicalTableName_eq_ok.mp ht
    refine ⟨t, Option.map_eq_some_iff.mpr ⟨t.toList, ?_, String.ofList_toList⟩, ?_⟩
    · refine List.isPrefixOf?_eq_some_iff_append_eq.mpr ?_
      rw [hname t, String.toList_append]
    · rw [hvalid]
      rfl

lemma mem_namespaceTables {p : String} (hp : isValidPluginId p = true) (db : SqlTables ρ)
    (name : String) : name ∈ namespaceTables p db ↔
      ∃ t, physicalTableName p t = .ok name ∧ ∃ tab ∈ db.rows, tab.name = name := by
  unfold namespaceTables
  rw [List.mem_insertionSort, List.mem_filter, List.mem_map, isTableOf_iff hp]
  tauto

lemma dropOne_eq_ok {table : String} {db db' : SqlTables ρ}
    (h : dropOne fails db table = .ok db') : db' = dropTable table db := by
  unfold dropOne at h
  cases hfail : fails db (.drop table) with
  | none =>
    rw [hfail] at h
    exact (Except.ok.inj h).symm
  | some e =>
    rw [hfail] at h
    obtain ⟨-, h⟩ := then_ok_iff.mp h
    cases h

/-- Dropping tables keeps those with other names. -/
lemma mem_rows_dropEach {tables : List String} {db db' : SqlTables ρ}
    (h : dropEach fails tables db = .ok db') (tab : SqlTable ρ) :
    tab ∈ db'.rows ↔ tab ∈ db.rows ∧ ∀ t ∈ tables, foldCase tab.name ≠ foldCase t := by
  unfold dropEach at h
  induction tables generalizing db with
  | nil =>
    cases h
    simp
  | cons t tables ih =>
    obtain ⟨mid, hmid, hrest⟩ := foldlM_cons_ok_iff.mp h
    cases dropOne_eq_ok hmid
    rw [ih hrest, dropTable, KeyedTable.filter, List.mem_filter, bne_iff_ne, List.forall_mem_cons,
      and_assoc]

/-- A successful call drops the tables with the names of the plugin. -/
lemma dropNamespace_ok {p : String} {db db' : SqlTables ρ} {dropped : List String}
    (h : dropNamespace fails p db = (.ok dropped, db')) :
    isValidPluginId p = true ∧ dropped = namespaceTables p db ∧
      dropEach fails dropped db = .ok db' := by
  unfold dropNamespace at h
  cases hall : dropAll fails p db with
  | error e =>
    rw [hall] at h
    cases h
  | ok result =>
    rw [hall] at h
    cases h
    obtain ⟨hvalid, hall⟩ := then_ok_iff.mp hall
    obtain ⟨-, hall⟩ := then_ok_iff.mp hall
    obtain ⟨-, hall⟩ := then_ok_iff.mp hall
    obtain ⟨db', hdrop, hall⟩ := chain_ok_iff.mp hall
    obtain ⟨-, hall⟩ := then_ok_iff.mp hall
    cases hall
    exact ⟨ensure_eq_ok.mp hvalid, rfl, hdrop⟩

/-- Which tables a successful call keeps. -/
lemma mem_rows_dropNamespace {p : String} {db db' : SqlTables ρ} {dropped : List String}
    (h : dropNamespace fails p db = (.ok dropped, db')) (tab : SqlTable ρ) :
    tab ∈ db'.rows ↔ tab ∈ db.rows ∧ ∀ t, physicalTableName p t ≠ .ok tab.name := by
  obtain ⟨hvalid, rfl, hdrop⟩ := dropNamespace_ok h
  rw [mem_rows_dropEach hdrop]
  refine and_congr_right fun htab => ?_
  constructor
  · intro hother t ht
    exact hother tab.name ((mem_namespaceTables hvalid db _).mpr ⟨t, ht, tab, htab, rfl⟩) rfl
  · intro hother name hname heq
    obtain ⟨t, ht, tab', htab', rfl⟩ := (mem_namespaceTables hvalid db name).mp hname
    -- two tables whose names differ in case only are one table
    rw [db.eq_of_key htab htab' heq] at hother
    exact hother t ht

lemma run_eq_error {db : SqlTables ρ} {statement : DropStatement} {e : String}
    (h : run fails db statement = .error e) : fails db statement = some e := by
  unfold run at h
  cases hfail : fails db statement with
  | none => rw [hfail] at h; cases h
  | some e' =>
    rw [hfail] at h
    rw [Except.error.inj h]

lemma dropOne_eq_error {table : String} {db : SqlTables ρ} {e : String}
    (h : dropOne fails db table = .error e) : ∃ statement, fails db statement = some e := by
  unfold dropOne at h
  cases hfail : fails db (.drop table) with
  | none => rw [hfail] at h; cases h
  | some e' =>
    rw [hfail] at h
    cases hrun : run fails db .rollback with
    | error e'' =>
      rw [hrun] at h
      cases h
      exact ⟨_, run_eq_error hrun⟩
    | ok u =>
      rw [hrun] at h
      cases h
      exact ⟨_, hfail⟩

/-- Dropping tables is refused by a statement that fails. -/
lemma dropEach_eq_error {tables : List String} {db : SqlTables ρ} {e : String}
    (h : dropEach fails tables db = .error e) : ∃ mid statement, fails mid statement = some e := by
  unfold dropEach at h
  induction tables generalizing db with
  | nil => cases h
  | cons t tables ih =>
    rw [List.foldlM_cons] at h
    cases hdrop : dropOne fails db t with
    | error e' =>
      rw [hdrop] at h
      cases h
      exact ⟨_, dropOne_eq_error hdrop⟩
    | ok db' =>
      rw [hdrop] at h
      exact ih h

/-- A call is refused for an id that is not valid, or by a statement that fails. -/
lemma dropAll_eq_error {p : String} {db : SqlTables ρ} {e : String}
    (h : dropAll fails p db = .error e) :
    validatePrincipal p = .error e ∨ ∃ mid statement, fails mid statement = some e := by
  unfold dropAll at h
  cases hvalid : validatePrincipal p with
  | error e' =>
    rw [hvalid] at h
    exact Or.inl (congrArg Except.error (Except.error.inj h))
  | ok u =>
    refine Or.inr ?_
    rw [hvalid] at h
    cases hselect : run fails db .select with
    | error e' =>
      rw [hselect] at h
      cases h
      exact ⟨_, _, run_eq_error hselect⟩
    | ok u =>
      rw [hselect] at h
      cases hsavepoint : run fails db .savepoint with
      | error e' =>
        rw [hsavepoint] at h
        cases h
        exact ⟨_, _, run_eq_error hsavepoint⟩
      | ok u =>
        rw [hsavepoint] at h
        cases hdrop : dropEach fails (namespaceTables p db) db with
        | error e' =>
          rw [hdrop] at h
          cases h
          exact dropEach_eq_error hdrop
        | ok db' =>
          rw [hdrop] at h
          change (run fails db' .release >>= fun _ =>
            .ok (namespaceTables p db, db')) = .error e at h
          cases hrelease : run fails db' .release with
          | error e' =>
            rw [hrelease] at h
            cases h
            exact ⟨_, _, run_eq_error hrelease⟩
          | ok u =>
            rw [hrelease] at h
            cases h

end Drop

/-- A name is made for one plugin and one of its tables; and whichever statements fail,
`dropNamespace` either drops the tables with the names of the plugin and no others, or leaves the
database as it is.  It is refused only if the id is not valid or a statement fails. -/
theorem namespaces_never_alias :
    (∀ p q t u name, physicalTableName p t = .ok name → physicalTableName q u = .ok name →
      p = q ∧ t = u) ∧
    ∀ (ρ : Type) (fails : SqlTables ρ → DropStatement → Option String) (p : String)
      (db : SqlTables ρ),
      (∀ dropped db', dropNamespace fails p db = (.ok dropped, db') →
        (∀ name, name ∈ dropped ↔
          ∃ t, physicalTableName p t = .ok name ∧ ∃ tab ∈ db.rows, tab.name = name) ∧
        (∀ tab, tab ∈ db'.rows ↔ tab ∈ db.rows ∧ ∀ t, physicalTableName p t ≠ .ok tab.name) ∧
        ∀ q t, ∀ tab ∈ db.rows, physicalTableName q t = .ok tab.name →
          (tab ∈ db'.rows ↔ q ≠ p)) ∧
      ∀ e db', dropNamespace fails p db = (.error e, db') →
        db' = db ∧
          (validatePrincipal p = .error e ∨ ∃ mid statement, fails mid statement = some e) := by
  refine ⟨fun p q t u name h h' => physicalTableName_injective h h',
    fun ρ fails p db => ⟨fun dropped db' h => ⟨fun name => ?_, mem_rows_dropNamespace h,
      fun q t tab htab hq => ?_⟩, fun e db' h => ?_⟩⟩
  · obtain ⟨hvalid, rfl, -⟩ := dropNamespace_ok h
    exact mem_namespaceTables hvalid db name
  · rw [mem_rows_dropNamespace h]
    constructor
    · rintro ⟨-, hother⟩ rfl
      exact hother t hq
    · intro hne
      exact ⟨htab, fun t' hp => hne (physicalTableName_injective hq hp).1⟩
  · unfold dropNamespace at h
    cases hall : dropAll fails p db with
    | ok result =>
      rw [hall] at h
      cases h
    | error e' =>
      rw [hall] at h
      cases h
      exact ⟨rfl, dropAll_eq_error hall⟩

/-- The table `_b` of the plugin `a` and a table whose name only starts in the same way. -/
def sampleTables : SqlTables Unit where
  rows := [⟨"plug__a___b", ()⟩, ⟨"plug__a_b__c", ()⟩, ⟨"endpoints", ()⟩]
  nodup := by decide

/-- Dropping the namespace of `a` drops its table `_b`, and not the table `c` of the plugin
`a-b`. -/
theorem namespaces_never_alias_sample :
    (dropNamespace (fun _ _ => none) "a" sampleTables).1 = .ok ["plug__a___b"] ∧
    ∀ tab, tab ∈ (dropNamespace (fun _ _ => none) "a" sampleTables).2.rows ↔
      tab ∈ sampleTables.rows ∧ ∀ t, physicalTableName "a" t ≠ .ok tab.name :=
  have hok : (dropNamespace (fun _ _ => none) "a" sampleTables).1 = .ok ["plug__a___b"] := by
    decide +kernel
  ⟨hok, ((namespaces_never_alias.2 Unit (fun _ _ => none) "a" sampleTables).1 _ _
    (Prod.ext hok rfl)).2.1⟩

end Orca.Plugins
