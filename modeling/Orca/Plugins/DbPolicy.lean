import Orca.Library.Invariant
import Orca.Plugins.DbOps

/-!
# The policy for operations of plugins

Every operation of a plugin goes through `exec_db_op_policed`.  In its own namespace a plugin may do
anything; of the tables of the core it may read and write those that the policy lists for it.  The
table `endpoints` is shared: a plugin sees, changes and deletes the rows with its own id as the
provider, and inserts no others.

What makes the shared table safe is that the check before a write looks at the rows the write will
hit: at all rows that the key names, whatever column it is compared with (`existingRowsOwned_spec`),
and for an upsert at the row that has the same id.  The other rows in conflict with an upsert have
the same provider (`not_conflicts`).  So a write leaves the rows of other plugins as they are
(`keepsForeign_write`).  It needs that the columns of the table convert what they are compared with:
where the column has no affinity, the check compares a text and the write a number.
-/

namespace Orca.Plugins

open Sqlite Secrets Check Invariant

/-! ## The policy -/

/-- `CoreTableAccess`. -/
inductive CoreTableAccess where
  | sharedByProvider
  | readWrite
  | readOnly
  | installedPluginCredentials
  deriving DecidableEq

/-- `CORE_TABLE_POLICY`. -/
def coreTablePolicy : List (String × Option String × CoreTableAccess) :=
  [("endpoints", none, .sharedByProvider),
    ("ntfy_endpoints", some "ntfy", .readWrite),
    ("mcp_servers", some "mcp", .readWrite),
    ("mcp_tool_mappings", some "mcp", .readWrite),
    ("openapi_specs", some "mcp", .readWrite),
    ("plugins", some "mcp", .readOnly),
    ("plugin_credentials", some "mcp", .installedPluginCredentials)]

/-- `core_table_access`. -/
def coreTableAccess (table principal : String) : Option CoreTableAccess :=
  (coreTablePolicy.find? fun e => e.1 == table && e.2.1.all (· == principal)).map fun e => e.2.2

section Policy

variable {ρ : Type} (D : Daemon ρ) (env : CallEnv)

/-- `deny`. -/
def deny (principal : String) (op : DbOp ρ) (table why : String) : String :=
  "plugin '" ++ principal ++ "' may not db.op/" ++ op.kind ++ " on '" ++ table ++
    "' (namespace '" ++ op.nameSpace ++ "'): " ++ why

/-- `row_provider_is`. -/
def rowProviderIs (row : DbRow ρ) (principal : String) : Bool :=
  match row.get "provider" with
  | some (.text p) => p == principal
  | _ => false

/-- `existing_rows_owned`. -/
def existingRowsOwned (db : Db ρ) (table keyCol key principal : String) : Except String Bool := do
  let existing ← (execDbOp D env db (.get "" table keyCol key)).2
  .ok (existing.rows.all fun row => rowProviderIs row principal)

/-- `key_text`. -/
def keyText : Option (DbValue ρ) → Except String (Option String)
  | none => .ok none
  | some (.text s) => .ok (some s)
  | some (.int i) => .ok (some (toString i))
  | some _ => .error "db.op: key value must be text or integer"

/-- `enabled_plugin_ids`. -/
def enabledPluginIds (db : Db ρ) : Except String (List String) :=
  match env.read, db.tables "plugins" with
  | some e, _ => .error e
  | none, none => .error "no such table: plugins"
  | none, some t =>
    match t.column? "id", t.column? "enabled" with
    | some id, some enabled =>
      (t.rows.filter fun r => (t.cell r enabled).same D.numbers
        (enabled.affinity.compared D.numbers (.int 1))).mapM fun r =>
          match t.cell r id with
          | .text s => .ok s
          | _ => .error "Invalid column type"
    | _, _ => .error "no such column"

/-- The checks of `exec_shared_write`: whether the rows that the write hits are the caller's. -/
def sharedWriteOwned (db : Db ρ) (op : DbOp ρ) (principal : String) : Except String Bool :=
  match op with
  | .list .. | .get .. => .ok true
  | .insert _ table row =>
    if !rowProviderIs row principal then
      .error (deny principal op table "row provider must be the caller")
    else .ok true
  | .upsert _ table row =>
    if !rowProviderIs row principal then
      .error (deny principal op table "row provider must be the caller")
    else do
      match ← keyText (row.get "id") with
      | some id => existingRowsOwned D env db table "id" id principal
      | none => .ok true
  | .update _ table keyCol row =>
    if (row.get "provider").isSome && !rowProviderIs row principal then
      .error (deny principal op table "row provider must be the caller")
    else do
      match ← keyText (row.get keyCol) with
      | some key => existingRowsOwned D env db table keyCol key principal
      | none => .error (deny principal op table "update without key value")
  | .delete _ table keyCol key => existingRowsOwned D env db table keyCol key principal

/-- `exec_shared_write`. -/
def execSharedWrite (db : Db ρ) (op : DbOp ρ) (principal : String) :
    Db ρ × Except String (DbReply ρ) :=
  match sharedWriteOwned D env db op principal with
  | .error e => (db, .error e)
  | .ok false => (db, .ok .none)
  | .ok true => execDbOp D env db op

/-- A transaction: what fails in it leaves the database. -/
def inTransaction (db : Db ρ) (run : Db ρ × Except String (DbReply ρ)) :
    Db ρ × Except String (DbReply ρ) :=
  match env.starts with
  | some e => (db, .error e)
  | none =>
    match run with
    | (_, .error e) => (db, .error e)
    | (db', .ok reply) =>
      match env.commit with
      | some e => (db, .error e)
      | none => (db', .ok reply)

/-- The rows of a reply that satisfy a condition. -/
def retain (p : DbRow ρ → Bool) (result : Db ρ × Except String (DbReply ρ)) :
    Db ρ × Except String (DbReply ρ) :=
  (result.1, result.2.map fun reply => { reply with rows := reply.rows.filter p })

/-- The credential is of an enabled plugin whose id is not reserved. -/
def installedCredential (enabled : List String) (row : DbRow ρ) : Bool :=
  match row.get "plugin_id" with
  | some (.text id) => enabled.contains id && !isReservedPluginId id
  | _ => false

/-- `exec_db_op_policed`. -/
def execDbOpPoliced (db : Db ρ) (op : DbOp ρ) (principal : String) :
    Db ρ × Except String (DbReply ρ) :=
  let refused (why : String) : Db ρ × Except String (DbReply ρ) :=
    (db, .error (deny principal op op.table why))
  match validatePrincipal principal with
  | .error _ => refused "invalid principal"
  | .ok () =>
    if op.nameSpace = principal then execDbOp D env db op
    else if op.nameSpace ≠ "" then refused "foreign namespace"
    else
      match coreTableAccess op.table principal with
      | none => refused "core table not permitted"
      | some .readWrite => execDbOp D env db op
      | some .readOnly => if op.isRead then execDbOp D env db op else refused "table is read-only"
      | some .installedPluginCredentials =>
        if op.isRead then
          match enabledPluginIds D env db with
          | .error e => (db, .error e)
          | .ok enabled => retain (installedCredential enabled) (execDbOp D env db op)
        else refused "table is read-only"
      | some .sharedByProvider =>
        if op.isRead then retain (fun row => rowProviderIs row principal) (execDbOp D env db op)
        else inTransaction env db (execSharedWrite D env db op principal)

end Policy

/-! ## The shared table -/

section Shared

variable {ρ : Type} {D : Daemon ρ} {env : CallEnv} {P : String} {t : RowidTable ρ}

/-- The row is not one of the plugin's. -/
def foreign (P : String) (t : RowidTable ρ) (r : RowidRow ρ) : Bool :=
  !rowProviderIs (toDbRow t r) P

/-- The table `endpoints` as the core declares it: `id` is the primary key, the provider and the
name are unique together, and every column converts what it is compared with. -/
structure EndpointsTable (t : RowidTable ρ) : Prop where
  affinity : ∀ c ∈ t.columns, c.affinity ≠ .blob
  /-- The column `id` holds texts or integers, and has no default. -/
  id : ∃ c ∈ t.columns, c.name = "id" ∧
    (c.affinity = .text ∨ c.affinity = .numeric ∨ c.affinity = .integer) ∧ c.default = .null
  provider : ∃ c ∈ t.columns, c.name = "provider"
  pk : t.pk = some "id"
  primary : t.rowidPk = true ∨ ["id"] ∈ t.keys
  unique : ["provider", "name"] ∈ t.keys
  keys : ∀ key ∈ t.keys, key = ["id"] ∨ key = ["provider", "name"]

lemma EndpointsTable.withRows (h : EndpointsTable t) (rows : List (RowidRow ρ)) :
    EndpointsTable { t with rows := rows } :=
  ⟨h.affinity, h.id, h.provider, h.pk, h.primary, h.unique, h.keys⟩

lemma rowProviderIs_iff {row : DbRow ρ} :
    rowProviderIs row P = true ↔ row.get "provider" = some (.text P) := by
  unfold rowProviderIs
  split
  · rename_i p hget
    rw [hget, beq_iff_eq, Option.some.injEq, DbValue.text.injEq]
  · rename_i hother
    exact iff_of_false Bool.false_ne_true fun hget => hother P hget

lemma foreign_eq_false {c : Column ρ} (hc : c ∈ t.columns) (hname : c.name = "provider")
    {r : RowidRow ρ} : foreign P t r = false ↔ t.cell r c = .text P := by
  have hget := get_toDbRow hc r
  rw [hname] at hget
  unfold foreign
  rw [Bool.not_eq_false', rowProviderIs_iff, hget, Option.some.injEq, fromSql_eq_text]

lemma EndpointsTable.isAlias_provider (h : EndpointsTable t) {c : Column ρ}
    (hname : c.name = "provider") : t.isAlias c = false := by
  unfold RowidTable.isAlias
  rw [h.pk, hname]
  cases t.rowidPk <;> rfl

/-- The id of a plugin is no number. -/
lemma parse_principal (N : Numbers ρ) (hP : isValidPluginId P = true) : N.parse P = none := by
  obtain ⟨-, hhead, -⟩ := isValidPluginId_iff.mp hP
  refine N.parse_word P ?_
  cases hfirst : P.toList.head? with
  | none =>
    rw [hfirst] at hhead
    exact hhead
  | some c =>
    rw [hfirst] at hhead
    rw [Option.any_some, show c.isAlpha = (c.isUpper || c.isLower) from rfl]
    simp only [Option.any_some, Bool.or_eq_true] at hhead ⊢
    exact Or.inl (Or.inr hhead)

/-- The row that is inserted is the plugin's, if the values that are given for it say so. -/
lemma foreign_newRow (hP : isValidPluginId P = true) (ht : EndpointsTable t) {row : DbRow ρ}
    (hvalid : validateColumns row.inOrder = .ok ()) (hown : rowProviderIs row P = true)
    {replace : Bool} {new : RowidRow ρ} (hnew : t.newRow D.numbers replace row.values = .ok new) :
    foreign P t new = false := by
  obtain ⟨c, hc, hname⟩ := ht.provider
  have hgiven : RowidTable.given row.values c = some (.text P) := by
    rw [given_values hvalid (by rw [hname]; rfl), hname, rowProviderIs_iff.mp hown]
    rfl
  have hstored : c.affinity.stored D.numbers (.text P) = .text P :=
    stored_text (parse_principal D.numbers hP)
  have hcell := RowidTable.newCell_spec ((RowidTable.newRow_spec hnew).1 c hc)
  rw [hgiven, Option.getD_some, hstored] at hcell
  rw [foreign_eq_false hc hname]
  unfold RowidTable.cell
  rw [ht.isAlias_provider hname, if_neg Bool.false_ne_true]
  rcases hcell with hcell | ⟨hnull, -⟩
  · exact hcell
  · cases hnull

/-- The check looks at all rows that the key names. -/
theorem existingRowsOwned_spec {db : Db ρ} {table keyCol key : String}
    (h : existingRowsOwned D env db table keyCol key P = .ok true) (ht : db.tables table = some t)
    {r : RowidRow ρ} (hr : r ∈ t.rows) (hhits : t.hits D.numbers keyCol (.text key) r = true) :
    foreign P t r = false := by
  obtain ⟨existing, hget, h⟩ := chain_ok_iff.mp h
  have hall := Except.ok.inj h
  have htable : resolveOpTable "" table = .ok table := by
    cases hresolve : resolveOpTable "" table with
    | error e =>
      rw [@execDbOp_of_error ρ D env db (.get "" table keyCol key) e hresolve] at hget
      cases hget
    | ok physical =>
      obtain ⟨-, hsame⟩ := then_ok_iff.mp hresolve
      rw [Except.ok.inj hsame]
  rw [@execDbOp_of_ok ρ D env db (.get "" table keyCol key) table htable, ht] at hget
  obtain ⟨-, hrows⟩ := then_ok_iff.mp hget
  unfold readRows at hrows
  split at hrows
  · cases hrows
  swap
  · rename_i hnone
    cases hnone
  rename_i t' _ hsome
  obtain rfl := Option.some.inj hsome
  obtain rfl := Except.ok.inj hrows
  have hmem : toDbRow t r ∈ (t.rows.filter (t.hits D.numbers keyCol (.text key))).map (toDbRow t) :=
    List.mem_map_of_mem (List.mem_filter.mpr ⟨hr, hhits⟩)
  unfold foreign
  rw [List.all_eq_true.mp hall _ hmem, Bool.not_true]

/-- A key that is given as a text or an integer is spelled by its text. -/
lemma spelledBy_of_keyText {v : DbValue ρ} {key : String}
    (h : keyText (some v) = .ok (some key)) : v.toSql.SpelledBy key := by
  cases v with
  | text s =>
    obtain rfl := Option.some.inj (Except.ok.inj h)
    exact Or.inl rfl
  | int i => exact Or.inr ⟨i, rfl, (Option.some.inj (Except.ok.inj h)).symm⟩
  | null => cases h
  | real r => cases h
  | bool b => cases h
  | blob bytes => cases h

/-! ### Rows in conflict with an upsert -/

section Upsert

variable (hP : isValidPluginId P = true) (ht : EndpointsTable t) {row : DbRow ρ}
  (hvalid : validateColumns row.inOrder = .ok ()) (hown : rowProviderIs row P = true)
  (hid : ∀ v, row.get "id" = some v → ∃ key, v.toSql.SpelledBy key ∧
    ∀ r ∈ t.rows, t.hits D.numbers "id" (.text key) r = true → foreign P t r = false)
  {replace : Bool} {new : RowidRow ρ} (hnew : t.newRow D.numbers replace row.values = .ok new)
  {r : RowidRow ρ} (hr : r ∈ t.rows) (hforeign : foreign P t r = true)

include ht hvalid hid hnew hr hforeign

/-- The id that is given for the new row is not that of a row of another plugin. -/
lemma not_same_id {c : Column ρ} (hc : c ∈ t.columns) (hname : c.name = "id") :
    (t.cell r c).same D.numbers (new.cells c.name) = false := by
  obtain ⟨c', hc', hname', haffinity, hdefault⟩ := ht.id
  obtain rfl := RowidTable.eq_of_foldName hc hc' (congrArg foldName (hname.trans hname'.symm))
  have hgiven : RowidTable.given row.values c = (row.get "id").map DbValue.toSql := by
    rw [given_values hvalid (by rw [hname]; rfl), hname]
  have hcell := RowidTable.newCell_spec ((RowidTable.newRow_spec hnew).1 c hc)
  rw [hdefault] at hcell
  obtain hcell | ⟨-, hnull⟩ := hcell
  swap
  · cases hnull
  rw [hcell, hgiven]
  cases hget : row.get "id" with
  | none =>
    -- without an id the new row has `NULL` in its place, which is equal to nothing
    have hnull : c.affinity.stored D.numbers .null = .null := by
      rcases haffinity with h | h | h <;> rw [h] <;> rfl
    rw [Option.map_none, Option.getD_none, hnull, not_same_null]
  | some v =>
    obtain ⟨key, hkey, howned⟩ := hid v hget
    rw [Option.map_some, Option.getD_some, stored_of_spelled haffinity hkey]
    have hhits := RowidTable.hits_of_column? (N := D.numbers) (RowidTable.column?_of_mem hc)
      (.text key) r
    rw [hname] at hhits
    rw [← hhits]
    by_contra hsame
    rw [Bool.not_eq_false] at hsame
    rw [howned r hr hsame] at hforeign
    cases hforeign

/-- The number of the new row is not that of a row of another plugin. -/
lemma rowid_ne : r.rowid ≠ new.rowid := by
  obtain ⟨-, hfresh | ⟨c, hc, halias, hcell⟩⟩ := RowidTable.newRow_spec hnew
  · exact hfresh r hr
  · have hname : c.name = "id" := by
      unfold RowidTable.isAlias at halias
      rw [ht.pk, Bool.and_eq_true, beq_iff_eq, Option.some.injEq] at halias
      exact halias.2.symm
    have hapart := not_same_id ht hvalid hid hnew hr hforeign hc hname
    rw [hcell] at hapart
    unfold RowidTable.cell at hapart
    rw [if_pos halias] at hapart
    intro hsame
    rw [same_int_iff.mpr hsame] at hapart
    cases hapart

include hP hown

/-- An upsert that passed the check is not in conflict with a row of another plugin. -/
lemma not_conflicts : t.conflicts D.numbers r new = false := by
  have hrowid : (r.rowid == new.rowid) = false :=
    beq_eq_false_iff_ne.mpr (rowid_ne ht hvalid hid hnew hr hforeign)
  unfold RowidTable.conflicts
  rw [hrowid, Bool.false_or, List.any_eq_false]
  intro key hkey
  rw [Bool.not_eq_true]
  rcases ht.keys key hkey with rfl | rfl
  · obtain ⟨c, hc, hname, -⟩ := ht.id
    have hfind := RowidTable.column?_of_mem hc
    rw [hname] at hfind
    rw [List.all_cons, hfind, Option.any_some, List.all_nil, Bool.and_true]
    unfold RowidTable.cell
    split
    · rw [Bool.eq_false_iff, ne_eq, same_int_iff]
      exact rowid_ne ht hvalid hid hnew hr hforeign
    · rename_i halias
      have hapart := not_same_id ht hvalid hid hnew hr hforeign hc hname
      unfold RowidTable.cell at hapart
      rw [if_neg halias] at hapart
      exact hapart
  · obtain ⟨c, hc, hname⟩ := ht.provider
    have hfind := RowidTable.column?_of_mem hc
    rw [hname] at hfind
    have hcell := (foreign_eq_false hc hname).mp (foreign_newRow hP ht hvalid hown hnew)
    rw [List.all_cons, hfind, Option.any_some, hcell]
    refine Bool.and_eq_false_imp.mpr fun hsame => ?_
    rw [(foreign_eq_false hc hname).mpr (same_text_iff.mp hsame)] at hforeign
    cases hforeign

end Upsert

/-! ### Writes -/

/-- The rows of other plugins stay as they are. -/
def KeepsForeign (P : String) (before after : Option (RowidTable ρ)) : Prop :=
  ∀ t, before = some t → ∃ rows, after = some { t with rows := rows } ∧
    rows.filter (foreign P t) = t.rows.filter (foreign P t)

lemma KeepsForeign.refl (table : Option (RowidTable ρ)) : KeepsForeign P table table :=
  fun t ht => ⟨t.rows, ht, rfl⟩

section Writes

variable (hP : isValidPluginId P = true) (ht : EndpointsTable t)

include hP ht

/-- An insert of an own row, or an upsert that passed the check. -/
lemma keepsForeign_insert {row : DbRow ρ} (hvalid : validateColumns row.inOrder = .ok ())
    (hown : rowProviderIs row P = true) {replace : Bool}
    (hid : replace = true → ∀ v, row.get "id" = some v → ∃ key, v.toSql.SpelledBy key ∧
      ∀ r ∈ t.rows, t.hits D.numbers "id" (.text key) r = true → foreign P t r = false)
    {t' : RowidTable ρ} (h : t.insert D.numbers replace row.values = .ok t') :
    KeepsForeign P (some t) (some t') := by
  have hkept : t'.rows.filter (foreign P t) = t.rows.filter (foreign P t) := by
    refine RowidTable.filter_insert h (fun new hnew => foreign_newRow hP ht hvalid hown hnew) ?_
    intro hreplace new hnew r hr hforeign
    exact not_conflicts hP ht hvalid hown (hid hreplace) hnew hr hforeign
  obtain ⟨new, -, rfl, -⟩ := RowidTable.insert_spec h
  intro t₀ ht₀
  obtain rfl := Option.some.inj ht₀
  exact ⟨_, rfl, hkept⟩

/-- An update whose key names only own rows, and which sets no other provider. -/
lemma keepsForeign_update {keyCol key : String} {v : DbValue ρ} {row : DbRow ρ}
    (hident : validateIdent "column" keyCol = .ok ()) (hkey : v.toSql.SpelledBy key)
    (howned : ∀ r ∈ t.rows, t.hits D.numbers keyCol (.text key) r = true → foreign P t r = false)
    (hvalid : validateColumns (row.inOrder.filter fun e => e.1 != keyCol) = .ok ())
    (hown : (row.get "provider").isSome = true → rowProviderIs row P = true)
    {t' : RowidTable ρ} {n : Nat}
    (h : t.update D.numbers keyCol v.toSql (updateSets keyCol row) = .ok (t', n)) :
    KeepsForeign P (some t) (some t') := by
  obtain ⟨c, hc, hname⟩ := ht.provider
  have hsets : ∀ e ∈ updateSets keyCol row, foldName e.1 = foldName c.name →
      c.affinity.stored D.numbers e.2 = .text P := by
    intro e he hfold
    obtain ⟨hmem, hother⟩ := List.mem_filter.mp he
    obtain ⟨w, hget, hw⟩ := mem_values.mp hmem
    have hentry : (e.1, w) ∈ row.inOrder.filter fun e => e.1 != keyCol :=
      List.mem_filter.mpr ⟨mem_inOrder.mpr (get_eq_some_iff.mp hget), hother⟩
    have hprovider : e.1 = "provider" := by
      rw [foldName_of_ident (validateColumns_eq_ok.mp hvalid _ hentry), hname] at hfold
      exact hfold
    rw [hprovider] at hget
    have hmine := rowProviderIs_iff.mp (hown (by rw [hget]; rfl))
    rw [hw, ← Option.some.inj (hmine.symm.trans hget)]
    exact stored_text (parse_principal D.numbers hP)
  have hkept : t'.rows.filter (foreign P t) = t.rows.filter (foreign P t) := by
    refine RowidTable.filter_update h (fun r hr hhits => ?_) fun r r' hr hset => ?_
    · -- the check compared the key as a text, the statement compares it as it was given
      refine howned r hr ?_
      rw [← hhits]
      exact (RowidTable.hits_of_spelled ht.affinity hkey
        (ident_ne_toString (N := D.numbers) hident) r).symm
    · rw [foreign_eq_false hc hname] at hr ⊢
      exact RowidTable.cell_setValues hset hc (ht.isAlias_provider hname) hsets hr
  obtain ⟨rows, -, rfl⟩ := RowidTable.update_spec h
  intro t₀ ht₀
  obtain rfl := Option.some.inj ht₀
  exact ⟨rows, rfl, hkept⟩

end Writes

lemma keepsForeign_delete {keyCol key : String}
    (howned : ∀ r ∈ t.rows, t.hits D.numbers keyCol (.text key) r = true → foreign P t r = false) :
    KeepsForeign P (some t) (some (t.delete D.numbers keyCol (.text key)).1) := by
  intro t₀ ht₀
  obtain rfl := Option.some.inj ht₀
  exact ⟨_, rfl, RowidTable.filter_delete howned⟩

/-- The check of an upsert. -/
lemma sharedWriteOwned_upsert {db : Db ρ} {ns table : String} {row : DbRow ρ}
    (h : sharedWriteOwned D env db (.upsert ns table row) P = .ok true) :
    rowProviderIs row P = true ∧ ∀ v, row.get "id" = some v → ∃ key, v.toSql.SpelledBy key ∧
      existingRowsOwned D env db table "id" key P = .ok true := by
  unfold sharedWriteOwned at h
  dsimp only at h
  split at h
  · cases h
  rename_i hown
  refine ⟨by simpa using hown, fun v hget => ?_⟩
  obtain ⟨id, hid, h⟩ := chain_ok_iff.mp h
  rw [hget] at hid
  cases id with
  | none => cases v <;> cases hid
  | some id => exact ⟨id, spelledBy_of_keyText hid, h⟩

/-- The check of an update. -/
lemma sharedWriteOwned_update {db : Db ρ} {ns table keyCol : String} {row : DbRow ρ}
    (h : sharedWriteOwned D env db (.update ns table keyCol row) P = .ok true) :
    ((row.get "provider").isSome = true → rowProviderIs row P = true) ∧
      ∀ v, row.get keyCol = some v → ∃ key, v.toSql.SpelledBy key ∧
        existingRowsOwned D env db table keyCol key P = .ok true := by
  unfold sharedWriteOwned at h
  dsimp only at h
  split at h
  · cases h
  rename_i hown
  refine ⟨fun hsome => by simpa [hsome] using hown, fun v hget => ?_⟩
  obtain ⟨key, hkey, h⟩ := chain_ok_iff.mp h
  rw [hget] at hkey
  cases key with
  | none => cases h
  | some key => exact ⟨key, spelledBy_of_keyText hkey, h⟩

/-- A write to the shared table leaves the rows of other plugins as they are. -/
theorem keepsForeign_write (hP : isValidPluginId P = true) {db : Db ρ}
    (hdb : ∀ t, db.tables "endpoints" = some t → EndpointsTable t) {op : DbOp ρ}
    (hns : op.nameSpace = "") (htable : op.table = "endpoints") {reply : DbReply ρ}
    (h : (execSharedWrite D env db op P).2 = .ok reply) :
    KeepsForeign P (db.tables "endpoints")
      ((execSharedWrite D env db op P).1.tables "endpoints") := by
  unfold execSharedWrite at h ⊢
  cases hchecked : sharedWriteOwned D env db op P with
  | error e =>
    rw [hchecked] at h
    cases h
  | ok owned =>
    cases owned with
    | false => exact KeepsForeign.refl _
    | true =>
      rw [hchecked] at h
      have hresolve : resolveOpTable op.nameSpace op.table = .ok "endpoints" := by
        rw [hns, htable]
        decide
      dsimp only at h ⊢
      rw [execDbOp_of_ok hresolve] at h ⊢
      dsimp only at h ⊢
      rw [Function.update_self]
      cases op with
      | list => exact KeepsForeign.refl _
      | get => exact KeepsForeign.refl _
      | insert ns table row =>
        obtain rfl : ns = "" := hns
        have hown : rowProviderIs row P = true := by
          unfold sharedWriteOwned at hchecked
          dsimp only at hchecked
          split at hchecked
          · cases hchecked
          · rename_i hown
            simpa using hown
        obtain ⟨t, t', hsome, hvalid, hinsert, hafter⟩ := writeRow_ok h
        change db.tables "endpoints" = some t at hsome
        have hkept := keepsForeign_insert hP (hdb t hsome) hvalid hown
          (fun hreplace => absurd hreplace Bool.false_ne_true) hinsert
        rw [← hafter, ← hsome] at hkept
        exact hkept
      | upsert ns table row =>
        obtain rfl : ns = "" := hns
        obtain rfl : table = "endpoints" := htable
        obtain ⟨hown, hid⟩ := sharedWriteOwned_upsert hchecked
        obtain ⟨t, t', hsome, hvalid, hinsert, hafter⟩ := writeRow_ok h
        change db.tables "endpoints" = some t at hsome
        have hkept := keepsForeign_insert hP (hdb t hsome) hvalid hown (fun _ v hget => by
          obtain ⟨key, hkey, howned⟩ := hid v hget
          exact ⟨key, hkey, fun r hr => existingRowsOwned_spec howned hsome hr⟩) hinsert
        rw [← hafter, ← hsome] at hkept
        exact hkept
      | update ns table keyCol row =>
        obtain rfl : table = "endpoints" := htable
        obtain ⟨hown, hkeys⟩ := sharedWriteOwned_update hchecked
        obtain ⟨t, t', n, v, hsome, hident, hget, hvalid, hupdate, hafter⟩ := updateRow_ok h
        change db.tables "endpoints" = some t at hsome
        obtain ⟨key, hkey, howned⟩ := hkeys v hget
        have hkept := keepsForeign_update hP (hdb t hsome) hident hkey
          (fun r hr => existingRowsOwned_spec howned hsome hr) hvalid hown hupdate
        rw [← hafter, ← hsome] at hkept
        exact hkept
      | delete ns table keyCol key =>
        obtain rfl : table = "endpoints" := htable
        obtain ⟨t, hsome, hafter⟩ := deleteRow_ok h
        change db.tables "endpoints" = some t at hsome
        have hkept : KeepsForeign P (some t) (some (t.delete D.numbers keyCol (.text key)).1) :=
          keepsForeign_delete fun r hr => existingRowsOwned_spec hchecked hsome hr
        rw [← hafter, ← hsome] at hkept
        exact hkept

/-- A write to the shared table is to no other table. -/
lemma tables_execSharedWrite {db : Db ρ} {op : DbOp ρ} (hns : op.nameSpace = "")
    (htable : op.table = "endpoints") {n : String} (hn : n ≠ "endpoints") :
    (execSharedWrite D env db op P).1.tables n = db.tables n := by
  unfold execSharedWrite
  split
  · rfl
  · rfl
  · refine tables_execDbOp db op fun hresolve => hn ?_
    rw [hns, htable] at hresolve
    obtain ⟨-, hname⟩ := then_ok_iff.mp hresolve
    exact (Except.ok.inj hname).symm

/-- It is logged if the table is replicated. -/
lemma ops_execSharedWrite {db : Db ρ} {op : DbOp ρ} (hns : op.nameSpace = "")
    (htable : op.table = "endpoints") (h : D.registered "endpoints" = false) :
    (execSharedWrite D env db op P).1.ops = db.ops := by
  unfold execSharedWrite
  split
  · rfl
  · rfl
  · refine ops_execDbOp db op fun n hresolve => ?_
    rw [hns, htable] at hresolve
    obtain ⟨-, hname⟩ := then_ok_iff.mp hresolve
    rw [← Except.ok.inj hname, h]

/-- It returns no rows. -/
lemma rows_execSharedWrite {db : Db ρ} {op : DbOp ρ} (hwrite : op.isRead = false)
    {reply : DbReply ρ} (h : (execSharedWrite D env db op P).2 = .ok reply) : reply.rows = [] := by
  unfold execSharedWrite at h
  split at h
  · cases h
  · rw [← Except.ok.inj h]
    rfl
  · cases hresolve : resolveOpTable op.nameSpace op.table with
    | error e =>
      rw [execDbOp_of_error hresolve] at h
      cases h
    | ok physical =>
      rw [execDbOp_of_ok hresolve] at h
      exact rows_of_write hwrite h

end Shared

end Orca.Plugins
