import Orca.Plugins.DbPolicy

/-!
# Isolation of the data of plugins

What a plugin can reach with the operations that `exec_db_op_policed` runs for it.  Of `endpoints`
it is given its own rows, and the others stay as they are; the tables of other plugins are neither
written nor read, which says that a call does the same in a database in which they hold anything
else (`Agree`).

Every call is one of a few kinds, which `execDbOpPoliced_cases` lists: it is refused, it is an
operation on a table that the plugin may use, or it is an operation on the shared table.  What a
call does is read off that list (`callIsolated`), and a call leaves `endpoints` as it is declared,
so the same holds along any sequence of calls (`plugin_data_isolated`).
-/

namespace Orca.Plugins

open Sqlite Secrets Check Invariant

/-! ## Who may use a table -/

/-- The table has the name of one that another plugin has in its namespace. -/
def OfOtherPlugin (P n : String) : Prop :=
  ∃ Q rest, Q ≠ P ∧ isValidPluginId Q = true ∧ n = physicalName Q rest

/-- The plugin may write the table: it is its own, or the policy lets it. -/
def MayWrite (P n : String) : Prop :=
  (∃ table, physicalTableName P table = .ok n) ∨ coreTableAccess n P = some .readWrite ∨
    coreTableAccess n P = some .sharedByProvider

lemma mem_of_coreTableAccess {table P : String} {a : CoreTableAccess}
    (h : coreTableAccess table P = some a) : ∃ who, (table, who, a) ∈ coreTablePolicy := by
  unfold coreTableAccess at h
  obtain ⟨⟨table', who, a'⟩, hfind, rfl⟩ := Option.map_eq_some_iff.mp h
  have hmatch := List.find?_some hfind
  rw [Bool.and_eq_true, beq_iff_eq] at hmatch
  obtain ⟨rfl, -⟩ := hmatch
  exact ⟨who, List.mem_of_find?_eq_some hfind⟩

/-- Everyone shares `endpoints`. -/
lemma coreTableAccess_endpoints (P : String) :
    coreTableAccess "endpoints" P = some .sharedByProvider := rfl

lemma eq_endpoints_of_shared {table P : String}
    (h : coreTableAccess table P = some .sharedByProvider) : table = "endpoints" := by
  obtain ⟨who, hmem⟩ := mem_of_coreTableAccess h
  have hentry : table = "endpoints" ∧ who = none := by simpa [coreTablePolicy] using hmem
  exact hentry.1

lemma ne_physicalName_of_core {table P : String} {a : CoreTableAccess}
    (h : coreTableAccess table P = some a) (Q rest : String) : table ≠ physicalName Q rest := by
  obtain ⟨who, hmem⟩ := mem_of_coreTableAccess h
  have hstart : ∀ e ∈ coreTablePolicy, e.1.toList.take 6 ≠ "plug__".toList := by decide
  rintro rfl
  refine hstart _ hmem ?_
  rw [toList_physicalName]
  exact List.take_left' rfl

lemma not_ofOtherPlugin_of_core {table P : String} {a : CoreTableAccess}
    (h : coreTableAccess table P = some a) (P' : String) : ¬OfOtherPlugin P' table := by
  rintro ⟨Q, rest, -, -, hname⟩
  exact ne_physicalName_of_core h Q rest hname

lemma not_ofOtherPlugin_of_own {P table n : String} (h : physicalTableName P table = .ok n) :
    ¬OfOtherPlugin P n := by
  obtain ⟨hP, -, rfl⟩ := physicalTableName_eq_ok.mp h
  rintro ⟨Q, rest, hne, hQ, hname⟩
  exact hne (physicalName_injective hP hQ hname).1.symm

/-- A table of a plugin is not `endpoints`. -/
lemma ne_endpoints_of_own {P table n : String} (h : physicalTableName P table = .ok n) :
    n ≠ "endpoints" := by
  obtain ⟨-, -, rfl⟩ := physicalTableName_eq_ok.mp h
  exact fun hname => ne_physicalName_of_core (coreTableAccess_endpoints P) P table hname.symm

lemma ne_empty_of_valid {P : String} (hP : isValidPluginId P = true) : P ≠ "" := by
  rintro rfl
  exact absurd hP (by decide)

/-- The name of the table of an operation, in no namespace or in the plugin's own. -/
lemma resolveOpTable_core {table n : String} (h : resolveOpTable "" table = .ok n) :
    n = table := by
  obtain ⟨-, hname⟩ := then_ok_iff.mp h
  exact (Except.ok.inj hname).symm

lemma resolveOpTable_own {P table n : String} (hP : isValidPluginId P = true)
    (h : resolveOpTable P table = .ok n) : physicalTableName P table = .ok n := by
  unfold resolveOpTable at h
  rw [if_neg (ne_empty_of_valid hP)] at h
  exact h

/-! ## The kinds of calls -/

section Calls

variable {ρ : Type} {D : Daemon ρ} {env : CallEnv} {P : String}

lemma retain_true (run : Db ρ × Except String (DbReply ρ)) : retain (fun _ => true) run = run := by
  obtain ⟨db, result⟩ := run
  cases result with
  | error e => rfl
  | ok reply =>
    unfold retain
    simp only [Except.map, List.filter_true]

/-- What a transaction leaves behind. -/
lemma inTransaction_cases (db : Db ρ) (run : Db ρ × Except String (DbReply ρ)) :
    (∃ e, inTransaction env db run = (db, .error e)) ∨
      ∃ reply, run.2 = .ok reply ∧ inTransaction env db run = run := by
  obtain ⟨db', result⟩ := run
  unfold inTransaction
  cases env.starts with
  | some e => exact Or.inl ⟨e, rfl⟩
  | none =>
    cases result with
    | error e => exact Or.inl ⟨e, rfl⟩
    | ok reply =>
      cases env.commit with
      | some e => exact Or.inl ⟨e, rfl⟩
      | none => exact Or.inr ⟨reply, rfl, rfl⟩

/-- A call is refused, or it is an operation on a table of the plugin's own or one that the policy
lists for it, or on the shared table.  Which of these it is does not depend on the database. -/
theorem execDbOpPoliced_cases (hP : isValidPluginId P = true) (op : DbOp ρ) :
    (∃ e, ∀ db, execDbOpPoliced D env db op P = (db, .error e)) ∨
    ((op.nameSpace = P ∨ op.nameSpace = "" ∧ (coreTableAccess op.table P = some .readWrite ∨
        coreTableAccess op.table P = some .readOnly ∧ op.isRead = true)) ∧
      ∀ db, execDbOpPoliced D env db op P = execDbOp D env db op) ∨
    (op.nameSpace = "" ∧ coreTableAccess op.table P = some .installedPluginCredentials ∧
      op.isRead = true ∧ ∀ db,
        (∃ e, enabledPluginIds D env db = .error e ∧
          execDbOpPoliced D env db op P = (db, .error e)) ∨
        ∃ enabled, enabledPluginIds D env db = .ok enabled ∧ execDbOpPoliced D env db op P =
          retain (installedCredential enabled) (execDbOp D env db op)) ∨
    (op.nameSpace = "" ∧ op.table = "endpoints" ∧ op.isRead = true ∧ ∀ db,
      execDbOpPoliced D env db op P =
        retain (fun row => rowProviderIs row P) (execDbOp D env db op)) ∨
    (op.nameSpace = "" ∧ op.table = "endpoints" ∧ op.isRead = false ∧ ∀ db,
      execDbOpPoliced D env db op P = inTransaction env db (execSharedWrite D env db op P)) := by
  have hvalid : validatePrincipal P = .ok () := by
    unfold validatePrincipal
    rw [ensure_eq_ok, hP]
  unfold execDbOpPoliced
  rw [hvalid]
  dsimp only
  by_cases hown : op.nameSpace = P
  · exact Or.inr (Or.inl ⟨Or.inl hown, fun db => if_pos hown⟩)
  by_cases hcore : op.nameSpace = ""
  swap
  · exact Or.inl ⟨_, fun db => (if_neg hown).trans (if_pos hcore)⟩
  simp only [if_neg hown, if_neg (not_not_intro hcore)]
  cases haccess : coreTableAccess op.table P with
  | none => exact Or.inl ⟨_, fun db => rfl⟩
  | some a =>
    cases a with
    | readWrite => exact Or.inr (Or.inl ⟨Or.inr ⟨hcore, Or.inl rfl⟩, fun db => rfl⟩)
    | readOnly =>
      cases hread : op.isRead with
      | true => exact Or.inr (Or.inl ⟨Or.inr ⟨hcore, Or.inr ⟨rfl, rfl⟩⟩, fun db => rfl⟩)
      | false => exact Or.inl ⟨_, fun db => rfl⟩
    | installedPluginCredentials =>
      cases hread : op.isRead with
      | false => exact Or.inl ⟨_, fun db => rfl⟩
      | true =>
        refine Or.inr (Or.inr (Or.inl ⟨hcore, rfl, rfl, fun db => ?_⟩))
        cases enabledPluginIds D env db with
        | error e => exact Or.inl ⟨e, rfl, rfl⟩
        | ok enabled => exact Or.inr ⟨enabled, rfl, rfl⟩
    | sharedByProvider =>
      have htable := eq_endpoints_of_shared haccess
      cases hread : op.isRead with
      | true => exact Or.inr (Or.inr (Or.inr (Or.inl ⟨hcore, htable, rfl, fun db => rfl⟩)))
      | false => exact Or.inr (Or.inr (Or.inr (Or.inr ⟨hcore, htable, rfl, fun db => rfl⟩)))

/-- What a call does to a database: nothing, or an operation on a table that is not another
plugin's, of which the plugin is given some rows, or a write to the shared table. -/
lemma execDbOpPoliced_run (hP : isValidPluginId P = true) (db : Db ρ) (op : DbOp ρ) :
    (∃ e, execDbOpPoliced D env db op P = (db, .error e)) ∨
    (∃ p, execDbOpPoliced D env db op P = retain p (execDbOp D env db op) ∧
      ∀ n, resolveOpTable op.nameSpace op.table = .ok n → ¬OfOtherPlugin P n ∧
        (op.isRead = false → MayWrite P n ∧ n ≠ "endpoints") ∧
        (n = "endpoints" → ∀ row, p row = true → rowProviderIs row P = true)) ∨
    (op.nameSpace = "" ∧ op.table = "endpoints" ∧ op.isRead = false ∧
      execDbOpPoliced D env db op P = inTransaction env db (execSharedWrite D env db op P)) := by
  have hnot {table : String} {a : CoreTableAccess} (haccess : coreTableAccess table P = some a)
      (hshared : a ≠ .sharedByProvider) : table ≠ "endpoints" := by
    rintro rfl
    exact hshared (Option.some.inj haccess).symm
  rcases @execDbOpPoliced_cases ρ D env P hP op with
    ⟨e, hrun⟩ | ⟨hmay, hrun⟩ | ⟨hcore, haccess, hread, hrun⟩ | ⟨hcore, htable, hread, hrun⟩ |
      ⟨hcore, htable, hwrite, hrun⟩
  · exact Or.inl ⟨e, hrun db⟩
  · refine Or.inr (Or.inl ⟨fun _ => true, (hrun db).trans (retain_true _).symm, fun n hn => ?_⟩)
    rcases hmay with hown | ⟨hcore, haccess⟩
    · have hmine := resolveOpTable_own hP (hown ▸ hn)
      exact ⟨not_ofOtherPlugin_of_own hmine,
        fun _ => ⟨Or.inl ⟨op.table, hmine⟩, ne_endpoints_of_own hmine⟩,
        fun hname => absurd hname (ne_endpoints_of_own hmine)⟩
    · obtain rfl := resolveOpTable_core (hcore ▸ hn)
      rcases haccess with haccess | ⟨haccess, hread⟩
      · have hne := hnot haccess (by decide)
        exact ⟨not_ofOtherPlugin_of_core haccess P, fun _ => ⟨Or.inr (Or.inl haccess), hne⟩,
          fun hname => absurd hname hne⟩
      · refine ⟨not_ofOtherPlugin_of_core haccess P, fun hwrite => ?_,
          fun hname => absurd hname (hnot haccess (by decide))⟩
        rw [hread] at hwrite
        cases hwrite
  · rcases hrun db with ⟨e, -, hrun⟩ | ⟨enabled, -, hrun⟩
    · exact Or.inl ⟨e, hrun⟩
    · refine Or.inr (Or.inl ⟨_, hrun, fun n hn => ?_⟩)
      obtain rfl := resolveOpTable_core (hcore ▸ hn)
      refine ⟨not_ofOtherPlugin_of_core haccess P, fun hwrite => ?_,
        fun hname => absurd hname (hnot haccess (by decide))⟩
      rw [hread] at hwrite
      cases hwrite
  · refine Or.inr (Or.inl ⟨_, hrun db, fun n hn => ?_⟩)
    obtain rfl := resolveOpTable_core (hcore ▸ hn)
    refine ⟨?_, fun hwrite => ?_, fun _ row hrow => hrow⟩
    · rw [htable]
      exact not_ofOtherPlugin_of_core (coreTableAccess_endpoints P) P
    · rw [hread] at hwrite
      cases hwrite
  · exact Or.inr (Or.inr ⟨hcore, htable, hwrite, hrun db⟩)

end Calls

/-! ## Databases that differ in the tables of other plugins -/

/-- The databases have the same in them, apart from the tables of other plugins. -/
structure Agree {ρ : Type} (P : String) (db db' : Db ρ) : Prop where
  tables : ∀ n, ¬OfOtherPlugin P n → db.tables n = db'.tables n
  /-- The command log is the same. -/
  ops : db.ops = db'.ops

/-- The runs end in the same way, with databases that agree. -/
def AgreeRun {ρ : Type} (P : String) (run run' : Db ρ × Except String (DbReply ρ)) : Prop :=
  Agree P run.1 run'.1 ∧ run.2 = run'.2

section Agreement

variable {ρ : Type} {D : Daemon ρ} {env : CallEnv} {P : String} {db db' : Db ρ}

/-- An operation on a table that is not another plugin's does the same in databases that agree. -/
theorem agreeRun_execDbOp (h : Agree P db db') {op : DbOp ρ}
    (hop : ∀ n, resolveOpTable op.nameSpace op.table = .ok n → ¬OfOtherPlugin P n) :
    AgreeRun P (execDbOp D env db op) (execDbOp D env db' op) := by
  cases hresolve : resolveOpTable op.nameSpace op.table with
  | error e =>
    rw [execDbOp_of_error hresolve, execDbOp_of_error hresolve]
    exact ⟨h, rfl⟩
  | ok physical =>
    rw [execDbOp_of_ok hresolve, execDbOp_of_ok hresolve, h.tables physical (hop physical hresolve),
      h.ops]
    refine ⟨⟨fun n hn => ?_, rfl⟩, rfl⟩
    by_cases hname : n = physical
    · subst hname
      dsimp only
      rw [Function.update_self, Function.update_self]
    · dsimp only
      rw [Function.update_of_ne hname, Function.update_of_ne hname, h.tables n hn]

/-- The check reads only the table it is given. -/
lemma existingRowsOwned_congr (h : Agree P db db') {table : String}
    (htable : ¬OfOtherPlugin P table) (keyCol key : String) :
    existingRowsOwned D env db table keyCol key P =
      existingRowsOwned D env db' table keyCol key P := by
  have hget : (execDbOp D env db (.get "" table keyCol key)).2 =
      (execDbOp D env db' (.get "" table keyCol key)).2 :=
    (agreeRun_execDbOp h fun n hn => by rw [resolveOpTable_core hn]; exact htable).2
  unfold existingRowsOwned
  rw [hget]

/-- The check of a write comes out the same. -/
lemma sharedWriteOwned_congr (h : Agree P db db') {op : DbOp ρ}
    (htable : ¬OfOtherPlugin P op.table) :
    sharedWriteOwned D env db op P = sharedWriteOwned D env db' op P := by
  cases op with
  | list ns table => rfl
  | get ns table keyCol key => rfl
  | insert ns table row => rfl
  | upsert ns table row =>
    have howned (keyCol key : String) := @existingRowsOwned_congr ρ D env P db db' h table htable
      keyCol key
    unfold sharedWriteOwned
    simp only [howned]
  | update ns table keyCol row =>
    have howned (keyCol key : String) := @existingRowsOwned_congr ρ D env P db db' h table htable
      keyCol key
    unfold sharedWriteOwned
    simp only [howned]
  | delete ns table keyCol key => exact existingRowsOwned_congr h htable keyCol key

/-- So does the write. -/
lemma agreeRun_execSharedWrite (h : Agree P db db') {op : DbOp ρ} (hcore : op.nameSpace = "")
    (htable : ¬OfOtherPlugin P op.table) :
    AgreeRun P (execSharedWrite D env db op P) (execSharedWrite D env db' op P) := by
  unfold execSharedWrite
  rw [sharedWriteOwned_congr h htable]
  split
  · exact ⟨h, rfl⟩
  · exact ⟨h, rfl⟩
  · refine agreeRun_execDbOp h fun n hn => ?_
    rw [hcore] at hn
    rw [resolveOpTable_core hn]
    exact htable

/-- A transaction over runs that agree. -/
lemma agreeRun_inTransaction (h : Agree P db db') {run run' : Db ρ × Except String (DbReply ρ)}
    (hrun : AgreeRun P run run') :
    AgreeRun P (inTransaction env db run) (inTransaction env db' run') := by
  obtain ⟨after, result⟩ := run
  obtain ⟨after', result'⟩ := run'
  obtain ⟨hafter, hresult⟩ := hrun
  obtain rfl : result = result' := hresult
  unfold inTransaction
  cases env.starts with
  | some e => exact ⟨h, rfl⟩
  | none =>
    cases result with
    | error e => exact ⟨h, rfl⟩
    | ok reply =>
      cases env.commit with
      | some e => exact ⟨h, rfl⟩
      | none => exact ⟨hafter, rfl⟩

lemma agreeRun_retain (p : DbRow ρ → Bool) {run run' : Db ρ × Except String (DbReply ρ)}
    (hrun : AgreeRun P run run') : AgreeRun P (retain p run) (retain p run') := by
  refine ⟨hrun.1, ?_⟩
  unfold retain
  rw [hrun.2]

/-- A call does the same in databases that agree. -/
theorem agreeRun_execDbOpPoliced (hP : isValidPluginId P = true) (h : Agree P db db')
    (op : DbOp ρ) :
    AgreeRun P (execDbOpPoliced D env db op P) (execDbOpPoliced D env db' op P) := by
  rcases @execDbOpPoliced_cases ρ D env P hP op with
    ⟨e, hrun⟩ | ⟨hmay, hrun⟩ | ⟨hcore, haccess, -, hrun⟩ | ⟨hcore, htable, -, hrun⟩ |
      ⟨hcore, htable, -, hrun⟩
  · rw [hrun, hrun]
    exact ⟨h, rfl⟩
  · rw [hrun, hrun]
    refine agreeRun_execDbOp h fun n hn => ?_
    rcases hmay with hown | ⟨hcore, haccess⟩
    · exact not_ofOtherPlugin_of_own (resolveOpTable_own hP (hown ▸ hn))
    · obtain rfl := resolveOpTable_core (hcore ▸ hn)
      rcases haccess with haccess | ⟨haccess, -⟩
      · exact not_ofOtherPlugin_of_core haccess P
      · exact not_ofOtherPlugin_of_core haccess P
  · have hplugins : db.tables "plugins" = db'.tables "plugins" := by
      refine h.tables "plugins" (not_ofOtherPlugin_of_core (P := "mcp") (a := .readOnly) ?_ P)
      decide
    have henabled : enabledPluginIds D env db = enabledPluginIds D env db' := by
      unfold enabledPluginIds
      rw [hplugins]
    have hread := hrun db
    rw [henabled] at hread
    rcases hread with ⟨e, he, hread⟩ | ⟨enabled, he, hread⟩
    · rcases hrun db' with ⟨e', he', hread'⟩ | ⟨enabled', he', -⟩
      · obtain rfl := Except.error.inj (he.symm.trans he')
        rw [hread, hread']
        exact ⟨h, rfl⟩
      · cases he.symm.trans he'
    · rcases hrun db' with ⟨e', he', -⟩ | ⟨enabled', he', hread'⟩
      · cases he.symm.trans he'
      · obtain rfl := Except.ok.inj (he.symm.trans he')
        rw [hread, hread']
        refine agreeRun_retain _ (agreeRun_execDbOp h fun n hn => ?_)
        obtain rfl := resolveOpTable_core (hcore ▸ hn)
        exact not_ofOtherPlugin_of_core haccess P
  · rw [hrun, hrun]
    refine agreeRun_retain _ (agreeRun_execDbOp h fun n hn => ?_)
    obtain rfl := resolveOpTable_core (hcore ▸ hn)
    rw [htable]
    exact not_ofOtherPlugin_of_core (coreTableAccess_endpoints P) P
  · rw [hrun, hrun]
    refine agreeRun_inTransaction h (agreeRun_execSharedWrite h hcore ?_)
    rw [htable]
    exact not_ofOtherPlugin_of_core (coreTableAccess_endpoints P) P

end Agreement

/-! ## Isolation -/

section Isolation

variable {ρ : Type}

/-- A call of a plugin: the operation, and what happens while it is run. -/
def pluginCall (D : Daemon ρ) (P : String) (db : Db ρ) (call : CallEnv × DbOp ρ) :
    Db ρ × Except String (DbReply ρ) :=
  execDbOpPoliced D call.1 db call.2 P

/-- A call of the plugin `P` gets and changes nothing that is not the plugin's. -/
structure CallIsolated (D : Daemon ρ) (P : String) (db : Db ρ) (call : CallEnv × DbOp ρ) :
    Prop where
  /-- A row that is returned is one of the table that the call names, which is not another plugin's;
  if the table is `endpoints`, the plugin is its provider. -/
  returned : ∀ reply, (pluginCall D P db call).2 = .ok reply → ∀ row ∈ reply.rows,
    ∃ n t r, resolveOpTable call.2.nameSpace call.2.table = .ok n ∧ db.tables n = some t ∧
      r ∈ t.rows ∧ row = toDbRow t r ∧ ¬OfOtherPlugin P n ∧
      (n = "endpoints" → rowProviderIs row P = true)
  /-- No row of `endpoints` with another provider is changed, deleted or created. -/
  kept : KeepsForeign P (db.tables "endpoints") ((pluginCall D P db call).1.tables "endpoints")
  /-- The tables of other plugins are not written. -/
  unwritten : ∀ n, OfOtherPlugin P n → (pluginCall D P db call).1.tables n = db.tables n
  unread : ∀ db', Agree P db db' → AgreeRun P (pluginCall D P db call) (pluginCall D P db' call)
  /-- A table is written only if it is the plugin's own or the policy lets the plugin write it. -/
  written : ∀ n, (pluginCall D P db call).1.tables n ≠ db.tables n → MayWrite P n
  /-- The command log is written only along with such a table, if that is replicated. -/
  logged : (pluginCall D P db call).1.ops ≠ db.ops →
    ∃ n, resolveOpTable call.2.nameSpace call.2.table = .ok n ∧ MayWrite P n ∧
      D.registered n = true
  /-- A call that fails leaves `endpoints`. -/
  failed : ∀ e, (pluginCall D P db call).2 = .error e →
    (pluginCall D P db call).1.tables "endpoints" = db.tables "endpoints"

variable {D : Daemon ρ} {P : String} {db : Db ρ} {call : CallEnv × DbOp ρ}

/-- A call that is refused. -/
lemma callIsolated_of_error (hP : isValidPluginId P = true) {e : String}
    (h : pluginCall D P db call = (db, .error e)) : CallIsolated D P db call where
  returned reply hreply := by
    rw [h] at hreply
    cases hreply
  kept := by
    rw [h]
    exact KeepsForeign.refl _
  unwritten n _ := by rw [h]
  unread db' hagree := agreeRun_execDbOpPoliced hP hagree call.2
  written n hn := by
    rw [h] at hn
    exact absurd rfl hn
  logged hops := by
    rw [h] at hops
    exact absurd rfl hops
  failed e' _ := by rw [h]

/-- A call that is an operation on a table that the plugin may use. -/
lemma callIsolated_of_op (hP : isValidPluginId P = true) {p : DbRow ρ → Bool}
    (h : pluginCall D P db call = retain p (execDbOp D call.1 db call.2))
    (hmay : ∀ n, resolveOpTable call.2.nameSpace call.2.table = .ok n → ¬OfOtherPlugin P n ∧
      (call.2.isRead = false → MayWrite P n ∧ n ≠ "endpoints") ∧
      (n = "endpoints" → ∀ row, p row = true → rowProviderIs row P = true)) :
    CallIsolated D P db call := by
  have hafter : (pluginCall D P db call).1 = (execDbOp D call.1 db call.2).1 := by rw [h]; rfl
  have hchanged {n : String} (hn : (pluginCall D P db call).1.tables n ≠ db.tables n) :
      call.2.isRead = false ∧ resolveOpTable call.2.nameSpace call.2.table = .ok n := by
    rw [hafter] at hn
    constructor
    · by_contra hread
      rw [Bool.not_eq_false] at hread
      rw [execDbOp_of_isRead hread] at hn
      exact hn rfl
    · by_contra hother
      exact hn (tables_execDbOp db call.2 hother)
  have hendpoints : (pluginCall D P db call).1.tables "endpoints" = db.tables "endpoints" := by
    by_contra hne
    obtain ⟨hwrite, hresolve⟩ := hchanged hne
    exact ((hmay _ hresolve).2.1 hwrite).2 rfl
  refine ⟨fun reply hreply row hrow => ?_, ?_, fun n hn => ?_,
    fun db' hagree => agreeRun_execDbOpPoliced hP hagree call.2, fun n hn => ?_, fun hops => ?_,
    fun _ _ => hendpoints⟩
  · rw [h] at hreply
    cases hresult : (execDbOp D call.1 db call.2).2 with
    | error e =>
      unfold retain at hreply
      rw [hresult] at hreply
      cases hreply
    | ok all =>
      unfold retain at hreply
      rw [hresult] at hreply
      obtain rfl := Except.ok.inj hreply
      obtain ⟨hall, hp⟩ := List.mem_filter.mp hrow
      obtain ⟨n, t, r, hresolve, ht, hr, hsame⟩ := rows_execDbOp hresult hall
      exact ⟨n, t, r, hresolve, ht, hr, hsame, (hmay n hresolve).1,
        fun hn => (hmay n hresolve).2.2 hn row hp⟩
  · rw [hendpoints]
    exact KeepsForeign.refl _
  · by_contra hne
    exact (hmay n (hchanged hne).2).1 hn
  · obtain ⟨hwrite, hresolve⟩ := hchanged hn
    exact ((hmay n hresolve).2.1 hwrite).1
  · rw [hafter] at hops
    by_contra hnone
    refine hops (ops_execDbOp db call.2 fun n hresolve => ?_)
    cases hread : call.2.isRead with
    | true => exact absurd (congrArg Db.ops (execDbOp_of_isRead hread)) hops
    | false =>
      by_contra hregistered
      rw [Bool.not_eq_false] at hregistered
      exact hnone ⟨n, hresolve, ((hmay n hresolve).2.1 hread).1, hregistered⟩

/-- A call that is a write to the shared table. -/
lemma callIsolated_of_shared (hP : isValidPluginId P = true)
    (hdb : ∀ t, db.tables "endpoints" = some t → EndpointsTable t) (hcore : call.2.nameSpace = "")
    (htable : call.2.table = "endpoints") (hwrite : call.2.isRead = false)
    (h : pluginCall D P db call =
      inTransaction call.1 db (execSharedWrite D call.1 db call.2 P)) :
    CallIsolated D P db call := by
  rcases inTransaction_cases db (execSharedWrite D call.1 db call.2 P) with
    ⟨e, hfail⟩ | ⟨reply, hreply, hdone⟩
  · exact callIsolated_of_error hP (h.trans hfail)
  have hrun : pluginCall D P db call = execSharedWrite D call.1 db call.2 P := h.trans hdone
  have hchanged {n : String} (hn : (pluginCall D P db call).1.tables n ≠ db.tables n) :
      n = "endpoints" := by
    by_contra hother
    rw [hrun] at hn
    exact hn (tables_execSharedWrite hcore htable hother)
  have hmay : MayWrite P "endpoints" := Or.inr (Or.inr (coreTableAccess_endpoints P))
  refine ⟨fun reply' hreply' row hrow => ?_, ?_, fun n hn => ?_,
    fun db' hagree => agreeRun_execDbOpPoliced hP hagree call.2, fun n hn => ?_, fun hops => ?_,
    fun e he => ?_⟩
  · rw [hrun] at hreply'
    rw [rows_execSharedWrite hwrite hreply'] at hrow
    cases hrow
  · rw [hrun]
    exact keepsForeign_write hP hdb hcore htable hreply
  · by_contra hne
    rw [hchanged hne] at hn
    exact not_ofOtherPlugin_of_core (coreTableAccess_endpoints P) P hn
  · rw [hchanged hn]
    exact hmay
  · rw [hrun] at hops
    refine ⟨"endpoints", by rw [hcore, htable]; decide, hmay, ?_⟩
    by_contra hregistered
    exact hops (ops_execSharedWrite hcore htable (Bool.eq_false_of_not_eq_true hregistered))
  · rw [hrun, hreply] at he
    cases he

/-- Every call of a plugin is isolated. -/
theorem callIsolated (hP : isValidPluginId P = true)
    (hdb : ∀ t, db.tables "endpoints" = some t → EndpointsTable t) (call : CallEnv × DbOp ρ) :
    CallIsolated D P db call := by
  rcases @execDbOpPoliced_run ρ D call.1 P hP db call.2 with
    ⟨e, hrun⟩ | ⟨p, hrun, hmay⟩ | ⟨hcore, htable, hwrite, hrun⟩
  · exact callIsolated_of_error hP hrun
  · exact callIsolated_of_op hP hrun hmay
  · exact callIsolated_of_shared hP hdb hcore htable hwrite hrun

/-- A plugin's calls, whatever they are, are isolated from the data of the others, in a database
whose table `endpoints` is as the core declares it. -/
theorem plugin_data_isolated (D : Daemon ρ) {P : String} (hP : isValidPluginId P = true) {db : Db ρ}
    {t : RowidTable ρ} (hsome : db.tables "endpoints" = some t) (ht : EndpointsTable t)
    (calls : List (CallEnv × DbOp ρ)) :
    Along (fun db call => (pluginCall D P db call).1) (CallIsolated D P) db calls := by
  refine along_of_invariant (I := fun db => ∃ t, db.tables "endpoints" = some t ∧ EndpointsTable t)
    (Q := fun _ _ => True) (fun db call hdb _ => ?_) (fun db call hdb _ => ?_) ⟨t, hsome, ht⟩
    (along_of_forall fun _ _ _ => trivial)
  · -- the table has other rows after the call, and is declared as it was
    obtain ⟨t, hsome, ht⟩ := hdb
    have hisolated : CallIsolated D P db call := callIsolated hP
      (fun t' ht' => Option.some.inj (hsome.symm.trans ht') ▸ ht) call
    obtain ⟨rows, hafter, -⟩ := hisolated.kept t hsome
    exact ⟨_, hafter, ht.withRows rows⟩
  · obtain ⟨t, hsome, ht⟩ := hdb
    exact callIsolated hP (fun t' ht' => Option.some.inj (hsome.symm.trans ht') ▸ ht) call

/-! ### Samples -/

/-- A table `endpoints` with a row of each of two plugins; the affinity of `id` and what stands in
it are given. -/
def sampleEndpoints (affinity : Affinity) (ids : List (Value ℤ)) : RowidTable ℤ where
  columns := [⟨"id", affinity, false, .null⟩, ⟨"provider", .text, true, .null⟩,
    ⟨"name", .text, true, .null⟩]
  distinct := by cases affinity <;> decide
  pk := some "id"
  rowidPk := false
  keys := [["id"], ["provider", "name"]]
  rows := (ids.zip [(1, "alpha", "one"), (2, "beta", "two")]).map fun e =>
    ⟨e.2.1, fun name => if name = "id" then e.1 else
      if name = "provider" then .text e.2.2.1 else .text e.2.2.2⟩

/-- A database with nothing but the table. -/
def sampleDb (t : RowidTable ℤ) : Db ℤ :=
  ⟨fun n => if n = "endpoints" then some t else none, .empty⟩

/-- A daemon that replicates `endpoints`. -/
def sampleDaemon : Daemon ℤ := ⟨wholeNumbers, (· == "endpoints"), toString⟩

/-- Nothing fails during the call. -/
def sampleEnv : CallEnv := ⟨"op1", "host", 5, none, none, none, none⟩

/-- With a text for an id the table is as the core declares it. -/
lemma sampleEndpoints_text (ids : List (Value ℤ)) :
    EndpointsTable (sampleEndpoints .text ids) where
  affinity := by
    intro c hc
    simp only [sampleEndpoints, List.mem_cons, List.not_mem_nil, or_false] at hc
    rcases hc with rfl | rfl | rfl <;> decide
  id := ⟨_, List.mem_cons_self, rfl, Or.inl rfl, rfl⟩
  provider := ⟨_, List.mem_cons_of_mem _ List.mem_cons_self, rfl⟩
  pk := rfl
  primary := Or.inr List.mem_cons_self
  unique := List.mem_cons_of_mem _ List.mem_cons_self
  keys key hkey := by
    simpa only [sampleEndpoints, List.mem_cons, List.not_mem_nil, or_false] using hkey

/-- A plugin takes the id of another plugin's row, deletes that row, and lists what there is. -/
theorem plugin_data_isolated_sample :
    Along (fun db call => (pluginCall sampleDaemon "alpha" db call).1)
      (CallIsolated sampleDaemon "alpha")
      (sampleDb (sampleEndpoints .text [.text "a1", .text "b1"]))
      [(sampleEnv, .upsert "" "endpoints"
          ⟨[("id", .text "b1"), ("provider", .text "alpha"), ("name", .text "two")], by decide⟩),
        (sampleEnv, .delete "" "endpoints" "name" "two"), (sampleEnv, .list "" "endpoints")] :=
  plugin_data_isolated sampleDaemon (by decide) rfl (sampleEndpoints_text _) _

/-- The providers and names of the rows. -/
def endpointNames (db : Db ℤ) : Option (List (Value ℤ × Value ℤ)) :=
  (db.tables "endpoints").map fun t => t.rows.map fun r => (r.cells "provider", r.cells "name")

/-- A plugin that deletes its row of the replicated table writes the command log, which the policy
does not list for it.  Where `id` has no affinity, it renames the row of another plugin: the check
looks for the text of the number. -/
theorem endpoint_renamed_and_log_written :
    (coreTableAccess "replication_ops" "alpha" = none ∧
      (pluginCall sampleDaemon "alpha" (sampleDb (sampleEndpoints .text [.text "a1", .text "b1"]))
        (sampleEnv, .delete "" "endpoints" "id" "a1")).1.ops.rows.length = 1) ∧
    endpointNames (sampleDb (sampleEndpoints .blob [.int 1, .int 2])) =
      some [(.text "alpha", .text "one"), (.text "beta", .text "two")] ∧
    endpointNames (pluginCall sampleDaemon "alpha"
      (sampleDb (sampleEndpoints .blob [.int 1, .int 2])) (sampleEnv, .update "" "endpoints" "id"
        ⟨[("id", .int 2), ("name", .text "three")], by decide⟩)).1 =
      some [(.text "alpha", .text "one"), (.text "beta", .text "three")] := by
  refine ⟨⟨?_, ?_⟩, ?_, ?_⟩ <;> decide

end Isolation

end Orca.Plugins
