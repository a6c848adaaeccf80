import Mathlib.Data.List.Forall2
import Mathlib.Data.List.Infix
import Orca.Secrets.Deletion
import Orca.Secrets.PluginColumns

/-!
# What a migration of secret columns keeps

A value that is moved out of its column should be readable under its name afterwards.  The migration
clears a column as soon as the store has a record for the name, and a record is no value: a `Set`
whose second half failed leaves an inline record without one, and then the column is cleared and
nothing is left to read.

`SecretColumn.taking` is what one column gives away of a row, and `blanked` is a row as the columns
before left it, so that a whole run of `migrateColumn` is known row by row and, by `Carries`, name
by name (`migrateColumns_spec`).  From this `migration_keeps_secrets` follows: nothing is lost when
no name that is taken has an empty record, and otherwise something is.
-/

namespace Orca.Secrets

open Check

/-! ## What is asked -/

namespace SecretColumn

/-- The name and the value that a column gives away of a row. -/
def taking (p : SecretColumn) (row : Row) : Option (String × String) :=
  match p.readRow row with
  | .ok (inst, value) =>
    if validInstance inst && (row p.column).nonEmpty then some (p.secretName inst, value) else none
  | .error _ => none

/-- A row after a column gave away what it has. -/
def blank (p : SecretColumn) (row : Row) : Row :=
  if (p.taking row).isSome then Function.update row p.column p.cleared else row

end SecretColumn

/-- A row of a table as some columns left it. -/
def blanked (table : String) (ps : List SecretColumn) (row : Row) : Row :=
  ps.foldl (fun row p => if p.table = table then p.blank row else row) row

/-- The secret columns of a table, with its primary key. -/
def TableDef.secretColumns (nameSpace : String) (t : TableDef) : List SecretColumn :=
  match t.columns.find? ColumnDef.primaryKey with
  | none => []
  | some pk => (t.columns.filter ColumnDef.secret).map fun col =>
    ⟨nameSpace, physicalName nameSpace t.table, pk.name, col.name, col.notNull⟩

/-- The secret columns that are declared, in their order. -/
def SchemaDecl.secretColumns (decl : SchemaDecl) : List SecretColumn :=
  decl.tables.flatMap (TableDef.secretColumns decl.nameSpace)

/-- The store has an inline record for a name, and no value. -/
def EmptyRecord (s : SecretStore) (name : String) : Prop :=
  ∃ r, s.secrets name = some r ∧ r.backend = "inline" ∧ s.settings (valueKey name) = none

/-- No name that a column gives a value away for has an empty record. -/
def NoEmptyRecord (db : PluginDb) (decl : SchemaDecl) : Prop :=
  ∀ before p after, decl.secretColumns = before ++ p :: after → ∀ row ∈ db.tables p.table,
    ∀ name value, p.taking (blanked p.table before row) = some (name, value) →
      ¬EmptyRecord db.store name

/-- Reading a name gives the value, one that was stored before, or an external reference. -/
def Readable (before after : SecretStore) (name value : String) : Prop :=
  match prepareSecretOp after (.get name) "" with
  | .ok (.reply r, _) => r.value = some value ∨
    (r.value.isSome ∧ r.value = before.settings (valueKey name))
  | .ok (.external _, _) => True
  | .error _ => False

/-- Every value of a secret column is still there, or readable under its name. -/
def NothingLost (db db' : PluginDb) (decl : SchemaDecl) : Prop :=
  ∀ p ∈ decl.secretColumns, List.Forall₂ (fun row row' => (row p.column).nonEmpty = true →
    row' p.column = row p.column ∨ ∃ q ∈ decl.secretColumns, q.table = p.table ∧
      q.column = p.column ∧ ∃ name value, q.taking row = some (name, value) ∧
        Readable db.store db'.store name value) (db.tables p.table) (db'.tables p.table)

/-- The names of the values of a column are made from one key, also when its table is declared
twice. -/
def OneKey (decl : SchemaDecl) : Prop :=
  ∀ p ∈ decl.secretColumns, ∀ q ∈ decl.secretColumns, q.table = p.table → q.column = p.column →
    q.key = p.key

/-! ## Cells and rows -/

section Rows

variable {p : SecretColumn} {row row' : Row} {table : String} {ps : List SecretColumn}

lemma nonEmpty_cleared (p : SecretColumn) : p.cleared.nonEmpty = false := by
  unfold SecretColumn.cleared
  split
  · rfl
  · rfl

/-- A key that makes a name is not empty. -/
lemma nonEmpty_of_cast {c : Cell} {inst : String} (hcast : c.cast = .ok inst)
    (hvalid : validInstance inst = true) : c.nonEmpty = true := by
  cases c with
  | null => cases hcast
  | text s =>
    cases hcast
    simp only [Cell.nonEmpty, bne_iff_ne, ne_eq]
    rintro rfl
    exact absurd hvalid (by decide)
  | other cast => rfl

/-- What a column gives away of a row. -/
lemma taking_eq_some {name value : String} : p.taking row = some (name, value) ↔
    ∃ inst, (row p.key).cast = .ok inst ∧ (row p.column).cast = .ok value ∧
      validInstance inst = true ∧ (row p.column).nonEmpty = true ∧ p.secretName inst = name := by
  unfold SecretColumn.taking SecretColumn.readRow
  cases hkey : (row p.key).cast with
  | error e => simp [bind, Except.bind]
  | ok inst =>
    cases hvalue : (row p.column).cast with
    | error e => simp [bind, Except.bind]
    | ok v =>
      simp only [bind, Except.bind, Option.ite_none_right_eq_some, Bool.and_eq_true,
        Option.some.injEq, Prod.mk.injEq, Except.ok.injEq, exists_eq_left']
      tauto

lemma taking_congr {q : SecretColumn} (hspace : q.nameSpace = p.nameSpace)
    (hcolumn : q.column = p.column) (hkey : row' q.key = row p.key)
    (hvalue : row' p.column = row p.column) : q.taking row' = p.taking row := by
  unfold SecretColumn.taking SecretColumn.readRow SecretColumn.secretName
  rw [hcolumn, hkey, hvalue, hspace]

lemma nonEmpty_of_taking {t : String × String} (h : p.taking row = some t) :
    (row p.key).nonEmpty = true ∧ (row p.column).nonEmpty = true := by
  obtain ⟨inst, hkey, -, hvalid, hvalue, -⟩ := taking_eq_some.mp h
  exact ⟨nonEmpty_of_cast hkey hvalid, hvalue⟩

/-- A column that gave away what it has changes no cell but its own, which is empty then. -/
lemma blank_apply (p : SecretColumn) (row : Row) (c : String) :
    p.blank row c = row c ∨
      ((p.taking row).isSome = true ∧ p.column = c ∧ (p.blank row c).nonEmpty = false) := by
  unfold SecretColumn.blank
  split
  · rename_i htaken
    by_cases hc : c = p.column
    · subst hc
      rw [Function.update_self]
      exact Or.inr ⟨htaken, rfl, nonEmpty_cleared p⟩
    · exact Or.inl (Function.update_of_ne hc _ _)
  · exact Or.inl rfl

/-- The columns before one that took the value of a cell left the cell as it was. -/
lemma blanked_eq_or (table : String) (ps : List SecretColumn) (row : Row) (c : String) :
    blanked table ps row c = row c ∨ ((blanked table ps row c).nonEmpty = false ∧
      ∃ before p after, ps = before ++ p :: after ∧ p.table = table ∧ p.column = c ∧
        (p.taking (blanked table before row)).isSome = true) := by
  induction ps generalizing row with
  | nil => exact Or.inl rfl
  | cons p ps ih =>
    unfold blanked at ih ⊢
    rw [List.foldl_cons]
    rcases ih (if p.table = table then p.blank row else row) with hrest | ⟨hempty, htaken⟩
    · -- the later columns leave the cell, so it is as the first one left it
      rw [hrest]
      by_cases htable : p.table = table
      · rw [if_pos htable]
        rcases blank_apply p row c with hsame | ⟨htaken, hcolumn, hempty⟩
        · exact Or.inl hsame
        · exact Or.inr ⟨hempty, [], p, ps, rfl, htable, hcolumn, htaken⟩
      · rw [if_neg htable]
        exact Or.inl rfl
    · obtain ⟨before, q, after, rfl, htable, hcolumn, htaken⟩ := htaken
      exact Or.inr ⟨hempty, p :: before, q, after, rfl, htable, hcolumn, htaken⟩

lemma blanked_of_nonEmpty {c : String} (h : (blanked table ps row c).nonEmpty = true) :
    blanked table ps row c = row c := by
  rcases blanked_eq_or table ps row c with hsame | ⟨hempty, -⟩
  · exact hsame
  · rw [hempty] at h
    cases h

/-- A value that is taken is the one that was there, and so is its name. -/
lemma taking_of_blanked {t : String × String} (h : p.taking (blanked table ps row) = some t) :
    p.taking row = some t := by
  obtain ⟨hkey, hvalue⟩ := nonEmpty_of_taking h
  rw [← h]
  exact taking_congr rfl rfl (blanked_of_nonEmpty hkey).symm (blanked_of_nonEmpty hvalue).symm

/-- A cell whose value was taken is empty in the end. -/
lemma nonEmpty_blanked_of_taking {before after : List SecretColumn}
    (htaken : (p.taking (blanked p.table before row)).isSome = true) :
    (blanked p.table (before ++ p :: after) row p.column).nonEmpty = false := by
  have hsplit : blanked p.table (before ++ p :: after) row =
      blanked p.table after (p.blank (blanked p.table before row)) := by
    unfold blanked
    rw [List.foldl_append, List.foldl_cons, if_pos rfl]
  have hblank : p.blank (blanked p.table before row) p.column = p.cleared := by
    unfold SecretColumn.blank
    rw [if_pos htaken, Function.update_self]
  rw [hsplit]
  rcases blanked_eq_or p.table after (p.blank (blanked p.table before row)) p.column with
    hsame | ⟨hempty, -⟩
  · rw [hsame, hblank]
    exact nonEmpty_cleared p
  · exact hempty

end Rows

/-! ## Rows that are alike -/

/-- Two rows have the same in each cell, up to how it is empty. -/
def Alike (row row' : Row) : Prop :=
  ∀ c, row c = row' c ∨ ((row c).nonEmpty = false ∧ (row' c).nonEmpty = false)

section Likeness

variable {p : SecretColumn} {row row' row'' : Row}

lemma Alike.refl (row : Row) : Alike row row := fun _ => Or.inl rfl

lemma Alike.symm (h : Alike row row') : Alike row' row := fun c =>
  (h c).imp Eq.symm And.symm

lemma Alike.eq_of_nonEmpty (h : Alike row row') {c : String} (hc : (row c).nonEmpty = true) :
    row' c = row c := by
  rcases h c with heq | ⟨hempty, -⟩
  · exact heq.symm
  · rw [hempty] at hc
    cases hc

lemma Alike.trans (h : Alike row row') (h' : Alike row' row'') : Alike row row'' := by
  intro c
  rcases h c with heq | ⟨hempty, hempty'⟩
  · rw [heq]
    exact h' c
  · rcases h' c with heq | ⟨-, hempty''⟩
    · rw [← heq]
      exact Or.inr ⟨hempty, hempty'⟩
    · exact Or.inr ⟨hempty, hempty''⟩

/-- A cell is replaced in two rows that are alike. -/
lemma Alike.update (h : Alike row row') (column : String) (cell : Cell) :
    Alike (Function.update row column cell) (Function.update row' column cell) := by
  intro c
  by_cases hc : c = column
  · subst hc
    rw [Function.update_self, Function.update_self]
    exact Or.inl rfl
  · rw [Function.update_of_ne hc, Function.update_of_ne hc]
    exact h c

lemma Alike.taking_eq (h : Alike row row') : p.taking row = p.taking row' := by
  have hsome : ∀ {row row' : Row} {t}, Alike row row' → p.taking row = some t →
      p.taking row' = some t := by
    intro row row' t h ht
    obtain ⟨hkey, hvalue⟩ := nonEmpty_of_taking ht
    rw [← ht]
    exact taking_congr rfl rfl (h.eq_of_nonEmpty hkey) (h.eq_of_nonEmpty hvalue)
  exact Option.ext fun t => ⟨hsome h, hsome h.symm⟩

lemma Alike.blank (h : Alike row row') : Alike (p.blank row) (p.blank row') := by
  unfold SecretColumn.blank
  rw [h.taking_eq]
  split
  · exact h.update _ _
  · exact h

end Likeness

/-! ## The rows of one column -/

/-- The updates of one column, on one row. -/
def SecretColumn.clearAll (p : SecretColumn) (rows : List (String × String)) (row : Row) : Row :=
  rows.foldl (fun row r => if validInstance r.1 then p.clear r.1 row else row) row

/-- The names and values of the rows that were read. -/
def SecretColumn.takings (p : SecretColumn) (rows : List (String × String)) :
    List (String × String) :=
  (rows.filter fun r => validInstance r.1).map fun r => (p.secretName r.1, r.2)

section Column

variable {p : SecretColumn} {rows : List (String × String)} {row : Row} {table : List Row}

/-- An update of a row that was updated changes nothing. -/
lemma clearAll_update (p : SecretColumn) (rows : List (String × String)) (row : Row) :
    p.clearAll rows (Function.update row p.column p.cleared) =
      Function.update row p.column p.cleared := by
  induction rows with
  | nil => rfl
  | cons r rows ih =>
    have hfirst : (if validInstance r.1 then
        p.clear r.1 (Function.update row p.column p.cleared)
        else Function.update row p.column p.cleared) = Function.update row p.column p.cleared := by
      unfold SecretColumn.clear
      rw [Function.update_idem, ite_self, ite_self]
    unfold SecretColumn.clearAll at ih ⊢
    rw [List.foldl_cons, hfirst]
    exact ih

/-- A row is updated when its key makes a name and is among those that were read. -/
lemma clearAll_eq_ite (p : SecretColumn) (rows : List (String × String)) (row : Row) :
    p.clearAll rows row =
      if ∃ r ∈ rows, validInstance r.1 = true ∧ (row p.key).cast = .ok r.1 then
        Function.update row p.column p.cleared
      else row := by
  induction rows with
  | nil => simp [SecretColumn.clearAll]
  | cons r rows ih =>
    have hunfold : p.clearAll (r :: rows) row =
        p.clearAll rows (if validInstance r.1 then p.clear r.1 row else row) := rfl
    simp only [List.exists_mem_cons_iff]
    by_cases hr : validInstance r.1 = true ∧ (row p.key).cast = .ok r.1
    · rw [hunfold, if_pos hr.1, SecretColumn.clear, if_pos hr.2, clearAll_update,
        if_pos (Or.inl hr)]
    · have hsame : (if validInstance r.1 then p.clear r.1 row else row) = row := by
        by_cases hvalid : validInstance r.1 = true
        · rw [if_pos hvalid, SecretColumn.clear, if_neg fun hcast => hr ⟨hvalid, hcast⟩]
        · rw [if_neg hvalid]
      rw [hunfold, hsame, ih]
      simp only [hr, false_or]

/-- A row with a key and a value was read. -/
lemma mem_of_select (hselect : p.select table = .ok rows) (hrow : row ∈ table) {inst : String}
    (hkey : (row p.key).cast = .ok inst) (hnonEmpty : (row p.column).nonEmpty = true) :
    ∃ value, (row p.column).cast = .ok value ∧ (inst, value) ∈ rows := by
  have hnotNull : (row p.key).notNull = true := by
    cases hcell : row p.key with
    | null =>
      rw [hcell] at hkey
      cases hkey
    | text s => rfl
    | other cast => rfl
  have hread : row ∈ table.filter fun row => (row p.key).notNull && (row p.column).nonEmpty := by
    rw [List.mem_filter, hnotNull, hnonEmpty]
    exact ⟨hrow, rfl⟩
  obtain ⟨r, hr, hpair⟩ := mem_of_mapM_ok hselect hread
  obtain ⟨inst', hinst, hpair⟩ := chain_ok_iff.mp hpair
  obtain ⟨value, hvalue, hpair⟩ := chain_ok_iff.mp hpair
  rw [hkey] at hinst
  cases hinst
  cases hpair
  exact ⟨value, hvalue, hr⟩

lemma mem_takings_of_taking (hselect : p.select table = .ok rows) (hrow : row ∈ table)
    {t : String × String} (htaking : p.taking row = some t) : t ∈ p.takings rows := by
  obtain ⟨inst, hkey, hvalue, hvalid, hnonEmpty, hname⟩ := taking_eq_some.mp htaking
  obtain ⟨value, hvalue', hmem⟩ := mem_of_select hselect hrow hkey hnonEmpty
  rw [hvalue] at hvalue'
  cases hvalue'
  exact List.mem_map.mpr ⟨(inst, t.2), List.mem_filter.mpr ⟨hmem, hvalid⟩, by rw [hname]⟩

/-- The updates of a column leave a row like the one that gave away what it had. -/
lemma alike_clearAll (hselect : p.select table = .ok rows) (hrow : row ∈ table) :
    Alike (p.clearAll rows row) (p.blank row) := by
  rw [clearAll_eq_ite]
  unfold SecretColumn.blank
  cases htaking : p.taking row with
  | some t =>
    obtain ⟨inst, hkey, -, hvalid, hnonEmpty, -⟩ := taking_eq_some.mp htaking
    obtain ⟨value, -, hmem⟩ := mem_of_select hselect hrow hkey hnonEmpty
    rw [if_pos ⟨_, hmem, hvalid, hkey⟩, Option.isSome_some, if_pos rfl]
    exact Alike.refl _
  | none =>
    rw [Option.isSome_none, if_neg Bool.false_ne_true]
    split
    · -- a row with the same key was read, so this one has nothing in the column
      rename_i hread
      obtain ⟨r, -, hvalid, hkey⟩ := hread
      have hempty : (row p.column).nonEmpty = false := by
        by_contra hnonEmpty
        rw [Bool.not_eq_false] at hnonEmpty
        obtain ⟨value, hvalue, -⟩ := mem_of_select hselect hrow hkey hnonEmpty
        rw [taking_eq_some.mpr ⟨r.1, hkey, hvalue, hvalid, hnonEmpty, rfl⟩] at htaking
        cases htaking
      intro c
      by_cases hc : c = p.column
      · subst hc
        rw [Function.update_self]
        exact Or.inr ⟨nonEmpty_cleared p, hempty⟩
      · exact Or.inl (Function.update_of_ne hc _ _)
    · exact Alike.refl _

end Column

/-! ## The store -/

/-- A name whose last part is a column. -/
def ColumnName (name : String) : Prop :=
  ∃ front column : List Char, name.toList = front ++ '.' :: column ∧ '#' ∉ column

/-- What the store has for a name that a value was taken for: what it had, or the value. -/
def Settled (before after : SecretView) (value : String) : Prop :=
  (before.record.isSome ∧ after = before) ∨
    (before.record = none ∧ (∃ r, after.record = some r ∧ r.backend = "inline") ∧
      after.value = some value)

section Names

variable {p : SecretColumn} {inst n m : String} {s s' : SecretStore}

lemma hash_not_mem_of_ident {kind name : String} (h : validateIdent kind name = .ok ()) :
    '#' ∉ name.toList := by
  intro hmem
  simp only [validateIdent, ensure_eq_ok, Bool.and_eq_true] at h
  exact absurd (List.all_eq_true.mp h.2 '#' hmem) (by decide)

lemma columnName_secretName (h : validateIdent "column" p.column = .ok ()) (inst : String) :
    ColumnName (p.secretName inst) := by
  refine ⟨p.nameSpace.toList ++ '.' :: inst.toList, p.column.toList, ?_, hash_not_mem_of_ident h⟩
  simp [SecretColumn.secretName, String.toList_append]

/-- A name whose last part is a column is no name with a mark behind it. -/
lemma ColumnName.ne_marked (h : ColumnName m) {mark : String} (hhash : '#' ∈ mark.toList)
    (hdot : '.' ∉ mark.toList) : m ≠ n ++ mark := by
  rintro rfl
  obtain ⟨front, column, hname, hcolumn⟩ := h
  rw [String.toList_append] at hname
  have hmark : mark.toList <:+ front ++ '.' :: column := ⟨n.toList, hname⟩
  rcases List.suffix_or_suffix_of_suffix hmark (List.suffix_append front ('.' :: column)) with
    hsuffix | hsuffix
  · rcases List.mem_cons.mp (hsuffix.subset hhash) with heq | hmem
    · cases heq
    · exact hcolumn hmem
  · exact hdot (hsuffix.subset List.mem_cons_self)

lemma Touches.view_of_columnName (h : Touches n s s') (hn : ValidName n) (hm : ColumnName m)
    (hne : m ≠ n) : s'.view m = s.view m := by
  refine h.view_eq hne fun key hkey hkey' => ?_
  exact keys_apart hn.hash_not_mem (Ne.symm hne) (hm.ne_marked (by decide) (by decide))
    (hm.ne_marked (by decide) (by decide)) hkey' hkey

/-- After an upsert the name has a record with the backend. -/
lemma record_upsert {backend refPath now : String} {description : Option String} {created : Bool}
    (h : upsert s n backend refPath description now = .ok (created, s')) :
    ValidName n ∧ ∃ r, (s'.view n).record = some r ∧ r.backend = backend := by
  obtain ⟨-, h⟩ := then_ok_iff.mp h
  obtain ⟨hvalid, h⟩ := then_ok_iff.mp h
  cases h
  refine ⟨hvalid, ?_⟩
  rw [view_clearRestoreState]
  exact ⟨_, Function.update_self _ _ _, rfl⟩

/-- A value that goes into the store is there, and nothing else changes. -/
lemma storeValue_spec {fails : SqlFaults} {now value : String} {db : PluginDb}
    (h : storeValue fails now db n value = .ok s') :
    ValidName n ∧ Touches n db.store s' ∧
      (∃ r, (s'.view n).record = some r ∧ r.backend = "inline") ∧
      (s'.view n).value = some value := by
  obtain ⟨-, h⟩ := then_ok_iff.mp h
  obtain ⟨⟨created, row⟩, hrow, h⟩ := chain_ok_iff.mp h
  obtain ⟨-, h⟩ := then_ok_iff.mp h
  obtain ⟨hvalid, r, hr, hbackend⟩ := record_upsert hrow
  refine ⟨hvalid, (touches_upsert hrow).trans (touches_writeInlineValue h), ?_⟩
  rw [view_writeInlineValue h]
  exact ⟨⟨r, hr, hbackend⟩, rfl⟩

end Names

/-! ## The names of a migration -/

/-- A part of a migration took values for some names, and left the others. -/
structure Carries (s s' : Migration) (takings : List (String × String)) : Prop where
  columns : ∀ t ∈ takings, ColumnName t.1
  fresh : ∀ t ∈ takings, t.1 ∉ s.seen
  /-- They are the ones that were added. -/
  seen : ∀ n, n ∈ s'.seen ↔ n ∈ s.seen ∨ n ∈ takings.map Prod.fst
  settled : ∀ t ∈ takings, Settled (s.db.store.view t.1) (s'.db.store.view t.1) t.2
  /-- The other names are as they were. -/
  frame : ∀ n, ColumnName n → n ∉ takings.map Prod.fst → s'.db.store.view n = s.db.store.view n

section Carrying

variable {s s' s'' : Migration} {takings takings' : List (String × String)}

lemma Carries.refl (s : Migration) (report : SecretColumnMigration) :
    Carries s { s with report := report } [] :=
  ⟨by simp, by simp, by simp, by simp, fun _ _ _ => rfl⟩

/-- Two parts of a migration. -/
lemma Carries.trans (h : Carries s s' takings) (h' : Carries s' s'' takings') :
    Carries s s'' (takings ++ takings') := by
  have hapart : ∀ t ∈ takings', t.1 ∉ takings.map Prod.fst := fun t ht hmem =>
    h'.fresh t ht ((h.seen t.1).mpr (Or.inr hmem))
  have hapart' : ∀ t ∈ takings, t.1 ∉ takings'.map Prod.fst := by
    intro t ht hmem
    obtain ⟨t', ht', heq⟩ := List.mem_map.mp hmem
    refine hapart t' ht' ?_
    rw [heq]
    exact List.mem_map_of_mem ht
  refine ⟨?_, ?_, fun n => ?_, ?_, fun n hn hmem => ?_⟩
  · exact List.forall_mem_append.mpr ⟨h.columns, h'.columns⟩
  · refine List.forall_mem_append.mpr ⟨h.fresh, fun t ht hmem => ?_⟩
    exact h'.fresh t ht ((h.seen t.1).mpr (Or.inl hmem))
  · rw [h'.seen, h.seen, List.map_append, List.mem_append, or_assoc]
  · refine List.forall_mem_append.mpr ⟨fun t ht => ?_, fun t ht => ?_⟩
    · rw [h'.frame t.1 (h.columns t ht) (hapart' t ht)]
      exact h.settled t ht
    · rw [← h.frame t.1 (h'.columns t ht) (hapart t ht)]
      exact h'.settled t ht
  · rw [List.map_append, List.mem_append, not_or] at hmem
    rw [h'.frame n hn hmem.2, h.frame n hn hmem.1]

end Carrying

/-! ## Steps -/

section Steps

variable {fails : SqlFaults} {now : String} {p : SecretColumn} {s s' : Migration}

/-- The writes for one row. -/
lemma moveValue_spec {db db' : PluginDb} {inst value : String}
    (h : moveValue fails now p db inst value = .ok db') :
    db'.tables = Function.update db.tables p.table ((db.tables p.table).map (p.clear inst)) ∧
      Settled (db.store.view (p.secretName inst)) (db'.store.view (p.secretName inst)) value ∧
      ∀ n, ColumnName n → n ≠ p.secretName inst → db'.store.view n = db.store.view n := by
  obtain ⟨store, hstore, h⟩ := chain_ok_iff.mp h
  obtain ⟨-, h⟩ := then_ok_iff.mp h
  cases h
  refine ⟨rfl, ?_⟩
  by_cases hrecord : (db.store.secrets (p.secretName inst)).isSome = true
  · rw [if_pos hrecord] at hstore
    cases hstore
    exact ⟨Or.inl ⟨hrecord, rfl⟩, fun _ _ _ => rfl⟩
  · rw [if_neg hrecord] at hstore
    obtain ⟨hvalid, htouches, hinline, hvalue⟩ := storeValue_spec hstore
    refine ⟨Or.inr ⟨?_, hinline, hvalue⟩, fun n hn hne => ?_⟩
    · exact Option.not_isSome_iff_eq_none.mp hrecord
    · exact htouches.view_of_columnName hvalid hn hne

/-- **One row.**  Its value is taken when its key makes a name. -/
lemma migrateInstance_spec {row : String × String}
    (hcolumn : validateIdent "column" p.column = .ok ())
    (h : migrateInstance fails now false p s row = .ok s') :
    s'.db.tables = Function.update s.db.tables p.table
        ((s.db.tables p.table).map (p.clearAll [row])) ∧ Carries s s' (p.takings [row]) := by
  have hone : p.clearAll [row] = fun r => if validInstance row.1 then p.clear row.1 r else r := rfl
  unfold migrateInstance at h
  split at h
  · rename_i hvalid
    obtain ⟨hseen, h⟩ := then_ok_iff.mp h
    obtain ⟨-, h⟩ := then_ok_iff.mp h
    obtain ⟨db, hdb, h⟩ := chain_ok_iff.mp h
    cases h
    obtain ⟨htables, hsettled, hframe⟩ := moveValue_spec hdb
    have htakings : p.takings [row] = [(p.secretName row.1, row.2)] := by
      simp [SecretColumn.takings, hvalid]
    rw [ensure_eq_ok, Bool.not_eq_true', List.contains_eq_mem, decide_eq_false_iff_not] at hseen
    rw [htakings, hone, hvalid]
    refine ⟨htables, ?_, ?_, fun n => ?_, ?_, fun n hn hmem => hframe n hn ?_⟩
    · rintro t ht
      obtain rfl := List.mem_singleton.mp ht
      exact columnName_secretName hcolumn row.1
    · rintro t ht
      obtain rfl := List.mem_singleton.mp ht
      exact hseen
    · simp [or_comm]
    · rintro t ht
      obtain rfl := List.mem_singleton.mp ht
      exact hsettled
    · simpa using hmem
  · rename_i hvalid
    cases h
    have htakings : p.takings [row] = [] := by simp [SecretColumn.takings, hvalid]
    rw [htakings, hone]
    refine ⟨?_, Carries.refl s _⟩
    simp [hvalid]

/-- **The rows of a column.** -/
lemma migrateInstances_spec {rows : List (String × String)}
    (hcolumn : validateIdent "column" p.column = .ok ())
    (h : rows.foldlM (migrateInstance fails now false p) s = .ok s') :
    s'.db.tables = Function.update s.db.tables p.table
        ((s.db.tables p.table).map (p.clearAll rows)) ∧ Carries s s' (p.takings rows) := by
  induction rows generalizing s with
  | nil =>
    cases h
    refine ⟨?_, Carries.refl _ _⟩
    have hid : p.clearAll [] = id := rfl
    rw [hid, List.map_id, Function.update_eq_self]
  | cons row rows ih =>
    obtain ⟨mid, hmid, hrest⟩ := foldlM_cons_ok_iff.mp h
    obtain ⟨htables, hcarries⟩ := migrateInstance_spec hcolumn hmid
    obtain ⟨htables', hcarries'⟩ := ih hrest
    have htakings : p.takings (row :: rows) = p.takings [row] ++ p.takings rows := by
      unfold SecretColumn.takings
      rw [← List.map_append, ← List.filter_append, List.singleton_append]
    rw [htakings]
    refine ⟨?_, hcarries.trans hcarries'⟩
    rw [htables', htables, Function.update_idem, Function.update_self, List.map_map]
    rfl

/-- The rows are alike, table by table. -/
def AlikeTables (tables tables' : String → List Row) : Prop :=
  ∀ t, List.Forall₂ Alike (tables t) (tables' t)

/-- The tables as some columns left them. -/
def leftBy (ps : List SecretColumn) (tables : String → List Row) (t : String) : List Row :=
  (tables t).map (blanked t ps)

lemma leftBy_cons (p : SecretColumn) (ps : List SecretColumn) (tables : String → List Row) :
    leftBy ps (leftBy [p] tables) = leftBy (p :: ps) tables := by
  funext t
  unfold leftBy
  rw [List.map_map]
  rfl

/-- **One column.**  It leaves rows like those that gave away what they had, and takes all that they
give away. -/
lemma migrateColumn_spec {tables : String → List Row} (halike : AlikeTables s.db.tables tables)
    (h : migrateColumn fails now false s p = .ok s') :
    AlikeTables s'.db.tables (leftBy [p] tables) ∧
      ∃ takings, Carries s s' takings ∧
        ∀ row ∈ tables p.table, ∀ t, p.taking row = some t → t ∈ takings := by
  obtain ⟨hcolumn, h⟩ := then_ok_iff.mp h
  obtain ⟨-, h⟩ := then_ok_iff.mp h
  obtain ⟨rows, hselect, h⟩ := chain_ok_iff.mp h
  obtain ⟨htables, hcarries⟩ := migrateInstances_spec hcolumn h
  refine ⟨fun t => ?_, p.takings rows, hcarries, fun row hrow t htaking => ?_⟩
  · unfold leftBy
    rw [htables]
    by_cases ht : p.table = t
    · subst ht
      have hblanked : blanked p.table [p] = p.blank := by
        funext row
        exact if_pos rfl
      rw [Function.update_self, hblanked, List.forall₂_map_left_iff, List.forall₂_map_right_iff]
      have hcleared : List.Forall₂ (fun row _ => Alike (p.clearAll rows row) (p.blank row))
          (s.db.tables p.table) (tables p.table) :=
        List.forall₂_iff_zip.mpr ⟨(halike p.table).length_eq, fun hmem =>
          alike_clearAll hselect (List.of_mem_zip hmem).1⟩
      exact hcleared.mp (fun row row' hclear hrow => hclear.trans hrow.blank) (halike p.table)
    · have hblanked : blanked t [p] = id := by
        funext row
        exact if_neg ht
      rw [Function.update_of_ne (Ne.symm ht), hblanked, List.map_id]
      exact halike t
  · obtain ⟨i, hi, rfl⟩ := List.getElem_of_mem hrow
    have hlength := (halike p.table).length_eq
    have hi' : i < (s.db.tables p.table).length := by omega
    have hrows : Alike (s.db.tables p.table)[i] (tables p.table)[i] :=
      (halike p.table).get hi' hi
    rw [← hrows.taking_eq] at htaking
    exact mem_takings_of_taking hselect (List.getElem_mem hi') htaking

/-- **A run.**  It leaves the rows as the columns left them one after the other, and takes all that
they give away. -/
lemma migrateColumns_spec {ps : List SecretColumn} {tables : String → List Row}
    (halike : AlikeTables s.db.tables tables)
    (h : ps.foldlM (migrateColumn fails now false) s = .ok s') :
    AlikeTables s'.db.tables (leftBy ps tables) ∧
      ∃ takings, Carries s s' takings ∧ ∀ before p after, ps = before ++ p :: after →
        ∀ row ∈ tables p.table, ∀ t, p.taking (blanked p.table before row) = some t →
          t ∈ takings := by
  induction ps generalizing s tables with
  | nil =>
    cases h
    have hid : leftBy [] tables = tables := funext fun t => List.map_id (tables t)
    rw [hid]
    exact ⟨halike, [], Carries.refl _ _, by simp⟩
  | cons p ps ih =>
    obtain ⟨mid, hmid, hrest⟩ := foldlM_cons_ok_iff.mp h
    obtain ⟨halike', takings, hcarries, htaken⟩ := migrateColumn_spec halike hmid
    obtain ⟨halike'', takings', hcarries', htaken'⟩ := ih halike' hrest
    rw [leftBy_cons] at halike''
    refine ⟨halike'', takings ++ takings', hcarries.trans hcarries', ?_⟩
    intro before q after hsplit row hrow t htaking
    cases before with
    | nil =>
      cases hsplit
      exact List.mem_append_left _ (htaken row hrow t htaking)
    | cons first before =>
      cases hsplit
      exact List.mem_append_right _ (htaken' before q after rfl (blanked q.table [p] row)
        (List.mem_map_of_mem hrow) t htaking)

/-- The loops over the tables and over the columns are one loop over the secret columns. -/
lemma migrateTable_flat {dryRun : Bool} {nameSpace : String} {t : TableDef}
    (h : migrateTable fails now dryRun nameSpace s t = .ok s') :
    (t.secretColumns nameSpace).foldlM (migrateColumn fails now dryRun) s = .ok s' := by
  unfold migrateTable at h
  unfold TableDef.secretColumns
  dsimp only at h
  split at h
  · rename_i hnone
    cases h
    rw [List.isEmpty_iff.mp hnone]
    split
    · rfl
    · rfl
  · obtain ⟨pk, hpk, h⟩ := chain_ok_iff.mp h
    obtain ⟨-, h⟩ := then_ok_iff.mp h
    obtain ⟨physical, hphysical, h⟩ := chain_ok_iff.mp h
    obtain ⟨-, hphysical⟩ := then_ok_iff.mp hphysical
    obtain ⟨-, hphysical⟩ := then_ok_iff.mp hphysical
    cases hphysical
    rw [required_eq_ok.mp hpk]
    simp only
    rw [List.foldlM_map]
    exact h

end Steps

/-! ## A whole migration -/

/-- What is known of a migration that succeeded. -/
structure Migrated (db db' : PluginDb) (decl : SchemaDecl) : Prop where
  /-- The rows are as the columns left them. -/
  rows : AlikeTables db'.tables (leftBy decl.secretColumns db.tables)
  /-- The values that they gave away are settled. -/
  settled : ∀ before p after, decl.secretColumns = before ++ p :: after →
    ∀ row ∈ db.tables p.table, ∀ t, p.taking (blanked p.table before row) = some t →
      Settled (db.store.view t.1) (db'.store.view t.1) t.2

section Whole

variable {fails : SqlFaults} {now principal : String} {db : PluginDb} {decl : SchemaDecl}
  {report : SecretColumnMigration}

/-- A call that returns an error changes nothing. -/
lemma unchanged_of_error {dryRun : Bool} {e : String}
    (h : (migrateSecretColumns fails now db principal decl dryRun).1 = .error e) :
    (migrateSecretColumns fails now db principal decl dryRun).2 = db := by
  unfold migrateSecretColumns at h ⊢
  split
  · rfl
  · split
    · rfl
    · rename_i hnone hspace
      rw [if_neg hnone, if_neg hspace] at h
      cases hs : migrateTables fails now dryRun db decl with
      | error e => rfl
      | ok s =>
        rw [hs] at h
        cases h

/-- A declaration with no secret column. -/
lemma secretColumns_eq_nil (h : decl.tables.any (fun t => t.columns.any ColumnDef.secret) = false) :
    decl.secretColumns = [] := by
  refine List.flatMap_eq_nil_iff.mpr fun t ht => ?_
  have hcolumns : t.columns.filter ColumnDef.secret = [] := by
    refine List.filter_eq_nil_iff.mpr fun col hcol hsecret => ?_
    refine absurd h (Bool.not_eq_false _ ▸ List.any_eq_true.mpr ⟨t, ht, ?_⟩)
    exact List.any_eq_true.mpr ⟨col, hcol, hsecret⟩
  unfold TableDef.secretColumns
  rw [hcolumns]
  split
  · rfl
  · rfl

/-- **A migration that succeeds.**  It leaves the rows as the columns left them one after the other,
and every value that they gave away is settled. -/
lemma migrated_of_ok (h : (migrateSecretColumns fails now db principal decl false).1 = .ok report) :
    Migrated db (migrateSecretColumns fails now db principal decl false).2 decl := by
  have hrefl : AlikeTables db.tables db.tables := fun t =>
    List.forall₂_same.mpr fun row _ => Alike.refl row
  unfold migrateSecretColumns at h ⊢
  split
  · rename_i hnone
    rw [Bool.not_eq_true'] at hnone
    have hnil := secretColumns_eq_nil hnone
    refine ⟨?_, by simp [hnil]⟩
    have hid : leftBy decl.secretColumns db.tables = db.tables := by
      rw [hnil]
      exact funext fun t => List.map_id (db.tables t)
    rw [hid]
    exact hrefl
  · rename_i hnone
    rw [if_neg hnone] at h
    split
    · rename_i hspace
      rw [if_pos hspace] at h
      cases h
    · rename_i hspace
      rw [if_neg hspace] at h
      cases hs : migrateTables fails now false db decl with
      | error e =>
        rw [hs] at h
        cases h
      | ok s =>
        obtain ⟨-, hs⟩ := then_ok_iff.mp hs
        obtain ⟨s', hs', hs⟩ := chain_ok_iff.mp hs
        obtain ⟨-, hs⟩ := then_ok_iff.mp hs
        cases hs
        have hflat : decl.secretColumns.foldlM (migrateColumn fails now false) _ = .ok s :=
          foldlM_flatMap_ok (fun _ _ _ h => migrateTable_flat h) hs'
        obtain ⟨halike, takings, hcarries, htaken⟩ := migrateColumns_spec hrefl hflat
        exact ⟨halike, fun before p after hsplit row hrow t htaking =>
          hcarries.settled t (htaken before p after hsplit row hrow t htaking)⟩

end Whole

/-! ## What can be read -/

section Reading

variable {s s' : SecretStore} {name value : String}

/-- What reading a name gives, by its record and its value. -/
lemma readable_iff : Readable s s' name value ↔ ∃ r, (s'.view name).record = some r ∧
    (r.backend = "inline" → ∃ v, (s'.view name).value = some v ∧
      (v = value ∨ (s.view name).value = some v)) := by
  unfold Readable prepareSecretOp
  simp only [SecretStore.view]
  cases hrecord : s'.secrets name with
  | none => simp
  | some r =>
    by_cases hinline : r.backend = "inline"
    · cases hvalue : s'.settings (valueKey name) with
      | none => simp [hinline, required, bind, Except.bind]
      | some v => simp [hinline, required, bind, Except.bind, eq_comm]
    · simp [hinline]

/-- A value that is settled can be read, when the record was not empty. -/
lemma readable_of_settled (h : Settled (s.view name) (s'.view name) value)
    (hrecord : ¬EmptyRecord s name) : Readable s s' name value := by
  rw [readable_iff]
  rcases h with ⟨hsome, hsame⟩ | ⟨-, ⟨r, hr, -⟩, hvalue⟩
  · obtain ⟨r, hr⟩ := Option.isSome_iff_exists.mp hsome
    refine ⟨r, hsame ▸ hr, fun hinline => ?_⟩
    cases hv : (s.view name).value with
    | none => exact absurd ⟨r, hr, hinline, hv⟩ hrecord
    | some v => exact ⟨v, hsame ▸ hv, Or.inr rfl⟩
  · exact ⟨r, hr, fun _ => ⟨value, hvalue, Or.inl rfl⟩⟩

/-- Nothing can be read under a name whose record was empty. -/
lemma not_readable_of_empty (h : Settled (s.view name) (s'.view name) value)
    (hrecord : EmptyRecord s name) : ¬Readable s s' name value := by
  obtain ⟨r, hr, hinline, hnone⟩ := hrecord
  rw [readable_iff]
  rintro ⟨r', hr', hvalue⟩
  rcases h with ⟨-, hsame⟩ | ⟨hnew, -⟩
  · rw [hsame] at hr' hvalue
    cases hr.symm.trans hr'
    obtain ⟨v, hv, -⟩ := hvalue hinline
    cases hnone.symm.trans hv
  · cases hr.symm.trans hnew

end Reading

/-! ## Nothing is lost -/

section Lost

variable {db db' : PluginDb} {decl : SchemaDecl}

/-- The rows after a migration, each with the one it was. -/
lemma rows_of_alike (halike : AlikeTables db'.tables (leftBy decl.secretColumns db.tables))
    (t : String) : List.Forall₂ (fun row row' => Alike row' (blanked t decl.secretColumns row))
      (db.tables t) (db'.tables t) :=
  (List.forall₂_map_right_iff.mp (halike t)).flip

lemma nameSpace_of_mem {p : SecretColumn} (hp : p ∈ decl.secretColumns) :
    p.nameSpace = decl.nameSpace := by
  obtain ⟨t, -, hp⟩ := List.mem_flatMap.mp hp
  unfold TableDef.secretColumns at hp
  split at hp
  · cases hp
  · obtain ⟨col, -, rfl⟩ := List.mem_map.mp hp
    rfl

/-- Nothing is lost when no name has an empty record. -/
lemma Migrated.nothing_lost (h : Migrated db db' decl) (hrecords : NoEmptyRecord db decl) :
    NothingLost db db' decl := by
  intro p hp
  have hrows := rows_of_alike h.rows p.table
  refine List.forall₂_iff_get.mpr ⟨hrows.length_eq, fun i hi hi' hvalue => ?_⟩
  have hrow : (db.tables p.table).get ⟨i, hi⟩ ∈ db.tables p.table := List.get_mem _ _
  have halike := hrows.get hi hi'
  generalize (db.tables p.table).get ⟨i, hi⟩ = row at hrow halike hvalue ⊢
  generalize (db'.tables p.table).get ⟨i, hi'⟩ = row' at halike ⊢
  rcases blanked_eq_or p.table decl.secretColumns row p.column with hsame | ⟨-, htaken⟩
  · -- no column took the value
    refine Or.inl ?_
    rw [← hsame] at hvalue
    rw [halike.symm.eq_of_nonEmpty hvalue, hsame]
  · obtain ⟨before, q, after, hsplit, htable, hcolumn, htaken⟩ := htaken
    obtain ⟨⟨name, value⟩, htaking⟩ := Option.isSome_iff_exists.mp htaken
    rw [← htable] at htaking hrow
    refine Or.inr ⟨q, ?_, htable, hcolumn, name, value, taking_of_blanked htaking, ?_⟩
    · rw [hsplit]
      exact List.mem_append_right _ List.mem_cons_self
    · exact readable_of_settled (h.settled before q after hsplit row hrow _ htaking)
        (hrecords before q after hsplit row hrow name value htaking)

/-- A value whose name has an empty record is lost. -/
lemma Migrated.no_empty_record (h : Migrated db db' decl) (hone : OneKey decl)
    (hkept : NothingLost db db' decl) : NoEmptyRecord db decl := by
  intro before p after hsplit row hrow name value htaking hempty
  have hp : p ∈ decl.secretColumns := by
    rw [hsplit]
    exact List.mem_append_right _ List.mem_cons_self
  have hsettled := h.settled before p after hsplit row hrow _ htaking
  have hinitial := taking_of_blanked htaking
  obtain ⟨i, hi, rfl⟩ := List.getElem_of_mem hrow
  have hrows := rows_of_alike h.rows p.table
  have hi' : i < (db'.tables p.table).length := hrows.length_eq ▸ hi
  have halike := hrows.get hi hi'
  have hcell := (hkept p hp).get hi hi' (nonEmpty_of_taking hinitial).2
  simp only [List.get_eq_getElem] at halike hcell
  rcases hcell with hstill | ⟨q, hq, htable, hcolumn, name', value', htaking', hread⟩
  · -- the column was cleared
    have hblanked : (blanked p.table decl.secretColumns (db.tables p.table)[i] p.column).nonEmpty =
        false := by
      rw [hsplit]
      exact nonEmpty_blanked_of_taking (Option.isSome_iff_exists.mpr ⟨_, htaking⟩)
    have hnonEmpty := (nonEmpty_of_taking hinitial).2
    rw [← hstill] at hnonEmpty
    rw [halike.eq_of_nonEmpty hnonEmpty, hnonEmpty] at hblanked
    cases hblanked
  · -- the other name of the value is the same one
    have hkey := hone p hp q hq htable hcolumn
    have hspace : q.nameSpace = p.nameSpace := by rw [nameSpace_of_mem hq, nameSpace_of_mem hp]
    rw [taking_congr hspace hcolumn (by rw [hkey]) rfl, hinitial] at htaking'
    cases htaking'
    exact not_readable_of_empty hsettled hempty hread

end Lost

/-- **A migration loses no credential.**  A call that returns an error leaves everything as it was.
After one that succeeds nothing is lost when no name that is taken has an empty record, and only
then if the names of a column are made from one key. -/
theorem migration_keeps_secrets (fails : SqlFaults) (now principal : String) (db : PluginDb)
    (decl : SchemaDecl) :
    let call := migrateSecretColumns fails now db principal decl false
    (∀ e, call.1 = .error e → call.2 = db) ∧ ∀ report, call.1 = .ok report →
      (NoEmptyRecord db decl → NothingLost db call.2 decl) ∧
        (OneKey decl → NothingLost db call.2 decl → NoEmptyRecord db decl) := by
  refine ⟨fun e h => unchanged_of_error h, fun report h => ?_⟩
  exact ⟨(migrated_of_ok h).nothing_lost, (migrated_of_ok h).no_empty_record⟩

/-- A table of endpoints, with a secret token. -/
def endpoints : SchemaDecl :=
  ⟨"acme", [⟨"endpoints", [⟨"name", false, true, false⟩, ⟨"token", false, false, true⟩]⟩]⟩

/-- The token of the endpoints. -/
def endpointToken : SecretColumn := ⟨"acme", "plug__acme__endpoints", "name", "token", false⟩

/-- One endpoint, with a token, and a store. -/
def oneEndpoint (store : SecretStore) : PluginDb where
  tables := fun t =>
    if t = "plug__acme__endpoints" then
      [fun c => if c = "name" then .text "a" else if c = "token" then .text "tok-a" else .null]
    else []
  store := store

/-- A migration in which no statement fails. -/
def migrateEndpoints (store : SecretStore) : Except String SecretColumnMigration × PluginDb :=
  migrateSecretColumns (fun _ _ => none) "t1" (oneEndpoint store) "acme" endpoints false

/-- A token that goes into an empty store is not lost. -/
theorem migration_keeps_secrets_sample :
    (migrateEndpoints noSecrets).1 = .ok ⟨1, 0, 0, ["acme.a.token"]⟩ ∧
      NothingLost (oneEndpoint noSecrets) (migrateEndpoints noSecrets).2 endpoints := by
  have hok : (migrateEndpoints noSecrets).1 = .ok ⟨1, 0, 0, ["acme.a.token"]⟩ := by decide +kernel
  refine ⟨hok, ((migration_keeps_secrets (fun _ _ => none) "t1" "acme" (oneEndpoint noSecrets)
    endpoints).2 _ hok).1 ?_⟩
  rintro before p after - row - name value - ⟨r, hr, -⟩
  cases hr

/-- The store after a `Set` of the token that failed after its first half. -/
def halfSet : SecretStore :=
  let row : SecretRecord := ⟨"inline", "", none, "t0", "t0"⟩
  clearRestoreState { noSecrets with
    secrets := Function.update noSecrets.secrets "acme.a.token" (some row) } "acme.a.token"

/-- After that `Set` the migration clears the column of the token, and nothing is left to read. -/
theorem empty_record_cleared :
    upsert noSecrets "acme.a.token" "inline" "" none "t0" = .ok (true, halfSet) ∧
      (migrateEndpoints halfSet).1 = .ok ⟨0, 1, 0, ["acme.a.token"]⟩ ∧
      ((migrateEndpoints halfSet).2.tables "plug__acme__endpoints").map
        (fun row => (row "token").nonEmpty) = [false] ∧
      ¬NothingLost (oneEndpoint halfSet) (migrateEndpoints halfSet).2 endpoints := by
  have hok : (migrateEndpoints halfSet).1 = .ok ⟨0, 1, 0, ["acme.a.token"]⟩ := by decide +kernel
  have hcolumns : endpoints.secretColumns = [endpointToken] := rfl
  refine ⟨rfl, hok, by decide +kernel, fun hkept => ?_⟩
  have hone : OneKey endpoints := by
    intro p hp q hq _ _
    rw [hcolumns] at hp hq
    rw [List.mem_singleton.mp hp, List.mem_singleton.mp hq]
  have hrecords := (migrated_of_ok hok).no_empty_record hone hkept
  refine hrecords [] endpointToken [] hcolumns _ List.mem_cons_self "acme.a.token" "tok-a" ?_ ?_
  · decide +kernel
  · exact ⟨⟨"inline", "", none, "t0", "t0"⟩, by decide +kernel, rfl, by decide +kernel⟩

end Orca.Secrets
