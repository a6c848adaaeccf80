import Orca.Library.Evolution
import Orca.Replication.Protection

/-!
# What a peer can write

A merge lets a peer rewrite rows of a local table and add rows to it.  This file proves how far
that goes: a row is never lost, a protected column keeps its local value up to the keys a
`column.key` entry opens (`RowConfined`), and a table with a protected column gets no new rows.

`merge_table` keeps this on every input.  `merge_table_natural` replaces a row by `DELETE` and
`INSERT` and then writes the local columns back with `UPDATE … WHERE pk = ?`, which finds no row
when the key of the new row is `NULL`: the local columns are then lost.  `losesLocal` is that
branch, and the merge is confined exactly when it is not taken.
-/

namespace Orca

open Evolution

/-! ## Confinement of a row -/

/-- A replicated column that a peer may not write. -/
def IsProtected (columns exempt peerWritable : List String) (c : String) : Prop :=
  c ∈ columns ∧ c ∉ exempt ∧ c ∉ peerWritable

/-- The columns `Protection::new` lists are the protected ones. -/
lemma mem_cols_new {columns exempt peerWritable : List String} {c : String} :
    c ∈ (Protection.new columns exempt peerWritable).cols ↔
      IsProtected columns exempt peerWritable c := by
  simp [Protection.new, IsProtected]

/-- What may become of a row: protected cells are confined, and the columns of `fixed` are as they
were. -/
structure RowConfined (jt : JsonText) (p : Protection) (fixed : String → Prop) (old new : Row) :
    Prop where
  guarded : ∀ c ∈ p.cols, CellConfined jt (p.keysOf c) (old c) (new c)
  fixed : ∀ c, fixed c → new c = old c

lemma RowConfined.refl (jt : JsonText) (p : Protection) (fixed : String → Prop) (r : Row) :
    RowConfined jt p fixed r r :=
  ⟨fun c _ => .refl jt _ (r c), fun _ _ => rfl⟩

lemma RowConfined.trans {jt : JsonText} {p : Protection} {fixed : String → Prop} (a b c : Row)
    (h₁ : RowConfined jt p fixed a b) (h₂ : RowConfined jt p fixed b c) :
    RowConfined jt p fixed a c :=
  ⟨fun col hc => (h₁.guarded col hc).trans (h₂.guarded col hc),
    fun col hc => (h₂.fixed col hc).trans (h₁.fixed col hc)⟩

lemma CellConfined.roundTrips {jt : JsonText} {keys : List String} {v w : SqlValue}
    (h : CellConfined jt keys v w) (hv : v.RoundTrips) : w.RoundTrips := by
  rcases Relation.ReflTransGen.cases_tail h.edited with rfl | ⟨u, -, hedit⟩
  · exact hv
  · obtain ⟨txt, out, out', -, -, -, rfl⟩ := hedit
    trivial

/-- What the protection relies on: cells are stored values, and protected ones survive the way to
JSON and back. -/
structure Guarded (s : Schema) (p : Protection) (t : Table) : Prop where
  /-- Every cell went through the affinity of its column. -/
  stored : ∀ r ∈ t, ∀ c, s.affinity c (r c) = r c
  roundTrips : ∀ r ∈ t, ∀ c ∈ p.cols, (r c).RoundTrips

/-- A table of stored cells that evolved from a guarded one under confinement is guarded. -/
lemma Guarded.of_evolves {jt : JsonText} {s : Schema} {p : Protection} {fixed : String → Prop}
    {t t' : Table} (h : Guarded s p t)
    (hevolves : Evolves (RowConfined jt p fixed) (p.cols ≠ []) t t')
    (hstored : ∀ r ∈ t', ∀ c, s.affinity c (r c) = r c) : Guarded s p t' := by
  refine ⟨hstored, fun r hr c hc => ?_⟩
  obtain ⟨kept, added, hkept, hperm, hclosed⟩ := hevolves
  have hr' : r ∈ kept := by
    have hmem : r ∈ kept ++ added := hperm.subset hr
    rwa [hclosed (List.ne_nil_of_mem hc), List.append_nil] at hmem
  obtain ⟨old, hold, hconf⟩ := exists_of_mem_kept hkept hr'
  exact (hconf.guarded c hc).roundTrips (h.roundTrips old hold c hc)

/-! ## `merge_table` -/

section MergeTable

variable {lib : Libs} {s : Schema} {spec : TableSpec} {now : Int} {t t' : Table}

/-- The columns of a row that `merge_table` never writes. -/
def TableSpec.Fixed (spec : TableSpec) (c : String) : Prop := c = spec.pk ∨ c ∉ spec.columns

lemma TableSpec.pk_not_mem_cols (spec : TableSpec) : spec.pk ∉ spec.protection.cols := by
  intro h
  exact (mem_cols_new.mp h).2.1 (by simp)

/-- What an iteration of `merge_table` that writes has done up to its `INSERT`. -/
lemma mergeTableRow_eq_some {row : Json} (h : mergeTableRow lib s spec now t row = .ok (some t')) :
    ∃ obj obj' pkJson lww, row = .object obj ∧ obj.lookup spec.lww = some lww ∧
      obj.lookup spec.pk = some pkJson ∧ (checkIncomingLwwJson lib now lww).isOk = true ∧
      (∀ r, t.find? (s.holds spec.pk (jsonToSql lib.json pkJson)) = some r →
        jsonIsNewerThanSql lib lww (r spec.lww) = true) ∧
      spec.protection.apply lib.json
        (t.find? (s.holds spec.pk (jsonToSql lib.json pkJson))) obj = some obj' ∧
      s.upsert spec.pk spec.columns (boundValues lib.json obj') t = some t' := by
  unfold mergeTableRow at h
  split at h
  · cases h
  rename_i obj hobj
  split at h
  · cases h
  rename_i lww hlww
  split at h
  · cases h
  rename_i pkJson hpk
  rw [Except.ok.injEq] at h
  unfold mergeTableWrite at h
  split at h
  · cases h
  rename_i m hcheck
  simp only at h
  split at h
  · cases h
  rename_i hnewer
  split at h
  · cases h
  rename_i obj' happly
  obtain rfl : row = .object obj := by
    cases row <;> simp_all [Json.asObject]
  refine ⟨obj, obj', pkJson, lww, rfl, hlww, hpk, by rw [hcheck]; rfl, ?_, happly, h⟩
  intro r hr
  simpa [hr] using hnewer

/-- In an iteration that writes, the row the `INSERT` would clash with is the row that was looked
up. -/
lemma samePk_written_eq_holds {obj obj' : List (String × Json)} {pkJson : Json} {cur : Option Row}
    (hpk : obj.lookup spec.pk = some pkJson)
    (happly : spec.protection.apply lib.json cur obj = some obj') (r : Row) :
    Schema.samePk spec.pk (s.written spec.columns (boundValues lib.json obj') s.defaults) r =
      s.holds spec.pk (jsonToSql lib.json pkJson) r := by
  have hkey : obj'.lookup spec.pk = some pkJson := by
    rw [(Protection.apply_eq_some happly).1 _ spec.pk_not_mem_cols, hpk]
  rw [Schema.samePk_written spec.pk_mem]
  unfold boundValues
  rw [hkey, Option.getD_some]

/-- One iteration of `merge_table` confines what it writes, and a table with protected columns gets
no new row. -/
lemma evolves_of_mergeTableRow {row : Json} (hvalid : s.Valid spec.pk t)
    (hguard : Guarded s spec.protection t)
    (htext : ∀ c, spec.protection.keysOf c ≠ [] → s.IsText c)
    (h : mergeTableRow lib s spec now t row = .ok (some t')) :
    Evolves (RowConfined lib.json spec.protection spec.Fixed) (spec.protection.cols ≠ []) t t' := by
  obtain ⟨obj, obj', pkJson, lww, rfl, -, hpk, -, -, happly, hupsert⟩ := mergeTableRow_eq_some h
  have hsame : ∀ r, Schema.samePk spec.pk
      (s.written spec.columns (boundValues lib.json obj') s.defaults) r =
        s.holds spec.pk (jsonToSql lib.json pkJson) r :=
    samePk_written_eq_holds hpk happly
  rcases Schema.upsert_eq_some hvalid hupsert with ⟨hnew, rfl⟩ | ⟨-, rfl⟩
  · -- no row of that key: the protection lets a new row in only when it protects nothing
    refine Evolves.of_append (RowConfined.refl _ _ _) ?_ t _
    rw [not_not]
    by_contra hcols
    obtain ⟨c, hc⟩ := List.exists_mem_of_ne_nil _ hcols
    obtain ⟨r, hr, -⟩ := (Protection.apply_eq_some happly).2 c hc
    have hholds := List.find?_some hr
    rw [← hsame, hnew r (List.mem_of_find?_eq_some hr)] at hholds
    cases hholds
  · refine Evolves.of_map fun r hr => ?_
    by_cases hhit : Schema.samePk spec.pk
        (s.written spec.columns (boundValues lib.json obj') s.defaults) r = true
    · rw [if_pos hhit]
      obtain ⟨cur, hcur⟩ :
          ∃ cur, t.find? (s.holds spec.pk (jsonToSql lib.json pkJson)) = some cur := by
        rw [← Option.isSome_iff_exists, List.find?_isSome]
        exact ⟨r, hr, (hsame r) ▸ hhit⟩
      have hcurEq : cur = r := by
        have hcurHolds := (Schema.holds_iff.mp (List.find?_some hcur))
        have hrHolds := Schema.holds_iff.mp ((hsame r) ▸ hhit)
        exact hvalid.eq_of_pk (List.mem_of_find?_eq_some hcur) hr hcurHolds.1
          (hcurHolds.2.trans hrHolds.2.symm)
      rw [hcur, hcurEq] at happly
      constructor
      · intro c hc
        have hmem : c ∈ spec.columns.filter (· != spec.pk) := by
          have hne : c ≠ spec.pk := fun heq => spec.pk_not_mem_cols (heq ▸ hc)
          simpa [hne] using (mem_cols_new.mp hc).1
        rw [Schema.written_of_mem hmem]
        exact Protection.cellConfined_of_apply happly hc (hguard.stored r hr c)
          (hguard.roundTrips r hr c hc) (htext c)
      · intro c hc
        refine Schema.written_of_not_mem ?_
        rcases hc with rfl | hc
        · simp
        · simp [hc]
    · rw [if_neg hhit]
      exact .refl _ _ _ r

/-- A write of `merge_table` leaves a valid table. -/
lemma valid_of_mergeTableRow {row : Json} (hvalid : s.Valid spec.pk t)
    (h : mergeTableRow lib s spec now t row = .ok (some t')) : s.Valid spec.pk t' := by
  obtain ⟨obj, obj', pkJson, lww, rfl, -, hpk, -, -, happly, hupsert⟩ := mergeTableRow_eq_some h
  generalize boundValues lib.json obj' = vals at hupsert
  have hpkWritten : spec.pk ∉ spec.columns.filter (· != spec.pk) := by simp
  rcases Schema.upsert_eq_some hvalid hupsert with ⟨hnew, rfl⟩ | ⟨-, rfl⟩
  · constructor
    · intro r hr
      rcases List.mem_append.mp hr with hr | hr
      · exact hvalid.stored r hr
      · rw [List.mem_singleton] at hr
        subst hr
        exact Schema.written_stored s.defaults_stored
    · rw [List.pairwise_append]
      refine ⟨hvalid.pk_unique, List.pairwise_singleton _ _, ?_⟩
      intro a ha b hb hab
      rw [List.mem_singleton] at hb
      subst hb
      by_contra hnull
      have hsame := Schema.samePk_iff.mpr ⟨hab ▸ hnull, hab⟩
      rw [hnew a ha] at hsame
      cases hsame
  · constructor
    · intro r hr
      obtain ⟨old, hold, rfl⟩ := List.mem_map.mp hr
      split
      · exact Schema.written_stored (hvalid.stored old hold)
      · exact hvalid.stored old hold
    · -- the rewritten row keeps its key
      refine List.pairwise_map.mpr (hvalid.pk_unique.imp ?_)
      have hkey : ∀ r : Row, (if Schema.samePk spec.pk (s.written spec.columns vals s.defaults) r
          then s.written (spec.columns.filter (· != spec.pk)) vals r else r) spec.pk =
            r spec.pk := by
        intro r
        split
        · exact Schema.written_of_not_mem hpkWritten
        · rfl
      intro a b hab
      rw [hkey a, hkey b]
      exact hab

/-- `merge_table` confines every peer, on every table and every bundle. -/
lemma evolves_mergeTable (hvalid : s.Valid spec.pk t) (hguard : Guarded s spec.protection t)
    (htext : ∀ c, spec.protection.keysOf c ≠ [] → s.IsText c) (rows : Json) :
    Evolves (RowConfined lib.json spec.protection spec.Fixed) (spec.protection.cols ≠ []) t
      (mergeTable lib s spec now t rows).1 := by
  unfold mergeTable mergeArray
  split
  · exact Evolves.refl (RowConfined.refl _ _ _) t
  · -- the invariant of the loop: the table is valid, its protected cells are carried faithfully
    refine mergeRows_relates (Q := fun _ _ => True)
      (I := fun t => s.Valid spec.pk t ∧ Guarded s spec.protection t)
      (Evolves.refl (RowConfined.refl _ _ _)) (Evolves.trans RowConfined.trans) ?_ ?_
      ⟨hvalid, hguard⟩ (eachStep_of_forall (fun _ _ => trivial) _ _) 0
    · rintro t t' row ⟨hvalid, hguard⟩ - hrow
      have hvalid' := valid_of_mergeTableRow hvalid hrow
      exact ⟨hvalid', hguard.of_evolves (evolves_of_mergeTableRow hvalid hguard htext hrow)
        hvalid'.stored⟩
    · rintro t t' row ⟨hvalid, hguard⟩ - hrow
      exact evolves_of_mergeTableRow hvalid hguard htext hrow

end MergeTable

/-! ## `merge_table_natural` -/

section MergeNatural

variable {lib : Libs} {s : Schema} {spec : NaturalSpec} {now : Int} {t t' : Table}

/-- The row an iteration of `merge_table_natural` ends up with: the inserted one, with the local
columns of the replaced row unless its key is `NULL`. -/
def newRow (s : Schema) (spec : NaturalSpec) (plan : NaturalPlan) : Row :=
  let row := s.written spec.columns plan.vals s.defaults
  match plan.old with
  | none => row
  | some old => if plan.vals spec.pk = .null then row else s.written spec.preserve old row

/-- What the writes under the savepoint have done if they were not rolled back. -/
lemma replaceRow_eq_some {plan : NaturalPlan} (h : replaceRow s spec plan t = some t') :
    t' = (t.filter fun r => !plan.target r) ++ [newRow s spec plan] := by
  unfold replaceRow at h
  split at h
  · cases h
  rename_i t₁ hinsert
  obtain ⟨hfresh, -, rfl⟩ := Schema.insert_eq_some hinsert
  unfold newRow
  cases hold : plan.old with
  | none =>
    simp only [hold] at h
    cases h
    rfl
  | some old =>
    simp only [hold] at h ⊢
    split at h
    · rename_i hempty
      rw [List.isEmpty_iff] at hempty
      cases h
      have hsame : s.written spec.preserve old (s.written spec.columns plan.vals s.defaults) =
          s.written spec.columns plan.vals s.defaults := by
        funext c
        exact Schema.written_of_not_mem (by simp [hempty])
      rw [hsame, ite_self]
    · rw [Schema.update_eq_some h, List.map_append, List.map_singleton]
      congr 1
      · -- no other row has the key of the new one
        conv_rhs => rw [← List.map_id (t.filter _)]
        refine List.map_congr_left fun r hr => ?_
        have hmiss : s.holds spec.pk (plan.vals spec.pk) r = false := by
          rw [← Schema.samePk_written spec.pk_mem]
          exact hfresh r hr
        simp [hmiss]
      · congr 1
        by_cases hnull : plan.vals spec.pk = .null
        · rw [if_pos hnull, if_neg]
          rw [Schema.holds_written_iff spec.pk_mem, not_not]
          exact hnull
        · rw [if_neg hnull, if_pos]
          exact (Schema.holds_written_iff spec.pk_mem).mpr hnull

/-- What an iteration of `merge_table_natural` has found when it reaches its savepoint. -/
lemma planNaturalRow_eq_some {row : Json} {plan : NaturalPlan}
    (h : planNaturalRow lib s spec now t row = .ok (some plan)) :
    plan.old = (t.filter plan.target).head? ∧ (t.filter plan.target).length ≤ 1 ∧
      ∃ obj obj', spec.protection.apply lib.json plan.old obj = some obj' ∧
        plan.vals = boundValues lib.json obj' := by
  unfold planNaturalRow at h
  split at h
  · cases h
  rename_i obj hobj
  split at h
  · cases h
  split at h
  · cases h
  split at h
  · cases h
  rw [Except.ok.injEq] at h
  unfold planNatural at h
  split at h
  · cases h
  simp only at h
  split at h
  · cases h
  rename_i hlength
  split at h
  · cases h
  split at h
  · cases h
  rename_i obj' happly
  cases h
  exact ⟨rfl, Nat.not_lt.mp hlength, obj, obj', happly, rfl⟩

/-- An iteration of `merge_table_natural` that writes carries out its plan. -/
lemma mergeNaturalRow_eq_some {row : Json}
    (h : mergeNaturalRow lib s spec now t row = .ok (some t')) :
    ∃ plan, planNaturalRow lib s spec now t row = .ok (some plan) ∧
      replaceRow s spec plan t = some t' := by
  unfold mergeNaturalRow at h
  cases hplan : planNaturalRow lib s spec now t row with
  | error e => simp [hplan, Except.map] at h
  | ok plan =>
    cases plan with
    | none => simp [hplan, Except.map] at h
    | some plan => exact ⟨plan, rfl, by simpa [hplan, Except.map] using h⟩

lemma filter_not_target_of_none {target : Row → Bool} (h : (t.filter target).head? = none) :
    (t.filter fun r => !target r) = t := by
  rw [List.head?_eq_none_iff, List.filter_eq_nil_iff] at h
  rw [List.filter_eq_self]
  intro r hr
  simpa using h r hr

/-- One row is deleted when the target matches one. -/
lemma perm_of_target {target : Row → Bool} {old : Row} (h : (t.filter target).head? = some old)
    (hlength : (t.filter target).length ≤ 1) :
    t.Perm (old :: t.filter fun r => !target r) := by
  have hone : t.filter target = [old] := by
    cases hfilter : t.filter target with
    | nil => simp [hfilter] at h
    | cons r rs =>
      rw [hfilter] at h hlength
      obtain rfl : r = old := by simpa using h
      have hrs : rs = [] := by
        rw [← List.length_eq_zero_iff]
        simpa using hlength
      rw [hrs]
  have hsplit := (List.filter_append_perm target t).symm
  rwa [hone] at hsplit

/-- A replicated cell of the new row. -/
lemma newRow_of_mem_columns (plan : NaturalPlan) {c : String} (hc : c ∈ spec.columns) :
    newRow s spec plan c = s.affinity c (plan.vals c) := by
  have hlocal : c ∉ spec.preserve := fun h => spec.preserve_disjoint c h hc
  unfold newRow
  cases plan.old with
  | none => exact Schema.written_of_mem hc
  | some old =>
    simp only
    split
    · exact Schema.written_of_mem hc
    · rw [Schema.written_of_not_mem hlocal, Schema.written_of_mem hc]

/-- A local cell of the new row: the one of the replaced row, or the default of the column. -/
lemma newRow_of_mem_preserve (plan : NaturalPlan) {c : String} (hc : c ∈ spec.preserve)
    (hstored : ∀ old, plan.old = some old → s.affinity c (old c) = old c) :
    newRow s spec plan c =
      match plan.old with
      | none => s.defaults c
      | some old => if plan.vals spec.pk = .null then s.defaults c else old c := by
  have hdefault : s.written spec.columns plan.vals s.defaults c = s.defaults c :=
    Schema.written_of_not_mem (spec.preserve_disjoint c hc)
  unfold newRow
  cases hold : plan.old with
  | none => exact hdefault
  | some old =>
    simp only
    split
    · exact hdefault
    · rw [Schema.written_of_mem hc, hstored old hold]

/-- Whether a row has a local column that is not at its default. -/
def hasLocal (s : Schema) (spec : NaturalSpec) (r : Row) : Bool :=
  spec.preserve.any fun c => r c != s.defaults c

/-- The branch that goes wrong: an iteration replaces a row whose local columns are not all at
their defaults by a row whose key is `NULL`. -/
def losesLocal (lib : Libs) (s : Schema) (spec : NaturalSpec) (now : Int) (t : Table)
    (row : Json) : Bool :=
  match planNaturalRow lib s spec now t row with
  | .ok (some plan) =>
      (replaceRow s spec plan t).isSome && plan.vals spec.pk == .null &&
        plan.old.any (hasLocal s spec)
  | _ => false

/-- An iteration that writes nothing loses nothing. -/
lemma losesLocal_of_no_write {row : Json}
    (h : ∀ t', mergeNaturalRow lib s spec now t row ≠ .ok (some t')) :
    losesLocal lib s spec now t row = false := by
  unfold losesLocal
  split
  · rename_i plan hplan
    have hnone : replaceRow s spec plan t = none := by
      rw [Option.eq_none_iff_forall_not_mem]
      intro t' ht'
      exact h t' (by simpa [mergeNaturalRow, hplan, Except.map] using ht')
    simp [hnone]
  · rfl

/-- One iteration of `merge_table_natural` confines what it writes unless it takes the branch that
goes wrong. -/
lemma evolves_of_mergeNaturalRow {row : Json} (hguard : Guarded s spec.protection t)
    (htext : ∀ c, spec.protection.keysOf c ≠ [] → s.IsText c)
    (hkeep : losesLocal lib s spec now t row = false)
    (h : mergeNaturalRow lib s spec now t row = .ok (some t')) :
    Evolves (RowConfined lib.json spec.protection (· ∈ spec.preserve))
      (spec.protection.cols ≠ []) t t' := by
  obtain ⟨plan, hplan, hreplace⟩ := mergeNaturalRow_eq_some h
  obtain ⟨hhead, hlength, obj, obj', happly, hvals⟩ := planNaturalRow_eq_some hplan
  have ht' := replaceRow_eq_some hreplace
  cases hold : plan.old with
  | none =>
    rw [filter_not_target_of_none (hhead.symm.trans hold)] at ht'
    rw [ht']
    refine Evolves.of_append (RowConfined.refl _ _ _) ?_ t _
    rw [not_not]
    by_contra hcols
    obtain ⟨c, hc⟩ := List.exists_mem_of_ne_nil _ hcols
    obtain ⟨r, hr, -⟩ := (Protection.apply_eq_some happly).2 c hc
    rw [hold] at hr
    cases hr
  | some old =>
    have hperm := perm_of_target (hhead.symm.trans hold) hlength
    have holdMem : old ∈ t := hperm.symm.subset List.mem_cons_self
    refine Evolves.of_replace (RowConfined.refl _ _ _) hperm
      (ht' ▸ List.perm_append_singleton _ _) ⟨?_, ?_⟩
    · intro c hc
      rw [newRow_of_mem_columns plan (mem_cols_new.mp hc).1, hvals]
      rw [hold] at happly
      exact Protection.cellConfined_of_apply happly hc (hguard.stored old holdMem c)
        (hguard.roundTrips old holdMem c hc) (htext c)
    · intro c hc
      have hstored : ∀ r, plan.old = some r → s.affinity c (r c) = r c := by
        intro r hr
        rw [hold, Option.some.injEq] at hr
        exact hr ▸ hguard.stored old holdMem c
      rw [newRow_of_mem_preserve plan hc hstored, hold]
      simp only
      split
      · rename_i hnull
        -- the key is `NULL`, so the local columns were at their defaults
        have hall : hasLocal s spec old = false := by
          simpa [losesLocal, hplan, hreplace, hnull, hold] using hkeep
        rw [hasLocal, List.any_eq_false] at hall
        have hcell : old c = s.defaults c := by simpa using hall c hc
        exact hcell.symm
      · rfl

/-- A write of `merge_table_natural` leaves stored cells. -/
lemma stored_of_mergeNaturalRow {row : Json}
    (hstored : ∀ r ∈ t, ∀ c, s.affinity c (r c) = r c)
    (h : mergeNaturalRow lib s spec now t row = .ok (some t')) :
    ∀ r ∈ t', ∀ c, s.affinity c (r c) = r c := by
  obtain ⟨plan, -, hreplace⟩ := mergeNaturalRow_eq_some h
  rw [replaceRow_eq_some hreplace]
  intro r hr
  rcases List.mem_append.mp hr with hr | hr
  · exact hstored r (List.mem_of_mem_filter hr)
  · rw [List.mem_singleton] at hr
    subst hr
    have hrow : ∀ c, s.affinity c (s.written spec.columns plan.vals s.defaults c) =
        s.written spec.columns plan.vals s.defaults c :=
      Schema.written_stored s.defaults_stored
    unfold newRow
    cases plan.old with
    | none => exact hrow
    | some old =>
      simp only
      split
      · exact hrow
      · exact Schema.written_stored hrow

/-- The number of rows with a local column off its default never grows in an iteration, and shrinks
in one that takes the branch that goes wrong. -/
lemma countP_hasLocal_of_mergeNaturalRow {row : Json}
    (hstored : ∀ r ∈ t, ∀ c, s.affinity c (r c) = r c)
    (h : mergeNaturalRow lib s spec now t row = .ok (some t')) :
    t'.countP (hasLocal s spec) +
      (if losesLocal lib s spec now t row then 1 else 0) ≤ t.countP (hasLocal s spec) := by
  obtain ⟨plan, hplan, hreplace⟩ := mergeNaturalRow_eq_some h
  obtain ⟨hhead, hlength, -⟩ := planNaturalRow_eq_some hplan
  have hloses : losesLocal lib s spec now t row =
      (plan.vals spec.pk == .null && plan.old.any (hasLocal s spec)) := by
    simp [losesLocal, hplan, hreplace]
  rw [hloses, replaceRow_eq_some hreplace, List.countP_append, List.countP_singleton]
  cases hold : plan.old with
  | none =>
    have hnew : hasLocal s spec (newRow s spec plan) = false := by
      unfold hasLocal
      rw [List.any_eq_false]
      intro c hc
      rw [newRow_of_mem_preserve plan hc (by simp [hold]), hold]
      simp
    rw [filter_not_target_of_none (hhead.symm.trans hold), hnew]
    simp
  | some old =>
    have hperm := perm_of_target (hhead.symm.trans hold) hlength
    have holdMem : old ∈ t := hperm.symm.subset List.mem_cons_self
    have hnew : hasLocal s spec (newRow s spec plan) =
        (plan.vals spec.pk != .null && hasLocal s spec old) := by
      have hcell : ∀ c ∈ spec.preserve, newRow s spec plan c =
          if plan.vals spec.pk = .null then s.defaults c else old c := by
        intro c hc
        rw [newRow_of_mem_preserve plan hc, hold]
        intro r hr
        rw [hold, Option.some.injEq] at hr
        exact hr ▸ hstored old holdMem c
      unfold hasLocal
      by_cases hnull : plan.vals spec.pk = .null
      · simp only [hnull, bne_self_eq_false, Bool.false_and, List.any_eq_false]
        intro c hc
        simp [hcell c hc, hnull]
      · have hbne : (plan.vals spec.pk != .null) = true := by simpa using hnull
        rw [hbne, Bool.true_and]
        rw [Bool.eq_iff_iff, List.any_eq_true, List.any_eq_true]
        refine exists_congr fun c => and_congr_right fun hc => ?_
        rw [hcell c hc, if_neg hnull]
    rw [hperm.countP_eq, List.countP_cons, hnew]
    by_cases hnull : plan.vals spec.pk = .null
    · simp [hnull]
    · have hbne : (plan.vals spec.pk == .null) = false := by simpa using hnull
      simp [hnull]

/-- The number of rows with a local column off its default after the loop: it has not grown, and it
has shrunk if some iteration took the branch that goes wrong. -/
lemma countP_hasLocal_mergeRows (rows : List Json)
    (hstored : ∀ r ∈ t, ∀ c, s.affinity c (r c) = r c) (merged : Nat) :
    (mergeRows (mergeNaturalRow lib s spec now) rows t merged).1.countP (hasLocal s spec) ≤
        t.countP (hasLocal s spec) ∧
      (¬EachStep (mergeNaturalRow lib s spec now)
          (fun t row => losesLocal lib s spec now t row = false) rows t →
        (mergeRows (mergeNaturalRow lib s spec now) rows t merged).1.countP (hasLocal s spec) <
          t.countP (hasLocal s spec)) := by
  induction rows generalizing t merged with
  | nil => exact ⟨Nat.le_refl _, fun h => absurd trivial h⟩
  | cons row rows ih =>
    unfold mergeRows EachStep
    cases hstep : mergeNaturalRow lib s spec now t row with
    | error e =>
      refine ⟨Nat.le_refl _, fun h => absurd ⟨?_, trivial⟩ h⟩
      exact losesLocal_of_no_write (by simp [hstep])
    | ok res =>
      cases res with
      | none =>
        have hkeep : losesLocal lib s spec now t row = false :=
          losesLocal_of_no_write (by simp [hstep])
        simpa only [hkeep, true_and] using ih hstored merged
      | some t' =>
        have hcount := countP_hasLocal_of_mergeNaturalRow hstored hstep
        obtain ⟨hle, hlt⟩ := ih (stored_of_mergeNaturalRow hstored hstep) (merged + 1)
        simp only
        refine ⟨by omega, fun h => ?_⟩
        by_cases hkeep : losesLocal lib s spec now t row = false
        · rw [hkeep] at hcount
          have hrest := hlt fun hrows => h ⟨hkeep, hrows⟩
          simp only [Bool.false_eq_true, if_false] at hcount
          omega
        · rw [Bool.not_eq_false] at hkeep
          rw [hkeep, if_pos rfl] at hcount
          omega

end MergeNatural

/-! ## Confinement -/

/-- **A peer writes only what it may.**  `merge_table` never loses a row, changes a protected column
at most in the keys that are open, leaves the key and the columns that are not replicated alone, and
adds no row to a table with a protected column.  `merge_table_natural` does the same and keeps the
local columns exactly when no iteration replaces a row with a measured local column by a row whose
key is `NULL`. -/
theorem merges_confined (lib : Libs) (s : Schema) (now : Int) (t : Table) (rows : Json)
    (hfinite : ∀ r ∈ t, ∀ c, (r c).RoundTrips) :
    (∀ spec : TableSpec, s.Valid spec.pk t →
      (∀ c, spec.protection.keysOf c ≠ [] → s.IsText c) →
      Evolves (RowConfined lib.json spec.protection spec.Fixed) (spec.protection.cols ≠ []) t
        (mergeTable lib s spec now t rows).1) ∧
    (∀ spec : NaturalSpec, s.Valid spec.pk t →
      (∀ c, spec.protection.keysOf c ≠ [] → s.IsText c) →
      (Evolves (RowConfined lib.json spec.protection (· ∈ spec.preserve))
          (spec.protection.cols ≠ []) t (mergeTableNatural lib s spec now t rows).1 ↔
        EachStep (mergeNaturalRow lib s spec now)
          (fun t row => losesLocal lib s spec now t row = false) (rows.asArray.getD []) t)) := by
  refine ⟨fun spec hvalid htext => ?_, fun spec hvalid htext => ?_⟩
  · exact evolves_mergeTable hvalid ⟨hvalid.stored, fun r hr c _ => hfinite r hr c⟩ htext rows
  · unfold mergeTableNatural mergeArray
    cases rows.asArray with
    | none => exact ⟨fun _ => trivial, fun _ => Evolves.refl (RowConfined.refl _ _ _) t⟩
    | some rows =>
      rw [Option.getD_some]
      constructor
      · -- a lost local column cannot come back: fewer rows have one
        intro hevolves
        by_contra hloses
        have hlt := (countP_hasLocal_mergeRows rows hvalid.stored 0).2 hloses
        have hge := hevolves.countP_le (p := hasLocal s spec) fun {a b} hab ha => by
          rw [hasLocal, List.any_eq_true] at ha ⊢
          obtain ⟨c, hc, hne⟩ := ha
          exact ⟨c, hc, by rw [hab.fixed c hc]; exact hne⟩
        simp only at hge
        omega
      · intro hkeep
        refine mergeRows_relates (I := Guarded s spec.protection)
          (Evolves.refl (RowConfined.refl _ _ _)) (Evolves.trans RowConfined.trans) ?_ ?_
          ⟨hvalid.stored, fun r hr c _ => hfinite r hr c⟩ hkeep 0
        · intro t t' row hguard hkeep hrow
          exact hguard.of_evolves (evolves_of_mergeNaturalRow hguard htext hkeep hrow)
            (stored_of_mergeNaturalRow hguard.stored hrow)
        · intro t t' row hguard hkeep hrow
          exact evolves_of_mergeNaturalRow hguard htext hkeep hrow

/-! ### A mount without an id -/

/-- The table `mounts`, for cells of the type of their column.  `id TEXT PRIMARY KEY` admits
`NULL`. -/
def mountsSchema : Schema :=
  { Schema.untyped with
    defaults := fun c =>
      ([("health", .text "missing"), ("drift", .integer 0), ("multi_mounted", .integer 0),
        ("enabled", .integer 1), ("updated_at", .integer 0)].lookup c).getD .null
    defaults_stored := fun _ => rfl
    permits := fun t r =>
      (["name", "share_id", "host", "target", "health", "drift", "multi_mounted", "enabled",
          "created_at", "updated_at"].all fun c => r c != .null) &&
        t.all fun x => !(x "host" == r "host" && x "name" == r "name") }

/-- A placement with the given id, clock and measured health. -/
def sampleMount (id : SqlValue) (updatedAt : Int64) (health : String) : Row := fun c =>
  ([("id", id), ("name", .text "data"), ("share_id", .text "s1"), ("host", .text "h1"),
    ("target", .text "/mnt/data"), ("health", .text health), ("drift", .integer 0),
    ("multi_mounted", .integer 0), ("enabled", .integer 1), ("created_at", .text "2026-01-01"),
    ("updated_at", .integer updatedAt)].lookup c).getD .null

/-- The bundle a peer exports for such a placement. -/
def sampleMountBundle (id : SqlValue) (updatedAt : Int64) : Json :=
  .array [exportRow mountsSpec.columns (sampleMount id updatedAt "missing")]

lemma roundTrips_lookup {cells : List (String × SqlValue)} (h : ∀ e ∈ cells, e.2.RoundTrips)
    (c : String) : ((cells.lookup c).getD .null).RoundTrips := by
  cases hc : cells.lookup c with
  | none => trivial
  | some v =>
    obtain ⟨l₁, l₂, rfl, -⟩ := List.lookup_eq_some_iff.mp hc
    exact h (c, v) (by simp)

/-- A measured health survives a newer row of a peer. -/
theorem merges_confined_mounts :
    Evolves (RowConfined plainLibs.json mountsSpec.protection (· ∈ mountsSpec.preserve))
      (mountsSpec.protection.cols ≠ []) [sampleMount (.text "m1") 1 "healthy"]
      (mergeTableNatural plainLibs mountsSchema mountsSpec 0 [sampleMount (.text "m1") 1 "healthy"]
        (sampleMountBundle (.text "m2") 2)).1 := by
  refine ((merges_confined plainLibs mountsSchema 0 [sampleMount (.text "m1") 1 "healthy"]
    (sampleMountBundle (.text "m2") 2) ?_).2 mountsSpec ⟨fun _ _ _ => rfl, ?_⟩ ?_).mpr ?_
  · intro r hr c
    rw [List.mem_singleton] at hr
    subst hr
    unfold sampleMount
    refine roundTrips_lookup ?_ c
    decide
  · exact List.pairwise_singleton _ _
  · exact fun c _ _ => rfl
  · refine ⟨by decide +kernel, ?_⟩
    split <;> trivial

/-- A row without an id loses its measured health to a newer row of a peer. -/
theorem merge_natural_loses_health :
    ¬Evolves (RowConfined plainLibs.json mountsSpec.protection (· ∈ mountsSpec.preserve))
      (mountsSpec.protection.cols ≠ []) [sampleMount .null 1 "healthy"]
      (mergeTableNatural plainLibs mountsSchema mountsSpec 0 [sampleMount .null 1 "healthy"]
        (sampleMountBundle .null 2)).1 := by
  intro h
  have hle := h.countP_le (p := fun r => r "health" == .text "healthy") fun {a b} hab ha => by
    rw [hab.fixed "health" (by decide)]
    exact ha
  revert hle
  decide +kernel

end Orca
