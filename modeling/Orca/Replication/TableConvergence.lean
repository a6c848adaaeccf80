import Mathlib.Data.Int.Order.Basic
import Orca.Library.Invariant
import Orca.Library.LastWriterWins
import Orca.Replication.Confinement

/-!
# Two hosts exchange a table

Two hosts export a table to each other and merge what they get with `merge_table`.  Seen through
its primary key, and on the replicated columns, a table is a last-writer-wins map (`rowOf`), and the
merge of an export gives its rows to that map one by one.  The two results therefore agree on every
key, except where the two hosts hold different rows with the same clock: the comparison is strict,
so that each of them keeps its own row there.
-/

namespace Orca

open LastWriterWins Invariant

/-! ## A table as a map -/

/-- The replicated part of a row. -/
def restrict (columns : List String) (r : Row) : Row := fun c =>
  if c ∈ columns then r c else .null

/-- The row a table holds for a key, on the replicated columns. -/
def rowOf (spec : TableSpec) (t : Table) (k : SqlValue) : Option Row :=
  (t.find? fun r => r spec.pk == k).map (restrict spec.columns)

/-- The clock of a row in milliseconds, read from a text cell in canonical form. -/
def instant (lib : Libs) (spec : TableSpec) (r : Row) : Int :=
  match r spec.lww with
  | .text txt => (canonicalRfc3339Millis lib txt).getD 0
  | _ => 0

/-- What two tables of one schema must satisfy for their exchange: every column but the key and the
clock is open to peers, keys are set, cells survive the way to JSON and back, clocks are canonical
and no later than `bound`, and a row is not refused for its contents or for the other rows. -/
structure Exchangeable (lib : Libs) (s : Schema) (spec : TableSpec) (bound : Int) (A B : Table) :
    Prop where
  lww_mem : spec.lww ∈ spec.columns
  /-- Every other column is open to peers. -/
  opened : ∀ c ∈ spec.columns, c = spec.pk ∨ c = spec.lww ∨ c ∈ spec.peerWritable
  /-- The first table is one SQLite can hold. -/
  valid_left : s.Valid spec.pk A
  valid_right : s.Valid spec.pk B
  keyed : ∀ r ∈ A ++ B, r spec.pk ≠ .null
  faithful : ∀ r ∈ A ++ B, ∀ c ∈ spec.columns, (r c).RoundTrips
  /-- Clocks are canonical and not too far ahead. -/
  clocked : ∀ r ∈ A ++ B, ∃ txt m, r spec.lww = .text txt ∧
    canonicalRfc3339Millis lib txt = some m ∧ m ≤ bound
  /-- Only the replicated columns of a row decide whether it may be written. -/
  permitted : ∀ t r, ∀ r' ∈ A ++ B, (∀ c ∈ spec.columns, r c = r' c) → s.permits t r = true

variable {lib : Libs} {s : Schema} {spec : TableSpec} {bound : Int} {A B : Table}

lemma Exchangeable.symm (h : Exchangeable lib s spec bound A B) :
    Exchangeable lib s spec bound B A := by
  have hmem : ∀ r, r ∈ B ++ A ↔ r ∈ A ++ B := by simp [or_comm]
  exact ⟨h.lww_mem, h.opened, h.valid_right, h.valid_left,
    fun r hr => h.keyed r ((hmem r).mp hr), fun r hr => h.faithful r ((hmem r).mp hr),
    fun r hr => h.clocked r ((hmem r).mp hr),
    fun t r r' hr' => h.permitted t r r' ((hmem r').mp hr')⟩

lemma restrict_congr {columns : List String} {a b : Row} (h : ∀ c ∈ columns, a c = b c) :
    restrict columns a = restrict columns b := by
  funext c
  unfold restrict
  split
  · rename_i hc
    exact h c hc
  · rfl

lemma restrict_of_mem {columns : List String} {r : Row} {c : String} (h : c ∈ columns) :
    restrict columns r c = r c := by
  simp [restrict, h]

/-- The map of a table holds its rows. -/
lemma rowOf_eq_some_iff {t : Table} (hvalid : s.Valid spec.pk t)
    (hkeyed : ∀ r ∈ t, r spec.pk ≠ .null) {k : SqlValue} {w : Row} :
    rowOf spec t k = some w ↔ ∃ r ∈ t, r spec.pk = k ∧ restrict spec.columns r = w := by
  unfold rowOf
  rw [Option.map_eq_some_iff]
  constructor
  · rintro ⟨r, hfind, rfl⟩
    exact ⟨r, List.mem_of_find?_eq_some hfind, by simpa using List.find?_some hfind, rfl⟩
  · rintro ⟨r, hr, rfl, rfl⟩
    cases hfind : t.find? fun x => x spec.pk == r spec.pk with
    | none => simpa using List.find?_eq_none.mp hfind r hr
    | some x =>
      have hx : x ∈ t := List.mem_of_find?_eq_some hfind
      have hpk : x spec.pk = r spec.pk := by simpa using List.find?_some hfind
      exact ⟨x, rfl, by rw [hvalid.eq_of_pk hx hr (hkeyed x hx) hpk]⟩

lemma rowOf_eq_none_iff {t : Table} {k : SqlValue} :
    rowOf spec t k = none ↔ ∀ r ∈ t, r spec.pk ≠ k := by
  simp [rowOf, List.find?_eq_none]

/-- The map of a table represents its rows. -/
lemma represents_rowOf (lib : Libs) {t : Table} (hvalid : s.Valid spec.pk t)
    (hkeyed : ∀ r ∈ t, r spec.pk ≠ .null) :
    Represents (fun r : Row => r spec.pk) (instant lib spec) (rowOf spec t)
      fun e => e ∈ t.map (restrict spec.columns) where
  latest := by
    intro k w hw
    obtain ⟨r, hr, hk, rfl⟩ := (rowOf_eq_some_iff hvalid hkeyed).mp hw
    refine ⟨List.mem_map_of_mem hr, (restrict_of_mem spec.pk_mem).trans hk, ?_⟩
    -- the key belongs to one row only
    intro e he hek
    obtain ⟨x, hx, rfl⟩ := List.mem_map.mp he
    have hxk : x spec.pk = k := (restrict_of_mem spec.pk_mem).symm.trans hek
    rw [hvalid.eq_of_pk hx hr (hkeyed x hx) (hxk.trans hk.symm)]
  occupied := by
    intro k hnone e he hek
    obtain ⟨x, hx, rfl⟩ := List.mem_map.mp he
    exact rowOf_eq_none_iff.mp hnone x hx ((restrict_of_mem spec.pk_mem).symm.trans hek)

/-! ## One exported row -/

/-- A table in the middle of a merge: keys are set, and every row agrees with a row of one of the
two tables that are exchanged. -/
structure Merging (s : Schema) (spec : TableSpec) (A B t : Table) : Prop where
  valid : s.Valid spec.pk t
  keyed : ∀ r ∈ t, r spec.pk ≠ .null
  known : ∀ r ∈ t, ∃ r' ∈ A ++ B, ∀ c ∈ spec.columns, r c = r' c

lemma Merging.symm {t : Table} (h : Merging s spec A B t) : Merging s spec B A t := by
  refine ⟨h.valid, h.keyed, fun r hr => ?_⟩
  obtain ⟨r', hr', hagree⟩ := h.known r hr
  exact ⟨r', by simpa [or_comm] using hr', hagree⟩

lemma Exchangeable.instant_eq (h : Exchangeable lib s spec bound A B) {r r' : Row}
    (hr' : r' ∈ A ++ B) (hagree : ∀ c ∈ spec.columns, r c = r' c) :
    ∃ txt, r spec.lww = .text txt ∧ canonicalRfc3339Millis lib txt = some (instant lib spec r) ∧
      instant lib spec r ≤ bound := by
  obtain ⟨txt, m, htxt, hm, hbound⟩ := h.clocked r' hr'
  have hcell : r spec.lww = .text txt := (hagree _ h.lww_mem).trans htxt
  have hinstant : instant lib spec r = m := by simp [instant, hcell, hm]
  exact ⟨txt, hcell, by rw [hinstant, hm], by rw [hinstant]; exact hbound⟩

lemma instant_restrict (hlww : spec.lww ∈ spec.columns) (r : Row) :
    instant lib spec (restrict spec.columns r) = instant lib spec r := by
  unfold instant
  rw [restrict_of_mem hlww]

/-- Two canonical clocks are compared by their instants. -/
lemma jsonIsNewerThanSql_text {txt txt' : String} {m m' : Int}
    (h : canonicalRfc3339Millis lib txt = some m)
    (h' : canonicalRfc3339Millis lib txt' = some m') :
    jsonIsNewerThanSql lib (.string txt) (.text txt') = decide (m' < m) := by
  have hlocal : (lib.parseRfc3339 txt').map Timestamp.unixMillis = some m' := by
    unfold canonicalRfc3339Millis at h'
    cases hparse : lib.parseRfc3339 txt' with
    | none => simp [hparse] at h'
    | some ts =>
      simp only [hparse, Option.bind_some] at h'
      split at h'
      · exact h'
      · cases h'
  simp [jsonIsNewerThanSql, lwwStrIsNewer, h, hlocal]

/-- Reading a column of an exported row. -/
lemma lookup_exportRow {columns : List String} {r : Row} {c : String} (hc : c ∈ columns) :
    (columns.map fun c => (c, sqlToJson (r c))).lookup c = some (sqlToJson (r c)) := by
  induction columns with
  | nil => cases hc
  | cons c' columns ih =>
    rw [List.map_cons, List.lookup_cons]
    by_cases h : c = c'
    · subst h
      simp
    · have hne : (c == c') = false := by simpa using h
      rw [hne]
      exact ih (by simpa [h] using hc)

lemma Exchangeable.cols_eq_nil (h : Exchangeable lib s spec bound A B) :
    spec.protection.cols = [] := by
  rw [List.eq_nil_iff_forall_not_mem]
  intro c hc
  obtain ⟨hmem, hexempt, hclosed⟩ := mem_cols_new.mp hc
  rcases h.opened c hmem with rfl | rfl | hopen
  · simp at hexempt
  · simp at hexempt
  · exact hclosed hopen

lemma find?_holds_eq {t : Table} {b : Row} (hkey : b spec.pk ≠ .null)
    (hstored : s.affinity spec.pk (b spec.pk) = b spec.pk) :
    t.find? (s.holds spec.pk (b spec.pk)) = t.find? fun r => r spec.pk == b spec.pk := by
  congr 1
  funext r
  rw [Bool.eq_iff_iff, Schema.holds_iff, hstored, beq_iff_eq]
  exact ⟨fun h => h.2, fun h => ⟨h ▸ hkey, h⟩⟩

/-- The iteration of `merge_table` on an exported row. -/
lemma mergeTableRow_exportRow_eq (hex : Exchangeable lib s spec bound A B) (now : Int) {t : Table}
    (ht : Merging s spec A B t) {b : Row} (hb : b ∈ B) :
    mergeTableRow lib s spec now t (exportRow spec.columns b) =
      .ok (if instant lib spec b > now + maxLwwSkewMillis then none
        else if (t.find? fun r => r spec.pk == b spec.pk).any
          (fun r => !decide (instant lib spec r < instant lib spec b)) then none
        else s.upsert spec.pk spec.columns
          (boundValues lib.json (spec.columns.map fun c => (c, sqlToJson (b c)))) t) := by
  have hbmem : b ∈ A ++ B := List.mem_append_right A hb
  obtain ⟨txt, htxt, hcanon, -⟩ := hex.instant_eq hbmem fun _ _ => rfl
  have hlww : (spec.columns.map fun c => (c, sqlToJson (b c))).lookup spec.lww =
      some (.string txt) := by
    rw [lookup_exportRow hex.lww_mem, htxt, sqlToJson]
  have hpk := lookup_exportRow (r := b) spec.pk_mem
  have hkey : jsonToSql lib.json (sqlToJson (b spec.pk)) = b spec.pk :=
    jsonToSql_sqlToJson lib.json (hex.faithful b hbmem _ spec.pk_mem)
  have hcheck : checkIncomingLwwJson lib now (.string txt) =
      if instant lib spec b > now + maxLwwSkewMillis then .error "lww too far in the future"
      else .ok (instant lib spec b) := by
    simp only [checkIncomingLwwJson, checkIncomingLww, hcanon, checkLwwMillis]
  have hfind := find?_holds_eq (t := t) (hex.keyed b hbmem) (hex.valid_right.stored b hb spec.pk)
  -- the clocks are compared as instants
  have hnewer : ((t.find? fun r => r spec.pk == b spec.pk).any fun r =>
      !jsonIsNewerThanSql lib (.string txt) (r spec.lww)) =
        (t.find? fun r => r spec.pk == b spec.pk).any
          fun r => !decide (instant lib spec r < instant lib spec b) := by
    cases hcur : t.find? fun r => r spec.pk == b spec.pk with
    | none => rfl
    | some r =>
      obtain ⟨r', hr', hagree⟩ := ht.known r (List.mem_of_find?_eq_some hcur)
      obtain ⟨txt', htxt', hcanon', -⟩ := hex.instant_eq hr' hagree
      rw [Option.any_some, Option.any_some, htxt', jsonIsNewerThanSql_text hcanon hcanon']
  have happly : ∀ cur obj, spec.protection.apply lib.json cur obj = some obj := by
    intro cur obj
    simp [Protection.apply, hex.cols_eq_nil]
  unfold mergeTableRow exportRow
  simp only [Json.asObject, hlww, hpk]
  unfold mergeTableWrite
  rw [hcheck]
  split_ifs with hahead hstale
  · rfl
  · simp only [hkey, hfind, hnewer, hstale, if_true]
  · simp only [hkey, hfind, hnewer, hstale, happly, Bool.false_eq_true, if_false]

lemma boundValues_exportRow (hex : Exchangeable lib s spec bound A B) {b : Row} (hb : b ∈ A ++ B)
    {c : String} (hc : c ∈ spec.columns) :
    boundValues lib.json (spec.columns.map fun c => (c, sqlToJson (b c))) c = b c := by
  unfold boundValues
  rw [lookup_exportRow hc, Option.getD_some, jsonToSql_sqlToJson lib.json (hex.faithful b hb c hc)]

/-- Writing an exported row sets the row of its key. -/
lemma upsert_exportRow (hex : Exchangeable lib s spec bound A B) {t t' : Table}
    (ht : Merging s spec A B t) (hvalid' : s.Valid spec.pk t') {b : Row} (hb : b ∈ B)
    (h : s.upsert spec.pk spec.columns
      (boundValues lib.json (spec.columns.map fun c => (c, sqlToJson (b c)))) t = some t') :
    Merging s spec A B t' ∧
      rowOf spec t' =
        Function.update (rowOf spec t) (b spec.pk) (some (restrict spec.columns b)) := by
  have hbmem : b ∈ A ++ B := List.mem_append_right A hb
  have hcell : ∀ c ∈ spec.columns, s.affinity c
      (boundValues lib.json (spec.columns.map fun c => (c, sqlToJson (b c))) c) = b c := by
    intro c hc
    rw [boundValues_exportRow hex hbmem hc, hex.valid_right.stored b hb c]
  obtain ⟨new, hnew, hmem⟩ := Schema.mem_of_upsert ht.valid spec.pk_mem
    (by rw [hcell _ spec.pk_mem]; exact hex.keyed b hbmem) h
  rw [hcell _ spec.pk_mem] at hmem
  have hagree : ∀ c ∈ spec.columns, new c = b c := fun c hc => (hnew c hc).trans (hcell c hc)
  have hkeyed' : ∀ r ∈ t', r spec.pk ≠ .null := by
    intro r hr
    rcases (hmem r).mp hr with rfl | ⟨hr, -⟩
    · rw [hagree _ spec.pk_mem]
      exact hex.keyed b hbmem
    · exact ht.keyed r hr
  refine ⟨⟨hvalid', hkeyed', ?_⟩, ?_⟩
  · intro r hr
    rcases (hmem r).mp hr with rfl | ⟨hr, -⟩
    · exact ⟨b, hbmem, hagree⟩
    · exact ht.known r hr
  · funext k
    ext w
    rw [rowOf_eq_some_iff hvalid' hkeyed']
    by_cases hk : k = b spec.pk
    · subst hk
      rw [Function.update_self, Option.some.injEq]
      constructor
      · rintro ⟨r, hr, hrk, rfl⟩
        rcases (hmem r).mp hr with rfl | ⟨-, hne⟩
        · exact (restrict_congr hagree).symm
        · exact absurd hrk hne
      · rintro rfl
        exact ⟨new, (hmem new).mpr (Or.inl rfl), hagree _ spec.pk_mem, restrict_congr hagree⟩
    · rw [Function.update_of_ne hk, rowOf_eq_some_iff ht.valid ht.keyed]
      constructor
      · rintro ⟨r, hr, rfl, rfl⟩
        rcases (hmem r).mp hr with rfl | ⟨hr, -⟩
        · exact absurd (hagree _ spec.pk_mem) hk
        · exact ⟨r, hr, rfl, rfl⟩
      · rintro ⟨r, hr, rfl, rfl⟩
        exact ⟨r, (hmem r).mpr (Or.inr ⟨hr, hk⟩), rfl, rfl⟩

lemma put_restrict (t : Table) (b : Row) :
    put (fun r : Row => r spec.pk) (instant lib spec) (rowOf spec t) (restrict spec.columns b) =
      Function.update (rowOf spec t) (b spec.pk)
        (join (instant lib spec) (rowOf spec t (b spec.pk)) (restrict spec.columns b)) := by
  simp only [put, restrict_of_mem spec.pk_mem]

/-- An iteration that writes a row of the other table, when the map of the table would take it. -/
lemma mergeTableRow_exportRow_of_join (hex : Exchangeable lib s spec bound A B) {now : Int}
    {t : Table} (ht : Merging s spec A B t) {b : Row} (hb : b ∈ B)
    (hstep : mergeTableRow lib s spec now t (exportRow spec.columns b) =
      .ok (s.upsert spec.pk spec.columns
        (boundValues lib.json (spec.columns.map fun c => (c, sqlToJson (b c)))) t))
    (hjoin : join (instant lib spec) (rowOf spec t (b spec.pk)) (restrict spec.columns b) =
      some (restrict spec.columns b)) :
    ∃ t', mergeTableRow lib s spec now t (exportRow spec.columns b) = .ok (some t') ∧
      Merging s spec A B t' ∧
      rowOf spec t' =
        put (fun r : Row => r spec.pk) (instant lib spec) (rowOf spec t)
          (restrict spec.columns b) := by
  have hbmem : b ∈ A ++ B := List.mem_append_right A hb
  have hsome : (s.upsert spec.pk spec.columns (boundValues lib.json
      (spec.columns.map fun c => (c, sqlToJson (b c)))) t).isSome = true := by
    refine Schema.upsert_isSome spec.pk_mem (fun t r hr => ?_) t
    refine hex.permitted t r b hbmem fun c hc => ?_
    rw [hr c hc, boundValues_exportRow hex hbmem hc, hex.valid_right.stored b hb c]
  obtain ⟨t', ht'⟩ := Option.isSome_iff_exists.mp hsome
  rw [ht'] at hstep
  obtain ⟨hmerging, hrow⟩ := upsert_exportRow hex ht (valid_of_mergeTableRow ht.valid hstep) hb ht'
  refine ⟨t', hstep, hmerging, ?_⟩
  rw [put_restrict, hjoin]
  exact hrow

/-- Merging a row of the other table succeeds and gives the row to the last-writer-wins map of the
table. -/
lemma mergeTableRow_exportRow (hex : Exchangeable lib s spec bound A B) {now : Int}
    (hnow : bound ≤ now + maxLwwSkewMillis) {t : Table} (ht : Merging s spec A B t) {b : Row}
    (hb : b ∈ B) :
    ∃ res, mergeTableRow lib s spec now t (exportRow spec.columns b) = .ok res ∧
      Merging s spec A B (res.getD t) ∧
      rowOf spec (res.getD t) =
        put (fun r : Row => r spec.pk) (instant lib spec) (rowOf spec t)
          (restrict spec.columns b) := by
  have hstep := mergeTableRow_exportRow_eq hex now ht hb
  have hahead : ¬instant lib spec b > now + maxLwwSkewMillis := by
    obtain ⟨-, -, -, hbound⟩ := hex.instant_eq (List.mem_append_right A hb) fun _ _ => rfl
    exact not_lt.mpr (hbound.trans hnow)
  rw [if_neg hahead] at hstep
  cases hcur : t.find? fun r => r spec.pk == b spec.pk with
  | none =>
    -- the key is free
    rw [hcur] at hstep
    obtain ⟨t', hres⟩ := mergeTableRow_exportRow_of_join hex ht hb (by simpa using hstep)
      (by simp [rowOf, hcur, join])
    exact ⟨some t', hres⟩
  | some r =>
    have hrow : rowOf spec t (b spec.pk) = some (restrict spec.columns r) := by
      simp [rowOf, hcur]
    rw [hcur] at hstep
    by_cases hlt : instant lib spec r < instant lib spec b
    · obtain ⟨t', hres⟩ := mergeTableRow_exportRow_of_join hex ht hb (by simpa [hlt] using hstep)
        (by simp [hrow, join, instant_restrict hex.lww_mem, hlt])
      exact ⟨some t', hres⟩
    · -- the row that is there stays
      refine ⟨none, by simpa [hlt] using hstep, ht, ?_⟩
      rw [put_restrict, hrow]
      simp only [join, instant_restrict hex.lww_mem, if_neg hlt]
      rw [← hrow, Function.update_eq_self]
      rfl

/-! ## A whole export -/

/-- Merging rows of the other table one after another gives them to the map one after another. -/
lemma mergeRows_exportRows (hex : Exchangeable lib s spec bound A B) {now : Int}
    (hnow : bound ≤ now + maxLwwSkewMillis) (bs : List Row) (hbs : ∀ b ∈ bs, b ∈ B) {t : Table}
    (ht : Merging s spec A B t) (merged : Nat) :
    Merging s spec A B (mergeRows (mergeTableRow lib s spec now)
        (bs.map (exportRow spec.columns)) t merged).1 ∧
      rowOf spec (mergeRows (mergeTableRow lib s spec now)
          (bs.map (exportRow spec.columns)) t merged).1 =
        (bs.map (restrict spec.columns)).foldl
          (put (fun r : Row => r spec.pk) (instant lib spec)) (rowOf spec t) := by
  induction bs generalizing t merged with
  | nil => exact ⟨ht, rfl⟩
  | cons b bs ih =>
    obtain ⟨res, hstep, hmerging, hrow⟩ :=
      mergeTableRow_exportRow hex hnow ht (hbs b List.mem_cons_self)
    have htail := fun x hx => hbs x (List.mem_cons_of_mem b hx)
    rw [List.map_cons, List.map_cons, List.foldl_cons, ← hrow]
    unfold mergeRows
    rw [hstep]
    cases res with
    | none => exact ih htail hmerging merged
    | some t' => exact ih htail hmerging (merged + 1)

/-- The table a host holds after it merged the export of the other host. -/
def received (lib : Libs) (s : Schema) (spec : TableSpec) (now : Int) (A B : Table) : Table :=
  (mergeTable lib s spec now A (exportTable spec.columns spec.pk B)).1

lemma Exchangeable.merging (hex : Exchangeable lib s spec bound A B) : Merging s spec A B A :=
  ⟨hex.valid_left, fun r hr => hex.keyed r (List.mem_append_left B hr),
    fun r hr => ⟨r, List.mem_append_left B hr, fun _ _ => rfl⟩⟩

/-- Merging an export gives its rows to the map, in the order of the export. -/
lemma rowOf_received (hex : Exchangeable lib s spec bound A B) {now : Int}
    (hnow : bound ≤ now + maxLwwSkewMillis) :
    Merging s spec A B (received lib s spec now A B) ∧
      rowOf spec (received lib s spec now A B) =
        ((B.mergeSort fun a b => SqlValue.le (a spec.pk) (b spec.pk)).map
          (restrict spec.columns)).foldl
            (put (fun r : Row => r spec.pk) (instant lib spec)) (rowOf spec A) :=
  mergeRows_exportRows hex hnow _ (fun _ hb => List.mem_mergeSort.mp hb) hex.merging 0

/-- After the merge a table holds the latest rows of both. -/
lemma represents_received (hex : Exchangeable lib s spec bound A B) {now : Int}
    (hnow : bound ≤ now + maxLwwSkewMillis) :
    Represents (fun r : Row => r spec.pk) (instant lib spec)
      (rowOf spec (received lib s spec now A B))
      fun e => e ∈ A.map (restrict spec.columns) ∨ e ∈ B.map (restrict spec.columns) := by
  rw [(rowOf_received hex hnow).2]
  have hstart := represents_rowOf lib hex.merging.valid hex.merging.keyed
  simpa using hstart.foldl_put
    ((B.mergeSort fun a b => SqlValue.le (a spec.pk) (b spec.pk)).map (restrict spec.columns))

/-! ## Both directions -/

/-- The two tables do not hold different rows with the same clock for the key. -/
def TieFree (lib : Libs) (spec : TableSpec) (A B : Table) (k : SqlValue) : Prop :=
  ∀ a ∈ A, ∀ b ∈ B, a spec.pk = k → b spec.pk = k →
    instant lib spec a = instant lib spec b → ∀ c ∈ spec.columns, a c = b c

/-- Among the rows of both tables, the clock tells the rows of a key without a tie apart. -/
lemma TieFree.inj (hex : Exchangeable lib s spec bound A B) {k : SqlValue}
    (hk : TieFree lib spec A B k) (x y : Row)
    (hx : x ∈ A.map (restrict spec.columns) ∨ x ∈ B.map (restrict spec.columns))
    (hy : y ∈ A.map (restrict spec.columns) ∨ y ∈ B.map (restrict spec.columns))
    (hxk : x spec.pk = k) (hyk : y spec.pk = k)
    (hxy : instant lib spec x = instant lib spec y) : x = y := by
  -- within one table the key alone decides
  have hone : ∀ {t : Table}, s.Valid spec.pk t → (∀ r ∈ t, r spec.pk ≠ .null) →
      ∀ a ∈ t, ∀ b ∈ t, a spec.pk = k → b spec.pk = k → a = b := by
    intro t hvalid hkeyed a ha b hb hak hbk
    exact hvalid.eq_of_pk ha hb (hkeyed a ha) (hak.trans hbk.symm)
  simp only [List.mem_map] at hx hy
  rcases hx with ⟨a, ha, rfl⟩ | ⟨a, ha, rfl⟩ <;> rcases hy with ⟨b, hb, rfl⟩ | ⟨b, hb, rfl⟩ <;>
    rw [restrict_of_mem spec.pk_mem] at hxk hyk <;>
    rw [instant_restrict hex.lww_mem, instant_restrict hex.lww_mem] at hxy
  · rw [hone hex.valid_left hex.merging.keyed a ha b hb hxk hyk]
  · exact restrict_congr (hk a ha b hb hxk hyk hxy)
  · exact (restrict_congr (hk b hb a ha hyk hxk hxy.symm)).symm
  · rw [hone hex.valid_right hex.symm.merging.keyed a ha b hb hxk hyk]

/-- Tables in the middle of the exchange can be exchanged. -/
lemma Exchangeable.of_merging (hex : Exchangeable lib s spec bound A B) {A' B' : Table}
    (hA : Merging s spec A B A') (hB : Merging s spec A B B') :
    Exchangeable lib s spec bound A' B' := by
  have hknown : ∀ r ∈ A' ++ B', ∃ r' ∈ A ++ B, ∀ c ∈ spec.columns, r c = r' c := by
    intro r hr
    rcases List.mem_append.mp hr with hr | hr
    · exact hA.known r hr
    · exact hB.known r hr
  refine ⟨hex.lww_mem, hex.opened, hA.valid, hB.valid, ?_, ?_, ?_, ?_⟩
  · intro r hr
    rcases List.mem_append.mp hr with hr | hr
    · exact hA.keyed r hr
    · exact hB.keyed r hr
  · intro r hr c hc
    obtain ⟨r', hr', hagree⟩ := hknown r hr
    rw [hagree c hc]
    exact hex.faithful r' hr' c hc
  · intro r hr
    obtain ⟨r', hr', hagree⟩ := hknown r hr
    obtain ⟨txt, htxt, hcanon, hbound⟩ := hex.instant_eq hr' hagree
    exact ⟨txt, _, htxt, hcanon, hbound⟩
  · intro t r r₁ hr₁ hr
    obtain ⟨r', hr', hagree⟩ := hknown r₁ hr₁
    exact hex.permitted t r r' hr' fun c hc => (hr c hc).trans (hagree c hc)

/-- An export with nothing newer than the table changes nothing, at whatever time. -/
lemma received_of_not_newer (hex : Exchangeable lib s spec bound A B) (now : Int)
    (hold : ∀ b ∈ B, ∃ a ∈ A, a spec.pk = b spec.pk ∧ instant lib spec b ≤ instant lib spec a) :
    received lib s spec now A B = A := by
  have hnone : ∀ b ∈ B, mergeTableRow lib s spec now A (exportRow spec.columns b) = .ok none := by
    intro b hb
    obtain ⟨a, ha, hpk, hle⟩ := hold b hb
    obtain ⟨x, hx⟩ : ∃ x, A.find? (fun r => r spec.pk == b spec.pk) = some x := by
      rw [← Option.isSome_iff_exists, List.find?_isSome]
      exact ⟨a, ha, by simpa using hpk⟩
    have hxa : x = a := by
      have hxmem := List.mem_of_find?_eq_some hx
      have hxpk : x spec.pk = b spec.pk := by simpa using List.find?_some hx
      exact hex.valid_left.eq_of_pk hxmem ha (hex.merging.keyed x hxmem) (hxpk.trans hpk.symm)
    rw [mergeTableRow_exportRow_eq hex now hex.merging hb, hx, hxa]
    simp [not_lt.mpr hle]
  have hloop : ∀ bs : List Row, (∀ b ∈ bs, b ∈ B) → ∀ n, mergeRows (mergeTableRow lib s spec now)
      (bs.map (exportRow spec.columns)) A n = (A, .ok n) := by
    intro bs hbs n
    induction bs with
    | nil => rfl
    | cons b bs ih =>
      rw [List.map_cons, mergeRows, hnone b (hbs b List.mem_cons_self)]
      exact ih fun x hx => hbs x (List.mem_cons_of_mem b hx)
  unfold received mergeTable mergeArray exportTable
  simp only [Json.asArray]
  rw [hloop _ fun _ hb => List.mem_mergeSort.mp hb]

/-- A further exchange: one of the two hosts, at some time, merges an export of the other. -/
def exchange (lib : Libs) (s : Schema) (spec : TableSpec) (tables : Table × Table)
    (e : Bool × Int) : Table × Table :=
  if e.1 then (received lib s spec e.2 tables.1 tables.2, tables.2)
  else (tables.1, received lib s spec e.2 tables.2 tables.1)

/-- After the exchange no row of one table is newer than the row of its key in the other. -/
lemma received_not_newer (hex : Exchangeable lib s spec bound A B) {nowA nowB : Int}
    (hnowA : bound ≤ nowA + maxLwwSkewMillis) (hnowB : bound ≤ nowB + maxLwwSkewMillis) :
    ∀ b ∈ received lib s spec nowB B A, ∃ a ∈ received lib s spec nowA A B,
      a spec.pk = b spec.pk ∧ instant lib spec b ≤ instant lib spec a := by
  intro b hb
  have hA := (rowOf_received hex hnowA).1
  have hB := (rowOf_received hex.symm hnowB).1
  have hrowB : rowOf spec (received lib s spec nowB B A) (b spec.pk) =
      some (restrict spec.columns b) :=
    (rowOf_eq_some_iff hB.valid hB.keyed).mpr ⟨b, hb, rfl, rfl⟩
  -- the row comes from one of the two tables, whose latest row of the key the other side holds
  obtain ⟨horigin, -, -⟩ := (represents_received hex.symm hnowB).latest hrowB
  have hpk : restrict spec.columns b spec.pk = b spec.pk := restrict_of_mem spec.pk_mem
  cases hrowA : rowOf spec (received lib s spec nowA A B) (b spec.pk) with
  | none =>
    exact absurd hpk ((represents_received hex hnowA).occupied hrowA _ horigin.symm)
  | some w =>
    obtain ⟨-, -, hmax⟩ := (represents_received hex hnowA).latest hrowA
    obtain ⟨a, ha, hak, rfl⟩ := (rowOf_eq_some_iff hA.valid hA.keyed).mp hrowA
    have hle := hmax _ horigin.symm hpk
    rw [instant_restrict hex.lww_mem, instant_restrict hex.lww_mem] at hle
    exact ⟨a, ha, hak, hle⟩

/-- A host keeps its row of a key for which the other has nothing newer. -/
lemma rowOf_received_of_not_newer (hex : Exchangeable lib s spec bound A B) {now : Int}
    (hnow : bound ≤ now + maxLwwSkewMillis) {a : Row} (ha : a ∈ A)
    (hold : ∀ b ∈ B, b spec.pk = a spec.pk → instant lib spec b ≤ instant lib spec a) :
    rowOf spec (received lib s spec now A B) (a spec.pk) = rowOf spec A (a spec.pk) := by
  have hrow : rowOf spec A (a spec.pk) = some (restrict spec.columns a) :=
    (rowOf_eq_some_iff hex.merging.valid hex.merging.keyed).mpr ⟨a, ha, rfl, rfl⟩
  rw [(rowOf_received hex hnow).2, hrow]
  refine foldl_put_of_not_newer hrow _ fun e he hek => ?_
  obtain ⟨b, hb, rfl⟩ := List.mem_map.mp he
  rw [instant_restrict hex.lww_mem, instant_restrict hex.lww_mem]
  exact not_lt.mpr (hold b (List.mem_mergeSort.mp hb)
    ((restrict_of_mem spec.pk_mem).symm.trans hek))

/-- **Two-way convergence.**  After both hosts merged the other's export, both hold for every key
the newer of the rows that they held for it, except for a key for which they held different rows
with the same clock: each keeps its own row of such a key.  Further exchanges, in any order and at
any time, change nothing. -/
theorem exchange_converges (hex : Exchangeable lib s spec bound A B) {nowA nowB : Int}
    (hnowA : bound ≤ nowA + maxLwwSkewMillis) (hnowB : bound ≤ nowB + maxLwwSkewMillis) :
    (∀ k, TieFree lib spec A B k →
      rowOf spec (received lib s spec nowA A B) k =
          newer (instant lib spec) (rowOf spec A k) (rowOf spec B k) ∧
        rowOf spec (received lib s spec nowB B A) k =
          newer (instant lib spec) (rowOf spec A k) (rowOf spec B k)) ∧
    (∀ k, ¬TieFree lib spec A B k →
      rowOf spec (received lib s spec nowA A B) k = rowOf spec A k ∧
      rowOf spec (received lib s spec nowB B A) k = rowOf spec B k) ∧
    ∀ es : List (Bool × Int), es.foldl (exchange lib s spec)
      (received lib s spec nowA A B, received lib s spec nowB B A) =
        (received lib s spec nowA A B, received lib s spec nowB B A) := by
  refine ⟨fun k hk => ?_, fun k hk => ?_, fun es => ?_⟩
  · have hright := represents_received hex.symm hnowB
    simp only [or_comm (a := _ ∈ B.map _)] at hright
    have hnewer := (represents_rowOf lib hex.merging.valid hex.merging.keyed).newer
      (represents_rowOf lib hex.symm.merging.valid hex.symm.merging.keyed)
    exact ⟨(represents_received hex hnowA).eq_of_represents hnewer (hk.inj hex),
      hright.eq_of_represents hnewer (hk.inj hex)⟩
  · simp only [TieFree, not_forall] at hk
    obtain ⟨a, ha, b, hb, rfl, hbk, hclock, -⟩ := hk
    constructor
    · refine rowOf_received_of_not_newer hex hnowA ha fun b' hb' hpk => ?_
      rw [hex.valid_right.eq_of_pk hb' hb (hex.symm.merging.keyed b' hb') (hpk.trans hbk.symm)]
      exact hclock.ge
    · rw [← hbk]
      refine rowOf_received_of_not_newer hex.symm hnowB hb fun a' ha' hpk => ?_
      rw [hex.valid_left.eq_of_pk ha' ha (hex.merging.keyed a' ha') (hpk.trans hbk)]
      exact hclock.le
  · have hA := (rowOf_received hex hnowA).1
    have hB := (rowOf_received hex.symm hnowB).1.symm
    have hex' := hex.of_merging hA hB
    refine foldl_invariant (I := fun tables => tables =
      (received lib s spec nowA A B, received lib s spec nowB B A)) ?_ rfl
    rintro ⟨towardsA, now⟩ - tables rfl
    unfold exchange
    split
    · rw [received_of_not_newer hex' now (received_not_newer hex hnowA hnowB)]
    · rw [received_of_not_newer hex'.symm now (received_not_newer hex.symm hnowB hnowA)]

/-! ### Two hosts with one row each -/

/-- Libraries that know the timestamps of the samples below. -/
def sampleLibs : Libs where
  json := ⟨fun _ => none, fun _ => ""⟩
  parseRfc3339 := fun txt =>
    if txt = "2026-01-01T00:00:00Z" then some 1767225600000000000
    else if txt = "2026-01-02T00:00:00Z" then some 1767312000000000000 else none
  toRfc3339 := fun ts =>
    if ts = 1767225600000000000 then "2026-01-01T00:00:00Z" else "2026-01-02T00:00:00Z"

/-- `t (name TEXT PRIMARY KEY, val TEXT, enabled INTEGER, updated_at TEXT)`, open to peers. -/
def sampleSpec : TableSpec where
  columns := ["name", "val", "enabled", "updated_at"]
  pk := "name"
  lww := "updated_at"
  peerWritable := ["val", "enabled"]
  pk_mem := by decide

/-- A row of that table. -/
def sampleRow (val updatedAt : String) : Row := fun c =>
  ([("name", .text "a"), ("val", .text val), ("enabled", .integer 1),
    ("updated_at", .text updatedAt)].lookup c).getD .null

/-- Two hosts with one row each can exchange them. -/
lemma sample_exchangeable (val val' : String) {updatedAt updatedAt' : String} (m m' : Int)
    (h : canonicalRfc3339Millis sampleLibs updatedAt = some m)
    (h' : canonicalRfc3339Millis sampleLibs updatedAt' = some m') :
    Exchangeable sampleLibs Schema.untyped sampleSpec (max m m') [sampleRow val updatedAt]
      [sampleRow val' updatedAt'] where
  lww_mem := by decide
  opened := by decide
  valid_left := ⟨fun _ _ _ => rfl, List.pairwise_singleton _ _⟩
  valid_right := ⟨fun _ _ _ => rfl, List.pairwise_singleton _ _⟩
  keyed := by
    intro r hr
    simp only [List.cons_append, List.nil_append, List.mem_cons, List.not_mem_nil, or_false] at hr
    rcases hr with rfl | rfl <;> simp [sampleRow, sampleSpec]
  faithful := by
    intro r hr c _
    simp only [List.cons_append, List.nil_append, List.mem_cons, List.not_mem_nil, or_false] at hr
    rcases hr with rfl | rfl <;>
    · refine roundTrips_lookup ?_ c
      simp [SqlValue.RoundTrips]
  clocked := by
    intro r hr
    simp only [List.cons_append, List.nil_append, List.mem_cons, List.not_mem_nil, or_false] at hr
    rcases hr with rfl | rfl
    · exact ⟨updatedAt, m, by simp [sampleRow, sampleSpec, List.lookup_cons], h, le_max_left m m'⟩
    · exact ⟨updatedAt', m', by simp [sampleRow, sampleSpec, List.lookup_cons], h',
        le_max_right m m'⟩
  permitted := fun _ _ _ _ _ => rfl

/-- A later row reaches the other host. -/
theorem exchange_converges_sample :
    rowOf sampleSpec (received sampleLibs Schema.untyped sampleSpec 1767312000000
        [sampleRow "x" "2026-01-01T00:00:00Z"] [sampleRow "y" "2026-01-02T00:00:00Z"]) (.text "a") =
      some (restrict sampleSpec.columns (sampleRow "y" "2026-01-02T00:00:00Z")) := by
  have htie : TieFree sampleLibs sampleSpec [sampleRow "x" "2026-01-01T00:00:00Z"]
      [sampleRow "y" "2026-01-02T00:00:00Z"] (.text "a") := by
    intro a ha b hb _ _ hclock
    rw [List.mem_singleton] at ha hb
    subst ha hb
    revert hclock
    decide +kernel
  have hnow : max 1767225600000 1767312000000 ≤ (1767312000000 : ℤ) + maxLwwSkewMillis := by decide
  have hnewer := ((exchange_converges (sample_exchangeable "x" "y" 1767225600000
    1767312000000 (by decide +kernel) (by decide +kernel)) hnow hnow).1 _ htie).1
  have hrow : ∀ val updatedAt, rowOf sampleSpec [sampleRow val updatedAt] (.text "a") =
      some (restrict sampleSpec.columns (sampleRow val updatedAt)) := fun _ _ => rfl
  rw [hnewer, hrow, hrow]
  have hlater : instant sampleLibs sampleSpec (restrict sampleSpec.columns
      (sampleRow "x" "2026-01-01T00:00:00Z")) <
      instant sampleLibs sampleSpec (restrict sampleSpec.columns
        (sampleRow "y" "2026-01-02T00:00:00Z")) := by decide +kernel
  simp only [newer, Option.elim_some, join, if_pos hlater]

/-- Different rows with the same clock stay different. -/
theorem exchange_keeps_tied_rows :
    Exchangeable sampleLibs Schema.untyped sampleSpec (max 1767225600000 1767225600000)
        [sampleRow "x" "2026-01-01T00:00:00Z"] [sampleRow "y" "2026-01-01T00:00:00Z"] ∧
      rowOf sampleSpec (received sampleLibs Schema.untyped sampleSpec 1767312000000
          [sampleRow "x" "2026-01-01T00:00:00Z"] [sampleRow "y" "2026-01-01T00:00:00Z"])
          (.text "a") ≠
        rowOf sampleSpec (received sampleLibs Schema.untyped sampleSpec 1767312000000
          [sampleRow "y" "2026-01-01T00:00:00Z"] [sampleRow "x" "2026-01-01T00:00:00Z"])
          (.text "a") := by
  refine ⟨sample_exchangeable "x" "y" _ _ (by decide +kernel) (by decide +kernel), fun h => ?_⟩
  have hval := congrArg (Option.map fun r => r "val") h
  revert hval
  decide +kernel

end Orca
