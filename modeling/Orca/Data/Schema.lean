import Mathlib.Data.List.Pairwise
import Mathlib.Data.List.Basic
import Orca.Data.Value

/-!
# SQLite tables

The part of SQLite the replication code leans on: rows, the conversion a column applies to a value
written to it, comparison of a column with a bound parameter, and the statements `INSERT`,
`INSERT … ON CONFLICT (pk) DO UPDATE`, `UPDATE … WHERE` and `DELETE … WHERE`.

A row is a function from column names to cells and a table the list of its rows.  Two cells of one
column are compared for equality after the column's affinity has been applied to the parameter, and
`NULL` equals nothing; this is how SQLite compares the `TEXT` and `INTEGER` columns that serve as
keys.  All further constraints of a table (`NOT NULL`, `UNIQUE`, `CHECK`, triggers) are the
predicate `Schema.permits`.
-/

namespace Orca

/-- A row: the cell of each column. -/
abbrev Row := String → SqlValue

/-- The rows of a table. -/
abbrev Table := List Row

/-- A table definition. -/
structure Schema where
  /-- The value a column holds after a value was written to it: type affinity. -/
  affinity : String → SqlValue → SqlValue
  /-- A stored value is stored as it is. -/
  affinity_idem : ∀ c v, affinity c (affinity c v) = affinity c v
  /-- Only `NULL` is stored as `NULL`. -/
  affinity_eq_null_iff : ∀ c v, affinity c v = .null ↔ v = .null
  /-- The cells of a row whose column an `INSERT` does not name. -/
  defaults : Row
  /-- A default is a stored value. -/
  defaults_stored : ∀ c, affinity c (defaults c) = defaults c
  /-- Whether a row may stand beside the given other rows, the primary key apart. -/
  permits : Table → Row → Bool

namespace Schema

/-- A table whose columns have no affinity, no default and no constraint. -/
def untyped : Schema where
  affinity := fun _ v => v
  affinity_idem := fun _ _ => rfl
  affinity_eq_null_iff := fun _ _ => Iff.rfl
  defaults := fun _ => .null
  defaults_stored := fun _ => rfl
  permits := fun _ _ => true

variable (s : Schema)

/-- `c = ?` with the value bound to the parameter. -/
def holds (c : String) (v : SqlValue) (r : Row) : Bool := r c != .null && r c == s.affinity c v

/-- The row with the given columns written over `base`. -/
def written (columns : List String) (vals : Row) (base : Row) : Row := fun c =>
  if c ∈ columns then s.affinity c (vals c) else base c

/-- Whether two rows have the same primary key, `NULL` being no key. -/
def samePk (pk : String) (row r : Row) : Bool := row pk != .null && r pk == row pk

/-- `INSERT`, or nothing when a constraint fails. -/
def insert (pk : String) (t : Table) (row : Row) : Option Table :=
  if t.any (samePk pk row) then none
  else if s.permits t row then some (t ++ [row]) else none

/-- `INSERT (columns) VALUES … ON CONFLICT (pk) DO UPDATE SET` every column but the key, or nothing
when a constraint fails. -/
def upsert (pk : String) (columns : List String) (vals : Row) (t : Table) : Option Table :=
  let row := s.written columns vals s.defaults
  match t.find? (samePk pk row) with
  | none => if s.permits t row then some (t ++ [row]) else none
  | some cur =>
      let new := s.written (columns.filter (· != pk)) vals cur
      if s.permits (t.filter fun r => !samePk pk row r) new then
        some (t.map fun r => if samePk pk row r then new else r)
      else none

/-- `UPDATE … SET (columns) WHERE p`, or nothing when a constraint fails. -/
def update (columns : List String) (vals : Row) (p : Row → Bool) (t : Table) : Option Table :=
  if (t.filter p).all fun r => s.permits (t.filter fun r => !p r) (s.written columns vals r) then
    some (t.map fun r => if p r then s.written columns vals r else r)
  else none

/-- What holds of every table of a database: cells are stored values, and the primary key
identifies a row unless it is `NULL`. -/
structure Valid (pk : String) (t : Table) : Prop where
  /-- Every cell went through the affinity of its column. -/
  stored : ∀ r ∈ t, ∀ c, s.affinity c (r c) = r c
  /-- Two rows with the same key have none. -/
  pk_unique : t.Pairwise fun a b => a pk = b pk → a pk = .null

variable {s} {pk : String} {t : Table}

lemma holds_iff {c : String} {v : SqlValue} {r : Row} :
    s.holds c v r = true ↔ r c ≠ .null ∧ r c = s.affinity c v := by
  simp [holds]

lemma samePk_iff {row r : Row} : samePk pk row r = true ↔ row pk ≠ .null ∧ r pk = row pk := by
  simp [samePk]

lemma Valid.eq_of_pk (h : s.Valid pk t) {a b : Row} (ha : a ∈ t) (hb : b ∈ t)
    (hnull : a pk ≠ .null) (hpk : a pk = b pk) : a = b := by
  by_contra hne
  have hsymm : Std.Symm fun a b : Row => a pk = b pk → a pk = .null :=
    ⟨fun x y hxy heq => heq.trans (hxy heq.symm)⟩
  exact hnull (h.pk_unique.forall ha hb hne hpk)

/-- A cell of a written column. -/
@[simp] lemma written_of_mem {columns : List String} {vals base : Row} {c : String}
    (h : c ∈ columns) : s.written columns vals base c = s.affinity c (vals c) := by
  simp [written, h]

/-- A cell of any other column. -/
@[simp] lemma written_of_not_mem {columns : List String} {vals base : Row} {c : String}
    (h : c ∉ columns) : s.written columns vals base c = base c := by
  simp [written, h]

lemma written_stored {columns : List String} {vals base : Row}
    (hbase : ∀ c, s.affinity c (base c) = base c) (c : String) :
    s.affinity c (s.written columns vals base c) = s.written columns vals base c := by
  by_cases hc : c ∈ columns
  · rw [written_of_mem hc, s.affinity_idem]
  · rw [written_of_not_mem hc, hbase]

lemma samePk_written {columns : List String} (hpk : pk ∈ columns) (vals base r : Row) :
    samePk pk (s.written columns vals base) r = s.holds pk (vals pk) r := by
  rw [Bool.eq_iff_iff, samePk_iff, holds_iff, written_of_mem hpk]
  constructor
  · rintro ⟨hnull, heq⟩
    exact ⟨heq ▸ hnull, heq⟩
  · rintro ⟨hnull, heq⟩
    exact ⟨heq ▸ hnull, heq⟩

/-- A comparison with the value bound to the key finds the written row, unless it is `NULL`. -/
lemma holds_written_iff {columns : List String} (hpk : pk ∈ columns) {vals base : Row} :
    s.holds pk (vals pk) (s.written columns vals base) = true ↔ vals pk ≠ .null := by
  rw [holds_iff, written_of_mem hpk]
  exact ⟨fun h hnull => h.1 ((s.affinity_eq_null_iff _ _).mpr hnull),
    fun h => ⟨fun hnull => h ((s.affinity_eq_null_iff _ _).mp hnull), rfl⟩⟩

/-- What an insert that succeeds has done. -/
lemma insert_eq_some {row : Row} {t' : Table} (h : s.insert pk t row = some t') :
    (∀ r ∈ t, samePk pk row r = false) ∧ s.permits t row = true ∧ t' = t ++ [row] := by
  unfold insert at h
  split at h
  · cases h
  · rename_i hany
    split at h
    · rename_i hpermits
      cases h
      refine ⟨fun r hr => ?_, hpermits, rfl⟩
      have hnone := hany
      rw [List.any_eq_true, not_exists] at hnone
      exact Bool.eq_false_iff.mpr fun hsame => hnone r ⟨hr, hsame⟩
    · cases h

/-- What an upsert that succeeds has done: it appended a row with a new key, or rewrote the row of
the key in place. -/
lemma upsert_eq_some (hvalid : s.Valid pk t) {columns : List String} {vals : Row} {t' : Table}
    (h : s.upsert pk columns vals t = some t') :
    ((∀ r ∈ t, samePk pk (s.written columns vals s.defaults) r = false) ∧
        t' = t ++ [s.written columns vals s.defaults]) ∨
      ((∃ cur ∈ t, samePk pk (s.written columns vals s.defaults) cur = true) ∧
        t' = t.map fun r => if samePk pk (s.written columns vals s.defaults) r then
          s.written (columns.filter (· != pk)) vals r else r) := by
  unfold upsert at h
  simp only at h
  generalize hrow : s.written columns vals s.defaults = row at h ⊢
  split at h
  · rename_i hfind
    split at h
    · cases h
      refine Or.inl ⟨fun r hr => ?_, rfl⟩
      simpa using List.find?_eq_none.mp hfind r hr
    · cases h
  · rename_i cur hfind
    have hcur : cur ∈ t := List.mem_of_find?_eq_some hfind
    have hsame : samePk pk row cur = true := by simpa using List.find?_some hfind
    split at h
    · cases h
      refine Or.inr ⟨⟨cur, hcur, hsame⟩, List.map_congr_left fun r hr => ?_⟩
      by_cases hr' : samePk pk row r = true
      · -- the key identifies the row that was found
        obtain ⟨hnull, hcurpk⟩ := samePk_iff.mp hsame
        obtain ⟨-, hrpk⟩ := samePk_iff.mp hr'
        have heq : cur = r := hvalid.eq_of_pk hcur hr (hcurpk ▸ hnull) (hcurpk.trans hrpk.symm)
        rw [if_pos hr', if_pos hr', heq]
      · rw [if_neg hr', if_neg hr']
    · cases h

/-- The rows after an upsert under a key that is set: one row with the written cells, and the rows
of the other keys. -/
lemma mem_of_upsert (hvalid : s.Valid pk t) {columns : List String} (hpk : pk ∈ columns)
    {vals : Row} (hkey : s.affinity pk (vals pk) ≠ .null) {t' : Table}
    (h : s.upsert pk columns vals t = some t') :
    ∃ new : Row, (∀ c ∈ columns, new c = s.affinity c (vals c)) ∧
      ∀ x, x ∈ t' ↔ x = new ∨ (x ∈ t ∧ x pk ≠ s.affinity pk (vals pk)) := by
  have hsame : ∀ r, samePk pk (s.written columns vals s.defaults) r = true ↔
      r pk = s.affinity pk (vals pk) := by
    intro r
    rw [samePk_iff, written_of_mem hpk]
    exact ⟨fun h => h.2, fun h => ⟨hkey, h⟩⟩
  rcases upsert_eq_some hvalid h with ⟨hfresh, rfl⟩ | ⟨⟨cur, hcur, hhit⟩, rfl⟩
  · refine ⟨s.written columns vals s.defaults, fun c hc => written_of_mem hc, fun x => ?_⟩
    rw [List.mem_append, List.mem_singleton]
    constructor
    · rintro (hx | rfl)
      · refine Or.inr ⟨hx, fun heq => ?_⟩
        rw [← hsame, hfresh x hx] at heq
        cases heq
      · exact Or.inl rfl
    · rintro (rfl | ⟨hx, -⟩)
      · exact Or.inr rfl
      · exact Or.inl hx
  · have hcurpk := (hsame cur).mp hhit
    refine ⟨s.written (columns.filter (· != pk)) vals cur, fun c hc => ?_, fun x => ?_⟩
    · by_cases hc' : c = pk
      · subst hc'
        rw [written_of_not_mem (by simp), hcurpk]
      · exact written_of_mem (by simp [hc, hc'])
    · rw [List.mem_map]
      constructor
      · rintro ⟨r, hr, rfl⟩
        by_cases hr' : samePk pk (s.written columns vals s.defaults) r = true
        · have hrpk := (hsame r).mp hr'
          rw [if_pos hr', hvalid.eq_of_pk hr hcur (hrpk ▸ hkey) (hrpk.trans hcurpk.symm)]
          exact Or.inl rfl
        · rw [if_neg hr']
          exact Or.inr ⟨hr, fun heq => hr' ((hsame r).mpr heq)⟩
      · rintro (rfl | ⟨hx, hne⟩)
        · exact ⟨cur, hcur, if_pos hhit⟩
        · exact ⟨x, hx, if_neg fun heq => hne ((hsame x).mp heq)⟩

/-- An upsert goes through when no constraint refuses a row with its cells. -/
lemma upsert_isSome {columns : List String} (hpk : pk ∈ columns) {vals : Row}
    (hpermits : ∀ t r, (∀ c ∈ columns, r c = s.affinity c (vals c)) → s.permits t r = true)
    (t : Table) : (s.upsert pk columns vals t).isSome = true := by
  unfold upsert
  simp only
  split
  · rw [hpermits t _ fun c hc => written_of_mem hc]
    rfl
  · rename_i cur hfind
    have hcur := (samePk_iff.mp (List.find?_some hfind)).2
    rw [written_of_mem hpk] at hcur
    rw [if_pos]
    · rfl
    · refine hpermits _ _ fun c hc => ?_
      by_cases hc' : c = pk
      · subst hc'
        rw [written_of_not_mem (by simp), hcur]
      · exact written_of_mem (by simp [hc, hc'])

lemma update_eq_some {columns : List String} {vals : Row} {p : Row → Bool} {t' : Table}
    (h : s.update columns vals p t = some t') :
    t' = t.map fun r => if p r then s.written columns vals r else r := by
  unfold update at h
  split at h
  · cases h
    rfl
  · cases h

end Schema

end Orca
