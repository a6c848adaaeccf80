import Mathlib.Data.Bool.Basic
import Mathlib.Data.List.Nodup
import Mathlib.Data.String.Basic
import Mathlib.Logic.Function.Basic
import Orca.Library.Check

/-!
# Tables with affinities

Tables in the manner of SQLite: a value has a type of its own, and a column has only an affinity,
which converts a value when it is stored in the column and when it is compared with it.  Every row
has a number, the rowid, and a primary key that is declared `INTEGER PRIMARY KEY` is another name of
it.  A name in a condition that is no column is the rowid, or a text.

The statements are `insert`, which replaces the rows in conflict if it is told to, `update` and
`delete`.  For a set of rows that a statement has no right to touch, `filter_insert`,
`filter_update` and `filter_delete` say when it leaves them as they are.  A text spells a value
(`Value.SpelledBy`) if it names the same rows: `compared_of_spelled` and `stored_of_spelled` say for
which affinities.
-/

namespace Sqlite

open Check

/-! ## Values -/

/-- A value, where `ρ` is the type of the real numbers. -/
inductive Value (ρ : Type) where
  | null
  | int (i : Int64)
  | real (r : ρ)
  | text (s : String)
  | blob (bytes : List UInt8)
  deriving DecidableEq

/-- The affinity of a column. -/
inductive Affinity where
  | text
  | numeric
  | integer
  | real
  | blob
  deriving DecidableEq

/-- How the engine converts and compares numbers, and numbers its rows. -/
structure Numbers (ρ : Type) where
  /-- The number that a text is a literal of. -/
  parse : String → Option (Int64 ⊕ ρ)
  /-- The text of a real number. -/
  render : ρ → String
  /-- The real number next to an integer. -/
  ofInt : Int64 → ρ
  /-- The integer that a real number is. -/
  toInt : ρ → Option Int64
  eqReal : ρ → ρ → Bool
  /-- A real number is equal to an integer. -/
  eqInt : Int64 → ρ → Bool
  /-- The number of a new row, where the numbers of the others are given. -/
  nextRowid : List Int64 → Option Int64
  /-- The decimal digits of an integer are a literal of it. -/
  parse_int : ∀ i : Int64, parse (toString i) = some (.inl i)
  /-- No literal starts with a letter or an underscore. -/
  parse_word : ∀ s : String, s.toList.head?.any (fun c => c.isAlpha || c == '_') = true →
    parse s = none
  /-- A new row has a number of its own. -/
  nextRowid_notMem : ∀ ids i, nextRowid ids = some i → i ∉ ids

section Values

variable {ρ : Type} (N : Numbers ρ)

/-- The value is `NULL`. -/
def Value.isNull : Value ρ → Bool
  | .null => true
  | _ => false

/-- `a = b` holds. -/
def Value.same : Value ρ → Value ρ → Bool
  | .int i, .int j => i == j
  | .int i, .real r => N.eqInt i r
  | .real r, .int i => N.eqInt i r
  | .real r, .real q => N.eqReal r q
  | .text s, .text u => s == u
  | .blob b, .blob c => b == c
  | _, _ => false

/-- Numeric affinity is applied. -/
def Value.toNumeric : Value ρ → Value ρ
  | .text s =>
    match N.parse s with
    | some (.inl i) => .int i
    | some (.inr r) => .real r
    | none => .text s
  | v => v

/-- Text affinity is applied. -/
def Value.toText : Value ρ → Value ρ
  | .int i => .text (toString i)
  | .real r => .text (N.render r)
  | v => v

/-- A value as it is compared with a column. -/
def Affinity.compared : Affinity → Value ρ → Value ρ
  | .text, v => v.toText N
  | .numeric, v | .integer, v | .real, v => v.toNumeric N
  | .blob, v => v

/-- A value as a column stores it. -/
def Affinity.stored : Affinity → Value ρ → Value ρ
  | .text, v => v.toText N
  | .numeric, .real r | .integer, .real r =>
    match N.toInt r with
    | some i => .int i
    | none => .real r
  | .numeric, v | .integer, v => v.toNumeric N
  | .real, v =>
    match v.toNumeric N with
    | .int i => .real (N.ofInt i)
    | w => w
  | .blob, v => v

/-- The text spells the value: it is the text, or the digits of the integer. -/
def Value.SpelledBy (key : String) (v : Value ρ) : Prop :=
  v = .text key ∨ ∃ i : Int64, v = .int i ∧ key = toString i

variable {N}

/-- A value and a text that spells it compare with the same values of a column that has an
affinity. -/
theorem compared_of_spelled {a : Affinity} (ha : a ≠ .blob) {v : Value ρ} {key : String}
    (h : v.SpelledBy key) : a.compared N v = a.compared N (.text key) := by
  rcases h with rfl | ⟨i, rfl, rfl⟩
  · rfl
  · cases a with
    | blob => exact absurd rfl ha
    | text => rfl
    | numeric => simp only [Affinity.compared, Value.toNumeric, N.parse_int]
    | integer => simp only [Affinity.compared, Value.toNumeric, N.parse_int]
    | real => simp only [Affinity.compared, Value.toNumeric, N.parse_int]

/-- What a column stores of a value is what a text that spells it is compared as. -/
theorem stored_of_spelled {a : Affinity} (ha : a = .text ∨ a = .numeric ∨ a = .integer)
    {v : Value ρ} {key : String} (h : v.SpelledBy key) :
    a.stored N v = a.compared N (.text key) := by
  rcases h with rfl | ⟨i, rfl, rfl⟩
  · rcases ha with rfl | rfl | rfl <;> rfl
  · rcases ha with rfl | rfl | rfl
    · rfl
    · simp only [Affinity.stored, Affinity.compared, Value.toNumeric, N.parse_int]
    · simp only [Affinity.stored, Affinity.compared, Value.toNumeric, N.parse_int]

lemma stored_text {a : Affinity} {s : String} (h : N.parse s = none) :
    a.stored N (.text s) = .text s := by
  cases a <;> simp [Affinity.stored, Value.toText, Value.toNumeric, h]

lemma same_text_iff {v : Value ρ} {s : String} : v.same N (.text s) = true ↔ v = .text s := by
  cases v <;> simp [Value.same]

lemma same_int_iff {i j : Int64} : (Value.int i).same N (.int j) = true ↔ i = j := by
  simp [Value.same]

/-- `NULL` is not equal to anything. -/
lemma not_same_null (v : Value ρ) : v.same N .null = false := by
  cases v <;> rfl

end Values

/-! ## Tables -/

/-- A name without regard to the case of its letters. -/
def foldName (name : String) : String := String.ofList (name.toList.map Char.toLower)

/-- A column. -/
structure Column (ρ : Type) where
  name : String
  affinity : Affinity
  /-- It is declared `NOT NULL`. -/
  notNull : Bool
  default : Value ρ

/-- The names of the columns differ. -/
def DistinctNames {ρ : Type} (columns : List (Column ρ)) : Prop :=
  (columns.map fun c => foldName c.name).Nodup

instance {ρ : Type} (columns : List (Column ρ)) : Decidable (DistinctNames columns) :=
  inferInstanceAs (Decidable (List.Nodup _))

/-- A row. -/
structure RowidRow (ρ : Type) where
  rowid : Int64
  /-- Its values, by the names of the columns. -/
  cells : String → Value ρ

/-- A table. -/
structure RowidTable (ρ : Type) where
  columns : List (Column ρ)
  distinct : DistinctNames columns
  /-- The first column of the primary key. -/
  pk : Option String
  /-- The primary key is the rowid. -/
  rowidPk : Bool
  /-- The sets of columns that are declared unique, a primary key that is not the rowid among
  them. -/
  keys : List (List String)
  rows : List (RowidRow ρ)

/-- What a name in a condition means. -/
inductive Term (ρ : Type) where
  | column (c : Column ρ)
  | rowid
  | literal (s : String)

namespace RowidTable

variable {ρ : Type} (N : Numbers ρ) (t : RowidTable ρ)

/-- The column with the name. -/
def column? (name : String) : Option (Column ρ) :=
  t.columns.find? fun c => foldName c.name == foldName name

/-- What the name means: double quotes around a name that is unknown make it a text. -/
def resolve (name : String) : Term ρ :=
  match t.column? name with
  | some c => .column c
  | none =>
    if foldName name ∈ ["rowid", "oid", "_rowid_"] then .rowid else .literal name

/-- The column is another name of the rowid. -/
def isAlias (c : Column ρ) : Bool := t.rowidPk && t.pk == some c.name

/-- The value of the row in the column. -/
def cell (r : RowidRow ρ) (c : Column ρ) : Value ρ :=
  if t.isAlias c then .int r.rowid else r.cells c.name

/-- `WHERE "name" = v`. -/
def hits (name : String) (v : Value ρ) (r : RowidRow ρ) : Bool :=
  match t.resolve name with
  | .column c => (t.cell r c).same N (c.affinity.compared N v)
  | .rowid => (Value.int r.rowid).same N (Affinity.integer.compared N v)
  | .literal s => (Value.text s).same N v

/-- The rows agree in a set of columns that is declared unique, or in their numbers. -/
def conflicts (r new : RowidRow ρ) : Bool :=
  r.rowid == new.rowid || t.keys.any fun key => key.all fun name =>
    (t.column? name).any fun c => (t.cell r c).same N (t.cell new c)

/-! ### Insert -/

/-- The value of a new row in the column. -/
def newCell (replace : Bool) (c : Column ρ) (v : Option (Value ρ)) : Except String (Value ρ) :=
  let stored := c.affinity.stored N (v.getD c.default)
  if stored.isNull && c.notNull && !t.isAlias c then
    if replace && !c.default.isNull then .ok (c.affinity.stored N c.default)
    else .error ("NOT NULL constraint failed: " ++ c.name)
  else .ok stored

/-- The value that is given for the column. -/
def given (values : List (String × Value ρ)) (c : Column ρ) : Option (Value ρ) :=
  (values.find? fun e => foldName e.1 == foldName c.name).map Prod.snd

/-- The values of a new row. -/
def newCells (replace : Bool) (values : List (String × Value ρ)) (columns : List (Column ρ)) :
    Except String (String → Value ρ) :=
  columns.foldlM (fun cells c => do
    let v ← t.newCell N replace c (given values c)
    .ok (Function.update cells c.name v)) fun _ => .null

/-- The number that the engine gives to a new row. -/
def freshRowid : Except String Int64 :=
  match N.nextRowid (t.rows.map RowidRow.rowid) with
  | some i => .ok i
  | none => .error "database or disk is full"

/-- The number of a new row. -/
def newRowid (cells : String → Value ρ) : Except String Int64 :=
  match t.columns.find? t.isAlias with
  | none => t.freshRowid N
  | some c =>
    match cells c.name with
    | .int i => .ok i
    | .null => t.freshRowid N
    | _ => .error "datatype mismatch"

/-- The row that a statement inserts. -/
def newRow (replace : Bool) (values : List (String × Value ρ)) : Except String (RowidRow ρ) :=
  match values.find? fun e => (t.column? e.1).isNone with
  | some e => .error ("no column named " ++ e.1)
  | none => do
    let cells ← t.newCells N replace values t.columns
    let rowid ← t.newRowid N cells
    .ok ⟨rowid, cells⟩

/-- `INSERT`, or `INSERT OR REPLACE`. -/
def insert (replace : Bool) (values : List (String × Value ρ)) : Except String (RowidTable ρ) := do
  let new ← t.newRow N replace values
  if !replace && t.rows.any (t.conflicts N · new) then .error "UNIQUE constraint failed"
  else .ok { t with rows := (t.rows.filter fun r => !t.conflicts N r new) ++ [new] }

/-! ### Update and delete -/

/-- `SET name = v` for one row. -/
def setValue (r : RowidRow ρ) (e : String × Value ρ) : Except String (RowidRow ρ) :=
  match t.resolve e.1 with
  | .column c =>
    let stored := c.affinity.stored N e.2
    if t.isAlias c then
      match stored with
      | .int i => .ok { r with rowid := i }
      | _ => .error "datatype mismatch"
    else if stored.isNull && c.notNull then .error ("NOT NULL constraint failed: " ++ c.name)
    else .ok { r with cells := Function.update r.cells c.name stored }
  | .rowid =>
    match Affinity.integer.stored N e.2 with
    | .int i => .ok { r with rowid := i }
    | _ => .error "datatype mismatch"
  | .literal s => .error ("no such column: " ++ s)

/-- The rows that are hit are changed one after another; none may then be in conflict. -/
def updateRows (hit : RowidRow ρ → Bool) (sets : List (String × Value ρ)) :
    List (RowidRow ρ) → List (RowidRow ρ) → Except String (List (RowidRow ρ))
  | done, [] => .ok done
  | done, r :: rest =>
    if hit r then do
      let r' ← sets.foldlM (t.setValue N) r
      if (done ++ rest).any (t.conflicts N · r') then .error "UNIQUE constraint failed"
      else updateRows hit sets (done ++ [r']) rest
    else updateRows hit sets (done ++ [r]) rest

/-- `UPDATE .. SET .. WHERE "name" = v`: the table, and how many rows are hit. -/
def update (name : String) (v : Value ρ) (sets : List (String × Value ρ)) :
    Except String (RowidTable ρ × Nat) :=
  match sets.find? fun e => match t.resolve e.1 with
    | .literal _ => true
    | _ => false with
  | some e => .error ("no such column: " ++ e.1)
  | none => do
    let rows ← t.updateRows N (t.hits N name v) sets [] t.rows
    .ok ({ t with rows := rows }, t.rows.countP (t.hits N name v))

/-- `DELETE .. WHERE "name" = v`: the table, and how many rows are hit. -/
def delete (name : String) (v : Value ρ) : RowidTable ρ × Nat :=
  ({ t with rows := t.rows.filter fun r => !t.hits N name v r },
    t.rows.countP (t.hits N name v))

/-! ## Names -/

variable {N t}

lemma column?_of_mem {c : Column ρ} (hc : c ∈ t.columns) : t.column? c.name = some c := by
  unfold column?
  cases hfind : t.columns.find? fun c' => foldName c'.name == foldName c.name with
  | none => simpa using List.find?_eq_none.mp hfind c hc
  | some c' =>
    have hname : foldName c'.name = foldName c.name := by simpa using List.find?_some hfind
    have hmem := List.mem_of_find?_eq_some hfind
    rw [List.inj_on_of_nodup_map t.distinct hmem hc hname]

lemma of_column? {name : String} {c : Column ρ} (h : t.column? name = some c) :
    c ∈ t.columns ∧ foldName c.name = foldName name :=
  ⟨List.mem_of_find?_eq_some h, by simpa using List.find?_some h⟩

lemma eq_of_foldName {c c' : Column ρ} (hc : c ∈ t.columns) (hc' : c' ∈ t.columns)
    (h : foldName c.name = foldName c'.name) : c = c' :=
  List.inj_on_of_nodup_map t.distinct hc hc' h

lemma resolve_eq_column {name : String} {c : Column ρ} :
    t.resolve name = .column c ↔ t.column? name = some c := by
  unfold resolve
  cases t.column? name with
  | some c' => simp
  | none =>
    dsimp only
    split <;> simp

lemma eq_of_resolve_literal {name s : String} (h : t.resolve name = .literal s) : s = name := by
  unfold resolve at h
  split at h
  · cases h
  · split at h
    · cases h
    · exact (Term.literal.inj h).symm

lemma hits_of_column? {name : String} {c : Column ρ} (h : t.column? name = some c) (v : Value ρ)
    (r : RowidRow ρ) : t.hits N name v r = (t.cell r c).same N (c.affinity.compared N v) := by
  unfold hits
  rw [resolve_eq_column.mpr h]

/-- A value hits the same rows as a text that spells it, in a table whose columns all have an
affinity. -/
theorem hits_of_spelled (haffinity : ∀ c ∈ t.columns, c.affinity ≠ .blob) {name key : String}
    {v : Value ρ} (h : v.SpelledBy key) (hname : ∀ i : Int64, name ≠ toString i) (r : RowidRow ρ) :
    t.hits N name v r = t.hits N name (.text key) r := by
  unfold hits
  cases hresolve : t.resolve name with
  | column c =>
    have hc : c ∈ t.columns := (of_column? (resolve_eq_column.mp hresolve)).1
    dsimp only
    rw [compared_of_spelled (haffinity c hc) h]
  | rowid =>
    dsimp only
    rw [compared_of_spelled (by decide) h]
  | literal s =>
    obtain rfl := eq_of_resolve_literal hresolve
    rcases h with rfl | ⟨i, rfl, rfl⟩
    · rfl
    · simp [Value.same, hname i]

/-! ## Rules for statements -/

/-- A new row has what the column stores of the value that is given, or of the default in place of
`NULL`. -/
lemma newCell_spec {replace : Bool} {c : Column ρ} {v : Option (Value ρ)} {w : Value ρ}
    (h : t.newCell N replace c v = .ok w) :
    w = c.affinity.stored N (v.getD c.default) ∨
      ((c.affinity.stored N (v.getD c.default)).isNull = true ∧ c.default.isNull = false) := by
  unfold newCell at h
  dsimp only at h
  split at h
  · rename_i hnull
    split at h
    · rename_i hdefault
      rw [Bool.and_eq_true, Bool.not_eq_true'] at hdefault
      rw [Bool.and_eq_true, Bool.and_eq_true] at hnull
      exact Or.inr ⟨hnull.1.1, hdefault.2⟩
    · cases h
  · exact Or.inl (Except.ok.inj h).symm

/-- The values of a new row are those of its columns. -/
lemma newCells_spec {replace : Bool} {values : List (String × Value ρ)} {cells : String → Value ρ}
    (h : t.newCells N replace values t.columns = .ok cells) {c : Column ρ} (hc : c ∈ t.columns) :
    t.newCell N replace c (given values c) = .ok (cells c.name) := by
  have hall (columns : List (Column ρ)) (start : String → Value ρ)
      (hdistinct : (columns.map fun c => foldName c.name).Nodup)
      (hcells : columns.foldlM (fun cells c => do
        let v ← t.newCell N replace c (given values c)
        .ok (Function.update cells c.name v)) start = .ok cells) :
      (∀ name, (∀ c ∈ columns, c.name ≠ name) → cells name = start name) ∧
        ∀ c ∈ columns, t.newCell N replace c (given values c) = .ok (cells c.name) := by
    induction columns generalizing start with
    | nil =>
      obtain rfl := Except.ok.inj hcells
      exact ⟨fun _ _ => rfl, fun c hc => absurd hc List.not_mem_nil⟩
    | cons c columns ih =>
      obtain ⟨next, hnext, hrest⟩ := foldlM_cons_ok_iff.mp hcells
      obtain ⟨v, hv, hnext⟩ := chain_ok_iff.mp hnext
      obtain rfl := Except.ok.inj hnext
      rw [List.map_cons, List.nodup_cons] at hdistinct
      obtain ⟨hothers, hcolumns⟩ := ih _ hdistinct.2 hrest
      have hnew : ∀ c' ∈ columns, c'.name ≠ c.name := fun c' hc' hsame =>
        hdistinct.1 (hsame ▸ List.mem_map_of_mem hc')
      refine ⟨fun name hname => ?_, fun c' hc' => ?_⟩
      · rw [hothers name fun c' hc' => hname c' (List.mem_cons_of_mem c hc')]
        exact Function.update_of_ne (hname c List.mem_cons_self).symm _ _
      · rcases List.mem_cons.mp hc' with rfl | hc'
        · rw [hothers c'.name hnew, Function.update_self, hv]
        · exact hcolumns c' hc'
  exact (hall t.columns _ t.distinct h).2 c hc

/-- A row that is inserted: its values are those of its columns, and its number is new, or the value
of the primary key. -/
lemma newRow_spec {replace : Bool} {values : List (String × Value ρ)} {new : RowidRow ρ}
    (h : t.newRow N replace values = .ok new) :
    (∀ c ∈ t.columns, t.newCell N replace c (given values c) = .ok (new.cells c.name)) ∧
      ((∀ r ∈ t.rows, r.rowid ≠ new.rowid) ∨
        ∃ c ∈ t.columns, t.isAlias c = true ∧ new.cells c.name = .int new.rowid) := by
  unfold newRow at h
  split at h
  · cases h
  obtain ⟨cells, hcells, h⟩ := chain_ok_iff.mp h
  obtain ⟨rowid, hrowid, h⟩ := chain_ok_iff.mp h
  obtain rfl := Except.ok.inj h
  refine ⟨fun c hc => newCells_spec hcells hc, ?_⟩
  have hfresh {i : Int64} (hi : t.freshRowid N = .ok i) : ∀ r ∈ t.rows, r.rowid ≠ i := by
    unfold freshRowid at hi
    split at hi
    · rename_i j hj
      obtain rfl := Except.ok.inj hi
      exact fun r hr hsame =>
        N.nextRowid_notMem _ _ hj (hsame ▸ List.mem_map_of_mem hr)
    · cases hi
  unfold newRowid at hrowid
  split at hrowid
  · exact Or.inl (hfresh hrowid)
  · rename_i c hfind
    split at hrowid
    · rename_i i hint
      obtain rfl := Except.ok.inj hrowid
      exact Or.inr ⟨c, List.mem_of_find?_eq_some hfind, List.find?_some hfind, hint⟩
    · exact Or.inl (hfresh hrowid)
    · cases hrowid

/-- What an insert does. -/
lemma insert_spec {replace : Bool} {values : List (String × Value ρ)} {t' : RowidTable ρ}
    (h : t.insert N replace values = .ok t') :
    ∃ new, t.newRow N replace values = .ok new ∧
      t' = { t with rows := (t.rows.filter fun r => !t.conflicts N r new) ++ [new] } ∧
      (replace = false → ∀ r ∈ t.rows, t.conflicts N r new = false) := by
  obtain ⟨new, hnew, h⟩ := chain_ok_iff.mp h
  split at h
  · cases h
  · rename_i hfree
    refine ⟨new, hnew, (Except.ok.inj h).symm, fun hinsert r hr => ?_⟩
    subst hinsert
    by_contra hconflict
    refine hfree ?_
    rw [Bool.not_false, Bool.true_and, List.any_eq_true]
    exact ⟨r, hr, by simpa using hconflict⟩

/-- An insert leaves the rows that satisfy `p`, if the new row is none of them and is not in
conflict with any. -/
theorem filter_insert {replace : Bool} {values : List (String × Value ρ)} {t' : RowidTable ρ}
    {p : RowidRow ρ → Bool} (h : t.insert N replace values = .ok t')
    (hnew : ∀ new, t.newRow N replace values = .ok new → p new = false)
    (hapart : replace = true → ∀ new, t.newRow N replace values = .ok new → ∀ r ∈ t.rows,
      p r = true → t.conflicts N r new = false) :
    t'.rows.filter p = t.rows.filter p := by
  obtain ⟨new, hrow, rfl, hfree⟩ := insert_spec h
  have hlast : [new].filter p = [] := by
    rw [List.filter_cons_of_neg (by simp [hnew new hrow]), List.filter_nil]
  have hkept : ∀ r ∈ t.rows, p r = true → t.conflicts N r new = false := by
    intro r hr hp
    cases replace with
    | true => exact hapart rfl new hrow r hr hp
    | false => exact hfree rfl r hr
  dsimp only
  rw [List.filter_append, hlast, List.append_nil, List.filter_filter]
  refine List.filter_congr fun r hr => ?_
  cases hp : p r with
  | false => rfl
  | true => rw [hkept r hr hp]; rfl

/-- What changes leave of the rows that satisfy `p`. -/
lemma filter_updateRows {hit : RowidRow ρ → Bool} {sets : List (String × Value ρ)}
    {done todo rows : List (RowidRow ρ)} {p : RowidRow ρ → Bool}
    (h : t.updateRows N hit sets done todo = .ok rows)
    (hhit : ∀ r ∈ todo, hit r = true → p r = false)
    (hkeep : ∀ r r', p r = false → sets.foldlM (t.setValue N) r = .ok r' → p r' = false) :
    rows.filter p = done.filter p ++ todo.filter p := by
  induction todo generalizing done with
  | nil =>
    obtain rfl := Except.ok.inj h
    rw [List.filter_nil, List.append_nil]
  | cons r rest ih =>
    have hrest : ∀ r' ∈ rest, hit r' = true → p r' = false := fun r' hr' =>
      hhit r' (List.mem_cons_of_mem r hr')
    unfold updateRows at h
    split at h
    · rename_i hr
      obtain ⟨r', hr', h⟩ := chain_ok_iff.mp h
      have hp : p r = false := hhit r List.mem_cons_self hr
      split at h
      · cases h
      · rw [ih h hrest, List.filter_append,
          List.filter_cons_of_neg (by simp [hkeep r r' hp hr']), List.filter_nil, List.append_nil,
          List.filter_cons_of_neg (by simp [hp])]
    · rw [ih h hrest, List.filter_append, List.append_assoc, ← List.filter_append,
        List.singleton_append]

/-- What an update does to the table. -/
lemma update_spec {name : String} {v : Value ρ} {sets : List (String × Value ρ)} {t' : RowidTable ρ}
    {n : Nat} (h : t.update N name v sets = .ok (t', n)) :
    ∃ rows, t.updateRows N (t.hits N name v) sets [] t.rows = .ok rows ∧
      t' = { t with rows := rows } := by
  unfold update at h
  split at h
  · cases h
  · obtain ⟨rows, hrows, h⟩ := chain_ok_iff.mp h
    obtain ⟨rfl, -⟩ := Prod.mk.inj (Except.ok.inj h)
    exact ⟨rows, hrows, rfl⟩

/-- An update leaves the rows that satisfy `p`, if it hits none of them and changes none into one.
-/
theorem filter_update {name : String} {v : Value ρ} {sets : List (String × Value ρ)}
    {t' : RowidTable ρ} {n : Nat} {p : RowidRow ρ → Bool} (h : t.update N name v sets = .ok (t', n))
    (hhit : ∀ r ∈ t.rows, t.hits N name v r = true → p r = false)
    (hkeep : ∀ r r', p r = false → sets.foldlM (t.setValue N) r = .ok r' → p r' = false) :
    t'.rows.filter p = t.rows.filter p := by
  obtain ⟨rows, hrows, rfl⟩ := update_spec h
  rw [filter_updateRows hrows hhit hkeep, List.filter_nil, List.nil_append]

/-- A delete leaves the rows that satisfy `p`, if it hits none of them. -/
theorem filter_delete {name : String} {v : Value ρ} {p : RowidRow ρ → Bool}
    (hhit : ∀ r ∈ t.rows, t.hits N name v r = true → p r = false) :
    (t.delete N name v).1.rows.filter p = t.rows.filter p := by
  unfold delete
  rw [List.filter_filter]
  refine List.filter_congr fun r hr => ?_
  cases hhits : t.hits N name v r with
  | false => rw [Bool.not_false, Bool.and_true]
  | true => rw [hhit r hr hhits, Bool.false_and]

/-- A change sets the column that is named, and no other. -/
lemma cell_setValue {r r' : RowidRow ρ} {e : String × Value ρ} {c : Column ρ}
    (h : t.setValue N r e = .ok r') (hc : c ∈ t.columns) (halias : t.isAlias c = false) :
    t.cell r' c = t.cell r c ∨
      (foldName e.1 = foldName c.name ∧ t.cell r' c = c.affinity.stored N e.2) := by
  unfold setValue at h
  unfold cell
  rw [halias, if_neg Bool.false_ne_true, if_neg Bool.false_ne_true]
  cases hresolve : t.resolve e.1 with
  | literal s =>
    rw [hresolve] at h
    cases h
  | rowid =>
    rw [hresolve] at h
    dsimp only at h
    split at h
    · obtain rfl := Except.ok.inj h
      exact Or.inl rfl
    · cases h
  | column c' =>
    obtain ⟨hc', hname⟩ := of_column? (resolve_eq_column.mp hresolve)
    rw [hresolve] at h
    dsimp only at h
    split at h
    · split at h
      · obtain rfl := Except.ok.inj h
        exact Or.inl rfl
      · cases h
    split at h
    · cases h
    obtain rfl := Except.ok.inj h
    dsimp only
    by_cases hsame : c = c'
    · subst hsame
      exact Or.inr ⟨hname.symm, Function.update_self _ _ _⟩
    · refine Or.inl (Function.update_of_ne (fun hnames => hsame ?_) _ _)
      exact eq_of_foldName hc hc' (congrArg foldName hnames)

/-- Changes that set the column only to `v` leave a row with `v` in it as such. -/
lemma cell_setValues {sets : List (String × Value ρ)} {r r' : RowidRow ρ} {c : Column ρ}
    {v : Value ρ}
    (h : sets.foldlM (t.setValue N) r = .ok r') (hc : c ∈ t.columns)
    (halias : t.isAlias c = false)
    (hsets : ∀ e ∈ sets, foldName e.1 = foldName c.name → c.affinity.stored N e.2 = v)
    (hr : t.cell r c = v) : t.cell r' c = v := by
  induction sets generalizing r with
  | nil =>
    obtain rfl := Except.ok.inj h
    exact hr
  | cons e sets ih =>
    obtain ⟨next, hnext, hrest⟩ := foldlM_cons_ok_iff.mp h
    refine ih hrest (fun e' he' => hsets e' (List.mem_cons_of_mem e he')) ?_
    rcases cell_setValue hnext hc halias with hkept | ⟨hname, hset⟩
    · rw [hkept, hr]
    · rw [hset, hsets e List.mem_cons_self hname]

end RowidTable

/-! ## An engine

The whole numbers in place of the real ones, read from their decimal digits, show that there is what
`Numbers` asks for. -/

/-- The number with the decimal digits. -/
def digitsValue (digits : List Char) : Option ℕ :=
  if digits ≠ [] ∧ digits.all Char.isDigit = true then some (Nat.ofDigitChars 10 digits 0) else none

/-- The whole number with the decimal digits, behind a minus sign or not. -/
def wholeValue (s : String) : Option ℤ :=
  if s.toList.head? = some '-' then (digitsValue s.toList.tail).map fun n : ℕ => -(n : ℤ)
  else (digitsValue s.toList).map fun n : ℕ => (n : ℤ)

lemma digitsValue_toDigits (n : ℕ) : digitsValue (Nat.toDigits 10 n) = some n := by
  have hdigits : (Nat.toDigits 10 n).all Char.isDigit = true :=
    List.all_eq_true.mpr fun c hc => Nat.isDigit_of_mem_toDigits (by decide) (by decide) hc
  unfold digitsValue
  rw [if_pos ⟨Nat.toDigits_ne_nil, hdigits⟩, Nat.ofDigitChars_ten_toDigits]

/-- The text of a whole number is read as the number. -/
lemma wholeValue_toString (i : ℤ) : wholeValue (toString i) = some i := by
  unfold wholeValue
  cases i with
  | ofNat n =>
    have hchars : (toString (Int.ofNat n)).toList = Nat.toDigits 10 n := Nat.toList_repr
    have hplus : (Nat.toDigits 10 n).head? ≠ some '-' := fun hhead =>
      absurd (Nat.isDigit_of_mem_toDigits (by decide) (by decide) (List.mem_of_head? hhead))
        (by decide)
    rw [hchars, if_neg hplus, digitsValue_toDigits]
    rfl
  | negSucc n =>
    have hchars : (toString (Int.negSucc n)).toList = '-' :: Nat.toDigits 10 (n + 1) := by
      change ("-" ++ Nat.repr (n + 1)).toList = _
      rw [String.toList_append, Nat.toList_repr]
      rfl
    rw [hchars, List.head?_cons, if_pos rfl, List.tail_cons, digitsValue_toDigits]
    rfl

/-- A word is not read as a number. -/
lemma wholeValue_word {s : String}
    (h : s.toList.head?.any (fun c => c.isAlpha || c == '_') = true) : wholeValue s = none := by
  unfold wholeValue
  cases hchars : s.toList with
  | nil => rfl
  | cons c rest =>
    rw [hchars, List.head?_cons, Option.any_some, Bool.or_eq_true, beq_iff_eq] at h
    have hminus : c ≠ '-' := by
      rintro rfl
      exact absurd h (by decide)
    have hdigit : c.isDigit = false := by
      by_contra hdigit
      have h9A : '9'.val.toNat < 'A'.val.toNat := by decide
      have h9a : '9'.val.toNat < 'a'.val.toNat := by decide
      have h9_ : '9'.val.toNat < '_'.val.toNat := by decide
      have halpha : c.isAlpha = true ↔ ('A'.val ≤ c.val ∧ c.val ≤ 'Z'.val) ∨ c.isLower = true := by
        rw [show c.isAlpha = (c.isUpper || c.isLower) from rfl, Bool.or_eq_true]
        exact or_congr_left decide_eq_true_iff
      have hlower : c.isLower = (decide (c.val ≥ 'a'.val) && decide (c.val ≤ 'z'.val)) := rfl
      rw [halpha, hlower] at h
      simp only [Char.isDigit, ge_iff_le, UInt32.le_iff_toNat_le, Bool.and_eq_true,
        decide_eq_true_eq, Bool.not_eq_false] at h hdigit
      rcases h with (h | h) | rfl <;> omega
    unfold digitsValue
    rw [List.head?_cons, if_neg (fun hhead => hminus (Option.some.inj hhead)), if_neg]
    · rfl
    · rintro ⟨-, hall⟩
      rw [List.all_cons, hdigit] at hall
      cases hall

/-- The number after the last one. -/
def rowidAfter (ids : List Int64) : Option Int64 :=
  let i := ids.foldl max 0 + 1
  if i ∈ ids then none else some i

/-- An engine whose real numbers are whole. -/
def wholeNumbers : Numbers ℤ where
  parse s := (wholeValue s).map fun i =>
    if (Int64.ofInt i).toInt = i then .inl (Int64.ofInt i) else .inr i
  render := toString
  ofInt := Int64.toInt
  toInt r := if (Int64.ofInt r).toInt = r then some (Int64.ofInt r) else none
  eqReal := (· == ·)
  eqInt i r := i.toInt == r
  nextRowid := rowidAfter
  parse_int i := by
    change (wholeValue (toString i.toInt)).map _ = _
    rw [wholeValue_toString, Option.map_some, Int64.ofInt_toInt, if_pos rfl]
  parse_word s h := by rw [wholeValue_word h, Option.map_none]
  nextRowid_notMem ids i h := by
    unfold rowidAfter at h
    dsimp only at h
    split at h
    · cases h
    · rename_i hnew
      exact Option.some.inj h ▸ hnew

end Sqlite
