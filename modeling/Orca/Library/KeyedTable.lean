import Mathlib.Data.List.Induction
import Mathlib.Data.List.Nodup

/-!
# Keyed tables

A table whose rows have distinct keys: `KeyedTable key` is a list of rows with the uniqueness
constraint as a field, so that every operation on it keeps the constraint.  The operations are the
statements a database has for such a table: `upsert` inserts a row or rewrites the one that already
has its key, `insertNew` inserts a row unless its key is taken, `modify` rewrites rows under their
keys and `filter` deletes.

Seen through `find`, a keyed table is a partial function on keys.  `find_upsert`, `find_modify` and
`find_filter` say what each operation does to that function.
-/

/-- A table whose rows have distinct keys. -/
structure KeyedTable {α κ : Type*} (key : α → κ) where
  rows : List α
  nodup : (rows.map key).Nodup

namespace KeyedTable

variable {α κ : Type*} {key : α → κ}

/-- The empty table. -/
def empty : KeyedTable key := ⟨[], List.nodup_nil⟩

lemma eq_of_rows {t t' : KeyedTable key} (h : t.rows = t'.rows) : t = t' := by
  obtain ⟨rows, nodup⟩ := t
  obtain ⟨rows', nodup'⟩ := t'
  obtain rfl : rows = rows' := h
  rfl

lemma eq_of_key (t : KeyedTable key) {a b : α} (ha : a ∈ t.rows) (hb : b ∈ t.rows)
    (h : key a = key b) : a = b :=
  List.inj_on_of_nodup_map t.nodup ha hb h

/-- Rewrite the rows under their keys. -/
def modify (t : KeyedTable key) (f : α → α) (hf : ∀ a, key (f a) = key a) : KeyedTable key where
  rows := t.rows.map f
  nodup := by
    rw [List.map_map, funext fun a => show (key ∘ f) a = key a from hf a]
    exact t.nodup

/-- Keep the rows that satisfy a predicate. -/
def filter (t : KeyedTable key) (p : α → Bool) : KeyedTable key where
  rows := t.rows.filter p
  nodup := t.nodup.sublist (List.filter_sublist.map key)

/-- Rewrite the rows into rows of another kind that have their keys. -/
def mapRows {β : Type*} {key' : β → κ} (t : KeyedTable key) (g : α → β)
    (hg : ∀ a, key' (g a) = key a) : KeyedTable key' where
  rows := t.rows.map g
  nodup := by
    rw [List.map_map, funext fun a => show (key' ∘ g) a = key a from hg a]
    exact t.nodup

variable [DecidableEq κ]

/-- The row of a key. -/
def find (t : KeyedTable key) (k : κ) : Option α := t.rows.find? fun a => decide (key a = k)

/-- The row of a key is the only one with that key. -/
lemma find_eq_some_iff {t : KeyedTable key} {k : κ} {a : α} :
    t.find k = some a ↔ a ∈ t.rows ∧ key a = k := by
  unfold find
  constructor
  · intro h
    exact ⟨List.mem_of_find?_eq_some h, by simpa using List.find?_some h⟩
  · rintro ⟨hmem, rfl⟩
    cases hfind : t.rows.find? fun b => decide (key b = key a) with
    | none =>
      have hne := List.find?_eq_none.mp hfind a hmem
      simp at hne
    | some b =>
      have hkey : key b = key a := by simpa using List.find?_some hfind
      rw [t.eq_of_key (List.mem_of_find?_eq_some hfind) hmem hkey]

lemma find_eq_none_iff {t : KeyedTable key} {k : κ} :
    t.find k = none ↔ ∀ a ∈ t.rows, key a ≠ k := by
  simp [find, List.find?_eq_none]

lemma mem_rows_iff {t : KeyedTable key} {a : α} : a ∈ t.rows ↔ t.find (key a) = some a := by
  rw [find_eq_some_iff]
  simp

lemma key_of_find {t : KeyedTable key} {k : κ} {a : α} (h : t.find k = some a) : key a = k :=
  (find_eq_some_iff.mp h).2

/-- A rewrite rewrites the row of every key. -/
lemma find_modify (t : KeyedTable key) (f : α → α) (hf : ∀ a, key (f a) = key a) (k : κ) :
    (t.modify f hf).find k = (t.find k).map f := by
  ext b
  rw [find_eq_some_iff, Option.map_eq_some_iff]
  constructor
  · rintro ⟨hb, rfl⟩
    obtain ⟨a, ha, rfl⟩ := List.mem_map.mp hb
    exact ⟨a, find_eq_some_iff.mpr ⟨ha, (hf a).symm⟩, rfl⟩
  · rintro ⟨a, ha, rfl⟩
    obtain ⟨hmem, rfl⟩ := find_eq_some_iff.mp ha
    exact ⟨List.mem_map_of_mem hmem, hf a⟩

/-- Rewriting the row of a key is rewriting the row at its place. -/
lemma map_ite_eq_modify (t : KeyedTable key) {a : α} {i : ℕ} (hi : t.rows[i]? = some a)
    (f : α → α) :
    t.rows.map (fun b => if key b = key a then f b else b) = t.rows.modify i f := by
  refine List.ext_getElem? fun j => ?_
  rw [List.getElem?_map, List.getElem?_modify]
  cases hj : t.rows[j]? with
  | none => rfl
  | some b =>
    refine congrArg some (if_congr ⟨fun hkey => ?_, fun hij => ?_⟩ rfl rfl)
    · obtain rfl := t.eq_of_key (List.mem_of_getElem? hj) (List.mem_of_getElem? hi) hkey
      have hlt := (List.getElem?_eq_some_iff.mp hi).1
      exact (List.getElem?_inj hlt t.nodup.of_map).mp (hi.trans hj.symm)
    · subst hij
      rw [Option.some.inj (hj.symm.trans hi)]

/-- Rows of another kind are found under the same keys. -/
lemma find_mapRows {β : Type*} {key' : β → κ} (t : KeyedTable key) (g : α → β)
    (hg : ∀ a, key' (g a) = key a) (k : κ) : (t.mapRows g hg).find k = (t.find k).map g := by
  ext b
  rw [find_eq_some_iff, Option.map_eq_some_iff]
  constructor
  · rintro ⟨hb, rfl⟩
    obtain ⟨a, ha, rfl⟩ := List.mem_map.mp hb
    exact ⟨a, find_eq_some_iff.mpr ⟨ha, (hg a).symm⟩, rfl⟩
  · rintro ⟨a, ha, rfl⟩
    obtain ⟨hmem, rfl⟩ := find_eq_some_iff.mp ha
    exact ⟨List.mem_map_of_mem hmem, hg a⟩

lemma find_filter (t : KeyedTable key) (p : α → Bool) (k : κ) :
    (t.filter p).find k = (t.find k).filter p := by
  ext b
  rw [find_eq_some_iff, Option.filter_eq_some_iff, find_eq_some_iff]
  unfold filter
  rw [List.mem_filter]
  tauto

/-- Insert a row unless its key is taken. -/
def insertNew (t : KeyedTable key) (new : α) : KeyedTable key :=
  if h : key new ∈ t.rows.map key then t
  else
    { rows := t.rows ++ [new]
      nodup := by
        rw [List.map_append, List.nodup_append]
        refine ⟨t.nodup, List.nodup_singleton _, ?_⟩
        intro k hk k' hk' heq
        rw [List.map_singleton, List.mem_singleton] at hk'
        rw [heq, hk'] at hk
        exact h hk }

/-- An insertion takes effect on a free key. -/
lemma find_insertNew (t : KeyedTable key) (new : α) (k : κ) :
    (t.insertNew new).find k = if k = key new then some ((t.find k).getD new) else t.find k := by
  unfold insertNew
  by_cases h : key new ∈ t.rows.map key
  · rw [dif_pos h]
    split
    · rename_i hk
      obtain ⟨a, ha, hkey⟩ := List.mem_map.mp h
      rw [find_eq_some_iff.mpr ⟨ha, hkey.trans hk.symm⟩]
      rfl
    · rfl
  · rw [dif_neg h]
    have hfree : t.find (key new) = none := by
      rw [find_eq_none_iff]
      exact fun a ha heq => h (List.mem_map.mpr ⟨a, ha, heq⟩)
    split
    · rename_i hk
      rw [hk, hfree]
      exact find_eq_some_iff.mpr ⟨List.mem_append_right _ (List.mem_singleton_self new), rfl⟩
    · rename_i hk
      ext b
      rw [find_eq_some_iff, find_eq_some_iff, List.mem_append, List.mem_singleton]
      constructor
      · rintro ⟨hb | rfl, hkey⟩
        · exact ⟨hb, hkey⟩
        · exact absurd hkey.symm hk
      · rintro ⟨hb, hkey⟩
        exact ⟨Or.inl hb, hkey⟩

/-- Insertions one after another leave the first row of every key. -/
lemma find_foldl_insertNew (t : KeyedTable key) (news : List α) (k : κ) :
    (news.foldl insertNew t).find k = (t.find k).or (news.find? fun a => decide (key a = k)) := by
  induction news generalizing t with
  | nil => rw [List.foldl_nil, List.find?_nil, Option.or_none]
  | cons new news ih =>
    rw [List.foldl_cons, ih, find_insertNew, List.find?_cons]
    by_cases hk : k = key new
    · subst hk
      rw [if_pos rfl, decide_eq_true rfl]
      cases t.find (key new) <;> rfl
    · rw [if_neg hk, decide_eq_false (Ne.symm hk)]

/-- Insert a row, or rewrite the row that already has its key. -/
def upsert (t : KeyedTable key) (new : α) (f : α → α)
    (hf : ∀ a, key a = key new → key (f a) = key new) : KeyedTable key :=
  if key new ∈ t.rows.map key then
    t.modify (fun a => if key a = key new then f a else a) fun a => by
      split
      · rename_i h
        rw [hf a h, h]
      · rfl
  else t.insertNew new

section Upsert

variable (t : KeyedTable key) (new : α) (f : α → α)
  (hf : ∀ a, key a = key new → key (f a) = key new)

lemma rows_upsert : (t.upsert new f hf).rows =
    if key new ∈ t.rows.map key then t.rows.map fun a => if key a = key new then f a else a
    else t.rows ++ [new] := by
  unfold upsert
  by_cases h : key new ∈ t.rows.map key
  · rw [if_pos h, if_pos h]
    rfl
  · rw [if_neg h, if_neg h, insertNew, dif_neg h]

/-- An upsert sets the row of one key. -/
lemma find_upsert (k : κ) : (t.upsert new f hf).find k =
    if k = key new then some (((t.find k).map f).getD new) else t.find k := by
  unfold upsert
  by_cases h : key new ∈ t.rows.map key
  · rw [if_pos h, find_modify]
    cases hfind : t.find k with
    | none =>
      have hk : k ≠ key new := by
        rintro rfl
        obtain ⟨a, ha, hkey⟩ := List.mem_map.mp h
        exact find_eq_none_iff.mp hfind a ha hkey
      simp [hk]
    | some a =>
      have hkey : key a = k := key_of_find hfind
      by_cases hk : k = key new
      · simp [hk, hkey.trans hk]
      · simp [hk, hkey]
  · have hfree : t.find (key new) = none := by
      rw [find_eq_none_iff]
      exact fun a ha heq => h (List.mem_map.mpr ⟨a, ha, heq⟩)
    rw [if_neg h, find_insertNew]
    by_cases hk : k = key new
    · simp [hk, hfree]
    · simp [hk]

end Upsert

/-! ## An index of the rows -/

section Index

/-- The function has the position of each key of the list. -/
def Indexes (keys : List κ) (index : κ → Option ℕ) : Prop :=
  ∀ k i, index k = some i ↔ keys[i]? = some k

/-- A new key is indexed at its place. -/
lemma Indexes.concat {keys : List κ} {index : κ → Option ℕ} (h : Indexes keys index) {k : κ}
    (hk : k ∉ keys) : Indexes (keys ++ [k]) (Function.update index k (some keys.length)) := by
  intro k' i
  rw [Function.update_apply, List.getElem?_append]
  by_cases hkey : k' = k
  · subst hkey
    rw [if_pos rfl]
    split
    next hlt =>
      constructor
      · intro heq
        exact absurd (Option.some.inj heq).symm (Nat.ne_of_lt hlt)
      · intro hmem
        exact absurd (List.mem_of_getElem? hmem) hk
    next hge =>
      rw [List.getElem?_singleton, Option.some_inj]
      split
      next hzero =>
        have hi : keys.length = i := by omega
        simp [hi]
      next hpos =>
        have hi : keys.length ≠ i := by omega
        simp [hi]
  · rw [if_neg hkey, h]
    split
    next => exact Iff.rfl
    next hge =>
      rw [List.getElem?_eq_none (Nat.le_of_not_lt hge), List.getElem?_singleton]
      split
      next => simp [Ne.symm hkey]
      next => exact Iff.rfl

/-- Collecting the positions of distinct keys indexes them. -/
lemma indexes_collect {keys : List κ} (hkeys : keys.Nodup) :
    Indexes keys
      (keys.zipIdx.foldl (fun index entry => Function.update index entry.1 (some entry.2))
      fun _ => none) := by
  induction keys using List.reverseRecOn with
  | nil => exact fun k i => by simp
  | append_singleton keys k ih =>
    rw [List.nodup_append] at hkeys
    rw [List.zipIdx_append, List.foldl_append, Nat.zero_add]
    refine (ih hkeys.1).concat fun hk => ?_
    exact hkeys.2.2 k hk k (List.mem_singleton_self k) rfl

end Index

end KeyedTable
