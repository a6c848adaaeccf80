import Orca.Library.KeyedTable

/-!
# Tables with a key and an id

A table with two uniqueness constraints: a natural key and an id of each row.  `UniqueTable key uid`
is a keyed table whose ids are distinct as well.  Its statements are the ones a database has for
such a table: `insert`, `updateWhere` and `upsert` fail when a constraint is violated, `deleteWhere`
never does.

An update of a single row is described by membership: `updateWhere_of_free` says what the rows are
when the new key and the new id belong to no other row, and `updateWhere_eq_none_of_taken` that the
statement fails when one of them does.
-/

/-- A table whose rows have distinct keys and distinct ids. -/
structure UniqueTable {α κ ι : Type*} (key : α → κ) (uid : α → ι) extends KeyedTable key where
  uid_nodup : (rows.map uid).Nodup

namespace UniqueTable

variable {α κ ι : Type*} {key : α → κ} {uid : α → ι}

/-- The empty table. -/
def empty : UniqueTable key uid := ⟨.empty, List.nodup_nil⟩

lemma eq_of_uid (t : UniqueTable key uid) {a b : α} (ha : a ∈ t.rows) (hb : b ∈ t.rows)
    (h : uid a = uid b) : a = b :=
  List.inj_on_of_nodup_map t.uid_nodup ha hb h

lemma eq_of_rows {t t' : UniqueTable key uid} (h : t.rows = t'.rows) : t = t' := by
  obtain ⟨⟨rows, nodup⟩, uid_nodup⟩ := t
  obtain ⟨⟨rows', nodup'⟩, uid_nodup'⟩ := t'
  obtain rfl : rows = rows' := h
  rfl

/-- `DELETE … WHERE`. -/
def deleteWhere (t : UniqueTable key uid) (p : α → Bool) : UniqueTable key uid where
  toKeyedTable := t.toKeyedTable.filter fun a => !p a
  uid_nodup := t.uid_nodup.sublist (List.filter_sublist.map uid)

lemma mem_deleteWhere {t : UniqueTable key uid} {p : α → Bool} {a : α} :
    a ∈ (t.deleteWhere p).rows ↔ a ∈ t.rows ∧ p a = false := by
  unfold deleteWhere KeyedTable.filter
  rw [List.mem_filter, Bool.not_eq_true']

lemma deleteWhere_eq_self {t : UniqueTable key uid} {p : α → Bool}
    (h : ∀ a ∈ t.rows, p a = false) : t.deleteWhere p = t := by
  refine eq_of_rows (List.filter_eq_self.mpr ?_)
  intro a ha
  rw [h a ha]
  rfl

variable [DecidableEq κ] [DecidableEq ι]

/-- `UPDATE … WHERE`.  Nothing is the violation of a constraint. -/
def updateWhere (t : UniqueTable key uid) (p : α → Bool) (f : α → α) :
    Option (UniqueTable key uid) :=
  let rows := t.rows.map fun a => if p a then f a else a
  if h : (rows.map key).Nodup ∧ (rows.map uid).Nodup then some ⟨⟨rows, h.1⟩, h.2⟩ else none

/-- `INSERT`.  Nothing is the violation of a constraint. -/
def insert (t : UniqueTable key uid) (new : α) : Option (UniqueTable key uid) :=
  let rows := t.rows ++ [new]
  if h : (rows.map key).Nodup ∧ (rows.map uid).Nodup then some ⟨⟨rows, h.1⟩, h.2⟩ else none

/-- `INSERT … ON CONFLICT (key) DO UPDATE`: the row of the key is rewritten when there is one. -/
def upsert (t : UniqueTable key uid) (new : α) (f : α → α) : Option (UniqueTable key uid) :=
  if (t.find (key new)).isSome then t.updateWhere (fun a => key a = key new) f
  else t.insert new

section Update

variable {t : UniqueTable key uid} {p : α → Bool} {f : α → α} {a : α}

omit [DecidableEq κ] [DecidableEq ι] in
/-- The rows after an update of one row, as a list. -/
lemma mem_map_update (ha : a ∈ t.rows) (hp : ∀ b ∈ t.rows, p b = true ↔ b = a) {x : α} :
    (x ∈ t.rows.map fun b => if p b then f b else b) ↔ x = f a ∨ (x ∈ t.rows ∧ x ≠ a) := by
  rw [List.mem_map]
  constructor
  · rintro ⟨b, hb, rfl⟩
    by_cases hba : b = a
    · rw [if_pos ((hp b hb).mpr hba), hba]
      exact Or.inl rfl
    · rw [if_neg (mt (hp b hb).mp hba)]
      exact Or.inr ⟨hb, hba⟩
  · rintro (rfl | ⟨hx, hne⟩)
    · exact ⟨a, ha, if_pos ((hp a ha).mpr rfl)⟩
    · exact ⟨x, hx, if_neg (mt (hp x hx).mp hne)⟩

omit [DecidableEq κ] [DecidableEq ι] in
/-- A value that is new among the rows stays distinct from theirs after an update of one row. -/
lemma nodup_map_update {β : Type*} {g : α → β} (ha : a ∈ t.rows)
    (hp : ∀ b ∈ t.rows, p b = true ↔ b = a) (hg : (t.rows.map g).Nodup)
    (hfree : ∀ b ∈ t.rows, b ≠ a → g b ≠ g (f a)) :
    ((t.rows.map fun b => if p b then f b else b).map g).Nodup := by
  rw [List.map_map]
  refine (List.nodup_map_iff_inj_on (List.Nodup.of_map _ hg)).mpr ?_
  have hupd : ∀ b ∈ t.rows, (b = a ∧ (if p b then f b else b) = f a) ∨
      (b ≠ a ∧ (if p b then f b else b) = b) := by
    intro b hb
    by_cases hba : b = a
    · exact Or.inl ⟨hba, by rw [if_pos ((hp b hb).mpr hba), hba]⟩
    · exact Or.inr ⟨hba, if_neg (mt (hp b hb).mp hba)⟩
  intro b hb c hc heq
  rw [Function.comp_apply, Function.comp_apply] at heq
  rcases hupd b hb with ⟨rfl, hbv⟩ | ⟨hba, hbv⟩
  · rcases hupd c hc with ⟨rfl, hcv⟩ | ⟨hca, hcv⟩
    · rfl
    · rw [hbv, hcv] at heq
      exact absurd heq.symm (hfree c hc hca)
  · rcases hupd c hc with ⟨rfl, hcv⟩ | ⟨hca, hcv⟩
    · rw [hbv, hcv] at heq
      exact absurd heq (hfree b hb hba)
    · rw [hbv, hcv] at heq
      exact List.inj_on_of_nodup_map hg hb hc heq

/-- An update of one row succeeds when no other row has its new key or its new id. -/
lemma updateWhere_of_free (ha : a ∈ t.rows) (hp : ∀ b ∈ t.rows, p b = true ↔ b = a)
    (hkey : ∀ b ∈ t.rows, b ≠ a → key b ≠ key (f a))
    (huid : ∀ b ∈ t.rows, b ≠ a → uid b ≠ uid (f a)) :
    ∃ t', t.updateWhere p f = some t' ∧ ∀ x, x ∈ t'.rows ↔ x = f a ∨ (x ∈ t.rows ∧ x ≠ a) := by
  have hnodup : ((t.rows.map fun b => if p b then f b else b).map key).Nodup ∧
      ((t.rows.map fun b => if p b then f b else b).map uid).Nodup :=
    ⟨nodup_map_update ha hp t.nodup hkey, nodup_map_update ha hp t.uid_nodup huid⟩
  refine ⟨⟨⟨_, hnodup.1⟩, hnodup.2⟩, dif_pos hnodup, ?_⟩
  exact fun x => mem_map_update ha hp

/-- An update of one row to an id that another row has fails. -/
lemma updateWhere_eq_none_of_taken (ha : a ∈ t.rows) (hp : ∀ b ∈ t.rows, p b = true ↔ b = a)
    {b : α} (hb : b ∈ t.rows) (hba : b ≠ a) (huid : uid b = uid (f a)) :
    t.updateWhere p f = none := by
  refine dif_neg ?_
  rintro ⟨-, hnodup⟩
  rw [List.map_map] at hnodup
  have heq := List.inj_on_of_nodup_map hnodup ha hb
    (by simp [(hp a ha).mpr rfl, mt (hp b hb).mp hba, huid])
  exact hba heq.symm

end Update

section Insert

variable {t : UniqueTable key uid} {new : α}

omit [DecidableEq κ] [DecidableEq ι] in
lemma nodup_map_append {β : Type*} {g : α → β} (hg : (t.rows.map g).Nodup)
    (hfree : ∀ b ∈ t.rows, g b ≠ g new) : ((t.rows ++ [new]).map g).Nodup := by
  rw [List.map_append, List.nodup_append]
  refine ⟨hg, List.nodup_singleton _, ?_⟩
  intro v hv v' hv' heq
  rw [List.map_singleton, List.mem_singleton] at hv'
  obtain ⟨b, hb, rfl⟩ := List.mem_map.mp hv
  exact hfree b hb (heq.trans hv')

/-- An insertion succeeds when no row has the new key or the new id. -/
lemma insert_of_free (hkey : ∀ b ∈ t.rows, key b ≠ key new)
    (huid : ∀ b ∈ t.rows, uid b ≠ uid new) :
    ∃ t', t.insert new = some t' ∧ ∀ x, x ∈ t'.rows ↔ x = new ∨ x ∈ t.rows := by
  have hnodup : ((t.rows ++ [new]).map key).Nodup ∧ ((t.rows ++ [new]).map uid).Nodup :=
    ⟨nodup_map_append t.nodup hkey, nodup_map_append t.uid_nodup huid⟩
  refine ⟨⟨⟨_, hnodup.1⟩, hnodup.2⟩, dif_pos hnodup, ?_⟩
  intro x
  show x ∈ t.rows ++ [new] ↔ _
  rw [List.mem_append, List.mem_singleton, or_comm]

lemma insert_eq_none_of_taken {b : α} (hb : b ∈ t.rows) (huid : uid b = uid new) :
    t.insert new = none := by
  refine dif_neg ?_
  rintro ⟨-, hnodup⟩
  rw [List.map_append, List.nodup_append] at hnodup
  exact hnodup.2.2 (uid b) (List.mem_map_of_mem hb) (uid new)
    (List.mem_singleton_self _) huid

end Insert

omit [DecidableEq ι] in
/-- The table seen through its keys, from the rows it has. -/
lemma find_of_mem_iff {t t' : UniqueTable key uid} {r : α}
    (h : ∀ x, x ∈ t'.rows ↔ x = r ∨ (x ∈ t.rows ∧ key x ≠ key r)) :
    t'.find = Function.update t.find (key r) (some r) := by
  funext k
  by_cases hk : k = key r
  · rw [hk, Function.update_self, KeyedTable.find_eq_some_iff]
    exact ⟨(h r).mpr (Or.inl rfl), rfl⟩
  · rw [Function.update_of_ne hk]
    ext x
    rw [KeyedTable.find_eq_some_iff, KeyedTable.find_eq_some_iff, h x]
    constructor
    · rintro ⟨rfl | ⟨hx, -⟩, hkey⟩
      · exact absurd hkey.symm hk
      · exact ⟨hx, hkey⟩
    · rintro ⟨hx, hkey⟩
      exact ⟨Or.inr ⟨hx, fun heq => hk (hkey.symm.trans heq)⟩, hkey⟩

end UniqueTable
