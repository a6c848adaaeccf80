import Mathlib.Logic.Relation
import Orca.Replication.ReplicateTable

/-!
# What the column protection does

`Protection::apply` rebuilds the object of an incoming row: every protected column gets its local
value back, through JSON, and a column with `column.key` entries takes over those keys.  This file
follows a local cell on that way.  `CellConfined` is what a protected cell may become, and
`cellConfined_mergedValue` says that it becomes nothing else.
-/

namespace Orca

/-! ## Equality of JSON values -/

namespace Json

/-- Only an array of numbers equals an array of numbers. -/
lemma eq_of_eqvList_numbers {ns : List JsonNumber} {js : List Json}
    (h : eqvList js (ns.map Json.number) = true) : js = ns.map Json.number := by
  induction ns generalizing js with
  | nil =>
    cases js with
    | nil => rfl
    | cons j js => simp [eqvList] at h
  | cons n ns ih =>
    cases js with
    | nil => simp [eqvList] at h
    | cons j js =>
      simp only [List.map_cons, eqvList, Bool.and_eq_true] at h
      obtain ⟨hj, hjs⟩ := h
      cases j with
      | number m =>
        have hmn : m = n := by simpa [eqv] using hj
        rw [hmn, ih hjs, List.map_cons]
      | null => simp [eqv] at hj
      | bool b => simp [eqv] at hj
      | string s => simp [eqv] at hj
      | array as => simp [eqv] at hj
      | object es => simp [eqv] at hj

lemma eq_of_eqv_string {j : Json} {s : String} (h : j.eqv (.string s) = true) : j = .string s := by
  cases j <;> simp_all [eqv]

/-- A value equal to the JSON of a cell is the JSON of that cell: it holds no object. -/
lemma eq_of_eqv_sqlToJson {j : Json} {v : SqlValue} (h : j.eqv (sqlToJson v) = true) :
    j = sqlToJson v := by
  cases v with
  | null => cases j <;> simp_all [eqv, sqlToJson]
  | integer i => cases j <;> simp_all [eqv, sqlToJson]
  | real d =>
    simp only [sqlToJson] at h ⊢
    by_cases hd : d.isFinite = true
    · rw [dif_pos hd] at h ⊢
      cases j <;> simp_all [eqv]
    · rw [dif_neg hd] at h ⊢
      cases j <;> simp_all [eqv]
  | text s => exact eq_of_eqv_string h
  | blob bytes =>
    have hmap : sqlToJson (.blob bytes) =
        .array ((bytes.map fun b => JsonNumber.posInt b.toUInt64).map Json.number) := by
      simp [sqlToJson]
    rw [hmap] at h ⊢
    cases j with
    | array js =>
      rw [eqv] at h
      rw [eq_of_eqvList_numbers h]
    | null => simp [eqv] at h
    | bool b => simp [eqv] at h
    | number n => simp [eqv] at h
    | string s => simp [eqv] at h
    | object es => simp [eqv] at h

end Json

/-! ## One JSON column -/

/-- A rewrite of a JSON cell that changes the object at most in the given keys. -/
def KeyEdit (jt : JsonText) (keys : List String) (v w : SqlValue) : Prop :=
  ∃ txt out out', v = .text txt ∧ jt.parseObject txt = some out ∧
    (∀ k, k ∉ keys → out'.lookup k = out.lookup k) ∧ w = .text (jt.toText (.object out'))

/-- The loop over the keys touches no other entry. -/
lemma lookup_foldl_takeKey {inc : List (String × Json)} (keys : List String)
    (acc : List (String × Json) × Bool) {k : String} (hk : k ∉ keys) :
    (keys.foldl (takeKey inc) acc).1.lookup k = acc.1.lookup k := by
  induction keys generalizing acc with
  | nil => rfl
  | cons k' keys ih =>
    rw [List.mem_cons, not_or] at hk
    rw [List.foldl_cons, ih _ hk.2]
    unfold takeKey
    split
    · split
      · rw [lookup_insertEntry, if_neg hk.1]
      · rw [lookup_removeEntry, if_neg hk.1]
    · rfl

/-- `merge_json_keys` returns the local value, or reprints the local object with the given keys
changed. -/
lemma mergeJsonKeys_cases (jt : JsonText) (v : SqlValue) (incoming : Option Json)
    (keys : List String) :
    mergeJsonKeys jt (sqlToJson v) incoming keys = sqlToJson v ∨
      ∃ w, mergeJsonKeys jt (sqlToJson v) incoming keys = .string w ∧
        KeyEdit jt keys v (.text w) := by
  unfold mergeJsonKeys
  split
  · exact Or.inl rfl
  · rename_i out hparse
    simp only
    split
    · -- only a text cell parses as an object
      obtain ⟨txt, rfl, hout⟩ : ∃ txt, v = .text txt ∧ jt.parseObject txt = some out := by
        cases v with
        | text txt => exact ⟨txt, rfl, hparse⟩
        | null => simp [sqlToJson, parseObjectText] at hparse
        | integer i => simp [sqlToJson, parseObjectText] at hparse
        | blob bytes => simp [sqlToJson, parseObjectText] at hparse
        | real d =>
          simp only [sqlToJson] at hparse
          by_cases hd : d.isFinite = true
          · rw [dif_pos hd] at hparse
            cases hparse
          · rw [dif_neg hd] at hparse
            cases hparse
      refine Or.inr ⟨_, rfl, txt, out, _, rfl, hout, ?_, rfl⟩
      exact fun k hk => lookup_foldl_takeKey keys (out, false) hk
    · exact Or.inl rfl

/-! ## One cell -/

/-- What a protected cell may become: nothing else, unless the column has writable keys, whose
values may be edited. -/
structure CellConfined (jt : JsonText) (keys : List String) (v w : SqlValue) : Prop where
  /-- Without writable keys the cell is as it was. -/
  kept : keys = [] → w = v
  /-- In any case only writable keys were edited. -/
  edited : Relation.ReflTransGen (KeyEdit jt keys) v w

lemma CellConfined.refl (jt : JsonText) (keys : List String) (v : SqlValue) :
    CellConfined jt keys v v :=
  ⟨fun _ => rfl, .refl⟩

lemma CellConfined.trans {jt : JsonText} {keys : List String} {u v w : SqlValue}
    (h₁ : CellConfined jt keys u v) (h₂ : CellConfined jt keys v w) : CellConfined jt keys u w :=
  ⟨fun h => (h₂.kept h).trans (h₁.kept h), h₁.edited.trans h₂.edited⟩

/-- The column is declared as text: it stores a text as it is. -/
def Schema.IsText (s : Schema) (c : String) : Prop := ∀ txt, s.affinity c (.text txt) = .text txt

/-- The cell that `Protection::apply` and the write after it make of a local cell. -/
lemma cellConfined_mergedValue (jt : JsonText) {s : Schema} (p : Protection) {c : String}
    {v : SqlValue} (hstored : s.affinity c v = v) (hround : v.RoundTrips)
    (htext : p.keysOf c ≠ [] → s.IsText c) (incoming : Option Json) :
    CellConfined jt (p.keysOf c) v
      (s.affinity c (jsonToSql jt (p.mergedValue jt v incoming c))) := by
  have hsame : s.affinity c (jsonToSql jt (sqlToJson v)) = v := by
    rw [jsonToSql_sqlToJson jt hround, hstored]
  unfold Protection.mergedValue
  split
  · rw [hsame]
    exact .refl jt _ v
  · rename_i hkeys
    rw [List.isEmpty_iff] at hkeys
    rcases mergeJsonKeys_cases jt v incoming (p.keysOf c) with h | ⟨w, h, hedit⟩
    · rw [h, hsame]
      exact .refl jt _ v
    · rw [h, jsonToSql, htext hkeys w]
      exact ⟨fun hnil => absurd hnil hkeys, .single hedit⟩

/-! ## The whole object -/

namespace Protection

variable {p : Protection} {jt : JsonText} {cur : Row}

/-- The value given to a protected column is one that equality tells apart from any other. -/
lemma eq_mergedValue_of_eqv {j : Json} {v : SqlValue} {incoming : Option Json} {c : String}
    (h : j.eqv (p.mergedValue jt v incoming c) = true) : j = p.mergedValue jt v incoming c := by
  unfold mergedValue at h ⊢
  split at h
  · rename_i hkeys
    rw [if_pos hkeys]
    exact Json.eq_of_eqv_sqlToJson h
  · rename_i hkeys
    rw [if_neg hkeys]
    rcases mergeJsonKeys_cases jt v incoming (p.keysOf c) with hm | ⟨w, hm, -⟩
    · rw [hm] at h ⊢
      exact Json.eq_of_eqv_sqlToJson h
    · rw [hm] at h ⊢
      exact Json.eq_of_eqv_string h

/-- The object after one iteration. -/
lemma lookup_applyCol (obj : List (String × Json)) (col c : String) :
    (p.applyCol jt cur obj col).lookup c =
      if c = col then some (p.mergedValue jt (cur col) (obj.lookup col) col) else obj.lookup c := by
  unfold applyCol
  simp only
  split
  · exact lookup_insertEntry obj col _ c
  · rename_i hsame
    by_cases hc : c = col
    · subst hc
      rw [if_pos rfl]
      cases hobj : obj.lookup c with
      | none => simp [optionDiffers, hobj] at hsame
      | some j =>
        have heqv : j.eqv (p.mergedValue jt (cur c) (some j) c) = true := by
          simpa [optionDiffers, hobj] using hsame
        exact congrArg some (eq_mergedValue_of_eqv heqv)
    · rw [if_neg hc]

lemma lookup_foldl_applyCol_of_not_mem (cols : List String) (obj : List (String × Json))
    {c : String} (hc : c ∉ cols) :
    (cols.foldl (p.applyCol jt cur) obj).lookup c = obj.lookup c := by
  induction cols generalizing obj with
  | nil => rfl
  | cons col cols ih =>
    rw [List.mem_cons, not_or] at hc
    rw [List.foldl_cons, ih _ hc.2, lookup_applyCol, if_neg hc.1]

/-- Columns the loop visits end with a value made from the local cell. -/
lemma lookup_foldl_applyCol_of_mem (cols : List String) (obj : List (String × Json))
    {c : String} (hc : c ∈ cols) :
    ∃ incoming, (cols.foldl (p.applyCol jt cur) obj).lookup c =
      some (p.mergedValue jt (cur c) incoming c) := by
  induction cols generalizing obj with
  | nil => cases hc
  | cons col cols ih =>
    rw [List.foldl_cons]
    by_cases htail : c ∈ cols
    · exact ih _ htail
    · obtain rfl : c = col := by simpa [htail] using hc
      rw [lookup_foldl_applyCol_of_not_mem cols _ htail, lookup_applyCol, if_pos rfl]
      exact ⟨obj.lookup c, rfl⟩

/-- What `Protection::apply` returns. -/
lemma apply_eq_some {cur : Option Row} {obj obj' : List (String × Json)}
    (h : p.apply jt cur obj = some obj') :
    (∀ c, c ∉ p.cols → obj'.lookup c = obj.lookup c) ∧
      ∀ c ∈ p.cols, ∃ r, cur = some r ∧
        ∃ incoming, obj'.lookup c = some (p.mergedValue jt (r c) incoming c) := by
  unfold apply at h
  split at h
  · rename_i hcols
    rw [List.isEmpty_iff] at hcols
    cases h
    refine ⟨fun _ _ => rfl, ?_⟩
    simp [hcols]
  · cases cur with
    | none => cases h
    | some r =>
      cases h
      exact ⟨fun c hc => lookup_foldl_applyCol_of_not_mem p.cols obj hc,
        fun c hc => ⟨r, rfl, lookup_foldl_applyCol_of_mem p.cols obj hc⟩⟩

/-- The cell a protected column is written with. -/
lemma cellConfined_of_apply {s : Schema} {r : Row} {obj obj' : List (String × Json)}
    (h : p.apply jt (some r) obj = some obj') {c : String} (hc : c ∈ p.cols)
    (hstored : s.affinity c (r c) = r c) (hround : (r c).RoundTrips)
    (htext : p.keysOf c ≠ [] → s.IsText c) :
    CellConfined jt (p.keysOf c) (r c) (s.affinity c (boundValues jt obj' c)) := by
  obtain ⟨r', hr', incoming, hlookup⟩ := (apply_eq_some h).2 c hc
  obtain rfl : r = r' := by simpa using hr'
  unfold boundValues
  rw [hlookup]
  exact cellConfined_mergedValue jt p hstored hround htext incoming

end Protection

end Orca
