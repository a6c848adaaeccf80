import Orca.OpenApi.Normalize

/-!
# The JSON media type of a body

`jsonEntry` is the media type of a body that `keep_one_json_media_type` keeps, and `jsonOnly` is the
body with this media type alone.  It is what is left of a body in a bucket of several statuses, once
the others are collapsed and the contents that are no JSON are cleared (`stripNonJson_keepOne`).
-/

namespace Orca.OpenApi.Normalize

variable {c : Content} {e : String × MediaType} {schema : Json}

/-- What the generator takes for JSON is called so. -/
lemma containsText_of_isPlainJson {key : String} (h : isPlainJson key = true) :
    containsText key "json" = true := by
  unfold isPlainJson at h
  rw [Bool.or_eq_true, beq_iff_eq] at h
  rcases h with rfl | h
  · decide
  · have hstart : "application/json;".toList <+: key.toList := List.isPrefixOf_iff_prefix.mp h
    have hinside : "json".toList <:+: "application/json;".toList :=
      ⟨"application/".toList, ";".toList, by decide⟩
    exact containsText_iff.mpr (hinside.trans hstart.isInfix)

/-! ## The media type that is kept -/

/-- The media type of a body that is kept. -/
def jsonEntry (c : Content) : Option (String × MediaType) :=
  (c.rows.find? fun e => isPlainJson e.1).or (c.rows.find? fun e => containsText e.1 "json")

lemma jsonKey_eq (c : Content) : jsonKey c = (jsonEntry c).map Prod.fst := by
  unfold jsonKey jsonEntry
  dsimp only
  rw [List.find?_map, List.find?_map, Option.map_or]
  rfl

lemma mem_of_jsonEntry (h : jsonEntry c = some e) : e ∈ c.rows := by
  unfold jsonEntry at h
  rcases Option.or_eq_some_iff.mp h with h | ⟨-, h⟩
  · exact List.mem_of_find?_eq_some h
  · exact List.mem_of_find?_eq_some h

lemma json_of_jsonEntry (h : jsonEntry c = some e) : containsText e.1 "json" = true := by
  unfold jsonEntry at h
  rcases Option.or_eq_some_iff.mp h with h | ⟨-, h⟩
  · have hplain := List.find?_some h
    exact containsText_of_isPlainJson hplain
  · have hjson := List.find?_some h
    exact hjson

/-- A body without a media type to keep has no JSON. -/
lemma jsonEntry_eq_none_iff :
    jsonEntry c = none ↔ ∀ e ∈ c.rows, containsText e.1 "json" = false := by
  unfold jsonEntry
  rw [Option.or_eq_none_iff, List.find?_eq_none, List.find?_eq_none]
  constructor
  · rintro ⟨-, h⟩ e he
    exact eq_false_of_ne_true (h e he)
  · intro h
    refine ⟨fun e he hplain => ?_, fun e he hjson => ?_⟩
    · have hjson := containsText_of_isPlainJson hplain
      rw [h e he] at hjson
      cases hjson
    · rw [h e he] at hjson
      cases hjson

/-! ## A body after its collapse -/

/-- The rows with the key of a row. -/
lemma rows_filter_key (he : e ∈ c.rows) :
    (c.filter fun e' => e'.1 == e.1).rows = [e] := by
  have hall : ∀ e' ∈ (c.filter fun e' => e'.1 == e.1).rows, e' = e := by
    intro e' he'
    obtain ⟨hmem, hkey⟩ := List.mem_filter.mp he'
    exact c.eq_of_key hmem he (eq_of_beq hkey)
  have hmem : e ∈ (c.filter fun e' => e'.1 == e.1).rows :=
    List.mem_filter.mpr ⟨he, beq_self_eq_true _⟩
  have hnodup : (c.filter fun e' => e'.1 == e.1).rows.Nodup :=
    (c.filter fun e' => e'.1 == e.1).nodup.of_map
  generalize (c.filter fun e' => e'.1 == e.1).rows = rows at hall hmem hnodup
  match rows with
  | [] => cases hmem
  | [a] => rw [hall a List.mem_cons_self]
  | a :: b :: rest =>
    have hab : a = b :=
      (hall a List.mem_cons_self).trans (hall b (List.mem_cons_of_mem _ List.mem_cons_self)).symm
    rw [hab] at hnodup
    exact absurd List.mem_cons_self (List.nodup_cons.mp hnodup).1

/-- What is left of a body: the media type that is kept, or all of them. -/
lemma rows_keepOne (c : Content) : (keepOneJsonMediaType c).1.rows =
    match jsonEntry c with
    | some e => [e]
    | none => c.rows := by
  unfold keepOneJsonMediaType
  split
  · rename_i hlength
    cases hentry : jsonEntry c with
    | none => rfl
    | some e =>
      have hmem := mem_of_jsonEntry hentry
      match hrows : c.rows with
      | [] =>
        rw [hrows] at hmem
        cases hmem
      | [e'] =>
        rw [hrows] at hmem
        rw [List.mem_singleton.mp hmem]
      | _ :: _ :: rest =>
        rw [hrows] at hlength
        simp at hlength
  · rw [jsonKey_eq]
    cases hentry : jsonEntry c with
    | none => rfl
    | some e => exact rows_filter_key (mem_of_jsonEntry hentry)

/-- A body with at most one media type, or without JSON. -/
def Collapsed (c : Content) : Prop := ∀ e, jsonEntry c = some e → c.rows = [e]

/-- A body is collapsed after its collapse. -/
lemma collapsed_keepOne (c : Content) : Collapsed (keepOneJsonMediaType c).1 := by
  intro e' he'
  have hrows := rows_keepOne c
  cases hentry : jsonEntry c with
  | none =>
    rw [hentry] at hrows
    have hsame : (keepOneJsonMediaType c).1 = c := KeyedTable.eq_of_rows hrows
    rw [hsame, hentry] at he'
    cases he'
  | some e =>
    rw [hentry] at hrows
    have hmem := mem_of_jsonEntry he'
    rw [hrows] at hmem
    rw [hrows, List.mem_singleton.mp hmem]

/-- A collapsed body is left alone. -/
lemma keepOne_of_collapsed (h : Collapsed c) : keepOneJsonMediaType c = (c, none) := by
  unfold keepOneJsonMediaType
  split
  · rfl
  · rename_i hlength
    rw [jsonKey_eq]
    cases hentry : jsonEntry c with
    | none => rfl
    | some e =>
      rw [h e hentry] at hlength
      exact absurd (Nat.le_refl 1) hlength

lemma collapsed_of_length_le (h : c.rows.length ≤ 1) : Collapsed c := by
  intro e hentry
  have hmem := mem_of_jsonEntry hentry
  match hrows : c.rows with
  | [] =>
    rw [hrows] at hmem
    cases hmem
  | [e'] =>
    rw [hrows] at hmem
    rw [List.mem_singleton.mp hmem]
  | _ :: _ :: rest =>
    rw [hrows] at h
    simp at h

/-! ## The JSON alone -/

/-- A body with the media type that is kept and no other. -/
def jsonOnly (c : Content) : Content where
  rows := (jsonEntry c).toList
  nodup := by
    cases jsonEntry c with
    | none => exact List.nodup_nil
    | some e => exact List.nodup_singleton _

lemma rows_jsonOnly_of_some (h : jsonEntry c = some e) : (jsonOnly c).rows = [e] :=
  (congrArg Option.toList h :)

lemma rows_jsonOnly_of_none (h : jsonEntry c = none) : (jsonOnly c).rows = [] :=
  (congrArg Option.toList h :)

/-- The JSON alone is what is left of a body that is collapsed and stripped. -/
theorem stripNonJson_keepOne (c : Content) :
    stripNonJson (keepOneJsonMediaType c).1 = jsonOnly c := by
  have hrows := rows_keepOne c
  refine KeyedTable.eq_of_rows ?_
  unfold stripNonJson
  cases hentry : jsonEntry c with
  | none =>
    rw [hentry] at hrows
    rw [if_neg, rows_jsonOnly_of_none hentry]
    · rfl
    · rw [hrows, List.any_eq_true]
      rintro ⟨e, he, hjson⟩
      rw [jsonEntry_eq_none_iff.mp hentry e he] at hjson
      cases hjson
  | some e =>
    rw [hentry] at hrows
    rw [if_pos, rows_jsonOnly_of_some hentry]
    · exact hrows
    · rw [hrows, List.any_eq_true]
      exact ⟨e, List.mem_singleton_self e, json_of_jsonEntry hentry⟩

lemma stripNonJson_of_singleton (h : c.rows = [e]) (hjson : containsText e.1 "json" = true) :
    stripNonJson c = c := by
  unfold stripNonJson
  rw [if_pos]
  rw [h, List.any_eq_true]
  exact ⟨e, List.mem_singleton_self e, hjson⟩

lemma jsonSchema_of_singleton (h : c.rows = [e]) (hjson : containsText e.1 "json" = true) :
    jsonSchema c = e.2.schema := by
  unfold jsonSchema
  rw [h, List.find?_cons, hjson]
  rfl

/-! ## Setting the schema -/

/-- A body whose schema is set has the schema under `application/json`. -/
lemma mem_setJsonSchema (schema : Json) (c : Content) : ∃ mt : MediaType,
    ("application/json", mt) ∈ (setJsonSchema schema c).rows ∧ mt.schema = some schema := by
  unfold setJsonSchema
  rw [KeyedTable.rows_upsert]
  split
  · rename_i hkey
    obtain ⟨⟨key, mt⟩, hmem, hfst⟩ := List.mem_map.mp hkey
    obtain rfl : key = "application/json" := hfst
    refine ⟨{ mt with schema := some schema }, List.mem_map.mpr ⟨_, hmem, ?_⟩, rfl⟩
    rw [if_pos rfl]
  · exact ⟨_, List.mem_append_right _ (List.mem_singleton_self _), rfl⟩

lemma mem_setJsonSchema_of_ne (schema : Json) (he : e ∈ c.rows) (hkey : e.1 ≠ "application/json") :
    e ∈ (setJsonSchema schema c).rows := by
  unfold setJsonSchema
  rw [KeyedTable.rows_upsert]
  split
  · refine List.mem_map.mpr ⟨e, he, ?_⟩
    rw [if_neg hkey]
  · exact List.mem_append_left _ he

/-- Setting the schema of the JSON alone leaves one media type unless the JSON has another name. -/
lemma rows_setJsonSchema_jsonOnly
    (h : ∀ e, jsonEntry c = some e → e.1 = "application/json") :
    (setJsonSchema schema (jsonOnly c)).rows =
      [("application/json", { schema := some schema })] := by
  unfold setJsonSchema
  rw [KeyedTable.rows_upsert]
  cases hentry : jsonEntry c with
  | none =>
    rw [rows_jsonOnly_of_none hentry]
    rfl
  | some e =>
    obtain ⟨key, mt⟩ := e
    obtain rfl : key = "application/json" := h _ hentry
    rw [rows_jsonOnly_of_some hentry, if_pos (by simp)]
    rfl

/-- If setting the schema of the JSON alone leaves one media type, then the JSON has its plain
name, and the schema is the one that is set. -/
lemma setJsonSchema_singleton (h : (setJsonSchema schema (jsonOnly c)).rows = [e]) :
    (∀ e', jsonEntry c = some e' → e'.1 = "application/json") ∧
      e = ("application/json", { schema := some schema }) := by
  have hnames : ∀ e', jsonEntry c = some e' → e'.1 = "application/json" := by
    intro e' he'
    by_contra hkey
    have hmem : e' ∈ (jsonOnly c).rows := by
      rw [rows_jsonOnly_of_some he']
      exact List.mem_singleton_self e'
    have hkept := mem_setJsonSchema_of_ne schema hmem hkey
    obtain ⟨mt, hset, -⟩ := mem_setJsonSchema schema (jsonOnly c)
    rw [h, List.mem_singleton] at hkept hset
    rw [hkept, ← hset] at hkey
    exact hkey rfl
  refine ⟨hnames, ?_⟩
  rw [rows_setJsonSchema_jsonOnly hnames] at h
  exact (List.singleton_inj.mp h).symm

/-! ## Bodies of JSON -/

/-- All media types of a body are JSON. -/
def AllJson (c : Content) : Prop := ∀ e ∈ c.rows, containsText e.1 "json" = true

lemma allJson_jsonOnly (c : Content) : AllJson (jsonOnly c) := fun _ he =>
  json_of_jsonEntry (Option.mem_toList.mp he)

lemma AllJson.strip (h : AllJson c) : AllJson (stripNonJson c) := by
  unfold stripNonJson
  split
  · exact h
  · exact fun e he => absurd he List.not_mem_nil

/-- A body of JSON is still one when its schema is set. -/
lemma AllJson.set (h : AllJson c) (schema : Json) : AllJson (setJsonSchema schema c) := by
  intro e he
  unfold setJsonSchema at he
  rw [KeyedTable.rows_upsert] at he
  split at he
  · obtain ⟨e', he', rfl⟩ := List.mem_map.mp he
    split
    · exact h e' he'
    · exact h e' he'
  · rcases List.mem_append.mp he with he | he
    · exact h e he
    · rw [List.mem_singleton.mp he]
      exact (by decide : containsText "application/json" "json" = true)

end Orca.OpenApi.Normalize
