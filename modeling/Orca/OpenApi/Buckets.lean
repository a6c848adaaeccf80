import Orca.OpenApi.JsonBodies

/-!
# Merging the bodies of a bucket

The bodies of a bucket of several statuses are merged when their schemas differ: each is given the
union of them.  `Uniform` is what the generator needs, one media type for each body and one schema
for all of them, and `uniform_mergeBody_iff` says when a merge achieves it.

The response of every other status is in two buckets, and the second merge can undo the first:
`uniform_mergeBody_twice_iff` is the condition for two merges with one body in common.  The
argument for it is that a union is none of its own variants.
-/

namespace Orca.OpenApi.Normalize

variable {cs : List Content} {c : Content} {schema : Json}

/-! ## Variants -/

/-- What is pushed is there, and what was there still is. -/
lemma mem_foldl_pushDistinct {l out : List Json} :
    schema ∈ l.foldl pushDistinct out ↔ schema ∈ out ∨ schema ∈ l := by
  induction l generalizing out with
  | nil => simp
  | cons s l ih =>
    rw [List.foldl_cons, ih]
    unfold pushDistinct
    split
    · rename_i hmem
      rw [List.mem_cons]
      constructor
      · exact fun h => h.imp id Or.inr
      · rintro (h | rfl | h)
        · exact Or.inl h
        · exact Or.inl hmem
        · exact Or.inr h
    · rw [List.mem_append, List.mem_singleton, List.mem_cons, or_assoc]

lemma nodup_pushDistinct {out : List Json} (h : out.Nodup) : (pushDistinct out schema).Nodup := by
  unfold pushDistinct
  split
  · exact h
  · rename_i hnot
    refine List.nodup_append.mpr ⟨h, List.nodup_singleton _, fun s hs s' hs' heq => hnot ?_⟩
    rw [← List.mem_singleton.mp hs', ← heq]
    exact hs

lemma nodup_foldl_pushDistinct {l out : List Json} (h : out.Nodup) :
    (l.foldl pushDistinct out).Nodup := by
  induction l generalizing out with
  | nil => exact h
  | cons s l ih => exact ih (nodup_pushDistinct h)

/-- The variants are the schemas of the bodies, and the null schema if one has none. -/
lemma mem_collectVariants : schema ∈ collectVariants cs ↔
    (∃ c ∈ cs, jsonSchema c = some schema) ∨
      (schema = nullSchema ∧ ∃ c ∈ cs, jsonSchema c = none) := by
  have hsome : schema ∈ (cs.filterMap jsonSchema).foldl pushDistinct [] ↔
      ∃ c ∈ cs, jsonSchema c = some schema := by
    rw [mem_foldl_pushDistinct, List.mem_filterMap]
    simp
  unfold collectVariants
  dsimp only
  split
  · rename_i hany
    have hempty : ∃ c ∈ cs, jsonSchema c = none := by
      obtain ⟨c, hc, hnone⟩ := List.any_eq_true.mp hany
      exact ⟨c, hc, Option.isNone_iff_eq_none.mp hnone⟩
    have hpush : ∀ out : List Json, schema ∈ pushDistinct out nullSchema ↔
        schema ∈ out ∨ schema = nullSchema := by
      intro out
      have hone : schema ∈ [nullSchema].foldl pushDistinct out ↔
          schema ∈ out ∨ schema ∈ [nullSchema] := mem_foldl_pushDistinct
      rw [List.mem_singleton] at hone
      exact hone
    rw [hpush, hsome]
    exact or_congr_right (iff_of_eq (by simp [hempty]))
  · rename_i hany
    rw [hsome]
    constructor
    · exact Or.inl
    · rintro (h | ⟨-, c, hc, hnone⟩)
      · exact h
      · exact absurd (List.any_eq_true.mpr ⟨c, hc, Option.isNone_iff_eq_none.mpr hnone⟩) hany

lemma nodup_collectVariants (cs : List Content) : (collectVariants cs).Nodup := by
  unfold collectVariants
  dsimp only
  split
  · exact nodup_pushDistinct (nodup_foldl_pushDistinct List.nodup_nil)
  · exact nodup_foldl_pushDistinct List.nodup_nil

/-- There is at most one variant if and only if all variants are one. -/
lemma length_collectVariants_le_one_iff : (collectVariants cs).length ≤ 1 ↔
    ∀ s ∈ collectVariants cs, ∀ s' ∈ collectVariants cs, s = s' := by
  have hnodup := nodup_collectVariants cs
  match hvariants : collectVariants cs with
  | [] => simp
  | [s] => simp
  | s :: s' :: rest =>
    rw [hvariants] at hnodup
    refine iff_of_false (by simp) fun h => ?_
    have heq := h s List.mem_cons_self s' (List.mem_cons_of_mem _ List.mem_cons_self)
    rw [heq] at hnodup
    exact (List.nodup_cons.mp hnodup).1 List.mem_cons_self

lemma unionSchema_not_mem (variants : List Json) : unionSchema variants ∉ variants := by
  intro h
  have hsize := List.sizeOf_lt_of_mem h
  unfold unionSchema at hsize
  simp at hsize
  omega

lemma unionSchema_ne_nullSchema (variants : List Json) : unionSchema variants ≠ nullSchema := by
  intro h
  unfold unionSchema nullSchema at h
  simp at h

/-! ## What the generator needs -/

/-- Each body has one media type, which is JSON, and all have one schema. -/
def Uniform (cs : List Content) : Prop :=
  ∃ schema : Option Json, ∀ c ∈ cs, ∃ key, containsText key "json" = true ∧
    c.rows = [(key, { schema := schema })]

/-- The bodies that are not empty have one JSON schema. -/
def Agree (cs : List Content) : Prop :=
  ∀ c ∈ cs, ∀ c' ∈ cs, c.rows ≠ [] → c'.rows ≠ [] → jsonSchema c = jsonSchema c'

/-- Bodies of JSON are uniform if and only if they have one media type each and agree. -/
lemma uniform_iff (hjson : ∀ c ∈ cs, AllJson c) :
    Uniform cs ↔ Agree cs ∧ ∀ c ∈ cs, c.rows.length = 1 := by
  constructor
  · rintro ⟨schema, h⟩
    have hschema : ∀ c ∈ cs, jsonSchema c = schema := by
      intro c hc
      obtain ⟨key, hkey, hrows⟩ := h c hc
      exact jsonSchema_of_singleton hrows hkey
    refine ⟨fun c hc c' hc' _ _ => (hschema c hc).trans (hschema c' hc').symm, fun c hc => ?_⟩
    obtain ⟨key, -, hrows⟩ := h c hc
    rw [hrows]
    rfl
  · rintro ⟨hagree, hone⟩
    have hrows : ∀ c ∈ cs, ∃ e, c.rows = [e] := fun c hc => List.length_eq_one_iff.mp (hone c hc)
    match cs with
    | [] => exact ⟨none, fun c hc => absurd hc List.not_mem_nil⟩
    | first :: rest =>
      refine ⟨jsonSchema first, fun c hc => ?_⟩
      obtain ⟨⟨key, ⟨schema⟩⟩, he⟩ := hrows c hc
      have hfull : c.rows ≠ [] := by
        rw [he]
        exact List.cons_ne_nil _ _
      have hfirst : first.rows ≠ [] := by
        obtain ⟨e, hrow⟩ := hrows first List.mem_cons_self
        rw [hrow]
        exact List.cons_ne_nil _ _
      have hkey : containsText key "json" = true := by
        refine hjson c hc (key, ⟨schema⟩) ?_
        rw [he]
        exact List.mem_singleton_self _
      have hschema : jsonSchema c = schema := jsonSchema_of_singleton he hkey
      refine ⟨key, hkey, ?_⟩
      rw [he, ← hagree c hc first List.mem_cons_self hfull hfirst, hschema]

/-- Uniform bodies have at most one variant. -/
lemma length_collectVariants_of_uniform (h : Uniform cs) : (collectVariants cs).length ≤ 1 := by
  obtain ⟨schema, h⟩ := h
  have hschema : ∀ c ∈ cs, jsonSchema c = schema := by
    intro c hc
    obtain ⟨key, hkey, hrows⟩ := h c hc
    exact jsonSchema_of_singleton hrows hkey
  have hvariant : ∀ s ∈ collectVariants cs, s = schema.getD nullSchema := by
    intro s hs
    rcases mem_collectVariants.mp hs with ⟨c, hc, hsome⟩ | ⟨rfl, c, hc, hnone⟩
    · rw [← hschema c hc, hsome]
      rfl
    · rw [← hschema c hc, hnone]
      rfl
  exact length_collectVariants_le_one_iff.mpr fun s hs s' hs' =>
    (hvariant s hs).trans (hvariant s' hs').symm

lemma stripNonJson_of_uniform (h : Uniform cs) (hc : c ∈ cs) : stripNonJson c = c := by
  obtain ⟨schema, h⟩ := h
  obtain ⟨key, hkey, hrows⟩ := h c hc
  exact stripNonJson_of_singleton hrows hkey

/-! ## One merge -/

/-- What a merge of some bodies makes of one of them. -/
def mergeBody (cs : List Content) (c : Content) : Content :=
  let variants := collectVariants (cs.map stripNonJson)
  if variants.length ≤ 1 then stripNonJson c
  else setJsonSchema (unionSchema variants) (stripNonJson c)

/-- The body that is left of a body by a collapse. -/
def keepOne (c : Content) : Content := (keepOneJsonMediaType c).1

/-- The variants of the JSON of some bodies. -/
def jsonVariants (cs : List Content) : List Json := collectVariants (cs.map jsonOnly)

/-- All bodies have JSON with one schema. -/
def Settled (cs : List Content) : Prop :=
  ∃ schema : Option Json, ∀ c ∈ cs, ∃ key, jsonEntry c = some (key, { schema := schema })

/-- The bodies have different schemas, and none has JSON under another name than the plain one. -/
def Mergeable (cs : List Content) : Prop :=
  1 < (jsonVariants cs).length ∧ ∀ c ∈ cs, ∀ e, jsonEntry c = some e → e.1 = "application/json"

/-- Bodies are settled if and only if their JSON is uniform. -/
lemma settled_iff (cs : List Content) : Settled cs ↔ Uniform (cs.map jsonOnly) := by
  unfold Settled Uniform
  refine exists_congr fun schema => ?_
  rw [List.forall_mem_map]
  refine forall₂_congr fun c _ => exists_congr fun key => ?_
  constructor
  · intro h
    exact ⟨json_of_jsonEntry h, rows_jsonOnly_of_some h⟩
  · rintro ⟨-, h⟩
    have hentry : (jsonEntry c).toList = [(key, { schema := schema })] := h
    rw [Option.toList_eq_singleton_iff] at hentry
    exact hentry

/-- A merge of collapsed bodies, in terms of their JSON. -/
lemma mergeBody_keepOne (cs : List Content) (c : Content) :
    mergeBody (cs.map keepOne) (keepOne c) =
      if (jsonVariants cs).length ≤ 1 then jsonOnly c
      else setJsonSchema (unionSchema (jsonVariants cs)) (jsonOnly c) := by
  have hstrip : ∀ c, stripNonJson (keepOne c) = jsonOnly c := stripNonJson_keepOne
  have hmap : (cs.map keepOne).map stripNonJson = cs.map jsonOnly := by
    rw [List.map_map]
    exact List.map_congr_left fun c _ => hstrip c
  unfold mergeBody jsonVariants
  rw [hmap, hstrip]

/-- A merge makes collapsed bodies uniform if and only if they were settled or are mergeable. -/
theorem uniform_mergeBody_iff (cs : List Content) :
    Uniform (cs.map fun c => mergeBody (cs.map keepOne) (keepOne c)) ↔ Settled cs ∨
      Mergeable cs := by
  simp only [mergeBody_keepOne]
  by_cases hvariants : (jsonVariants cs).length ≤ 1
  · have hnot : ¬ Mergeable cs := fun h => absurd h.1 (Nat.not_lt.mpr hvariants)
    simp only [if_pos hvariants, hnot, or_false]
    exact (settled_iff cs).symm
  · have hnot : ¬ Settled cs := fun h =>
      hvariants (length_collectVariants_of_uniform ((settled_iff _).mp h))
    simp only [if_neg hvariants, hnot, false_or]
    constructor
    · rintro ⟨schema, h⟩
      refine ⟨Nat.not_le.mp hvariants, fun c hc => ?_⟩
      obtain ⟨key, -, hrows⟩ := h _ (List.mem_map_of_mem hc)
      exact (setJsonSchema_singleton hrows).1
    · rintro ⟨-, hnames⟩
      refine ⟨some (unionSchema (jsonVariants cs)), ?_⟩
      rw [List.forall_mem_map]
      exact fun c hc => ⟨"application/json", by decide, rows_setJsonSchema_jsonOnly (hnames c hc)⟩

/-! ## Two merges -/

/-- The JSON alone is not stripped. -/
lemma stripNonJson_jsonOnly (c : Content) : stripNonJson (jsonOnly c) = jsonOnly c := by
  cases hentry : jsonEntry c with
  | none =>
    refine KeyedTable.eq_of_rows ?_
    unfold stripNonJson
    rw [if_neg, rows_jsonOnly_of_none hentry]
    · rfl
    · rw [rows_jsonOnly_of_none hentry]
      exact Bool.false_ne_true
  | some e =>
    exact stripNonJson_of_singleton (rows_jsonOnly_of_some hentry) (json_of_jsonEntry hentry)

lemma stripNonJson_setJsonSchema (schema : Json) (c : Content) :
    stripNonJson (setJsonSchema schema c) = setJsonSchema schema c := by
  obtain ⟨mt, hmem, -⟩ := mem_setJsonSchema schema c
  unfold stripNonJson
  rw [if_pos]
  rw [List.any_eq_true]
  exact ⟨_, hmem, (by decide : containsText "application/json" "json" = true)⟩

lemma stripNonJson_mergeBody (cs : List Content) (c : Content) :
    stripNonJson (mergeBody (cs.map keepOne) (keepOne c)) =
      mergeBody (cs.map keepOne) (keepOne c) := by
  rw [mergeBody_keepOne]
  split
  · exact stripNonJson_jsonOnly c
  · exact stripNonJson_setJsonSchema _ _

lemma allJson_mergeBody (cs : List Content) (h : AllJson (stripNonJson c)) :
    AllJson (mergeBody cs c) := by
  unfold mergeBody
  dsimp only
  split
  · exact h
  · exact h.set _

/-- The schema of a body whose media types all have the plain name of JSON. -/
lemma jsonSchema_of_names {mt : MediaType} (hnames : ∀ e ∈ c.rows, e.1 = "application/json")
    (hmem : ("application/json", mt) ∈ c.rows) : jsonSchema c = mt.schema := by
  have hall : ∀ e ∈ c.rows, e = ("application/json", mt) :=
    fun e he => c.eq_of_key he hmem (hnames e he)
  unfold jsonSchema
  cases hfind : c.rows.find? fun e => containsText e.1 "json" with
  | none =>
    have hjson := List.find?_eq_none.mp hfind _ hmem
    exact absurd (by decide : containsText "application/json" "json" = true) hjson
  | some e =>
    rw [hall e (List.mem_of_find?_eq_some hfind)]
    rfl

/-- If setting the schema of a body leaves one media type, then all its media types have the plain
name of JSON. -/
lemma names_of_setJsonSchema {e : String × MediaType} (h : (setJsonSchema schema c).rows = [e]) :
    ∀ e' ∈ c.rows, e'.1 = "application/json" := by
  intro e' he'
  by_contra hkey
  have hkept := mem_setJsonSchema_of_ne schema he' hkey
  obtain ⟨mt, hset, -⟩ := mem_setJsonSchema schema c
  rw [h, List.mem_singleton] at hkept hset
  rw [hkept, ← hset] at hkey
  exact hkey rfl

section Twice

variable {as bs : List Content} {d : Content}

/-- If a body that two merges share ends up with the union of the second merge and agrees with a
body of the first merge, then it had this union before the second merge. -/
lemma jsonSchema_shared {a : Content} {schema' : Option Json} {key key' : String} (ha : a ∈ as)
    (hbody : (mergeBody ((as ++ [d]).map keepOne) (keepOne a)).rows =
      [(key, { schema := schema' })])
    (hshared : (setJsonSchema schema (mergeBody ((as ++ [d]).map keepOne) (keepOne d))).rows =
      [(key', { schema := schema' })]) (hunion : schema ≠ nullSchema) :
    jsonSchema (mergeBody ((as ++ [d]).map keepOne) (keepOne d)) = some schema := by
  have hnames := names_of_setJsonSchema hshared
  have hset : schema' = some schema := by
    obtain ⟨mt, hmem, hmt⟩ := mem_setJsonSchema schema
      (mergeBody ((as ++ [d]).map keepOne) (keepOne d))
    rw [hshared, List.mem_singleton] at hmem
    have hsame : mt = { schema := schema' } := (Prod.mk.inj hmem).2
    rw [hsame] at hmt
    exact hmt
  subst hset
  rw [mergeBody_keepOne] at hbody hnames ⊢
  by_cases hvariants : (jsonVariants (as ++ [d])).length ≤ 1
  · -- nothing was merged, so the shared body has the schema of the other one or none
    rw [if_pos hvariants] at hbody ⊢
    have hone := length_collectVariants_le_one_iff.mp hvariants
    have hkey : containsText key "json" = true := by
      refine allJson_jsonOnly a (key, { schema := some schema }) ?_
      rw [hbody]
      exact List.mem_singleton_self _
    have hin : schema ∈ jsonVariants (as ++ [d]) :=
      mem_collectVariants.mpr (Or.inl ⟨jsonOnly a, List.mem_map_of_mem (List.mem_append_left _ ha),
        jsonSchema_of_singleton hbody hkey⟩)
    have hd : jsonOnly d ∈ (as ++ [d]).map jsonOnly :=
      List.mem_map_of_mem (List.mem_append_right _ (List.mem_singleton_self d))
    cases hschema : jsonSchema (jsonOnly d) with
    | none =>
      have hnull : nullSchema ∈ jsonVariants (as ++ [d]) :=
        mem_collectVariants.mpr (Or.inr ⟨rfl, jsonOnly d, hd, hschema⟩)
      exact absurd (hone _ hin _ hnull) hunion
    | some s =>
      have hs : s ∈ jsonVariants (as ++ [d]) :=
        mem_collectVariants.mpr (Or.inl ⟨jsonOnly d, hd, hschema⟩)
      rw [hone _ hs _ hin]
  · -- the first merge gave both the same union
    rw [if_neg hvariants] at hbody hnames ⊢
    have hfirst := (setJsonSchema_singleton hbody).2
    have hsame : some schema = some (unionSchema (jsonVariants (as ++ [d]))) :=
      congrArg MediaType.schema (Prod.mk.inj hfirst).2
    obtain ⟨mt, hmem, hmt⟩ := mem_setJsonSchema
      (unionSchema (jsonVariants (as ++ [d]))) (jsonOnly d)
    rw [jsonSchema_of_names hnames hmem, hmt, hsame]

/-- When the JSON of some bodies is uniform with the merge of a body that is shared. -/
lemma uniform_shared_iff :
    ((Settled (as ++ [d]) ∨ Mergeable (as ++ [d])) ∧
        Uniform (bs.map jsonOnly ++ [mergeBody ((as ++ [d]).map keepOne) (keepOne d)])) ↔
      (Settled (as ++ [d]) ∧ Settled (bs ++ [d])) ∨
        (Mergeable (as ++ [d]) ∧ ∀ b ∈ bs, ∃ key, jsonEntry b =
          some (key, { schema := some (unionSchema (jsonVariants (as ++ [d]))) })) := by
  rw [mergeBody_keepOne]
  by_cases hvariants : (jsonVariants (as ++ [d])).length ≤ 1
  · have hnot : ¬ Mergeable (as ++ [d]) := fun h => absurd h.1 (Nat.not_lt.mpr hvariants)
    rw [if_pos hvariants, settled_iff (bs ++ [d]), List.map_append, List.map_singleton]
    simp only [hnot, or_false, false_and]
  · have hnot : ¬ Settled (as ++ [d]) := fun h =>
      hvariants (length_collectVariants_of_uniform ((settled_iff _).mp h))
    rw [if_neg hvariants]
    simp only [hnot, false_or, false_and]
    refine and_congr_right fun hmergeable => ?_
    have hrows : (setJsonSchema (unionSchema (jsonVariants (as ++ [d]))) (jsonOnly d)).rows =
        [("application/json", { schema := some (unionSchema (jsonVariants (as ++ [d]))) })] :=
      rows_setJsonSchema_jsonOnly
        (hmergeable.2 d (List.mem_append_right _ (List.mem_singleton_self d)))
    constructor
    · rintro ⟨schema, h⟩ b hb
      obtain ⟨key, -, hkey⟩ := h _ (List.mem_append_right _ (List.mem_singleton_self _))
      obtain ⟨key', -, hkey'⟩ := h _ (List.mem_append_left _ (List.mem_map_of_mem hb))
      rw [hrows] at hkey
      have hschema : some (unionSchema (jsonVariants (as ++ [d]))) = schema :=
        congrArg MediaType.schema (Prod.mk.inj (List.singleton_inj.mp hkey)).2
      rw [hschema]
      exact ⟨key', Option.toList_eq_singleton_iff.mp hkey'⟩
    · intro h
      refine ⟨some (unionSchema (jsonVariants (as ++ [d]))), fun c hc => ?_⟩
      rcases List.mem_append.mp hc with hc | hc
      · obtain ⟨b, hb, rfl⟩ := List.mem_map.mp hc
        obtain ⟨key, hentry⟩ := h b hb
        exact ⟨key, json_of_jsonEntry hentry, rows_jsonOnly_of_some hentry⟩
      · rw [List.mem_singleton.mp hc]
        exact ⟨"application/json", by decide, hrows⟩

/-- Two merges with one body in common make the bodies of both uniform if and only if all were
settled, or the first ones are mergeable and the others have the union of the first ones already. -/
theorem uniform_mergeBody_twice_iff (bs : List Content) (d : Content) (has : as ≠ [])
    {firsts seconds : List Content}
    {shared : Content} (hfirsts : firsts = as ++ [d])
    (hshared : shared = mergeBody (firsts.map keepOne) (keepOne d))
    (hseconds : seconds = bs.map keepOne ++ [shared]) :
    (Uniform (as.map (fun a => mergeBody (firsts.map keepOne) (keepOne a)) ++
          [mergeBody seconds shared]) ∧
        Uniform (bs.map (fun b => mergeBody seconds (keepOne b)) ++ [mergeBody seconds shared])) ↔
      (Settled (as ++ [d]) ∧ Settled (bs ++ [d])) ∨
        (Mergeable (as ++ [d]) ∧ ∀ b ∈ bs, ∃ key, jsonEntry b =
          some (key, { schema := some (unionSchema (jsonVariants (as ++ [d]))) })) := by
  subst hfirsts
  have hkept : ∀ b, stripNonJson (keepOne b) = jsonOnly b := stripNonJson_keepOne
  have hstrip : stripNonJson shared = shared := by
    rw [hshared]
    exact stripNonJson_mergeBody _ _
  have hstripped : seconds.map stripNonJson = bs.map jsonOnly ++ [shared] := by
    rw [hseconds, List.map_append, List.map_map, List.map_singleton, hstrip]
    exact congrArg (· ++ [shared]) (List.map_congr_left fun b _ => hkept b)
  have hfirst := uniform_mergeBody_iff (as ++ [d])
  rw [List.map_append, List.map_singleton, ← hshared] at hfirst
  rw [← uniform_shared_iff, ← hshared]
  by_cases hvariants : (collectVariants (seconds.map stripNonJson)).length ≤ 1
  · -- the second merge changes no schema
    have hsecond : ∀ c, mergeBody seconds c = stripNonJson c := fun c => if_pos hvariants
    simp only [hsecond, hstrip, hkept]
    exact and_congr_left fun _ => hfirst
  · -- the second merge has a union of its own, which no body of the first one can have
    have hsecond : ∀ c, mergeBody seconds c =
        setJsonSchema (unionSchema (collectVariants (seconds.map stripNonJson))) (stripNonJson c) :=
      fun c => if_neg hvariants
    refine iff_of_false ?_ fun h => hvariants ?_
    · rintro ⟨⟨schema, h⟩, -⟩
      obtain ⟨a, ha⟩ := List.exists_mem_of_ne_nil as has
      obtain ⟨key, -, hbody⟩ := h _ (List.mem_append_left _ (List.mem_map_of_mem ha))
      obtain ⟨key', -, hlast⟩ := h _ (List.mem_append_right _ (List.mem_singleton_self _))
      rw [hsecond, hstrip, hshared] at hlast
      have hunion := jsonSchema_shared ha hbody hlast (unionSchema_ne_nullSchema _)
      rw [← hshared] at hunion
      refine unionSchema_not_mem _ (mem_collectVariants.mpr (Or.inl ⟨shared, ?_, hunion⟩))
      rw [hstripped]
      exact List.mem_append_right _ (List.mem_singleton_self _)
    · rw [hstripped]
      exact length_collectVariants_of_uniform h.2

end Twice

/-! ## The buckets of an operation -/

/-- What a merge of some bodies makes of one of them, if there are several. -/
def mergeAll (cs : List Content) (c : Content) : Content :=
  if cs.length ≤ 1 then c else mergeBody cs c

/-- The bodies of a bucket are one, or settled, or mergeable. -/
def Unifiable (cs : List Content) : Prop := cs.length ≤ 1 ∨ Settled cs ∨ Mergeable cs

/-- When the bodies of the success responses, of the error responses and of the response that is in
both buckets come out uniform. -/
def UnifiableTogether (as bs ds : List Content) : Prop :=
  (as = [] ∨ bs = [] ∨ ds = []) ∧ Unifiable (as ++ ds) ∧ Unifiable (bs ++ ds) ∨
    (as ≠ [] ∧ bs ≠ [] ∧ ds ≠ []) ∧ (Settled (as ++ ds) ∧ Settled (bs ++ ds) ∨
      Mergeable (as ++ ds) ∧ ∀ b ∈ bs, ∃ key, jsonEntry b =
        some (key, { schema := some (unionSchema (jsonVariants (as ++ ds))) }))

/-- One merge makes the bodies of a bucket uniform if and only if they are unifiable. -/
lemma uniform_mergeAll_iff (cs : List Content) :
    (cs.length ≤ 1 ∨ Uniform (cs.map fun c => mergeAll (cs.map keepOne) (keepOne c))) ↔
      Unifiable cs := by
  unfold Unifiable
  by_cases hlength : cs.length ≤ 1
  · exact iff_of_true (Or.inl hlength) (Or.inl hlength)
  · have hmerge : ∀ c, mergeAll (cs.map keepOne) c = mergeBody (cs.map keepOne) c := by
      intro c
      unfold mergeAll
      rw [List.length_map, if_neg hlength]
    simp only [hmerge, uniform_mergeBody_iff]

/-- The merge of the success responses and then of the error responses makes the bodies of both
buckets uniform if and only if they are unifiable together. -/
theorem uniform_mergeAll_twice_iff {as bs ds ds' firsts seconds : List Content}
    (hds : ds.length ≤ 1) (hfirsts : firsts = (as ++ ds).map keepOne)
    (hds' : ds' = ds.map fun d => mergeAll firsts (keepOne d))
    (hseconds : seconds = bs.map keepOne ++ ds') :
    ((as.length + ds.length ≤ 1 ∨
          Uniform (as.map (fun a => mergeAll firsts (keepOne a)) ++ ds'.map (mergeAll seconds))) ∧
        (bs.length + ds.length ≤ 1 ∨
          Uniform (bs.map (fun b => mergeAll seconds (keepOne b)) ++
            ds'.map (mergeAll seconds)))) ↔ UnifiableTogether as bs ds := by
  have hone : ∀ cs : List Content, cs.length ≤ 1 → ∀ c, mergeAll cs c = c :=
    fun cs hcs c => if_pos hcs
  have hseveral : ∀ cs : List Content, ¬ cs.length ≤ 1 → ∀ c, mergeAll cs c = mergeBody cs c :=
    fun cs hcs c => if_neg hcs
  have hempty : (as = [] ∨ bs = [] ∨ ds = []) →
      (UnifiableTogether as bs ds ↔ Unifiable (as ++ ds) ∧ Unifiable (bs ++ ds)) := by
    intro h
    unfold UnifiableTogether
    have hnot : ¬ (as ≠ [] ∧ bs ≠ [] ∧ ds ≠ []) := by tauto
    simp only [h, hnot, true_and, false_and, or_false]
  match ds with
  | [] =>
    -- the buckets have nothing in common
    rw [hempty (Or.inr (Or.inr rfl))]
    subst hds'
    rw [List.append_nil] at hfirsts
    simp only [List.map_nil, List.append_nil, List.length_nil, Nat.add_zero] at hseconds ⊢
    subst hfirsts hseconds
    rw [uniform_mergeAll_iff, uniform_mergeAll_iff]
  | [d] =>
    by_cases has : as = []
    · -- the first merge has one body only
      subst has
      have hd : ds' = [keepOne d] := by
        rw [hds', List.map_singleton, hone firsts]
        rw [hfirsts]
        exact Nat.le_refl 1
      have hseconds' : seconds = (bs ++ [d]).map keepOne := by
        rw [hseconds, hd, List.map_append, List.map_singleton]
      have hright := uniform_mergeAll_iff (bs ++ [d])
      rw [← hseconds', List.length_append, List.map_append] at hright
      rw [hempty (Or.inl rfl), hd]
      exact ⟨fun h => ⟨Or.inl (Nat.le_refl 1), hright.mp h.2⟩,
        fun h => ⟨Or.inl (Nat.le_refl 1), hright.mpr h.2⟩⟩
    · by_cases hbs : bs = []
      · -- the second merge has one body only
        subst hbs
        have hsecond : ∀ c, mergeAll seconds c = c := by
          refine hone seconds ?_
          rw [hseconds, hds']
          exact Nat.le_refl 1
        have hleft := uniform_mergeAll_iff (as ++ [d])
        rw [← hfirsts, List.length_append, List.map_append] at hleft
        rw [hempty (Or.inr (Or.inl rfl)), hds', List.map_congr_left fun c _ => hsecond c,
          List.map_id']
        exact ⟨fun h => ⟨hleft.mp h.1, Or.inl (Nat.le_refl 1)⟩,
          fun h => ⟨hleft.mpr h.1, Or.inl (Nat.le_refl 1)⟩⟩
      · -- both buckets have several bodies, one of them in common
        have hcount : 0 < as.length := List.length_pos_of_ne_nil has
        have hcount' : 0 < bs.length := List.length_pos_of_ne_nil hbs
        have hfirst : ∀ c, mergeAll firsts c = mergeBody firsts c := by
          refine hseveral firsts ?_
          rw [hfirsts, List.length_map, List.length_append, List.length_singleton]
          omega
        have hsecond : ∀ c, mergeAll seconds c = mergeBody seconds c := by
          refine hseveral seconds ?_
          rw [hseconds, hds', List.length_append, List.length_map, List.length_map,
            List.length_singleton]
          omega
        have hd : ds' = [mergeBody firsts (keepOne d)] := by
          rw [hds', List.map_singleton, hfirst]
        have htwice := uniform_mergeBody_twice_iff bs d has rfl rfl rfl
        rw [← hfirsts, ← hd, ← hseconds] at htwice
        have hlarge : ¬ as.length + [d].length ≤ 1 := by
          rw [List.length_singleton]
          omega
        have hlarge' : ¬ bs.length + [d].length ≤ 1 := by
          rw [List.length_singleton]
          omega
        unfold UnifiableTogether
        rw [← htwice, hd, List.map_singleton, hsecond, or_iff_right hlarge, or_iff_right hlarge']
        simp only [has, hbs, List.cons_ne_nil, false_and, false_or, hfirst, hsecond, or_self, ne_eq,
          not_false_eq_true, true_and]
  | _ :: _ :: _ => simp at hds

end Orca.OpenApi.Normalize
