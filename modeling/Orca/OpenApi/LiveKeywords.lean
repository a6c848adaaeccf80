import Orca.OpenApi.Places

/-!
# The keywords that the lowering acts on

An object without any of them stays as it is (`lowered_eq_self`), and an object with one of them is
not lowered (`lowered_eq_none_iff`) or comes out with a difference that the rest of the walk cannot
hide (`lowered_differs`).
-/

namespace Orca.OpenApi

variable {m m' : JsonMap} {k : String}

/-! ## The keywords that the rules act on -/

/-- An object with a keyword that has no equivalent in 3.0. -/
def UsesUnsupported (m : JsonMap) : Prop := ∃ kw ∈ unsupportedKeywords, (m.lookup kw).isSome

/-- An object with a type array that is no single type, with or without null. -/
def HasTypeUnion (m : JsonMap) : Prop :=
  ∃ types, m.lookup "type" = some (.array types) ∧
    if types.any isNullName then (types.filter fun t => !isNullName t).length ≠ 1
    else 1 < types.length

/-- The keywords that the lowering drops, whatever their value. -/
def droppedKeywords : List String := ["$schema", "contentMediaType", "contentEncoding", "const"]

/-- An object with a keyword that the lowering acts on. -/
def Live (m : JsonMap) : Prop :=
  UsesUnsupported m ∨ (∃ kw ∈ droppedKeywords, (m.lookup kw).isSome) ∨
    (∃ t rest, m.lookup "type" = some (.array (t :: rest))) ∨
    (∃ kw ∈ ["exclusiveMinimum", "exclusiveMaximum"], ∃ x, m.lookup kw = some (.number x)) ∨
    ∃ elems, m.lookup "examples" = some (.array elems)

/-- The first rule fails on an unsupported keyword, and on nothing else. -/
lemma checkKeywords_eq_ok_iff (pointer : String) :
    checkKeywords pointer m = .ok () ↔ ¬ UsesUnsupported m := by
  unfold checkKeywords UsesUnsupported
  cases hfind : unsupportedKeywords.find? fun kw => (m.lookup kw).isSome with
  | none =>
    refine iff_of_true rfl ?_
    rintro ⟨kw, hkw, hsome⟩
    exact List.find?_eq_none.mp hfind kw hkw hsome
  | some kw =>
    refine iff_of_false (fun h => ?_) (fun h => h ⟨kw, List.mem_of_find?_eq_some hfind, ?_⟩)
    · cases h
    · have hsome := List.find?_some hfind
      exact hsome

/-- The rule for types fails on a type array that is no single type, and on nothing else. -/
lemma lowerType_eq_error_iff (pointer : String) {s : JsonMap × Lowering} :
    (∃ e, lowerType pointer s = .error e) ↔ HasTypeUnion s.1 := by
  unfold lowerType HasTypeUnion
  split
  · rename_i types htypes
    have hsame : ∀ others, s.1.lookup "type" = some (.array others) → others = types := by
      intro others hothers
      rw [htypes] at hothers
      exact (Json.array.inj (Option.some.inj hothers)).symm
    dsimp only
    cases hnull : types.any isNullName with
    | true =>
      cases hkept : types.filter fun t => !isNullName t with
      | nil =>
        refine iff_of_true ⟨_, rfl⟩ ⟨types, htypes, ?_⟩
        rw [hnull, hkept]
        exact Nat.zero_ne_one
      | cons kept others =>
        cases others with
        | nil =>
          refine iff_of_false ?_ ?_
          · rintro ⟨e, he⟩
            cases he
          · rintro ⟨others, hothers, hlength⟩
            rw [hsame others hothers, hnull, hkept] at hlength
            exact hlength rfl
        | cons other rest =>
          refine iff_of_true ⟨_, rfl⟩ ⟨types, htypes, ?_⟩
          rw [hnull, hkept]
          simp
    | false =>
      match types with
      | [] =>
        refine iff_of_false ?_ ?_
        · rintro ⟨e, he⟩
          cases he
        · rintro ⟨others, hothers, hlength⟩
          rw [hsame others hothers] at hlength
          simp at hlength
      | [kept] =>
        refine iff_of_false ?_ ?_
        · rintro ⟨e, he⟩
          cases he
        · rintro ⟨others, hothers, hlength⟩
          rw [hsame others hothers, hnull] at hlength
          simp at hlength
      | _ :: _ :: _ =>
        refine iff_of_true ⟨_, rfl⟩ ⟨_, htypes, ?_⟩
        rw [hnull]
        simp
  · rename_i hnot
    refine iff_of_false ?_ ?_
    · rintro ⟨e, he⟩
      cases he
    · rintro ⟨types, htypes, -⟩
      exact hnot types htypes

lemma not_hasTypeUnion_of_not_live (h : ¬ Live m) : ¬ HasTypeUnion m := by
  rintro ⟨types, htypes, hunion⟩
  cases types with
  | nil => simp at hunion
  | cons t rest => exact h (Or.inr (Or.inr (Or.inl ⟨t, rest, htypes⟩)))

/-- The keywords that are dropped first. -/
def dropped (m : JsonMap) : JsonMap × Lowering :=
  dropKeyword "contentEncoding" { droppedContentKeywords := [(ptrOrRoot "", "contentEncoding")] }
    (dropKeyword "contentMediaType"
      { droppedContentKeywords := [(ptrOrRoot "", "contentMediaType")] }
      (dropKeyword "$schema" { droppedSchemaKeyword := [ptrOrRoot ""] } (m, {})))

/-- The rules for the values of keywords, after the one for types. -/
def valueRules (s : JsonMap × Lowering) : JsonMap × Lowering :=
  lowerExamples "" (lowerConst "" (lowerExclusive "" "exclusiveMaximum" "maximum"
    (lowerExclusive "" "exclusiveMinimum" "minimum" s)))

/-- The lowering of an object is one rule after another. -/
lemma lowered_eq_some_iff : lowered m = some m' ↔
    ¬ UsesUnsupported m ∧ ∃ s, lowerType "" (dropped m) = .ok s ∧ (valueRules s).1 = m' := by
  rw [← checkKeywords_eq_ok_iff ""]
  unfold lowered lowerSchemaObject
  cases hcheck : checkKeywords "" m with
  | error e =>
    refine iff_of_false (fun h => ?_) (fun h => ?_)
    · cases h
    · cases h.1
  | ok u =>
    dsimp only [bind, Except.bind]
    cases hs : lowerType "" (dropped m) with
    | error e =>
      have hrule := hs
      unfold dropped at hrule
      rw [hrule]
      refine iff_of_false (fun h => ?_) ?_
      · cases h
      · rintro ⟨-, s, hs', -⟩
        cases hs'
    | ok s =>
      have hrule := hs
      unfold dropped at hrule
      rw [hrule]
      constructor
      · intro h
        exact ⟨rfl, s, rfl, Option.some.inj h⟩
      · rintro ⟨-, s', hs', hm'⟩
        obtain rfl := Except.ok.inj hs'
        exact congrArg some hm'

lemma lookup_dropped (hschema : k ≠ "$schema") (hmedia : k ≠ "contentMediaType")
    (hencoding : k ≠ "contentEncoding") : (dropped m).1.lookup k = m.lookup k := by
  unfold dropped
  rw [lookup_dropKeyword hencoding, lookup_dropKeyword hmedia, lookup_dropKeyword hschema]

/-- An object is not lowered if and only if it has an unsupported keyword or a type union. -/
theorem lowered_eq_none_iff : lowered m = none ↔ UsesUnsupported m ∨ HasTypeUnion m := by
  have htype : HasTypeUnion (dropped m).1 ↔ HasTypeUnion m := by
    unfold HasTypeUnion
    rw [lookup_dropped (by decide) (by decide) (by decide)]
  rw [← htype, ← lowerType_eq_error_iff ""]
  constructor
  · intro hnone
    by_contra hnot
    rw [not_or] at hnot
    cases hs : lowerType "" (dropped m) with
    | error e => exact hnot.2 ⟨e, hs⟩
    | ok s =>
      have hsome := lowered_eq_some_iff.mpr ⟨hnot.1, s, hs, rfl⟩
      rw [hnone] at hsome
      cases hsome
  · intro h
    cases hsome : lowered m with
    | none => rfl
    | some m' =>
      obtain ⟨hkeyword, s, hs, -⟩ := lowered_eq_some_iff.mp hsome
      rcases h with h | ⟨e, he⟩
      · exact absurd h hkeyword
      · rw [hs] at he
        cases he

lemma dropKeyword_eq_self {kw : String} {entry : Lowering} {s : JsonMap × Lowering}
    (h : s.1.lookup kw = none) : dropKeyword kw entry s = s := by
  unfold dropKeyword
  rw [h]
  rfl

lemma lookup_dropKeyword_self {kw : String} {entry : Lowering} {s : JsonMap × Lowering} :
    (dropKeyword kw entry s).1.lookup kw = none := by
  unfold dropKeyword
  split
  · rw [lookup_removeEntry, if_pos rfl]
  · rename_i hnone
    exact Option.not_isSome_iff_eq_none.mp hnone

lemma lowerExamples_eq_self {pointer : String} {s : JsonMap × Lowering}
    (h : ∀ elems, s.1.lookup "examples" ≠ some (.array elems)) : lowerExamples pointer s = s := by
  unfold lowerExamples
  split
  · rename_i first rest hfound
    exact absurd hfound (h _)
  · rename_i hfound
    exact absurd hfound (h _)
  · rfl

/-- A type that is no array, or an empty one, is left alone. -/
lemma lowerType_eq_self {pointer : String} {s : JsonMap × Lowering}
    (h : ∀ t rest, s.1.lookup "type" ≠ some (.array (t :: rest))) :
    lowerType pointer s = .ok s := by
  unfold lowerType
  split
  · rename_i types htypes
    cases types with
    | nil => rfl
    | cons t rest => exact absurd htypes (h t rest)
  · rfl

/-- Without a keyword that the rules act on, an object stays as it is and nothing is reported. -/
theorem lowerSchemaObject_eq_self (pointer : String) (h : ¬ Live m) :
    lowerSchemaObject pointer m = .ok (m, {}) := by
  have hkeyword : ¬ UsesUnsupported m := fun h' => h (Or.inl h')
  have hdrop : ∀ kw ∈ droppedKeywords, m.lookup kw = none := fun kw hkw =>
    Option.not_isSome_iff_eq_none.mp fun h' => h (Or.inr (Or.inl ⟨kw, hkw, h'⟩))
  have htype : ∀ t rest, m.lookup "type" ≠ some (.array (t :: rest)) := fun t rest h' =>
    h (Or.inr (Or.inr (Or.inl ⟨t, rest, h'⟩)))
  have hnumber : ∀ kw ∈ ["exclusiveMinimum", "exclusiveMaximum"], ∀ x,
      m.lookup kw ≠ some (.number x) := fun kw hkw x h' =>
    h (Or.inr (Or.inr (Or.inr (Or.inl ⟨kw, hkw, x, h'⟩))))
  have hexamples : ∀ elems, m.lookup "examples" ≠ some (.array elems) := fun elems h' =>
    h (Or.inr (Or.inr (Or.inr (Or.inr ⟨elems, h'⟩))))
  have hconst : lowerConst pointer ((m, {}) : JsonMap × Lowering) = (m, {}) := by
    unfold lowerConst
    rw [hdrop "const" (by decide)]
  unfold lowerSchemaObject
  rw [(checkKeywords_eq_ok_iff pointer).mpr hkeyword]
  dsimp only [bind, Except.bind]
  rw [dropKeyword_eq_self (s := (m, {})) (hdrop "$schema" (by decide)),
    dropKeyword_eq_self (s := (m, {})) (hdrop "contentMediaType" (by decide)),
    dropKeyword_eq_self (s := (m, {})) (hdrop "contentEncoding" (by decide)),
    lowerType_eq_self (s := (m, {})) htype]
  dsimp only
  rw [lowerExclusive_eq_self (s := (m, {})) (hnumber "exclusiveMinimum" (by decide)),
    lowerExclusive_eq_self (s := (m, {})) (hnumber "exclusiveMaximum" (by decide)), hconst,
    lowerExamples_eq_self (s := (m, {})) hexamples]
  rfl

/-- Without a keyword that the rules act on, an object stays as it is. -/
theorem lowered_eq_self (h : ¬ Live m) : lowered m = some m := by
  unfold lowered
  rw [lowerSchemaObject_eq_self "" h]
  rfl

/-! ## What the rules do can be seen -/

lemma lookup_valueRules {s : JsonMap × Lowering}
    (hk : k ∉ ["exclusiveMinimum", "minimum", "exclusiveMaximum", "maximum", "const", "enum",
      "examples", "example"]) : (valueRules s).1.lookup k = s.1.lookup k := by
  simp only [List.mem_cons, List.not_mem_nil, or_false, not_or] at hk
  obtain ⟨hexmin, hmin, hexmax, hmax, hconst, henum, hexamples, hexample⟩ := hk
  unfold valueRules
  rw [lookup_lowerExamples hexamples hexample, lookup_lowerConst hconst henum,
    lookup_lowerExclusive hexmax hmax, lookup_lowerExclusive hexmin hmin]

lemma lookup_lowerConst_self {pointer : String} {s : JsonMap × Lowering} :
    (lowerConst pointer s).1.lookup "const" = none := by
  unfold lowerConst
  split
  · rw [lookup_insertEntry, if_neg (by decide), lookup_removeEntry, if_pos rfl]
  · rename_i hnone
    exact hnone

lemma lookup_lowerExclusive_self {pointer excl bound : String} {s : JsonMap × Lowering}
    {x : JsonNumber} (h : s.1.lookup excl = some (.number x)) :
    (lowerExclusive pointer excl bound s).1.lookup excl = some (.bool true) := by
  rw [lowerExclusive_of_number h, lookup_insertEntry, if_pos rfl]

/-- An array of examples is gone after its rule. -/
lemma lookup_lowerExamples_self {pointer : String} {s : JsonMap × Lowering} (elems : List Json)
    (h : s.1.lookup "examples" = some (.array elems)) :
    (lowerExamples pointer s).1.lookup "examples" = none := by
  unfold lowerExamples
  rw [h]
  cases elems with
  | nil =>
    dsimp only
    rw [lookup_removeEntry, if_pos rfl]
  | cons first rest =>
    dsimp only
    rw [lookup_insertEntry, if_neg (by decide), lookup_removeEntry, if_pos rfl]

/-- A keyword that the lowering drops is gone. -/
lemma lookup_lowered_of_dropped {kw : String} (h : lowered m = some m')
    (hkw : kw ∈ droppedKeywords) : m'.lookup kw = none := by
  obtain ⟨-, s, hs, rfl⟩ := lowered_eq_some_iff.mp h
  unfold droppedKeywords at hkw
  simp only [List.mem_cons, List.not_mem_nil, or_false] at hkw
  rcases hkw with rfl | rfl | rfl | rfl
  · rw [lookup_valueRules (by decide), lookup_lowerType hs (by decide) (by decide)]
    unfold dropped
    rw [lookup_dropKeyword (by decide), lookup_dropKeyword (by decide), lookup_dropKeyword_self]
  · rw [lookup_valueRules (by decide), lookup_lowerType hs (by decide) (by decide)]
    unfold dropped
    rw [lookup_dropKeyword (by decide), lookup_dropKeyword_self]
  · rw [lookup_valueRules (by decide), lookup_lowerType hs (by decide) (by decide)]
    unfold dropped
    rw [lookup_dropKeyword_self]
  · unfold valueRules
    rw [lookup_lowerExamples (by decide) (by decide), lookup_lowerConst_self]

/-- What the rules have done to an object with a keyword that they act on: a key is gone, a number
has become a flag, or an array has become one of its elements. -/
theorem lowered_differs (h : lowered m = some m') (hlive : Live m) :
    (∃ k, (m.lookup k).isSome ∧ m'.lookup k = none) ∨
      (∃ k x, m.lookup k = some (.number x) ∧ m'.lookup k = some (.bool true)) ∨
      ∃ types kept, m.lookup "type" = some (.array types) ∧ kept ∈ types ∧
        m'.lookup "type" = some kept := by
  have hgone : ∀ kw ∈ droppedKeywords, m'.lookup kw = none := fun _ hkw =>
    lookup_lowered_of_dropped h hkw
  obtain ⟨hkeyword, s, hs, rfl⟩ := lowered_eq_some_iff.mp h
  -- what the rules up to the one for types leave of the other keywords
  have hbefore : ∀ k, k ∉ ["type", "nullable", "$schema", "contentMediaType", "contentEncoding"] →
      s.1.lookup k = m.lookup k := by
    intro k hk
    simp only [List.mem_cons, List.not_mem_nil, or_false, not_or] at hk
    obtain ⟨htype, hnullable, hschema, hmedia, hencoding⟩ := hk
    rw [lookup_lowerType hs htype hnullable, lookup_dropped hschema hmedia hencoding]
  rcases hlive with hlive | ⟨kw, hkw, hsome⟩ | ⟨t, rest, htype⟩ | ⟨kw, hkw, x, hx⟩ | ⟨elems, helems⟩
  · exact absurd hlive hkeyword
  · exact Or.inl ⟨kw, hsome, hgone kw hkw⟩
  · have hdropped : (dropped m).1.lookup "type" = some (.array (t :: rest)) := by
      rw [lookup_dropped (by decide) (by decide) (by decide), htype]
    refine Or.inr (Or.inr ⟨t :: rest, ?_⟩)
    rcases lowerType_eq_ok hs with ⟨-, hnil⟩ | ⟨kept, hkept, -, hmap⟩ |
      ⟨types, kept, hkept, -, hfilter, hmap⟩
    · cases hnil _ hdropped
    · rw [hdropped] at hkept
      refine ⟨kept, htype, ?_, ?_⟩
      · rw [Json.array.inj (Option.some.inj hkept)]
        exact List.mem_cons_self
      · rw [lookup_valueRules (by decide), hmap, lookup_insertEntry, if_pos rfl]
    · rw [hdropped] at hkept
      refine ⟨kept, htype, ?_, ?_⟩
      · have hin : kept ∈ types.filter fun t => !isNullName t := by
          rw [hfilter]
          exact List.mem_cons_self
        rw [Json.array.inj (Option.some.inj hkept)]
        exact (List.mem_filter.mp hin).1
      · rw [lookup_valueRules (by decide), hmap, lookup_insertEntry, if_neg (by decide),
          lookup_insertEntry, if_pos rfl]
  · refine Or.inr (Or.inl ⟨kw, x, hx, ?_⟩)
    simp only [List.mem_cons, List.not_mem_nil, or_false] at hkw
    unfold valueRules
    rcases hkw with rfl | rfl
    · rw [lookup_lowerExamples (by decide) (by decide), lookup_lowerConst (by decide) (by decide),
        lookup_lowerExclusive (by decide) (by decide)]
      refine lookup_lowerExclusive_self (x := x) ?_
      rw [hbefore _ (by decide), hx]
    · rw [lookup_lowerExamples (by decide) (by decide), lookup_lowerConst (by decide) (by decide)]
      refine lookup_lowerExclusive_self (x := x) ?_
      rw [lookup_lowerExclusive (by decide) (by decide), hbefore _ (by decide), hx]
  · refine Or.inl ⟨"examples", ?_, ?_⟩
    · rw [helems]
      rfl
    · refine lookup_lowerExamples_self elems ?_
      rw [lookup_lowerConst (by decide) (by decide), lookup_lowerExclusive (by decide) (by decide),
        lookup_lowerExclusive (by decide) (by decide), hbefore _ (by decide), helems]

end Orca.OpenApi
