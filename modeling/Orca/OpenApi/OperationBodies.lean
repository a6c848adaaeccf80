import Orca.OpenApi.Buckets

/-!
# The bodies of an operation

The bodies of an operation are those of its success responses, those of its error responses, those
with another status, and the one for every other status, which is in both buckets.  A rewrite of a
bucket is described by what it does to each of these lists; it leaves the bodies with a status
outside of the bucket (`ownContents_mapBucket_disjoint`).
-/

namespace Orca.OpenApi.Normalize

variable {op op' : Operation} {inBucket inBucket' : StatusCode → Bool} {f : Content → Content}
  {c : Content}

/-! ## The bodies of an operation -/

/-- All responses of an operation are inline. -/
def Inline (op : Operation) : Prop :=
  (∀ e ∈ op.responses.rows, ∃ r, e.2 = .item r) ∧ ∀ r ∈ op.default, ∃ r', r = .item r'

/-- Two operations have the same responses. -/
def SameResponses (op op' : Operation) : Prop :=
  op.responses = op'.responses ∧ op.default = op'.default

/-- The content of an inline response is rewritten. -/
def rewriteContent (f : Content → Content) (r : ReferenceOr Response) : ReferenceOr Response :=
  r.map fun r => { r with content := f r.content }

lemma item_rewriteContent (r : ReferenceOr Response) :
    (rewriteContent f r).item?.map Response.content = (r.item?.map Response.content).map f := by
  cases r <;> rfl

lemma rows_mapBucket : (mapBucket inBucket f op).responses.rows =
    op.responses.rows.map fun e =>
      (e.1, if inBucket e.1 then rewriteContent f e.2 else e.2) := rfl

/-- A rewrite of a bucket rewrites the bodies with a status of it. -/
lemma ownContents_mapBucket (h : ∀ s, inBucket' s = true → inBucket s = true) :
    ownContents inBucket' (mapBucket inBucket f op) = (ownContents inBucket' op).map f := by
  unfold ownContents
  rw [rows_mapBucket]
  induction op.responses.rows with
  | nil => rfl
  | cons e rest ih =>
    rw [List.map_cons, List.filter_cons, List.filter_cons]
    dsimp only
    by_cases hs : inBucket' e.1 = true
    · rw [if_pos hs, if_pos hs, if_pos (h _ hs), List.filterMap_cons, List.filterMap_cons]
      dsimp only
      rw [item_rewriteContent]
      cases hitem : e.2.item?.map Response.content with
      | none => exact ih
      | some c => exact congrArg (f c :: ·) ih
    · rw [if_neg hs, if_neg hs]
      exact ih

/-- A rewrite of a bucket leaves the bodies with another status. -/
lemma ownContents_mapBucket_disjoint (h : ∀ s, inBucket' s = true → inBucket s = false) :
    ownContents inBucket' (mapBucket inBucket f op) = ownContents inBucket' op := by
  unfold ownContents
  rw [rows_mapBucket]
  induction op.responses.rows with
  | nil => rfl
  | cons e rest ih =>
    rw [List.map_cons, List.filter_cons, List.filter_cons]
    dsimp only
    by_cases hs : inBucket' e.1 = true
    · rw [if_pos hs, if_pos hs, if_neg (Bool.eq_false_iff.mp (h _ hs)), List.filterMap_cons,
        List.filterMap_cons]
      dsimp only
      cases hitem : e.2.item?.map Response.content with
      | none => exact ih
      | some c => exact congrArg (c :: ·) ih
    · rw [if_neg hs, if_neg hs]
      exact ih

lemma defaultContents_mapBucket :
    defaultContents (mapBucket inBucket f op) = (defaultContents op).map f := by
  unfold defaultContents mapBucket
  dsimp only
  cases op.default with
  | none => rfl
  | some r => cases r <;> rfl

lemma length_defaultContents (op : Operation) : (defaultContents op).length ≤ 1 := by
  unfold defaultContents
  cases op.default with
  | none => exact Nat.zero_le _
  | some r =>
    cases r with
    | reference name => exact Nat.zero_le _
    | item r => exact Nat.le_refl 1

/-- Inline responses are as many as their bodies. -/
lemma length_bucketLabels (h : Inline op) :
    (bucketLabels inBucket op).length = (bucketContents inBucket op).length := by
  unfold bucketLabels bucketContents
  rw [List.length_append, List.length_append, List.length_map, List.length_map]
  have hown : (op.responses.rows.filter fun e => inBucket e.1).length =
      (ownContents inBucket op).length := by
    have hall : ∀ e ∈ op.responses.rows.filter fun e => inBucket e.1, ∃ r, e.2 = .item r :=
      fun e he => h.1 e (List.mem_filter.mp he).1
    unfold ownContents
    generalize (op.responses.rows.filter fun e => inBucket e.1) = rows at hall
    induction rows with
    | nil => rfl
    | cons e rest ih =>
      obtain ⟨r, hr⟩ := hall e List.mem_cons_self
      rw [List.filterMap_cons, hr]
      exact congrArg (· + 1) (ih fun e he => hall e (List.mem_cons_of_mem _ he))
  have hdefault : op.default.toList.length = (defaultContents op).length := by
    unfold defaultContents
    cases hop : op.default with
    | none => rfl
    | some r =>
      obtain ⟨r', rfl⟩ := h.2 r hop
      rfl
  rw [hown, hdefault]

/-- A rewrite keeps responses inline. -/
lemma Inline.mapBucket (h : Inline op) : Inline (mapBucket inBucket f op) := by
  have hrewrite : ∀ r : ReferenceOr Response, (∃ r', r = .item r') →
      ∃ r', rewriteContent f r = .item r' := by
    rintro r ⟨r', rfl⟩
    exact ⟨_, rfl⟩
  refine ⟨?_, ?_⟩
  · rw [rows_mapBucket, List.forall_mem_map]
    intro e he
    dsimp only
    split
    · exact hrewrite _ (h.1 e he)
    · exact h.1 e he
  · intro r hr
    obtain ⟨r', hr', rfl⟩ := Option.map_eq_some_iff.mp hr
    exact hrewrite r' (h.2 r' hr')

lemma SameResponses.contents (h : SameResponses op op') (inBucket : StatusCode → Bool) :
    ownContents inBucket op = ownContents inBucket op' ∧ defaultContents op = defaultContents op' ∧
      (bucketLabels inBucket op).length = (bucketLabels inBucket op').length ∧
      (Inline op ↔ Inline op') := by
  obtain ⟨hresponses, hdefault⟩ := h
  unfold ownContents defaultContents bucketLabels Inline
  rw [hresponses, hdefault]
  exact ⟨rfl, rfl, rfl, Iff.rfl⟩

lemma item_eq_some_iff {r : ReferenceOr Response} :
    r.item?.map Response.content = some c ↔ ∃ r', r = .item r' ∧ r'.content = c := by
  cases r with
  | reference name => simp [ReferenceOr.item?]
  | item r => simp [ReferenceOr.item?]

lemma mem_ownContents_iff : c ∈ ownContents inBucket op ↔
    ∃ e ∈ op.responses.rows, inBucket e.1 = true ∧ ∃ r, e.2 = .item r ∧ r.content = c := by
  unfold ownContents
  rw [List.mem_filterMap]
  simp only [item_eq_some_iff, List.mem_filter, and_assoc]

/-- The body of every other status. -/
lemma mem_defaultContents_iff : c ∈ defaultContents op ↔
    ∃ r, op.default = some (.item r) ∧ r.content = c := by
  unfold defaultContents
  rw [List.mem_filterMap]
  simp only [item_eq_some_iff, Option.mem_toList]
  constructor
  · rintro ⟨r, hr, r', rfl, hc⟩
    exact ⟨r', hr, hc⟩
  · rintro ⟨r', hr, hc⟩
    exact ⟨_, hr, r', rfl, hc⟩

/-- A body of a bucket has a status of it, or is the one of every other status. -/
lemma mem_bucketContents_iff : c ∈ bucketContents inBucket op ↔
    (∃ e ∈ op.responses.rows, inBucket e.1 = true ∧ ∃ r, e.2 = .item r ∧ r.content = c) ∨
      ∃ r, op.default = some (.item r) ∧ r.content = c := by
  unfold bucketContents
  rw [List.mem_append, mem_ownContents_iff, mem_defaultContents_iff]

/-- A rewrite that leaves the bodies of a bucket changes nothing. -/
lemma mapBucket_eq_self (h : ∀ c ∈ bucketContents inBucket op, f c = c) :
    mapBucket inBucket f op = op := by
  have hrewrite : ∀ r : ReferenceOr Response,
      (∀ r', r = .item r' → r'.content ∈ bucketContents inBucket op) →
        rewriteContent f r = r := by
    intro r hr
    cases r with
    | reference name => rfl
    | item r =>
      have hcontent := h _ (hr r rfl)
      unfold rewriteContent ReferenceOr.map
      dsimp only
      rw [hcontent]
  have hresponses : (mapBucket inBucket f op).responses = op.responses := by
    refine KeyedTable.eq_of_rows ?_
    rw [rows_mapBucket]
    refine (List.map_congr_left fun e he => ?_).trans (List.map_id' _)
    by_cases hs : inBucket e.1 = true
    · have hsame := hrewrite e.2 fun r hr =>
        mem_bucketContents_iff.mpr (Or.inl ⟨e, he, hs, r, hr, rfl⟩)
      rw [if_pos hs]
      exact congrArg (Prod.mk e.1) hsame
    · rw [if_neg hs]
  have hdefault : (mapBucket inBucket f op).default = op.default := by
    change op.default.map (rewriteContent f) = op.default
    cases hop : op.default with
    | none => rfl
    | some r =>
      have hsame := hrewrite r fun r' hr => by
        rw [hr] at hop
        exact mem_bucketContents_iff.mpr (Or.inr ⟨r', hop, rfl⟩)
      exact congrArg some hsame
  calc mapBucket inBucket f op
      = { op with
          responses := (mapBucket inBucket f op).responses
          default := (mapBucket inBucket f op).default } := rfl
    _ = op := by rw [hresponses, hdefault]

/-- Two rewrites of a bucket are one. -/
lemma mapBucket_mapBucket (f g : Content → Content) :
    mapBucket inBucket g (mapBucket inBucket f op) = mapBucket inBucket (fun c => g (f c)) op := by
  have hrewrite : ∀ r : ReferenceOr Response,
      rewriteContent g (rewriteContent f r) = rewriteContent (fun c => g (f c)) r := by
    intro r
    cases r <;> rfl
  have hresponses : (mapBucket inBucket g (mapBucket inBucket f op)).responses =
      (mapBucket inBucket (fun c => g (f c)) op).responses := by
    refine KeyedTable.eq_of_rows ?_
    rw [rows_mapBucket, rows_mapBucket, rows_mapBucket, List.map_map]
    refine List.map_congr_left fun e _ => ?_
    dsimp only [Function.comp]
    by_cases hs : inBucket e.1 = true
    · rw [if_pos hs, if_pos hs, if_pos hs, hrewrite]
    · rw [if_neg hs, if_neg hs, if_neg hs]
  have hdefault : (mapBucket inBucket g (mapBucket inBucket f op)).default =
      (mapBucket inBucket (fun c => g (f c)) op).default := by
    change (op.default.map (rewriteContent f)).map (rewriteContent g) =
      op.default.map (rewriteContent fun c => g (f c))
    rw [Option.map_map]
    exact congrArg (fun h => op.default.map h) (funext hrewrite)
  calc mapBucket inBucket g (mapBucket inBucket f op)
      = { op with
          responses := (mapBucket inBucket g (mapBucket inBucket f op)).responses
          default := (mapBucket inBucket g (mapBucket inBucket f op)).default } := rfl
    _ = mapBucket inBucket (fun c => g (f c)) op := by
      rw [hresponses, hdefault]
      rfl

end Orca.OpenApi.Normalize
