import Orca.OpenApi.OperationBodies

/-!
# What the code generator gets

A document is ready for the code generator when the bodies of the success responses of each
operation have one schema, and those of its error responses as well, each under one media type, and
when there is nothing left to prepare.  `forProgenitor` reaches this for a document with inline
responses if and only if the bodies of each operation are unifiable together.

Each pass has a lemma that says what it does to the bodies of an operation, and one that says when
it leaves the operation alone.
-/

namespace Orca.OpenApi.Normalize

variable {op op' : Operation} {inBucket : StatusCode → Bool} {c : Content} {method : Method}
  {path : String}

/-! ## What each pass does to the bodies -/

lemma sameResponses_synthesizeOperationId (method : Method) (path : String) (op : Operation) :
    SameResponses (synthesizeOperationId method path op).1 op := by
  unfold synthesizeOperationId
  split
  · exact ⟨rfl, rfl⟩
  · exact ⟨rfl, rfl⟩

lemma sameResponses_rewriteMultipart (method : Method) (path : String) (op : Operation) :
    SameResponses (rewriteMultipart method path op).1 op := by
  unfold rewriteMultipart
  split
  · split
    · exact ⟨rfl, rfl⟩
    · exact ⟨rfl, rfl⟩
  · exact ⟨rfl, rfl⟩

lemma sameResponses_collapseRequest (method : Method) (path : String) (op : Operation) :
    SameResponses (collapseRequest method path op).1 op := by
  unfold collapseRequest
  split
  · exact ⟨rfl, rfl⟩
  · exact ⟨rfl, rfl⟩

lemma collapseResponses_eq :
    (collapseResponses method path op).1 = mapBucket (fun _ => true) keepOne op := rfl

/-- A merge of a bucket of inline responses merges its bodies, if there are several. -/
lemma mergeBucket_eq (h : Inline op) : (mergeBucket inBucket method path op).1 =
    mapBucket inBucket (mergeAll (bucketContents inBucket op)) op := by
  unfold mergeBucket
  rw [length_bucketLabels h]
  by_cases hlength : (bucketContents inBucket op).length ≤ 1
  · have hone : ∀ c, mergeAll (bucketContents inBucket op) c = c := fun c => if_pos hlength
    rw [if_pos hlength, mapBucket_eq_self fun c _ => hone c]
  · have hseveral : mergeAll (bucketContents inBucket op) =
        mergeBody (bucketContents inBucket op) := funext fun c => if_neg hlength
    have hstripped : bucketContents inBucket (mapBucket inBucket stripNonJson op) =
        (bucketContents inBucket op).map stripNonJson := by
      unfold bucketContents
      rw [ownContents_mapBucket fun _ => id, defaultContents_mapBucket, List.map_append]
    rw [if_neg hlength, hseveral]
    dsimp only
    rw [hstripped]
    by_cases hvariants :
        (collectVariants ((bucketContents inBucket op).map stripNonJson)).length ≤ 1
    · have hmerge : mergeBody (bucketContents inBucket op) = stripNonJson :=
        funext fun c => if_pos hvariants
      rw [if_pos hvariants, hmerge]
    · have hmerge : mergeBody (bucketContents inBucket op) = fun c => setJsonSchema (unionSchema
          (collectVariants ((bucketContents inBucket op).map stripNonJson))) (stripNonJson c) :=
        funext fun c => if_neg hvariants
      rw [if_neg hvariants, hmerge]
      exact mapBucket_mapBucket _ _

/-- No status is in both buckets. -/
lemma buckets_disjoint (s : StatusCode) :
    isProgenitorSuccess s = true → isProgenitorError s = false := by
  cases s with
  | code c =>
    unfold isProgenitorSuccess isProgenitorError
    simp only [Bool.or_eq_true, beq_iff_eq, Bool.and_eq_true, decide_eq_true_eq,
      Bool.and_eq_false_iff, decide_eq_false_iff_not, UInt16.le_iff_toNat_le,
      UInt16.lt_iff_toNat_lt]
    rintro (rfl | ⟨-, h⟩)
    · decide
    · left
      have htwo : (300 : UInt16).toNat = 300 := rfl
      have hfour : (400 : UInt16).toNat = 400 := rfl
      omega
  | range r =>
    unfold isProgenitorSuccess isProgenitorError
    simp only [beq_iff_eq]
    rintro rfl
    decide

/-- Whether a status is in neither bucket. -/
def isOther (s : StatusCode) : Bool := !isProgenitorSuccess s && !isProgenitorError s

/-- What is left of an operation when the media types are collapsed. -/
def collapseOperation (method : Method) (path : String) (op : Operation) : Operation :=
  let op := (synthesizeOperationId method path op).1
  let op := (rewriteMultipart method path op).1
  let op := (collapseResponses method path op).1
  (collapseRequest method path op).1

/-- The bodies of an operation when the media types are collapsed. -/
lemma contents_collapseOperation (method : Method) (path : String) (op : Operation)
    (inBucket : StatusCode → Bool) :
    ownContents inBucket (collapseOperation method path op) =
        (ownContents inBucket op).map keepOne ∧
      defaultContents (collapseOperation method path op) = (defaultContents op).map keepOne ∧
      (Inline op → Inline (collapseOperation method path op)) := by
  unfold collapseOperation
  dsimp only
  rw [collapseResponses_eq]
  obtain ⟨hown₁, hdefault₁, -, hinline₁⟩ :=
    (sameResponses_synthesizeOperationId method path op).contents inBucket
  generalize (synthesizeOperationId method path op).1 = op₁ at *
  obtain ⟨hown₂, hdefault₂, -, hinline₂⟩ :=
    (sameResponses_rewriteMultipart method path op₁).contents inBucket
  generalize (rewriteMultipart method path op₁).1 = op₂ at *
  obtain ⟨hown₃, hdefault₃, -, hinline₃⟩ :=
    (sameResponses_collapseRequest method path (mapBucket (fun _ => true) keepOne op₂)).contents
      inBucket
  rw [hown₃, hdefault₃, hinline₃, ownContents_mapBucket fun _ _ => rfl, defaultContents_mapBucket,
    hown₂, hdefault₂, hown₁, hdefault₁]
  exact ⟨rfl, rfl, fun h => (hinline₂.mpr (hinline₁.mpr h)).mapBucket⟩

/-- What is done to an operation: the media types are collapsed, the buckets are merged one after
the other, and the parameters are given a style. -/
def normalizeOperation (method : Method) (path : String) (op : Operation) : Operation :=
  let op := collapseOperation method path op
  let op := (mergeBucket isProgenitorSuccess method path op).1
  let op := (mergeBucket isProgenitorError method path op).1
  { op with parameters := op.parameters.map (ReferenceOr.map fixParameter) }

/-- The bodies of the first merge. -/
def firstBodies (op : Operation) : List Content :=
  (bucketContents isProgenitorSuccess op).map keepOne

/-- The shared body after the first merge. -/
def sharedBodies (op : Operation) : List Content :=
  (defaultContents op).map fun d => mergeAll (firstBodies op) (keepOne d)

/-- The bodies of the second merge. -/
def secondBodies (op : Operation) : List Content :=
  (ownContents isProgenitorError op).map keepOne ++ sharedBodies op

/-- What is done to an operation with inline responses, as two rewrites. -/
lemma normalizeOperation_eq (h : Inline op) : normalizeOperation method path op =
    { mapBucket isProgenitorError (mergeAll (secondBodies op)) (mapBucket isProgenitorSuccess
        (mergeAll (firstBodies op)) (collapseOperation method path op)) with
      parameters := (collapseOperation method path op).parameters.map
        (ReferenceOr.map fixParameter) } := by
  obtain ⟨hsuccess, hdefault, hinline⟩ :=
    contents_collapseOperation method path op isProgenitorSuccess
  obtain ⟨herror, -, -⟩ :=
    contents_collapseOperation method path op isProgenitorError
  have hfirst : bucketContents isProgenitorSuccess (collapseOperation method path op) =
      firstBodies op := by
    unfold bucketContents firstBodies bucketContents
    rw [hsuccess, hdefault, List.map_append]
  have hsecond : bucketContents isProgenitorError (mapBucket isProgenitorSuccess
      (mergeAll (firstBodies op)) (collapseOperation method path op)) = secondBodies op := by
    unfold bucketContents secondBodies sharedBodies
    rw [defaultContents_mapBucket, ownContents_mapBucket_disjoint, herror, hdefault, List.map_map]
    · rfl
    · intro s hs
      by_contra hnot
      rw [buckets_disjoint s (eq_true_of_ne_false hnot)] at hs
      cases hs
  unfold normalizeOperation
  dsimp only
  rw [mergeBucket_eq (hinline h), hfirst, mergeBucket_eq (hinline h).mapBucket, hsecond]
  rfl

/-- The bodies of an operation with inline responses after all passes: those of either bucket, the
shared one, and those of another status. -/
lemma contents_normalizeOperation (h : Inline op) (method : Method) (path : String) :
    ownContents isProgenitorSuccess (normalizeOperation method path op) =
        (ownContents isProgenitorSuccess op).map (fun a => mergeAll (firstBodies op) (keepOne a)) ∧
      ownContents isProgenitorError (normalizeOperation method path op) =
        (ownContents isProgenitorError op).map (fun b => mergeAll (secondBodies op) (keepOne b)) ∧
      defaultContents (normalizeOperation method path op) =
        (sharedBodies op).map (mergeAll (secondBodies op)) ∧
      ownContents isOther (normalizeOperation method path op) =
        (ownContents isOther op).map keepOne ∧
      Inline (normalizeOperation method path op) := by
  have hcollapsed := contents_collapseOperation method path op
  have hdefault := (hcollapsed isProgenitorSuccess).2.1
  have hinline := (hcollapsed isProgenitorSuccess).2.2 h
  have hdisjoint : ∀ s, isProgenitorError s = true → isProgenitorSuccess s = false := by
    intro s hs
    by_contra hnot
    rw [buckets_disjoint s (eq_true_of_ne_false hnot)] at hs
    cases hs
  rw [normalizeOperation_eq h]
  refine ⟨?_, ?_, ?_, ?_, hinline.mapBucket.mapBucket⟩
  · change ownContents isProgenitorSuccess (mapBucket isProgenitorError _ _) = _
    rw [ownContents_mapBucket_disjoint buckets_disjoint, ownContents_mapBucket fun _ => id,
      (hcollapsed isProgenitorSuccess).1, List.map_map]
    rfl
  · change ownContents isProgenitorError (mapBucket isProgenitorError _ _) = _
    rw [ownContents_mapBucket fun _ => id, ownContents_mapBucket_disjoint hdisjoint,
      (hcollapsed isProgenitorError).1, List.map_map]
    rfl
  · change defaultContents (mapBucket isProgenitorError _ _) = _
    unfold sharedBodies
    rw [defaultContents_mapBucket, defaultContents_mapBucket, hdefault]
    simp only [List.map_map]
    rfl
  · change ownContents isOther (mapBucket isProgenitorError _ _) = _
    rw [ownContents_mapBucket_disjoint, ownContents_mapBucket_disjoint, (hcollapsed isOther).1]
    · intro s hs
      unfold isOther at hs
      rw [Bool.and_eq_true, Bool.not_eq_true'] at hs
      exact hs.1
    · intro s hs
      unfold isOther at hs
      rw [Bool.and_eq_true, Bool.not_eq_true', Bool.not_eq_true'] at hs
      exact hs.2

lemma length_firstBodies (op : Operation) : (firstBodies op).length =
    (ownContents isProgenitorSuccess op).length + (defaultContents op).length := by
  unfold firstBodies bucketContents
  rw [List.length_map, List.length_append]

lemma length_secondBodies (op : Operation) : (secondBodies op).length =
    (ownContents isProgenitorError op).length + (defaultContents op).length := by
  unfold secondBodies sharedBodies
  rw [List.length_append, List.length_map, List.length_map]

/-- The passes keep the number of bodies of each bucket. -/
lemma length_bucketContents_normalizeOperation (h : Inline op) (method : Method) (path : String) :
    (bucketContents isProgenitorSuccess (normalizeOperation method path op)).length =
        (firstBodies op).length ∧
      (bucketContents isProgenitorError (normalizeOperation method path op)).length =
        (secondBodies op).length := by
  obtain ⟨hsuccess, herror, hdefault, -, -⟩ := contents_normalizeOperation h method path
  have hshared : ((sharedBodies op).map (mergeAll (secondBodies op))).length =
      (defaultContents op).length := by
    unfold sharedBodies
    rw [List.length_map, List.length_map]
  rw [length_firstBodies, length_secondBodies]
  unfold bucketContents
  rw [hsuccess, herror, hdefault, List.length_append, List.length_append, List.length_map,
    List.length_map fun b => mergeAll (secondBodies op) (keepOne b), hshared]
  exact ⟨rfl, rfl⟩

/-! ## What the generator accepts -/

/-- The bodies of a bucket that are not empty agree on one JSON schema, and if there are several
statuses in the bucket, then each of its bodies has exactly one media type. -/
def Accepted (inBucket : StatusCode → Bool) (op : Operation) : Prop :=
  Agree (bucketContents inBucket op) ∧ (1 < (bucketLabels inBucket op).length →
    ∀ c ∈ bucketContents inBucket op, c.rows.length = 1)

/-- A bucket of inline responses is accepted if and only if it has one body, or uniform ones. -/
lemma accepted_iff (h : Inline op) (hjson : 1 < (bucketContents inBucket op).length →
    ∀ c ∈ bucketContents inBucket op, AllJson c) : Accepted inBucket op ↔
      (bucketContents inBucket op).length ≤ 1 ∨ Uniform (bucketContents inBucket op) := by
  unfold Accepted
  rw [length_bucketLabels h]
  by_cases hlength : (bucketContents inBucket op).length ≤ 1
  · refine iff_of_true ⟨?_, fun hseveral => absurd hlength (Nat.not_le.mpr hseveral)⟩
      (Or.inl hlength)
    intro c hc c' hc' _ _
    match hcontents : bucketContents inBucket op with
    | [] =>
      rw [hcontents] at hc
      cases hc
    | [only] =>
      rw [hcontents, List.mem_singleton] at hc hc'
      rw [hc, hc']
    | _ :: _ :: rest =>
      rw [hcontents] at hlength
      simp at hlength
  · have hseveral := Nat.not_le.mp hlength
    rw [uniform_iff (hjson hseveral)]
    simp only [hlength, hseveral, false_or, true_implies]

lemma allJson_mergeAll {cs : List Content} (hcs : 1 < cs.length) (h : AllJson (stripNonJson c)) :
    AllJson (mergeAll cs c) := by
  unfold mergeAll
  rw [if_neg (Nat.not_le.mpr hcs)]
  exact allJson_mergeBody cs h

lemma AllJson.mergeAll (h : AllJson c) (cs : List Content) : AllJson (mergeAll cs c) := by
  unfold Normalize.mergeAll
  split
  · exact h
  · exact allJson_mergeBody cs h.strip

lemma allJson_stripNonJson_keepOne (c : Content) : AllJson (stripNonJson (keepOne c)) := by
  unfold keepOne
  rw [stripNonJson_keepOne]
  exact allJson_jsonOnly c

lemma allJson_stripNonJson_mergeAll (cs : List Content) (c : Content) :
    AllJson (stripNonJson (mergeAll cs (keepOne c))) := by
  unfold mergeAll
  split
  · exact allJson_stripNonJson_keepOne c
  · exact (allJson_mergeBody cs (allJson_stripNonJson_keepOne c)).strip

/-- The bodies of a bucket after all passes are JSON if there are several. -/
lemma allJson_normalizeOperation (h : Inline op) (method : Method) (path : String) :
    (1 < (bucketContents isProgenitorSuccess (normalizeOperation method path op)).length →
        ∀ c ∈ bucketContents isProgenitorSuccess (normalizeOperation method path op), AllJson c) ∧
      (1 < (bucketContents isProgenitorError (normalizeOperation method path op)).length →
        ∀ c ∈ bucketContents isProgenitorError (normalizeOperation method path op),
          AllJson c) := by
  obtain ⟨hsuccess, herror, hdefault, -, -⟩ := contents_normalizeOperation h method path
  obtain ⟨hsuccessLength, herrorLength⟩ := length_bucketContents_normalizeOperation h method path
  refine ⟨?_, ?_⟩
  · rw [hsuccessLength]
    intro hseveral c hc
    unfold bucketContents at hc
    rw [hsuccess, hdefault] at hc
    rcases List.mem_append.mp hc with hc | hc
    · obtain ⟨a, -, rfl⟩ := List.mem_map.mp hc
      exact allJson_mergeAll hseveral (allJson_stripNonJson_keepOne a)
    · obtain ⟨shared, hmem, rfl⟩ := List.mem_map.mp hc
      unfold sharedBodies at hmem
      obtain ⟨d, -, rfl⟩ := List.mem_map.mp hmem
      exact (allJson_mergeAll hseveral (allJson_stripNonJson_keepOne d)).mergeAll _
  · rw [herrorLength]
    intro hseveral c hc
    unfold bucketContents at hc
    rw [herror, hdefault] at hc
    rcases List.mem_append.mp hc with hc | hc
    · obtain ⟨b, -, rfl⟩ := List.mem_map.mp hc
      exact allJson_mergeAll hseveral (allJson_stripNonJson_keepOne b)
    · obtain ⟨shared, hmem, rfl⟩ := List.mem_map.mp hc
      unfold sharedBodies at hmem
      obtain ⟨d, -, rfl⟩ := List.mem_map.mp hmem
      exact allJson_mergeAll hseveral (allJson_stripNonJson_mergeAll _ d)

/-- The bodies of both buckets of an operation with inline responses are accepted after all passes
if and only if they are unifiable together. -/
theorem accepted_normalizeOperation_iff (h : Inline op) (method : Method) (path : String) :
    (Accepted isProgenitorSuccess (normalizeOperation method path op) ∧
        Accepted isProgenitorError (normalizeOperation method path op)) ↔
      UnifiableTogether (ownContents isProgenitorSuccess op) (ownContents isProgenitorError op)
        (defaultContents op) := by
  obtain ⟨hsuccess, herror, hdefault, -, hinline⟩ := contents_normalizeOperation h method path
  obtain ⟨hjson, hjson'⟩ := allJson_normalizeOperation h method path
  have hshared := length_defaultContents op
  obtain ⟨hsuccessLength, herrorLength⟩ := length_bucketContents_normalizeOperation h method path
  rw [accepted_iff hinline hjson, accepted_iff hinline hjson', hsuccessLength, herrorLength,
    length_firstBodies, length_secondBodies]
  unfold bucketContents
  rw [hsuccess, herror, hdefault]
  exact uniform_mergeAll_twice_iff hshared rfl rfl rfl

/-! ## What each pass leaves alone -/

lemma synthesizeOperationId_eq_self (h : op.operationId.isSome) :
    synthesizeOperationId method path op = (op, []) := by
  unfold synthesizeOperationId
  obtain ⟨id, hid⟩ := Option.isSome_iff_exists.mp h
  rw [hid]

lemma rewriteMultipart_eq_self (h : ∀ body, op.requestBody = some (.item body) →
    (body.content.rows.any fun e => startsWith e.1 "multipart/") = false) :
    rewriteMultipart method path op = (op, []) := by
  unfold rewriteMultipart
  split
  · rename_i body hbody
    rw [if_neg (Bool.eq_false_iff.mp (h body hbody))]
  · rfl

lemma collapseRequest_eq_self (h : ∀ body, op.requestBody = some (.item body) →
    Collapsed body.content) : collapseRequest method path op = (op, []) := by
  unfold collapseRequest
  split
  · rename_i body hbody
    rw [keepOne_of_collapsed (h body hbody)]
    dsimp only
    rw [← hbody]
    rfl
  · rfl

/-- An operation whose responses are collapsed is left alone. -/
lemma collapseResponses_eq_self (h : ∀ c ∈ bucketContents (fun _ => true) op, Collapsed c) :
    collapseResponses method path op = (op, []) := by
  have hsame : (collapseResponses method path op).1 = op := by
    rw [collapseResponses_eq]
    refine mapBucket_eq_self fun c hc => ?_
    unfold keepOne
    rw [keepOne_of_collapsed (h c hc)]
  have hhits : ∀ label r, (∀ r', r = ReferenceOr.item r' → Collapsed r'.content) →
      collapseHits label r = [] := by
    intro label r hr
    cases r with
    | reference name => rfl
    | item r =>
      unfold collapseHits
      dsimp only
      rw [keepOne_of_collapsed (hr r rfl)]
      rfl
  have hnone : (collapseResponses method path op).2 = [] := by
    unfold collapseResponses
    dsimp only
    rw [List.append_eq_nil_iff, List.flatMap_eq_nil_iff, List.flatMap_eq_nil_iff]
    refine ⟨fun e he => hhits _ _ fun r hr => ?_, fun r hr => hhits _ _ fun r' hr' => ?_⟩
    · exact h _ (mem_bucketContents_iff.mpr (Or.inl ⟨e, he, rfl, r, hr, rfl⟩))
    · rw [hr'] at hr
      exact h _ (mem_bucketContents_iff.mpr (Or.inr ⟨r', Option.mem_toList.mp hr, rfl⟩))
  exact Prod.ext hsame hnone

/-- An operation with one body in a bucket, or uniform ones, is left alone by its merge. -/
lemma mergeBucket_eq_self (h : Inline op) (hbucket : (bucketContents inBucket op).length ≤ 1 ∨
    Uniform (bucketContents inBucket op)) : mergeBucket inBucket method path op = (op, []) := by
  unfold mergeBucket
  rw [length_bucketLabels h]
  by_cases hlength : (bucketContents inBucket op).length ≤ 1
  · rw [if_pos hlength]
  · have huniform := hbucket.resolve_left hlength
    rw [if_neg hlength, mapBucket_eq_self fun c hc => stripNonJson_of_uniform huniform hc]
    dsimp only
    rw [if_pos (length_collectVariants_of_uniform huniform)]

/-! ## What is left of an operation -/

/-- The rest of an operation that is left by the passes over its bodies. -/
lemma id_collapseOperation : (collapseOperation method path op).operationId.isSome := by
  have hid : (synthesizeOperationId method path op).1.operationId.isSome := by
    unfold synthesizeOperationId
    split
    · rename_i id hid
      rw [hid]
      rfl
    · rfl
  have hmultipart : ∀ op, (rewriteMultipart method path op).1.operationId = op.operationId := by
    intro op
    unfold rewriteMultipart
    split
    · split <;> rfl
    · rfl
  have hrequest : ∀ op, (collapseRequest method path op).1.operationId = op.operationId := by
    intro op
    unfold collapseRequest
    split <;> rfl
  unfold collapseOperation
  dsimp only
  rw [hrequest, collapseResponses_eq]
  change (rewriteMultipart method path _).1.operationId.isSome
  rw [hmultipart]
  exact hid

/-- The request of an operation is not multipart, and it is collapsed. -/
lemma request_collapseOperation {body : RequestBody}
    (h : (collapseOperation method path op).requestBody = some (.item body)) :
    (body.content.rows.any fun e => startsWith e.1 "multipart/") = false ∧
      Collapsed body.content := by
  have hmultipart : ∀ op body,
      (rewriteMultipart method path op).1.requestBody = some (.item body) →
        (body.content.rows.any fun e => startsWith e.1 "multipart/") = false := by
    intro op body hbody
    unfold rewriteMultipart at hbody
    split at hbody
    · split at hbody
      · obtain rfl := ReferenceOr.item.inj (Option.some.inj hbody)
        decide
      · rename_i body' hbody' hnot
        rw [hbody'] at hbody
        obtain rfl := ReferenceOr.item.inj (Option.some.inj hbody)
        exact eq_false_of_ne_true hnot
    · rename_i hnot
      exact absurd hbody (hnot body)
  unfold collapseOperation collapseRequest at h
  dsimp only at h
  split at h
  · rename_i body' hbody'
    obtain rfl := ReferenceOr.item.inj (Option.some.inj h)
    refine ⟨?_, collapsed_keepOne body'.content⟩
    have hclean := hmultipart _ body' hbody'
    rw [List.any_eq_false] at hclean ⊢
    intro e he
    refine hclean e ?_
    rw [rows_keepOne] at he
    cases hentry : jsonEntry body'.content with
    | none =>
      rw [hentry] at he
      exact he
    | some e' =>
      rw [hentry] at he
      rw [List.mem_singleton.mp he]
      exact mem_of_jsonEntry hentry
  · rename_i hnot
    exact absurd h (hnot body)

/-- The bodies of an operation that is accepted are collapsed. -/
lemma collapsed_normalizeOperation (h : Inline op)
    (hsuccess : Accepted isProgenitorSuccess (normalizeOperation method path op))
    (herror : Accepted isProgenitorError (normalizeOperation method path op)) :
    ∀ c ∈ bucketContents (fun _ => true) (normalizeOperation method path op), Collapsed c := by
  obtain ⟨hsuccessContents, herrorContents, hdefaultContents, hotherContents, hinline⟩ :=
    contents_normalizeOperation h method path
  obtain ⟨hsuccessLength, herrorLength⟩ := length_bucketContents_normalizeOperation h method path
  rw [← length_bucketLabels hinline] at hsuccessLength herrorLength
  -- in a bucket of several statuses a body has one media type, and in another it is not merged
  have hseveral : ∀ {inBucket : StatusCode → Bool},
      Accepted inBucket (normalizeOperation method path op) →
        1 < (bucketLabels inBucket (normalizeOperation method path op)).length →
          ∀ c ∈ bucketContents inBucket (normalizeOperation method path op), Collapsed c :=
    fun haccepted hlength c hc => collapsed_of_length_le (Nat.le_of_eq (haccepted.2 hlength c hc))
  have hone : ∀ {cs : List Content}, ¬ 1 < cs.length → ∀ c, mergeAll cs c = c :=
    fun hcs c => if_pos (Nat.not_lt.mp hcs)
  intro c hc
  rcases mem_bucketContents_iff.mp hc with ⟨e, he, -, hitem⟩ | hshared
  · by_cases hs : isProgenitorSuccess e.1 = true
    · have hmem := mem_ownContents_iff.mpr ⟨e, he, hs, hitem⟩
      by_cases hlength : 1 < (firstBodies op).length
      · rw [← hsuccessLength] at hlength
        exact hseveral hsuccess hlength c (List.mem_append_left _ hmem)
      · rw [hsuccessContents] at hmem
        obtain ⟨a, -, rfl⟩ := List.mem_map.mp hmem
        rw [hone hlength]
        exact collapsed_keepOne a
    · by_cases hs' : isProgenitorError e.1 = true
      · have hmem := mem_ownContents_iff.mpr ⟨e, he, hs', hitem⟩
        by_cases hlength : 1 < (secondBodies op).length
        · rw [← herrorLength] at hlength
          exact hseveral herror hlength c (List.mem_append_left _ hmem)
        · rw [herrorContents] at hmem
          obtain ⟨b, -, rfl⟩ := List.mem_map.mp hmem
          rw [hone hlength]
          exact collapsed_keepOne b
      · have hother : isOther e.1 = true := by
          unfold isOther
          rw [eq_false_of_ne_true hs, eq_false_of_ne_true hs']
          rfl
        have hmem := mem_ownContents_iff.mpr ⟨e, he, hother, hitem⟩
        rw [hotherContents] at hmem
        obtain ⟨c', -, rfl⟩ := List.mem_map.mp hmem
        exact collapsed_keepOne c'
  · have hmem := mem_defaultContents_iff.mpr hshared
    by_cases hlength : 1 < (firstBodies op).length
    · rw [← hsuccessLength] at hlength
      exact hseveral hsuccess hlength c (List.mem_append_right _ hmem)
    · by_cases hlength' : 1 < (secondBodies op).length
      · rw [← herrorLength] at hlength'
        exact hseveral herror hlength' c (List.mem_append_right _ hmem)
      · rw [hdefaultContents] at hmem
        obtain ⟨shared, hd, rfl⟩ := List.mem_map.mp hmem
        unfold sharedBodies at hd
        obtain ⟨d, -, rfl⟩ := List.mem_map.mp hd
        rw [hone hlength', hone hlength]
        exact collapsed_keepOne d

end Orca.OpenApi.Normalize
