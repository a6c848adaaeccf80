import Orca.OpenApi.Progenitor

/-!
# Documents that are ready for the code generator

`forProgenitor` makes a document with inline responses ready for the code generator if and only if
the bodies of each of its operations are unifiable together (`forProgenitor_ready_iff`).  The
passes go over the operations one by one, so that a document is what they make of each operation;
once all bodies are accepted, each pass finds nothing left to do.
-/

namespace Orca.OpenApi.Normalize

variable {op op' : Operation} {method : Method} {path : String}

/-! ## Documents that are ready -/

section Documents

variable {spec : OpenAPI}

/-- A document has an operation for a method of a path. -/
def HasOperation (spec : OpenAPI) (method : Method) (path : String) (op : Operation) : Prop :=
  ∃ item : PathItem, (path, ReferenceOr.item item) ∈ spec.paths ∧ item.operation method = some op

/-- All responses of a document are inline. -/
def InlineResponses (spec : OpenAPI) : Prop :=
  ∀ method path op, HasOperation spec method path op → Inline op

/-- A document is ready for the generator: its operations are accepted, and there is nothing left
to prepare. -/
def Ready (spec : OpenAPI) : Prop :=
  (∀ method path op, HasOperation spec method path op →
      Accepted isProgenitorSuccess op ∧ Accepted isProgenitorError op) ∧
    forProgenitor spec = (spec, {})

/-- Two passes over the operations are one. -/
lemma mapOperations_mapOperations (f g : Method → String → Operation → Operation) :
    mapOperations g (mapOperations f spec) =
      mapOperations (fun method path op => g method path (f method path op)) spec := by
  unfold mapOperations
  dsimp only
  rw [List.map_map]
  refine congrArg OpenAPI.mk (List.map_congr_left fun entry _ => ?_)
  obtain ⟨path, item⟩ := entry
  cases item with
  | reference name => rfl
  | item item =>
    refine congrArg (fun operation => (path, ReferenceOr.item (PathItem.mk item.parameters
      operation))) (funext fun method => ?_)
    rw [Option.map_map]
    rfl

/-- The parameters of the operations after a pass are given a style. -/
lemma rewriteDeepobjectQueryParams_mapOperations (f : Method → String → Operation → Operation) :
    (rewriteDeepobjectQueryParams (mapOperations f spec)).1 =
      { paths := spec.paths.map fun entry => (entry.1, entry.2.map fun item =>
          { parameters := item.parameters.map (ReferenceOr.map fixParameter)
            operation := fun method => (item.operation method).map fun op =>
              { (f method entry.1 op : Operation) with
                parameters := (f method entry.1 op).parameters.map
                  (ReferenceOr.map fixParameter) } }) } := by
  unfold rewriteDeepobjectQueryParams mapOperations
  dsimp only
  rw [List.map_map]
  refine congrArg OpenAPI.mk (List.map_congr_left fun entry _ => ?_)
  obtain ⟨path, item⟩ := entry
  cases item with
  | reference name => rfl
  | item item =>
    refine congrArg (fun operation => (path, ReferenceOr.item (PathItem.mk
      (item.parameters.map (ReferenceOr.map fixParameter)) operation))) (funext fun method => ?_)
    rw [Option.map_map]
    rfl

/-- What is left of a document. -/
lemma forProgenitor_fst : (forProgenitor spec).1 =
    { paths := spec.paths.map fun entry => (entry.1, entry.2.map fun item =>
        { parameters := item.parameters.map (ReferenceOr.map fixParameter)
          operation := fun method =>
            (item.operation method).map (normalizeOperation method entry.1) }) } := by
  have hpasses : (forProgenitor spec).1 = (rewriteDeepobjectQueryParams
      (mapOperations (fun method path op => (mergeBucket isProgenitorError method path op).1)
        (mapOperations (fun method path op => (mergeBucket isProgenitorSuccess method path op).1)
          (mapOperations (fun method path op => (collapseRequest method path op).1)
            (mapOperations (fun method path op => (collapseResponses method path op).1)
              (mapOperations (fun method path op => (rewriteMultipart method path op).1)
                (mapOperations (fun method path op => (synthesizeOperationId method path op).1)
                  spec))))))).1 := rfl
  rw [hpasses, mapOperations_mapOperations, mapOperations_mapOperations,
    mapOperations_mapOperations, mapOperations_mapOperations, mapOperations_mapOperations,
    rewriteDeepobjectQueryParams_mapOperations]
  unfold normalizeOperation collapseOperation
  dsimp only

/-- The operations of what is left of a document. -/
lemma hasOperation_forProgenitor_iff : HasOperation (forProgenitor spec).1 method path op' ↔
    ∃ op, HasOperation spec method path op ∧ normalizeOperation method path op = op' := by
  rw [forProgenitor_fst]
  unfold HasOperation
  simp only [List.mem_map, Prod.mk.injEq]
  constructor
  · rintro ⟨item', ⟨⟨path', item⟩, hmem, rfl, hitem⟩, hop'⟩
    cases item with
    | reference name => cases hitem
    | item item =>
      obtain rfl := ReferenceOr.item.inj hitem
      obtain ⟨op, hop, rfl⟩ := Option.map_eq_some_iff.mp hop'
      exact ⟨op, ⟨item, hmem, hop⟩, rfl⟩
  · rintro ⟨op, ⟨item, hmem, hop⟩, rfl⟩
    exact ⟨_, ⟨_, hmem, rfl, rfl⟩, congrArg (Option.map (normalizeOperation method path)) hop⟩

/-- A pass that leaves every operation alone leaves the document alone. -/
lemma forEachOp_eq_self {α : Type} {f : OperationPass α}
    (h : ∀ method path op, HasOperation spec method path op → f method path op = (op, [])) :
    forEachOp f spec = (spec, []) := by
  refine Prod.ext ?_ ?_
  · change mapOperations (fun method path op => (f method path op).1) spec = spec
    obtain ⟨paths⟩ := spec
    unfold mapOperations
    refine congrArg OpenAPI.mk ((List.map_congr_left fun entry hentry => ?_).trans (List.map_id' _))
    obtain ⟨path, item⟩ := entry
    cases item with
    | reference name => rfl
    | item item =>
      obtain ⟨parameters, operation⟩ := item
      have hsame : (fun method => (operation method).map fun op => (f method path op).1) =
          operation := by
        funext method
        cases hop : operation method with
        | none => rfl
        | some op => rw [Option.map_some, h method path op ⟨_, hentry, hop⟩]
      exact congrArg (fun operation => (path, ReferenceOr.item (PathItem.mk parameters operation)))
        hsame
  · change flatMapOperations (fun method path op => (f method path op).2) spec = []
    unfold flatMapOperations
    rw [List.flatMap_eq_nil_iff]
    rintro ⟨path, item⟩ hentry
    cases item with
    | reference name => rfl
    | item item =>
      dsimp only
      rw [List.flatMap_eq_nil_iff]
      intro method _
      cases hop : item.operation method with
      | none => rfl
      | some op =>
        dsimp only
        rw [h method path op ⟨item, hentry, hop⟩]

/-- Parameters have styles that the generator accepts. -/
def Fixed (ps : List (ReferenceOr Parameter)) : Prop :=
  ∃ ps' : List (ReferenceOr Parameter), ps = ps'.map (ReferenceOr.map fixParameter)

/-- A parameter that is fixed is left alone and is not reported. -/
lemma fix_fixed (p : ReferenceOr Parameter) :
    (p.map fixParameter).map fixParameter = p.map fixParameter ∧
      fixedName (p.map fixParameter) = none := by
  cases p with
  | reference name => exact ⟨rfl, rfl⟩
  | item p =>
    cases p with
    | query name style => cases style <;> exact ⟨rfl, rfl⟩
    | _ => exact ⟨rfl, rfl⟩

lemma Fixed.map_eq {ps : List (ReferenceOr Parameter)} (h : Fixed ps) :
    ps.map (ReferenceOr.map fixParameter) = ps := by
  obtain ⟨ps', rfl⟩ := h
  rw [List.map_map]
  exact List.map_congr_left fun p _ => (fix_fixed p).1

lemma Fixed.hits {ps : List (ReferenceOr Parameter)} (h : Fixed ps) (label : String) :
    fixHits label ps = [] := by
  obtain ⟨ps', rfl⟩ := h
  unfold fixHits
  rw [List.map_eq_nil_iff, List.filterMap_eq_nil_iff]
  intro p hp
  obtain ⟨p', -, rfl⟩ := List.mem_map.mp hp
  exact (fix_fixed p').2

/-- A document whose parameters are fixed is left alone by the pass over them. -/
lemma rewriteDeepobjectQueryParams_eq_self
    (h : ∀ path item, (path, ReferenceOr.item item) ∈ spec.paths → Fixed item.parameters ∧
      ∀ method op, item.operation method = some op → Fixed op.parameters) :
    rewriteDeepobjectQueryParams spec = (spec, []) := by
  have hsame : ∀ path item, (path, ReferenceOr.item item) ∈ spec.paths →
      PathItem.mk (item.parameters.map (ReferenceOr.map fixParameter))
        (fun method => (item.operation method).map fun op =>
          { op with parameters := op.parameters.map (ReferenceOr.map fixParameter) }) = item := by
    rintro path ⟨parameters, operation⟩ hmem
    obtain ⟨hparameters, hoperation⟩ := h path _ hmem
    refine congrArg₂ PathItem.mk hparameters.map_eq (funext fun method => ?_)
    cases hop : operation method with
    | none => exact congrArg _ hop
    | some op =>
      dsimp only
      rw [hop, Option.map_some, (hoperation method op hop).map_eq]
  unfold rewriteDeepobjectQueryParams
  refine Prod.ext ?_ ?_
  · obtain ⟨paths⟩ := spec
    refine congrArg OpenAPI.mk ((List.map_congr_left fun entry hentry => ?_).trans (List.map_id' _))
    obtain ⟨path, item⟩ := entry
    cases item with
    | reference name => rfl
    | item item =>
      exact congrArg (fun item => (path, ReferenceOr.item item)) (hsame path item hentry)
  · dsimp only
    rw [List.flatMap_eq_nil_iff]
    rintro ⟨path, item⟩ hentry
    cases item with
    | reference name => rfl
    | item item =>
      obtain ⟨hparameters, hoperation⟩ := h path item hentry
      dsimp only
      rw [hparameters.hits, List.nil_append, List.flatMap_eq_nil_iff]
      intro method _
      cases hop : item.operation method with
      | none => rfl
      | some op => exact (hoperation method op hop).hits _

/-- The parameters that are left are fixed. -/
lemma fixed_forProgenitor {item : PathItem}
    (h : (path, ReferenceOr.item item) ∈ (forProgenitor spec).1.paths) : Fixed item.parameters ∧
      ∀ method op, item.operation method = some op → Fixed op.parameters := by
  rw [forProgenitor_fst] at h
  obtain ⟨⟨path', item'⟩, -, heq⟩ := List.mem_map.mp h
  obtain ⟨rfl, hitem⟩ := Prod.mk.inj heq
  cases item' with
  | reference name => cases hitem
  | item item' =>
    obtain rfl := ReferenceOr.item.inj hitem
    refine ⟨⟨_, rfl⟩, fun method op hop => ?_⟩
    obtain ⟨op', -, rfl⟩ := Option.map_eq_some_iff.mp hop
    unfold normalizeOperation
    dsimp only
    exact ⟨_, rfl⟩

lemma rest_normalizeOperation (h : Inline op) (method : Method) (path : String) :
    (normalizeOperation method path op).operationId =
        (collapseOperation method path op).operationId ∧
      (normalizeOperation method path op).requestBody =
        (collapseOperation method path op).requestBody := by
  rw [normalizeOperation_eq h]
  exact ⟨rfl, rfl⟩

/-- No pass has anything to do on an operation. -/
structure LeftAlone (method : Method) (path : String) (op : Operation) : Prop where
  id : synthesizeOperationId method path op = (op, [])
  multipart : rewriteMultipart method path op = (op, [])
  /-- Its responses have one media type each. -/
  responses : collapseResponses method path op = (op, [])
  /-- Its request has one media type. -/
  request : collapseRequest method path op = (op, [])
  /-- Its success responses have one schema. -/
  success : mergeBucket isProgenitorSuccess method path op = (op, [])
  /-- Its error responses have one schema. -/
  error : mergeBucket isProgenitorError method path op = (op, [])

/-- A document whose operations are left alone and whose parameters are fixed is left alone. -/
lemma forProgenitor_eq_self (h : ∀ method path op, HasOperation spec method path op →
      LeftAlone method path op)
    (hfixed : ∀ path item, (path, ReferenceOr.item item) ∈ spec.paths → Fixed item.parameters ∧
      ∀ method op, item.operation method = some op → Fixed op.parameters) :
    forProgenitor spec = (spec, {}) := by
  unfold forProgenitor
  rw [forEachOp_eq_self fun method path op hop => (h method path op hop).id]
  dsimp only
  rw [forEachOp_eq_self fun method path op hop => (h method path op hop).multipart]
  dsimp only
  rw [forEachOp_eq_self fun method path op hop => (h method path op hop).responses]
  dsimp only
  rw [forEachOp_eq_self fun method path op hop => (h method path op hop).request]
  dsimp only
  rw [forEachOp_eq_self fun method path op hop => (h method path op hop).success]
  dsimp only
  rw [forEachOp_eq_self fun method path op hop => (h method path op hop).error]
  dsimp only
  rw [rewriteDeepobjectQueryParams_eq_self hfixed]

/-- An operation whose bodies are accepted after all passes is left alone by each of them. -/
lemma leftAlone_normalizeOperation (h : Inline op)
    (hsuccess : Accepted isProgenitorSuccess (normalizeOperation method path op))
    (herror : Accepted isProgenitorError (normalizeOperation method path op)) :
    LeftAlone method path (normalizeOperation method path op) := by
  obtain ⟨hid, hrequest⟩ := rest_normalizeOperation h method path
  obtain ⟨-, -, -, -, hinline⟩ := contents_normalizeOperation h method path
  obtain ⟨hjson, hjson'⟩ := allJson_normalizeOperation h method path
  refine ⟨synthesizeOperationId_eq_self ?_, rewriteMultipart_eq_self fun body hbody => ?_,
    collapseResponses_eq_self (collapsed_normalizeOperation h hsuccess herror),
    collapseRequest_eq_self fun body hbody => ?_,
    mergeBucket_eq_self hinline ((accepted_iff hinline hjson).mp hsuccess),
    mergeBucket_eq_self hinline ((accepted_iff hinline hjson').mp herror)⟩
  · rw [hid]
    exact id_collapseOperation
  · rw [hrequest] at hbody
    exact (request_collapseOperation hbody).1
  · rw [hrequest] at hbody
    exact (request_collapseOperation hbody).2

/-- A document with inline responses is ready after all passes if and only if the bodies of each of
its operations are unifiable together. -/
theorem forProgenitor_ready_iff (h : InlineResponses spec) : Ready (forProgenitor spec).1 ↔
    ∀ method path op, HasOperation spec method path op →
      UnifiableTogether (ownContents isProgenitorSuccess op) (ownContents isProgenitorError op)
        (defaultContents op) := by
  constructor
  · rintro ⟨haccepted, -⟩ method path op hop
    exact (accepted_normalizeOperation_iff (h _ _ _ hop) method path).mp
      (haccepted method path _ (hasOperation_forProgenitor_iff.mpr ⟨op, hop, rfl⟩))
  · intro hunifiable
    have haccepted : ∀ method path op, HasOperation (forProgenitor spec).1 method path op →
        ∃ op', Inline op' ∧ normalizeOperation method path op' = op ∧
          Accepted isProgenitorSuccess (normalizeOperation method path op') ∧
            Accepted isProgenitorError (normalizeOperation method path op') := by
      intro method path op hop
      obtain ⟨op', hop', rfl⟩ := hasOperation_forProgenitor_iff.mp hop
      exact ⟨op', h _ _ _ hop', rfl,
        (accepted_normalizeOperation_iff (h _ _ _ hop') method path).mpr (hunifiable _ _ _ hop')⟩
    refine ⟨fun method path op hop => ?_, forProgenitor_eq_self (fun method path op hop => ?_)
      fun path item => fixed_forProgenitor⟩
    · obtain ⟨op', -, rfl, hboth⟩ := haccepted method path op hop
      exact hboth
    · obtain ⟨op', hinline, rfl, hsuccess, herror⟩ := haccepted method path op hop
      exact leftAlone_normalizeOperation hinline hsuccess herror

end Documents

/-! ## An operation whose merges get into each other's way -/

/-- A body with one JSON schema. -/
def jsonContent (type : String) : Content where
  rows := [("application/json", { schema := some (.object [("type", .string type)]) })]
  nodup := List.nodup_singleton _

/-- A response with one JSON schema. -/
def jsonResponse (type : String) : ReferenceOr Response := .item { content := jsonContent type }

/-- An operation with a success response, an error response and a response for other statuses. -/
def threeResponses (success error other : String) : Operation where
  operationId := some "get_a"
  parameters := []
  requestBody := none
  responses :=
    { rows := [(.code 200, jsonResponse success), (.code 404, jsonResponse error)]
      nodup := (by decide : [StatusCode.code 200, StatusCode.code 404].Nodup) }
  default := some (jsonResponse other)

/-- A document with one operation. -/
def oneOperation (op : Operation) : OpenAPI where
  paths := [("/a", .item
    { parameters := []
      operation := fun method => if method = .get then some op else none })]

/-- The operation of a document with one operation. -/
lemma hasOperation_oneOperation_iff : HasOperation (oneOperation op) method path op' ↔
    method = .get ∧ path = "/a" ∧ op' = op := by
  unfold HasOperation oneOperation
  simp only [List.mem_singleton, Prod.mk.injEq, ReferenceOr.item.injEq]
  constructor
  · rintro ⟨item, ⟨rfl, rfl⟩, hop⟩
    dsimp only at hop
    split at hop
    · rename_i hmethod
      exact ⟨hmethod, rfl, (Option.some.inj hop).symm⟩
    · cases hop
  · rintro ⟨rfl, rfl, rfl⟩
    exact ⟨_, ⟨rfl, rfl⟩, rfl⟩

lemma inline_threeResponses (success error other : String) :
    Inline (threeResponses success error other) := by
  refine ⟨fun e he => ?_, fun r hr => ⟨_, (Option.some.inj hr).symm⟩⟩
  rcases List.mem_cons.mp he with rfl | he
  · exact ⟨_, rfl⟩
  · rw [List.mem_singleton.mp he]
    exact ⟨_, rfl⟩

/-- With three different schemas the merge of the error responses gives the shared response a
schema that the success response does not have. -/
theorem second_merge_undoes_the_first :
    InlineResponses (oneOperation (threeResponses "string" "integer" "boolean")) ∧
      ¬ Ready (forProgenitor (oneOperation (threeResponses "string" "integer" "boolean"))).1 := by
  refine ⟨fun method path op hop => ?_, fun h => ?_⟩
  · rw [(hasOperation_oneOperation_iff.mp hop).2.2]
    exact inline_threeResponses _ _ _
  · have hop := hasOperation_oneOperation_iff.mpr
      ⟨rfl, rfl, (rfl : threeResponses "string" "integer" "boolean" = _)⟩
    have hagree := (h.1 _ _ _ (hasOperation_forProgenitor_iff.mpr ⟨_, hop, rfl⟩)).1.1
    obtain ⟨hsuccess, -, hdefault, -, -⟩ := contents_normalizeOperation
      (inline_threeResponses "string" "integer" "boolean") .get "/a"
    unfold bucketContents at hagree
    rw [hsuccess, hdefault] at hagree
    have hne := hagree _ (List.mem_append_left _ List.mem_cons_self) _
      (List.mem_append_right _ List.mem_cons_self)
    revert hne
    decide

/-- A document whose three responses have one schema is ready after all passes. -/
theorem one_schema_is_ready :
    Ready (forProgenitor (oneOperation (threeResponses "string" "string" "string"))).1 := by
  refine (forProgenitor_ready_iff fun method path op hop => ?_).mpr fun method path op hop => ?_
  · rw [(hasOperation_oneOperation_iff.mp hop).2.2]
    exact inline_threeResponses _ _ _
  · rw [(hasOperation_oneOperation_iff.mp hop).2.2]
    have hsettled : Settled [jsonContent "string", jsonContent "string"] := by
      refine ⟨some (.object [("type", .string "string")]), fun c hc => ⟨"application/json", ?_⟩⟩
      rw [List.eq_of_mem_replicate (n := 2) hc]
      rfl
    exact Or.inr ⟨⟨List.cons_ne_nil _ _, List.cons_ne_nil _ _, List.cons_ne_nil _ _⟩,
      Or.inl ⟨hsettled, hsettled⟩⟩

end Orca.OpenApi.Normalize
