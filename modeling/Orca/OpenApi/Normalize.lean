import Orca.Data.Text
import Orca.Data.Value
import Orca.Library.KeyedTable

/-!
# Preparing a document for the code generator

The code generator rejects documents that are valid but inconvenient to it: operations without an
id, several media types for one body, several types for the successes or for the errors of an
operation.  `forProgenitor` removes these obstacles in seven passes over the operations: the model
of `openapi/src/normalize.rs`.

A schema is the JSON value it is serialized to, with the keys of its objects in order, so that
equality of schemas is the comparison of `push_distinct`.  A pass returns what it adds to its field
of the report.
-/

namespace Orca.OpenApi.Normalize

/-! ## Documents -/

/-- `ReferenceOr`. -/
inductive ReferenceOr (α : Type) where
  /-- A reference to a reusable object. -/
  | reference (name : String)
  | item (x : α)

/-- An inline object is rewritten, and a reference is left alone. -/
def ReferenceOr.map {α β : Type} (f : α → β) : ReferenceOr α → ReferenceOr β
  | .reference name => .reference name
  | .item x => .item (f x)

/-- The object that is inline. -/
def ReferenceOr.item? {α : Type} : ReferenceOr α → Option α
  | .reference _ => none
  | .item x => some x

/-- `MediaType`. -/
structure MediaType where
  schema : Option Json := none
deriving DecidableEq

/-- The media types of a body, by their names. -/
abbrev Content := KeyedTable (Prod.fst : String × MediaType → String)

/-- `Response`. -/
structure Response where
  /-- The media types of the body. -/
  content : Content

/-- `RequestBody`. -/
structure RequestBody where
  /-- The media types of the body. -/
  content : Content

/-- `StatusCode`. -/
inductive StatusCode where
  | code (c : UInt16)
  /-- All statuses with a first digit. -/
  | range (r : UInt16)
deriving DecidableEq

/-- `QueryStyle`. -/
inductive QueryStyle where
  /-- `style: form`. -/
  | form
  /-- `style: spaceDelimited`. -/
  | spaceDelimited
  /-- `style: pipeDelimited`. -/
  | pipeDelimited
  /-- `style: deepObject`. -/
  | deepObject

/-- `Parameter`. -/
inductive Parameter where
  | query (name : String) (style : QueryStyle)
  | header (name : String)
  | path (name : String)
  | cookie (name : String)

/-- The responses of an operation, by their statuses. -/
abbrev Responses := KeyedTable (Prod.fst : StatusCode × ReferenceOr Response → StatusCode)

/-- `Operation`. -/
structure Operation where
  /-- The name of the generated function. -/
  operationId : Option String
  parameters : List (ReferenceOr Parameter)
  requestBody : Option (ReferenceOr RequestBody)
  responses : Responses
  /-- The response of every other status. -/
  default : Option (ReferenceOr Response)

/-- The methods that a path can have an operation for. -/
inductive Method where
  | get
  | put
  | post
  | delete
  | options
  | head
  | patch
  | trace
deriving DecidableEq

/-- The methods in the order in which the passes go over them. -/
def Method.all : List Method := [.get, .put, .post, .delete, .options, .head, .patch, .trace]

/-- The name of the field of a method. -/
def Method.name : Method → String
  | .get => "get"
  | .put => "put"
  | .post => "post"
  | .delete => "delete"
  | .options => "options"
  | .head => "head"
  | .patch => "patch"
  | .trace => "trace"

/-- `PathItem`. -/
structure PathItem where
  parameters : List (ReferenceOr Parameter)
  operation : Method → Option Operation

/-- `OpenAPI`. -/
structure OpenAPI where
  paths : List (String × ReferenceOr PathItem)

/-- `NormalizeReport`. -/
structure NormalizeReport where
  synthesizedIds : List (String × String × String) := []
  /-- Operations whose body became raw bytes. -/
  rewroteMultipart : List String := []
  /-- Requests with media types that were dropped. -/
  collapsedRequests : List (String × String × List String) := []
  /-- Responses with media types that were dropped. -/
  collapsedResponses : List (String × String × List String) := []
  /-- Operations whose success responses were given one schema. -/
  mergedSuccessResponses : List (String × List String × Nat) := []
  /-- Operations whose error responses were given one schema. -/
  mergedErrorResponses : List (String × List String × Nat) := []
  /-- Query parameters that were given another style. -/
  rewroteDeepobjectParams : List (String × String) := []
deriving DecidableEq

/-! ## Passes over the operations -/

/-- What a pass does to the operation of a method of a path, and what it reports. -/
abbrev OperationPass (α : Type) := Method → String → Operation → Operation × List α

/-- Every operation of a document is rewritten. -/
def mapOperations (f : Method → String → Operation → Operation) (spec : OpenAPI) : OpenAPI where
  paths := spec.paths.map fun entry => (entry.1, entry.2.map fun item =>
    { item with operation := fun method => (item.operation method).map (f method entry.1) })

/-- What is reported of each operation of a document. -/
def flatMapOperations {α : Type} (f : Method → String → Operation → List α) (spec : OpenAPI) :
    List α :=
  spec.paths.flatMap fun entry =>
    match entry.2 with
    | .reference _ => []
    | .item item => Method.all.flatMap fun method =>
        match item.operation method with
        | none => []
        | some op => f method entry.1 op

/-- `for_each_op_mut`. -/
def forEachOp {α : Type} (f : OperationPass α) (spec : OpenAPI) : OpenAPI × List α :=
  (mapOperations (fun method path op => (f method path op).1) spec,
    flatMapOperations (fun method path op => (f method path op).2) spec)

/-- The method, in upper case, and the path. -/
def operationLabel (method : Method) (path : String) : String := method.name.toUpper ++ " " ++ path

/-! ## Ids -/

/-- One pass of the replacement of two underscores by one. -/
def replaceDouble : List Char → List Char
  | '_' :: '_' :: rest => '_' :: replaceDouble rest
  | c :: rest => c :: replaceDouble rest
  | [] => []

/-- Whether there are two underscores in a row. -/
def hasDouble : List Char → Bool
  | '_' :: '_' :: _ => true
  | _ :: rest => hasDouble rest
  | [] => false

/-- A replacement does not make a text longer. -/
lemma length_replaceDouble_le (l : List Char) : (replaceDouble l).length ≤ l.length := by
  fun_induction replaceDouble l with
  | case1 rest ih =>
    simp only [List.length_cons]
    omega
  | case2 c rest _ ih =>
    simp only [List.length_cons]
    omega
  | case3 => exact Nat.le_refl _

/-- A replacement makes a text shorter if there is something to replace. -/
lemma length_replaceDouble_lt {l : List Char} (h : hasDouble l = true) :
    (replaceDouble l).length < l.length := by
  fun_induction hasDouble l with
  | case1 rest =>
    have hle := length_replaceDouble_le rest
    rw [replaceDouble]
    simp only [List.length_cons]
    omega
  | case2 c rest hne ih =>
    rw [replaceDouble]
    · have hlt := ih h
      simp only [List.length_cons]
      omega
    · exact hne
  | case3 => cases h

/-- Underscores are replaced as long as there are two in a row. -/
def collapseDouble (l : List Char) : List Char :=
  if h : hasDouble l = true then
    have _ := length_replaceDouble_lt h
    collapseDouble (replaceDouble l)
  else l
termination_by l.length

/-- `synth_id`. -/
def synthId (method path : String) : String :=
  let slug := path.toList.map fun c =>
    if ('a' ≤ c ∧ c ≤ 'z') ∨ ('A' ≤ c ∧ c ≤ 'Z') ∨ ('0' ≤ c ∧ c ≤ '9') then c else '_'
  String.ofList
    ((collapseDouble (method.toList ++ slug)).reverse.dropWhile fun c => c == '_').reverse

/-- What `synthesize_operation_ids` does to an operation. -/
def synthesizeOperationId : OperationPass (String × String × String) := fun method path op =>
  match op.operationId with
  | some _ => (op, [])
  | none =>
      let id := synthId method.name path
      ({ op with operationId := some id }, [(method.name, path, id)])

/-! ## Bodies of requests -/

/-- Whether a text starts with another. -/
def startsWith (s start : String) : Bool := start.toList.isPrefixOf s.toList

/-- `octet_stream_media_type`. -/
def octetStreamMediaType : MediaType where
  schema := some (.object [("format", .string "binary"), ("type", .string "string")])

/-- The only media type of a body of raw bytes. -/
def octetStreamContent : Content where
  rows := [("application/octet-stream", octetStreamMediaType)]
  nodup := List.nodup_singleton _

/-- What `rewrite_multipart_to_octet_stream` does to an operation. -/
def rewriteMultipart : OperationPass String := fun method path op =>
  match op.requestBody with
  | some (.item body) =>
      if body.content.rows.any fun e => startsWith e.1 "multipart/" then
        ({ op with requestBody := some (.item { body with content := octetStreamContent }) },
          [operationLabel method path])
      else (op, [])
  | _ => (op, [])

/-! ## One media type -/

/-- `is_json_equivalent`. -/
def isJsonEquivalent (mediaType : String) : Bool :=
  let m := trim (String.ofList (mediaType.toList.takeWhile fun c => c ≠ ';'))
  containsText m "json" || m == "text/plain"

/-- Whether the generator takes a media type for JSON. -/
def isPlainJson (key : String) : Bool :=
  key == "application/json" || startsWith key "application/json;"

/-- The media type that is kept. -/
def jsonKey (content : Content) : Option String :=
  let keys := content.rows.map Prod.fst
  (keys.find? isPlainJson).or (keys.find? fun k => containsText k "json")

/-- `keep_one_json_media_type`. -/
def keepOneJsonMediaType (content : Content) : Content × Option (String × List String) :=
  if content.rows.length ≤ 1 then (content, none)
  else
    match jsonKey content with
    | none => (content, none)
    | some key =>
        let dropped := (content.rows.map Prod.fst).filter fun k => k ≠ key
        let surfaced := dropped.filter fun k => !isJsonEquivalent k
        (content.filter fun e => e.1 == key,
          if surfaced.isEmpty then none else some (key, surfaced))

/-- How a status is printed for debugging. -/
def debugStatus : StatusCode → String
  | .code c => "Code(" ++ toString c ++ ")"
  | .range r => "Range(" ++ toString r ++ ")"

/-- A response keeps one of its media types. -/
def collapseResponse (r : Response) : Response where
  content := (keepOneJsonMediaType r.content).1

/-- What is reported of the media types of a response. -/
def collapseHits (label : String) (r : ReferenceOr Response) :
    List (String × String × List String) :=
  match r with
  | .reference _ => []
  | .item r => ((keepOneJsonMediaType r.content).2.map fun hit => (label, hit)).toList

/-- What `collapse_response_media_types` does to an operation. -/
def collapseResponses : OperationPass (String × String × List String) := fun method path op =>
  let label := operationLabel method path
  ({ op with
      responses := op.responses.modify (fun e => (e.1, e.2.map collapseResponse)) fun _ => rfl
      default := op.default.map fun r => r.map collapseResponse },
    (op.responses.rows.flatMap fun e => collapseHits (label ++ " -> " ++ debugStatus e.1) e.2) ++
      op.default.toList.flatMap (collapseHits (label ++ " -> default")))

/-- What `collapse_request_media_types` does to an operation. -/
def collapseRequest : OperationPass (String × String × List String) := fun method path op =>
  match op.requestBody with
  | some (.item body) =>
      ({ op with
          requestBody :=
            some (.item { body with content := (keepOneJsonMediaType body.content).1 }) },
        ((keepOneJsonMediaType body.content).2.map fun hit =>
          (operationLabel method path, hit)).toList)
  | _ => (op, [])

/-! ## One schema for several statuses -/

/-- `is_progenitor_success`. -/
def isProgenitorSuccess : StatusCode → Bool
  | .code c => c == 101 || (200 ≤ c && c < 300)
  | .range r => r == 2

/-- `is_progenitor_error`. -/
def isProgenitorError : StatusCode → Bool
  | .code c => 400 ≤ c && c < 600
  | .range r => r == 4 || r == 5

/-- `status_label`. -/
def statusLabel : StatusCode → String
  | .code c => toString c
  | .range r => toString r ++ "XX"

/-- `json_schema`. -/
def jsonSchema (content : Content) : Option Json :=
  (content.rows.find? fun e => containsText e.1 "json").bind fun e => e.2.schema

/-- `set_json_schema`. -/
def setJsonSchema (schema : Json) (content : Content) : Content :=
  content.upsert ("application/json", { schema := some schema })
    (fun e => (e.1, { e.2 with schema := some schema })) fun _ h => h

/-- `null_schema`. -/
def nullSchema : Json := .object [("nullable", .bool true), ("type", .string "string")]

/-- The schema of a value that fits one of several schemas. -/
def unionSchema (variants : List Json) : Json := .object [("oneOf", .array variants)]

/-- `push_distinct`. -/
def pushDistinct (out : List Json) (candidate : Json) : List Json :=
  if candidate ∈ out then out else out ++ [candidate]

/-- The contents that are no JSON are cleared. -/
def stripNonJson (content : Content) : Content :=
  if content.rows.any fun e => containsText e.1 "json" then content else .empty

/-- The distinct schemas of some contents, and the null schema if one has none. -/
def collectVariants (contents : List Content) : List Json :=
  let variants := (contents.filterMap jsonSchema).foldl pushDistinct []
  if contents.any fun content => (jsonSchema content).isNone then pushDistinct variants nullSchema
  else variants

/-- The labels of the responses of a bucket. -/
def bucketLabels (inBucket : StatusCode → Bool) (op : Operation) : List String :=
  ((op.responses.rows.filter fun e => inBucket e.1).map fun e => statusLabel e.1) ++
    op.default.toList.map fun _ => "default"

/-- The contents of the inline responses with a status in a bucket. -/
def ownContents (inBucket : StatusCode → Bool) (op : Operation) : List Content :=
  (op.responses.rows.filter fun e => inBucket e.1).filterMap fun e => e.2.item?.map Response.content

/-- The contents of the response of every other status, if it is inline. -/
def defaultContents (op : Operation) : List Content :=
  op.default.toList.filterMap fun r => r.item?.map Response.content

/-- The contents of the inline responses of a bucket. -/
def bucketContents (inBucket : StatusCode → Bool) (op : Operation) : List Content :=
  ownContents inBucket op ++ defaultContents op

/-- The content of every inline response of a bucket is rewritten. -/
def mapBucket (inBucket : StatusCode → Bool) (f : Content → Content) (op : Operation) :
    Operation :=
  let rewrite := ReferenceOr.map fun r : Response => { r with content := f r.content }
  { op with
      responses := op.responses.modify
        (fun e => (e.1, if inBucket e.1 then rewrite e.2 else e.2)) fun _ => rfl
      default := op.default.map rewrite }

/-- `merge_bucket`. -/
def mergeBucket (inBucket : StatusCode → Bool) : OperationPass (String × List String × Nat) :=
  fun method path op =>
    if (bucketLabels inBucket op).length ≤ 1 then (op, [])
    else
      let op := mapBucket inBucket stripNonJson op
      let variants := collectVariants (bucketContents inBucket op)
      if variants.length ≤ 1 then (op, [])
      else
        (mapBucket inBucket (setJsonSchema (unionSchema variants)) op,
          [(operationLabel method path, bucketLabels inBucket op, variants.length)])

/-! ## Styles of parameters -/

/-- A parameter is given a style that the generator accepts. -/
def fixParameter (p : Parameter) : Parameter :=
  match p with
  | .query name .deepObject => .query name .form
  | other => other

/-- The name of a parameter that is given another style. -/
def fixedName (p : ReferenceOr Parameter) : Option String :=
  match p with
  | .item (.query name .deepObject) => some name
  | _ => none

/-- What is reported of some parameters. -/
def fixHits (label : String) (params : List (ReferenceOr Parameter)) : List (String × String) :=
  (params.filterMap fixedName).map fun name => (label, name)

/-- `rewrite_deepobject_query_params`. -/
def rewriteDeepobjectQueryParams (spec : OpenAPI) : OpenAPI × List (String × String) :=
  ({ paths := spec.paths.map fun entry => (entry.1, entry.2.map fun item =>
      { parameters := item.parameters.map (ReferenceOr.map fixParameter)
        operation := fun method => (item.operation method).map fun op =>
          { op with parameters := op.parameters.map (ReferenceOr.map fixParameter) } }) },
    spec.paths.flatMap fun entry =>
      match entry.2 with
      | .reference _ => []
      | .item item => fixHits entry.1 item.parameters ++ Method.all.flatMap fun method =>
          match item.operation method with
          | none => []
          | some op => fixHits (method.name ++ " " ++ entry.1) op.parameters)

/-! ## The passes in order -/

/-- `for_progenitor`. -/
def forProgenitor (spec : OpenAPI) : OpenAPI × NormalizeReport :=
  let (spec, synthesizedIds) := forEachOp synthesizeOperationId spec
  let (spec, rewroteMultipart) := forEachOp rewriteMultipart spec
  let (spec, collapsedResponses) := forEachOp collapseResponses spec
  let (spec, collapsedRequests) := forEachOp collapseRequest spec
  let (spec, mergedSuccessResponses) := forEachOp (mergeBucket isProgenitorSuccess) spec
  let (spec, mergedErrorResponses) := forEachOp (mergeBucket isProgenitorError) spec
  let (spec, rewroteDeepobjectParams) := rewriteDeepobjectQueryParams spec
  let report : NormalizeReport :=
    { synthesizedIds := synthesizedIds
      rewroteMultipart := rewroteMultipart
      collapsedRequests := collapsedRequests
      collapsedResponses := collapsedResponses
      mergedSuccessResponses := mergedSuccessResponses
      mergedErrorResponses := mergedErrorResponses
      rewroteDeepobjectParams := rewroteDeepobjectParams }
  (spec, report)

end Orca.OpenApi.Normalize
