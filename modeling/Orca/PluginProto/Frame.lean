import Orca.Data.Value
import Orca.Library.RecordCodec

/-!
# Frames of the plugin protocol

The frames that cross the socket between the daemon and a plugin, and how `serde` writes them as
JSON and reads them back.  A frame is an object with its `kind` and the fields of its variant, each
with the attributes it has in the source: `default`, and what is skipped when it is written.
`serde` also reads a record that is given as an array of its values, and a tagged one with the tag
first.

A codec carries the proof that it reads what it writes, so that the frames need only their kinds
(`ofJson_toJson`).
-/

namespace Orca.PluginProto

open RecordCodec

/-! ## JSON values -/

/-- `Value::is_null`. -/
def isNull : Json → Bool
  | .null => true
  | _ => false

/-- `Value`. -/
def value : Codec Json Json where
  write := id
  read := some
  read_write _ := rfl

/-- `String`. -/
def text : Codec Json String where
  write := .string
  read := Json.asStr
  read_write _ := rfl

/-- `bool`. -/
def flag : Codec Json Bool where
  write := .bool
  read
    | .bool b => some b
    | _ => none
  read_write _ := rfl

/-- `u64`. -/
def u64 : Codec Json UInt64 where
  write n := .number (.posInt n)
  read := Json.asU64
  read_write _ := rfl

/-- `Vec<T>`. -/
def vec {α : Type} (c : Codec Json α) : Codec Json (List α) where
  write as := .array (as.map c.write)
  read
    | .array vs => vs.mapM c.read
    | _ => none
  read_write as := by
    induction as with
    | nil => rfl
    | cons a as ih =>
      dsimp only at ih ⊢
      rw [List.map_cons, List.mapM_cons, c.read_write, ih]
      rfl

/-- `Option<T>`, where `T` is never written as `null`. -/
def option {α : Type} (c : Codec Json α) (h : ∀ a, isNull (c.write a) = false) :
    Codec Json (Option α) where
  write
    | none => .null
    | some a => c.write a
  read v := if isNull v then some none else (c.read v).map some
  read_write
    | none => rfl
    | some a => by rw [if_neg (by rw [h a]; decide), c.read_write, Option.map_some]

/-- A struct. -/
def record {α : Type} (f : Fields String Json α) : Codec Json α where
  write a := .object (f.write a)
  read
    | .object entries => f.readContent (.map entries)
    | .array vs => f.readContent (.seq vs)
    | _ => none
  read_write a := f.readContent_write a

/-! ## The attributes of fields -/

/-- A field of type `Option<T>` with `default`, skipped if it is `None`. -/
def optional {α : Type} (key : String) (c : Codec Json α) (h : ∀ a, isNull (c.write a) = false) :
    Fields String Json (Option α) :=
  defaulted key (option c h) none Option.isNone fun _ => Option.isNone_iff_eq_none.mp

/-- A field of type `Option<String>` with `default`, skipped if it is `None`. -/
def optionalText (key : String) : Fields String Json (Option String) :=
  optional key text fun _ => rfl

/-- A field of type `Option<bool>` with `default`, skipped if it is `None`. -/
def optionalFlag (key : String) : Fields String Json (Option Bool) :=
  optional key flag fun _ => rfl

/-- A field of type `Vec<T>` with `default`, skipped if it is empty. -/
def unlessEmpty {α : Type} (key : String) (c : Codec Json α) : Fields String Json (List α) :=
  defaulted key (vec c) [] List.isEmpty fun _ => List.isEmpty_iff.mp

/-- A field of type `Value` with `default`, skipped if it is `null`. -/
def unlessNull (key : String) : Fields String Json Json :=
  defaulted key value .null isNull fun v h => by
    cases v <;> first | rfl | exact nomatch h

/-- A field with `default`, always written. -/
def always {α : Type} (key : String) (c : Codec Json α) (dflt : α) : Fields String Json α :=
  defaulted key c dflt (fun _ => false) nofun

/-! ## Records in frames -/

/-- `ToolDef`. -/
structure ToolDef where
  /-- The stable id of the tool. -/
  id : Option String
  name : String
  description : String
  inputSchema : Json
  outputSchema : Json
  role : Option String
  /-- The tool executes by default and plans on request. -/
  executeGated : Option Bool
  risk : Option String
  /-- The tool knows of dry runs. -/
  dryRunAware : Bool
  /-- The tool writes to an external system. -/
  dataMutation : Option Bool
  /-- The tool is refused to peers. -/
  localOnly : Option Bool
  reaches : List String
  toolCalls : List String
  /-- The tool may be called by tools. -/
  toolCallable : Option Bool
  /-- The tool is for remote administration. -/
  remoteAdmin : Option Bool

/-- The fields of a `ToolDef`. -/
def toolDef : Codec Json ToolDef :=
  record <| Fields.iso
    ((optionalText "id").and <| (required "name" text).and <| (required "description" text).and <|
      (required "input_schema" value).and <| (required "output_schema" value).and <|
      (optionalText "role").and <| (optionalFlag "execute_gated").and <|
      (optionalText "risk").and <|
      (defaulted "dry_run_aware" flag false (!·) fun _ => Bool.not_eq_true' _ |>.mp).and <|
      (optionalFlag "data_mutation").and <| (optionalFlag "local_only").and <|
      (unlessEmpty "reaches" text).and <| (unlessEmpty "tool_calls" text).and <|
      (optionalFlag "tool_callable").and <| optionalFlag "remote_admin")
    (fun (i, n, d, is, os, r, e, k, y, m, l, rs, cs, c, a) =>
      ⟨i, n, d, is, os, r, e, k, y, m, l, rs, cs, c, a⟩)
    (fun t => (t.id, t.name, t.description, t.inputSchema, t.outputSchema, t.role, t.executeGated,
      t.risk, t.dryRunAware, t.dataMutation, t.localOnly, t.reaches, t.toolCalls, t.toolCallable,
      t.remoteAdmin))
    fun _ => rfl

/-- `ApiSurfaceRef`. -/
structure ApiSurfaceRef where
  name : String
  sha256 : String
  format : String

/-- The fields of an `ApiSurfaceRef`. -/
def apiSurfaceRef : Codec Json ApiSurfaceRef :=
  record <| Fields.iso
    ((required "name" text).and <| (required "sha256" text).and <| required "format" text)
    (fun (n, s, f) => ⟨n, s, f⟩) (fun a => (a.name, a.sha256, a.format)) fun _ => rfl

/-- `VerifiedCaller`. -/
structure VerifiedCaller where
  userId : String
  username : String
  role : String
  /-- The user may write to external systems. -/
  canMutate : Bool

/-- The fields of a `VerifiedCaller`. -/
def verifiedCaller : Codec Json VerifiedCaller :=
  record <| Fields.iso
    ((required "user_id" text).and <| (required "username" text).and <|
      (required "role" text).and <| always "can_mutate" flag false)
    (fun (u, n, r, m) => ⟨u, n, r, m⟩) (fun c => (c.userId, c.username, c.role, c.canMutate))
    fun _ => rfl

/-! ## Frames -/

/-- `Frame`. -/
inductive Frame where
  /-- Plugin to daemon, the first frame: who the plugin is and what it offers. -/
  | hello (protocol plugin version : String) (manifest : List ToolDef) (backends : List Json)
      (schema : Json) (apiSurfaces : List ApiSurfaceRef)
  /-- Daemon to plugin: the handshake is accepted. -/
  | welcome (protocol : String) (capabilities : List String)
  /-- Daemon to plugin: invoke a tool. -/
  | invoke (id : UInt64) (tool : String) (args : Json) (caller : Option VerifiedCaller)
      (callChain : List String)
  /-- Plugin to daemon: the result of an `invoke`. -/
  | result (id : UInt64) (ok : Bool) (value : Json) (error errorKind : Option String)
  /-- Plugin to daemon: call a capability of the host. -/
  | cap (id : UInt64) (cap : String) (args : Json) (invoke : Option UInt64)
  /-- Daemon to plugin: the result of a `cap`. -/
  | capResult (id : UInt64) (ok : Bool) (value : Json) (error errorKind : Option String)
  /-- Daemon to plugin: a chunk of the result of a streaming capability. -/
  | capStreamChunk (id seq : UInt64) (data : Json)
  /-- Daemon to plugin: the end of the chunks. -/
  | capStreamEnd (id : UInt64) (ok : Bool) (error : Option String)
  /-- Plugin to daemon: ask for an API surface. -/
  | surfaceGet (id : UInt64) (name : String)
  /-- Daemon to plugin: an API surface. -/
  | surface (id : UInt64) (ok : Bool) (body : String) (error : Option String)
  /-- Plugin to daemon: a line of the log. -/
  | log (level msg : String) (fields : Json)
  | shutdown

/-- The fields of a `Hello`. -/
def helloFields := (required "protocol" text).and <| (required "plugin" text).and <|
  (required "version" text).and <| (always "manifest" (vec toolDef) []).and <|
  (always "backends" (vec value) []).and <| (unlessNull "schema").and <|
  unlessEmpty "api_surfaces" apiSurfaceRef

/-- The fields of a `Welcome`. -/
def welcomeFields := (required "protocol" text).and <| always "capabilities" (vec text) []

/-- The fields of an `Invoke`. -/
def invokeFields := (required "id" u64).and <| (required "tool" text).and <|
  (required "args" value).and <| (optional "caller" verifiedCaller fun _ => rfl).and <|
  unlessEmpty "call_chain" text

/-- The fields of a `Result`. -/
def resultFields := (required "id" u64).and <| (required "ok" flag).and <|
  (unlessNull "value").and <| (optionalText "error").and <| optionalText "error_kind"

/-- The fields of a `Cap`. -/
def capFields := (required "id" u64).and <| (required "cap" text).and <|
  (required "args" value).and <| optional "invoke" u64 fun _ => rfl

/-- The fields of a `CapResult`. -/
def capResultFields := resultFields

/-- The fields of a `CapStreamChunk`. -/
def capStreamChunkFields := (required "id" u64).and <| (required "seq" u64).and <|
  required "data" value

/-- The fields of a `CapStreamEnd`. -/
def capStreamEndFields := (required "id" u64).and <| (required "ok" flag).and <|
  optionalText "error"

/-- The fields of a `SurfaceGet`. -/
def surfaceGetFields := (required "id" u64).and <| required "name" text

/-- The fields of a `Surface`. -/
def surfaceFields := (required "id" u64).and <| (required "ok" flag).and <|
  (defaulted "body" text "" String.isEmpty fun _ => String.isEmpty_iff.mp).and <|
  optionalText "error"

/-- The fields of a `Log`. -/
def logFields := (required "level" text).and <| (required "msg" text).and <| unlessNull "fields"

/-- A `Shutdown` has no fields. -/
def shutdownFields : Fields String Json Unit := Fields.unit

/-- The name of the variant, in `snake_case`. -/
def Frame.kind : Frame → String
  | .hello .. => "hello"
  | .welcome .. => "welcome"
  | .invoke .. => "invoke"
  | .result .. => "result"
  | .cap .. => "cap"
  | .capResult .. => "cap_result"
  | .capStreamChunk .. => "cap_stream_chunk"
  | .capStreamEnd .. => "cap_stream_end"
  | .surfaceGet .. => "surface_get"
  | .surface .. => "surface"
  | .log .. => "log"
  | .shutdown => "shutdown"

/-- The fields of the variant. -/
def Frame.body : Frame → List (String × Json)
  | .hello p pl v m b s a => helloFields.write (p, pl, v, m, b, s, a)
  | .welcome p c => welcomeFields.write (p, c)
  | .invoke i t a c ch => invokeFields.write (i, t, a, c, ch)
  | .result i o v e k => resultFields.write (i, o, v, e, k)
  | .cap i c a inv => capFields.write (i, c, a, inv)
  | .capResult i o v e k => capResultFields.write (i, o, v, e, k)
  | .capStreamChunk i s d => capStreamChunkFields.write (i, s, d)
  | .capStreamEnd i o e => capStreamEndFields.write (i, o, e)
  | .surfaceGet i n => surfaceGetFields.write (i, n)
  | .surface i o b e => surfaceFields.write (i, o, b, e)
  | .log l m f => logFields.write (l, m, f)
  | .shutdown => shutdownFields.write ()

/-- `Serialize` of a frame: an object with the `kind` first. -/
def Frame.toJson (f : Frame) : Json := .object (("kind", .string f.kind) :: f.body)

/-- The variant of a name. -/
def readVariant (kind : String) (c : Content String Json) : Option Frame :=
  match kind with
  | "hello" => (helloFields.readContent c).map fun (p, pl, v, m, b, s, a) => .hello p pl v m b s a
  | "welcome" => (welcomeFields.readContent c).map fun (p, c) => .welcome p c
  | "invoke" => (invokeFields.readContent c).map fun (i, t, a, c, ch) => .invoke i t a c ch
  | "result" => (resultFields.readContent c).map fun (i, o, v, e, k) => .result i o v e k
  | "cap" => (capFields.readContent c).map fun (i, c, a, inv) => .cap i c a inv
  | "cap_result" => (capResultFields.readContent c).map fun (i, o, v, e, k) => .capResult i o v e k
  | "cap_stream_chunk" =>
    (capStreamChunkFields.readContent c).map fun (i, s, d) => .capStreamChunk i s d
  | "cap_stream_end" => (capStreamEndFields.readContent c).map fun (i, o, e) => .capStreamEnd i o e
  | "surface_get" => (surfaceGetFields.readContent c).map fun (i, n) => .surfaceGet i n
  | "surface" => (surfaceFields.readContent c).map fun (i, o, b, e) => .surface i o b e
  | "log" => (logFields.readContent c).map fun (l, m, f) => .log l m f
  | "shutdown" => (shutdownFields.readContent c).map fun _ => .shutdown
  | _ => none

/-- `Deserialize` of a frame: the tag is taken out, and the rest is read as the variant it names. -/
def Frame.ofJson : Json → Option Frame
  | .object entries =>
    match valuesOf "kind" entries with
    | [.string kind] => readVariant kind (.map (entries.filter (·.1 ≠ "kind")))
    | _ => none
  | .array (.string kind :: vs) => readVariant kind (.seq vs)
  | _ => none

/-! ## Reading frames back -/

lemma ne_kind_of_mem_body (f : Frame) : ∀ e ∈ f.body, e.1 ≠ "kind" := by
  cases f <;> exact Fields.ne_of_mem_write (by decide) _

lemma readVariant_body (f : Frame) : readVariant f.kind (.map f.body) = some f := by
  cases f <;>
    simp only [Frame.kind, Frame.body, readVariant, Fields.readContent_write, Option.map_some]

/-- **Frames.**  Every frame is read back from what is written of it. -/
theorem ofJson_toJson (f : Frame) : Frame.ofJson f.toJson = some f := by
  have htag : valuesOf "kind" (("kind", .string f.kind) :: f.body) = [Json.string f.kind] := by
    rw [← List.singleton_append, valuesOf_append, valuesOf_singleton,
      valuesOf_eq_nil (ne_kind_of_mem_body f), List.append_nil]
  have hrest : (("kind", Json.string f.kind) :: f.body).filter (·.1 ≠ "kind") = f.body := by
    rw [List.filter_cons_of_neg (by simp), List.filter_eq_self]
    exact fun e he => decide_eq_true (ne_kind_of_mem_body f e he)
  rw [Frame.toJson, Frame.ofJson, htag, hrest]
  exact readVariant_body f

end Orca.PluginProto
