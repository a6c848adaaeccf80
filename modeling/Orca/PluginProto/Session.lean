import Orca.Library.Emission
import Orca.Library.RemoteCall
import Orca.PluginProto.Frame

/-!
# The session of a plugin

The daemon and a plugin share one socket.  The daemon holds the session while it sends one `Invoke`
or `SurfaceGet` and reads until the answer; the plugin runs one tool at a time, and while it waits
for a capability it reads from the same socket.  What is in the socket are two queues of frames.

The functions that look at a frame stand first, one for each loop of the source that reads
(`invokeOn`, `surfaceGetOn`, `drain`, `serveSession`, `capSink`, `capStreamSink`).  `advance` is one
step of either side.  A read of the daemon that times out may have lost the start of a frame, and a
write that fails may have left a part of one: nothing is read any more behind the former
(`torn_not_read`), and at most one frame of the same kind at the latter (`cut_frames_read`).  This
is not so for a `Shutdown` that was cut short, but nothing is sent behind that one.
-/

namespace Orca.PluginProto.Session

/-! ## What the frames carry -/

/-- What an `Invoke` asks for. -/
structure ToolCall where
  tool : String
  args : Json
  caller : Option VerifiedCaller
  /-- The plugins between the caller and the tool. -/
  callChain : List String

/-- What the daemon sends and waits for. -/
inductive Exchange where
  | invoke (id : UInt64) (call : ToolCall)
  /-- An API surface is asked for. -/
  | surfaceGet (id : UInt64) (name : String)

/-- The id that the answer repeats. -/
def Exchange.id : Exchange → UInt64
  | .invoke id _ | .surfaceGet id _ => id

/-- The frame that is sent. -/
def Exchange.frame : Exchange → Frame
  | .invoke id call => .invoke id call.tool call.args call.caller call.callChain
  | .surfaceGet id name => .surfaceGet id name

/-- What comes back. -/
inductive Answer where
  /-- The fields of a `Result`. -/
  | result (ok : Bool) (value : Json) (error errorKind : Option String)
  /-- The fields of a `Surface`. -/
  | surface (ok : Bool) (body : String) (error : Option String)

/-- The frame that comes back. -/
def Answer.frame (id : UInt64) : Answer → Frame
  | .result ok value error errorKind => .result id ok value error errorKind
  | .surface ok body error => .surface id ok body error

/-- A `Cap`. -/
structure Request where
  /-- The id that the replies repeat. -/
  id : UInt64
  /-- The invoke that it is part of. -/
  invoke : Option UInt64
  cap : String
  args : Json

/-- The frame of a `Cap`. -/
def Request.frame (r : Request) : Frame := .cap r.id r.cap r.args r.invoke

/-- What the daemon replies to a `Cap`. -/
inductive Reply where
  /-- The fields of a `CapResult`. -/
  | result (ok : Bool) (value : Json) (error errorKind : Option String)
  /-- The fields of a `CapStreamChunk`. -/
  | chunk (seq : UInt64) (data : Json)
  /-- The fields of a `CapStreamEnd`. -/
  | streamEnd (ok : Bool) (error : Option String)

/-- The frame of a reply. -/
def Reply.frame (id : UInt64) : Reply → Frame
  | .result ok value error errorKind => .capResult id ok value error errorKind
  | .chunk seq data => .capStreamChunk id seq data
  | .streamEnd ok error => .capStreamEnd id ok error

/-! ## The loops of the daemon -/

/-- `is_streaming_cap`. -/
def isStreamingCap (cap : String) : Bool := cap == "http.stream"

/-- What the daemon makes of a frame. -/
inductive Heard where
  | answer (a : Answer)
  | cap (r : Request)
  | refused
  | ignored

/-- A frame in the loop of `invoke_on`. -/
def invokeOn (id : UInt64) : Frame → Heard
  | .result rid ok value error errorKind =>
    if rid = id then .answer (.result ok value error errorKind) else .ignored
  | .cap capId cap args invoke =>
    if invoke.any (· ≠ id) then .refused else .cap ⟨capId, invoke, cap, args⟩
  | _ => .ignored

/-- A frame in the loop of `surface_get_on`. -/
def surfaceGetOn (id : UInt64) : Frame → Heard
  | .surface rid ok body error => if rid = id then .answer (.surface ok body error) else .refused
  | .log .. => .ignored
  | _ => .refused

/-- A frame in the loop of `drain`. -/
def drain (stale : UInt64) : Frame → Heard
  | .result id ok value error errorKind =>
    if id = stale then .answer (.result ok value error errorKind) else .ignored
  | .cap .. => .refused
  | _ => .ignored

/-! ## The loops of the plugin -/

/-- What the loop of `serve_session` makes of a frame. -/
inductive Served where
  /-- A tool is run, or a surface is looked up. -/
  | start (k : Exchange)
  | stop
  | ignored

/-- A frame in the loop of `serve_session`. -/
def serveSession : Frame → Served
  | .invoke id tool args caller callChain => .start (.invoke id ⟨tool, args, caller, callChain⟩)
  | .surfaceGet id name => .start (.surfaceGet id name)
  | .shutdown => .stop
  | _ => .ignored

/-- `surface_reply`. -/
def surfaceReply (surfaces : List (String × String)) (name : String) : Answer :=
  match surfaces.find? (·.1 == name) with
  | some (_, body) => .surface true body none
  | none => .surface false "" (some s!"no api surface \x60{name}\x60")

/-- What a tool that waits for a capability makes of a frame. -/
inductive Sunk where
  /-- A part of the reply, after which it goes on reading. -/
  | part (b : Reply)
  /-- The reply, or the end of it. -/
  | last (b : Reply)
  | ignored
  /-- The frame was meant for the loop of `serve_session`. -/
  | desynced

/-- A frame that has nothing to do with this request. -/
def otherFrame : Frame → Sunk
  | .log .. | .capResult .. | .capStreamChunk .. | .capStreamEnd .. => .ignored
  | _ => .desynced

/-- A frame in the loop of `cap_sink`. -/
def capSink (id : UInt64) : Frame → Sunk
  | .capResult rid ok value error errorKind =>
    if rid = id then .last (.result ok value error errorKind) else .ignored
  | f => otherFrame f

/-- A frame in the loop of `cap_stream_sink`. -/
def capStreamSink (id : UInt64) : Frame → Sunk
  | .capStreamChunk rid seq data => if rid = id then .part (.chunk seq data) else .ignored
  | .capStreamEnd rid ok error => if rid = id then .last (.streamEnd ok error) else .ignored
  | f => otherFrame f

/-- The loop of the sink that the tool has called. -/
def sink (id : UInt64) (stream : Bool) (f : Frame) : Sunk :=
  if stream then capStreamSink id f else capSink id f

/-! ## The two sides -/

/-- `SessionState`. -/
inductive SessionState where
  | healthy
  /-- The invoke with this id went silent. -/
  | stale (id : UInt64)
  /-- The stream may hold a part of a frame. -/
  | broken

/-- What a thread wants from the session. -/
inductive Job where
  /-- `invoke`, with the id that it has taken. -/
  | invoke (id : UInt64) (call : ToolCall)
  | fetchSurface (name : String)

/-- How far the thread that holds the session is. -/
inductive Phase where
  | idle
  /-- `invoke` waits for the result of an earlier one. -/
  | draining (stale id : UInt64) (call : ToolCall)
  /-- `stop`, before the `Shutdown`; and what is done with a new plugin. -/
  | stopping (next : Option Job)
  /-- `stop`, after the `Shutdown`. -/
  | killing (next : Option Job)
  /-- `respawn`, without a plugin. -/
  | starting (next : Job)
  /-- In front of the frame that is sent. -/
  | sending (next : Job)
  /-- The loop of `invoke_on`. -/
  | awaiting (id : UInt64) (call : ToolCall)
  | serving (id : UInt64) (call : ToolCall) (r : Request)
  | streaming (id : UInt64) (call : ToolCall) (r : Request)
  /-- The loop of `surface_get_on`. -/
  | fetching (id : UInt64) (name : String)

/-- What the plugin does. -/
inductive Tool where
  /-- The loop of `serve_session`. -/
  | serving
  /-- A tool is run, or a surface is looked up. -/
  | running (k : Exchange)
  /-- The tool waits for a capability, in `cap_sink` or in `cap_stream_sink`. -/
  | asking (k : Exchange) (r : Request) (stream : Bool)
  | gone

/-- The process of the plugin. -/
structure Plugin where
  tool : Tool
  capId : UInt64
  desync : Bool
  /-- Its end of the socket gives no more bytes. -/
  deaf : Bool

/-- A part of a frame that was written. -/
structure Cut where
  kind : String
  followed : Bool
  spent : Bool

/-- The daemon, the plugin and the socket between them. -/
structure World where
  nextId : UInt64
  state : SessionState
  phase : Phase
  /-- The whole frames on their way to the plugin. -/
  toPlugin : List Frame
  /-- The part of a frame behind them. -/
  cut : Option Cut
  /-- The frames on their way to the daemon. -/
  toDaemon : List Frame
  /-- The start of the first of them is lost. -/
  torn : Bool
  plugin : Plugin

/-- What can be seen. -/
abbrev Event := RemoteCall.Event Exchange Answer Request Reply

/-- How much of a frame is written. -/
inductive Written where
  | whole
  | part
  | nothing

/-- How an exchange fails. -/
inductive Failure where
  | ceiling
  | idleTimeout
  | other

/-- A step of the daemon, of the plugin or of the clock. -/
inductive Action where
  /-- A thread takes the session to invoke a tool. -/
  | invoke (call : ToolCall)
  /-- A thread takes the session to fetch a surface. -/
  | fetchSurface (name : String)
  | shutdown
  /-- `stop` writes the `Shutdown`. -/
  | writeShutdown (o : Written)
  /-- `stop` kills the process. -/
  | kill
  /-- `start` gives a new process of the same binary, or fails. -/
  | start (ok : Bool)
  /-- The frame is sent, or how it fails. -/
  | send (o : Written) (e : Failure)
  | read
  /-- A capability has a reply, and it is written, or how that fails. -/
  | reply (b : Reply) (o : Written) (e : Failure)
  /-- A read fails, with the start of a frame or without; or the code around it does. -/
  | fail (e : Failure) (torn : Bool)
  /-- The thread that holds the session panics. -/
  | panic
  /-- The plugin reads a frame; `goOn` is what a stream's consumer wants after a chunk. -/
  | pluginRead (goOn : Bool)
  /-- The plugin reads a frame behind which nothing can be relied on. -/
  | pluginReadCut (f : Frame) (goOn : Bool)
  /-- A read of the plugin fails. -/
  | pluginFail
  /-- The tool asks for a capability, through `cap_stream_sink` or `cap_sink`. -/
  | request (cap : String) (args : Json) (stream : Bool)
  /-- The tool asks for a capability with arguments that no frame can hold. -/
  | requestTooLarge
  | finish (ok : Bool) (value : Json) (error errorKind : Option String)
  /-- The plugin logs a line, or its heartbeat does. -/
  | log (level msg : String) (fields : Json)
  /-- The process of the plugin ends. -/
  | exit

/-! ## Steps of the daemon -/

/-- What is written of a frame comes behind what was. -/
def World.put (f : Frame) (o : Written) (w : World) : World :=
  match o, w.cut with
  | .nothing, _ => w
  | .whole, none => { w with toPlugin := w.toPlugin ++ [f] }
  | .part, none => { w with cut := some ⟨f.kind, false, false⟩ }
  -- no frame is read between what is missing and a `Shutdown`
  | _, some c =>
    { w with cut := some { c with followed := c.followed || f.kind != "shutdown" } }

/-- `invoke` after a failed exchange. -/
def World.invokeFailed (id : UInt64) (e : Failure) (w : World) : World :=
  match e with
  | .ceiling => { w with state := .broken, phase := .stopping none }
  | .idleTimeout => { w with state := .stale id, phase := .idle }
  | .other => { w with state := .broken, phase := .idle }

/-- Any function that holds the session fails: what it leaves. -/
def World.failed (e : Failure) (w : World) : World :=
  match w.phase with
  | .draining _ id call => { w with state := .broken, phase := .stopping (some (.invoke id call)) }
  | .awaiting id _ | .serving id _ _ | .streaming id _ _ => w.invokeFailed id e
  | .sending _ => { w with phase := .idle }
  | .fetching _ _ => { w with state := .broken, phase := .idle }
  | .idle | .stopping _ | .killing _ | .starting _ => w

/-- The thread panics, and the lock is poisoned. -/
def World.panicked (w : World) : World :=
  match w.phase with
  | .idle | .stopping _ | .killing _ => w
  | _ => { w with state := .broken, phase := .idle }

/-- What is sent; `fetch_surface` takes its id here. -/
def Job.exchange (nextId : UInt64) : Job → Exchange
  | .invoke id call => .invoke id call
  | .fetchSurface name => .surfaceGet nextId name

/-- `next_id` after it was sent. -/
def Job.nextId (nextId : UInt64) : Job → UInt64
  | .invoke _ _ => nextId
  | .fetchSurface _ => nextId + 1

/-- The loop that waits for the answer. -/
def Exchange.phase : Exchange → Phase
  | .invoke id call => .awaiting id call
  | .surfaceGet id name => .fetching id name

/-- The frame is sent.  The session is broken until the answer is there. -/
def World.send (job : Job) (o : Written) (e : Failure) (w : World) : World × Option Event :=
  let k := job.exchange w.nextId
  let w' := { w with nextId := job.nextId w.nextId, state := .broken, phase := k.phase }.put
    k.frame o
  match o with
  | .whole => (w', some (.sent k))
  | _ => (w'.failed e, some (.sent k))

/-- What is done with a frame that was heard. -/
def World.heard (k : Exchange) (w : World) : Heard → World × Option Event
  | .answer a =>
    let state :=
      match a with
      | .surface false _ _ => SessionState.broken
      | _ => .healthy
    ({ w with state, phase := .idle }, some (.returned k a))
  | .cap r =>
    match k with
    | .invoke id call =>
      let phase := if isStreamingCap r.cap then Phase.streaming id call r else .serving id call r
      ({ w with phase }, some (.served k r))
    | .surfaceGet _ _ => (w, none)
  | .refused => ({ w with state := .broken, phase := .idle }, none)
  | .ignored => (w, none)

/-- A frame is read. -/
def World.read (f : Frame) (w : World) : World × Option Event :=
  match w.phase with
  | .draining stale id call =>
    match drain stale f with
    | .answer _ => ({ w with state := .healthy, phase := .sending (.invoke id call) }, none)
    | .refused =>
      ({ w with state := .broken, phase := .stopping (some (.invoke id call)) }, none)
    | _ => (w, none)
  | .awaiting id call => w.heard (.invoke id call) (invokeOn id f)
  | .fetching id name => w.heard (.surfaceGet id name) (surfaceGetOn id f)
  | _ => (w, none)

/-- A reply is written and the daemon goes on, or the exchange is given up. -/
def World.write (r : Request) (b : Reply) (next : Phase) (o : Written) (e : Failure) (w : World) :
    World × Option Event :=
  let w' := w.put (b.frame r.id) o
  match o with
  | .whole => ({ w' with phase := next }, some (.replied r b))
  | _ => (w'.failed e, none)

/-- A reply in the loop of `invoke_on`. -/
def World.reply (b : Reply) (o : Written) (e : Failure) (w : World) : World × Option Event :=
  match w.phase, b with
  | .serving id call r, .result .. => w.write r b (.awaiting id call) o e
  | .streaming id call r, .chunk .. => w.write r b (.streaming id call r) o e
  | .streaming id call r, .streamEnd .. => w.write r b (.awaiting id call) o e
  | _, _ => (w, none)

/-! ## Steps of the plugin -/

/-- What the plugin does with a frame that it has read. -/
def Plugin.hear (p : Plugin) (goOn : Bool) (f : Frame) : Plugin × Option Event :=
  match p.tool with
  | .serving =>
    -- the flag is looked at before each read
    if p.desync then ({ p with tool := .gone }, none)
    else
      match serveSession f with
      | .start k => ({ p with tool := .running k }, some (.started k))
      | .stop => ({ p with tool := .gone }, none)
      | .ignored => (p, none)
  | .asking k r stream =>
    match sink r.id stream f with
    | .part b =>
      ({ p with tool := if goOn then .asking k r stream else .running k },
        some (.delivered k r b))
    | .last b => ({ p with tool := .running k }, some (.delivered k r b))
    | .ignored => (p, none)
    | .desynced => ({ p with tool := .running k, desync := true }, none)
  | .running _ | .gone => (p, none)

/-- The plugin is in a loop that reads. -/
def Plugin.Reads (p : Plugin) : Bool :=
  !p.deaf && match p.tool with
    | .serving | .asking _ _ _ => true
    | .running _ | .gone => false

/-- A frame can be read at a part of one: the first one is of its kind, and after an error a tool
that waits may read anything. -/
def World.cutReads (w : World) (f : Frame) : Bool :=
  w.toPlugin.isEmpty && w.cut.any fun c => c.followed && (c.kind == f.kind && !c.spent ||
    match w.plugin.tool with
    | .asking _ _ _ => true
    | _ => false)

variable (surfaces : List (String × String))

/-- The answer of the plugin: the result of the tool, or the surface. -/
def Exchange.answer (result : Answer) : Exchange → Answer
  | .invoke _ _ => result
  | .surfaceGet _ name => surfaceReply surfaces name

/-- The tool of the plugin is done, or the surface is found. -/
def World.finish (result : Answer) (w : World) : World × Option Event :=
  match w.plugin.tool with
  | .running k =>
    if w.plugin.desync then ({ w with plugin.tool := .serving }, none)
    else
      ({ w with
          toDaemon := w.toDaemon ++ [(k.answer surfaces result).frame k.id]
          plugin.tool := .serving }, some (.finished k (k.answer surfaces result)))
  | _ => (w, none)

/-- One step.  A step that its side is not ready for does nothing. -/
def advance (w : World) : Action → World × Option Event
  | .invoke call =>
    match w.phase with
    | .idle =>
      let id := w.nextId
      let w := { w with nextId := w.nextId + 1 }
      match w.state with
      | .healthy => ({ w with phase := .sending (.invoke id call) }, none)
      | .stale stale => ({ w with phase := .draining stale id call }, none)
      | .broken => ({ w with phase := .stopping (some (.invoke id call)) }, none)
    | _ => (w, none)
  | .fetchSurface name =>
    match w.phase with
    | .idle =>
      match w.state with
      | .healthy => ({ w with phase := .sending (.fetchSurface name) }, none)
      | _ => ({ w with phase := .stopping (some (.fetchSurface name)) }, none)
    | _ => (w, none)
  | .shutdown =>
    match w.phase with
    | .idle => ({ w with phase := .stopping none }, none)
    | _ => (w, none)
  | .writeShutdown o =>
    match w.phase with
    | .stopping next => ({ w.put .shutdown o with phase := .killing next }, none)
    | _ => (w, none)
  | .kill =>
    match w.phase with
    | .killing next =>
      ({ w with phase := next.elim .idle .starting, plugin.tool := .gone }, none)
    | _ => (w, none)
  | .start ok =>
    match w.phase with
    | .starting next =>
      if ok then
        ({ w with
            state := .healthy
            phase := .sending next
            toPlugin := []
            cut := none
            toDaemon := []
            torn := false
            plugin := ⟨.serving, 0, false, false⟩ }, none)
      else ({ w with phase := .idle }, none)
    | _ => (w, none)
  | .send o e =>
    match w.phase with
    | .sending job => w.send job o e
    | _ => (w, none)
  | .read =>
    match w.torn, w.toDaemon with
    | false, f :: rest =>
      match w.phase with
      | .draining _ _ _ | .awaiting _ _ | .fetching _ _ => { w with toDaemon := rest }.read f
      | _ => (w, none)
    | _, _ => (w, none)
  | .reply b o e => w.reply b o e
  | .fail e torn => ({ w.failed e with torn := w.torn || torn }, none)
  | .panic => (w.panicked, none)
  | .pluginRead goOn =>
    match w.plugin.Reads, w.toPlugin with
    | true, f :: rest =>
      let (plugin, event) := w.plugin.hear goOn f
      ({ w with toPlugin := rest, plugin := plugin }, event)
    | _, _ => (w, none)
  | .pluginReadCut f goOn =>
    if w.plugin.Reads && w.cutReads f then
      let (plugin, event) := w.plugin.hear goOn f
      ({ w with cut := w.cut.map ({ · with spent := true }), plugin }, event)
    else (w, none)
  | .pluginFail =>
    match w.plugin.tool with
    | .serving => ({ w with plugin.tool := .gone }, none)
    | .asking k _ _ =>
      ({ w with
        plugin.tool := .running k
        plugin.deaf := w.plugin.deaf || !w.cut.any (·.followed) }, none)
    | _ => (w, none)
  | .request cap args stream =>
    match w.plugin.tool with
    | .running (.invoke id call) =>
      let r : Request := ⟨w.plugin.capId, some id, cap, args⟩
      ({ w with
          toDaemon := w.toDaemon ++ [r.frame]
          plugin.tool := .asking (.invoke id call) r stream
          plugin.capId := w.plugin.capId + 1 }, some (.requested (.invoke id call) r))
    | _ => (w, none)
  | .requestTooLarge =>
    match w.plugin.tool with
    -- the id is taken before the frame is refused
    | .running (.invoke _ _) => ({ w with plugin.capId := w.plugin.capId + 1 }, none)
    | _ => (w, none)
  | .finish ok value error errorKind => w.finish surfaces (.result ok value error errorKind)
  | .log level msg fields =>
    match w.plugin.tool with
    | .gone => (w, none)
    | _ => ({ w with toDaemon := w.toDaemon ++ [.log level msg fields] }, none)
  | .exit => ({ w with plugin.tool := .gone }, none)

/-- A plugin that has just been spawned. -/
def spawned : World where
  nextId := 1
  state := .healthy
  phase := .idle
  toPlugin := []
  cut := none
  toDaemon := []
  torn := false
  plugin := ⟨.serving, 0, false, false⟩

/-- The world after a run. -/
def run (as : List Action) : World := as.foldl (fun w a => (advance surfaces w a).1) spawned

/-- What can be seen of a run. -/
def events (as : List Action) : List Event :=
  Emission.emitted (fun w a => (advance surfaces w a).1) (fun w a => (advance surfaces w a).2)
    spawned as

/-- A session on which nothing is at work. -/
def ready (nextId capId : UInt64) : World :=
  { spawned with nextId, plugin := ⟨.serving, capId, false, false⟩ }

/-- An invoke that nothing interrupts returns the result of its tool, which has had the reply to
what it asked, and leaves the session as it was. -/
theorem uninterrupted (n c : UInt64) (call : ToolCall) {cap : String}
    (hcap : isStreamingCap cap = false) (args value capValue : Json) (ok capOk : Bool)
    (error errorKind capError capErrorKind : Option String) :
    let b : Reply := .result capOk capValue capError capErrorKind
    let as : List Action := [.invoke call, .send .whole .other, .pluginRead true,
      .request cap args false, .read, .reply b .whole .other, .pluginRead true,
      .finish ok value error errorKind, .read]
    let k : Exchange := .invoke n call
    let r : Request := ⟨c, some n, cap, args⟩
    as.foldl (fun w a => (advance surfaces w a).1) (ready n c) = ready (n + 1) (c + 1) ∧
      Emission.emitted (fun w a => (advance surfaces w a).1) (fun w a => (advance surfaces w a).2)
        (ready n c) as =
        [.sent k, .started k, .requested k r, .served k r, .replied r b, .delivered k r b,
          .finished k (.result ok value error errorKind),
          .returned k (.result ok value error errorKind)] := by
  simp [Emission.emitted, advance, ready, spawned, World.send, Job.exchange, Job.nextId,
    Exchange.phase, Exchange.frame, World.put, Plugin.Reads, Plugin.hear, serveSession,
    Request.frame, World.read, World.heard, invokeOn, hcap, World.reply, World.write, Reply.frame,
    sink, capSink, World.finish, Exchange.answer, Answer.frame, Exchange.id]

end Orca.PluginProto.Session
