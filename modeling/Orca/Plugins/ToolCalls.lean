import Orca.Data.Text
import Orca.Data.Value
import Orca.Dispatch.ToolRoles
import Orca.Library.Check

/-!
# Calls between tools

A plugin may call tools of the host while it serves an invocation (`tool.call`), and the tool that
is called may be one of another plugin, which may call tools in its turn; a tool of the host may
call the backend of a plugin, which may call tools too.  `prepare` is the gate that such a call
passes, `dispatch` takes it to where it runs, and `invocationFor` and `forBackend` make the
invocation that a plugin is given.

`World` has everything that is going on in the host, and `advance` is one step of it, in any order
of requests, calls and backends: what plugins call, and when, is not restricted.  Counters of calls
are shared between invocations; an invocation has the place of its counter.
-/

namespace Orca.ToolCalls

open Check

/-! ## Who calls -/

/-- `MAX_DEPTH`. -/
def maxDepth : ℕ := 4

/-- `MAX_PER_REQUEST`. -/
def maxPerRequest : UInt64 := 64

/-- `ACTION_LIMITS`. -/
def actionLimits : List (String × List String) := [("service.create", ["deploy"])]

/-- `CallerIdentity`. -/
structure CallerIdentity where
  userId : String
  username : String
  role : String
  canMutate : Bool

/-- `RelayState`: the call came from a peer. -/
structure RelayState where
  peer : String
  caProven : Bool

/-- `ToolCtx`, as far as calls between tools read and write it. -/
structure ToolCtx where
  auth : Option CallerIdentity
  verifiedCaller : Option CallerIdentity
  peerTarget : Option String
  correlationId : Option String
  dryRun : Bool
  unbound : Bool
  localTransport : Bool
  secondFactor : Bool
  ownerCli : Bool
  callChain : List String
  /-- `call_budget`: the place of the counter. -/
  callBudget : Option ℕ
  /-- The services `RelayingPeer` and `CaProven`. -/
  relay : Option RelayState

/-- `Invocation`. -/
structure Invocation where
  caller : CallerIdentity
  dryRun : Bool
  localTransport : Bool
  secondFactor : Bool
  executeConfirmed : Bool
  reaches : List String
  system : Bool
  executeGated : Bool
  callChain : List String
  toolCalls : List String
  /-- `call_budget`: the place of the counter. -/
  callBudget : ℕ
  relay : Option RelayState

/-- `child_may_execute`. -/
def Invocation.childMayExecute (inv : Invocation) : Bool :=
  inv.executeGated && inv.executeConfirmed && !inv.dryRun

/-- What the host has registered: the tables of the tools, and of the loaded plugins which one has a
tool and what it declares for it. -/
structure Host where
  /-- The tables that the lookups of `tool_roles` read. -/
  tables : ToolTables
  isToolCallable : String → Bool
  requiresFreshSecondFactor : String → Bool
  unitDryRunOk : String → Bool
  declaresSystem : String → Bool
  /-- A plugin, a unit, diagnostics or a power supply has the tool. -/
  knownHere : String → Bool
  surfaceOwner : String → Option String
  /-- `owner`: the plugin of a tool. -/
  owner : String → Option String
  toolReaches : String → List String
  toolToolCalls : String → List String

/-- `authorize`. -/
def authorize (callerRole : String) (canMutate : Bool) (required : String) (isDataMutation : Bool) :
    Bool :=
  satisfies callerRole required ||
    canMutate && isDataMutation && required == "admin" && callerRole != "" && callerRole != "any"

/-! ## Making an invocation -/

/-- The counter that an invocation gets: the one it is called with, one that refuses every call for
a call that lost it, and a new one for a request. -/
def takeBudget (budgets : List UInt64) (budget : Option ℕ) (chain : List String) :
    ℕ × List UInt64 :=
  match budget with
  | some b => (b, budgets)
  | none =>
    -- `usize::MAX / 2`
    (budgets.length, budgets ++ [if chain.isEmpty then 0 else 0x7FFFFFFFFFFFFFFF])

/-- The value of a flag that is set. -/
def flag (args : Json) (k : String) : Bool := ((args.get? k).map (Json.eqv (.bool true))).getD false

/-- `Invocation::from_ctx`. -/
def fromCtx (budgets : List UInt64) (ctx : ToolCtx) : Option (Invocation × List UInt64) :=
  ctx.verifiedCaller.map fun caller =>
    let (b, budgets) := takeBudget budgets ctx.callBudget ctx.callChain
    ({ caller
       dryRun := ctx.dryRun
       localTransport := ctx.localTransport
       secondFactor := ctx.secondFactor
       executeConfirmed := false
       reaches := []
       system := false
       executeGated := false
       callChain := ctx.callChain
       toolCalls := []
       callBudget := b
       relay := ctx.relay }, budgets)

/-- `for_plugin_invoke`. -/
def Invocation.forPluginInvoke (inv : Invocation) (outerExecuteGated : Bool) (outerRole : String)
    (outerReaches : List String) (args : Json) : Invocation :=
  let dryRun := inv.dryRun || flag args "dryRun"
  { inv with
    reaches := outerReaches
    executeGated := outerExecuteGated
    dryRun
    executeConfirmed := outerExecuteGated && !dryRun && flag args "execute"
    secondFactor := inv.secondFactor && outerRole == "super-admin" }

/-- `invocation_for`. -/
def invocationFor (host : Host) (budgets : List UInt64) (ctx : ToolCtx) (name : String)
    (args : Json) : Option (Invocation × List UInt64) :=
  (fromCtx budgets ctx).map fun (inv, budgets) =>
    ({ inv.forPluginInvoke (host.tables.pluginExecuteGated name)
        ((host.tables.knownRole name).getD "any") (host.toolReaches name) args with
        toolCalls := host.toolToolCalls name }, budgets)

/-- `CoreVerb`: what a tool that runs hands down to the backends it calls. -/
structure CoreVerb where
  caller : CallerIdentity
  role : String
  executeGated : Bool
  dryRun : Bool
  localTransport : Bool
  secondFactor : Bool
  callChain : List String
  callBudget : Option ℕ

/-- `dry_run_requested`. -/
def dryRunRequested (args : Json) : Except String Bool :=
  match args.get? "dryRun" with
  | none => .ok false
  | some (.bool b) => .ok b
  | some _ => .error "dryRun must be a boolean"

/-- `core_verb`. -/
def coreVerb (host : Host) (name : String) (args : Json) (ctx : ToolCtx) : Option CoreVerb :=
  ctx.verifiedCaller.map fun caller =>
    { caller
      role := (host.tables.knownRole name).getD "any"
      executeGated := (host.tables.find name).any CoreTool.executeGated ||
        host.tables.pluginExecuteGated name
      dryRun := ctx.dryRun || (dryRunRequested args).toOption.getD true
      localTransport := ctx.localTransport
      secondFactor := ctx.secondFactor
      callChain := ctx.callChain
      callBudget := ctx.callBudget }

/-- `Invocation::for_backend`, with the calls that the backend declares. -/
def forBackend (budgets : List UInt64) (verb : CoreVerb) (targeted : Bool)
    (reaches toolCalls : List String) : Invocation × List UInt64 :=
  let floor := if !targeted || roleRank verb.role < roleRank "read" then "read" else verb.role
  let role := if roleRank floor < roleRank verb.caller.role then floor else verb.caller.role
  let (b, budgets) := takeBudget budgets verb.callBudget verb.callChain
  let inv : Invocation :=
    { caller := { verb.caller with role }
      dryRun := verb.dryRun
      localTransport := verb.localTransport
      secondFactor := verb.secondFactor && role == "super-admin"
      executeConfirmed := verb.executeGated && !verb.dryRun
      reaches := []
      system := false
      executeGated := verb.executeGated
      callChain := verb.callChain
      toolCalls
      callBudget := b
      relay := none }
  -- `with_reaches` and `unconfirmed`
  (if targeted then { inv with reaches } else { inv with executeConfirmed := false, reaches := [] },
    budgets)

/-- `Invocation::system`, with the calls that the backend declares. -/
def systemInvocation (budgets : List UInt64) (toolCalls : List String) :
    Invocation × List UInt64 :=
  ({ caller := ⟨"", "orca-system", "read", false⟩
     dryRun := false
     localTransport := false
     secondFactor := false
     executeConfirmed := false
     reaches := []
     system := true
     executeGated := false
     callChain := []
     toolCalls
     callBudget := budgets.length
     relay := none }, budgets ++ [0])

/-! ## The gate of a call -/

/-- `ToolCall`. -/
structure ToolCall where
  tool : String
  args : Json

/-- `declared`. -/
def declared (tool : String) (toolCalls : List String) : Bool :=
  toolCalls.any fun entry =>
    match stripSuffix entry ".*" with
    | some stem => (stem.toList.isPrefixOf? tool.toList).any fun rest =>
        rest.head? == some '.' && decide (1 < rest.length)
    | none => entry == tool

/-- `refuse_loop`. -/
def refuseLoop (tool : String) (chain : List String) (owner : Option String) :
    Except String Unit := do
  let path := " -> ".intercalate chain
  ensure (decide (chain.length ≤ maxDepth))
    s!"tool.call {tool} refused: call depth {chain.length} exceeds {maxDepth} ({path})"
  owner.elim (.ok ()) fun owner =>
    ensure (!chain.contains owner)
      s!"tool.call {tool} refused: plugin '{owner}' is already in the call chain ({path})"

/-- `refuse_action`. -/
def refuseAction (tool : String) (args : Json) : Except String Unit :=
  match actionLimits.lookup tool with
  | none => .ok ()
  | some allowed =>
    let action := ((args.get? "action").bind Json.asStr).getD ""
    let those := ", ".intercalate allowed
    ensure (allowed.contains action)
      s!"tool.call {tool} refused: action '{action}' is not available through tool.call (allowed: {those})"

/-- `peer_selector`. -/
def peerSelector (raw : Option Json) : Except String (Option String) :=
  match raw with
  | none => .ok none
  | some raw => do
    let s ← required raw.asStr "peer: a peer selector must be a string"
    ensure (trim s != "")
      "peer: a blank peer selector does not mean this system; omit it to run here"
    .ok (some (trim s))

/-- `obj.remove`. -/
def without (args : Json) (k : String) : Json :=
  match args with
  | .object entries => .object (removeEntry entries k)
  | args => args

/-- `take_ambient`. -/
def takeAmbient (args : Json) : Except String (Json × Option String × Option String) := do
  let peer ← peerSelector (args.get? "peer")
  let args := without args "peer"
  let correlationId := (((args.get? "correlation_id").bind Json.asStr).map trim).filter (· != "")
  .ok (without args "correlation_id", peer, correlationId)

/-- The arguments of a call.  An invocation that may not execute calls for a dry run. -/
def childArgs (mayExecute : Bool) (tool : String) (args : Json) : Except String Json :=
  if mayExecute then .ok args
  else match args with
    | .object entries =>
      .ok (.object (insertEntry (removeEntry entries "execute") "dryRun" (.bool true)))
    | _ => .error s!"tool.call {tool}: args must be a JSON object"

/-- `RelayState::apply`: the services of a context after it. -/
def applyRelay (relay services : Option RelayState) : Option RelayState :=
  match relay with
  | none => services
  | some r => some { r with caProven := r.caProven || services.any RelayState.caProven }

/-- `prepare`. -/
def prepare (host : Host) (call : Option ToolCall) (principal : String) (inv : Option Invocation)
    (ctx : ToolCtx) : Except String (String × Json × ToolCtx) := do
  let call ← required call "tool.call: bad payload"
  let inv ← required (inv.filter fun i => !i.system)
    s!"tool.call {call.tool} refused: plugin '{principal}' has no authenticated caller to act as"
  let chain := inv.callChain ++ [principal]
  refuseLoop call.tool chain (host.owner call.tool)
  ensure (declared call.tool inv.toolCalls)
    s!"tool.call {call.tool} refused: plugin '{principal}' does not declare it in tool_calls"
  ensure (host.isToolCallable call.tool)
    s!"tool.call {call.tool} refused: the tool is not marked tool_callable"
  ensure (!(inv.relay.any (fun r => !r.caProven) && host.tables.isCustody call.tool))
    s!"tool.call {call.tool} refused: a mesh call without a CA proof cannot reach a custody tool"
  let needed ← required (host.tables.knownRole call.tool)
    s!"tool.call {call.tool} refused: unknown tool"
  ensure (needed != "super-admin")
    s!"tool.call {call.tool} refused: super-admin tools are not reachable through tool.call"
  ensure (authorize inv.caller.role inv.caller.canMutate needed
      (host.tables.isDataMutation call.tool))
    s!"requires role {needed}"
  refuseAction call.tool call.args
  let (args, peer, correlationId) ← takeAmbient call.args
  ensure (peer.isNone && (args.get? "systemId").isNone)
    s!"tool.call {call.tool} refused: remote routing (peer/systemId) is not available through tool.call"
  let args ← childArgs inv.childMayExecute call.tool args
  .ok (call.tool, args,
    { auth := some inv.caller
      verifiedCaller := some inv.caller
      peerTarget := none
      correlationId := correlationId
      dryRun := if inv.childMayExecute then ctx.dryRun else true
      unbound := false
      localTransport := false
      secondFactor := false
      ownerCli := false
      callChain := chain
      callBudget := some inv.callBudget
      relay := applyRelay inv.relay ctx.relay })

/-! ## Where a tool runs -/

/-- Where a call ends up. -/
inductive Landing
  /-- In the host: a tool that is linked in, the operation of a unit, the request of an api
  surface. -/
  | host
  | elsewhere
  /-- In a plugin, with these arguments. -/
  | plugin (software : String) (args : Json)

/-- `authorize_fallback`. -/
def authorizeFallback (host : Host) (name : String) (ctx : ToolCtx) : Except String Unit := do
  ensure (ctx.ownerCli || !host.requiresFreshSecondFactor name || ctx.secondFactor)
    s!"{name} requires a verified second factor"
  let needed := (host.tables.knownRole name).getD ""
  ensure (!ctx.unbound || (host.tables.knownRole name).all (· == "any"))
    s!"{name} requires role '{needed}'; a token with no resolvable user has no role"
  match ctx.verifiedCaller <|> ctx.auth, host.tables.knownRole name with
  | some caller, some needed =>
    ensure (authorize caller.role caller.canMutate needed (host.tables.isDataMutation name))
      s!"{name} requires role '{needed}'; caller '{caller.username}' has '{caller.role}'"
  | _, _ => .ok ()

/-- What `dispatch_verb` makes of the arguments before it hands them to a plugin. -/
def executeArgs (host : Host) (name : String) (args : Json) (dryRun : Bool) : Json :=
  match args with
  | .object entries =>
    if host.tables.pluginExecuteGated name then
      let entries := removeEntry entries "execute"
      .object (if dryRun then entries
        else insertEntry (removeEntry entries "dryRun") "execute" (.bool true))
    else if dryRun && host.tables.pluginDryRunAware name then
      .object (removeEntry entries "execute")
    else .object entries
  | args => args

/-- `refuse_reentry`. -/
def refuseReentry (ctx : ToolCtx) (software name : String) : Except String Unit :=
  ensure (!ctx.callChain.contains software)
    s!"{name} refused: plugin '{software}' is already in the tool.call chain"

/-- Why a dry run is refused. -/
def unsupportedDryRun (host : Host) (name : String) (ctx : ToolCtx) : String :=
  if host.knownHere name then s!"{name} does not support dryRun"
  else match ctx.peerTarget with
    | some peer => s!"{name} is not on this system, so a dry run can't be verified on {peer}; run it on that system directly"
    | none => s!"{name} is not available on this system; cannot verify dryRun support"

/-- `dispatch`: the gates in front of a tool, and where it runs. -/
def dispatch (host : Host) (name : String) (args : Json) (ctx : ToolCtx) :
    Except String Landing := do
  let dryRun ← dryRunRequested args
  if (args.get? "systemId").isSome && !host.declaresSystem name then
    ensure (host.tables.find name).isNone
      s!"{name} does not take systemId; it runs only on this system"
    ensure ctx.peerTarget.isNone "conflicting routing target: use systemId alone"
    -- a target that is this system is a call without the field
    .ok .elsewhere
  else if (host.tables.find name).isSome then .ok .host
  else
    authorizeFallback host name ctx
    ensure (!dryRun || host.tables.pluginExecuteGated name || host.tables.pluginDryRunAware name ||
        host.unitDryRunOk name)
      (unsupportedDryRun host name ctx)
    match host.surfaceOwner name with
    | some _ => .ok .host
    | none =>
      match host.owner name with
      | none => .ok .host
      | some software =>
        refuseReentry ctx software name
        .ok (.plugin software (executeArgs host name args dryRun))

/-! ## The host at work -/

/-- A request that reached the host, with whom it acts for and whether it is a dry run. -/
structure Request where
  caller : CallerIdentity
  dryRun : Bool

/-- An invocation that a plugin serves. -/
structure Active where
  principal : String
  inv : Invocation
  /-- The request behind it, if there is one. -/
  request : Option ℕ

/-- A tool that runs. -/
structure Running where
  /-- What it hands down to the backends that it calls. -/
  verb : CoreVerb
  ctx : ToolCtx
  /-- The request behind it, if there is one. -/
  request : Option ℕ

/-- A tool that was reached by a call. -/
structure Reached where
  host : Host
  principal : String
  caller : Invocation
  tool : String
  args : Json
  ctx : ToolCtx
  /-- The request behind it, if there is one. -/
  request : Option ℕ

/-- The host. -/
structure World where
  budgets : List UInt64
  requests : List Request
  /-- The tools that run or ran. -/
  running : List Running
  invocations : List Active
  reached : List Reached

/-- A host on which nothing has happened. -/
def World.start : World := ⟨[], [], [], [], []⟩

/-- A plugin is given an invocation, if one was made. -/
def World.give (w : World) (software : String) (made : Option (Invocation × List UInt64))
    (request : Option ℕ) : World :=
  match made with
  | none => w
  | some (inv, budgets) =>
    { w with budgets, invocations := w.invocations ++ [Active.mk software inv request] }

/-- A tool is dispatched.  A dry run of a tool that runs is one in its context, too. -/
def World.land (w : World) (host : Host) (name : String) (args : Json) (ctx : ToolCtx)
    (request : Option ℕ) : World :=
  let verb := coreVerb host name args ctx
  let w := { w with
    running := w.running ++
      (verb.map fun verb => Running.mk verb { ctx with dryRun := verb.dryRun } request).toList }
  match dispatch host name args ctx with
  | .ok (.plugin software args) =>
    w.give software (invocationFor host w.budgets ctx name args) request
  | _ => w

/-- `plugin_loader::dispatch`. -/
def World.loaderDispatch (w : World) (host : Host) (name : String) (args : Json) (ctx : ToolCtx)
    (request : Option ℕ) : World :=
  match host.surfaceOwner name, host.owner name with
  | some _, _ => w
  | none, some software =>
    match refuseReentry ctx software name with
    | .error _ => w
    | .ok () => w.give software (invocationFor host w.budgets ctx name args) request
  | none, none => w.land host name args ctx request

/-- What can happen. -/
inductive Action
  /-- A request reaches the host; it comes with no chain and no counter. -/
  | request (host : Host) (ctx : ToolCtx) (name : String) (args : Json)
  /-- The plugin of an invocation calls a tool; `ctx` is a new context of the host, and `admitted`
  says whether the call gets its permits. -/
  | call (host : Host) (invocation : ℕ) (payload : Option ToolCall) (ctx : ToolCtx)
      (admitted : Bool)
  /-- A tool that runs calls a backend of a plugin. -/
  | backend (tool : ℕ) (software : String) (targeted : Bool) (reaches toolCalls : List String)
  /-- A tool that runs is one that invokes a tool by its name (`plugin.invoke`). -/
  | invoke (host : Host) (tool : ℕ) (name : String) (args : Json)
  /-- A tool that runs dispatches another one in its own context (`schedule.run`). -/
  | dispatch (host : Host) (tool : ℕ) (name : String) (args : Json)
  /-- A task of the host calls a backend of a plugin. -/
  | daemon (software : String) (toolCalls : List String)

/-- `consume_budget`: whether the call is within its budget, and the counters after it. -/
def consumeBudget (budgets : List UInt64) (b : ℕ) : Bool × List UInt64 :=
  (decide (budgets.getD b 0 < maxPerRequest), budgets.modify b (· + 1))

/-- One step. -/
def World.advance (w : World) : Action → World
  | .request host ctx name args =>
    if ctx.callChain = [] ∧ ctx.callBudget = none then
      match coreVerb host name args ctx with
      | some verb =>
        World.land { w with requests := w.requests ++ [Request.mk verb.caller verb.dryRun] }
          host name args ctx (some w.requests.length)
      | none => w
    else w
  | .call host invocation payload ctx admitted =>
    match w.invocations[invocation]? with
    | none => w
    | some active =>
      match prepare host payload active.principal (some active.inv) ctx with
      | .error _ => w
      | .ok (tool, args, ctx) =>
        let (within, budgets) := consumeBudget w.budgets active.inv.callBudget
        let w := { w with budgets }
        if within && admitted then
          World.land
            { w with
              reached := w.reached ++
                [Reached.mk host active.principal active.inv tool args ctx active.request] }
            host tool args ctx active.request
        else w
  | .backend tool software targeted reaches toolCalls =>
    match w.running[tool]? with
    | none => w
    | some tool =>
      w.give software (some (forBackend w.budgets tool.verb targeted reaches toolCalls))
        tool.request
  | .invoke host tool name args =>
    match w.running[tool]? with
    | none => w
    | some tool => w.loaderDispatch host name args tool.ctx tool.request
  | .dispatch host tool name args =>
    match w.running[tool]? with
    | none => w
    | some tool => w.land host name args tool.ctx tool.request
  | .daemon software toolCalls => w.give software (some (systemInvocation w.budgets toolCalls)) none

/-- A run of the host. -/
def run (as : List Action) : World := as.foldl World.advance World.start

end Orca.ToolCalls
