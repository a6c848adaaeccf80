import Orca.Dispatch.ToolRoles
import Orca.Library.Emission
import Orca.Library.Handler
import Orca.Mesh.BoundEnvelopes
import Orca.Mesh.CallerToken

/-!
# Calls of tools by peers

The model of `mesh/exec`: `handle_exec` of `system/src/mesh/listener.rs` with the gates before it.

A peer that is authenticated on the wire asks for a tool with arguments, and may present a caller
token and a proof that it has the mesh CA key.  `handleExec` is a handler over the tables of the
host: it ends with the call of the dispatcher it makes, or with a refusal, which carries the gate
that refused.  Hosts take the events of `ExecEvent`, among them whatever else writes to their
tables.

The result is `mesh_exec_authorised_once`: over every run, a tool with a role is dispatched for an
authorised user only and once for each token, a tool without one only if it does not change state,
and a request that is refused before the replay check changes nothing.
-/

namespace Orca

open CallerToken Check Emission Handler Invariant

/-! ## Requests and hosts -/

/-- A row of `users`, as far as `mesh/exec` reads it. -/
structure User where
  id : String
  username : String
  role : String

/-- `CallerIdentity`. -/
structure CallerIdentity where
  userId : String
  username : String
  /-- The role the user acts with. -/
  role : String
  /-- Whether the user may change data below the role of the tool. -/
  canMutate : Bool

/-- `MeshExecParams`, as far as a receiver reads it. -/
structure MeshExecParams where
  tool : String
  args : JsonValue
  callerToken : Option SignedEnvelope
  /-- The proof that the peer has the mesh CA key. -/
  caProof : Option String
  /-- The trace the call belongs to. -/
  correlationId : Option String

/-- The libraries of `mesh/exec`: those of caller tokens and the reader of the request. -/
structure ExecLibs extends TokenLibs where
  fromValue : JsonValue → Except String MeshExecParams

/-- A host, as far as `mesh/exec` reads it. -/
structure ExecHost where
  machineId : String
  tools : ToolTables
  users : KeyedTable User.id
  peers : PeerTables
  /-- The mesh CAs and the signed rows. -/
  trust : TrustHost
  /-- The nonce ledger, with the row of `mesh_self`. -/
  nonces : NonceStore

/-- The arguments of `dispatch_proven`. -/
structure DispatchCall where
  tool : String
  args : JsonValue
  /-- The trace the call belongs to. -/
  correlationId : Option String
  /-- The user the call is for. -/
  caller : Option CallerIdentity
  /-- The peer that relays the call. -/
  relayingPeer : String
  /-- Whether the peer has proved that it has the mesh CA key. -/
  caProven : Bool

/-- The gates of `mesh/exec`, in their order. -/
inductive ExecGate where
  | params
  /-- `reject_remote_local_only_action`. -/
  | localOnlyAction
  /-- `reject_insecure_secret_source`. -/
  | secretSource
  /-- `remote_role_gate`. -/
  | role
  /-- `remote_ok_gate`. -/
  | remoteOk
  | token
  | verification
  /-- A key is pinned for the peer. -/
  | pinnedKey
  | signer
  | user
  /-- The peer has proved that it has the mesh CA key, where this is needed. -/
  | custody
  /-- The role of the user satisfies that of the tool. -/
  | rank
  /-- `check_replay`. -/
  | replay
deriving DecidableEq

/-- A refusal of a request. -/
structure Refusal where
  gate : ExecGate
  message : String

/-- A check at a gate. -/
def gateCheck {α : Type} (gate : ExecGate) (x : Except String α) : Handler ExecHost Refusal α :=
  check (x.mapError (Refusal.mk gate))

/-! ## Reading the tables -/

/-- `pinned_pubkey_fp`: the pinned fingerprint of a peer that has not left. -/
def PeerTables.pinnedPubkeyFp (t : PeerTables) (peerId : String) : Option String :=
  (t.peers.find peerId).bind fun p => if p.departedAt.isNone then p.pubkeyFp else none

/-- `get_secure`. -/
def getSecure (st : NonceStore) : Bool := st.meshSelf.any MeshSelf.secure

/-- `is_mutating_tool`. -/
def isMutatingTool (t : ToolTables) (tool : String) : Bool :=
  t.isDataMutation tool || t.pluginExecuteGated tool || t.pluginDryRunAware tool ||
    t.pluginReadUnconfirmed tool || t.executeGatedNames.contains tool

/-- `ca_holder_message`. -/
def caHolderMessage (binding nonce : String) : List UInt8 :=
  utf8Bytes ("orca-mesh-ca-holder:" ++ binding ++ ":" ++ nonce)

/-- `proves_ca_with`. -/
def provesCaWith (libs : TrustLibs) (caCertPem binding nonce : String) : Option String → Bool
  | none => false
  | some proof =>
      nonce != "" && libs.verifyMeshCaSignature caCertPem (caHolderMessage binding nonce) proof

/-- `proves_ca_possession`. -/
def provesCaPossession (libs : TrustLibs) (pki : PkiDir) (binding nonce : String)
    (proof : Option String) : Bool :=
  (pki .caCert).any fun caPem => provesCaWith libs caPem binding nonce proof

/-! ## The gates -/

/-- The text under a key of the arguments. -/
def argText (args : JsonValue) (key : String) : Option String := (args.1.get? key).bind Json.asStr

/-- `reject_remote_local_only_action`. -/
def rejectRemoteLocalOnlyAction (t : ToolTables) (tool : String) (args : JsonValue) :
    Except String Unit := do
  let action := argText args "action"
  let demote := (args.1.get? "secure").any fun v => v.eqv (.bool false)
  let forbidden :=
    (tool == "system.mesh.update" && (action == some "recover" || action == some "rejoin")) ||
      (tool == "system.mesh.delete" && action == some "leave") ||
      (tool == "system.mesh.update" && (action == none || action == some "settings") && demote)
  ensure (!forbidden) ("mesh/exec refused: '" ++ tool ++ "' action '" ++ action.getD "" ++
    "' is local-only and cannot be invoked by a remote peer")
  let inner := (argText args "tool").getD ""
  ensure (!(tool == "plugin.create" && action == some "invoke") || t.isAllowed inner)
    ("mesh/exec refused: plugin verb '" ++ inner ++ "' is local_only on this peer")

/-- `reject_insecure_secret_source`. -/
def rejectInsecureSecretSource (tool : String) (secure : Bool) : Except String Unit :=
  ensure (tool != "secrets.detail" || secure) ("mesh/exec refused: '" ++ tool ++
    "' — an insecure member never serves secret values to peers")

/-- `MESH_ANY_ROLE_DENY` -/
def meshAnyRoleDeny : List String := ["auth.login"]

/-- `remote_role_gate`. -/
def remoteRoleGate (tool : String) (knownRole : Option String) (mutating : Bool) :
    Except String String := do
  let role ← required knownRole
    ("mesh/exec refused: tool '" ++ tool ++ "' is not routable on this peer")
  ensure (role != "any" || !(mutating || meshAnyRoleDeny.contains tool))
    ("mesh/exec refused: tool '" ++ tool ++
      "' changes state and has no role gate; it cannot run " ++
        "for a remote peer without a signed caller")
  .ok role

/-- `remote_ok_gate`: whether the tool needs an authorised caller. -/
def remoteOkGate (tool : String) (remoteOk : Bool) (requiredRole : String) :
    Except String Bool := do
  ensure remoteOk ("mesh/exec refused: tool '" ++ tool ++ "' is local_only on this peer")
  .ok (requiredRole != "any")

/-- `custody_target`: the verb a call of `plugin.create` invokes, else the tool. -/
def custodyTarget (tool : String) (args : JsonValue) : String :=
  if tool = "plugin.create" ∧ argText args "action" = some "invoke" then
    (argText args "tool").getD tool
  else tool

section Handle

variable (libs : ExecLibs)

/-- The call of `caller_token::verify` with the message of its refusal. -/
def verifyCaller (host : ExecHost) (peerCn tool : String) (args : JsonValue) (env : SignedEnvelope)
    (now : Int) : Except String Verified :=
  (CallerToken.verify libs.toTokenLibs env tool args peerCn host.machineId now
    (unboundAllowed libs.toTrustLibs host.trust host.peers peerCn)).mapError fun e =>
      withReceiverTime ("mesh/exec refused: caller token verification failed: " ++ e) now

/-- The call of `check_replay`. -/
def replayGate (peerCn : String) (verified : Verified) (now : Int) :
    Handler ExecHost Refusal Unit := fun host =>
  let (nonces, result) := CallerToken.checkReplay libs.toTokenLibs host.nonces peerCn
    verified.nonce verified.expiresAt now
  (result.mapError (Refusal.mk .replay), { host with nonces := nonces })

/-- The call of `mark_bound_envelopes` for a token with a binding. -/
def markBound (peerCn : String) (env : SignedEnvelope) : Handler ExecHost Refusal Unit :=
  fun host =>
    (.ok (), if env.binding.isSome then
      { host with peers := markBoundEnvelopes peerCn host.peers } else host)

/-- `authorize_role_gated`. -/
def authorizeRoleGated (peerCn tool : String) (args : JsonValue) (requiredRole : String)
    (callerToken : Option SignedEnvelope) (caProof : Option String) (now : Int) :
    Handler ExecHost Refusal CallerIdentity := do
  let host ← get
  let env ← gateCheck .token (required callerToken
    ("mesh/exec refused: tool '" ++ tool ++ "' requires role '" ++ requiredRole ++
      "' but no signed caller token was presented"))
  let verified ← gateCheck .verification (verifyCaller libs host peerCn tool args env now)
  let pinned ← gateCheck .pinnedKey (required (host.peers.pinnedPubkeyFp peerCn)
    ("mesh/exec refused: peer " ++ peerCn ++ " has no pinned bootstrap key to verify against"))
  gateCheck .signer (ensure (verified.signerFp == pinned)
    ("mesh/exec refused: caller token signer fp does not match peer " ++ peerCn ++ "'s pinned key"))
  let user ← gateCheck .user (required (host.users.find verified.claims.callerUserId)
    ("mesh/exec refused: caller user " ++ verified.claims.callerUserId ++
      " is not in this host's replicated users"))
  gateCheck .custody (ensure (!host.tools.isCustody (custodyTarget tool args) ||
      provesCaPossession libs.toTrustLibs host.trust.pki peerCn verified.nonce caProof)
    ("mesh/exec refused: '" ++ tool ++ "' is not marked remote_admin and peer " ++ peerCn ++
      " presented no valid mesh CA proof"))
  gateCheck .rank (ensure (satisfies (effectiveRole user.role verified.claims.role) requiredRole)
    ("mesh/exec refused: tool '" ++ tool ++ "' requires role '" ++ requiredRole ++ "' but user " ++
      user.username ++ " acts with role '" ++ effectiveRole user.role verified.claims.role ++ "'"))
  replayGate libs peerCn verified now
  markBound peerCn env
  pure ⟨user.id, user.username, effectiveRole user.role verified.claims.role, false⟩

/-- The first step of `handle_exec`: the request is read. -/
def execParams (request : Option JsonValue) : Except String MeshExecParams :=
  match request with
  | some v => withContext (libs.fromValue v) "parse mesh/exec params"
  | none => .error "mesh/exec requires params"

/-- The caller of `handle_exec`: an authorised user for a tool that needs one, else nobody. -/
def resolveCaller (needsAuth : Bool) (params : MeshExecParams) (peerCn requiredRole : String)
    (now : Int) : Handler ExecHost Refusal (Option CallerIdentity) :=
  if needsAuth then
    authorizeRoleGated libs peerCn params.tool params.args requiredRole params.callerToken
      params.caProof now >>= fun caller => pure (some caller)
  else pure none

/-- `handle_exec`, up to the call of the dispatcher. -/
def handleExec (request : Option JsonValue) (peerCn : String) (now : Int) :
    Handler ExecHost Refusal DispatchCall := do
  let params ← gateCheck .params (execParams libs request)
  let host ← get
  gateCheck .localOnlyAction (rejectRemoteLocalOnlyAction host.tools params.tool params.args)
  gateCheck .secretSource (rejectInsecureSecretSource params.tool (getSecure host.nonces))
  let requiredRole ← gateCheck .role (remoteRoleGate params.tool
    (host.tools.knownRole params.tool) (isMutatingTool host.tools params.tool))
  let needsAuth ← gateCheck .remoteOk (remoteOkGate params.tool
    (host.tools.isAllowed params.tool) requiredRole)
  let caller ← resolveCaller libs needsAuth params peerCn requiredRole now
  pure ⟨params.tool, params.args, params.correlationId, caller, peerCn,
    caller.isSome && host.tools.isCustody params.tool⟩

/-! ## Runs -/

/-- What happens to a host. -/
inductive ExecEvent where
  /-- A request of an authenticated peer. -/
  | exec (request : Option JsonValue) (peerCn : String) (now : UnixSecs)
  /-- Another call on the nonce ledger. -/
  | nonceCall (call : NonceCall)
  /-- Whatever else writes to the tables, a tool that was dispatched among it: they are now this. -/
  | change (tables : ExecHost) (now : UnixSecs)

/-- The clock reading of an event. -/
def ExecEvent.now : ExecEvent → UnixSecs
  | exec _ _ now => now
  | nonceCall call => call.now
  | change _ now => now

/-- The host after an event.  The nonce ledger is written by its own calls only. -/
def execStep (h : ExecHost) : ExecEvent → ExecHost
  | .exec request peerCn now => ((handleExec libs request peerCn now.1).exec h).2
  | .nonceCall call => { h with nonces := call.perform libs.isUuid h.nonces }
  | .change tables _ => { tables with nonces := h.nonces }

/-- The refusal of an event, if it is a request that is refused. -/
def refusedBy (h : ExecHost) : ExecEvent → Option Refusal
  | .exec request peerCn now => refusal ((handleExec libs request peerCn now.1).exec h).1
  | _ => none

/-- A tool that was dispatched. -/
structure Dispatched where
  /-- The host when the request came. -/
  host : ExecHost
  peerCn : String
  params : MeshExecParams
  call : DispatchCall

/-- The tool an event dispatches, if it is a request that passes the gates. -/
def dispatchedBy (h : ExecHost) : ExecEvent → Option Dispatched
  | .exec request peerCn now =>
      match execParams libs request, ((handleExec libs request peerCn now.1).exec h).1 with
      | .ok params, .ok call => some ⟨h, peerCn, params, call⟩
      | _, _ => none
  | _ => none

/-- The tools that a run dispatches, in order. -/
def dispatches (h : ExecHost) (events : List ExecEvent) : List Dispatched :=
  emitted (execStep libs) (dispatchedBy libs) h events

/-- The known role of a tool that was dispatched. -/
def Dispatched.role (d : Dispatched) : Option String := d.host.tools.knownRole d.call.tool

/-- The tool has a role other than `any`. -/
def Dispatched.gated (d : Dispatched) : Bool := d.role != some "any"

/-- The nonce and the expiry that the token of the request is signed with. -/
def Dispatched.stamp (d : Dispatched) : Option (String × Int) :=
  d.params.callerToken.bind fun env => (tokenBody libs.toTokenLibs env).map Prod.snd

/-- The tool was dispatched for an authorised user.  The request carried a token that is signed by
the key pinned for the peer and is for this very tool and arguments, and the lower of the role of
its user and its own satisfies the role of the tool. -/
def Authorised (signed : (key message : List UInt8) → Prop) (d : Dispatched) (role : String) :
    Prop :=
  ∃ env claims nonce expiresAt key user,
    d.params.callerToken = some env ∧
    tokenBody libs.toTokenLibs env = some (claims, nonce, expiresAt) ∧
    d.host.peers.pinnedPubkeyFp d.peerCn =
      some (bootstrapPubkeyFingerprint libs.toEnvelopeLibs key) ∧
    TokenSignedBy libs.toTokenLibs signed key env d.peerCn d.host.machineId ∧
    claims.tool = d.call.tool ∧
    claims.argsHash = argsHash libs.toTokenLibs d.call.args ∧
    (∀ args, claims.argsHash = argsHash libs.toTokenLibs args →
      ¬Collide libs.toTokenLibs args d.call.args → args.1.eqv d.call.args.1 = true) ∧
    d.host.users.find claims.callerUserId = some user ∧
    satisfies (effectiveRole user.role claims.role) role = true

end Handle

/-! ## How requests end -/

section Ends

variable {libs : ExecLibs}

/-- A handler that starts with a check at a gate answers when the check succeeds and the rest
answers. -/
lemma exec_gateCheck_bind_ok {α β : Type} {gate : ExecGate} {x : Except String α}
    {f : α → Handler ExecHost Refusal β} {h t : ExecHost} {b : β} :
    (gateCheck gate x >>= f).exec h = (.ok b, t) ↔ ∃ a, x = .ok a ∧ (f a).exec h = (.ok b, t) := by
  rw [exec_bind_ok]
  simp only [gateCheck, exec_check, Prod.mk.injEq, mapError_eq_ok]
  constructor
  · rintro ⟨a, u, ⟨hx, rfl⟩, hrest⟩
    exact ⟨a, hx, hrest⟩
  · rintro ⟨a, hx, hrest⟩
    exact ⟨a, h, ⟨hx, rfl⟩, hrest⟩

lemma readsOnly_gateCheck {α : Type} (gate : ExecGate) (x : Except String α) :
    ReadsOnly (gateCheck gate x) := readsOnly_check _

/-- How a request ends: refused before the replay check it leaves the host as it was, and in any
case the nonce ledger is as it was or has made one recording. -/
def RequestEnds (isUuid : String → Bool) (now : UnixSecs) (h : ExecHost) (r : Option Refusal)
    (t : ExecHost) : Prop :=
  (∀ e, r = some e → e.gate ≠ .replay → t = h) ∧
    (t.nonces = h.nonces ∨
      ∃ m sender nonce expiresAt,
        t.nonces = (NonceCall.recordMeshNonce m sender nonce expiresAt now).perform isUuid h.nonces)

lemma requestEnds_refused (isUuid : String → Bool) (now : UnixSecs) (h : ExecHost) (e : Refusal) :
    RequestEnds isUuid now h (some e) h :=
  ⟨fun _ _ _ => rfl, Or.inl rfl⟩

lemma checkReplay_fst (libs : ExecLibs) (st : NonceStore) (sender nonce : String)
    (expiresAt : Int) (now : UnixSecs) :
    (CallerToken.checkReplay libs.toTokenLibs st sender nonce expiresAt now.1).1 =
      (NonceCall.recordMeshNonce CallerToken.method sender nonce expiresAt now).perform libs.isUuid
        st := by
  unfold CallerToken.checkReplay
  split <;> rename_i hrecord <;> exact (congrArg Prod.fst hrecord).symm

lemma exec_replayGate (peerCn : String) (verified : Verified) (now : Int) (h : ExecHost) :
    (replayGate libs peerCn verified now).exec h =
      ((CallerToken.checkReplay libs.toTokenLibs h.nonces peerCn verified.nonce
        verified.expiresAt now).2.mapError (Refusal.mk .replay),
      { h with nonces := (CallerToken.checkReplay libs.toTokenLibs h.nonces peerCn verified.nonce
        verified.expiresAt now).1 }) := rfl

lemma exec_markBound (peerCn : String) (env : SignedEnvelope) (h : ExecHost) :
    ∃ peers, (markBound peerCn env).exec h = (.ok (), { h with peers := peers }) := by
  unfold markBound exec
  split
  · exact ⟨_, rfl⟩
  · exact ⟨h.peers, rfl⟩

/-- From the replay check on, a request is refused by it or answered, and the nonce ledger has made
one recording. -/
lemma ends_replayGate {α : Type} (peerCn : String) (verified : Verified) (env : SignedEnvelope)
    (now : UnixSecs) (a : α) :
    Ends (RequestEnds libs.isUuid now)
      (replayGate libs peerCn verified now.1 >>= fun _ =>
        markBound peerCn env >>= fun _ => (pure a : Handler ExecHost Refusal α)) := by
  intro h
  have hrecording := checkReplay_fst libs h.nonces peerCn verified.nonce verified.expiresAt now
  rw [exec_bind, exec_replayGate]
  cases hresult : (CallerToken.checkReplay libs.toTokenLibs h.nonces peerCn verified.nonce
      verified.expiresAt now.1).2 with
  | error e =>
    refine ⟨fun r hr hgate => ?_, Or.inr ⟨_, _, _, _, hrecording⟩⟩
    cases hr
    exact absurd rfl hgate
  | ok u =>
    obtain ⟨peers, hmark⟩ := exec_markBound peerCn env
      { h with nonces := (CallerToken.checkReplay libs.toTokenLibs h.nonces peerCn verified.nonce
        verified.expiresAt now.1).1 }
    simp only [Except.mapError, exec_bind, hmark, exec_pure]
    exact ⟨nofun, Or.inr ⟨_, _, _, _, hrecording⟩⟩

lemma ends_gateCheck {α β : Type} {isUuid : String → Bool} {now : UnixSecs} (gate : ExecGate)
    (x : Except String α) {f : α → Handler ExecHost Refusal β}
    (hf : ∀ a, Ends (RequestEnds isUuid now) (f a)) :
    Ends (RequestEnds isUuid now) (gateCheck gate x >>= f) :=
  Ends.bind_of_readsOnly (readsOnly_gateCheck gate x) (requestEnds_refused isUuid now) hf

/-- How `authorize_role_gated` ends. -/
lemma ends_authorizeRoleGated (peerCn tool : String) (args : JsonValue) (requiredRole : String)
    (callerToken : Option SignedEnvelope) (caProof : Option String) (now : UnixSecs) :
    Ends (RequestEnds libs.isUuid now)
      (authorizeRoleGated libs peerCn tool args requiredRole callerToken caProof now.1) := by
  unfold authorizeRoleGated
  refine Ends.bind_of_readsOnly readsOnly_get (requestEnds_refused _ _) fun host => ?_
  refine ends_gateCheck .token _ fun env => ?_
  refine ends_gateCheck .verification _ fun verified => ?_
  refine ends_gateCheck .pinnedKey _ fun pinned => ?_
  refine ends_gateCheck .signer _ fun _ => ?_
  refine ends_gateCheck .user _ fun user => ?_
  refine ends_gateCheck .custody _ fun _ => ?_
  refine ends_gateCheck .rank _ fun _ => ?_
  exact ends_replayGate peerCn verified env now _

/-- How `handle_exec` ends. -/
lemma ends_handleExec (request : Option JsonValue) (peerCn : String) (now : UnixSecs) :
    Ends (RequestEnds libs.isUuid now) (handleExec libs request peerCn now.1) := by
  unfold handleExec
  refine ends_gateCheck .params _ fun params => ?_
  refine Ends.bind_of_readsOnly readsOnly_get (requestEnds_refused _ _) fun host => ?_
  refine ends_gateCheck .localOnlyAction _ fun _ => ?_
  refine ends_gateCheck .secretSource _ fun _ => ?_
  refine ends_gateCheck .role _ fun requiredRole => ?_
  refine ends_gateCheck .remoteOk _ fun needsAuth => ?_
  refine Ends.bind_pure ?_
  unfold resolveCaller
  split
  · exact Ends.bind_pure (ends_authorizeRoleGated _ _ _ _ _ _ now)
  · exact fun h => ⟨nofun, Or.inl rfl⟩

end Ends

/-! ## What a dispatch has passed -/

section Passed

variable {libs : ExecLibs} {h t : ExecHost} {peerCn tool requiredRole : String} {args : JsonValue}
  {callerToken : Option SignedEnvelope} {caProof : Option String} {now : Int}

/-- An authorised caller has presented a token that verifies and is signed by the pinned key, for a
user who is known and whose effective role satisfies the role of the tool; and the nonce of the
token has just been recorded. -/
lemma authorizeRoleGated_ok {caller : CallerIdentity}
    (hrun : (authorizeRoleGated libs peerCn tool args requiredRole callerToken caProof now).exec h =
      (.ok caller, t)) :
    ∃ env verified user, callerToken = some env ∧
      CallerToken.verify libs.toTokenLibs env tool args peerCn h.machineId now
        (unboundAllowed libs.toTrustLibs h.trust h.peers peerCn) = .ok verified ∧
      h.peers.pinnedPubkeyFp peerCn = some verified.signerFp ∧
      h.users.find verified.claims.callerUserId = some user ∧
      satisfies (effectiveRole user.role verified.claims.role) requiredRole = true ∧
      CallerToken.checkReplay libs.toTokenLibs h.nonces peerCn verified.nonce verified.expiresAt
        now = (t.nonces, .ok ()) := by
  unfold authorizeRoleGated at hrun
  simp only [exec_get_bind, exec_gateCheck_bind_ok, required_eq_ok, ensure_eq_ok, verifyCaller,
    mapError_eq_ok, beq_iff_eq] at hrun
  obtain ⟨env, htoken, verified, hverify, pinned, hpinned, -, hsigner, user, huser, -, -, -, hrank,
    hrun⟩ := hrun
  subst hsigner
  obtain ⟨⟨⟩, host, hreplay, hrun⟩ := exec_bind_ok.mp hrun
  obtain ⟨⟨⟩, host', hmark, hpure⟩ := exec_bind_ok.mp hrun
  refine ⟨env, verified, user, htoken, hverify, hpinned, huser, hrank, ?_⟩
  -- neither the mark nor the answer touches the ledger
  obtain ⟨peers, hmarked⟩ := exec_markBound peerCn env host
  rw [hmarked] at hmark
  cases hmark
  cases hpure
  rw [exec_replayGate, Prod.mk.injEq, mapError_eq_ok] at hreplay
  obtain ⟨hok, rfl⟩ := hreplay
  exact Prod.ext rfl hok

/-- A request that is dispatched has passed the gates: its tool can be routed, does not change state
without a role, and with a role has an authorised caller. -/
lemma handleExec_ok {request : Option JsonValue} {call : DispatchCall}
    (hrun : (handleExec libs request peerCn now).exec h = (.ok call, t)) :
    ∃ params role, execParams libs request = .ok params ∧ call.tool = params.tool ∧
      call.args = params.args ∧ h.tools.knownRole params.tool = some role ∧
      (role = "any" → isMutatingTool h.tools params.tool = false) ∧
      (role ≠ "any" → ∃ caller,
        (authorizeRoleGated libs peerCn params.tool params.args role params.callerToken
          params.caProof now).exec h = (.ok caller, t)) := by
  unfold handleExec at hrun
  simp only [exec_get_bind, exec_gateCheck_bind_ok, remoteRoleGate, remoteOkGate, chain_ok_iff,
    required_eq_ok, ensure_eq_ok, exists_const] at hrun
  obtain ⟨params, hparams, -, -, -, -, role, ⟨role', hknown, hmutating, hrole⟩, needsAuth,
    ⟨-, hneeds⟩, hrun⟩ := hrun
  cases hrole
  cases hneeds
  obtain ⟨caller, host, hcaller, hpure⟩ := exec_bind_ok.mp hrun
  cases hpure
  refine ⟨params, role, hparams, rfl, rfl, hknown, fun hany => ?_, fun hgated => ?_⟩
  · simp only [hany, bne_self_eq_false, Bool.false_or, Bool.not_eq_true', Bool.or_eq_false_iff]
      at hmutating
    exact hmutating.1
  · rw [resolveCaller, if_pos (bne_iff_ne.mpr hgated)] at hcaller
    obtain ⟨caller', host', hauthorised, hsome⟩ := exec_bind_ok.mp hcaller
    cases hsome
    exact ⟨caller', hauthorised⟩

end Passed

/-! ## What a dispatch says of its token -/

section Dispatch

variable {libs : ExecLibs} {h : ExecHost} {e : ExecEvent} {d : Dispatched}

/-- A dispatch comes from a request that passed the gates. -/
lemma dispatchedBy_eq_some (hd : dispatchedBy libs h e = some d) :
    d.host = h ∧ ∃ request, execParams libs request = .ok d.params ∧
      (handleExec libs request d.peerCn e.now.1).exec h = (.ok d.call, execStep libs h e) := by
  unfold dispatchedBy at hd
  cases e with
  | exec request peerCn now =>
    simp only at hd
    split at hd
    · rename_i params call hparams hcall
      cases hd
      exact ⟨rfl, request, hparams, Prod.ext hcall rfl⟩
    · cases hd
  | nonceCall call => cases hd
  | change tables now => cases hd

/-- What the gates have established for a dispatch. -/
lemma dispatchedBy_passed (hd : dispatchedBy libs h e = some d) :
    ∃ role, d.role = some role ∧ d.call.tool = d.params.tool ∧ d.call.args = d.params.args ∧
      (role = "any" → isMutatingTool d.host.tools d.call.tool = false) ∧
      (role ≠ "any" → ∃ caller,
        (authorizeRoleGated libs d.peerCn d.call.tool d.call.args role d.params.callerToken
          d.params.caProof e.now.1).exec d.host = (.ok caller, execStep libs h e)) := by
  obtain ⟨rfl, request, hparams, hrun⟩ := dispatchedBy_eq_some hd
  obtain ⟨params, role, hparams', htool, hargs, hknown, hmutating, hgated⟩ := handleExec_ok hrun
  rw [hparams, Except.ok.injEq] at hparams'
  subst hparams'
  refine ⟨role, by rw [Dispatched.role, htool, hknown], htool, hargs, ?_, ?_⟩
  · rw [htool]
    exact hmutating
  · rw [htool, hargs]
    exact hgated

/-- A dispatch of a tool with a role is for an authorised user. -/
lemma dispatchedBy_authorised {signed : (key message : List UInt8) → Prop}
    (hlawful : LawfulToVec libs.toTokenLibs)
    (hunforgeable : ∀ key message signature,
      libs.verifySignature key message signature = .ok () → signed key message)
    (hd : dispatchedBy libs h e = some d) {role : String} (hrole : d.role = some role)
    (hgated : role ≠ "any") : Authorised libs signed d role := by
  obtain ⟨role', hrole', -, -, -, hcaller⟩ := dispatchedBy_passed hd
  obtain rfl : role = role' := Option.some.inj (hrole.symm.trans hrole')
  obtain ⟨caller, hrun⟩ := hcaller hgated
  obtain ⟨env, verified, user, htoken, hverify, hpinned, huser, hrank, -⟩ :=
    authorizeRoleGated_ok hrun
  obtain ⟨hbody, ⟨key, hfp, hsigned⟩, htool, hhash⟩ := CallerToken.verify_ok hunforgeable hverify
  refine ⟨env, verified.claims, verified.nonce, verified.expiresAt, key, user, htoken, hbody, ?_,
    hsigned, htool, hhash, fun args hargs hcollide => ?_, huser, hrank⟩
  · rw [hpinned, hfp]
  · exact CallerToken.eqv_of_argsHash_eq hlawful (hargs.symm.trans hhash) hcollide

/-- A replay check that passes has accepted the nonce and the expiry. -/
lemma accepted_of_checkReplay {st st' : NonceStore} {sender nonce : String} {expiresAt : Int}
    {now : UnixSecs}
    (hok : CallerToken.checkReplay libs.toTokenLibs st sender nonce expiresAt now.1 =
      (st', .ok ())) :
    (NonceCall.recordMeshNonce CallerToken.method sender nonce expiresAt now).accepted libs.isUuid
      st = some (nonce, expiresAt) := by
  unfold CallerToken.checkReplay at hok
  split at hok
  · cases hok
  · rename_i hrecord
    simp only [NonceCall.accepted, hrecord]
  · cases hok

/-- A dispatch of a tool with a role has a stamp, which the ledger has just accepted. -/
lemma dispatchedBy_stamp (hd : dispatchedBy libs h e = some d) (hgated : d.gated = true) :
    ∃ (p : String × Int) (c : NonceCall), d.stamp libs = some p ∧ c.now = e.now ∧
      c.accepted libs.isUuid h.nonces = some p ∧
      (execStep libs h e).nonces = c.perform libs.isUuid h.nonces := by
  obtain ⟨rfl, -⟩ := dispatchedBy_eq_some hd
  obtain ⟨role, hrole, -, -, -, hcaller⟩ := dispatchedBy_passed hd
  have hrole' : role ≠ "any" := by
    rintro rfl
    rw [Dispatched.gated, hrole] at hgated
    cases hgated
  obtain ⟨caller, hrun⟩ := hcaller hrole'
  obtain ⟨env, verified, user, htoken, hverify, -, -, -, hreplay⟩ := authorizeRoleGated_ok hrun
  have htrivial : ∀ key message signature,
      libs.verifySignature key message signature = .ok () → True := fun _ _ _ _ => trivial
  obtain ⟨hbody, -⟩ := CallerToken.verify_ok htrivial hverify
  refine ⟨(verified.nonce, verified.expiresAt),
    .recordMeshNonce CallerToken.method d.peerCn verified.nonce verified.expiresAt e.now, ?_, rfl,
    accepted_of_checkReplay hreplay, ?_⟩
  · simp [Dispatched.stamp, htoken, hbody]
  · rw [← checkReplay_fst , hreplay]

end Dispatch

/-! ## Runs of requests -/

section Runs

variable {libs : ExecLibs}

lemma spent_mono {st : NonceStore} {t u : UnixSecs} {p : String × Int} (htu : t ≤ u)
    (h : Spent st t p) : Spent st u p :=
  h.imp id fun hold => hold.trans (pruneCutoff_mono htu)

/-- A spent pair stays spent, whatever happens to the host. -/
lemma execStep_spent (h : ExecHost) (t : UnixSecs) (p : String × Int) (e : ExecEvent)
    (ht : t ≤ e.now) (hspent : Spent h.nonces t p) :
    Spent (execStep libs h e).nonces e.now p := by
  cases e with
  | exec request peerCn now =>
    rcases (ends_handleExec request peerCn now h).2 with hsame |
      ⟨m, sender, nonce, expiresAt, hrecorded⟩
    · rw [execStep, hsame]
      exact spent_mono ht hspent
    · rw [execStep, hrecorded]
      exact perform_spent (c := .recordMeshNonce m sender nonce expiresAt now) libs.isUuid ht hspent
  | nonceCall call => exact perform_spent libs.isUuid ht hspent
  | change tables now => exact spent_mono ht hspent

/-- The stamp of an event, if it dispatches a tool with a role. -/
def gatedStamp (libs : ExecLibs) (d : Dispatched) : Option (String × Int) :=
  if d.gated then d.stamp libs else none

/-- The stamps of the tools with a role that a run dispatches are distinct. -/
lemma gatedStamps_nodup (h : ExecHost) {events : List ExecEvent}
    (hclock : (events.map ExecEvent.now).Pairwise (· ≤ ·)) :
    ((dispatches libs h events).filterMap (gatedStamp libs)).Nodup := by
  have hstamp : ∀ h p e, (dispatchedBy libs h e).bind (gatedStamp libs) = some p →
      ∃ c : NonceCall, c.now = e.now ∧ c.accepted libs.isUuid h.nonces = some p ∧
        (execStep libs h e).nonces = c.perform libs.isUuid h.nonces := by
    intro h p e hemit
    obtain ⟨d, hd, hp⟩ := Option.bind_eq_some_iff.mp hemit
    unfold gatedStamp at hp
    split at hp
    · rename_i hgated
      obtain ⟨p', c, hp', hnow, hacc, hstep⟩ := dispatchedBy_stamp hd hgated
      obtain rfl : p' = p := Option.some.inj (hp'.symm.trans hp)
      exact ⟨c, hnow, hacc, hstep⟩
    · cases hp
  rw [dispatches, filterMap_emitted]
  refine emitted_nodup (fun h p e hemit => ?_) execStep_spent
    (fun h t p e ht hspent hemit => ?_) hclock h
  · obtain ⟨c, hnow, hacc, hstep⟩ := hstamp h p e hemit
    rw [hstep, ← hnow]
    exact spent_of_accepted libs.isUuid hacc
  · obtain ⟨c, hnow, hacc, -⟩ := hstamp h p e hemit
    exact not_accepted_of_spent libs.isUuid (hnow ▸ ht) hspent hacc

/-- The tools with a role that a run dispatches. -/
def gatedDispatches (libs : ExecLibs) (h : ExecHost) (events : List ExecEvent) : List Dispatched :=
  (dispatches libs h events).filter Dispatched.gated

/-- No two of them have the same stamp, so that no two have the same token. -/
lemma gatedDispatches_nodup (h : ExecHost) {events : List ExecEvent}
    (hclock : (events.map ExecEvent.now).Pairwise (· ≤ ·)) :
    ((gatedDispatches libs h events).map (Dispatched.stamp libs)).Nodup ∧
      ((gatedDispatches libs h events).map fun d => d.params.callerToken).Nodup := by
  have hsome : ∀ d ∈ dispatches libs h events, d.gated = true → ∃ p, d.stamp libs = some p := by
    refine forall_mem_emitted (fun e _ h d hd hgated => ?_) h
    obtain ⟨p, -, hp, -⟩ := dispatchedBy_stamp hd hgated
    exact ⟨p, hp⟩
  have hstamps : ((gatedDispatches libs h events).map (Dispatched.stamp libs)).Nodup := by
    have heq : (gatedDispatches libs h events).map (Dispatched.stamp libs) =
        ((dispatches libs h events).filterMap (gatedStamp libs)).map some := by
      unfold gatedDispatches
      generalize dispatches libs h events = ds at hsome
      induction ds with
      | nil => rfl
      | cons d ds ih =>
        have htail := ih fun d' hd' => hsome d' (List.mem_cons_of_mem d hd')
        cases hgated : d.gated with
        | false => simpa [gatedStamp, hgated] using htail
        | true =>
          obtain ⟨p, hp⟩ := hsome d List.mem_cons_self hgated
          simpa [gatedStamp, hgated, hp] using htail
    rw [heq]
    exact (gatedStamps_nodup h hclock).map (Option.some_injective _)
  refine ⟨hstamps, List.Nodup.of_map (fun token => token.bind fun env =>
    (tokenBody libs.toTokenLibs env).map Prod.snd) ?_⟩
  rw [List.map_map]
  exact hstamps

/-- **Calls by peers are authorised, once.**  In every run of requests and of whatever else happens
to the host, with a clock that does not go back: a tool that is dispatched can be routed; if its
role is not `any`, it is dispatched for an authorised user; if its role is `any`, it does not change
state.  No two dispatches of tools with a role carry the same token, or tokens with the same nonce
and expiry.  And a request that is refused before the replay check leaves the nonce ledger and the
peer tables as they were. -/
theorem mesh_exec_authorised_once (hlawful : LawfulToVec libs.toTokenLibs)
    {signed : (key message : List UInt8) → Prop}
    (hunforgeable : ∀ key message signature,
      libs.verifySignature key message signature = .ok () → signed key message)
    (h : ExecHost) {events : List ExecEvent}
    (hclock : (events.map ExecEvent.now).Pairwise (· ≤ ·)) :
    (∀ d ∈ dispatches libs h events, ∃ role, d.role = some role ∧
      (role ≠ "any" → Authorised libs signed d role) ∧
      (role = "any" → isMutatingTool d.host.tools d.call.tool = false)) ∧
    (((gatedDispatches libs h events).map fun d => d.params.callerToken).Nodup ∧
      ((gatedDispatches libs h events).map (Dispatched.stamp libs)).Nodup) ∧
    Along (execStep libs) (fun h e => ∀ r, refusedBy libs h e = some r → r.gate ≠ .replay →
      (execStep libs h e).nonces = h.nonces ∧ (execStep libs h e).peers = h.peers) h events := by
  refine ⟨forall_mem_emitted (fun e _ h d hd => ?_) h, (gatedDispatches_nodup h hclock).symm,
    along_of_forall fun before e _ r hr hgate => ?_⟩
  · obtain ⟨role, hrole, -, -, hmutating, -⟩ := dispatchedBy_passed hd
    exact ⟨role, hrole, dispatchedBy_authorised hlawful hunforgeable hd hrole, hmutating⟩
  · cases e with
    | exec request peerCn now =>
      have hsame := (ends_handleExec request peerCn now _).1 r hr hgate
      rw [execStep, hsame]
      exact ⟨rfl, rfl⟩
    | nonceCall call => cases hr
    | change tables now => cases hr

end Runs

/-! ## A small run -/

/-- The claims of the token below. -/
def sampleClaims : CallerClaims :=
  ⟨"u1", "ana", "admin", "notes.create", "6e756c6c" ++ String.ofList (List.replicate 56 '0')⟩

/-- The payload of the token below. -/
def samplePayload : String :=
  "\x7b\"caller_user_id\":\"u1\",\"caller_username\":\"ana\",\"role\":\"admin\"," ++
    "\"tool\":\"notes.create\",\"args_hash\":\"" ++ sampleClaims.argsHash ++ "\"\x7d"

/-- The signature of the small libraries: the sum of the bytes of the key and the message, in every
place. -/
def plainSignature (key message : List UInt8) : List UInt8 :=
  List.replicate 64 ((key ++ message).foldl (· + ·) 0)

/-- The text of the small libraries for bytes. -/
def plainText (bytes : List UInt8) : String :=
  String.ofList (bytes.map fun b => Char.ofNat b.toNat)

/-- The small libraries of envelopes. -/
def plainEnvelopeLibs : EnvelopeLibs where
  toTrustLibs := plainTrustLibs
  base64Decode s := .ok (s.toList.map fun c => c.toNat.toUInt8)
  verifyingKeyFromBytes bytes := .ok bytes
  verifySignature key message signature :=
    if signature = plainSignature key message then .ok ()
    else .error "signature error: Verification equation was not satisfied"
  isUuid := isHyphenatedUuid

/-- The key of the peer below. -/
def sampleKey : List UInt8 := List.replicate 32 7

/-- The binding of the token below, before it is signed. -/
def sampleUnsigned : BoundEnvelope :=
  ⟨"mesh/exec", "peer", "host", "019e7105-9910-7000-8000-000000000001", 1060,
    sha256Hex plainEnvelopeLibs (utf8Bytes samplePayload), ""⟩

/-- A token of the peer for a call of `notes.create`. -/
def sampleToken : SignedEnvelope where
  payload := samplePayload
  signerPubkeyB64 := plainText sampleKey
  signatureB64 := plainText (plainSignature sampleKey (utf8Bytes samplePayload))
  binding := some { sampleUnsigned with
    signatureB64 := plainText (plainSignature sampleKey sampleUnsigned.canonical) }

/-- A request with the token. -/
def sampleParams : MeshExecParams := ⟨"notes.create", ⟨.null, rfl⟩, some sampleToken, none, none⟩

/-- The request on the wire. -/
def sampleRequest : JsonValue := ⟨.object [("tool", .string "notes.create")], by decide⟩

/-- The small libraries of `mesh/exec`, which read the request and the payload above. -/
def plainExecLibs : ExecLibs where
  toEnvelopeLibs := plainEnvelopeLibs
  toVec := plainToVec
  parseCallerClaims payload :=
    if payload = samplePayload then .ok sampleClaims else .error "expected value"
  parseLegacyCallerToken _ := .error "missing field"
  fromValue v := if v.1.eqv sampleRequest.1 then .ok sampleParams else .error "missing field"

/-- A host with one tool, one user and the peer. -/
def sampleExecHost : ExecHost where
  machineId := "host"
  tools := ⟨[⟨"notes.create", "admin", false, true⟩], fun _ => none, fun _ => false, fun _ => none,
    fun _ => none, [], fun _ => false⟩
  users := ⟨[⟨"u1", "ana", "super-admin"⟩], by decide⟩
  peers := ⟨⟨[⟨"peer", "alpha", 12002,
    some (bootstrapPubkeyFingerprint plainEnvelopeLibs sampleKey), "pem", 100, 100, none, none, 0⟩],
    List.nodup_singleton _⟩, KeyedTable.empty⟩
  trust := plainMesh true
  nonces := NonceStore.empty

/-- The request is sent twice. -/
def sampleExecEvents : List ExecEvent :=
  [.exec (some sampleRequest) "peer" ⟨1000, by decide⟩,
    .exec (some sampleRequest) "peer" ⟨1010, by decide⟩]

/-- The first request is dispatched for an authorised user, and the second is not dispatched. -/
theorem mesh_exec_authorised_once_sample :
    (gatedDispatches plainExecLibs sampleExecHost sampleExecEvents).length = 1 ∧
      ∀ d ∈ dispatches plainExecLibs sampleExecHost sampleExecEvents, ∃ role, d.role = some role ∧
        (role ≠ "any" → Authorised plainExecLibs
          (fun key message => ∃ signature,
            plainEnvelopeLibs.verifySignature key message signature = .ok ()) d role) := by
  have hlawful : LawfulToVec plainExecLibs.toTokenLibs := plainToVec_lawful rfl
  have hsigned : ∀ key message signature,
      plainExecLibs.verifySignature key message signature = .ok () →
        ∃ signature, plainEnvelopeLibs.verifySignature key message signature = .ok () :=
    fun _ _ signature h => ⟨signature, h⟩
  have hclock : (sampleExecEvents.map ExecEvent.now).Pairwise (· ≤ ·) := by decide
  refine ⟨by decide +kernel, fun d hd => ?_⟩
  obtain ⟨role, hrole, hauthorised, -⟩ :=
    (mesh_exec_authorised_once hlawful hsigned sampleExecHost hclock).1 d hd
  exact ⟨role, hrole, hauthorised⟩

end Orca
