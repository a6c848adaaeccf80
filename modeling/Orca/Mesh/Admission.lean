import Mathlib.Data.List.Basic
import Orca.Data.Text
import Orca.Library.Check
import Orca.Library.Emission

/-!
# Joining the mesh

A system joins the mesh in two requests to a member, over connections that prove nothing but the key
of the joiner.  With a token that an administrator issued it asks for an offer and gets a pairing
code; with the code it asks for its certificates.  An administrator may also make an offer for a
system that was discovered, and tell the code to whoever runs it.

Requests are served at the same time, each by a task of its own, and the statements of the tasks
interleave in the database.  A `Phase` says how far a task is; `advance` is one statement of one
task, or something that an administrator or another part of the host does.  What the clock, the
random numbers, the files and the certificate authority say at a statement is in `Answers`.
-/

namespace Orca.Admission

open Check

/-! ## Tables -/

/-- `direction` of an offer. -/
inductive Direction where
  /-- `in`: somebody offers this host to join. -/
  | inbound
  /-- `out`: this host offers somebody to join. -/
  | outbound
deriving DecidableEq

/-- `PendingOffer`, a row of `mesh_pending_offers`. -/
structure PendingOffer where
  /-- `offer_id`, the primary key. -/
  offerId : String
  direction : Direction
  peerPubkeyFp : String
  peerHostname : String
  peerAddr : String
  peerPort : ℕ
  codeHash : String
  meshCaCertPem : Option String
  inviterPeerId : Option String
  meshId : Option String
  expiresAt : Int
  createdAt : Int

/-- A row of `mesh_join_tokens`. -/
structure JoinToken where
  /-- `token_hash`, the primary key. -/
  tokenHash : String
  expiresAt : Int
  createdAt : Int

/-- A row of `mesh_peers`. -/
structure PeerRow where
  /-- `peer_id`, the primary key. -/
  peerId : String
  peerHostname : String
  peerPort : ℕ
  pubkeyFp : Option String
  caCertPem : String
  firstSeenAt : Int
  lastSeenAt : Int
  departedAt : Option Int

/-- `insert_pending_offer`. -/
def insertPendingOffer (offers : List PendingOffer) (offer : PendingOffer) :
    Except String (List PendingOffer) := do
  ensure (offers.all fun o => o.offerId != offer.offerId)
    "UNIQUE constraint failed: mesh_pending_offers.offer_id"
  .ok (offers ++ [offer])

/-- `find_outbound_offer_by_code_and_fp`. -/
def findOutboundOfferByCodeAndFp (offers : List PendingOffer) (codeHash fp : String) (now : Int) :
    Option PendingOffer :=
  offers.find? fun o => decide (o.direction = .outbound) && o.codeHash == codeHash &&
    o.peerPubkeyFp == fp && decide (now ≤ o.expiresAt)

/-- `has_open_outbound_offer`. -/
def hasOpenOutboundOffer (offers : List PendingOffer) (fp : String) (now : Int) : Bool :=
  offers.any fun o => decide (o.direction = .outbound) && o.peerPubkeyFp == fp &&
    decide (now ≤ o.expiresAt)

/-- `insert_join_token`. -/
def insertJoinToken (tokens : List JoinToken) (token : JoinToken) :
    Except String (List JoinToken) := do
  ensure (tokens.all fun t => t.tokenHash != token.tokenHash)
    "UNIQUE constraint failed: mesh_join_tokens.token_hash"
  .ok (tokens ++ [token])

/-- The first statement of `consume_join_token`. -/
def purgeTokens (tokens : List JoinToken) (now : Int) : List JoinToken :=
  tokens.filter fun t => decide (now ≤ t.expiresAt)

/-- The second statement of `consume_join_token`: the rows that it deletes, and those that stay. -/
def takeToken (tokens : List JoinToken) (tokenHash : String) (now : Int) :
    List JoinToken × List JoinToken :=
  let goes (t : JoinToken) : Bool := t.tokenHash == tokenHash && decide (now ≤ t.expiresAt)
  (tokens.filter goes, tokens.filter fun t => !goes t)

/-- `peer_pubkey_fp_raw`. -/
def peerPubkeyFpRaw (peers : List PeerRow) (id : String) : Option (Option String) :=
  (peers.find? fun p => p.peerId == id).map PeerRow.pubkeyFp

/-- The statement of `upsert_peer`. -/
def upsertPeer (peers : List PeerRow) (row : PeerRow) : List PeerRow :=
  if peers.any fun p => p.peerId == row.peerId then
    peers.map fun p =>
      if p.peerId == row.peerId then
        { p with
          peerHostname := row.peerHostname
          peerPort := row.peerPort
          pubkeyFp := row.pubkeyFp <|> p.pubkeyFp
          lastSeenAt := row.lastSeenAt
          departedAt := none }
      else p
  else peers ++ [row]

/-! ## Requests -/

/-- `OFFER_TTL_SECS`. -/
def offerTtlSecs : Int := 600

/-- `EPHEMERAL_FLOOR`. -/
def ephemeralFloor : ℕ := 32768

/-- `OfferBody`. -/
structure OfferBody where
  inviterPeerId : String
  inviterHostname : String
  inviterAddr : String
  inviterPort : ℕ
  meshCaCertPem : String
  meshId : String
  codeHash : String
  expiresAt : Int
  inviterDisplayName : Option String

/-- `RequestOfferBody`. -/
structure RequestOfferBody where
  joinerPubkeyFp : String
  joinerPeerId : String
  joinerHostname : String
  joinerDisplayName : Option String
  joinerMeshPort : Option ℕ
  joinToken : Option String

/-- `RequestOfferResult`. -/
structure RequestOfferResult where
  inviterPubkeyFp : String
  inviterPeerId : String
  inviterHostname : String
  inviterAddr : String
  inviterPort : ℕ
  meshCaCertPem : String
  meshId : String
  codeHash : String
  expiresAt : Int
  inviterDisplayName : Option String
  codeHint : Option String
  codePlain : Option String
  inviterAddrs : List String

/-- `JoinConfirmBody`. -/
structure JoinConfirmBody where
  code : String
  /-- `joiner_hostname`: the id of the joiner. -/
  joinerHostname : String
  csrClientPem : String
  csrServerPem : String
  joinerDisplayName : Option String

/-- `JoinConfirmResult`. -/
structure JoinConfirmResult where
  clientCertPem : String
  serverCertPem : String
  caCertPem : String
  inviterPeerId : String
  meshId : String

/-- `PeerRole`. -/
inductive PeerRole where
  | client
  | server

/-- The host, and the functions of libraries that it uses. -/
structure Host where
  machineId : String
  hostname : String
  displayHostname : String
  /-- The fingerprint of its own bootstrap key. -/
  pubkeyFp : String
  meshPort : ℕ
  /-- `self_advertised_addrs`. -/
  addrs : List String
  hashCode : String → String
  isUuidv7 : String → Bool

/-- What is answered at a statement. -/
structure Answers where
  /-- `now_secs`. -/
  now : Int
  /-- `now_secs`, when it is read once more. -/
  next : Int
  /-- `id::new`. -/
  offerId : String
  /-- `mint_pairing_code`. -/
  code : String
  /-- `get_mesh_id`. -/
  meshId : Option String
  /-- `sign_peer_csr`: the certificate and that of the authority. -/
  signPeerCsr : String → String → PeerRole → Except String (String × String)
  /-- The stub of the legacy id has the address. -/
  unknownAt : String → Bool

/-- `select_peer_label`. -/
def selectPeerLabel (cnHostname : String) (displayName : Option String) : String :=
  match displayName with
  | some s => if trim s != "" then s else cnHostname
  | none => cnHostname

/-- `dialable_joiner_port`. -/
def dialableJoinerPort (host : Host) (reported : Option ℕ) : ℕ :=
  match reported with
  | some p => if p ≠ 0 ∧ p < ephemeralFloor then p else host.meshPort
  | none => host.meshPort

/-- `refuse_taken_joiner_id`. -/
def refuseTakenJoinerId (host : Host) (peers : List PeerRow) (joinerId signerFp : String) :
    Except String Unit := do
  ensure (joinerId != host.machineId) s!"join refused: {joinerId} is this system's own id"
  match peerPubkeyFpRaw peers joinerId with
  | some fp =>
    ensure (fp == some signerFp)
      s!"join refused: {joinerId} already belongs to another mesh member; if that member is gone, run `orca system mesh delete --action forget --id {joinerId}` on this system, then re-join"
  | none => .ok ()

/-! ## Tasks -/

/-- A request for an offer that is served. -/
structure OfferTask where
  body : RequestOfferBody
  meshCa : String
  peerIp : String

/-- A request for certificates that is served. -/
structure JoinTask where
  body : JoinConfirmBody
  /-- The fingerprint of the key that signed it. -/
  signerFp : String

/-- How far a task is: the statement that comes next. -/
inductive Phase where
  | done
  | purging (t : OfferTask) (token : String)
  /-- The token is consumed, if it had not expired before. -/
  | taking (t : OfferTask) (token : String) (now : Int)
  | checkingOpen (t : OfferTask) (tokenHash : String)
  /-- The joiner is recorded among the discovered systems. -/
  | discovering (t : OfferTask) (tokenHash meshId : String)
  | offering (t : OfferTask) (tokenHash meshId : String)
  | lookingUp (t : JoinTask)
  | checkingId (t : JoinTask) (offer : PendingOffer)
  /-- The certificates are signed, and the joiner is recorded as a peer. -/
  | admitting (t : JoinTask) (offer : PendingOffer)
  | cleaning (t : JoinTask) (offer : PendingOffer) (result : JoinConfirmResult)
  | closing (t : JoinTask) (offer : PendingOffer) (result : JoinConfirmResult)

/-- The database and the tasks. -/
structure World where
  /-- `mesh_pending_offers`. -/
  offers : List PendingOffer
  /-- `mesh_join_tokens`. -/
  tokens : List JoinToken
  /-- `mesh_peers`. -/
  peers : List PeerRow
  tasks : List Phase

/-- What can be seen of a step. -/
inductive Event where
  | issued (token : JoinToken)
  | invited (offer : PendingOffer)
  | consumed (tokenHash : String) (now : Int)
  /-- A request was answered with an offer. -/
  | offered (tokenHash : String) (offer : PendingOffer) (result : RequestOfferResult)
  /-- A request was answered with certificates. -/
  | admitted (t : JoinTask) (offer : PendingOffer) (result : JoinConfirmResult)
  | refused (e : String)

/-- What can happen. -/
inductive Step where
  | issueJoinToken (secret : String) (a : Answers)
  /-- `offer`: an administrator makes an offer to a discovered system. -/
  | offer (fp hostname addr : String) (port : ℕ) (a : Answers)
  /-- Offers are cancelled, replaced, forgotten or purged. -/
  | dropOffers (p : PendingOffer → Bool)
  /-- Another part of the host writes peers. -/
  | writePeers (f : List PeerRow → List PeerRow)
  /-- `handle_offer`: an offer from another system. -/
  | handleOffer (env : Except String (OfferBody × String)) (peerIp : String) (a : Answers)
  /-- `handle_request_offer` begins; the envelope is verified. -/
  | handleRequestOffer (env : Except String (RequestOfferBody × String))
      (meshCa : Except String String) (peerIp : String)
  /-- `handle_join_confirm` begins; the envelope is verified. -/
  | handleJoinConfirm (env : Except String (JoinConfirmBody × String))
  /-- A task goes on by a statement. -/
  | proceed (task : ℕ) (a : Answers)

/-- The start of `handle_request_offer`. -/
def startRequestOffer (env : Except String (RequestOfferBody × String))
    (meshCa : Except String String) (peerIp : String) : Except String Phase := do
  let (body, signerFp) ← env
  ensure (signerFp == body.joinerPubkeyFp)
    s!"envelope signer fp {signerFp} does not match advertised joiner_pubkey_fp {body.joinerPubkeyFp}"
  let meshCa ← context meshCa "this host has no mesh CA; run `orca mesh init` first"
  let token := body.joinToken.getD ""
  ensure (token != "") "mesh/request-offer refused: a valid admin-issued join token is required"
  .ok (.purging ⟨body, meshCa, peerIp⟩ token)

/-- The row that `handle_offer` inserts. -/
def inboundOffer (env : Except String (OfferBody × String)) (peerIp : String) (a : Answers) :
    Except String PendingOffer := do
  let (body, signerFp) ← env
  ensure (decide (0 < body.expiresAt - a.now)) "offer already expired"
  .ok ⟨a.offerId, .inbound, signerFp, selectPeerLabel body.inviterHostname body.inviterDisplayName,
    if body.inviterAddr == "" then peerIp else body.inviterAddr, body.inviterPort, body.codeHash,
    some body.meshCaCertPem, some body.inviterPeerId, some body.meshId,
    a.next + (body.expiresAt - a.now), a.next⟩

/-- The offer that a request is answered with. -/
def requestedOffer (host : Host) (t : OfferTask) (a : Answers) : PendingOffer :=
  ⟨a.offerId, .outbound, t.body.joinerPubkeyFp,
    selectPeerLabel t.body.joinerHostname t.body.joinerDisplayName, t.peerIp,
    dialableJoinerPort host t.body.joinerMeshPort, host.hashCode a.code, none, some host.machineId,
    none, a.next + offerTtlSecs, a.next⟩

/-- The answer to a request for an offer. -/
def requestOfferResult (host : Host) (t : OfferTask) (meshId : String) (a : Answers) :
    RequestOfferResult :=
  ⟨host.pubkeyFp, host.machineId, host.hostname, "", host.meshPort, t.meshCa, meshId,
    host.hashCode a.code, a.now + offerTtlSecs, some host.displayHostname,
    some (String.ofList (a.code.toList.take 2)), some a.code, host.addrs⟩

/-- The certificates of a joiner, and its row. -/
def signJoiner (host : Host) (t : JoinTask) (offer : PendingOffer) (a : Answers) :
    Except String (JoinConfirmResult × PeerRow) := do
  let (client, ca) ← a.signPeerCsr t.body.csrClientPem t.body.joinerHostname .client
  let (server, _) ← a.signPeerCsr t.body.csrServerPem t.body.joinerHostname .server
  ensure (host.isUuidv7 t.body.joinerHostname)
    s!"refusing to persist peer identity \"{t.body.joinerHostname}\": not a canonical uuidv7 (all ids must be uuidv7)"
  .ok (⟨client, server, ca, offer.inviterPeerId.getD host.machineId, offer.meshId.getD "default"⟩,
    ⟨t.body.joinerHostname, selectPeerLabel t.body.joinerHostname t.body.joinerDisplayName,
      offer.peerPort, some t.signerFp, ca, a.now, a.now, none⟩)

/-- The next statement of a task: the database and the task after it, and what can be seen. -/
def proceed (host : Host) (w : World) (a : Answers) : Phase → World × Phase × Option Event
  | .done => (w, .done, none)
  | .purging t token =>
    ({ w with tokens := purgeTokens w.tokens a.now }, .taking t token a.now, none)
  | .taking t token now =>
    let (taken, tokens) := takeToken w.tokens (host.hashCode token) now
    if taken.length = 1 then
      ({ w with tokens }, .checkingOpen t (host.hashCode token),
        some (.consumed (host.hashCode token) now))
    else
      ({ w with tokens }, .done, some (.refused
        "mesh/request-offer refused: a valid admin-issued join token is required"))
  | .checkingOpen t tokenHash =>
    if hasOpenOutboundOffer w.offers t.body.joinerPubkeyFp a.now then
      let label := selectPeerLabel t.body.joinerHostname t.body.joinerDisplayName
      (w, .done, some (.refused
        s!"an outbound offer to {label} is already pending — try `orca mesh accept` with the existing code"))
    else (w, .discovering t tokenHash (a.meshId.getD "default"), none)
  | .discovering t tokenHash meshId =>
    -- `upsert_discovery` drops the offers to earlier keys of the same host
    let label := selectPeerLabel t.body.joinerHostname t.body.joinerDisplayName
    let stale (o : PendingOffer) : Bool := decide (o.direction = .outbound) &&
      o.peerHostname == label && o.peerPubkeyFp != t.body.joinerPubkeyFp
    ({ w with offers := w.offers.filter fun o => !stale o }, .offering t tokenHash meshId, none)
  | .offering t tokenHash meshId =>
    let offer := requestedOffer host t a
    match insertPendingOffer w.offers offer with
    | .error e => (w, .done, some (.refused e))
    | .ok offers =>
      ({ w with offers }, .done,
        some (.offered tokenHash offer (requestOfferResult host t meshId a)))
  | .lookingUp t =>
    match findOutboundOfferByCodeAndFp w.offers (host.hashCode t.body.code) t.signerFp a.now with
    | some offer => (w, .checkingId t offer, none)
    | none =>
      (w, .done, some (.refused
        "no matching pending outbound offer (wrong code, wrong peer, or expired)"))
  | .checkingId t offer =>
    match refuseTakenJoinerId host w.peers t.body.joinerHostname t.signerFp with
    | .ok () => (w, .admitting t offer, none)
    | .error e => (w, .done, some (.refused e))
  | .admitting t offer =>
    match signJoiner host t offer a with
    | .error e => (w, .done, some (.refused e))
    | .ok (result, row) =>
      ({ w with peers := upsertPeer w.peers row }, .cleaning t offer result, none)
  | .cleaning t offer result =>
    let stub (p : PeerRow) : Bool := p.peerId == "unknown" && a.unknownAt offer.peerAddr
    ({ w with peers := w.peers.filter fun p => !stub p }, .closing t offer result, none)
  | .closing t offer result =>
    ({ w with offers := w.offers.filter fun o => o.offerId != offer.offerId }, .done,
      some (.admitted t offer result))

/-- One step. -/
def advance (host : Host) (w : World) : Step → World × Option Event
  | .issueJoinToken secret a =>
    let token : JoinToken := ⟨host.hashCode secret, a.now + offerTtlSecs, a.now⟩
    match insertJoinToken w.tokens token with
    | .ok tokens => ({ w with tokens }, some (.issued token))
    | .error e => (w, some (.refused e))
  | .offer fp hostname addr port a =>
    let offer : PendingOffer := ⟨a.offerId, .outbound, fp, hostname, addr, port,
      host.hashCode a.code, none, none, none, a.now + offerTtlSecs, a.now⟩
    match insertPendingOffer w.offers offer with
    | .ok offers => ({ w with offers }, some (.invited offer))
    | .error e => (w, some (.refused e))
  | .dropOffers p => ({ w with offers := w.offers.filter fun o => !p o }, none)
  | .writePeers f => ({ w with peers := f w.peers }, none)
  | .handleOffer env peerIp a =>
    match (do let row ← inboundOffer env peerIp a; insertPendingOffer w.offers row) with
    | .ok offers => ({ w with offers }, none)
    | .error e => (w, some (.refused e))
  | .handleRequestOffer env meshCa peerIp =>
    match startRequestOffer env meshCa peerIp with
    | .ok phase => ({ w with tasks := w.tasks ++ [phase] }, none)
    | .error e => (w, some (.refused e))
  | .handleJoinConfirm env =>
    match env with
    | .ok (body, signerFp) => ({ w with tasks := w.tasks ++ [.lookingUp ⟨body, signerFp⟩] }, none)
    | .error e => (w, some (.refused e))
  | .proceed task a =>
    match w.tasks[task]? with
    | none => (w, none)
    | some phase =>
      let (w, phase, event) := proceed host w a phase
      ({ w with tasks := w.tasks.set task phase }, event)

/-- A database without offers, tokens and peers. -/
def World.start : World := ⟨[], [], [], []⟩

/-- The world after some steps. -/
def run (host : Host) (w : World) (steps : List Step) : World :=
  steps.foldl (fun w s => (advance host w s).1) w

/-- What can be seen of some steps. -/
def events (host : Host) (w : World) (steps : List Step) : List Event :=
  Emission.emitted (fun w s => (advance host w s).1) (fun w s => (advance host w s).2) w steps

end Orca.Admission
