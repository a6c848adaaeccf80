import Mathlib.Data.List.Sort
import Mathlib.Data.String.Basic
import Orca.Library.KeyedTable

/-!
# Peer rows

The model of the peer tables of `db/src/mesh/peerdb.rs`: `upsert_peer`, `merge_peer_rows` and
`converge_peer_identity`, with `upsert_peer_address` of `host_addressing.rs`.

`mesh_peers` and `mesh_peer_addresses` are keyed tables.  What `converge_peer_identity` is about to
fold is `convergePlan`: the row it keeps and the rows it deletes, which all carry the pinned key of
the row that was just written (`convergePlan_eq_some`).  The results say what each operation does to
the row of a peer id.
-/

namespace Orca

/-! ## The tables -/

/-- A row of `mesh_peers`. -/
structure PeerRow where
  /-- The id of the peer, primary key of the table. -/
  peerId : String
  peerHostname : String
  peerPort : UInt16
  /-- Fingerprint of the bootstrap key pinned for it. -/
  pubkeyFp : Option String
  /-- The CA certificate it was paired under. -/
  caCertPem : String
  /-- When it was first seen, in seconds since the epoch. -/
  firstSeenAt : Int
  lastSeenAt : Int
  departedAt : Option Int
  /-- When it first presented a certificate bound to its id. -/
  identityPinnedAt : Option Int
  /-- Whether it has sent bound envelopes. -/
  boundEnvelopes : Int

/-- A row of `mesh_peer_addresses`. -/
structure PeerAddress where
  peerId : String
  kind : String
  value : String
  source : String
  lastSeenAt : Int

/-- `PRIMARY KEY (peer_id, kind, value)`. -/
def PeerAddress.key (a : PeerAddress) : String × String × String := (a.peerId, a.kind, a.value)

/-- The tables `mesh_peers` and `mesh_peer_addresses`. -/
structure PeerTables where
  peers : KeyedTable PeerRow.peerId
  addresses : KeyedTable PeerAddress.key

/-- `peer_pubkey_fp_raw`: whether there is a row, and its fingerprint if any. -/
def PeerTables.peerPubkeyFpRaw (t : PeerTables) (peerId : String) : Option (Option String) :=
  (t.peers.find peerId).map PeerRow.pubkeyFp

/-- The fingerprint pinned in the row of a peer, departed or not. -/
def PeerTables.pin (t : PeerTables) (peerId : String) : Option String :=
  (t.peers.find peerId).bind PeerRow.pubkeyFp

/-! ## Writing a peer -/

/-- `addr_route_kind`. -/
def addrRouteKind (addr : String) : String :=
  if addr.toList.contains ':' then "lan_v6" else "lan_v4"

/-- `upsert_peer_address`. -/
def upsertPeerAddress (peerId kind value source : String) (now : Int)
    (addresses : KeyedTable PeerAddress.key) : KeyedTable PeerAddress.key :=
  addresses.upsert ⟨peerId, kind, value, source, now⟩
    (fun cur => { cur with source := source, lastSeenAt := now }) fun _ h => h

/-- `upsert_peer`, with the readings of the clock for the row and for its address.  The pinned
fingerprint is `COALESCE(excluded.pubkey_fp, mesh_peers.pubkey_fp)`. -/
def upsertPeer (isUuidv7 : String → Bool) (peerId peerHostname peerAddr : String)
    (peerPort : UInt16) (pubkeyFp : Option String) (caCertPem : String) (now addressNow : Int)
    (t : PeerTables) : Except String PeerTables :=
  if isUuidv7 peerId then
    .ok
      { peers := t.peers.upsert
          ⟨peerId, peerHostname, peerPort, pubkeyFp, caCertPem, now, now, none, none, 0⟩
          (fun cur =>
            { cur with
              peerHostname := peerHostname
              peerPort := peerPort
              pubkeyFp := pubkeyFp.or cur.pubkeyFp
              lastSeenAt := now
              departedAt := none })
          fun _ h => h
        addresses :=
          if peerAddr = "" then t.addresses
          else upsertPeerAddress peerId (addrRouteKind peerAddr) peerAddr "bootstrap" addressNow
            t.addresses }
  else
    .error ("refusing to persist peer identity " ++ peerId.quote ++
      ": not a canonical uuidv7 (all ids must be uuidv7)")

/-! ## Folding rows of one identity -/

/-- The `INSERT OR IGNORE … SELECT` of `merge_peer_rows`: copy the addresses of a sibling. -/
def copyAddresses (canonicalId sib : String) (addresses : KeyedTable PeerAddress.key) :
    KeyedTable PeerAddress.key :=
  (addresses.rows.filter fun a => a.peerId == sib).foldl
    (fun acc a => acc.insertNew { a with peerId := canonicalId }) addresses

/-- One iteration of `merge_peer_rows`.  Deleting the row of a sibling deletes its addresses. -/
def foldSibling (canonicalId : String) (t : PeerTables) (sib : String) : PeerTables :=
  if sib = canonicalId then t
  else
    { peers := t.peers.filter fun p => p.peerId != sib
      addresses := (copyAddresses canonicalId sib t.addresses).filter fun a => a.peerId != sib }

/-- The last statement of `merge_peer_rows`. -/
def touchPeer (peerId : String) (now : Int) (p : PeerRow) : PeerRow :=
  if p.peerId = peerId then { p with lastSeenAt := now } else p

lemma touchPeer_eq (peerId : String) (now : Int) (p : PeerRow) :
    touchPeer peerId now p = p ∨ touchPeer peerId now p = { p with lastSeenAt := now } := by
  unfold touchPeer
  split
  · exact Or.inr rfl
  · exact Or.inl rfl

lemma touchPeer_peerId (peerId : String) (now : Int) (p : PeerRow) :
    (touchPeer peerId now p).peerId = p.peerId := by
  rcases touchPeer_eq peerId now p with h | h <;> rw [h]

/-- `merge_peer_rows`. -/
def mergePeerRows (canonicalId : String) (staleIds : List String) (now : Int) (t : PeerTables) :
    PeerTables :=
  if staleIds.isEmpty then t
  else
    let folded := staleIds.foldl (foldSibling canonicalId) t
    { folded with
      peers := folded.peers.modify (touchPeer canonicalId now) (touchPeer_peerId canonicalId now) }

/-- Whether a peer carries an address on any channel. -/
def PeerTables.hasAddr (t : PeerTables) (peerId addr : String) : Bool :=
  t.addresses.rows.any fun a => a.peerId == peerId && a.value == addr

/-- Both keys are pinned and equal. -/
def sameKey : Option String → Option String → Bool
  | some a, some b => a == b
  | _, _ => false

/-- `cands` of `converge_peer_identity`: the rows that are not departed and share the address and
the pinned key of the row that was written. -/
def PeerTables.cands (t : PeerTables) (peerId peerAddr : String) : List PeerRow :=
  t.peers.rows.filter fun p =>
    p.departedAt.isNone && (peerAddr != "" && t.hasAddr p.peerId peerAddr &&
      sameKey (t.pin peerId) p.pubkeyFp)

/-- The order of the candidates: freshest first, then by id. -/
def freshestFirst (a b : PeerRow) : Bool :=
  b.lastSeenAt < a.lastSeenAt || (a.lastSeenAt == b.lastSeenAt && a.peerId ≤ b.peerId)

/-- What `converge_peer_identity` is about to fold: the id it keeps, and those it deletes. -/
def PeerTables.convergePlan (t : PeerTables) (peerId peerAddr : String) :
    Option (String × List String) :=
  match (t.cands peerId peerAddr).mergeSort freshestFirst with
  | canonical :: stale :: rest => some (canonical.peerId, (stale :: rest).map PeerRow.peerId)
  | _ => none

/-- `converge_peer_identity`, with the number of rows it retired. -/
def convergePeerIdentity (peerId peerAddr : String) (now : Int) (t : PeerTables) :
    PeerTables × Nat :=
  match t.convergePlan peerId peerAddr with
  | none => (t, 0)
  | some (canonical, stale) => (mergePeerRows canonical stale now t, stale.length)

/-! ## The row of a peer id -/

section Find

variable {t t' : PeerTables}

/-- `upsert_peer` writes the row of one id. -/
lemma find_upsertPeer {isUuidv7 : String → Bool} {peerId peerHostname peerAddr : String}
    {peerPort : UInt16} {pubkeyFp : Option String} {caCertPem : String} {now addressNow : Int}
    (h : upsertPeer isUuidv7 peerId peerHostname peerAddr peerPort pubkeyFp caCertPem now addressNow
      t = .ok t') :
    (∀ id, id ≠ peerId → t'.peers.find id = t.peers.find id) ∧
      ∃ row, t'.peers.find peerId = some row ∧ row.pubkeyFp = pubkeyFp.or (t.pin peerId) := by
  unfold upsertPeer at h
  split at h
  · cases h
    refine ⟨fun id hid => ?_, ?_⟩
    · rw [KeyedTable.find_upsert, if_neg hid]
    · refine ⟨_, by rw [KeyedTable.find_upsert, if_pos rfl], ?_⟩
      unfold PeerTables.pin
      cases t.peers.find peerId with
      | none => simp
      | some cur => rfl
  · cases h

/-- A fold deletes the row of one sibling. -/
lemma find_foldSibling (canonicalId sib id : String) (t : PeerTables) :
    (foldSibling canonicalId t sib).peers.find id =
      if id = sib ∧ sib ≠ canonicalId then none else t.peers.find id := by
  unfold foldSibling
  by_cases hcanonical : sib = canonicalId
  · simp [hcanonical]
  · rw [if_neg hcanonical, KeyedTable.find_filter]
    by_cases hid : id = sib
    · rw [if_pos ⟨hid, hcanonical⟩]
      cases hfind : t.peers.find id with
      | none => rfl
      | some p =>
        have hkey : p.peerId = sib := (KeyedTable.key_of_find hfind).trans hid
        simp [hkey]
    · rw [if_neg fun h => hid h.1]
      cases hfind : t.peers.find id with
      | none => rfl
      | some p =>
        have hkey : p.peerId ≠ sib := fun h => hid ((KeyedTable.key_of_find hfind).symm.trans h)
        simp [hkey]

/-- The folds delete the rows of the siblings. -/
lemma find_foldl_foldSibling {canonicalId : String} (staleIds : List String)
    (hcanonical : canonicalId ∉ staleIds) (id : String) (t : PeerTables) :
    (staleIds.foldl (foldSibling canonicalId) t).peers.find id =
      if id ∈ staleIds then none else t.peers.find id := by
  induction staleIds generalizing t with
  | nil => simp
  | cons sib staleIds ih =>
    rw [List.mem_cons, not_or] at hcanonical
    rw [List.foldl_cons, ih hcanonical.2, find_foldSibling]
    by_cases hmem : id ∈ staleIds
    · simp [hmem]
    · by_cases hid : id = sib
      · rw [if_neg hmem, if_pos ⟨hid, fun h => hcanonical.1 h.symm⟩]
        simp [hid]
      · simp [hmem, hid]

/-- `merge_peer_rows` deletes the rows of the siblings and touches the row it keeps. -/
lemma find_mergePeerRows {canonicalId : String} {staleIds : List String}
    (hcanonical : canonicalId ∉ staleIds) (hstale : staleIds ≠ []) (now : Int) (id : String) :
    (mergePeerRows canonicalId staleIds now t).peers.find id =
      if id ∈ staleIds then none else (t.peers.find id).map (touchPeer canonicalId now) := by
  unfold mergePeerRows
  rw [if_neg (by simpa using hstale)]
  simp only [KeyedTable.find_modify, find_foldl_foldSibling staleIds hcanonical]
  split
  · rfl
  · rfl

/-- What is folded: rows that are there, are not departed and carry the pinned key of the row that
was written. -/
lemma convergePlan_eq_some {peerId peerAddr canonical : String} {stale : List String}
    (h : t.convergePlan peerId peerAddr = some (canonical, stale)) :
    stale ≠ [] ∧ canonical ∉ stale ∧ ∃ fp, t.pin peerId = some fp ∧
      ∀ id ∈ canonical :: stale, ∃ row, t.peers.find id = some row ∧ row.departedAt = none ∧
        row.pubkeyFp = some fp := by
  unfold PeerTables.convergePlan at h
  split at h
  · rename_i first second rest hsorted
    simp only [Option.some.injEq, Prod.mk.injEq] at h
    obtain ⟨rfl, rfl⟩ := h
    have hperm : (first :: second :: rest).Perm (t.cands peerId peerAddr) :=
      hsorted ▸ List.mergeSort_perm _ _
    -- the candidates are rows of the table, so their ids are distinct
    have hnodup : ((first :: second :: rest).map PeerRow.peerId).Nodup :=
      (hperm.map PeerRow.peerId).nodup_iff.mpr
        (t.peers.nodup.sublist (List.filter_sublist.map PeerRow.peerId))
    rw [List.map_cons, List.nodup_cons] at hnodup
    have hcand : ∀ p ∈ first :: second :: rest, p ∈ t.peers.rows ∧ p.departedAt = none ∧
        sameKey (t.pin peerId) p.pubkeyFp = true := by
      intro p hp
      obtain ⟨hmem, hp⟩ := List.mem_filter.mp (hperm.mem_iff.mp hp)
      simp only [Bool.and_eq_true, Option.isNone_iff_eq_none] at hp
      exact ⟨hmem, hp.1, hp.2.2⟩
    refine ⟨by simp, hnodup.1, ?_⟩
    obtain ⟨-, -, hfirst⟩ := hcand first List.mem_cons_self
    cases hpin : t.pin peerId with
    | none => simp [hpin, sameKey] at hfirst
    | some fp =>
      refine ⟨fp, rfl, fun id hid => ?_⟩
      rw [← List.map_cons, List.mem_map] at hid
      obtain ⟨p, hp, rfl⟩ := hid
      obtain ⟨hmem, hdeparted, hkey⟩ := hcand p hp
      refine ⟨p, KeyedTable.find_eq_some_iff.mpr ⟨hmem, rfl⟩, hdeparted, ?_⟩
      cases hfp : p.pubkeyFp with
      | none => simp [hpin, hfp, sameKey] at hkey
      | some fp' =>
        simp only [hpin, hfp, sameKey, beq_iff_eq] at hkey
        rw [hkey]
  · cases h

/-- What `converge_peer_identity` does to the row of an id: nothing, or it touches it, or it deletes
it. -/
lemma find_convergePeerIdentity (peerId peerAddr : String) (now : Int) (t : PeerTables)
    (id : String) :
    (convergePeerIdentity peerId peerAddr now t).1.peers.find id =
      match t.convergePlan peerId peerAddr with
      | none => t.peers.find id
      | some (canonical, stale) =>
          if id ∈ stale then none else (t.peers.find id).map (touchPeer canonical now) := by
  unfold convergePeerIdentity
  split
  · rfl
  · rename_i canonical stale hplan
    obtain ⟨hstale, hcanonical, -⟩ := convergePlan_eq_some hplan
    exact find_mergePeerRows hcanonical hstale now id

end Find

end Orca
