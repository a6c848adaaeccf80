import Orca.Library.Invariant
import Orca.Mesh.Peers
import Orca.Replication.MergeBundle

/-!
# Roster ingestion

The model of `ingest_roster` of `system/src/mesh/roster_sync.rs`: a peer learns the peers of another
peer from the roster it sends.

An `Arrival` is one iteration of the loop, with what it reads.  Rows of one identity are folded into
one at the end of an iteration, so that the row of a peer can go away; `follow` is the peer id under
which a row is found after a sequence of iterations.  The results are about the pinned fingerprint
along such sequences, and about the peers a roster cannot bring back.
-/

namespace Orca

open Invariant

/-! ## `ingest_roster` -/

/-- The part of a `Route` that is read here. -/
structure Route where
  kind : String
  value : String

/-- The fields of a `MeshPeerDto` that ingestion reads. -/
structure MeshPeerDto where
  peerId : String
  hostname : String
  /-- Its address, in rosters of earlier releases. -/
  addr : String
  port : UInt16
  /-- Whether it is `active` or `departed`. -/
  status : String
  routes : List Route
  /-- `local`: whether it is the sender itself. -/
  isLocal : Bool
  /-- Fingerprint of its key, if the sender has pinned one. -/
  pubkeyFp : Option String

/-- `entry_primary_addr`. -/
def entryPrimaryAddr (entry : MeshPeerDto) : String :=
  if entry.addr ≠ "" then entry.addr
  else
    (((entry.routes.find? fun a => a.kind == "lan_v4").or
      (entry.routes.find? fun a => a.value != "")).map Route.value).getD ""

/-- `is_ingestable`. -/
def isIngestable (entry : MeshPeerDto) (ownPeerId : String) : Bool :=
  if entry.isLocal then false
  else if entry.peerId = "local" ∨ entry.peerId = "unknown" ∨ entry.peerId = ownPeerId then false
  else if entry.status ≠ "active" then false
  else true

/-- `is_peer_forgotten`. -/
def isPeerForgotten (ops : OpLog) (nowMillis : Int) (peerId : String) : Bool :=
  ops.isDeleted peerTombstoneEntity peerId nowMillis defaultTtlMs

/-- The readings of the clock in one iteration. -/
structure Readings where
  forgotten : Int
  /-- For the row that is written, in seconds. -/
  upsert : Int
  address : Int
  /-- For the row that others are folded into. -/
  converge : Int

/-- One iteration of the loop, with what it reads. -/
structure Arrival where
  ops : OpLog
  /-- The CA certificate of the mesh. -/
  caCertPem : String
  now : Readings
  entry : MeshPeerDto

section Ingest

variable (isUuidv7 : String → Bool) (ownPeerId : String)

/-- An iteration up to `upsert_peer`: the tables it leaves, or nothing when the entry is skipped. -/
def ingestUpsert (a : Arrival) (t : PeerTables) : Except String (Option PeerTables) :=
  if !isUuidv7 a.entry.peerId then .ok none
  else if !isIngestable a.entry ownPeerId then .ok none
  else if isPeerForgotten a.ops a.now.forgotten a.entry.peerId then .ok none
  else if (t.peerPubkeyFpRaw a.entry.peerId).isSome && a.entry.pubkeyFp.isNone then .ok none
  else
    (upsertPeer isUuidv7 a.entry.peerId a.entry.hostname (entryPrimaryAddr a.entry) a.entry.port
      a.entry.pubkeyFp a.caCertPem a.now.upsert a.now.address t).map some

/-- An iteration: the tables it leaves, and the number of peers it learned. -/
def ingestEntry (a : Arrival) (t : PeerTables) : Except String (PeerTables × Nat) :=
  match ingestUpsert isUuidv7 ownPeerId a t with
  | .error e => .error e
  | .ok none => .ok (t, 0)
  | .ok (some written) =>
      let addr := entryPrimaryAddr a.entry
      .ok ((convergePeerIdentity a.entry.peerId addr a.now.converge written).1,
        if (t.peerPubkeyFpRaw a.entry.peerId).isNone then 1 else 0)

/-- The loop of `ingest_roster`. -/
def ingestLoop : List Arrival → PeerTables → Nat → PeerTables × Except String Nat
  | [], t, added => (t, .ok added)
  | a :: as, t, added =>
      match ingestEntry isUuidv7 ownPeerId a t with
      | .error e => (t, .error e)
      | .ok (t', n) => ingestLoop as t' (added + n)

/-- A roster, with what its ingestion reads. -/
structure Roster where
  ops : OpLog
  /-- The file with the CA certificate of the mesh. -/
  caCertPem : Except String String
  /-- The entries, with the readings of the clock in their iterations. -/
  entries : List (Readings × MeshPeerDto)

/-- The iterations of a roster: none when the CA certificate cannot be read. -/
def Roster.arrivals (r : Roster) : List Arrival :=
  match r.caCertPem with
  | .error _ => []
  | .ok pem => r.entries.map fun e => ⟨r.ops, pem, e.1, e.2⟩

/-- `ingest_roster`. -/
def ingestRoster (r : Roster) (t : PeerTables) : PeerTables × Except String Nat :=
  match r.caCertPem with
  | .error e => (t, .error e)
  | .ok _ => ingestLoop isUuidv7 ownPeerId r.arrivals t 0

/-! ## Iterations as steps -/

/-- The tables after an iteration. -/
def ingestStep (t : PeerTables) (a : Arrival) : PeerTables :=
  match ingestEntry isUuidv7 ownPeerId a t with
  | .error _ => t
  | .ok (t', _) => t'

/-- Where the row of a peer id is after a fold. -/
def foldedInto (plan : Option (String × List String)) (id : String) : String :=
  match plan with
  | none => id
  | some (canonical, stale) => if id ∈ stale then canonical else id

/-- Where the row of a peer id is after an iteration. -/
def followStep (t : PeerTables) (a : Arrival) (id : String) : String :=
  match ingestUpsert isUuidv7 ownPeerId a t with
  | .ok (some written) =>
      foldedInto (written.convergePlan a.entry.peerId (entryPrimaryAddr a.entry)) id
  | _ => id

/-- Where the row of a peer id is after a sequence of iterations. -/
def follow : PeerTables → List Arrival → String → String
  | _, [], id => id
  | t, a :: as, id =>
      follow (ingestStep isUuidv7 ownPeerId t a) as (followStep isUuidv7 ownPeerId t a id)

/-- The entry is not dropped for its id, its status or a tombstone. -/
def Considered (a : Arrival) : Prop :=
  isUuidv7 a.entry.peerId = true ∧ isIngestable a.entry ownPeerId = true ∧
    isPeerForgotten a.ops a.now.forgotten a.entry.peerId = false

/-- The condition on an iteration: an entry that is not dropped carries no other fingerprint than
the one pinned for its peer. -/
def Agrees (t : PeerTables) (a : Arrival) : Prop :=
  Considered isUuidv7 ownPeerId a →
    ∀ fp fp', t.pin a.entry.peerId = some fp → a.entry.pubkeyFp = some fp' → fp' = fp

end Ingest

section Step

variable {isUuidv7 : String → Bool} {ownPeerId : String} {t : PeerTables} {a : Arrival}

/-- What an iteration up to `upsert_peer` can have done: skip the entry, or write a considered one
whose peer is new or which carries a fingerprint. -/
lemma ingestUpsert_cases (isUuidv7 : String → Bool) (ownPeerId : String) (a : Arrival)
    (t : PeerTables) :
    ingestUpsert isUuidv7 ownPeerId a t = .ok none ∨
      ∃ written, ingestUpsert isUuidv7 ownPeerId a t = .ok (some written) ∧
        Considered isUuidv7 ownPeerId a ∧
        (t.peers.find a.entry.peerId = none ∨ a.entry.pubkeyFp ≠ none) ∧
        upsertPeer isUuidv7 a.entry.peerId a.entry.hostname (entryPrimaryAddr a.entry) a.entry.port
          a.entry.pubkeyFp a.caCertPem a.now.upsert a.now.address t = .ok written := by
  unfold ingestUpsert
  split
  · exact Or.inl rfl
  · rename_i hid
    split
    · exact Or.inl rfl
    · rename_i hingestable
      split
      · exact Or.inl rfl
      · rename_i hforgotten
        split
        · exact Or.inl rfl
        · rename_i hskip
          have hconsidered : Considered isUuidv7 ownPeerId a :=
            ⟨by simpa using hid, by simpa using hingestable, by simpa using hforgotten⟩
          have hnew : t.peers.find a.entry.peerId = none ∨ a.entry.pubkeyFp ≠ none := by
            cases hfind : t.peers.find a.entry.peerId with
            | none => exact Or.inl rfl
            | some row =>
              right
              intro hnone
              simp [PeerTables.peerPubkeyFpRaw, hfind, hnone] at hskip
          -- the id passed the check, so the write does not fail
          cases hupsert : upsertPeer isUuidv7 a.entry.peerId a.entry.hostname
              (entryPrimaryAddr a.entry) a.entry.port a.entry.pubkeyFp a.caCertPem a.now.upsert
              a.now.address t with
          | error e => simp [upsertPeer, hconsidered.1] at hupsert
          | ok written => exact Or.inr ⟨written, rfl, hconsidered, hnew, rfl⟩

/-- What an iteration can have done: nothing, or write the row of a considered entry and fold. -/
lemma ingestStep_cases (isUuidv7 : String → Bool) (ownPeerId : String) (t : PeerTables)
    (a : Arrival) :
    (ingestStep isUuidv7 ownPeerId t a = t ∧ ∀ id, followStep isUuidv7 ownPeerId t a id = id) ∨
      ∃ written, Considered isUuidv7 ownPeerId a ∧
        (t.peers.find a.entry.peerId = none ∨ a.entry.pubkeyFp ≠ none) ∧
        upsertPeer isUuidv7 a.entry.peerId a.entry.hostname (entryPrimaryAddr a.entry) a.entry.port
          a.entry.pubkeyFp a.caCertPem a.now.upsert a.now.address t = .ok written ∧
        ingestStep isUuidv7 ownPeerId t a = (convergePeerIdentity a.entry.peerId
          (entryPrimaryAddr a.entry) a.now.converge written).1 ∧
        ∀ id, followStep isUuidv7 ownPeerId t a id =
          foldedInto (written.convergePlan a.entry.peerId (entryPrimaryAddr a.entry)) id := by
  unfold ingestStep ingestEntry followStep
  rcases ingestUpsert_cases isUuidv7 ownPeerId a t with h | ⟨written, h, hconsidered, hnew, hupsert⟩
  · rw [h]
    exact Or.inl ⟨rfl, fun _ => rfl⟩
  · rw [h]
    exact Or.inr ⟨written, hconsidered, hnew, hupsert, rfl, fun _ => rfl⟩

/-- The loop never fails, and its tables are those of its iterations. -/
lemma ingestLoop_fst (as : List Arrival) (t : PeerTables) (added : Nat) :
    (ingestLoop isUuidv7 ownPeerId as t added).1 = as.foldl (ingestStep isUuidv7 ownPeerId) t := by
  induction as generalizing t added with
  | nil => rfl
  | cons a as ih =>
    unfold ingestLoop
    rw [List.foldl_cons]
    cases hentry : ingestEntry isUuidv7 ownPeerId a t with
    | error e =>
      unfold ingestEntry at hentry
      rcases ingestUpsert_cases isUuidv7 ownPeerId a t with h | ⟨written, h, -⟩ <;>
        simp [h] at hentry
    | ok res =>
      have hstep : ingestStep isUuidv7 ownPeerId t a = res.1 := by
        unfold ingestStep
        rw [hentry]
      rw [hstep]
      exact ih res.1 (added + res.2)

/-- A sequence of rosters is the sequence of their iterations. -/
lemma foldl_ingestRoster (rosters : List Roster) (t : PeerTables) :
    rosters.foldl (fun t r => (ingestRoster isUuidv7 ownPeerId r t).1) t =
      (rosters.flatMap Roster.arrivals).foldl (ingestStep isUuidv7 ownPeerId) t := by
  induction rosters generalizing t with
  | nil => rfl
  | cons r rosters ih =>
    have hroster : (ingestRoster isUuidv7 ownPeerId r t).1 =
        r.arrivals.foldl (ingestStep isUuidv7 ownPeerId) t := by
      unfold ingestRoster
      split
      · rename_i hpem
        simp [Roster.arrivals, hpem]
      · exact ingestLoop_fst _ _ _
    rw [List.foldl_cons, List.flatMap_cons, List.foldl_append, ih, hroster]

/-! ## Pins -/

/-- A fold moves a pinned row to one with the same fingerprint. -/
lemma pin_convergePeerIdentity {peerId peerAddr id fp : String} (now : Int)
    (h : t.pin id = some fp) :
    (convergePeerIdentity peerId peerAddr now t).1.pin
      (foldedInto (t.convergePlan peerId peerAddr) id) = some fp := by
  have hfind := find_convergePeerIdentity peerId peerAddr now t
  unfold PeerTables.pin foldedInto
  cases hplan : t.convergePlan peerId peerAddr with
  | none =>
    simp only [hplan] at hfind
    rw [hfind]
    exact h
  | some plan =>
    obtain ⟨canonical, stale⟩ := plan
    simp only [hplan] at hfind
    obtain ⟨-, hcanonical, key, -, hrows⟩ := convergePlan_eq_some hplan
    have htouch : ∀ row : PeerRow, (touchPeer canonical now row).pubkeyFp = row.pubkeyFp := by
      intro row
      rcases touchPeer_eq canonical now row with hrow | hrow <;> rw [hrow]
    by_cases hid : id ∈ stale
    · -- the row of `id` goes, and the one that is kept has its key
      obtain ⟨row, hrow, -, hkey⟩ := hrows id (List.mem_cons_of_mem _ hid)
      obtain ⟨kept, hkept, -, hkey'⟩ := hrows canonical List.mem_cons_self
      have hfp : key = fp := by simpa [PeerTables.pin, hrow, hkey] using h
      simp only [if_pos hid, hfind, if_neg hcanonical, hkept]
      simp [htouch, hkey', hfp]
    · simp only [if_neg hid, hfind]
      unfold PeerTables.pin at h
      cases hrow : t.peers.find id with
      | none => simp [hrow] at h
      | some row => simpa [hrow, htouch] using h

/-- **One iteration.**  An entry that agrees with the pins keeps each of them, in the row itself or
in the one it was folded into. -/
lemma pin_ingestStep (hagrees : Agrees isUuidv7 ownPeerId t a) {id fp : String}
    (h : t.pin id = some fp) :
    (ingestStep isUuidv7 ownPeerId t a).pin (followStep isUuidv7 ownPeerId t a id) = some fp := by
  rcases ingestStep_cases isUuidv7 ownPeerId t a with
    ⟨hstep, hfollow⟩ | ⟨written, hconsidered, hnew, hupsert, hstep, hfollow⟩
  · rw [hstep, hfollow]
    exact h
  · rw [hstep, hfollow]
    refine pin_convergePeerIdentity a.now.converge ?_
    obtain ⟨hother, row, hrow, hpin⟩ := find_upsertPeer hupsert
    by_cases hid : id = a.entry.peerId
    · subst hid
      unfold PeerTables.pin
      rw [hrow, Option.bind_some, hpin, h]
      -- an entry without a fingerprint is skipped, one with it has the pinned one
      cases hentry : a.entry.pubkeyFp with
      | none =>
        have hnone := hnew.resolve_right (not_not.mpr hentry)
        simp [PeerTables.pin, hnone] at h
      | some fp' => rw [hagrees hconsidered fp fp' h hentry, Option.some_or]
    · unfold PeerTables.pin
      rw [hother id hid]
      exact h

lemma pin_foldl_ingestStep {as : List Arrival}
    (hagrees : Along (ingestStep isUuidv7 ownPeerId) (Agrees isUuidv7 ownPeerId) t as)
    {id fp : String} (h : t.pin id = some fp) :
    (as.foldl (ingestStep isUuidv7 ownPeerId) t).pin (follow isUuidv7 ownPeerId t as id) =
      some fp := by
  induction as generalizing t id with
  | nil => exact h
  | cons a as ih => exact ih hagrees.2 (pin_ingestStep hagrees.1 h)

/-! ## Peers that are not brought back -/

/-- The row of a peer id, if it is there at the end, was there at the start, departed or not and
pinned as it is now. -/
def NotBrought (id : String) (t t' : PeerTables) : Prop :=
  ∀ row', t'.peers.find id = some row' → ∃ row, t.peers.find id = some row ∧
    row'.departedAt = row.departedAt ∧ row'.pubkeyFp = row.pubkeyFp

/-- An iteration on another entry does not bring a peer back. -/
lemma notBrought_ingestStep {id : String}
    (h : Considered isUuidv7 ownPeerId a → a.entry.peerId ≠ id) :
    NotBrought id t (ingestStep isUuidv7 ownPeerId t a) := by
  intro row' hrow'
  rcases ingestStep_cases isUuidv7 ownPeerId t a with
    ⟨hstep, -⟩ | ⟨written, hconsidered, -, hupsert, hstep, -⟩
  · rw [hstep] at hrow'
    exact ⟨row', hrow', rfl, rfl⟩
  · have hwritten : written.peers.find id = t.peers.find id :=
      (find_upsertPeer hupsert).1 id (h hconsidered).symm
    rw [hstep, find_convergePeerIdentity, hwritten] at hrow'
    split at hrow'
    · exact ⟨row', hrow', rfl, rfl⟩
    · rename_i canonical stale hplan
      split at hrow'
      · cases hrow'
      · obtain ⟨row, hrow, rfl⟩ := Option.map_eq_some_iff.mp hrow'
        refine ⟨row, hrow, ?_⟩
        rcases touchPeer_eq canonical a.now.converge row with htouch | htouch <;> rw [htouch] <;>
          exact ⟨rfl, rfl⟩

/-- This host, an id that is no uuidv7, and a peer with a live tombstone are not considered. -/
lemma not_considered {id : String} (hentry : a.entry.peerId = id)
    (h : id = ownPeerId ∨ isUuidv7 id = false ∨
      isPeerForgotten a.ops a.now.forgotten id = true) : ¬Considered isUuidv7 ownPeerId a := by
  rintro ⟨hid, hingestable, hforgotten⟩
  rw [hentry] at hid hforgotten
  rcases h with rfl | hno | hlive
  · simp [isIngestable, hentry] at hingestable
  · rw [hno] at hid
    cases hid
  · rw [hlive] at hforgotten
    cases hforgotten

/-- **Rosters and pins.**  Along every sequence of rosters whose entries, unless they are dropped,
carry no other fingerprint than the one pinned for their peer, a pinned row keeps its fingerprint or
is folded into a row with the same fingerprint.  Along every sequence of rosters, no row is created
or revived for this host, for an id that is no uuidv7, and for a peer whose tombstone is live
whenever a roster lists it. -/
theorem rosters_keep_pins (isUuidv7 : String → Bool) (ownPeerId : String) (t : PeerTables)
    (rosters : List Roster) :
    let arrivals := rosters.flatMap Roster.arrivals
    let t' := rosters.foldl (fun t r => (ingestRoster isUuidv7 ownPeerId r t).1) t
    (Along (ingestStep isUuidv7 ownPeerId) (Agrees isUuidv7 ownPeerId) t arrivals →
      ∀ id fp, t.pin id = some fp → t'.pin (follow isUuidv7 ownPeerId t arrivals id) = some fp) ∧
    ∀ id, (id = ownPeerId ∨ isUuidv7 id = false ∨ ∀ a ∈ arrivals, a.entry.peerId = id →
        isPeerForgotten a.ops a.now.forgotten id = true) → NotBrought id t t' := by
  intro arrivals t'
  have ht' : t' = arrivals.foldl (ingestStep isUuidv7 ownPeerId) t := foldl_ingestRoster rosters t
  rw [ht']
  refine ⟨fun hagrees id fp h => pin_foldl_ingestStep hagrees h, fun id hid => ?_⟩
  have hstep : ∀ a ∈ arrivals, ∀ s, NotBrought id s (ingestStep isUuidv7 ownPeerId s a) := by
    intro a ha s
    refine notBrought_ingestStep fun hconsidered hentry => ?_
    refine not_considered hentry ?_ hconsidered
    rcases hid with hown | hno | hlive
    · exact Or.inl hown
    · exact Or.inr (Or.inl hno)
    · exact Or.inr (Or.inr (hlive a ha hentry))
  refine foldl_relates (I := fun _ => True) (R := NotBrought id) ?_ ?_ (fun _ _ _ _ => trivial)
    (fun a ha s _ => hstep a ha s) trivial
  · exact fun s row hrow => ⟨row, hrow, rfl, rfl⟩
  · intro s₁ s₂ s₃ h₁₂ h₂₃ row₃ hrow₃
    obtain ⟨row₂, hrow₂, hdeparted₂, hfp₂⟩ := h₂₃ row₃ hrow₃
    obtain ⟨row₁, hrow₁, hdeparted₁, hfp₁⟩ := h₁₂ row₂ hrow₂
    exact ⟨row₁, hrow₁, hdeparted₂.trans hdeparted₁, hfp₂.trans hfp₁⟩

end Step

/-! ### A peer listed with another key -/

/-- The id of a peer. -/
def peerA : String := "019e7105-0000-7000-8000-0000000abc01"

/-- The id of another peer. -/
def peerB : String := "019e7105-0000-7000-8000-0000000abc02"

/-- `is_uuidv7` on the ids of the sample. -/
def sampleIsUuidv7 (s : String) : Bool := s == peerA || s == peerB

/-- Tables with the first peer, pinned, at an address. -/
def pinnedTables : PeerTables where
  peers := KeyedTable.empty.insertNew
    ⟨peerA, "alpha", 12002, some "aa:bb", "pem", 0, 0, none, none, 0⟩
  addresses := KeyedTable.empty.insertNew ⟨peerA, "lan_v4", "10.0.0.1", "bootstrap", 0⟩

/-- A roster that lists one peer at that address, with a fingerprint. -/
def sampleRoster (now : Int) (peerId fp : String) : Roster where
  ops := .empty
  caCertPem := .ok "pem"
  entries := [(⟨1000 * now, now, now, now⟩,
    ⟨peerId, "alpha", "10.0.0.1", 12002, "active", [], false, some fp⟩)]

/-- The first peer listed with the fingerprint it is pinned to, then another id at the same address
with the same fingerprint. -/
def foldingRosters : List Roster :=
  [sampleRoster 1000 peerA "aa:bb", sampleRoster 2000 peerB "aa:bb"]

/-- The rosters keep the pin of the first peer, in its row or in the one it was folded into. -/
theorem rosters_keep_pins_folding :
    (foldingRosters.foldl (fun t r => (ingestRoster sampleIsUuidv7 "me" r t).1) pinnedTables).pin
      (follow sampleIsUuidv7 "me" pinnedTables (foldingRosters.flatMap Roster.arrivals) peerA) =
        some "aa:bb" := by
  refine (rosters_keep_pins sampleIsUuidv7 "me" pinnedTables foldingRosters).1 ?_ peerA "aa:bb"
    (by decide +kernel)
  refine ⟨fun _ fp fp' hpin hentry => ?_, fun _ fp fp' hpin _ => ?_, trivial⟩
  · have hpinned : pinnedTables.pin peerA = some "aa:bb" := by decide +kernel
    exact Option.some.inj (hentry.symm.trans (hpinned.symm.trans hpin))
  · -- the other id has no row yet
    have hfree : (ingestStep sampleIsUuidv7 "me" pinnedTables
        ⟨.empty, "pem", ⟨1000000, 1000, 1000, 1000⟩,
          ⟨peerA, "alpha", "10.0.0.1", 12002, "active", [], false, some "aa:bb"⟩⟩).pin peerB =
        none := by decide +kernel
    cases hfree.symm.trans hpin

/-- Listed with another fingerprint, the peer is pinned to that one. -/
theorem roster_replaces_pin :
    pinnedTables.pin peerA = some "aa:bb" ∧
      (ingestRoster sampleIsUuidv7 "me" (sampleRoster 1000 peerA "cc:dd")
        pinnedTables).1.peers.rows.map (fun p => (p.peerId, p.pubkeyFp)) =
          [(peerA, some "cc:dd")] := by
  decide +kernel

end Orca
