import Mathlib.Data.List.Dedup
import Orca.Mesh.Roster
import Orca.Mesh.TrustRegistry

/-!
# The flag for bound envelopes

A member that has sent a bound envelope is marked in its row of `mesh_peers`, and from then on this
host takes no unbound envelope from it (`unbound_allowed`).  The row is not only updated: rows of
one identity are folded into one when a roster is ingested (`converge_peer_identity`) and at startup
(`dedup_same_identity_rows`), and a fold keeps the flag of the row that stays only.

The result is `bound_envelopes_kept_iff`: the member stays marked exactly as long as its row is not
outranked by another one at a fold.
-/

namespace Orca

open Invariant

/-! ## The flag -/

/-- The statement of `mark_bound_envelopes` on a row. -/
def markRow (peerId : String) (p : PeerRow) : PeerRow :=
  if p.peerId = peerId then { p with boundEnvelopes := 1 } else p

lemma markRow_peerId (peerId : String) (p : PeerRow) : (markRow peerId p).peerId = p.peerId := by
  unfold markRow
  split <;> rfl

/-- `mark_bound_envelopes`. -/
def markBoundEnvelopes (peerId : String) (t : PeerTables) : PeerTables :=
  { t with peers := t.peers.modify (markRow peerId) (markRow_peerId peerId) }

/-- `advertises_bound_envelopes`. -/
def advertisesBoundEnvelopes (t : PeerTables) (peerId : String) : Bool :=
  (t.peers.find peerId).any fun p => p.boundEnvelopes != 0

/-- `unbound_allowed`. -/
def unboundAllowed (libs : TrustLibs) (h : TrustHost) (t : PeerTables) (peerId : String) : Bool :=
  !requireBound libs h && !advertisesBoundEnvelopes t peerId

/-- The statement of `mark_peer_departed` on a row. -/
def departRow (peerId : String) (now : Int) (p : PeerRow) : PeerRow :=
  if p.peerId = peerId then { p with departedAt := some now, lastSeenAt := now } else p

lemma departRow_peerId (peerId : String) (now : Int) (p : PeerRow) :
    (departRow peerId now p).peerId = p.peerId := by
  unfold departRow
  split <;> rfl

/-- `mark_peer_departed`. -/
def markPeerDeparted (peerId : String) (now : Int) (t : PeerTables) : PeerTables :=
  { t with peers := t.peers.modify (departRow peerId now) (departRow_peerId peerId now) }

/-! ## Folding at startup -/

/-- The priority of a channel in `PRIMARY_ROUTE`. -/
def routePriority (kind : String) : Nat :=
  if kind = "lan_v4" then 0 else if kind = "lan_v6" then 1
  else if kind = "tailscale_v4" then 2 else if kind = "tailscale_v6" then 3 else 4

/-- The route of two that comes first in `PRIMARY_ROUTE`. -/
def firstRoute (a b : PeerAddress) : PeerAddress :=
  if routePriority b.kind < routePriority a.kind ∨
      (routePriority b.kind = routePriority a.kind ∧ b.value < a.value) then b else a

/-- `PRIMARY_ROUTE` of a peer. -/
def PeerTables.primaryRoute (t : PeerTables) (peerId : String) : Option String :=
  match t.addresses.rows.filter fun a => a.peerId == peerId with
  | [] => none
  | a :: rest => some (rest.foldl firstRoute a).value

/-- The identity of a row at startup: its primary address and its pinned key. -/
def PeerTables.identity (t : PeerTables) (p : PeerRow) : Option (String × String) :=
  match p.departedAt, p.pubkeyFp, t.primaryRoute p.peerId with
  | none, some fp, some addr => if addr = "" then none else some (addr, fp)
  | _, _, _ => none

/-- The rows of an identity. -/
def PeerTables.group (t : PeerTables) (key : String × String) : List PeerRow :=
  t.peers.rows.filter fun p => t.identity p == some key

/-- What a fold of rows is about to do: the id it keeps, and those it deletes. -/
def foldPlan (rows : List PeerRow) : Option (String × List String) :=
  match rows.mergeSort freshestFirst with
  | canonical :: stale :: rest => some (canonical.peerId, (stale :: rest).map PeerRow.peerId)
  | _ => none

/-- The identities in the order of the map. -/
def PeerTables.identities (t : PeerTables) : List (String × String) :=
  ((t.peers.rows.filterMap t.identity).insertionSort fun a b =>
    a.1 < b.1 ∨ (a.1 = b.1 ∧ a.2 ≤ b.2)).dedup

/-- The folds at startup. -/
def PeerTables.dedupPlans (t : PeerTables) : List (String × List String) :=
  t.identities.filterMap fun key => foldPlan (t.group key)

/-- `dedup_same_identity_rows`, with the readings of the clock at the folds and the number of rows
it retired. -/
def dedupSameIdentityRows (now : String → Int) (t : PeerTables) : PeerTables × Nat :=
  (t.dedupPlans.foldl (fun acc plan => mergePeerRows plan.1 plan.2 (now plan.1) acc) t,
    (t.dedupPlans.map fun plan => plan.2.length).sum)

/-! ## Actions -/

/-- What happens to the peer tables. -/
inductive PeerAction where
  | upsertPeer (peerId peerHostname peerAddr : String) (peerPort : UInt16)
      (pubkeyFp : Option String) (caCertPem : String) (now addressNow : Int)
  /-- A peer has sent a bound envelope. -/
  | markBoundEnvelopes (peerId : String)
  | ingestRoster (r : Roster)
  /-- The rows of one identity are folded. -/
  | convergePeerIdentity (peerId peerAddr : String) (now : Int)
  | dedupSameIdentityRows (now : String → Int)
  | markPeerDeparted (peerId : String) (now : Int)

section Actions

variable (isUuidv7 : String → Bool) (ownPeerId : String)

/-- The tables after an action. -/
def peerStep (t : PeerTables) : PeerAction → PeerTables
  | .upsertPeer peerId peerHostname peerAddr peerPort pubkeyFp caCertPem now addressNow =>
      match upsertPeer isUuidv7 peerId peerHostname peerAddr peerPort pubkeyFp caCertPem now
        addressNow t with
      | .ok t' => t'
      | .error _ => t
  | .markBoundEnvelopes peerId => markBoundEnvelopes peerId t
  | .ingestRoster r => (ingestRoster isUuidv7 ownPeerId r t).1
  | .convergePeerIdentity peerId peerAddr now => (convergePeerIdentity peerId peerAddr now t).1
  | .dedupSameIdentityRows now => (dedupSameIdentityRows now t).1
  | .markPeerDeparted peerId now => markPeerDeparted peerId now t

/-- Among the rows that are about to be folded there is one of this id and a fresher one, or one as
fresh with a smaller id. -/
def Outranked (rows : List PeerRow) (id : String) : Prop :=
  ∃ p ∈ rows, ∃ q ∈ rows, p.peerId = id ∧ q.peerId ≠ id ∧ freshestFirst q p = true

/-- The row of a peer is not outranked at the fold of an iteration. -/
def NotOutrankedAt (id : String) (t : PeerTables) (a : Arrival) : Prop :=
  ∀ written, ingestUpsert isUuidv7 ownPeerId a t = .ok (some written) →
    ¬Outranked (written.cands a.entry.peerId (entryPrimaryAddr a.entry)) id

/-- The row of a peer is not outranked by another one of its identity at a fold. -/
def KeepsRow (id : String) (t : PeerTables) : PeerAction → Prop
  | .ingestRoster r =>
      Along (ingestStep isUuidv7 ownPeerId) (NotOutrankedAt isUuidv7 ownPeerId id) t r.arrivals
  | .convergePeerIdentity peerId peerAddr _ => ¬Outranked (t.cands peerId peerAddr) id
  | .dedupSameIdentityRows _ => ∀ key, ¬Outranked (t.group key) id
  | _ => True

end Actions

/-! ## Who is outranked -/

section Outranked

lemma freshestFirst_total (a b : PeerRow) : (freshestFirst a b || freshestFirst b a) = true := by
  simp only [freshestFirst, Bool.or_eq_true, Bool.and_eq_true, decide_eq_true_eq, beq_iff_eq]
  rcases lt_trichotomy a.lastSeenAt b.lastSeenAt with h | h | h
  · exact Or.inr (Or.inl h)
  · rcases le_total a.peerId b.peerId with hid | hid
    · exact Or.inl (Or.inr ⟨h, hid⟩)
    · exact Or.inr (Or.inr ⟨h.symm, hid⟩)
  · exact Or.inl (Or.inl h)

/-- The order of the candidates is transitive. -/
lemma freshestFirst_trans (a b c : PeerRow) (hab : freshestFirst a b = true)
    (hbc : freshestFirst b c = true) : freshestFirst a c = true := by
  simp only [freshestFirst, Bool.or_eq_true, Bool.and_eq_true, decide_eq_true_eq,
    beq_iff_eq] at hab hbc ⊢
  rcases hab with hab | ⟨hab, hidab⟩ <;> rcases hbc with hbc | ⟨hbc, hidbc⟩
  · exact Or.inl (lt_trans hbc hab)
  · exact Or.inl (hbc ▸ hab)
  · exact Or.inl (hab ▸ hbc)
  · exact Or.inr ⟨hab.trans hbc, le_trans hidab hidbc⟩

/-- Two candidates that come before each other have one id. -/
lemma freshestFirst_antisymm {a b : PeerRow} (hab : freshestFirst a b = true)
    (hba : freshestFirst b a = true) : a.peerId = b.peerId := by
  simp only [freshestFirst, Bool.or_eq_true, Bool.and_eq_true, decide_eq_true_eq,
    beq_iff_eq] at hab hba
  rcases hab with hab | ⟨hab, hidab⟩ <;> rcases hba with hba | ⟨hba, hidba⟩
  · exact absurd (lt_trans hab hba) (lt_irrefl _)
  · exact absurd (hba ▸ hab) (lt_irrefl _)
  · exact absurd (hab ▸ hba) (lt_irrefl _)
  · exact le_antisymm hidab hidba

/-- A plan keeps one of the rows and deletes the others. -/
lemma foldPlan_eq_some {rows : List PeerRow} (hnodup : (rows.map PeerRow.peerId).Nodup)
    {canonical : String} {stale : List String} (h : foldPlan rows = some (canonical, stale)) :
    stale ≠ [] ∧ canonical ∉ stale ∧ ∀ id, id ∈ stale ↔ Outranked rows id := by
  unfold foldPlan at h
  split at h
  · rename_i first second rest hsorted
    simp only [Option.some.injEq, Prod.mk.injEq] at h
    obtain ⟨rfl, rfl⟩ := h
    have hperm : (first :: second :: rest).Perm rows := hsorted ▸ List.mergeSort_perm _ _
    have hpairwise : (first :: second :: rest).Pairwise fun a b => freshestFirst a b = true :=
      hsorted ▸ List.pairwise_mergeSort freshestFirst_trans freshestFirst_total rows
    have hnodup' : ((first :: second :: rest).map PeerRow.peerId).Nodup :=
      (hperm.map PeerRow.peerId).nodup_iff.mpr hnodup
    rw [List.map_cons, List.nodup_cons] at hnodup'
    rw [List.pairwise_cons] at hpairwise
    refine ⟨by simp, hnodup'.1, fun id => ⟨fun hid => ?_, ?_⟩⟩
    · obtain ⟨p, hp, rfl⟩ := List.mem_map.mp hid
      refine ⟨p, hperm.mem_iff.mp (List.mem_cons_of_mem _ hp), first,
        hperm.mem_iff.mp List.mem_cons_self, rfl, fun heq => ?_, hpairwise.1 p hp⟩
      exact hnodup'.1 (heq ▸ List.mem_map_of_mem hp)
    · rintro ⟨p, hp, q, hq, rfl, hne, hqp⟩
      rcases List.mem_cons.mp (hperm.mem_iff.mpr hp) with rfl | hp
      · -- the first row is outranked by no other
        rcases List.mem_cons.mp (hperm.mem_iff.mpr hq) with rfl | hq
        · exact absurd rfl hne
        · exact absurd (freshestFirst_antisymm hqp (hpairwise.1 q hq)) hne
      · exact List.mem_map_of_mem hp
  · cases h

/-- A row is outranked only where there is a plan. -/
lemma not_outranked_of_foldPlan_eq_none {rows : List PeerRow} (h : foldPlan rows = none)
    (id : String) : ¬Outranked rows id := by
  rintro ⟨p, hp, q, hq, rfl, hne, -⟩
  have hperm := List.mergeSort_perm rows freshestFirst
  unfold foldPlan at h
  split at h
  · cases h
  · rename_i hshort
    rcases hsorted : rows.mergeSort freshestFirst with _ | ⟨a, _ | ⟨b, rest⟩⟩
    · rw [hsorted] at hperm
      cases hperm.mem_iff.mpr hp
    · rw [hsorted] at hperm
      have hpa := List.mem_singleton.mp (hperm.mem_iff.mpr hp)
      have hqa := List.mem_singleton.mp (hperm.mem_iff.mpr hq)
      exact hne (hqa.trans hpa.symm ▸ rfl)
    · exact hshort a b rest hsorted

end Outranked

/-! ## What an action does to the flag -/

section Flag

variable {isUuidv7 : String → Bool} {ownPeerId : String} {t t' : PeerTables} {id : String}

lemma advertises_iff : advertisesBoundEnvelopes t id = true ↔
    ∃ p, t.peers.find id = some p ∧ p.boundEnvelopes ≠ 0 := by
  unfold advertisesBoundEnvelopes
  cases t.peers.find id with
  | none => simp
  | some p => simp

lemma advertises_modify {f : PeerRow → PeerRow} (hf : ∀ p, (f p).peerId = p.peerId)
    (hflag : ∀ p, p.boundEnvelopes ≠ 0 → (f p).boundEnvelopes ≠ 0)
    (h : advertisesBoundEnvelopes t id = true) :
    advertisesBoundEnvelopes { t with peers := t.peers.modify f hf } id = true := by
  obtain ⟨p, hp, hbound⟩ := advertises_iff.mp h
  refine advertises_iff.mpr ⟨f p, ?_, hflag p hbound⟩
  rw [KeyedTable.find_modify, hp, Option.map_some]

/-- A fold keeps the flag of a row that stays. -/
lemma advertises_mergePeerRows {canonical : String} {stale : List String} (now : Int)
    (hcanonical : canonical ∉ stale) (hstale : stale ≠ []) :
    advertisesBoundEnvelopes (mergePeerRows canonical stale now t) id = true ↔
      advertisesBoundEnvelopes t id = true ∧ id ∉ stale := by
  rw [advertises_iff, advertises_iff, find_mergePeerRows hcanonical hstale]
  by_cases hid : id ∈ stale
  · simp [hid]
  · have htouch : ∀ p : PeerRow, (touchPeer canonical now p).boundEnvelopes = p.boundEnvelopes := by
      intro p
      rcases touchPeer_eq canonical now p with h | h <;> rw [h]
    simp [hid, htouch]

/-- `converge_peer_identity` unmarks a member exactly if its row is outranked. -/
lemma advertises_convergePeerIdentity (peerId peerAddr : String) (now : Int) :
    advertisesBoundEnvelopes (convergePeerIdentity peerId peerAddr now t).1 id = true ↔
      advertisesBoundEnvelopes t id = true ∧ ¬Outranked (t.cands peerId peerAddr) id := by
  have hnodup : ((t.cands peerId peerAddr).map PeerRow.peerId).Nodup :=
    t.peers.nodup.sublist (List.filter_sublist.map PeerRow.peerId)
  unfold convergePeerIdentity
  cases hplan : t.convergePlan peerId peerAddr with
  | none => exact (and_iff_left (not_outranked_of_foldPlan_eq_none hplan id)).symm
  | some plan =>
    obtain ⟨canonical, stale⟩ := plan
    obtain ⟨hstale, hcanonical, hmem⟩ := foldPlan_eq_some hnodup hplan
    rw [advertises_mergePeerRows now hcanonical hstale, hmem]

/-- A sequence of folds unmarks a member exactly if one of them deletes its row. -/
lemma advertises_foldl_mergePeerRows {plans : List (String × List String)} (now : String → Int)
    (hplans : ∀ plan ∈ plans, plan.1 ∉ plan.2 ∧ plan.2 ≠ []) (t : PeerTables) :
    advertisesBoundEnvelopes
        (plans.foldl (fun acc plan => mergePeerRows plan.1 plan.2 (now plan.1) acc) t) id = true ↔
      advertisesBoundEnvelopes t id = true ∧ ∀ plan ∈ plans, id ∉ plan.2 := by
  induction plans generalizing t with
  | nil => simp
  | cons plan plans ih =>
    obtain ⟨hcanonical, hstale⟩ := hplans plan List.mem_cons_self
    rw [List.foldl_cons, ih fun plan' hplan' => hplans plan' (List.mem_cons_of_mem _ hplan'),
      advertises_mergePeerRows (now plan.1) hcanonical hstale, List.forall_mem_cons, and_assoc]

/-- `dedup_same_identity_rows` unmarks a member exactly if its row is outranked in its identity. -/
lemma advertises_dedupSameIdentityRows (now : String → Int) :
    advertisesBoundEnvelopes (dedupSameIdentityRows now t).1 id = true ↔
      advertisesBoundEnvelopes t id = true ∧ ∀ key, ¬Outranked (t.group key) id := by
  have hnodup : ∀ key, ((t.group key).map PeerRow.peerId).Nodup := fun key =>
    t.peers.nodup.sublist (List.filter_sublist.map PeerRow.peerId)
  have hplans : ∀ plan ∈ t.dedupPlans, ∃ key, foldPlan (t.group key) = some plan := by
    intro plan hplan
    obtain ⟨key, -, hkey⟩ := List.mem_filterMap.mp hplan
    exact ⟨key, hkey⟩
  refine Iff.trans (advertises_foldl_mergePeerRows now (fun plan hplan => ?_) t)
    (and_congr_right fun _ => ⟨fun hall key houtranked => ?_, fun hall plan hplan hid => ?_⟩)
  · obtain ⟨key, hkey⟩ := hplans plan hplan
    obtain ⟨hstale, hcanonical, -⟩ := foldPlan_eq_some (hnodup key) hkey
    exact ⟨hcanonical, hstale⟩
  · cases hplan : foldPlan (t.group key) with
    | none => exact not_outranked_of_foldPlan_eq_none hplan id houtranked
    | some plan =>
      obtain ⟨-, -, hmem⟩ := foldPlan_eq_some (hnodup key) hplan
      have hid : id ∈ plan.2 := (hmem id).mpr houtranked
      -- the identity of the row is one of those that are folded
      obtain ⟨p, hp, -⟩ := houtranked
      obtain ⟨hrow, hidentity⟩ := List.mem_filter.mp hp
      have hkey : key ∈ t.identities := by
        rw [PeerTables.identities, List.mem_dedup, List.mem_insertionSort, List.mem_filterMap]
        exact ⟨p, hrow, by simpa using hidentity⟩
      exact hall plan (List.mem_filterMap.mpr ⟨key, hkey, hplan⟩) hid
  · obtain ⟨key, hkey⟩ := hplans plan hplan
    obtain ⟨-, -, hmem⟩ := foldPlan_eq_some (hnodup key) hkey
    exact hall key ((hmem id).mp hid)

/-- `upsert_peer` changes no flag. -/
lemma advertises_upsertPeer {peerId peerHostname peerAddr : String} {peerPort : UInt16}
    {pubkeyFp : Option String} {caCertPem : String} {now addressNow : Int}
    (hupsert : upsertPeer isUuidv7 peerId peerHostname peerAddr peerPort pubkeyFp caCertPem now
      addressNow t = .ok t') :
    advertisesBoundEnvelopes t' id = advertisesBoundEnvelopes t id := by
  unfold advertisesBoundEnvelopes
  by_cases hid : id = peerId
  · subst hid
    unfold upsertPeer at hupsert
    split at hupsert
    · cases hupsert
      rw [KeyedTable.find_upsert, if_pos rfl]
      cases t.peers.find id with
      | none => rfl
      | some p => rfl
    · cases hupsert
  · rw [(find_upsertPeer hupsert).1 id hid]

/-- An iteration of a roster unmarks a member exactly if its row is outranked at the fold. -/
lemma advertises_ingestStep {a : Arrival} :
    advertisesBoundEnvelopes (ingestStep isUuidv7 ownPeerId t a) id = true ↔
      advertisesBoundEnvelopes t id = true ∧ NotOutrankedAt isUuidv7 ownPeerId id t a := by
  unfold ingestStep ingestEntry NotOutrankedAt
  rcases ingestUpsert_cases isUuidv7 ownPeerId a t with hskip | ⟨written, hwritten, -, -, hupsert⟩
  · rw [hskip]
    refine (and_iff_left fun written hwritten => ?_).symm
    cases hwritten
  · rw [hwritten]
    refine Iff.trans (advertises_convergePeerIdentity _ _ _) ?_
    rw [advertises_upsertPeer hupsert]
    simp

/-- The iterations of a roster unmark a member exactly if its row is outranked at one of the
folds. -/
lemma advertises_foldl_ingestStep {as : List Arrival} :
    advertisesBoundEnvelopes (as.foldl (ingestStep isUuidv7 ownPeerId) t) id = true ↔
      advertisesBoundEnvelopes t id = true ∧
        Along (ingestStep isUuidv7 ownPeerId) (NotOutrankedAt isUuidv7 ownPeerId id) t as := by
  induction as generalizing t with
  | nil => exact (and_iff_left trivial).symm
  | cons a as ih => rw [List.foldl_cons, ih, advertises_ingestStep, and_assoc, Along]

/-- **One action.**  A member that is marked stays so exactly if its row is not outranked at a
fold. -/
lemma advertises_peerStep (h : advertisesBoundEnvelopes t id = true) (a : PeerAction) :
    advertisesBoundEnvelopes (peerStep isUuidv7 ownPeerId t a) id = true ↔
      KeepsRow isUuidv7 ownPeerId id t a := by
  cases a with
  | upsertPeer peerId peerHostname peerAddr peerPort pubkeyFp caCertPem now addressNow =>
    refine iff_of_true ?_ trivial
    cases hupsert : upsertPeer isUuidv7 peerId peerHostname peerAddr peerPort pubkeyFp caCertPem now
        addressNow t with
    | error e =>
      simp only [peerStep, hupsert]
      exact h
    | ok t' =>
      simp only [peerStep, hupsert, advertises_upsertPeer hupsert]
      exact h
  | markBoundEnvelopes peerId =>
    refine iff_of_true (advertises_modify _ (fun p hp => ?_) h) trivial
    unfold markRow
    split
    · exact one_ne_zero
    · exact hp
  | ingestRoster r =>
    have hroster : peerStep isUuidv7 ownPeerId t (.ingestRoster r) =
        r.arrivals.foldl (ingestStep isUuidv7 ownPeerId) t := by
      have hone : [r].foldl (fun t r => (ingestRoster isUuidv7 ownPeerId r t).1) t =
          ([r].flatMap Roster.arrivals).foldl (ingestStep isUuidv7 ownPeerId) t :=
        foldl_ingestRoster [r] t
      rwa [List.flatMap_singleton] at hone
    rw [hroster, advertises_foldl_ingestStep]
    exact and_iff_right h
  | convergePeerIdentity peerId peerAddr now =>
    exact (advertises_convergePeerIdentity peerId peerAddr now).trans (and_iff_right h)
  | dedupSameIdentityRows now =>
    exact (advertises_dedupSameIdentityRows now).trans (and_iff_right h)
  | markPeerDeparted peerId now =>
    refine iff_of_true (advertises_modify _ (fun p hp => ?_) h) trivial
    unfold departRow
    split
    · exact hp
    · exact hp

end Flag

/-! ## Runs -/

/-- **Bound envelopes.**  After a member with a row was marked, no unbound envelope is taken from it
in any later state exactly if the mesh refuses unbound envelopes altogether or, at every fold of the
run, no fresher row with its address and its pinned key is folded with the one of the member. -/
theorem bound_envelopes_kept_iff (isUuidv7 : String → Bool) (ownPeerId : String) (libs : TrustLibs)
    (h : TrustHost) {t : PeerTables} {id : String} (hrow : t.peers.find id ≠ none)
    (actions : List PeerAction) :
    (∀ before, before <+: actions → unboundAllowed libs h
      (before.foldl (peerStep isUuidv7 ownPeerId) (markBoundEnvelopes id t)) id = false) ↔
      requireBound libs h = true ∨ Along (peerStep isUuidv7 ownPeerId)
        (KeepsRow isUuidv7 ownPeerId id) (markBoundEnvelopes id t) actions := by
  have hmarked : advertisesBoundEnvelopes (markBoundEnvelopes id t) id = true := by
    obtain ⟨p, hp⟩ := Option.ne_none_iff_exists'.mp hrow
    refine advertises_iff.mpr ⟨markRow id p, ?_, ?_⟩
    · rw [markBoundEnvelopes, KeyedTable.find_modify, hp, Option.map_some]
    · rw [markRow, if_pos (KeyedTable.key_of_find hp)]
      exact one_ne_zero
  cases hon : requireBound libs h with
  | true => exact iff_of_true (fun before _ => by simp [unboundAllowed, hon]) (Or.inl rfl)
  | false =>
    have hallowed : ∀ s, unboundAllowed libs h s id = false ↔
        advertisesBoundEnvelopes s id = true := by
      intro s
      simp [unboundAllowed, hon]
    simp only [hallowed, Bool.false_eq_true, false_or]
    exact foldl_holds_iff_along (I := fun s => advertisesBoundEnvelopes s id = true)
      (fun s a hs => advertises_peerStep hs a) hmarked

/-- A member that leaves and comes back stays marked. -/
theorem bound_envelopes_kept_on_return :
    unboundAllowed plainTrustLibs (plainMesh true)
      ([.markPeerDeparted peerA 1000, .upsertPeer peerA "alpha" "10.0.0.1" 12002 none "pem" 2000
        2000].foldl (peerStep sampleIsUuidv7 "me") (markBoundEnvelopes peerA pinnedTables)) peerA =
      false := by
  have hrow : pinnedTables.peers.find peerA ≠ none := by decide +kernel
  refine (bound_envelopes_kept_iff sampleIsUuidv7 "me" plainTrustLibs (plainMesh true) hrow
    _).mpr (Or.inr ?_) _ List.prefix_rfl
  exact ⟨trivial, trivial, trivial⟩

/-- Tables with a second, fresher row for the host of the first peer. -/
def twoRows : PeerTables where
  peers := pinnedTables.peers.insertNew
    ⟨peerB, "alpha", 12002, some "aa:bb", "pem", 1000, 1000, none, none, 0⟩
  addresses := pinnedTables.addresses.insertNew ⟨peerB, "lan_v4", "10.0.0.1", "bootstrap", 1000⟩

/-- The row of the marked member is folded into the fresher one and written again: the member is no
longer marked. -/
theorem bound_envelopes_lost_at_fold :
    let marked := markBoundEnvelopes peerA twoRows
    let folded := peerStep sampleIsUuidv7 "me" marked (.convergePeerIdentity peerB "10.0.0.1" 2000)
    let written := peerStep sampleIsUuidv7 "me" folded
      (.upsertPeer peerA "alpha" "10.0.0.1" 12002 (some "aa:bb") "pem" 3000 3000)
    unboundAllowed plainTrustLibs (plainMesh true) marked peerA = false ∧
    unboundAllowed plainTrustLibs (plainMesh true) folded peerA = true ∧
    unboundAllowed plainTrustLibs (plainMesh true) written peerA = true := by
  intro marked folded written
  have hoff : requireBound plainTrustLibs (plainMesh true) = false := rfl
  have houtranked : Outranked (marked.cands peerB "10.0.0.1") peerA := by
    unfold Outranked
    decide +kernel
  have hfolded : advertisesBoundEnvelopes folded peerA = false := by
    refine Bool.eq_false_iff.mpr fun h => ?_
    exact ((advertises_convergePeerIdentity _ _ _).mp h).2 houtranked
  have hwritten : advertisesBoundEnvelopes written peerA = false := by
    have hid : sampleIsUuidv7 peerA = true := by decide +kernel
    obtain ⟨t', ht'⟩ : ∃ t', upsertPeer sampleIsUuidv7 peerA "alpha" "10.0.0.1" 12002 (some "aa:bb")
        "pem" 3000 3000 folded = .ok t' := ⟨_, if_pos hid⟩
    have hwritten : written = t' := by
      simp only [written, peerStep, ht']
    rw [hwritten, advertises_upsertPeer ht', hfolded]
  refine ⟨by decide +kernel, ?_, ?_⟩
  · simp [unboundAllowed, hoff, hfolded]
  · simp [unboundAllowed, hoff, hwritten]

end Orca
