import Mathlib.Data.List.Dedup
import Mathlib.Data.List.Count
import Mathlib.Algebra.BigOperators.Group.List.Lemmas
import Orca.Basic
import Orca.Library.Emission
import Orca.Library.Invariant

/-!
# The ledger of single-use mesh nonces

The model of `record_mesh_nonce`, `prune_nonces`, `record_nonce_in`, `set_secure` and
`consume_promotion_grant` of `db/src/mesh/peerdb.rs`.

The ledger keeps two tables.  `mesh_seen_nonces` has one row for every nonce seen within the replay
window; `mesh_nonce_counts` has running counters per scope, so that the caps need no `COUNT(*)`.
A scope is `all`, `sender:X` for one sender, or `exec`, and `nonceScopes` lists the scopes of a row.
The counters are maintained apart from the rows: pruning subtracts one grouped count per
`(method, sender)` and clamps at zero, recording adds one per scope of the row on first insert.
`NonceStore.Exact` says that they nevertheless agree with the rows.
-/

namespace Orca

open Emission

/-- `MESH_NONCE_HORIZON_SECS` -/
def meshNonceHorizonSecs : Int := 900
/-- `MESH_NONCE_PRUNE_MARGIN_SECS` -/
def meshNoncePruneMarginSecs : Int := 300
/-- `MESH_NONCE_CAP` -/
def meshNonceCap : Int := 100000
/-- `MESH_NONCE_EXEC_CAP` -/
def meshNonceExecCap : Int := 80000
/-- `MESH_NONCE_SENDER_CAP` -/
def meshNonceSenderCap : Int := 10000
/-- `MESH_EXEC_NONCE_METHOD` -/
def meshExecNonceMethod : String := "mesh/exec"
/-- `MESH_PROMOTE_NONCE_METHOD` -/
def meshPromoteNonceMethod : String := "mesh/promote"

/-- A row of `mesh_seen_nonces`. -/
structure NonceRow where
  /-- The nonce, primary key of the table. -/
  nonce : String
  /-- The mesh method the nonce was presented for. -/
  method : String
  sender : String
  /-- End of validity in seconds since the epoch. -/
  expiresAt : Int
deriving DecidableEq

/-- The row of `mesh_self`, as far as the functions below write it. -/
structure MeshSelf where
  /-- Whether this host is a secure member. -/
  secure : Bool
  /-- When the tier was last set. -/
  setAt : Int
deriving DecidableEq

/-- The tables the ledger functions read and write. -/
structure NonceStore where
  /-- `mesh_seen_nonces`. -/
  seen : List NonceRow
  /-- `nonce` is the primary key of `mesh_seen_nonces`. -/
  nonce_nodup : (seen.map NonceRow.nonce).Nodup
  /-- `mesh_nonce_counts`, a map from the primary key `scope` to `n`. -/
  counts : String → Option Int
  /-- The row of `mesh_self`, absent before the first write. -/
  meshSelf : Option MeshSelf
  /-- `demoted_at` of the row of `mesh_demotion`. -/
  demotedAt : Option Int

/-- The store before the first call. -/
def NonceStore.empty : NonceStore where
  seen := []
  nonce_nodup := List.nodup_nil
  counts := fun _ => none
  meshSelf := none
  demotedAt := none

/-! ## Counters -/

/-- `nonce_count`: the stored counter of a scope, zero when the scope has no row. -/
def nonceCount (counts : String → Option Int) (scope : String) : Int :=
  (counts scope).getD 0

/-- `bump_nonce_count`: insert `max by 0`, or on a conflict set `n` to `max (n + by) 0`. -/
def bumpNonceCount (counts : String → Option Int) (scope : String) (delta : Int) :
    String → Option Int :=
  Function.update counts scope <| some <|
    match counts scope with
    | none => max delta 0
    | some n => max (n + delta) 0

/-- `nonce_scopes`: the scopes a row of this method and sender is counted in. -/
def nonceScopes (method sender : String) : List String :=
  ["all", "sender:" ++ sender] ++ if method = meshExecNonceMethod then ["exec"] else []

/-- The scopes of a row. -/
def NonceRow.scopes (r : NonceRow) : List String := nonceScopes r.method r.sender

/-- Bump every scope of a `(method, sender)` pair by the same amount, as both loops over
`nonce_scopes` do. -/
def bumpScopes (counts : String → Option Int) (method sender : String) (delta : Int) :
    String → Option Int :=
  (nonceScopes method sender).foldl (fun cs scope => bumpNonceCount cs scope delta) counts

/-! ## Pruning and recording -/

/-- The result of the grouped query of `prune_nonces`: for each `(method, sender)` with an expired
row, the number of its expired rows. -/
def expiredGroups (rows : List NonceRow) (cutoff : Int) : List ((String × String) × Nat) :=
  let pairs := (rows.filter fun r => r.expiresAt ≤ cutoff).map fun r => (r.method, r.sender)
  pairs.dedup.map fun g => (g, pairs.count g)

/-- The expiry up to which `prune_nonces` forgets, and which `record_nonce_in` refuses. -/
def pruneCutoff (now : Int) : Int := wrapI64 (now - meshNoncePruneMarginSecs)

/-- `prune_nonces`: subtract the expired groups from the counters, delete the expired rows, then
delete the counters that are not positive. -/
def pruneNonces (st : NonceStore) (now : Int) : NonceStore :=
  let cutoff := pruneCutoff now
  let counts := (expiredGroups st.seen cutoff).foldl
    (fun cs g => bumpScopes cs g.1.1 g.1.2 (-(g.2 : Int))) st.counts
  { st with
    seen := st.seen.filter fun r => cutoff < r.expiresAt
    nonce_nodup := st.nonce_nodup.sublist (List.filter_sublist.map _)
    counts := fun scope => (counts scope).filter fun n => 0 < n }

section Calls

-- `utils::id::is_valid`, the UUID syntax check of the `uuid` library
variable (isValid : String → Bool)

/-- `INSERT INTO mesh_seen_nonces … ON CONFLICT(nonce) DO NOTHING`, followed by the positive bumps
when the row was inserted. -/
def insertNonce (st : NonceStore) (row : NonceRow) : NonceStore × Bool :=
  if h : row.nonce ∈ st.seen.map NonceRow.nonce then (st, false)
  else
    ({ st with
        seen := st.seen ++ [row]
        nonce_nodup := by
          rw [List.map_append, List.map_singleton]
          exact st.nonce_nodup.append (List.nodup_singleton _)
            (List.disjoint_singleton.mpr h)
        counts := bumpScopes st.counts row.method row.sender 1 }, true)

/-- `record_nonce_in`: refuse a nonce that is no UUID or whose expiry lies outside the replay
window, prune, refuse when a cap is reached, else insert. -/
def recordNonceIn (st : NonceStore) (method sender nonce : String) (expiresAt now : Int) :
    Except String (NonceStore × Bool) :=
  if isValid nonce = false then
    .error "mesh nonce is not a UUID"
  else if ¬ (pruneCutoff now < expiresAt ∧ wrapI64 (expiresAt - now) ≤ meshNonceHorizonSecs) then
    .error "mesh nonce expiry is outside the replay window"
  else
    let pruned := pruneNonces st now
    if meshNonceCap ≤ nonceCount pruned.counts "all" then
      .error "mesh nonce store is full; refusing until entries expire"
    else if meshNonceSenderCap ≤ nonceCount pruned.counts ("sender:" ++ sender) then
      .error ("mesh nonce store is full for sender " ++ sender ++ "; refusing until entries expire")
    else if method = meshExecNonceMethod ∧ meshNonceExecCap ≤ nonceCount pruned.counts "exec" then
      .error "mesh nonce store is full for mesh/exec; refusing until entries expire"
    else
      .ok (insertNonce pruned ⟨nonce, method, sender, expiresAt⟩)

/-- `record_mesh_nonce`: `record_nonce_in` inside a transaction, rolled back on an error. -/
def recordMeshNonce (st : NonceStore) (method sender nonce : String) (expiresAt now : Int) :
    NonceStore × Except String Bool :=
  match recordNonceIn isValid st method sender nonce expiresAt now with
  | .error e => (st, .error e)
  | .ok (st', inserted) => (st', .ok inserted)

/-- `set_secure`: store the tier, and the time of a demotion. -/
def setSecure (st : NonceStore) (secure : Bool) (now : Int) : NonceStore :=
  { st with
    meshSelf := some ⟨secure, now⟩
    demotedAt := if secure then st.demotedAt else some now }

/-- The guard of `consume_promotion_grant` on the last demotion `d`: the grant predates it, or
arrived within one grant lifetime of it. -/
def demotionRefuses (issuedAt expiresAt now d : Int) : Bool :=
  issuedAt ≤ d || now < wrapI64 (d + wrapI64 (expiresAt - issuedAt))

/-- `consume_promotion_grant`: in one transaction, check the demotion guard, record the nonce of
the grant and set the secure tier. -/
def consumePromotionGrant (st : NonceStore) (issuer nonce : String)
    (issuedAt expiresAt now : Int) : NonceStore × Except String Unit :=
  if st.demotedAt.any (demotionRefuses issuedAt expiresAt now) then
    (st, .error ("promotion to secure refused: the grant predates this member's last demotion " ++
      "or arrived within one grant lifetime of it"))
  else
    match recordNonceIn isValid st meshPromoteNonceMethod issuer nonce expiresAt now with
    | .error e => (st, .error e)
    | .ok (_, false) => (st, .error "promotion to secure refused: the grant was already used")
    | .ok (st', true) => ({ st' with meshSelf := some ⟨true, now⟩ }, .ok ())

/-- One call on the ledger. -/
inductive NonceCall where
  | recordMeshNonce (method sender nonce : String) (expiresAt : Int) (now : UnixSecs)
  | consumePromotionGrant (issuer nonce : String) (issuedAt expiresAt : Int) (now : UnixSecs)
  | setSecure (secure : Bool) (now : UnixSecs)

namespace NonceCall

/-- The clock reading of a call. -/
def now : NonceCall → UnixSecs
  | recordMeshNonce _ _ _ _ now => now
  | consumePromotionGrant _ _ _ _ now => now
  | setSecure _ now => now

/-- The store after a call. -/
def perform (st : NonceStore) : NonceCall → NonceStore
  | recordMeshNonce method sender nonce expiresAt now =>
      (Orca.recordMeshNonce isValid st method sender nonce expiresAt now).1
  | consumePromotionGrant issuer nonce issuedAt expiresAt now =>
      (Orca.consumePromotionGrant isValid st issuer nonce issuedAt expiresAt now).1
  | setSecure secure now => Orca.setSecure st secure now

/-- The `(nonce, expires_at)` pair a call accepts: a recording that returns `true`, or a grant that
promotes. -/
def accepted (st : NonceStore) : NonceCall → Option (String × Int)
  | recordMeshNonce method sender nonce expiresAt now =>
      match (Orca.recordMeshNonce isValid st method sender nonce expiresAt now).2 with
      | .ok true => some (nonce, expiresAt)
      | _ => none
  | consumePromotionGrant issuer nonce issuedAt expiresAt now =>
      match (Orca.consumePromotionGrant isValid st issuer nonce issuedAt expiresAt now).2 with
      | .ok () => some (nonce, expiresAt)
      | .error _ => none
  | setSecure _ _ => none

end NonceCall

/-- The store after a run of calls. -/
def performAll (st : NonceStore) (calls : List NonceCall) : NonceStore :=
  calls.foldl (NonceCall.perform isValid) st

/-- The pairs accepted over a run, in order. -/
def acceptedPairs (st : NonceStore) : List NonceCall → List (String × Int)
  | [] => []
  | c :: cs => (c.accepted isValid st).toList ++ acceptedPairs (c.perform isValid st) cs

end Calls

/-! ## The counters agree with the rows -/

/-- The number of rows counted in a scope. -/
def scopeSize (rows : List NonceRow) (scope : String) : Nat :=
  rows.countP fun r => decide (scope ∈ r.scopes)

/-- The counters of the store are exact: each scope's counter is its number of rows. -/
def NonceStore.Exact (st : NonceStore) : Prop :=
  ∀ scope, nonceCount st.counts scope = scopeSize st.seen scope

/-- The scope of a sender is neither of the two fixed scopes, and determines the sender. -/
lemma senderScope_inj {a b : String} : "sender:" ++ a = "sender:" ++ b ↔ a = b := by
  constructor
  · intro h
    have hlist : ("sender:" ++ a).toList = ("sender:" ++ b).toList := congrArg String.toList h
    rw [String.toList_append, String.toList_append] at hlist
    exact String.toList_inj.mp (List.append_cancel_left hlist)
  · rintro rfl
    rfl

/-- A sender's scope starts with `s`, so it is no scope that starts with another letter. -/
lemma senderScope_ne (sender : String) {scope : String} (h : scope.toList.head? ≠ some 's') :
    scope ≠ "sender:" ++ sender := by
  rintro rfl
  apply h
  rw [String.toList_append]
  rfl

lemma nonceScopes_nodup (method sender : String) : (nonceScopes method sender).Nodup := by
  have hall : "all" ≠ "sender:" ++ sender := senderScope_ne sender (by decide)
  have hexec : "exec" ≠ "sender:" ++ sender := senderScope_ne sender (by decide)
  unfold nonceScopes
  split
  · simp [hall, hexec.symm]
  · simp [hall]

/-- A bump changes the counter of its own scope only, by the clamped sum. -/
lemma nonceCount_bumpNonceCount (counts : String → Option Int) (scope s : String) (delta : Int) :
    nonceCount (bumpNonceCount counts scope delta) s =
      if s = scope then max (nonceCount counts s + delta) 0 else nonceCount counts s := by
  unfold nonceCount bumpNonceCount
  by_cases h : s = scope
  · subst h
    rw [Function.update_self, if_pos rfl]
    cases counts s <;> simp
  · rw [Function.update_of_ne h, if_neg h]

/-- Bumping a list of distinct scopes bumps each of them once. -/
lemma nonceCount_foldl_bump (scopes : List String) (hnd : scopes.Nodup)
    (counts : String → Option Int) (s : String) (delta : Int) :
    nonceCount (scopes.foldl (fun cs scope => bumpNonceCount cs scope delta) counts) s =
      if s ∈ scopes then max (nonceCount counts s + delta) 0 else nonceCount counts s := by
  induction scopes generalizing counts with
  | nil => simp
  | cons scope scopes ih =>
    obtain ⟨hnotin, hnd⟩ := List.nodup_cons.mp hnd
    rw [List.foldl_cons, ih hnd, nonceCount_bumpNonceCount]
    by_cases hs : s = scope
    · subst hs
      simp [hnotin]
    · simp [hs]

lemma nonceCount_bumpScopes (counts : String → Option Int) (method sender s : String)
    (delta : Int) :
    nonceCount (bumpScopes counts method sender delta) s =
      if s ∈ nonceScopes method sender then max (nonceCount counts s + delta) 0
      else nonceCount counts s :=
  nonceCount_foldl_bump _ (nonceScopes_nodup method sender) counts s delta

/-- The total by which a list of groups lowers the counter of a scope. -/
def groupTotal (groups : List ((String × String) × Nat)) (scope : String) : Nat :=
  ((groups.filter fun g => decide (scope ∈ nonceScopes g.1.1 g.1.2)).map Prod.snd).sum

/-- Subtracting groups lowers a counter by their total, without clamping, as long as the counter
covers the total. -/
lemma nonceCount_foldl_groups (groups : List ((String × String) × Nat))
    (counts : String → Option Int) (scope : String)
    (hle : (groupTotal groups scope : Int) ≤ nonceCount counts scope) :
    nonceCount (groups.foldl (fun cs g => bumpScopes cs g.1.1 g.1.2 (-(g.2 : Int))) counts) scope =
      nonceCount counts scope - groupTotal groups scope := by
  induction groups generalizing counts with
  | nil => simp [groupTotal]
  | cons g groups ih =>
    have hbump := nonceCount_bumpScopes counts g.1.1 g.1.2 scope (-(g.2 : Int))
    rw [List.foldl_cons]
    by_cases hs : scope ∈ nonceScopes g.1.1 g.1.2
    · have htotal : groupTotal (g :: groups) scope = g.2 + groupTotal groups scope := by
        simp [groupTotal, hs]
      rw [htotal] at hle ⊢
      push_cast at hle ⊢
      rw [if_pos hs, max_eq_left (by omega)] at hbump
      rw [ih _ (by rw [hbump]; omega), hbump]
      ring
    · have htotal : groupTotal (g :: groups) scope = groupTotal groups scope := by
        simp [groupTotal, hs]
      rw [htotal] at hle ⊢
      rw [if_neg hs] at hbump
      rw [ih _ (by rw [hbump]; exact hle), hbump]

/-- The groups of the expired rows total, in each scope, the number of its expired rows. -/
lemma groupTotal_expiredGroups (rows : List NonceRow) (cutoff : Int) (scope : String) :
    groupTotal (expiredGroups rows cutoff) scope =
      scopeSize (rows.filter fun r => r.expiresAt ≤ cutoff) scope := by
  set pairs := (rows.filter fun r => r.expiresAt ≤ cutoff).map fun r => (r.method, r.sender)
    with hpairs
  have hsum := List.sum_map_count_dedup_filter_eq_countP
    (fun g : String × String => decide (scope ∈ nonceScopes g.1 g.2)) pairs
  have hgroups : groupTotal (expiredGroups rows cutoff) scope =
      pairs.countP fun g => decide (scope ∈ nonceScopes g.1 g.2) := by
    rw [← hsum]
    simp only [groupTotal, expiredGroups, ← hpairs, List.filter_map, List.map_map]
    congr
    funext g
    change pairs.count g = _
    congr
    exact lawful_beq_subsingleton _ _
  rw [hgroups, hpairs, List.countP_map]
  rfl

/-- The rows of a scope are its expired rows and the rows pruning keeps. -/
lemma scopeSize_eq_add_prune (rows : List NonceRow) (cutoff : Int) (scope : String) :
    scopeSize rows scope =
      scopeSize (rows.filter fun r => r.expiresAt ≤ cutoff) scope +
        scopeSize (rows.filter fun r => cutoff < r.expiresAt) scope := by
  unfold scopeSize
  rw [List.countP_eq_countP_filter_add rows _ fun r => decide (r.expiresAt ≤ cutoff)]
  congr 2
  apply List.filter_congr
  intro r _
  by_cases h : r.expiresAt ≤ cutoff
  · simp [h, not_lt.mpr h]
  · simp [h, not_le.mp h]

/-- Dropping the counters that are not positive leaves every non-negative counter readable. -/
lemma nonceCount_filter_pos (counts : String → Option Int) (scope : String)
    (hnn : 0 ≤ nonceCount counts scope) :
    nonceCount (fun s => (counts s).filter fun n => 0 < n) scope = nonceCount counts scope := by
  unfold nonceCount at hnn ⊢
  cases hc : counts scope with
  | none => simp [hc]
  | some n =>
    rw [hc, Option.getD_some] at hnn
    by_cases hn : 0 < n
    · simp [hc, Option.filter, hn]
    · have hzero : n = 0 := by omega
      simp [hc, Option.filter, hzero]

/-- Pruning keeps the counters exact. -/
lemma pruneNonces_exact {st : NonceStore} (h : st.Exact) (now : Int) :
    (pruneNonces st now).Exact := by
  intro scope
  have hsplit := scopeSize_eq_add_prune st.seen (pruneCutoff now) scope
  have htotal := groupTotal_expiredGroups st.seen (pruneCutoff now) scope
  have hcount : nonceCount ((expiredGroups st.seen (pruneCutoff now)).foldl
      (fun cs g => bumpScopes cs g.1.1 g.1.2 (-(g.2 : Int))) st.counts) scope =
      scopeSize (st.seen.filter fun r => pruneCutoff now < r.expiresAt) scope := by
    rw [nonceCount_foldl_groups _ _ _ (by rw [h scope, htotal]; omega), h scope, htotal]
    omega
  have hfilter := nonceCount_filter_pos _ scope (le_of_le_of_eq (Int.natCast_nonneg _) hcount.symm)
  exact hfilter.trans hcount

/-- Recording a nonce keeps the counters exact, whether or not its row is new. -/
lemma insertNonce_exact {st : NonceStore} (h : st.Exact) (row : NonceRow) :
    (insertNonce st row).1.Exact := by
  intro scope
  unfold insertNonce
  split
  · exact h scope
  · have hbump := nonceCount_bumpScopes st.counts row.method row.sender scope 1
    have hnn : (0 : Int) ≤ nonceCount st.counts scope := by rw [h scope]; omega
    rw [show max (nonceCount st.counts scope + 1) 0 = nonceCount st.counts scope + 1 from
      max_eq_left (by omega), h scope] at hbump
    change nonceCount (bumpScopes st.counts row.method row.sender 1) scope =
      (scopeSize (st.seen ++ [row]) scope : Int)
    rw [hbump]
    unfold scopeSize
    rw [List.countP_append, List.countP_singleton]
    by_cases hs : scope ∈ nonceScopes row.method row.sender
    · have hrow : scope ∈ row.scopes := hs
      simp [hs, hrow]
    · have hrow : scope ∉ row.scopes := hs
      simp [hs, hrow]

/-! ## What a call can do -/

section Runs

variable (isValid : String → Bool)

/-- A recording that returns has a valid nonce inside the replay window, found no cap reached, and
inserted into the pruned store. -/
lemma recordNonceIn_ok {st : NonceStore} {method sender nonce : String} {expiresAt now : Int}
    {result : NonceStore × Bool}
    (h : recordNonceIn isValid st method sender nonce expiresAt now = .ok result) :
    pruneCutoff now < expiresAt ∧
      result = insertNonce (pruneNonces st now) ⟨nonce, method, sender, expiresAt⟩ := by
  unfold recordNonceIn at h
  split at h
  · cases h
  split at h
  · cases h
  rename_i hwindow
  rw [not_not] at hwindow
  simp only at h
  split at h
  · cases h
  split at h
  · cases h
  split at h
  · cases h
  exact ⟨hwindow.1, (Except.ok.inj h).symm⟩

/-- Every call either leaves the rows and the counters alone and accepts nothing, or it is one
successful `record_nonce_in`, which it accepts exactly when the row was new. -/
lemma perform_cases (st : NonceStore) (c : NonceCall) :
    ((c.perform isValid st).seen = st.seen ∧ (c.perform isValid st).counts = st.counts ∧
      c.accepted isValid st = none) ∨
    ∃ method sender nonce expiresAt inserted st',
      recordNonceIn isValid st method sender nonce expiresAt c.now = .ok (st', inserted) ∧
      (c.perform isValid st).seen = st'.seen ∧ (c.perform isValid st).counts = st'.counts ∧
      c.accepted isValid st = if inserted then some (nonce, expiresAt) else none := by
  cases c with
  | recordMeshNonce method sender nonce expiresAt now =>
    cases h : recordNonceIn isValid st method sender nonce expiresAt now with
    | error e => exact Or.inl (by simp [NonceCall.perform, NonceCall.accepted, recordMeshNonce, h])
    | ok result =>
      obtain ⟨st', inserted⟩ := result
      refine Or.inr ⟨method, sender, nonce, expiresAt, inserted, st', h, ?_⟩
      cases inserted <;> simp [NonceCall.perform, NonceCall.accepted, recordMeshNonce, h]
  | consumePromotionGrant issuer nonce issuedAt expiresAt now =>
    by_cases hd : st.demotedAt.any (demotionRefuses issuedAt expiresAt now)
    · exact Or.inl (by simp [NonceCall.perform, NonceCall.accepted, consumePromotionGrant, hd])
    cases h : recordNonceIn isValid st meshPromoteNonceMethod issuer nonce expiresAt now with
    | error e =>
      exact Or.inl (by simp [NonceCall.perform, NonceCall.accepted, consumePromotionGrant, hd, h])
    | ok result =>
      obtain ⟨st', inserted⟩ := result
      cases inserted with
      | false =>
        -- the transaction of a used grant is rolled back, its pruning included
        exact Or.inl
          (by simp [NonceCall.perform, NonceCall.accepted, consumePromotionGrant, hd, h])
      | true =>
        refine Or.inr ⟨meshPromoteNonceMethod, issuer, nonce, expiresAt, true, st', h, ?_⟩
        simp [NonceCall.perform, NonceCall.accepted, consumePromotionGrant, hd, h]
  | setSecure secure now => exact Or.inl ⟨rfl, rfl, rfl⟩

/-! ## Exactness over runs -/

/-- Every call keeps the counters exact. -/
lemma perform_exact {st : NonceStore} (h : st.Exact) (c : NonceCall) :
    (c.perform isValid st).Exact := by
  intro scope
  rcases perform_cases isValid st c with ⟨hseen, hcounts, -⟩ |
    ⟨method, sender, nonce, expiresAt, inserted, st', hrec, hseen, hcounts, -⟩
  · rw [hseen, hcounts]
    exact h scope
  · obtain ⟨-, hresult⟩ := recordNonceIn_ok isValid hrec
    have hst' : st' = (insertNonce (pruneNonces st c.now) ⟨nonce, method, sender, expiresAt⟩).1 :=
      congrArg Prod.fst hresult
    rw [hseen, hcounts, hst']
    exact insertNonce_exact (pruneNonces_exact h _) _ scope

lemma performAll_exact (calls : List NonceCall) :
    (performAll isValid NonceStore.empty calls).Exact :=
  Invariant.foldl_invariant (I := NonceStore.Exact) (fun c _ _ h => perform_exact isValid h c)
    (fun _ => rfl)

/-- Every row is in the scope `all`. -/
lemma scopeSize_all (rows : List NonceRow) : scopeSize rows "all" = rows.length := by
  unfold scopeSize
  rw [List.countP_eq_length]
  intro r _
  simp [NonceRow.scopes, nonceScopes]

/-- The rows in the scope of a sender are the rows of that sender. -/
lemma scopeSize_sender (rows : List NonceRow) (sender : String) :
    scopeSize rows ("sender:" ++ sender) = rows.countP fun r => decide (r.sender = sender) := by
  unfold scopeSize
  apply List.countP_congr
  intro r _
  have hall : "sender:" ++ sender ≠ "all" := (senderScope_ne sender (by decide)).symm
  have hexec : "sender:" ++ sender ≠ "exec" := (senderScope_ne sender (by decide)).symm
  have hne : "sender:" ++ sender ∉
      (if r.method = meshExecNonceMethod then ["exec"] else [] : List String) := by
    split <;> simp [hexec]
  simp only [decide_eq_true_eq, NonceRow.scopes, nonceScopes, List.mem_append, List.mem_cons,
    List.not_mem_nil, or_false, hall, false_or, hne, senderScope_inj]
  exact eq_comm

/-- The rows in the scope `exec` are the rows of `mesh/exec`. -/
lemma scopeSize_exec (rows : List NonceRow) :
    scopeSize rows "exec" = rows.countP fun r => decide (r.method = meshExecNonceMethod) := by
  unfold scopeSize
  apply List.countP_congr
  intro r _
  have hsender : "exec" ≠ "sender:" ++ r.sender := senderScope_ne r.sender (by decide)
  simp only [decide_eq_true_eq, NonceRow.scopes, nonceScopes]
  by_cases h : r.method = meshExecNonceMethod
  · simp [h]
  · simp [h, hsender]

/-- **The nonce ledger is exact.**  After every run of calls from the empty store the counter of
each scope is the number of its rows, and so the caps refuse a nonce inside the replay window
exactly when the rows that pruning keeps reach them. -/
theorem nonceLedger_exact (calls : List NonceCall) :
    let st := performAll isValid NonceStore.empty calls
    (nonceCount st.counts "all" = st.seen.length ∧
      (∀ sender, nonceCount st.counts ("sender:" ++ sender) =
        st.seen.countP fun r => decide (r.sender = sender)) ∧
      nonceCount st.counts "exec" =
        st.seen.countP fun r => decide (r.method = meshExecNonceMethod)) ∧
    ∀ method sender nonce expiresAt now, isValid nonce = true →
      pruneCutoff now < expiresAt → wrapI64 (expiresAt - now) ≤ meshNonceHorizonSecs →
      let kept := st.seen.filter fun r => pruneCutoff now < r.expiresAt
      ((∃ e, recordNonceIn isValid st method sender nonce expiresAt now = .error e) ↔
        meshNonceCap ≤ kept.length ∨
        meshNonceSenderCap ≤ (kept.countP fun r => decide (r.sender = sender)) ∨
        (method = meshExecNonceMethod ∧
          meshNonceExecCap ≤
            (kept.countP fun r => decide (r.method = meshExecNonceMethod)))) := by
  intro st
  have hst : st.Exact := performAll_exact isValid calls
  refine ⟨⟨?_, ?_, ?_⟩, ?_⟩
  · rw [hst "all", scopeSize_all]
  · intro sender
    rw [hst ("sender:" ++ sender), scopeSize_sender]
  · rw [hst "exec", scopeSize_exec]
  · intro method sender nonce expiresAt now hvalid hcutoff hhorizon kept
    have hpruned : (pruneNonces st now).Exact := pruneNonces_exact hst now
    have hkept : (pruneNonces st now).seen = kept := rfl
    have hall : nonceCount (pruneNonces st now).counts "all" = kept.length := by
      rw [hpruned "all", scopeSize_all, hkept]
    have hsender : nonceCount (pruneNonces st now).counts ("sender:" ++ sender) =
        (kept.countP fun r => decide (r.sender = sender)) := by
      rw [hpruned ("sender:" ++ sender), scopeSize_sender, hkept]
    have hexec : nonceCount (pruneNonces st now).counts "exec" =
        (kept.countP fun r => decide (r.method = meshExecNonceMethod)) := by
      rw [hpruned "exec", scopeSize_exec, hkept]
    have hwindow : ¬¬(pruneCutoff now < expiresAt ∧
        wrapI64 (expiresAt - now) ≤ meshNonceHorizonSecs) := not_not.mpr ⟨hcutoff, hhorizon⟩
    unfold recordNonceIn
    rw [if_neg (by simp [hvalid]), if_neg hwindow]
    simp only [hall, hsender, hexec]
    by_cases h1 : meshNonceCap ≤ (kept.length : Int)
    · simp [h1]
    by_cases h2 : meshNonceSenderCap ≤
        ((kept.countP fun r => decide (r.sender = sender) : Nat) : Int)
    · simp [h1, h2]
    by_cases h3 : method = meshExecNonceMethod ∧ meshNonceExecCap ≤
        ((kept.countP fun r => decide (r.method = meshExecNonceMethod) : Nat) : Int)
    · simp [h1, h2, h3]
    · simp [h1, h2, h3]

/-- The hyphenated spelling of a UUID has 36 characters, four of them hyphens. -/
def isHyphenatedUuid (s : String) : Bool :=
  s.toList.length == 36 && s.toList.count '-' == 4

/-- A run with a recorded nonce, its replay, and a promotion grant that expires later. -/
def sampleNonceCalls : List NonceCall :=
  [.recordMeshNonce "mesh/exec" "p1" "019e7105-9910-7000-8000-000000000001" 160 ⟨100, by decide⟩,
   .recordMeshNonce "mesh/ping" "p2" "019e7105-9910-7000-8000-000000000001" 160 ⟨110, by decide⟩,
   .consumePromotionGrant "p1" "019e7105-9910-7000-8000-000000000002" 120 700 ⟨130, by decide⟩]

/-- After the sample run a fresh nonce is inside the window and no cap is reached. -/
theorem nonceLedger_exact_sample :
    ¬ ∃ e, recordNonceIn isHyphenatedUuid
      (performAll isHyphenatedUuid NonceStore.empty sampleNonceCalls)
      "mesh/exec" "p1" "019e7105-9910-7000-8000-000000000003" 200 140 = .error e :=
  ((nonceLedger_exact isHyphenatedUuid sampleNonceCalls).2 "mesh/exec" "p1"
    "019e7105-9910-7000-8000-000000000003" 200 140 (by decide) (by decide) (by decide)).not.mpr
    (by decide)

/-! ## No pair is accepted twice -/

/-- A pair can no longer be accepted at time `t`: its row is in the store, or its expiry is at or
before the cutoff, so that the freshness check refuses it. -/
def Spent (st : NonceStore) (t : UnixSecs) (p : String × Int) : Prop :=
  (∃ r ∈ st.seen, r.nonce = p.1 ∧ r.expiresAt = p.2) ∨ p.2 ≤ pruneCutoff t

lemma pruneCutoff_unixSecs (t : UnixSecs) : pruneCutoff t = t.1 - meshNoncePruneMarginSecs := by
  obtain ⟨t, hlo, hhi⟩ := t
  exact wrapI64_of_mem_range (by simp only [meshNoncePruneMarginSecs]; omega)
    (by simp only [meshNoncePruneMarginSecs]; omega)

lemma pruneCutoff_mono {t u : UnixSecs} (h : t ≤ u) : pruneCutoff t ≤ pruneCutoff u := by
  rw [pruneCutoff_unixSecs, pruneCutoff_unixSecs]
  exact Int.sub_le_sub_right h _

lemma mem_seen_insertNonce {st : NonceStore} {row r : NonceRow} (h : r ∈ st.seen) :
    r ∈ (insertNonce st row).1.seen := by
  unfold insertNonce
  split
  · exact h
  · exact List.mem_append_left _ h

/-- What is forgotten by a call was at or before the cutoff of that call, so a spent pair stays
spent. -/
lemma perform_spent {st : NonceStore} {t : UnixSecs} {p : String × Int} {c : NonceCall}
    (ht : t ≤ c.now) (h : Spent st t p) : Spent (c.perform isValid st) c.now p := by
  rcases h with ⟨r, hr, hnonce, hexp⟩ | hold
  · rcases perform_cases isValid st c with ⟨hseen, -, -⟩ |
      ⟨method, sender, nonce, expiresAt, inserted, st', hrec, hseen, -, -⟩
    · exact Or.inl ⟨r, by rwa [hseen], hnonce, hexp⟩
    · by_cases hcut : p.2 ≤ pruneCutoff c.now
      · exact Or.inr hcut
      · obtain ⟨-, hresult⟩ := recordNonceIn_ok isValid hrec
        have hkept : r ∈ (pruneNonces st c.now).seen := by
          refine List.mem_filter.mpr ⟨hr, ?_⟩
          rw [hexp]
          exact decide_eq_true (not_le.mp hcut)
        have hst' : st' = (insertNonce (pruneNonces st c.now) _).1 := congrArg Prod.fst hresult
        refine Or.inl ⟨r, ?_, hnonce, hexp⟩
        rw [hseen, hst']
        exact mem_seen_insertNonce hkept
  · exact Or.inr (hold.trans (pruneCutoff_mono ht))

/-- An insert reports success exactly when no row had the nonce, and then the row is stored. -/
lemma insertNonce_true {st : NonceStore} {row : NonceRow} (h : (insertNonce st row).2 = true) :
    row.nonce ∉ st.seen.map NonceRow.nonce ∧ row ∈ (insertNonce st row).1.seen := by
  unfold insertNonce at h ⊢
  split at h
  · cases h
  · rename_i hnew
    rw [dif_neg hnew]
    exact ⟨hnew, List.mem_append_right _ (List.mem_singleton_self row)⟩

/-- An accepting call is a recording of the pair as a new row within the replay window. -/
lemma accepted_some {st : NonceStore} {c : NonceCall} {p : String × Int}
    (h : c.accepted isValid st = some p) :
    pruneCutoff c.now < p.2 ∧ p.1 ∉ (pruneNonces st c.now).seen.map NonceRow.nonce ∧
      ∃ r ∈ (c.perform isValid st).seen, r.nonce = p.1 ∧ r.expiresAt = p.2 := by
  rcases perform_cases isValid st c with ⟨-, -, hnone⟩ |
    ⟨method, sender, nonce, expiresAt, inserted, st', hrec, hseen, -, hacc⟩
  · rw [hnone] at h
    cases h
  · rw [hacc] at h
    cases inserted with
    | false => cases h
    | true =>
      obtain rfl : (nonce, expiresAt) = p := Option.some.inj h
      obtain ⟨hcutoff, hresult⟩ := recordNonceIn_ok isValid hrec
      have hst' : st' = (insertNonce (pruneNonces st c.now) _).1 := congrArg Prod.fst hresult
      have htrue := insertNonce_true (congrArg Prod.snd hresult).symm
      refine ⟨hcutoff, htrue.1, ⟨nonce, method, sender, expiresAt⟩, ?_, rfl, rfl⟩
      rw [hseen, hst']
      exact htrue.2

/-- A spent pair is not accepted: its row survives pruning, or its expiry is refused. -/
lemma not_accepted_of_spent {st : NonceStore} {t : UnixSecs} {p : String × Int} {c : NonceCall}
    (ht : t ≤ c.now) (h : Spent st t p) : c.accepted isValid st ≠ some p := by
  intro hacc
  obtain ⟨hcutoff, hnew, -⟩ := accepted_some isValid hacc
  rcases h with ⟨r, hr, hnonce, hexp⟩ | hold
  · apply hnew
    refine List.mem_map.mpr ⟨r, List.mem_filter.mpr ⟨hr, ?_⟩, hnonce⟩
    rw [hexp]
    exact decide_eq_true hcutoff
  · exact absurd hcutoff (not_lt.mpr (hold.trans (pruneCutoff_mono ht)))

lemma spent_of_accepted {st : NonceStore} {c : NonceCall} {p : String × Int}
    (h : c.accepted isValid st = some p) : Spent (c.perform isValid st) c.now p :=
  Or.inl (accepted_some isValid h).2.2

lemma acceptedPairs_eq_emitted (st : NonceStore) (calls : List NonceCall) :
    acceptedPairs isValid st calls =
      emitted (NonceCall.perform isValid) (fun st c => c.accepted isValid st) st calls := by
  induction calls generalizing st with
  | nil => rfl
  | cons c cs ih => rw [acceptedPairs, emitted, ih]

lemma emitted_accepted_nodup (st : NonceStore) (calls : List NonceCall)
    (hclock : (calls.map NonceCall.now).Pairwise (· ≤ ·)) :
    (emitted (NonceCall.perform isValid) (fun st c => c.accepted isValid st) st calls).Nodup :=
  emitted_nodup (fun _ _ _ h => spent_of_accepted isValid h)
    (fun _ _ _ _ ht h => perform_spent isValid ht h)
    (fun _ _ _ _ ht h => not_accepted_of_spent isValid ht h) hclock st

/-- **No replay.**  Over every run whose clock readings never decrease, from any store, no
`(nonce, expires_at)` pair is accepted more than once. -/
theorem acceptedPairs_nodup (st : NonceStore) (calls : List NonceCall)
    (hclock : (calls.map NonceCall.now).Pairwise (· ≤ ·)) :
    (acceptedPairs isValid st calls).Nodup := by
  rw [acceptedPairs_eq_emitted]
  exact emitted_accepted_nodup isValid st calls hclock

end Runs

/-- The replay of the sample run is refused: each of its two pairs is accepted once. -/
theorem acceptedPairs_nodup_sample :
    acceptedPairs isHyphenatedUuid NonceStore.empty sampleNonceCalls =
        [("019e7105-9910-7000-8000-000000000001", 160),
         ("019e7105-9910-7000-8000-000000000002", 700)] ∧
      (acceptedPairs isHyphenatedUuid NonceStore.empty sampleNonceCalls).Nodup :=
  ⟨by decide, acceptedPairs_nodup isHyphenatedUuid NonceStore.empty sampleNonceCalls (by decide)⟩

end Orca
