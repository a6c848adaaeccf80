import Orca.Mesh.BoundEnvelopes

/-!
# Folds of peer rows

Rows of `mesh_peers` that belong to one machine are folded: one of them is kept, the others are
deleted and their routes are copied to it.  `converge_peer_identity` folds the rows that share an
address and the pinned key of the row just written; `dedup_same_identity_rows` folds, for every pair
of a primary route and a pinned key, the rows that have both.

Both are a list of folds of disjoint groups (`foldPlans`), and what such a list does is said once
for every row and every route (`FoldsSafely`).  After the folds of `dedup_same_identity_rows` no two
rows share an identity: the primary route is the least of the routes, and the routes of a group
together have the same least one as each of its rows, so a fold changes the identity of no row
(`identity_dedup`).
-/

namespace Orca

/-! ## Routes -/

namespace PeerTables

/-- The peer has the route. -/
def HasRoute (t : PeerTables) (id kind value : String) : Prop :=
  (t.addresses.find (id, kind, value)).isSome

variable {t : PeerTables} {id : String}

/-- The routes of a peer are the addresses in its rows. -/
lemma hasRoute_iff {kind value : String} : t.HasRoute id kind value ↔
    ∃ a ∈ t.addresses.rows, a.peerId = id ∧ a.kind = kind ∧ a.value = value := by
  unfold HasRoute
  rw [Option.isSome_iff_exists]
  constructor
  · rintro ⟨a, ha⟩
    obtain ⟨hmem, hkey⟩ := KeyedTable.find_eq_some_iff.mp ha
    simp only [PeerAddress.key, Prod.mk.injEq] at hkey
    exact ⟨a, hmem, hkey⟩
  · rintro ⟨a, hmem, rfl, rfl, rfl⟩
    exact ⟨a, KeyedTable.find_eq_some_iff.mpr ⟨hmem, rfl⟩⟩

lemma hasAddr_iff {addr : String} : t.hasAddr id addr = true ↔ ∃ kind, t.HasRoute id kind addr := by
  unfold hasAddr
  simp only [List.any_eq_true, Bool.and_eq_true, beq_iff_eq, hasRoute_iff]
  constructor
  · rintro ⟨a, hmem, hid, hvalue⟩
    exact ⟨a.kind, a, hmem, hid, rfl, hvalue⟩
  · rintro ⟨kind, a, hmem, hid, -, hvalue⟩
    exact ⟨a, hmem, hid, hvalue⟩

/-- A route comes before another one, or has its priority and its value. -/
def RouteLE (kind value kind' value' : String) : Prop :=
  routePriority kind < routePriority kind' ∨
    (routePriority kind = routePriority kind' ∧ value ≤ value')

lemma routeLE_trans {k v k' v' k'' v'' : String} (h : RouteLE k v k' v')
    (h' : RouteLE k' v' k'' v'') : RouteLE k v k'' v'' := by
  unfold RouteLE at *
  rcases h with h | ⟨h, hv⟩ <;> rcases h' with h' | ⟨h', hv'⟩
  · exact Or.inl (h.trans h')
  · exact Or.inl (h' ▸ h)
  · exact Or.inl (h ▸ h')
  · exact Or.inr ⟨h.trans h', hv.trans hv'⟩

lemma routeLE_antisymm {k v k' v' : String} (h : RouteLE k v k' v') (h' : RouteLE k' v' k v) :
    v = v' := by
  unfold RouteLE at *
  rcases h with h | ⟨h, hv⟩ <;> rcases h' with h' | ⟨h', hv'⟩
  · exact absurd (h.trans h') (lt_irrefl _)
  · exact absurd (h' ▸ h) (lt_irrefl _)
  · exact absurd (h ▸ h') (lt_irrefl _)
  · exact le_antisymm hv hv'

/-- The first of two routes is one of them and comes before both. -/
lemma firstRoute_spec (a b : PeerAddress) : (firstRoute a b = a ∨ firstRoute a b = b) ∧
    RouteLE (firstRoute a b).kind (firstRoute a b).value a.kind a.value ∧
    RouteLE (firstRoute a b).kind (firstRoute a b).value b.kind b.value := by
  unfold firstRoute RouteLE
  split
  · rename_i h
    refine ⟨Or.inr rfl, ?_, Or.inr ⟨rfl, le_refl _⟩⟩
    exact h.imp id fun h => ⟨h.1, le_of_lt h.2⟩
  · rename_i h
    rw [not_or, not_and, not_lt] at h
    refine ⟨Or.inl rfl, Or.inr ⟨rfl, le_refl _⟩, ?_⟩
    rcases lt_or_eq_of_le h.1 with hlt | heq
    · exact Or.inl hlt
    · exact Or.inr ⟨heq, not_lt.mp (h.2 heq.symm)⟩

/-- The first of several routes is one of them and comes before all. -/
lemma foldl_firstRoute_spec (a : PeerAddress) (rest : List PeerAddress) :
    rest.foldl firstRoute a ∈ a :: rest ∧ ∀ b ∈ a :: rest,
      RouteLE (rest.foldl firstRoute a).kind (rest.foldl firstRoute a).value b.kind b.value := by
  induction rest generalizing a with
  | nil =>
    refine ⟨List.mem_singleton_self a, fun b hb => ?_⟩
    rw [List.mem_singleton.mp hb]
    exact Or.inr ⟨rfl, le_refl _⟩
  | cons c rest ih =>
    obtain ⟨hmem, hleast⟩ := ih (firstRoute a c)
    obtain ⟨hone, hla, hlc⟩ := firstRoute_spec a c
    have hhead := hleast _ List.mem_cons_self
    refine ⟨?_, fun b hb => ?_⟩
    · rcases List.mem_cons.mp hmem with hmem | hmem
      · rw [List.foldl_cons, hmem]
        rcases hone with hone | hone <;> rw [hone] <;> simp
      · exact List.mem_cons_of_mem _ (List.mem_cons_of_mem _ hmem)
    · rcases List.mem_cons.mp hb with rfl | hb
      · exact routeLE_trans hhead hla
      · rcases List.mem_cons.mp hb with rfl | hb
        · exact routeLE_trans hhead hlc
        · exact hleast b (List.mem_cons_of_mem _ hb)

/-- The primary route is the least of the routes. -/
lemma primaryRoute_eq_some_iff {value : String} : t.primaryRoute id = some value ↔
    ∃ kind, t.HasRoute id kind value ∧
      ∀ kind' value', t.HasRoute id kind' value' → RouteLE kind value kind' value' := by
  have hroutes : ∀ kind value', t.HasRoute id kind value' ↔
      ∃ a ∈ t.addresses.rows.filter fun a => a.peerId == id, a.kind = kind ∧ a.value = value' := by
    intro kind value'
    rw [hasRoute_iff]
    simp only [List.mem_filter, beq_iff_eq, and_assoc]
  simp only [hroutes]
  unfold primaryRoute
  cases t.addresses.rows.filter fun a => a.peerId == id with
  | nil => simp
  | cons a rest =>
    obtain ⟨hmem, hleast⟩ := foldl_firstRoute_spec a rest
    dsimp only
    rw [Option.some_inj]
    constructor
    · rintro rfl
      refine ⟨_, ⟨_, hmem, rfl, rfl⟩, ?_⟩
      rintro kind' value' ⟨b, hb, rfl, rfl⟩
      exact hleast b hb
    · rintro ⟨kind, ⟨b, hb, rfl, rfl⟩, hfirst⟩
      exact routeLE_antisymm (hleast b hb) (hfirst _ _ ⟨_, hmem, rfl, rfl⟩)

/-- A peer with a route has a primary route. -/
lemma exists_primaryRoute {kind value : String} (h : t.HasRoute id kind value) :
    ∃ first, t.primaryRoute id = some first := by
  obtain ⟨a, hmem, hid, -⟩ := hasRoute_iff.mp h
  unfold primaryRoute
  cases hroutes : t.addresses.rows.filter fun a => a.peerId == id with
  | nil =>
    have hnone := List.filter_eq_nil_iff.mp hroutes a hmem
    simp [hid] at hnone
  | cons a rest => exact ⟨_, rfl⟩

lemma primaryRoute_congr {t' : PeerTables} {id' : String}
    (h : ∀ kind value, t.HasRoute id kind value ↔ t'.HasRoute id' kind value) :
    t.primaryRoute id = t'.primaryRoute id' := by
  refine Option.ext fun value => ?_
  rw [primaryRoute_eq_some_iff, primaryRoute_eq_some_iff]
  simp only [h]

end PeerTables


/-! ## One fold -/

/-- The row of the peer and its routes are the same in both. -/
structure Untouched (t t' : PeerTables) (id : String) : Prop where
  row : t'.peers.find id = t.peers.find id
  routes : ∀ kind value, t'.addresses.find (id, kind, value) = t.addresses.find (id, kind, value)

lemma Untouched.hasRoute {t t' : PeerTables} {id : String} (h : Untouched t t' id)
    (kind value : String) : t'.HasRoute id kind value ↔ t.HasRoute id kind value := by
  unfold PeerTables.HasRoute
  rw [h.routes]

lemma Untouched.trans {t t' t'' : PeerTables} {id : String} (h : Untouched t t' id)
    (h' : Untouched t' t'' id) : Untouched t t'' id where
  row := h'.row.trans h.row
  routes := fun kind value => (h'.routes kind value).trans (h.routes kind value)

section Merge

variable {canonical : String}

/-- Copying the addresses of a sibling gives the canonical peer those it lacks. -/
lemma find_copyAddresses (sib : String) (addresses : KeyedTable PeerAddress.key)
    (id kind value : String) :
    (copyAddresses canonical sib addresses).find (id, kind, value) =
      (addresses.find (id, kind, value)).or
        (if id = canonical then
          (addresses.find (sib, kind, value)).map fun a => { a with peerId := canonical }
        else none) := by
  have hcopy : copyAddresses canonical sib addresses =
      ((addresses.rows.filter fun a => a.peerId == sib).map
        fun a => { a with peerId := canonical }).foldl KeyedTable.insertNew addresses := by
    unfold copyAddresses
    rw [List.foldl_map]
  rw [hcopy, KeyedTable.find_foldl_insertNew, List.find?_map, List.find?_filter]
  congr 1
  split
  · rename_i hid
    subst hid
    unfold KeyedTable.find
    congr 2
    funext a
    simp [PeerAddress.key]
  · rename_i hid
    rw [Option.map_eq_none_iff, List.find?_eq_none]
    intro a _
    simp [PeerAddress.key, Ne.symm hid]

/-- One sibling: its routes go to the canonical peer, and it has none left. -/
lemma hasRoute_foldSibling {sib : String} (hne : sib ≠ canonical) (t : PeerTables)
    (id kind value : String) : (foldSibling canonical t sib).HasRoute id kind value ↔
      id ≠ sib ∧ (t.HasRoute id kind value ∨ (id = canonical ∧ t.HasRoute sib kind value)) := by
  unfold PeerTables.HasRoute foldSibling
  rw [if_neg hne, KeyedTable.find_filter, find_copyAddresses]
  by_cases hid : id = sib
  · subst hid
    rw [if_neg hne, Option.or_none]
    cases hfind : t.addresses.find (id, kind, value) with
    | none => simp
    | some a =>
      have hkey := KeyedTable.key_of_find hfind
      simp only [PeerAddress.key, Prod.mk.injEq] at hkey
      simp [hkey.1]
  · have hkeep : ∀ a : PeerAddress, a.peerId = id → (a.peerId != sib) = true := by
      rintro a rfl
      simpa using hid
    cases hfind : t.addresses.find (id, kind, value) with
    | some a =>
      have hkey := KeyedTable.key_of_find hfind
      simp only [PeerAddress.key, Prod.mk.injEq] at hkey
      simp [Option.filter_some, hkeep a hkey.1, hid]
    | none =>
      by_cases hcanonical : id = canonical
      · subst hcanonical
        cases hsib : t.addresses.find (sib, kind, value) with
        | none => simp
        | some a => simp [Option.filter_some, hid]
      · simp [hcanonical]

/-- A fold of a sibling leaves the other peers alone. -/
lemma untouched_foldSibling {sib id : String} (hsib : id ≠ sib) (hcanonical : id ≠ canonical)
    (t : PeerTables) : Untouched t (foldSibling canonical t sib) id where
  row := by rw [find_foldSibling, if_neg fun h => hsib h.1]
  routes := by
    intro kind value
    unfold foldSibling
    split
    · rfl
    · rw [KeyedTable.find_filter, find_copyAddresses, if_neg hcanonical, Option.or_none]
      cases hfind : t.addresses.find (id, kind, value) with
      | none => rfl
      | some a =>
        have hkey := KeyedTable.key_of_find hfind
        simp only [PeerAddress.key, Prod.mk.injEq] at hkey
        simp [Option.filter_some, hkey.1, hsib]

/-- Several siblings: their routes go to the canonical peer, and they have none left. -/
lemma hasRoute_foldl_foldSibling {stale : List String} (hcanonical : canonical ∉ stale)
    (t : PeerTables) (id kind value : String) :
    (stale.foldl (foldSibling canonical) t).HasRoute id kind value ↔
      id ∉ stale ∧ (t.HasRoute id kind value ∨
        (id = canonical ∧ ∃ sib ∈ stale, t.HasRoute sib kind value)) := by
  induction stale generalizing t with
  | nil => simp
  | cons sib stale ih =>
    rw [List.mem_cons, not_or] at hcanonical
    have hne : sib ≠ canonical := Ne.symm hcanonical.1
    rw [List.foldl_cons, ih hcanonical.2, List.mem_cons, not_or]
    simp only [hasRoute_foldSibling hne, List.mem_cons, exists_eq_or_imp]
    constructor
    · rintro ⟨hid, ⟨hsib, hroute | ⟨rfl, hroute⟩⟩ | ⟨rfl, other, hother, hsib, hroute | ⟨rfl, -⟩⟩⟩
      · exact ⟨⟨hsib, hid⟩, Or.inl hroute⟩
      · exact ⟨⟨hsib, hid⟩, Or.inr ⟨rfl, Or.inl hroute⟩⟩
      · exact ⟨⟨hcanonical.1, hid⟩, Or.inr ⟨rfl, Or.inr ⟨other, hother, hroute⟩⟩⟩
      · exact absurd hother hid
    · rintro ⟨⟨hsib, hid⟩, hroute | ⟨rfl, hroute | ⟨other, hother, hroute⟩⟩⟩
      · exact ⟨hid, Or.inl ⟨hsib, Or.inl hroute⟩⟩
      · exact ⟨hid, Or.inl ⟨hsib, Or.inr ⟨rfl, hroute⟩⟩⟩
      · by_cases heq : other = sib
        · subst heq
          exact ⟨hid, Or.inl ⟨hsib, Or.inr ⟨rfl, hroute⟩⟩⟩
        · exact ⟨hid, Or.inr ⟨rfl, other, hother, heq, Or.inl hroute⟩⟩

lemma untouched_foldl_foldSibling {stale : List String} {id : String} (hstale : id ∉ stale)
    (hcanonical : id ≠ canonical) (t : PeerTables) :
    Untouched t (stale.foldl (foldSibling canonical) t) id := by
  induction stale generalizing t with
  | nil => exact ⟨rfl, fun _ _ => rfl⟩
  | cons sib stale ih =>
    rw [List.mem_cons, not_or] at hstale
    exact (untouched_foldSibling hstale.1 hcanonical t).trans (ih hstale.2 _)

variable {stale : List String} (hcanonical : canonical ∉ stale) (hstale : stale ≠ []) (now : Int)
  (t : PeerTables)

include hcanonical hstale

lemma hasRoute_mergePeerRows (id kind value : String) :
    (mergePeerRows canonical stale now t).HasRoute id kind value ↔
      id ∉ stale ∧ (t.HasRoute id kind value ∨
        (id = canonical ∧ ∃ sib ∈ stale, t.HasRoute sib kind value)) := by
  rw [← hasRoute_foldl_foldSibling hcanonical]
  unfold mergePeerRows
  rw [if_neg (by simpa using hstale)]
  rfl

/-- A fold leaves the peers outside the group alone. -/
lemma untouched_mergePeerRows {id : String} (hid : id ∉ canonical :: stale) :
    Untouched t (mergePeerRows canonical stale now t) id := by
  rw [List.mem_cons, not_or] at hid
  refine ⟨?_, fun kind value => ?_⟩
  · rw [find_mergePeerRows hcanonical hstale, if_neg hid.2]
    cases hfind : t.peers.find id with
    | none => rfl
    | some p =>
      have hkey : p.peerId ≠ canonical := fun heq =>
        hid.1 ((KeyedTable.key_of_find hfind).symm.trans heq)
      rw [Option.map_some, touchPeer, if_neg hkey]
  · unfold mergePeerRows
    rw [if_neg (by simpa using hstale)]
    exact (untouched_foldl_foldSibling hid.2 hid.1 t).routes kind value

end Merge


/-! ## A list of folds -/

/-- The peers of a fold: the one that is kept and those that are deleted. -/
def members (plan : String × List String) : List String := plan.1 :: plan.2

/-- Folds one after another, with the readings of the clock. -/
def foldPlans (now : String → Int) (plans : List (String × List String)) (t : PeerTables) :
    PeerTables :=
  plans.foldl (fun acc plan => mergePeerRows plan.1 plan.2 (now plan.1) acc) t

/-- The folds are of disjoint groups, and each deletes something. -/
structure Disjoined (plans : List (String × List String)) : Prop where
  /-- No peer is in two places. -/
  nodup : (plans.flatMap members).Nodup
  stale : ∀ plan ∈ plans, plan.2 ≠ []

section Plans

variable {now : String → Int} {plan : String × List String} {plans : List (String × List String)}

/-- The first of the folds, and the others. -/
lemma Disjoined.head (h : Disjoined (plan :: plans)) : plan.1 ∉ plan.2 ∧ plan.2 ≠ [] ∧
    Disjoined plans ∧ ∀ id ∈ members plan, ∀ plan' ∈ plans, id ∉ members plan' := by
  have hnodup := h.nodup
  rw [List.flatMap_cons, List.nodup_append] at hnodup
  obtain ⟨hplan, hplans, hdisjoint⟩ := hnodup
  refine ⟨(List.nodup_cons.mp hplan).1, h.stale plan List.mem_cons_self,
    ⟨hplans, fun plan' hplan' => h.stale plan' (List.mem_cons_of_mem _ hplan')⟩, ?_⟩
  intro id hid plan' hplan' hid'
  exact hdisjoint id hid id (List.mem_flatMap.mpr ⟨plan', hplan', hid'⟩) rfl

/-- The folds leave the peers outside their groups alone. -/
lemma untouched_foldPlans (h : Disjoined plans) {id : String}
    (hid : ∀ plan ∈ plans, id ∉ members plan) (t : PeerTables) :
    Untouched t (foldPlans now plans t) id := by
  induction plans generalizing t with
  | nil => exact ⟨rfl, fun _ _ => rfl⟩
  | cons plan plans ih =>
    obtain ⟨hcanonical, hstale, hrest, -⟩ := h.head
    rw [List.forall_mem_cons] at hid
    exact (untouched_mergePeerRows hcanonical hstale _ t hid.1).trans (ih hrest hid.2 _)

/-- What the folds do to a group: the rows but one are deleted, the one is touched and has all their
routes. -/
structure Folded (now : String → Int) (t t' : PeerTables) (plan : String × List String) :
    Prop where
  deleted : ∀ id ∈ plan.2, t'.peers.find id = none
  kept : t'.peers.find plan.1 = (t.peers.find plan.1).map (touchPeer plan.1 (now plan.1))
  /-- It has the routes of the group. -/
  routes : ∀ kind value, t'.HasRoute plan.1 kind value ↔
    ∃ id ∈ members plan, t.HasRoute id kind value

/-- The folds fold each group. -/
lemma folded_foldPlans (h : Disjoined plans) (hplan : plan ∈ plans) (t : PeerTables) :
    Folded now t (foldPlans now plans t) plan := by
  induction plans generalizing t with
  | nil => cases hplan
  | cons first plans ih =>
    obtain ⟨hcanonical, hstale, hrest, hdisjoint⟩ := h.head
    rcases List.mem_cons.mp hplan with rfl | hplan
    · -- the later folds leave this group alone
      have hlater : ∀ id ∈ members plan,
          Untouched (mergePeerRows plan.1 plan.2 (now plan.1) t)
            (foldPlans now (plan :: plans) t) id := fun id hid =>
        untouched_foldPlans hrest (hdisjoint id hid) _
      refine ⟨fun id hid => ?_, ?_, fun kind value => ?_⟩
      · rw [(hlater id (List.mem_cons_of_mem _ hid)).row, find_mergePeerRows hcanonical hstale,
          if_pos hid]
      · rw [(hlater plan.1 List.mem_cons_self).row, find_mergePeerRows hcanonical hstale,
          if_neg hcanonical]
      · rw [(hlater plan.1 List.mem_cons_self).hasRoute,
          hasRoute_mergePeerRows hcanonical hstale]
        simp [members, hcanonical]
    · -- the first fold leaves the group of a later one alone
      have hfirst : ∀ id ∈ members plan,
          Untouched t (mergePeerRows first.1 first.2 (now first.1) t) id := fun id hid =>
        untouched_mergePeerRows hcanonical hstale _ t fun hid' => hdisjoint id hid' plan hplan hid
      obtain ⟨hdeleted, hkept, hroutes⟩ := ih hrest hplan
        (mergePeerRows first.1 first.2 (now first.1) t)
      refine ⟨hdeleted, ?_, fun kind value => ?_⟩
      · rw [← (hfirst plan.1 List.mem_cons_self).row]
        exact hkept
      · refine (hroutes kind value).trans (exists_congr fun id => and_congr_right fun hid => ?_)
        exact (hfirst id hid).hasRoute kind value

end Plans

/-! ## Folds are safe -/

/-- Two rows that are not departed are pinned to one key and share the value of a route. -/
def SameIdentity (t : PeerTables) (p q : PeerRow) : Prop :=
  p.departedAt = none ∧ q.departedAt = none ∧ (∃ fp, p.pubkeyFp = some fp ∧ q.pubkeyFp = some fp) ∧
    ∃ value, t.hasAddr p.peerId value ∧ t.hasAddr q.peerId value

/-- What a fold may do to the tables. -/
structure FoldsSafely (t t' : PeerTables) : Prop where
  /-- A row that is deleted is folded into one that stays, has its identity, and has its routes
  afterwards. -/
  deleted : ∀ p ∈ t.peers.rows, t'.peers.find p.peerId = none →
    ∃ q ∈ t.peers.rows, q.peerId ≠ p.peerId ∧ SameIdentity t p q ∧
      (∃ q', t'.peers.find q.peerId = some q' ∧ q'.pubkeyFp = q.pubkeyFp ∧
        q'.departedAt = none) ∧
      ∀ kind value, t.HasRoute p.peerId kind value → t'.HasRoute q.peerId kind value
  /-- A row that stays keeps its routes. -/
  kept : ∀ id, (t'.peers.find id).isSome →
    ∀ kind value, t.HasRoute id kind value → t'.HasRoute id kind value
  created : ∀ id, t.peers.find id = none → t'.peers.find id = none
  /-- A row that is touched shares its identity with another one. -/
  touched : ∀ p ∈ t.peers.rows, ¬Untouched t t' p.peerId →
    ∃ q ∈ t.peers.rows, q.peerId ≠ p.peerId ∧ SameIdentity t p q

/-- The members of a fold are rows of one identity. -/
def Foldable (t : PeerTables) (plan : String × List String) : Prop :=
  ∃ fp value, ∀ id ∈ members plan, ∃ row, t.peers.find id = some row ∧ row.departedAt = none ∧
    row.pubkeyFp = some fp ∧ t.hasAddr id value = true

/-- Two members of a fold have one identity. -/
lemma Foldable.sameIdentity {t : PeerTables} {plan : String × List String} (h : Foldable t plan)
    {p : PeerRow} (hp : p ∈ t.peers.rows) (hpmem : p.peerId ∈ members plan) {id : String}
    (hid : id ∈ members plan) : ∃ q ∈ t.peers.rows, q.peerId = id ∧ SameIdentity t p q := by
  obtain ⟨fp, value, hrows⟩ := h
  obtain ⟨row, hrow, hdeparted, hfp, haddr⟩ := hrows p.peerId hpmem
  obtain rfl : p = row := Option.some_inj.mp ((KeyedTable.mem_rows_iff.mp hp).symm.trans hrow)
  obtain ⟨q, hq, hqdeparted, hqfp, hqaddr⟩ := hrows id hid
  obtain ⟨hqmem, rfl⟩ := KeyedTable.find_eq_some_iff.mp hq
  exact ⟨q, hqmem, rfl, hdeparted, hqdeparted, ⟨fp, hfp, hqfp⟩, value, haddr, hqaddr⟩

/-- Folds of disjoint groups of rows of one identity are safe. -/
theorem foldsSafely_foldPlans {now : String → Int} {plans : List (String × List String)}
    {t : PeerTables} (h : Disjoined plans) (hfoldable : ∀ plan ∈ plans, Foldable t plan) :
    FoldsSafely t (foldPlans now plans t) := by
  -- a peer is in no group, or it is deleted, or it is canonical
  have hcases : ∀ id, Untouched t (foldPlans now plans t) id ∨
      ∃ plan ∈ plans, Folded now t (foldPlans now plans t) plan ∧ plan.1 ∉ plan.2 ∧
        (id ∈ plan.2 ∨ id = plan.1) := by
    intro id
    by_cases hid : ∃ plan ∈ plans, id ∈ members plan
    · obtain ⟨plan, hplan, hid⟩ := hid
      have hnot : plan.1 ∉ plan.2 := by
        have hnodup := (List.nodup_flatMap.mp h.nodup).1 plan hplan
        exact (List.nodup_cons.mp hnodup).1
      exact Or.inr ⟨plan, hplan, folded_foldPlans h hplan t, hnot, (List.mem_cons.mp hid).symm⟩
    · push Not at hid
      exact Or.inl (untouched_foldPlans h hid t)
  constructor
  · intro p hp hgone
    have hfind := KeyedTable.mem_rows_iff.mp hp
    rcases hcases p.peerId with huntouched | ⟨plan, hplan, hfolded, hnot, hmem⟩
    · rw [huntouched.row, hfind] at hgone
      cases hgone
    · have hstale : p.peerId ∈ plan.2 := by
        refine hmem.resolve_right fun heq => ?_
        rw [heq, hfolded.kept, ← heq, hfind] at hgone
        cases hgone
      have hpmem : p.peerId ∈ members plan := List.mem_cons_of_mem _ hstale
      obtain ⟨q, hq, hqid, hsame⟩ := (hfoldable plan hplan).sameIdentity hp hpmem
        List.mem_cons_self
      have hqfind : t.peers.find plan.1 = some q := hqid ▸ KeyedTable.mem_rows_iff.mp hq
      refine ⟨q, hq, fun heq => ?_, hsame, ⟨touchPeer plan.1 (now plan.1) q, ?_, ?_, ?_⟩,
        fun kind value hroute => ?_⟩
      · rw [← hqid, heq] at hnot
        exact hnot hstale
      · rw [hqid, hfolded.kept, hqfind]
        rfl
      · rcases touchPeer_eq plan.1 (now plan.1) q with h | h <;> rw [h]
      · rcases touchPeer_eq plan.1 (now plan.1) q with h | h <;> rw [h] <;> exact hsame.2.1
      · rw [hqid, hfolded.routes]
        exact ⟨p.peerId, hpmem, hroute⟩
  · intro id hsome kind value hroute
    rcases hcases id with huntouched | ⟨plan, hplan, hfolded, hnot, hmem | rfl⟩
    · exact (huntouched.hasRoute kind value).mpr hroute
    · rw [hfolded.deleted id hmem] at hsome
      cases hsome
    · exact (hfolded.routes kind value).mpr ⟨plan.1, List.mem_cons_self, hroute⟩
  · intro id hnone
    rcases hcases id with huntouched | ⟨plan, hplan, hfolded, hnot, hmem | rfl⟩
    · rw [huntouched.row, hnone]
    · exact hfolded.deleted id hmem
    · rw [hfolded.kept, hnone]
      rfl
  · intro p hp htouched
    rcases hcases p.peerId with huntouched | ⟨plan, hplan, hfolded, hnot, hmem⟩
    · exact absurd huntouched htouched
    · have hpmem : p.peerId ∈ members plan := List.mem_cons.mpr hmem.symm
      -- some other peer is in the group
      have hother : ∃ id ∈ members plan, id ≠ p.peerId := by
        rcases hmem with hmem | heq
        · exact ⟨plan.1, List.mem_cons_self, fun heq => hnot (heq ▸ hmem)⟩
        · obtain ⟨id, hid⟩ := List.exists_mem_of_ne_nil _ (h.stale plan hplan)
          exact ⟨id, List.mem_cons_of_mem _ hid, fun heq' => hnot (heq ▸ heq' ▸ hid)⟩
      obtain ⟨id, hid, hne⟩ := hother
      obtain ⟨q, hq, rfl, hsame⟩ := (hfoldable plan hplan).sameIdentity hp hpmem hid
      exact ⟨q, hq, hne, hsame⟩

/-! ## The plan of a fold -/

/-- A plan is about the rows it is made for. -/
lemma foldPlan_perm {rows : List PeerRow} {plan : String × List String}
    (h : foldPlan rows = some plan) :
    (members plan).Perm (rows.map PeerRow.peerId) ∧ plan.2 ≠ [] := by
  unfold foldPlan at h
  split at h
  · rename_i first second rest hsorted
    cases h
    have hperm : (first :: second :: rest).Perm rows := hsorted ▸ List.mergeSort_perm _ _
    exact ⟨hperm.map PeerRow.peerId, by simp⟩
  · cases h

/-- Without a plan there is at most one row. -/
lemma length_le_one_of_foldPlan {rows : List PeerRow} (h : foldPlan rows = none) :
    rows.length ≤ 1 := by
  have hlength := (List.mergeSort_perm rows freshestFirst).length_eq
  unfold foldPlan at h
  split at h
  · cases h
  · rename_i hshort
    rw [← hlength]
    rcases hsorted : rows.mergeSort freshestFirst with _ | ⟨a, _ | ⟨b, rest⟩⟩
    · exact Nat.zero_le 1
    · exact Nat.le_refl 1
    · exact absurd hsorted (hshort a b rest)

lemma foldable_of_foldPlan {t : PeerTables} {rows : List PeerRow} {plan : String × List String}
    (h : foldPlan rows = some plan) (fp value : String)
    (hrows : ∀ p ∈ rows, p ∈ t.peers.rows ∧ p.departedAt = none ∧ p.pubkeyFp = some fp ∧
      t.hasAddr p.peerId value = true) : Foldable t plan := by
  refine ⟨fp, value, fun id hid => ?_⟩
  obtain ⟨p, hp, rfl⟩ := List.mem_map.mp ((foldPlan_perm h).1.mem_iff.mp hid)
  obtain ⟨hmem, hdeparted, hfp, haddr⟩ := hrows p hp
  exact ⟨p, KeyedTable.mem_rows_iff.mp hmem, hdeparted, hfp, haddr⟩

/-! ## Folding on the write path -/

section Converge

variable {t : PeerTables} {peerId peerAddr : String}

lemma convergePeerIdentity_eq (now : Int) :
    (convergePeerIdentity peerId peerAddr now t).1 =
      foldPlans (fun _ => now) (t.convergePlan peerId peerAddr).toList t := by
  unfold convergePeerIdentity
  cases t.convergePlan peerId peerAddr with
  | none => rfl
  | some plan => rfl

/-- The candidates have the identity of the row that was written. -/
lemma mem_cands {p : PeerRow} (h : p ∈ t.cands peerId peerAddr) : p ∈ t.peers.rows ∧
    p.departedAt = none ∧ (∃ fp, t.pin peerId = some fp ∧ p.pubkeyFp = some fp) ∧
      t.hasAddr p.peerId peerAddr = true := by
  obtain ⟨hmem, hp⟩ := List.mem_filter.mp h
  simp only [Bool.and_eq_true, Option.isNone_iff_eq_none] at hp
  obtain ⟨hdeparted, ⟨-, haddr⟩, hkey⟩ := hp
  refine ⟨hmem, hdeparted, ?_, haddr⟩
  cases hpin : t.pin peerId with
  | none => simp [hpin, sameKey] at hkey
  | some fp =>
    cases hfp : p.pubkeyFp with
    | none => simp [hpin, hfp, sameKey] at hkey
    | some fp' =>
      simp only [hpin, hfp, sameKey, beq_iff_eq] at hkey
      exact ⟨fp, rfl, by rw [hkey]⟩

/-- The fold is of rows of one identity, with the key of the row that was written. -/
lemma foldable_convergePlan {plan : String × List String}
    (h : t.convergePlan peerId peerAddr = some plan) :
    Foldable t plan ∧ (members plan).Nodup ∧ plan.2 ≠ [] ∧ ∀ id ∈ members plan,
      ∃ p, t.peers.find id = some p ∧ p.pubkeyFp = t.pin peerId := by
  have hplan : foldPlan (t.cands peerId peerAddr) = some plan := h
  obtain ⟨hperm, hstale⟩ := foldPlan_perm hplan
  have hnodup : (members plan).Nodup := hperm.nodup_iff.mpr
    (t.peers.nodup.sublist (List.filter_sublist.map PeerRow.peerId))
  have hmember : ∀ id ∈ members plan, ∃ p ∈ t.cands peerId peerAddr, p.peerId = id := fun id hid =>
    List.mem_map.mp (hperm.mem_iff.mp hid)
  obtain ⟨first, hfirst, -⟩ := hmember plan.1 List.mem_cons_self
  obtain ⟨-, -, ⟨fp, hpin, -⟩, -⟩ := mem_cands hfirst
  refine ⟨foldable_of_foldPlan hplan fp peerAddr fun p hp => ?_, hnodup, hstale, fun id hid => ?_⟩
  · obtain ⟨hmem, hdeparted, ⟨fp', hpin', hfp⟩, haddr⟩ := mem_cands hp
    obtain rfl : fp = fp' := Option.some_inj.mp (hpin.symm.trans hpin')
    exact ⟨hmem, hdeparted, hfp, haddr⟩
  · obtain ⟨p, hp, rfl⟩ := hmember id hid
    obtain ⟨hmem, -, ⟨fp', hpin', hfp⟩, -⟩ := mem_cands hp
    exact ⟨p, KeyedTable.mem_rows_iff.mp hmem, hfp.trans hpin'.symm⟩

/-- The fold of `converge_peer_identity` is safe, and touches only rows with the key of the row that
was written. -/
lemma foldsSafely_convergePeerIdentity (now : Int) :
    FoldsSafely t (convergePeerIdentity peerId peerAddr now t).1 ∧
      ∀ p ∈ t.peers.rows, p.pubkeyFp ≠ t.pin peerId →
        Untouched t (convergePeerIdentity peerId peerAddr now t).1 p.peerId := by
  rw [convergePeerIdentity_eq]
  have hplan : ∀ plan ∈ (t.convergePlan peerId peerAddr).toList,
      t.convergePlan peerId peerAddr = some plan := fun plan h => Option.mem_toList.mp h
  have hdisjoined : Disjoined (t.convergePlan peerId peerAddr).toList := by
    cases h : t.convergePlan peerId peerAddr with
    | none => exact ⟨List.nodup_nil, fun plan hplan => by cases hplan⟩
    | some plan =>
      obtain ⟨-, hnodup, hstale, -⟩ := foldable_convergePlan h
      refine ⟨by simpa using hnodup, fun plan' hplan' => ?_⟩
      rw [Option.toList_some, List.mem_singleton] at hplan'
      rw [hplan']
      exact hstale
  refine ⟨foldsSafely_foldPlans hdisjoined fun plan h => (foldable_convergePlan (hplan plan h)).1,
    fun p hp hkey => untouched_foldPlans hdisjoined (fun plan h hmem => ?_) t⟩
  obtain ⟨-, -, -, hkeys⟩ := foldable_convergePlan (hplan plan h)
  obtain ⟨q, hq, hqkey⟩ := hkeys p.peerId hmem
  rw [KeyedTable.mem_rows_iff.mp hp] at hq
  cases hq
  exact hkey hqkey

end Converge

/-! ## Folding at startup -/

section Dedup

variable {t : PeerTables}

/-- The identity of a row. -/
lemma identity_eq_some_iff {p : PeerRow} {addr fp : String} : t.identity p = some (addr, fp) ↔
    p.departedAt = none ∧ p.pubkeyFp = some fp ∧ t.primaryRoute p.peerId = some addr ∧
      addr ≠ "" := by
  unfold PeerTables.identity
  cases p.departedAt with
  | some at_ => simp
  | none =>
    cases p.pubkeyFp with
    | none => simp
    | some fp' =>
      cases t.primaryRoute p.peerId with
      | none => simp
      | some addr' =>
        dsimp only
        split
        · rename_i hempty
          simp [hempty]
        · rename_i hne
          simp only [Option.some.injEq, Prod.mk.injEq, true_and]
          constructor
          · rintro ⟨rfl, rfl⟩
            exact ⟨rfl, rfl, hne⟩
          · rintro ⟨rfl, rfl, -⟩
            exact ⟨rfl, rfl⟩

lemma mem_group {p : PeerRow} {key : String × String} :
    p ∈ t.group key ↔ p ∈ t.peers.rows ∧ t.identity p = some key := by
  simp [PeerTables.group]

lemma of_mem_group {p : PeerRow} {key : String × String} (h : p ∈ t.group key) :
    p ∈ t.peers.rows ∧ p.departedAt = none ∧ p.pubkeyFp = some key.2 ∧
      t.primaryRoute p.peerId = some key.1 ∧ t.hasAddr p.peerId key.1 = true := by
  obtain ⟨hmem, hidentity⟩ := mem_group.mp h
  obtain ⟨hdeparted, hfp, hroute, -⟩ := identity_eq_some_iff.mp hidentity
  obtain ⟨kind, hkind, -⟩ := PeerTables.primaryRoute_eq_some_iff.mp hroute
  exact ⟨hmem, hdeparted, hfp, hroute, PeerTables.hasAddr_iff.mpr ⟨kind, hkind⟩⟩

/-- The identities are those of the rows, each once. -/
lemma mem_identities {key : String × String} :
    key ∈ t.identities ↔ ∃ p ∈ t.peers.rows, t.identity p = some key := by
  unfold PeerTables.identities
  rw [List.mem_dedup, List.mem_insertionSort, List.mem_filterMap]

lemma mem_dedupPlans {plan : String × List String} : plan ∈ t.dedupPlans ↔
    ∃ key ∈ t.identities, foldPlan (t.group key) = some plan :=
  List.mem_filterMap

/-- The folds at startup are of disjoint groups: a row has one identity. -/
lemma disjoined_dedupPlans : Disjoined t.dedupPlans := by
  refine ⟨List.nodup_flatMap.mpr ⟨fun plan hplan => ?_, ?_⟩, fun plan hplan => ?_⟩
  · obtain ⟨key, -, hkey⟩ := mem_dedupPlans.mp hplan
    exact (foldPlan_perm hkey).1.nodup_iff.mpr
      (t.peers.nodup.sublist (List.filter_sublist.map PeerRow.peerId))
  · refine (List.pairwise_filterMap).mpr ?_
    have hnodup : t.identities.Nodup := List.nodup_dedup _
    refine hnodup.imp fun {key key'} hne plan hplan plan' hplan' => ?_
    intro id hid hid'
    obtain ⟨p, hp, rfl⟩ := List.mem_map.mp ((foldPlan_perm hplan).1.mem_iff.mp hid)
    obtain ⟨q, hq, heq⟩ := List.mem_map.mp ((foldPlan_perm hplan').1.mem_iff.mp hid')
    obtain ⟨hpmem, hpkey⟩ := mem_group.mp hp
    obtain ⟨hqmem, hqkey⟩ := mem_group.mp hq
    rw [t.peers.eq_of_key hqmem hpmem heq, hpkey] at hqkey
    exact hne (Option.some_inj.mp hqkey)
  · obtain ⟨key, -, hkey⟩ := mem_dedupPlans.mp hplan
    exact (foldPlan_perm hkey).2

lemma foldsSafely_dedupSameIdentityRows (now : String → Int) :
    FoldsSafely t (dedupSameIdentityRows now t).1 := by
  refine foldsSafely_foldPlans disjoined_dedupPlans fun plan hplan => ?_
  obtain ⟨key, -, hkey⟩ := mem_dedupPlans.mp hplan
  refine foldable_of_foldPlan hkey key.2 key.1 fun p hp => ?_
  obtain ⟨hmem, hdeparted, hfp, -, haddr⟩ := of_mem_group hp
  exact ⟨hmem, hdeparted, hfp, haddr⟩

/-- After a fold the canonical peer has the primary route that each of the group had. -/
lemma primaryRoute_of_folded {now : String → Int} {t' : PeerTables}
    {plan : String × List String} (h : Folded now t t' plan) {addr : String}
    (haddr : ∀ id ∈ members plan, t.primaryRoute id = some addr) :
    t'.primaryRoute plan.1 = some addr := by
  obtain ⟨kind, hkind, -⟩ := PeerTables.primaryRoute_eq_some_iff.mp
    (haddr plan.1 List.mem_cons_self)
  have hsome : t'.HasRoute plan.1 kind addr :=
    (h.routes kind addr).mpr ⟨plan.1, List.mem_cons_self, hkind⟩
  obtain ⟨first, hfirst⟩ := PeerTables.exists_primaryRoute hsome
  -- the least route of the union is the least of the one that it comes from
  obtain ⟨kind', hroute, hleast⟩ := PeerTables.primaryRoute_eq_some_iff.mp hfirst
  obtain ⟨id, hid, hroute⟩ := (h.routes kind' first).mp hroute
  have hsame : t.primaryRoute id = some first :=
    PeerTables.primaryRoute_eq_some_iff.mpr ⟨kind', hroute, fun kind'' value hother =>
      hleast kind'' value ((h.routes kind'' value).mpr ⟨id, hid, hother⟩)⟩
  rw [hfirst, ← hsame, haddr id hid]

/-- A row that is there after the folds was there before, with the same identity. -/
lemma identity_dedup (now : String → Int) {p' : PeerRow}
    (hp' : p' ∈ (dedupSameIdentityRows now t).1.peers.rows) :
    ∃ p ∈ t.peers.rows, p.peerId = p'.peerId ∧
      (dedupSameIdentityRows now t).1.identity p' = t.identity p := by
  have hfind := KeyedTable.mem_rows_iff.mp hp'
  -- the identity of a row is made of three fields
  have hidentity : ∀ p : PeerRow, p.departedAt = p'.departedAt → p.pubkeyFp = p'.pubkeyFp →
      (dedupSameIdentityRows now t).1.primaryRoute p'.peerId = t.primaryRoute p.peerId →
        (dedupSameIdentityRows now t).1.identity p' = t.identity p := by
    intro p hdeparted hfp hroute
    unfold PeerTables.identity
    rw [hdeparted, hfp, hroute]
  by_cases hid : ∃ plan ∈ t.dedupPlans, p'.peerId ∈ members plan
  · obtain ⟨plan, hplan, hid⟩ := hid
    have hfolded : Folded now t (dedupSameIdentityRows now t).1 plan :=
      folded_foldPlans disjoined_dedupPlans hplan t
    have hcanonical : p'.peerId = plan.1 := by
      refine (List.mem_cons.mp hid).resolve_right fun hstale => ?_
      rw [hfolded.deleted _ hstale] at hfind
      cases hfind
    rw [hcanonical, hfolded.kept] at hfind
    obtain ⟨p, hp, htouch⟩ := Option.map_eq_some_iff.mp hfind
    obtain ⟨hpmem, hpid⟩ := KeyedTable.find_eq_some_iff.mp hp
    obtain ⟨key, -, hkey⟩ := mem_dedupPlans.mp hplan
    have hroutes : ∀ id ∈ members plan, t.primaryRoute id = some key.1 := by
      intro id hid
      obtain ⟨q, hq, rfl⟩ := List.mem_map.mp ((foldPlan_perm hkey).1.mem_iff.mp hid)
      exact (of_mem_group hq).2.2.2.1
    have hfields : p.departedAt = p'.departedAt ∧ p.pubkeyFp = p'.pubkeyFp := by
      rw [← htouch]
      rcases touchPeer_eq plan.1 (now plan.1) p with h | h <;> rw [h] <;> exact ⟨rfl, rfl⟩
    refine ⟨p, hpmem, hpid.trans hcanonical.symm, hidentity p hfields.1 hfields.2 ?_⟩
    rw [hcanonical, primaryRoute_of_folded hfolded hroutes, hpid,
      hroutes plan.1 List.mem_cons_self]
  · push Not at hid
    have huntouched : Untouched t (dedupSameIdentityRows now t).1 p'.peerId :=
      untouched_foldPlans disjoined_dedupPlans hid t
    rw [huntouched.row] at hfind
    refine ⟨p', KeyedTable.mem_rows_iff.mpr hfind, rfl, hidentity p' rfl rfl ?_⟩
    exact PeerTables.primaryRoute_congr huntouched.hasRoute

/-- After the folds a group has one row at most. -/
lemma eq_of_mem_group_dedup (now : String → Int) {key : String × String} {p' q' : PeerRow}
    (hp' : p' ∈ (dedupSameIdentityRows now t).1.group key)
    (hq' : q' ∈ (dedupSameIdentityRows now t).1.group key) : p' = q' := by
  obtain ⟨hpmem', hpkey'⟩ := mem_group.mp hp'
  obtain ⟨hqmem', hqkey'⟩ := mem_group.mp hq'
  obtain ⟨p, hpmem, hpid, hpkey⟩ := identity_dedup now hpmem'
  obtain ⟨q, hqmem, hqid, hqkey⟩ := identity_dedup now hqmem'
  have hp : p ∈ t.group key := mem_group.mpr ⟨hpmem, hpkey.symm.trans hpkey'⟩
  have hq : q ∈ t.group key := mem_group.mpr ⟨hqmem, hqkey.symm.trans hqkey'⟩
  refine (dedupSameIdentityRows now t).1.peers.eq_of_key hpmem' hqmem' ?_
  cases hplan : foldPlan (t.group key) with
  | none =>
    -- the group had one row before
    have hone := length_le_one_of_foldPlan hplan
    have hsame : p = q := by
      rcases hgroup : t.group key with _ | ⟨a, _ | ⟨b, rest⟩⟩
      · rw [hgroup] at hp
        cases hp
      · rw [hgroup, List.mem_singleton] at hp hq
        rw [hp, hq]
      · rw [hgroup] at hone
        simp at hone
    rw [← hpid, ← hqid, hsame]
  | some plan =>
    -- all rows but the canonical one were deleted
    have hmem : plan ∈ t.dedupPlans :=
      mem_dedupPlans.mpr ⟨key, mem_identities.mpr ⟨p, mem_group.mp hp⟩, hplan⟩
    have hfolded : Folded now t (dedupSameIdentityRows now t).1 plan :=
      folded_foldPlans disjoined_dedupPlans hmem t
    have hcanonical : ∀ r ∈ t.group key, ∀ r' ∈ (dedupSameIdentityRows now t).1.peers.rows,
        r.peerId = r'.peerId → r'.peerId = plan.1 := by
      intro r hr r' hr' hid
      have hrmem : r.peerId ∈ members plan :=
        (foldPlan_perm hplan).1.mem_iff.mpr (List.mem_map_of_mem hr)
      rw [hid] at hrmem
      refine (List.mem_cons.mp hrmem).resolve_right fun hstale => ?_
      have hgone := hfolded.deleted _ hstale
      rw [KeyedTable.mem_rows_iff.mp hr'] at hgone
      cases hgone
    rw [hcanonical p hp p' hpmem' hpid, hcanonical q hq q' hqmem' hqid]

/-- A second run folds nothing. -/
lemma dedupPlans_dedup (now : String → Int) : (dedupSameIdentityRows now t).1.dedupPlans = [] := by
  refine List.eq_nil_iff_forall_not_mem.mpr fun plan hplan => ?_
  obtain ⟨key, -, hkey⟩ := mem_dedupPlans.mp hplan
  obtain ⟨hperm, hstale⟩ := foldPlan_perm hkey
  obtain ⟨id, hid⟩ := List.exists_mem_of_ne_nil _ hstale
  obtain ⟨p, hp, hpid⟩ := List.mem_map.mp (hperm.mem_iff.mp List.mem_cons_self)
  obtain ⟨q, hq, hqid⟩ := List.mem_map.mp (hperm.mem_iff.mp (List.mem_cons_of_mem _ hid))
  have hnodup : (members plan).Nodup := hperm.nodup_iff.mpr
    ((dedupSameIdentityRows now t).1.peers.nodup.sublist (List.filter_sublist.map PeerRow.peerId))
  refine (List.nodup_cons.mp hnodup).1 ?_
  rw [← hpid, eq_of_mem_group_dedup now hp hq, hqid]
  exact hid

end Dedup

/-- Folding on the write path and folding at startup delete a row only into one that stays and has
its key, a common route and afterwards its routes; they touch only rows that share their key and a
route with another one, and on the write path only rows with the key of the row that was written;
after the folds at startup no two rows that are not departed share a primary route, other than the
empty one, and a key, and a second run retires none. -/
theorem folds_are_safe (t : PeerTables) :
    (∀ peerId peerAddr now, FoldsSafely t (convergePeerIdentity peerId peerAddr now t).1 ∧
      ∀ p ∈ t.peers.rows, p.pubkeyFp ≠ t.pin peerId →
        Untouched t (convergePeerIdentity peerId peerAddr now t).1 p.peerId) ∧
    ∀ now, FoldsSafely t (dedupSameIdentityRows now t).1 ∧
      (∀ p ∈ (dedupSameIdentityRows now t).1.peers.rows,
        ∀ q ∈ (dedupSameIdentityRows now t).1.peers.rows,
          p.departedAt = none → q.departedAt = none → ∀ fp addr, p.pubkeyFp = some fp →
            q.pubkeyFp = some fp →
            (dedupSameIdentityRows now t).1.primaryRoute p.peerId = some addr →
            (dedupSameIdentityRows now t).1.primaryRoute q.peerId = some addr → addr ≠ "" →
              p = q) ∧
      ∀ now', dedupSameIdentityRows now' (dedupSameIdentityRows now t).1 =
        ((dedupSameIdentityRows now t).1, 0) := by
  refine ⟨fun peerId peerAddr now => foldsSafely_convergePeerIdentity now, fun now =>
    ⟨foldsSafely_dedupSameIdentityRows now, ?_, fun now' => ?_⟩⟩
  · intro p hp q hq hpdeparted hqdeparted fp addr hpfp hqfp hproute hqroute hne
    have hpkey := identity_eq_some_iff.mpr ⟨hpdeparted, hpfp, hproute, hne⟩
    have hqkey := identity_eq_some_iff.mpr ⟨hqdeparted, hqfp, hqroute, hne⟩
    exact eq_of_mem_group_dedup now (mem_group.mpr ⟨hp, hpkey⟩) (mem_group.mpr ⟨hq, hqkey⟩)
  · rw [dedupSameIdentityRows, dedupPlans_dedup]
    rfl

/-- A row of a peer that was last seen at some time. -/
def samplePeer (peerId fp : String) (seen : Int) : PeerRow where
  peerId := peerId
  peerHostname := "host"
  peerPort := 7777
  pubkeyFp := some fp
  caCertPem := ""
  firstSeenAt := 0
  lastSeenAt := seen
  departedAt := none
  identityPinnedAt := none
  boundEnvelopes := 0

/-- Two rows of one key, and one of another, at one address. -/
def samplePeerTables (addr : String) : PeerTables where
  peers := ⟨[samplePeer "a" "k1" 1, samplePeer "b" "k1" 2, samplePeer "c" "k2" 3], by decide⟩
  addresses := ⟨[⟨"a", "lan_v4", addr, "roster", 0⟩, ⟨"b", "lan_v4", addr, "roster", 0⟩,
    ⟨"c", "lan_v4", addr, "roster", 0⟩], by simp [PeerAddress.key]⟩

/-- When the row of `b` was written, the row of the other key is left alone. -/
theorem folds_are_safe_sample :
    Untouched (samplePeerTables "10.0.0.1")
      (convergePeerIdentity "b" "10.0.0.1" 9 (samplePeerTables "10.0.0.1")).1 "c" :=
  have hmem : samplePeer "c" "k2" 3 ∈ (samplePeerTables "10.0.0.1").peers.rows := by
    simp [samplePeerTables]
  ((folds_are_safe (samplePeerTables "10.0.0.1")).1 "b" "10.0.0.1" 9).2 (samplePeer "c" "k2" 3)
    hmem (by decide +kernel)

/-- Rows whose primary route is the empty text are not folded. -/
theorem empty_route_not_folded :
    ¬∀ (t : PeerTables) (now : String → Int),
      ∀ p ∈ (dedupSameIdentityRows now t).1.peers.rows,
        ∀ q ∈ (dedupSameIdentityRows now t).1.peers.rows,
          p.departedAt = none → q.departedAt = none → ∀ fp addr, p.pubkeyFp = some fp →
            q.pubkeyFp = some fp →
            (dedupSameIdentityRows now t).1.primaryRoute p.peerId = some addr →
            (dedupSameIdentityRows now t).1.primaryRoute q.peerId = some addr → p = q := by
  intro h
  have hnone : dedupSameIdentityRows (fun _ => 9) (samplePeerTables "") =
      (samplePeerTables "", 0) := by
    have hplans : (samplePeerTables "").dedupPlans = [] := by decide +kernel
    rw [dedupSameIdentityRows, hplans]
    rfl
  have hfold := h (samplePeerTables "") fun _ => 9
  rw [hnone] at hfold
  have hsame := hfold (samplePeer "a" "k1" 1) (by simp [samplePeerTables])
    (samplePeer "b" "k1" 2) (by simp [samplePeerTables]) rfl rfl "k1" "" rfl rfl (by decide)
    (by decide)
  simp [samplePeer] at hsame

end Orca
