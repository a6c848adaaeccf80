import Orca.Mesh.NonceLedger

/-!
# Demotions

A member that was demoted by `set_secure(false)` stays non-secure until an operator promotes it, or
until it consumes a promotion grant; and a grant that was issued up to the demotion, or that arrives
within its own lifetime of it, is refused by `consume_promotion_grant`.

The store remembers the last demotion only.  A later demotion moves the cutoff forward, so that the
remembered one is never before the one a statement is about (`DemotedSince`), and what it refuses
includes what the earlier one refused (`demotionRefuses_eq_false`).  That a grant promotes once is a
fact about the nonce ledger, which forgets rows: it is `emitted_accepted_nodup`.
-/

namespace Orca

open Emission

/-- `get_secure`: the stored tier, non-secure as long as there is no row. -/
def NonceStore.secure (st : NonceStore) : Bool := st.meshSelf.any MeshSelf.secure

/-- The times of a grant are `i64`, and it expires after it was issued. -/
def NonceCall.WellFormed : NonceCall → Prop
  | .consumePromotionGrant _ _ issuedAt expiresAt _ => issuedAt < expiresAt ∧ expiresAt < 2 ^ 63
  | _ => True

/-- The store remembers a demotion, and none before `d`. -/
def NonceStore.DemotedSince (d : UnixSecs) (st : NonceStore) : Prop :=
  ∃ d' : UnixSecs, st.demotedAt = some d'.1 ∧ d ≤ d'

section Runs

variable (isValid : String → Bool)

/-- The call, made after the run `earlier` from the store `st`, lifts a demotion at `d`: it is a
`set_secure(true)`, or it consumes a grant that was issued after `d`, arrives at least one grant
lifetime after it, and was not accepted before. -/
def Promotes (d : UnixSecs) (st : NonceStore) (earlier : List NonceCall) : NonceCall → Prop
  | .setSecure secure _ => secure = true
  | .consumePromotionGrant issuer nonce issuedAt expiresAt now =>
      (consumePromotionGrant isValid (performAll isValid st earlier) issuer nonce issuedAt expiresAt
        now).2 = .ok () ∧
      d.1 < issuedAt ∧ d.1 + (expiresAt - issuedAt) ≤ now.1 ∧
      (nonce, expiresAt) ∉ acceptedPairs isValid st earlier
  | .recordMeshNonce .. => False

/-! ## What one call does to the tier -/

/-- Recording a nonce writes neither the tier nor the demotion. -/
lemma recordNonceIn_frame {st st' : NonceStore} {method sender nonce : String}
    {expiresAt now : Int} {inserted : Bool}
    (h : recordNonceIn isValid st method sender nonce expiresAt now = .ok (st', inserted)) :
    st'.meshSelf = st.meshSelf ∧ st'.demotedAt = st.demotedAt := by
  obtain ⟨-, hresult⟩ := recordNonceIn_ok isValid h
  have hst' : st' = (insertNonce (pruneNonces st now) ⟨nonce, method, sender, expiresAt⟩).1 :=
    congrArg Prod.fst hresult
  rw [hst']
  unfold insertNonce
  split <;> exact ⟨rfl, rfl⟩

/-- A grant that is consumed passed the check against the last demotion, promotes the member and
leaves the demotion. -/
lemma consumePromotionGrant_ok {st : NonceStore} {issuer nonce : String}
    {issuedAt expiresAt now : Int}
    (h : (consumePromotionGrant isValid st issuer nonce issuedAt expiresAt now).2 = .ok ()) :
    st.demotedAt.any (demotionRefuses issuedAt expiresAt now) = false ∧
      (consumePromotionGrant isValid st issuer nonce issuedAt expiresAt now).1.demotedAt =
        st.demotedAt := by
  unfold consumePromotionGrant at h ⊢
  split at h
  · cases h
  rename_i hguard
  rw [if_neg hguard]
  refine ⟨by simpa using hguard, ?_⟩
  split at h
  · cases h
  · cases h
  · rename_i st' hrec
    exact (recordNonceIn_frame isValid hrec).2

/-- A grant that is refused leaves the store. -/
lemma consumePromotionGrant_error {st : NonceStore} {issuer nonce e : String}
    {issuedAt expiresAt now : Int}
    (h : (consumePromotionGrant isValid st issuer nonce issuedAt expiresAt now).2 = .error e) :
    (consumePromotionGrant isValid st issuer nonce issuedAt expiresAt now).1 = st := by
  unfold consumePromotionGrant at h ⊢
  split
  · rfl
  rename_i hguard
  rw [if_neg hguard] at h
  split
  · rfl
  · rfl
  · rename_i st' hrec
    rw [hrec] at h
    cases h

/-- Recording a nonce in a transaction of its own writes neither the tier nor the demotion. -/
lemma recordMeshNonce_frame (st : NonceStore) (method sender nonce : String)
    (expiresAt now : Int) :
    (recordMeshNonce isValid st method sender nonce expiresAt now).1.meshSelf = st.meshSelf ∧
      (recordMeshNonce isValid st method sender nonce expiresAt now).1.demotedAt =
        st.demotedAt := by
  unfold recordMeshNonce
  split
  · exact ⟨rfl, rfl⟩
  · rename_i hrec
    exact recordNonceIn_frame isValid hrec

/-- A check against a demotion is a check against every earlier one.  The sums do not wrap, since a
grant that was issued after the demotion expires after it. -/
lemma demotionRefuses_eq_false {issuedAt expiresAt : Int} {d d' now : UnixSecs}
    (hgrant : issuedAt < expiresAt) (hrange : expiresAt < 2 ^ 63) (hd : d ≤ d')
    (h : demotionRefuses issuedAt expiresAt now d' = false) :
    d.1 < issuedAt ∧ d.1 + (expiresAt - issuedAt) ≤ now.1 := by
  have hle : d.1 ≤ d'.1 := hd
  have hepoch : 0 ≤ d'.1 := d'.2.1
  simp only [demotionRefuses, Bool.or_eq_false_iff, decide_eq_false_iff_not, not_le,
    not_lt] at h
  obtain ⟨hissued, harrived⟩ := h
  have hlife : wrapI64 (expiresAt - issuedAt) = expiresAt - issuedAt :=
    wrapI64_of_mem_range (by omega) (by omega)
  have hsum : wrapI64 (d'.1 + (expiresAt - issuedAt)) = d'.1 + (expiresAt - issuedAt) :=
    wrapI64_of_mem_range (by omega) (by omega)
  rw [hlife, hsum] at harrived
  exact ⟨by omega, by omega⟩

/-! ## Over a run -/

/-- No call forgets that there was a demotion since `d`. -/
lemma perform_demotedSince {d : UnixSecs} {st : NonceStore} (c : NonceCall) (hc : d ≤ c.now)
    (h : st.DemotedSince d) : (c.perform isValid st).DemotedSince d := by
  obtain ⟨d', hdemoted, hd⟩ := h
  cases c with
  | recordMeshNonce method sender nonce expiresAt now =>
    refine ⟨d', ?_, hd⟩
    rw [← hdemoted]
    exact (recordMeshNonce_frame isValid st method sender nonce expiresAt now).2
  | consumePromotionGrant issuer nonce issuedAt expiresAt now =>
    refine ⟨d', ?_, hd⟩
    rw [← hdemoted]
    cases hresult : (consumePromotionGrant isValid st issuer nonce issuedAt expiresAt now).2 with
    | ok u => exact (consumePromotionGrant_ok isValid hresult).2
    | error e =>
      exact congrArg NonceStore.demotedAt (consumePromotionGrant_error isValid hresult)
  | setSecure secure now =>
    cases secure with
    | true => exact ⟨d', hdemoted, hd⟩
    | false => exact ⟨now, rfl, hc⟩

/-- If the member is secure after a call, it was secure before, or the call lifts the demotion. -/
lemma perform_secure {d : UnixSecs} {st : NonceStore} {earlier : List NonceCall} {c : NonceCall}
    (hdemoted : (performAll isValid st earlier).DemotedSince d) (hc : c.WellFormed)
    (hclock : ((earlier ++ [c]).map NonceCall.now).Pairwise (· ≤ ·))
    (h : (c.perform isValid (performAll isValid st earlier)).secure = true) :
    (performAll isValid st earlier).secure = true ∨ Promotes isValid d st earlier c := by
  cases c with
  | recordMeshNonce method sender nonce expiresAt now =>
    refine Or.inl ?_
    rw [← h]
    exact congrArg (Option.any MeshSelf.secure)
      (recordMeshNonce_frame isValid _ method sender nonce expiresAt now).1.symm
  | consumePromotionGrant issuer nonce issuedAt expiresAt now =>
    cases hresult : (consumePromotionGrant isValid (performAll isValid st earlier) issuer nonce
        issuedAt expiresAt now).2 with
    | error e =>
      refine Or.inl ?_
      rw [← h]
      exact congrArg NonceStore.secure (consumePromotionGrant_error isValid hresult).symm
    | ok u =>
      refine Or.inr ⟨hresult, ?_⟩
      obtain ⟨d', hd', hd⟩ := hdemoted
      have hguard := (consumePromotionGrant_ok isValid hresult).1
      rw [hd', Option.any_some] at hguard
      obtain ⟨hissued, harrived⟩ := demotionRefuses_eq_false hc.1 hc.2 hd hguard
      refine ⟨hissued, harrived, ?_⟩
      rw [acceptedPairs_eq_emitted]
      have haccepted : (NonceCall.consumePromotionGrant issuer nonce issuedAt expiresAt
          now).accepted isValid (performAll isValid st earlier) = some (nonce, expiresAt) := by
        simp only [NonceCall.accepted, hresult]
      exact not_mem_emitted_before (emitted_accepted_nodup isValid st _ hclock) haccepted
  | setSecure secure now => exact Or.inr h

/-- **A demotion outlives every earlier grant.**  In every run whose clock readings never decrease,
if the member is secure some time after a `set_secure(false)` at `d`, then since that call there was
a `set_secure(true)`, or a grant was consumed that was issued after `d`, arrived at least its own
lifetime after `d`, and whose `(nonce, expires_at)` was not accepted before in the run. -/
theorem demotion_outlives_grants (st : NonceStore) (before after : List NonceCall) (d : UnixSecs)
    (hgrants : ∀ c ∈ after, c.WellFormed)
    (hclock : ((before ++ .setSecure false d :: after).map NonceCall.now).Pairwise (· ≤ ·))
    (h : (performAll isValid st (before ++ .setSecure false d :: after)).secure = true) :
    ∃ between c rest, after = between ++ c :: rest ∧
      Promotes isValid d st (before ++ .setSecure false d :: between) c := by
  induction after using List.reverseRecOn with
  | nil =>
    rw [performAll, List.foldl_append] at h
    cases h
  | append_singleton between c ih =>
    have hsplit : before ++ .setSecure false d :: (between ++ [c]) =
        (before ++ .setSecure false d :: between) ++ [c] := by simp
    rw [hsplit] at hclock h
    have hclock' : ((before ++ NonceCall.setSecure false d :: between).map
        NonceCall.now).Pairwise (· ≤ ·) := by
      rw [List.map_append] at hclock
      exact (List.pairwise_append.mp hclock).1
    have hafter : ∀ b ∈ between, d ≤ b.now := by
      intro b hb
      rw [List.map_append, List.map_cons] at hclock'
      have hcons := (List.pairwise_append.mp hclock').2.1
      exact (List.pairwise_cons.mp hcons).1 _ (List.mem_map_of_mem hb)
    have hdemoted : (performAll isValid st
        (before ++ .setSecure false d :: between)).DemotedSince d := by
      rw [performAll, List.foldl_append, List.foldl_cons]
      exact Invariant.foldl_invariant (I := NonceStore.DemotedSince d)
        (fun b hb _ hst => perform_demotedSince isValid b (hafter b hb) hst) ⟨d, rfl, le_refl d⟩
    have hlast : (c.perform isValid
        (performAll isValid st (before ++ .setSecure false d :: between))).secure = true := by
      rw [performAll, List.foldl_append] at h
      exact h
    have hwf : c.WellFormed := hgrants c (List.mem_append_right _ (List.mem_singleton_self c))
    rcases perform_secure isValid hdemoted hwf hclock hlast with hsecure | hpromotes
    · obtain ⟨between', c', rest, rfl, hpromotes⟩ :=
        ih (fun b hb => hgrants b (List.mem_append_left _ hb)) hclock' hsecure
      exact ⟨between', c', rest ++ [c], by simp, hpromotes⟩
    · exact ⟨between, c, [], rfl, hpromotes⟩

end Runs

/-- A grant issued after a demotion at 100, with a lifetime of 580 seconds, once too early and once
in time. -/
def sampleGrants : List NonceCall :=
  [.consumePromotionGrant "p1" "019e7105-9910-7000-8000-000000000003" 120 700 ⟨679, by decide⟩,
   .consumePromotionGrant "p1" "019e7105-9910-7000-8000-000000000003" 120 700 ⟨680, by decide⟩]

/-- The second presentation of the grant of the sample lifts the demotion. -/
theorem demotion_outlives_grants_sample :
    ∃ between c rest, sampleGrants = between ++ c :: rest ∧
      Promotes isHyphenatedUuid ⟨100, by decide⟩ NonceStore.empty
        ([] ++ .setSecure false ⟨100, by decide⟩ :: between) c :=
  demotion_outlives_grants isHyphenatedUuid NonceStore.empty [] sampleGrants ⟨100, by decide⟩
    (by simp [sampleGrants, NonceCall.WellFormed]) (by decide) (by decide)

end Orca
