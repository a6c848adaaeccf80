import Orca.Mounts.Satisfied

/-!
# Confirmed releases

A mount that is stale, or whose swap is worthwhile, is released only once that has lasted for some
ticks.  The counters for this, and those of the mount-failure backoff, share one map of texts: a
stale streak has the target as its key, the other two have prefixes.

A run is observed with its history and with three separate maps of counters (`Observed`).  As long
as no target starts with one of the prefixes, the shared map is nothing but the three maps
(`splits_step`).  What a counter means is proved for targets that have a placement of their own when
they count, and under the condition that a target which is stale, and not yet confirmed so, is not
worth a swap: the tick takes such a target for healthy, and counts it.
-/

namespace Orca.Mounts

/-! ## Keys -/

lemma stripStart_append (start s : String) : stripStart start (start ++ s) = some s := by
  unfold stripStart
  rw [String.toList_append, if_pos (by simp), ← String.length_toList, List.drop_left,
    String.ofList_toList]

/-- A text that starts with another one continues it. -/
lemma startsWith_iff {start s : String} :
    startsWith start s = true ↔ ∃ rest, s = start ++ rest := by
  unfold startsWith
  rw [List.isPrefixOf_iff_prefix]
  constructor
  · rintro ⟨rest, hrest⟩
    refine ⟨String.ofList rest, String.toList_injective ?_⟩
    rw [String.toList_append, String.toList_ofList, hrest]
  · rintro ⟨rest, rfl⟩
    rw [String.toList_append]
    exact List.prefix_append _ _

lemma stripStart_eq_none {start s : String} (h : startsWith start s = false) :
    stripStart start s = none := by
  unfold stripStart
  rw [if_neg]
  rw [startsWith] at h
  rw [h]
  exact Bool.false_ne_true

/-- Neither prefix stands at the start of the text. -/
def Plain (t : String) : Prop :=
  startsWith "failover:" t = false ∧ startsWith "mountfail:" t = false

/-- A key of the backoff: the text after the prefix. -/
def backoffKey (rest : String) : String := "mountfail:" ++ rest

lemma startsWith_mountfail_failoverKey (t : String) :
    startsWith "mountfail:" (failoverKey t) = false := by
  rw [startsWith, failoverKey, String.toList_append]
  rfl

lemma startsWith_failover_backoffKey (rest : String) :
    startsWith "failover:" (backoffKey rest) = false := by
  rw [startsWith, backoffKey, String.toList_append]
  rfl

lemma startsWith_failoverKey (t : String) : startsWith "failover:" (failoverKey t) = true :=
  startsWith_iff.mpr ⟨t, rfl⟩

lemma startsWith_backoffKey (rest : String) : startsWith "mountfail:" (backoffKey rest) = true :=
  startsWith_iff.mpr ⟨rest, rfl⟩

lemma append_right_injective (start : String) :
    Function.Injective fun s : String => start ++ s := by
  intro s s' h
  have hlist := congrArg String.toList h
  simp only [String.toList_append] at hlist
  exact String.toList_injective (List.append_cancel_left hlist)

lemma mountfailKey_eq (t s : String) : mountfailKey t s = backoffKey (t ++ "|" ++ s) := by
  rw [mountfailKey, backoffKey, String.append_assoc, String.append_assoc, String.append_assoc]

lemma Plain.ne_failoverKey {t : String} (h : Plain t) (t' : String) : t ≠ failoverKey t' := by
  rintro rfl
  rw [Plain, startsWith_failoverKey] at h
  cases h.1

lemma Plain.ne_backoffKey {t : String} (h : Plain t) (rest : String) : t ≠ backoffKey rest := by
  rintro rfl
  rw [Plain, startsWith_backoffKey] at h
  cases h.2

lemma failoverKey_ne_backoffKey (t rest : String) : failoverKey t ≠ backoffKey rest := by
  intro h
  have hmount := startsWith_mountfail_failoverKey t
  rw [h, startsWith_backoffKey] at hmount
  cases hmount

/-! ## Three maps of counters -/

/-- The counters in three maps of their own. -/
structure Trackers where
  stale : String → Option ℕ
  failover : String → Option ℕ
  backoff : String → Option ℕ

/-- No counters. -/
def Trackers.empty : Trackers := ⟨fun _ => none, fun _ => none, fun _ => none⟩

section Tick

variable (w : World) (i : Tick)

/-- A round of the stale streaks in a map of their own. -/
def staleRound (c : String → Option ℕ) : (String → Option ℕ) × List Placement :=
  Streak.pass Placement.target (fun p => (staleNow w i).contains p.target) (fun _ => confirmTicks)
    (retain c (isDesired i)) i.placements

/-- A round of the failover streaks in a map of their own. -/
def failoverRound (c : String → Option ℕ) : (String → Option ℕ) × List Placement :=
  Streak.pass Placement.target (swapWorthy w i)
    (fun p => max p.mount.remountPolicy.failover.confirmTicks 1)
    (retain c (isDesired i)) i.placements

/-- The backoffs count down in a map of their own. -/
def backoffCountdown (c : String → Option ℕ) : String → Option ℕ := fun rest =>
  if isDesired i (backoffTarget rest) then
    (c rest).bind fun n => if 0 < n - 1 then some (n - 1) else none
  else none

/-- The outcome of a request in a map of the backoffs. -/
def backoffRecord (c : String → Option ℕ) (q : MountReq) : String → Option ℕ :=
  Function.update c (q.target ++ "|" ++ q.source)
    (if (mounted w i).contains q.target then none else some mountfailBackoffTicks)

/-- What a tick does to three maps: each depends on itself and on what the tick observes. -/
def Trackers.tick (T : Trackers) : Trackers where
  stale := (staleRound w i T.stale).1
  failover := (failoverRound w i T.failover).1
  backoff := (requests w i).foldl (backoffRecord w i) (backoffCountdown i T.backoff)

/-- No target starts with a prefix. -/
def PlainTargets : Prop := ∀ p ∈ i.placements, Plain p.target

end Tick

/-- One map of counters is three. -/
structure Splits (c : String → Option ℕ) (T : Trackers) : Prop where
  stale : ∀ t, Plain t → c t = T.stale t
  /-- Keys with the first prefix count failover streaks. -/
  failover : ∀ t, c (failoverKey t) = T.failover t
  /-- Keys with the second prefix count backoffs. -/
  backoff : ∀ rest, c (backoffKey rest) = T.backoff rest

variable {w : World} {i : Tick} {T : Trackers}

/-- The stale streaks touch plain keys only. -/
lemma staleStreaks_of_not_plain (hplain : PlainTargets i) {k : String} (hk : ¬Plain k) :
    (staleStreaks w i).1 k = w.counters k := by
  have hkept : keepStaleCounterKey i k = true := by
    rw [Plain, not_and_or, Bool.not_eq_false, Bool.not_eq_false] at hk
    rw [keepStaleCounterKey, Bool.or_eq_true, Bool.or_eq_true]
    exact Or.inl hk
  have hne : ∀ p ∈ i.placements, p.target ≠ k := by
    rintro p hp rfl
    exact hk (hplain p hp)
  rw [staleStreaks, Streak.pass_of_forall_ne hne, retain, if_pos hkept]

lemma staleStreaks_eq (hplain : PlainTargets i) (h : Splits w.counters T) :
    (∀ t, Plain t → (staleStreaks w i).1 t = (staleRound w i T.stale).1 t) ∧
      (staleStreaks w i).2 = (staleRound w i T.stale).2 := by
  refine Streak.pass_comp Function.injective_id (fun t ht => ?_) hplain
  have hkeep : keepStaleCounterKey i t = isDesired i t := by
    rw [keepStaleCounterKey, ht.1, ht.2, Bool.false_or, Bool.false_or]
  rw [retain, retain, id, hkeep, h.stale t ht]

lemma countersAtElection_of_ne {k : String} (hk : startsWith "mountfail:" k = false) :
    countersAtElection w i k = (staleStreaks w i).1 k := by
  rw [countersAtElection, tickMountfailBackoff, stripStart_eq_none hk]

lemma not_plain_failoverKey (t : String) : ¬Plain (failoverKey t) := fun h =>
  h.ne_failoverKey t rfl

lemma not_plain_backoffKey (rest : String) : ¬Plain (backoffKey rest) := fun h =>
  h.ne_backoffKey rest rfl

/-- The backoffs in the shared map, as the election finds them. -/
lemma countersAtElection_backoffKey (hplain : PlainTargets i) (h : Splits w.counters T)
    (rest : String) :
    countersAtElection w i (backoffKey rest) = backoffCountdown i T.backoff rest := by
  have hstrip : stripStart "mountfail:" (backoffKey rest) = some rest := stripStart_append _ _
  rw [countersAtElection, tickMountfailBackoff, hstrip]
  dsimp only
  rw [staleStreaks_of_not_plain hplain (not_plain_backoffKey rest), h.backoff]
  rfl

lemma failoverStreaks_of_ne {k : String} (hk : startsWith "failover:" k = false) :
    (failoverStreaks w i).1 k = countersAtElection w i k := by
  have hne : ∀ p ∈ i.placements, failoverKey p.target ≠ k := by
    rintro p _ rfl
    rw [startsWith_failoverKey] at hk
    cases hk
  rw [failoverStreaks, Streak.pass_of_forall_ne hne, retain, if_pos]
  rw [keepFailoverKey, stripStart_eq_none hk]

/-- The failover streaks in the shared map. -/
lemma failoverStreaks_eq (hplain : PlainTargets i) (h : Splits w.counters T) :
    (∀ t, (failoverStreaks w i).1 (failoverKey t) = (failoverRound w i T.failover).1 t) ∧
      (failoverStreaks w i).2 = (failoverRound w i T.failover).2 := by
  have hpass : (∀ t, True →
        (failoverStreaks w i).1 (failoverKey t) = (failoverRound w i T.failover).1 t) ∧
      (failoverStreaks w i).2 = (failoverRound w i T.failover).2 := by
    refine Streak.pass_comp (append_right_injective "failover:") (fun t _ => ?_) fun _ _ => trivial
    have hkeep : keepFailoverKey i (failoverKey t) = isDesired i t := by
      rw [keepFailoverKey, failoverKey, stripStart_append]
    have hcounter : countersAtElection w i (failoverKey t) = T.failover t := by
      rw [countersAtElection_of_ne (startsWith_mountfail_failoverKey t),
        staleStreaks_of_not_plain hplain (not_plain_failoverKey t), h.failover]
    show retain _ _ (failoverKey t) = _
    rw [retain, retain, hkeep, hcounter]
  exact ⟨fun t => hpass.1 t trivial, hpass.2⟩

/-- Recording an outcome touches the backoff of its target and source only. -/
lemma recordOutcome_of_ne {c : String → Option ℕ} {q : MountReq} {k : String}
    (hk : ∀ rest, k ≠ backoffKey rest) : recordOutcome w i c q k = c k := by
  have hne : k ≠ mountfailKey q.target q.source := by
    rw [mountfailKey_eq]
    exact hk _
  unfold recordOutcome
  split
  · exact Function.update_of_ne hne _ _
  · exact Function.update_of_ne hne _ _

/-- Recording an outcome in the shared map. -/
lemma recordOutcome_backoffKey {c c' : String → Option ℕ}
    (h : ∀ rest, c (backoffKey rest) = c' rest) (q : MountReq) (rest : String) :
    recordOutcome w i c q (backoffKey rest) = backoffRecord w i c' q rest := by
  have hupdate : recordOutcome w i c q =
      Function.update c (backoffKey (q.target ++ "|" ++ q.source))
      (if (mounted w i).contains q.target then none else some mountfailBackoffTicks) := by
    rw [recordOutcome, mountfailKey_eq]
    split <;> rfl
  rw [hupdate, backoffRecord]
  by_cases hrest : rest = q.target ++ "|" ++ q.source
  · rw [hrest, Function.update_self, Function.update_self]
  · have hne : backoffKey rest ≠ backoffKey (q.target ++ "|" ++ q.source) := fun heq =>
      hrest (append_right_injective "mountfail:" heq)
    rw [Function.update_of_ne hne, Function.update_of_ne hrest, h]

lemma countersAfter_of_ne {k : String} (hk : ∀ rest, k ≠ backoffKey rest) :
    countersAfter w i k = (failoverStreaks w i).1 k := by
  refine Invariant.foldl_invariant
    (I := fun c : String → Option ℕ => c k = (failoverStreaks w i).1 k) (fun q _ c hc => ?_) rfl
  rw [recordOutcome_of_ne hk, hc]

lemma foldl_recordOutcome {qs : List MountReq} {c c' : String → Option ℕ}
    (h : ∀ rest, c (backoffKey rest) = c' rest) (rest : String) :
    qs.foldl (recordOutcome w i) c (backoffKey rest) = qs.foldl (backoffRecord w i) c' rest := by
  induction qs generalizing c c' with
  | nil => exact h rest
  | cons q qs ih => exact ih (recordOutcome_backoffKey h q)

/-- **One map of counters is three**: a tick whose targets have no prefix does to the shared map
what it does to three maps of their own. -/
theorem splits_step (hplain : PlainTargets i) (h : Splits w.counters T) :
    Splits (countersAfter w i) (T.tick w i) where
  stale := by
    intro t ht
    rw [countersAfter_of_ne ht.ne_backoffKey, failoverStreaks_of_ne ht.1,
      countersAtElection_of_ne ht.2]
    exact (staleStreaks_eq hplain h).1 t ht
  failover := by
    intro t
    rw [countersAfter_of_ne (failoverKey_ne_backoffKey t)]
    exact (failoverStreaks_eq hplain h).1 t
  backoff := by
    intro rest
    refine foldl_recordOutcome (fun rest => ?_) rest
    rw [failoverStreaks_of_ne (startsWith_failover_backoffKey rest)]
    exact countersAtElection_backoffKey hplain h rest

/-! ## What the counters mean -/

/-- A tick and the state it starts from. -/
abbrev Round : Type := World × Tick

/-- The target is desired and found stale in the round. -/
def StaleIn (t : String) (r : Round) : Prop :=
  ∃ p ∈ r.2.placements, p.target = t ∧ presence r.1 p = .stale

/-- The target is confirmed stale in the round. -/
def StaleConfirmedIn (t : String) (r : Round) : Prop :=
  ∃ p ∈ (staleStreaks r.1 r.2).2, p.target = t

/-- The target is desired, found healthy and worth a swap in the round, by its election and the
source mounted. -/
def SwapIn (t : String) (r : Round) : Prop :=
  ∃ p ∈ r.2.placements, p.target = t ∧ presence r.1 p = .healthy ∧
    shouldSwap p.mount (signal r.1 r.2 t false) = true

/-- A swap of the target is confirmed in the round. -/
def SwapConfirmedIn (t : String) (r : Round) : Prop :=
  ∃ p ∈ (failoverStreaks r.1 r.2).2, p.target = t

/-- The tick counts what it is meant to count. -/
structure CountsRight (w : World) (i : Tick) : Prop where
  /-- No target starts with a prefix. -/
  plain : PlainTargets i
  /-- A target that counts has one placement. -/
  alone : ∀ p ∈ i.placements, (staleNow w i).contains p.target = true ∨ swapWorthy w i p = true →
    i.placements.filter (fun p' => p'.target = p.target) = [p]
  /-- A target that is stale is not counted as worth a swap. -/
  ridden : ∀ p ∈ i.placements, (staleNow w i).contains p.target = true → swapWorthy w i p = false

/-- What the counters say of the rounds so far. -/
structure Meaning (T : Trackers) (rounds : List Round) : Prop where
  stale : ∀ t, Streak.Lasted (StaleIn t) (StaleConfirmedIn t) ((T.stale t).getD 0) rounds
  failover : ∀ t, Streak.Lasted (SwapIn t) (SwapConfirmedIn t) ((T.failover t).getD 0) rounds

lemma isDesired_iff {t : String} : isDesired i t = true ↔ ∃ p ∈ i.placements, p.target = t := by
  simp [isDesired]

lemma staleIn_of_contains {t : String} (h : (staleNow w i).contains t = true) :
    StaleIn t (w, i) := by
  obtain ⟨p, hp, rfl⟩ := List.mem_map.mp (List.contains_iff_mem.mp h)
  exact ⟨p, (List.mem_filter.mp hp).1, rfl, by simpa using (List.mem_filter.mp hp).2⟩

lemma contains_of_presence {p : Placement} (hp : p ∈ i.placements) (h : presence w p = .stale) :
    (staleNow w i).contains p.target = true :=
  List.contains_iff_mem.mpr (List.mem_map.mpr ⟨p, List.mem_filter.mpr ⟨hp, by simp [h]⟩, rfl⟩)

lemma eq_of_alone {p p' : Placement}
    (halone : i.placements.filter (fun p' => p'.target = p.target) = [p])
    (hp' : p' ∈ i.placements) (htarget : p'.target = p.target) : p' = p := by
  have hmem : p' ∈ i.placements.filter fun p' => p'.target = p.target :=
    List.mem_filter.mpr ⟨hp', decide_eq_true htarget⟩
  rw [halone] at hmem
  exact List.mem_singleton.mp hmem

/-- What is counted as worth a swap is found healthy. -/
lemma swapIn_of_swapWorthy (hcounts : CountsRight w i) {p : Placement} (hp : p ∈ i.placements)
    (h : swapWorthy w i p = true) : presence w p = .healthy ∧ SwapIn p.target (w, i) := by
  have halone := hcounts.alone p hp (Or.inr h)
  have hboth := h
  rw [swapWorthy, Bool.and_eq_true, List.contains_iff_mem] at hboth
  have hpresence : presence w p = .healthy := by
    rcases List.mem_append.mp hboth.1 with hmem | hmem
    · obtain ⟨p', hp', htarget⟩ := List.mem_map.mp hmem
      obtain rfl := eq_of_alone halone (List.mem_filter.mp hp').1 htarget
      simpa using (List.mem_filter.mp hp').2
    · -- a stale target that is taken for healthy is not counted
      have hstale := (List.mem_filter.mp hmem).2
      rw [Bool.and_eq_true] at hstale
      rw [hcounts.ridden p hp hstale.1] at h
      cases h
  exact ⟨hpresence, p, hp, rfl, hpresence, hboth.2⟩

lemma pass_of_not_desired {holds : Placement → Bool} {threshold : Placement → ℕ}
    {c : String → Option ℕ} {t : String} (h : ¬isDesired i t = true) :
    (Streak.pass Placement.target holds threshold (retain c (isDesired i)) i.placements).1 t =
      none := by
  have hne : ∀ p ∈ i.placements, p.target ≠ t := fun p hp heq => h (isDesired_iff.mpr ⟨p, hp, heq⟩)
  rw [Streak.pass_of_forall_ne hne, retain, if_neg h]

section Rounds

variable {holds : Placement → Bool} {threshold : Placement → ℕ} {c : String → Option ℕ}
  {signal confirmed : Round → Prop} {rounds : List Round}

/-- A counter of a target keeps its meaning through a round of the placements. -/
lemma lasted_round {t : String}
    (halone : ∀ p ∈ i.placements, holds p = true →
      i.placements.filter (fun p' => p'.target = p.target) = [p])
    (hsignal : ∀ p ∈ i.placements, p.target = t → holds p = true → signal (w, i))
    (hconfirmed : confirmed (w, i) → ∃ p ∈ (Streak.pass Placement.target holds threshold
      (retain c (isDesired i)) i.placements).2, p.target = t)
    (h : Streak.Lasted signal confirmed ((c t).getD 0) rounds) :
    Streak.Lasted signal confirmed (((Streak.pass Placement.target holds threshold
      (retain c (isDesired i)) i.placements).1 t).getD 0) ((w, i) :: rounds) := by
  by_cases hdesired : isDesired i t = true
  · have hkept : retain c (isDesired i) t = c t := if_pos hdesired
    exact Streak.lasted_pass (isDesired_iff.mp hdesired) (fun p hp _ => halone p hp) hsignal
      hconfirmed (by rw [hkept]; exact h)
  · rw [pass_of_not_desired hdesired]
    exact Streak.lasted_zero _ _ _

/-- A placement that a round confirms has held for long enough. -/
lemma lasted_of_confirmed {p : Placement} (hp : p ∈ i.placements)
    (halone : i.placements.filter (fun p' => p'.target = p.target) = [p])
    (hmem : p ∈ (Streak.pass Placement.target holds threshold (retain c (isDesired i))
      i.placements).2)
    (h : Streak.Lasted signal confirmed ((c p.target).getD 0) rounds) :
    Streak.Lasted signal confirmed (threshold p - 1) rounds := by
  have hle := Streak.le_of_mem_pass halone hmem
  have hkept : retain c (isDesired i) p.target = c p.target :=
    if_pos (isDesired_iff.mpr ⟨p, hp, rfl⟩)
  rw [hkept] at hle
  exact Streak.lasted_mono (Nat.sub_le_of_le_add hle) h

end Rounds

/-- The counters keep their meaning through a tick that counts what it is meant to count. -/
lemma meaning_tick (hcounts : CountsRight w i) (hsplits : Splits w.counters T) {rounds : List Round}
    (h : Meaning T rounds) : Meaning (T.tick w i) ((w, i) :: rounds) := by
  constructor
  · intro t
    refine lasted_round (fun p hp hstale => hcounts.alone p hp (Or.inl hstale)) ?_ ?_ (h.stale t)
    · rintro p _ rfl hstale
      exact staleIn_of_contains hstale
    · intro hconfirmed
      rw [StaleConfirmedIn, (staleStreaks_eq hcounts.plain hsplits).2] at hconfirmed
      exact hconfirmed
  · intro t
    refine lasted_round (fun p hp hswap => hcounts.alone p hp (Or.inr hswap)) ?_ ?_ (h.failover t)
    · rintro p hp rfl hswap
      exact (swapIn_of_swapWorthy hcounts hp hswap).2
    · intro hconfirmed
      rw [SwapConfirmedIn, (failoverStreaks_eq hcounts.plain hsplits).2] at hconfirmed
      exact hconfirmed

/-! ## Releases -/

/-- The swap of a placement is justified by the tick and the rounds before it. -/
structure SwapJustified (rounds : List Round) (w : World) (i : Tick) (p : Placement) : Prop where
  enabled : p.mount.remountPolicy.failover.enabled = true
  /-- The swap is worthwhile in this tick. -/
  worthwhile : SwapIn p.target (w, i)
  /-- It was in the ticks before, as many as the policy asks for with this one, and none of them has
  confirmed a swap. -/
  lasted : Streak.Lasted (SwapIn p.target) (SwapConfirmedIn p.target)
    (max p.mount.remountPolicy.failover.confirmTicks 1 - 1) rounds
  /-- A fail-back is allowed by the policy. -/
  failBack : ∀ source, transition p.mount.sources (activeAt (seen w i) p.target)
    ((electedFor w i p.target).getD .empty) = .failBack source →
      p.mount.remountPolicy.failover.returnToPrimary = true
  /-- The mount is not held under the policy `safe`. -/
  idle : ¬(p.mount.remountPolicy.aggression = .safe ∧ p.busySwap = true)

/-- Every release of the tick for a swap, or of a stale mount, is confirmed. -/
structure ConfirmedReleases (rounds : List Round) (w : World) (i : Tick) : Prop where
  /-- A healthy mount is released for a swap only if that is justified. -/
  swap : ∀ p ∈ i.placements, presence w p = .healthy → p.target ∈ handed w i →
    swapDue w i p = true → SwapJustified rounds w i p
  /-- A stale mount is released only if it was stale in the ticks before, as many as it takes with
  this one. -/
  stale : ∀ p ∈ i.placements, presence w p = .stale → p.target ∈ handed w i →
    Streak.Lasted (StaleIn p.target) (StaleConfirmedIn p.target) (confirmTicks - 1) rounds

/-- The shared counters are three maps of counters, and the decisions of the tick are taken as they
are on these. -/
structure Unmixed (w : World) (i : Tick) (T : Trackers) : Prop where
  splits : Splits w.counters T
  stale : (staleStreaks w i).2 = (staleRound w i T.stale).2
  failover : (failoverStreaks w i).2 = (failoverRound w i T.failover).2
  /-- Which sources are backed off at the election. -/
  backoff : ∀ t s, countersAtElection w i (mountfailKey t s) =
    backoffCountdown i T.backoff (t ++ "|" ++ s)

/-- A swap that is due was confirmed for the placement itself. -/
lemma mem_failoverStreaks_of_swapDue (hcounts : CountsRight w i) {p : Placement}
    (hp : p ∈ i.placements) (h : swapDue w i p = true) :
    p ∈ (failoverStreaks w i).2 ∧ swapWorthy w i p = true ∧
      shouldSwap p.mount (signal w i p.target p.busySwap) = true := by
  obtain ⟨sig, _, hsig, hswap, _, _⟩ := active_of_swapDue h
  obtain ⟨p', hp', rfl⟩ := Option.map_eq_some_iff.mp hsig
  obtain ⟨hmem, htarget⟩ := List.mem_filter.mp (List.mem_of_getLast? hp')
  obtain ⟨hplacement, hworthy⟩ := Streak.of_mem_pass hmem
  have htarget' : p'.target = p.target := of_decide_eq_true htarget
  obtain rfl := eq_of_alone (hcounts.alone p' hplacement (Or.inr hworthy)) hp htarget'.symm
  exact ⟨hmem, hworthy, hswap⟩

/-- A healthy mount that is swapped is justified in being swapped. -/
lemma swapJustified (hcounts : CountsRight w i) (hsplits : Splits w.counters T)
    {rounds : List Round} (h : Meaning T rounds) {p : Placement} (hp : p ∈ i.placements)
    (hswap : swapDue w i p = true) :
    SwapJustified rounds w i p := by
  obtain ⟨hmem, hworthy, hdue⟩ := mem_failoverStreaks_of_swapDue hcounts hp hswap
  obtain ⟨henabled, hcandidate, -, hidle⟩ := shouldSwap_iff.mp hdue
  refine ⟨henabled, (swapIn_of_swapWorthy hcounts hp hworthy).2, ?_, fun source hback => ?_, hidle⟩
  · rw [(failoverStreaks_eq hcounts.plain hsplits).2] at hmem
    exact lasted_of_confirmed hp (hcounts.alone p hp (Or.inr hworthy)) hmem (h.failover p.target)
  · rw [swapCandidate] at hcandidate
    dsimp only [signal] at hcandidate
    rw [hback] at hcandidate
    exact hcandidate

/-- A stale mount that is released was confirmed stale. -/
lemma mem_staleStreaks_of_handed (hcounts : CountsRight w i) {p : Placement}
    (hp : p ∈ i.placements) (hpresence : presence w p = .stale)
    (hhanded : p.target ∈ handed w i) : p ∈ (staleStreaks w i).2 := by
  have hstale : (staleNow w i).contains p.target = true := contains_of_presence hp hpresence
  have halone := hcounts.alone p hp (Or.inl hstale)
  rcases mem_handed_iff.mp hhanded with ⟨p', hp', hpaired, htarget⟩ | hremoved
  · obtain rfl := eq_of_alone halone hp' htarget
    rw [paired, releaseDue, Bool.and_eq_true, Bool.and_eq_true, Bool.or_eq_true,
      Bool.or_eq_true] at hpaired
    obtain ⟨⟨_, (hunhealthy | hswap) | hdrift⟩, _⟩ := hpaired
    · -- a stale target is taken for healthy unless it is confirmed
      by_contra hnot
      have hunconfirmed : (confirmedStale w i).contains p'.target = false := by
        rw [Bool.eq_false_iff]
        intro hmem
        obtain ⟨q, hq, htarget⟩ := List.mem_map.mp (List.contains_iff_mem.mp hmem)
        exact hnot (eq_of_alone halone (Streak.of_mem_pass hq).1 htarget ▸ hq)
      have hhealthy : p'.target ∈ healthy w i := by
        refine List.mem_append_right _ (List.mem_filter.mpr ⟨List.mem_map_of_mem hp', ?_⟩)
        rw [hstale, hunconfirmed]
        rfl
      simp [hhealthy] at hunhealthy
    · obtain ⟨_, hworthy, _⟩ := mem_failoverStreaks_of_swapDue hcounts hp' hswap
      rw [hcounts.ridden p' hp' hstale] at hworthy
      cases hworthy
    · obtain ⟨q, hq, htarget⟩ := List.mem_map.mp (List.contains_iff_mem.mp hdrift)
      obtain ⟨hq, hdue⟩ := List.mem_filter.mp hq
      obtain ⟨last, hlast, hlastmem, hlasttarget⟩ := exists_lastFor hq
      obtain rfl := eq_of_alone halone hlastmem (hlasttarget.trans htarget)
      rw [driftDue, Bool.and_eq_true, Bool.and_eq_true, Bool.and_eq_true, hlast] at hdue
      have hhealthy := of_decide_eq_true hdue.1.1.1
      rw [Option.map_some, hpresence] at hhealthy
      cases hhealthy
  · exact absurd hremoved (not_mem_removed hp)

lemma staleJustified (hcounts : CountsRight w i) (hsplits : Splits w.counters T)
    {rounds : List Round} (h : Meaning T rounds) {p : Placement} (hp : p ∈ i.placements)
    (hpresence : presence w p = .stale) (hhanded : p.target ∈ handed w i) :
    Streak.Lasted (StaleIn p.target) (StaleConfirmedIn p.target) (confirmTicks - 1) rounds := by
  have hstale : (staleNow w i).contains p.target = true := contains_of_presence hp hpresence
  have hconfirmed := mem_staleStreaks_of_handed hcounts hp hpresence hhanded
  rw [(staleStreaks_eq hcounts.plain hsplits).2] at hconfirmed
  exact lasted_of_confirmed hp (hcounts.alone p hp (Or.inl hstale)) hconfirmed (h.stale p.target)

/-! ## Runs -/

/-- A run with its ticks, newest first, and with three maps of counters beside the shared one. -/
structure Observed where
  world : World
  /-- The ticks so far, each with the state it started from. -/
  rounds : List Round
  trackers : Trackers

/-- What an event does to an observed run; a restart loses all counters. -/
def observe (o : Observed) (e : Event) : Observed where
  world := step o.world e
  rounds :=
    match e with
    | .tick i => (o.world, i) :: o.rounds
    | .outside _ | .restart => o.rounds
  trackers :=
    match e with
    | .tick i => o.trackers.tick o.world i
    | .outside _ => o.trackers
    | .restart => .empty

/-- An observed run on a host on which the loop has never run. -/
def observed (table : List Mount) : Observed := ⟨initial table, [], .empty⟩

/-- A statement about the ticks of an observed run. -/
def OnRound (P : Observed → Tick → Prop) (o : Observed) : Event → Prop
  | .tick i => P o i
  | .outside _ => True
  | .restart => True

/-- The shared map is the three maps, and these mean what they should. -/
structure StreakInvariant (o : Observed) : Prop where
  splits : Splits o.world.counters o.trackers
  meaning : Meaning o.trackers o.rounds

/-- No counters are three maps without counters, and mean nothing. -/
lemma streakInvariant_of_empty {w : World} (rounds : List Round) (h : w.counters = fun _ => none) :
    StreakInvariant ⟨w, rounds, .empty⟩ := by
  refine ⟨⟨fun t _ => ?_, fun t => ?_, fun rest => ?_⟩,
    ⟨fun t => Streak.lasted_zero _ _ _, fun t => Streak.lasted_zero _ _ _⟩⟩ <;>
  · dsimp only
    rw [h]
    rfl

/-- Every event keeps the invariant, if its tick counts what it is meant to count. -/
lemma streakInvariant_observe {o : Observed} {e : Event} (h : StreakInvariant o)
    (he : OnRound (fun o i => CountsRight o.world i) o e) : StreakInvariant (observe o e) := by
  cases e with
  | tick i => exact ⟨splits_step he.plain h.splits, meaning_tick he h.splits h.meaning⟩
  | outside table => exact ⟨h.splits, h.meaning⟩
  | restart => exact streakInvariant_of_empty o.rounds rfl

/-- **Only confirmed and idle mounts are released**, and the streaks and backoffs do not mix, in a
run in which no target starts with a prefix of the counters, a target that counts has one placement,
and a stale target is never counted as worth a swap. -/
theorem confirmed_releases (table : List Mount) (events : List Event)
    (h : Invariant.Along observe (OnRound fun o i => CountsRight o.world i)
      (observed table) events) :
    Invariant.Along observe
      (OnRound fun o i => ConfirmedReleases o.rounds o.world i ∧ Unmixed o.world i o.trackers)
      (observed table) events := by
  refine Invariant.along_of_invariant (I := StreakInvariant) (fun o e ho he => ?_)
    (fun o e ho he => ?_) (streakInvariant_of_empty [] rfl) h
  · exact streakInvariant_observe ho he
  · cases e with
    | tick i =>
      have hcounts : CountsRight o.world i := he
      refine ⟨⟨fun p hp _ _ hswap => ?_, fun p hp hstale hhanded => ?_⟩,
        ⟨ho.splits, ?_, ?_, fun t s => ?_⟩⟩
      · exact swapJustified hcounts ho.splits ho.meaning hp hswap
      · exact staleJustified hcounts ho.splits ho.meaning hp hstale hhanded
      · exact (staleStreaks_eq hcounts.plain ho.splits).2
      · exact (failoverStreaks_eq hcounts.plain ho.splits).2
      · rw [mountfailKey_eq]
        exact countersAtElection_backoffKey hcounts.plain ho.splits _
    | outside others => trivial
    | restart => trivial

/-! ## A stale mount taken for healthy -/

/-- A share with two sources, of which those that are `live` answer. -/
def twoSources (health : MountHealth) (live : ℕ → Bool) : Placement :=
  { nasPlacement "/mnt/data" health with
    mount := { nasMount "/mnt/data" with sources := ["nas:/data", "spare:/data"] }
    live := live }

/-- The share is mounted and found healthy. -/
def healthyEvents : List Event :=
  [.tick (smoothTick (twoSources .missing fun _ => true)),
    .tick (smoothTick (twoSources .ok fun _ => true))]

/-- The theorem at a run in which the share is mounted and stays healthy. -/
theorem confirmed_releases_sample :
    Invariant.Along observe
      (OnRound fun o i => ConfirmedReleases o.rounds o.world i ∧ Unmixed o.world i o.trackers)
      (observed []) healthyEvents := by
  have hdata : Plain "/mnt/data" := ⟨by decide +kernel, by decide +kernel⟩
  have hplain : ∀ health, PlainTargets (smoothTick (twoSources health fun _ => true)) := by
    intro health p hp
    rw [List.mem_singleton.mp hp]
    exact hdata
  have halone : ∀ health, ∀ p ∈ (smoothTick (twoSources health fun _ => true)).placements,
      (smoothTick (twoSources health fun _ => true)).placements.filter
        (fun p' => p'.target = p.target) = [p] := by
    intro health p hp
    rw [List.mem_singleton.mp hp]
    rfl
  refine confirmed_releases [] healthyEvents
    ⟨⟨hplain _, fun p hp _ => halone _ p hp, fun p hp _ => ?_⟩,
      ⟨hplain _, fun p hp _ => halone _ p hp, fun p hp _ => ?_⟩, trivial⟩
  · rw [List.mem_singleton.mp hp]
    decide +kernel
  · rw [List.mem_singleton.mp hp]
    decide +kernel

/-- The first source stops answering; the mount is found healthy once and then stale. -/
def riddenEvents : List Event :=
  [.tick (smoothTick (twoSources .missing fun _ => true)),
    .tick (smoothTick (twoSources .ok (· = 1))),
    .tick (smoothTick (twoSources .stale (· = 1)))]

/-- The host before the last tick. -/
def riddenWorld : World := run (initial []) (riddenEvents.take 2)

/-- The mount is released in the first tick that finds it stale. -/
theorem stale_released_early :
    ¬(∀ (table : List Mount) (events : List Event),
        Invariant.Along observe
          (OnRound fun o i => ConfirmedReleases o.rounds o.world i ∧ Unmixed o.world i o.trackers)
          (observed table) events) ∧
      handed riddenWorld (smoothTick (twoSources .stale (· = 1))) = ["/mnt/data"] ∧
        presence riddenWorld (twoSources .stale (· = 1)) = .stale := by
  have hhanded : handed riddenWorld (smoothTick (twoSources .stale (· = 1))) = ["/mnt/data"] := by
    decide +kernel
  have hstale : presence riddenWorld (twoSources .stale (· = 1)) = .stale := by decide +kernel
  refine ⟨fun hall => ?_, hhanded, hstale⟩
  have hlast : ConfirmedReleases
      [(run (initial []) (riddenEvents.take 1), smoothTick (twoSources .ok (· = 1))),
        (initial [], smoothTick (twoSources .missing fun _ => true))]
      riddenWorld (smoothTick (twoSources .stale (· = 1))) := (hall [] riddenEvents).2.2.1.1
  obtain ⟨-, hbefore⟩ := hlast.stale _ (List.mem_singleton_self _) hstale (by simp [hhanded]; rfl)
  obtain ⟨⟨p, hp, -, hpresence⟩, -⟩ := hbefore _ List.mem_cons_self
  obtain rfl := List.mem_singleton.mp hp
  revert hpresence
  decide +kernel

end Orca.Mounts
