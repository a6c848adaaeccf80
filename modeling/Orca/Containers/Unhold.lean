import Orca.Containers.Breaker

/-!
# What an unhold leaves behind

`unhold` empties the window of a held record and keeps two of its fields: the restart count that
docker's restarts are counted from, and the time of the last start.  While the container is held
neither is refreshed, so that the next `arm` counts the restarts of the whole hold as if they had
just happened, and still takes the last start before the hold for a recent one.

`arm_after_unhold_iff` says exactly when the container may start again.  What happens between the
`unhold` and the `arm` does not matter, as long as it is not an `arm` of the container
(`cleared_step`), or the record is dropped (`forgotten_step`).
-/

namespace Orca.Containers.Breaker

variable {key : RecordKey} {store store' : BreakerStore} {record cleared r : BreakerRecord}
  {req : ArmRequest}

/-! ## The next `arm` -/

/-- Docker restarted the container more often than it may since the record last counted. -/
def StormSince (record : BreakerRecord) (restartCount : Nat) : Prop :=
  ∃ baseline ∈ record.restartCountSnapshot, dockerRestartThreshold < restartCount - baseline

instance (record : BreakerRecord) (restartCount : Nat) :
    Decidable (StormSince record restartCount) :=
  inferInstanceAs (Decidable (∃ baseline ∈ record.restartCountSnapshot, _))

/-- The container is seen to have failed soon after the last start in the record. -/
def FailedSince (record : BreakerRecord) (c : Container) (now : Timestamp) : Prop :=
  ∃ start ∈ record.lastOrcaStartAt, ∃ code ∈ c.exitCode, c.state = .exited ∧ code ≠ 0 ∧
    0 ≤ now.unixSeconds - start.unixSeconds ∧
    now.unixSeconds - start.unixSeconds ≤ fastReexitWithin

instance (record : BreakerRecord) (c : Container) (now : Timestamp) :
    Decidable (FailedSince record c now) :=
  inferInstanceAs (Decidable (∃ start ∈ record.lastOrcaStartAt, ∃ code ∈ c.exitCode, _))

/-- What an `unhold` makes of a record, and what is left of it when it is notified: not held, with
an empty window, and with the old baseline and the old start. -/
structure Cleared (record r : BreakerRecord) : Prop where
  status : r.status = .watching
  starts : r.recentStarts = []
  /-- The baseline is the one before the hold. -/
  baseline : r.restartCountSnapshot = record.restartCountSnapshot
  /-- The last start is the one before the hold. -/
  lastStart : r.lastOrcaStartAt = record.lastOrcaStartAt

/-- The window after an observation, if it was empty before. -/
lemma length_foldDocker (h : r.recentStarts = []) (c : Container) (now : Timestamp) :
    (foldDocker r c now).recentStarts.length =
      min (c.restartCount - r.restartCountSnapshot.getD c.restartCount) 1024 := by
  unfold foldDocker
  cases hsnapshot : r.restartCountSnapshot with
  | none =>
    dsimp only [Option.getD_none]
    rw [h, Nat.sub_self]
    rfl
  | some baseline =>
    dsimp only [Option.getD_some]
    split
    · rw [h, List.nil_append, List.length_replicate]
    · rename_i hle
      rw [h, Nat.sub_eq_zero_of_le (Nat.le_of_not_lt hle)]
      rfl

/-- A record that is fresh or cleared trips on a storm that the baseline does not cover, or on a
failure soon after its last start. -/
lemma classifyDocker_isNone_iff (h : r.recentStarts = []) (c : Container) (now : Timestamp) :
    classifyDocker (foldDocker r c now) c now = none ↔
      ¬StormSince r c.restartCount ∧ ¬FailedSince r c now := by
  have hstart : (foldDocker r c now).lastOrcaStartAt = r.lastOrcaStartAt := by
    unfold foldDocker
    split
    · rfl
    · split <;> rfl
  have hstorm : dockerRestartThreshold < (foldDocker r c now).recentStarts.length ↔
      StormSince r c.restartCount := by
    rw [length_foldDocker h]
    unfold StormSince dockerRestartThreshold
    cases r.restartCountSnapshot with
    | none => simp
    | some baseline => simp
  unfold classifyDocker
  rw [hstart]
  by_cases hmany : StormSince r c.restartCount
  · rw [if_pos (hstorm.mpr hmany)]
    exact iff_of_false (Option.some_ne_none _) fun hnot => hnot.1 hmany
  · rw [if_neg (hstorm.not.mpr hmany)]
    unfold FailedSince
    cases r.lastOrcaStartAt with
    | none => simp [hmany]
    | some start =>
      cases c.exitCode with
      | none => simp [hmany]
      | some code => simp [hmany]

/-- A record that is not held and has an empty window lets a docker container start if and only if
there was no storm since its baseline, and no failure since its last start. -/
lemma armRecord_proceed_iff (hdocker : req.container.runtime = .docker)
    (hstatus : r.status ≠ .held) (hstarts : r.recentStarts = []) :
    (armRecord req r).2 = .proceed ↔ ¬StormSince r req.container.restartCount ∧
      ¬FailedSince r req.container req.now := by
  have hpruned : r.pruneWindow req.now = r := by
    unfold BreakerRecord.pruneWindow
    rw [hstarts]
    exact congrArg (fun starts => { r with recentStarts := starts }) hstarts.symm
  rw [armRecord_of_not_held req fun hheld => absurd hheld hstatus,
    ← classifyDocker_isNone_iff hstarts req.container req.now]
  have hfold : ∀ obs, foldObservation r req.container obs req.now =
      foldDocker r req.container req.now := by
    intro obs
    unfold foldObservation
    rw [hdocker]
  have hclassify : ∀ r obs, classify r req.container obs req.now =
      classifyDocker r req.container req.now := by
    intro r obs
    unfold classify
    rw [hdocker]
  unfold judge
  dsimp only
  rw [hpruned, hfold, hclassify]
  cases classifyDocker (foldDocker r req.container req.now) req.container req.now with
  | none => exact iff_of_true rfl rfl
  | some reason => exact iff_of_false (fun h => by cases h) (Option.some_ne_none _)

/-! ## From the `unhold` to the next `arm` -/

/-- The call is an `arm` of the container. -/
def Action.arms (key : RecordKey) : Action → Bool
  | .arm req => req.container.key == key
  | _ => false

/-- The call drops the record of the container, unless it is held. -/
def Action.forgets (key : RecordKey) : Action → Bool
  | .retainActive liveKeys => !liveKeys.contains key
  | _ => false

/-- After an `unhold` the record is cleared. -/
lemma cleared_unhold (hfind : store.find key = some record)
    (h : unhold key store = .ok (store', cleared)) :
    ∃ r, store'.find key = some r ∧ Cleared record r := by
  unfold unhold at h
  rw [hfind] at h
  dsimp only at h
  split at h
  · cases h
  · obtain ⟨rfl, -⟩ := Prod.mk.inj (Except.ok.inj h)
    refine ⟨_, (find_save _ store key).trans (if_pos ?_), rfl, rfl, rfl, rfl⟩
    exact (KeyedTable.key_of_find hfind).symm

/-- A cleared record stays cleared until the container is armed or the record is dropped. -/
lemma cleared_step {a : Action} (harms : a.arms key = false) (hforgets : a.forgets key = false)
    (h : ∃ r, store.find key = some r ∧ Cleared record r) :
    ∃ r, (step store a).find key = some r ∧ Cleared record r := by
  obtain ⟨r, hfind, hcleared⟩ := h
  have hkey : r.key = key := KeyedTable.key_of_find hfind
  cases a with
  | arm req =>
    have hne : key ≠ req.container.key := fun heq => by simp [Action.arms, heq] at harms
    exact ⟨r, (find_arm req store key).trans ((if_neg hne).trans hfind), hcleared⟩
  | markNotified key' now =>
    dsimp only [step, markNotified]
    cases hfind' : store.find key' with
    | none => exact ⟨r, hfind, hcleared⟩
    | some other =>
      by_cases hsame : key = other.key
      · have hother : key' = key := (KeyedTable.key_of_find hfind').symm.trans hsame.symm
        rw [hother, hfind] at hfind'
        obtain rfl := Option.some.inj hfind'
        exact ⟨_, (find_save _ store key).trans (if_pos hsame), hcleared.status, hcleared.starts,
          hcleared.baseline, hcleared.lastStart⟩
      · exact ⟨r, (find_save _ store key).trans ((if_neg hsame).trans hfind), hcleared⟩
  | unhold key' =>
    dsimp only [step, unhold]
    cases hfind' : store.find key' with
    | none => exact ⟨r, hfind, hcleared⟩
    | some other =>
      dsimp only
      split
      · exact ⟨r, hfind, hcleared⟩
      · rename_i hheld
        -- only a held record is saved, which the cleared one is not
        have hne : key ≠ other.key := by
          rintro rfl
          rw [← KeyedTable.key_of_find hfind', hfind] at hfind'
          obtain rfl := Option.some.inj hfind'
          rw [hcleared.status] at hheld
          exact hheld (by decide)
        exact ⟨r, (find_save _ store key).trans ((if_neg hne).trans hfind), hcleared⟩
  | retainActive liveKeys =>
    have hlive : liveKeys.contains r.key = true := by
      rw [hkey]
      simpa [Action.forgets] using hforgets
    refine ⟨r, ?_, hcleared⟩
    dsimp only [step, retainActive]
    rw [KeyedTable.find_filter, hfind, Option.filter_some, hlive, Bool.true_or, if_pos rfl]

/-- A record that is dropped stays away until the container is armed. -/
lemma forgotten_step {a : Action} (harms : a.arms key = false) (h : store.find key = none) :
    (step store a).find key = none := by
  have hother : ∀ {key' : RecordKey} {other : BreakerRecord}, store.find key' = some other →
      key ≠ other.key := by
    rintro key' other hfind rfl
    rw [← KeyedTable.key_of_find hfind, h] at hfind
    cases hfind
  cases a with
  | arm req =>
    have hne : key ≠ req.container.key := fun heq => by simp [Action.arms, heq] at harms
    exact (find_arm req store key).trans ((if_neg hne).trans h)
  | markNotified key' now =>
    dsimp only [step, markNotified]
    cases hfind' : store.find key' with
    | none => exact h
    | some other => exact (find_save _ store key).trans ((if_neg (hother hfind')).trans h)
  | unhold key' =>
    dsimp only [step, unhold]
    cases hfind' : store.find key' with
    | none => exact h
    | some other =>
      dsimp only
      split
      · exact h
      · exact (find_save _ store key).trans ((if_neg (hother hfind')).trans h)
  | retainActive liveKeys =>
    dsimp only [step, retainActive]
    rw [KeyedTable.find_filter, h]
    rfl

/-- A collection without the container drops a record that is cleared. -/
lemma forgotten_of_forgets {a : Action} (hforgets : a.forgets key = true)
    (h : ∃ r, store.find key = some r ∧ Cleared record r) : (step store a).find key = none := by
  obtain ⟨r, hfind, hcleared⟩ := h
  cases a with
  | retainActive liveKeys =>
    have hlive : (liveKeys.contains r.key || isActionable r) = false := by
      rw [KeyedTable.key_of_find hfind, isActionable, hcleared.status, Bool.or_eq_false_iff]
      exact ⟨by simpa [Action.forgets] using hforgets, rfl⟩
    dsimp only [step, retainActive]
    rw [KeyedTable.find_filter, hfind, Option.filter_some, hlive, if_neg Bool.false_ne_true]
  | arm req => cases hforgets
  | markNotified key' now => cases hforgets
  | unhold key' => cases hforgets

/-- Before the next `arm` of the container its record is cleared, or it was dropped. -/
lemma find_between {between : List Action} (hbetween : ∀ a ∈ between, a.arms key = false)
    (h : ∃ r, store.find key = some r ∧ Cleared record r) :
    if between.any (Action.forgets key) then (between.foldl step store).find key = none
    else ∃ r, (between.foldl step store).find key = some r ∧ Cleared record r := by
  induction between generalizing store with
  | nil => exact h
  | cons a rest ih =>
    have hrest : ∀ a ∈ rest, a.arms key = false :=
      fun b hb => hbetween b (List.mem_cons_of_mem a hb)
    have harms := hbetween a List.mem_cons_self
    rw [List.any_cons, List.foldl_cons]
    cases hforgets : a.forgets key with
    | false =>
      rw [Bool.false_or]
      exact ih hrest (cleared_step harms hforgets h)
    | true =>
      rw [Bool.true_or, if_pos rfl]
      exact Invariant.foldl_invariant (I := fun s : BreakerStore => s.find key = none)
        (fun b hb s hs => forgotten_step (hrest b hb) hs) (forgotten_of_forgets hforgets h)

/-- After an `unhold` of a docker container, whatever else happens before its next `arm`, this `arm`
lets the container start if and only if its record was dropped in between, or docker restarted the
container at most three times since the baseline that the held record had, and the container is not
seen to have failed within a minute of the last start in the held record. -/
theorem arm_after_unhold_iff (hdocker : key.runtime = .docker)
    (hfind : store.find key = some record) (hunhold : unhold key store = .ok (store', cleared))
    {between : List Action} (hbetween : ∀ a ∈ between, a.arms key = false)
    (hkey : req.container.key = key) :
    (arm req (between.foldl step store')).2 = .proceed ↔
      between.any (Action.forgets key) = true ∨
        (¬StormSince record req.container.restartCount ∧
          ¬FailedSince record req.container req.now) := by
  have hruntime : req.container.runtime = .docker := by
    rw [← hdocker, ← hkey]
    rfl
  have hnow := find_between hbetween (cleared_unhold hfind hunhold)
  unfold arm loadOrFresh
  rw [hkey]
  dsimp only
  by_cases hforgets : between.any (Action.forgets key) = true
  · rw [if_pos hforgets] at hnow
    rw [hnow, Option.getD_none]
    have hwatching : (BreakerRecord.fresh key).status ≠ .held := fun heq => by cases heq
    have hfresh := armRecord_proceed_iff hruntime hwatching rfl
    refine iff_of_true (hfresh.mpr ⟨?_, ?_⟩) (Or.inl hforgets)
    · rintro ⟨baseline, hbaseline, -⟩
      cases hbaseline
    · rintro ⟨start, hstart, -⟩
      cases hstart
  · rw [if_neg hforgets] at hnow
    obtain ⟨r, hr, hcleared⟩ := hnow
    rw [hr, Option.getD_some, or_iff_right hforgets, armRecord_proceed_iff hruntime
      (by rw [hcleared.status]; decide) hcleared.starts]
    unfold StormSince FailedSince
    rw [hcleared.baseline, hcleared.lastStart]

/-! ## A container that docker restarted while it was held -/

/-- The store when the breaker has just held a container that docker had restarted four times. -/
def heldStore : BreakerStore :=
  (arm ⟨sampleContainer, ⟨none, none⟩, seconds 30, true⟩ sampleStore).1

/-- An `arm` of the container long after the hold, when docker has restarted it so often. -/
def laterArm (restartCount : Nat) : ArmRequest :=
  ⟨{ sampleContainer with restartCount := restartCount }, ⟨none, none⟩, seconds 4000, true⟩

/-- The store after an `unhold` of the container. -/
def unheldStore : BreakerStore := step heldStore (.unhold sampleContainer.key)

/-- Docker has restarted the container ten times when it is unheld, six of them while it was held:
the next `arm` holds it again. -/
theorem restarts_while_held_trip_again :
    (∃ cleared, unhold sampleContainer.key heldStore = .ok (unheldStore, cleared)) ∧
      ∃ reason notified, (arm (laterArm 10) unheldStore).2 = .hold reason notified :=
  ⟨⟨_, rfl⟩, .restartStormIn5Min 6 (seconds 4000), none, by decide⟩

/-- A container that docker did not restart while it was held may start. -/
theorem arm_after_unhold_sample : (arm (laterArm 4) unheldStore).2 = .proceed := by
  have hunhold : ∃ record cleared, heldStore.find sampleContainer.key = some record ∧
      unhold sampleContainer.key heldStore = .ok (unheldStore, cleared) ∧
        ¬StormSince record 4 ∧ ¬FailedSince record (laterArm 4).container (seconds 4000) :=
    ⟨_, _, rfl, rfl, by decide, by decide⟩
  obtain ⟨record, cleared, hfind, hok, hnot⟩ := hunhold
  have hnone : ∀ a ∈ ([] : List Action), a.arms sampleContainer.key = false :=
    fun a ha => absurd ha List.not_mem_nil
  exact (arm_after_unhold_iff rfl hfind hok hnone rfl).mpr (Or.inr hnot)

end Orca.Containers.Breaker
