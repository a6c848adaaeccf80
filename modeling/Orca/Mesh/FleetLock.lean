import Mathlib.Data.List.Pairwise
import Mathlib.Tactic.Linarith
import Orca.Library.Invariant

/-!
# The fleet lock

The model of the lock of `system/src/mesh/fleet_update.rs`: `acquire_fleet_lock`, the guard
`FleetLock` and the runs of `fleet_update` that take it, work and drop their guard.

The lock file is modelled by the record that its text reads back as, so that a text that is no
record is the default record.  The results are about the runs of one controller: as long as no run
drops its guard while another one with a live lock is in flight (`FinishesAlone`), a lock that is
held and not stale refuses every other run.  The drop removes the file whoever wrote it, and
`fleet_lock_dropped_by_former_holder` is what happens then.
-/

namespace Orca

open Invariant

/-! ## Records -/

/-- `FLEET_LOCK_TTL` in seconds. -/
def fleetLockTtl : Int := 90 * 60

/-- `i64::saturating_sub`. -/
def saturatingSub (a b : Int) : Int := max (-2 ^ 63) (min (2 ^ 63 - 1) (a - b))

/-- The functions of `chrono` on timestamps, by their seconds since the epoch. -/
structure TimestampText where
  /-- `Timestamp::to_rfc3339`. -/
  toRfc3339 : Int → String
  /-- `Timestamp::parse_rfc3339`. -/
  parseRfc3339 : String → Option Int

/-- `LockRecord` -/
structure LockRecord where
  host : String
  pid : Option UInt32
  startedAt : String
deriving DecidableEq

/-- The default record, which a text that is none reads as. -/
def LockRecord.default : LockRecord := ⟨"", none, ""⟩

/-- How `std::fs::write` ended. -/
inductive WriteOutcome where
  /-- The file holds the new text. -/
  | written
  /-- It could not be opened and is as it was. -/
  | notOpened
  /-- It was emptied and could not be filled. -/
  | truncated
deriving DecidableEq

section Lock

variable (text : TimestampText)

/-- `lock_is_stale`. -/
def lockIsStale (started : String) (now : Int) : Bool :=
  match text.parseRfc3339 started with
  | none => false
  | some started => fleetLockTtl < saturatingSub now started

/-- `lock_refusal`. -/
def lockRefusal (rec : LockRecord) : String :=
  let host := if rec.host.isEmpty then "unknown" else rec.host
  let started := if rec.startedAt.isEmpty then "unknown time" else rec.startedAt
  let pid := (rec.pid.map fun p => " pid " ++ toString p).getD ""
  "a fleet roll is already in flight (started by " ++ host ++ pid ++ " at " ++ started ++ ") — " ++
    "the fleet must never be updated concurrently, because each run's health gate " ++
    "would be judging a version the other run is changing underneath it. Wait for " ++
    "it, or pass `--break-lock` if that run is genuinely stuck."

/-- The end of `acquire_fleet_lock`: write the record.  A lock that cannot be written is not
taken, and the run goes on without. -/
def writeLock (rec : LockRecord) (file : Option LockRecord) : WriteOutcome →
    Except String Bool × Option LockRecord
  | .written => (.ok true, some rec)
  | .notOpened => (.ok false, file)
  | .truncated => (.ok false, some .default)

/-- `acquire_fleet_lock` on a controller with or without an orca home: whether a guard was taken, or
the refusal, and the lock file after it. -/
def acquireFleetLock (home breakLock : Bool) (now : Int) (host : String) (pid : UInt32)
    (outcome : WriteOutcome) (file : Option LockRecord) :
    Except String Bool × Option LockRecord :=
  if !home then (.ok false, file)
  else
    let mine : LockRecord := ⟨host, some pid, text.toRfc3339 now⟩
    match file with
    | some rec =>
        if !breakLock && !lockIsStale text rec.startedAt now then (.error (lockRefusal rec), file)
        else writeLock mine file outcome
    | none => writeLock mine file outcome

/-! ## Runs of the fleet update -/

/-- A run of `fleet_update` in flight. -/
structure FleetRun where
  id : Nat
  /-- When it took the lock, in seconds since the epoch. -/
  started : Int
  /-- It was told to break a lock. -/
  breakLock : Bool
  locked : Bool
deriving DecidableEq

/-- A controller: its lock file and the runs in flight, oldest first. -/
structure Controller where
  file : Option LockRecord
  runs : List FleetRun
  /-- The last reading of the clock. -/
  clock : Int
deriving DecidableEq

/-- What a run does. -/
inductive FleetAction where
  /-- A run starts and calls `acquire_fleet_lock`. -/
  | acquire (id : Nat) (breakLock : Bool) (now : Int) (host : String) (pid : UInt32)
      (outcome : WriteOutcome)
  /-- A run ends and drops its guard; the file may resist its removal. -/
  | finish (id : Nat) (now : Int) (removed : Bool)

/-- The clock that an action reads. -/
def FleetAction.now : FleetAction → Int
  | acquire _ _ now _ _ _ => now
  | finish _ now _ => now

/-- `Drop for FleetLock`, for the runs that end. -/
def dropLocks (ended : List FleetRun) (removed : Bool) (file : Option LockRecord) :
    Option LockRecord :=
  if ended.any FleetRun.locked && removed then none else file

/-- One action of a run. -/
def fleetStep (home : Bool) (c : Controller) : FleetAction → Controller
  | .acquire id breakLock now host pid outcome =>
      let (result, file) := acquireFleetLock text home breakLock now host pid outcome c.file
      match result with
      | .error _ => { c with file := file, clock := now }
      | .ok locked => ⟨file, c.runs ++ [⟨id, now, breakLock, locked⟩], now⟩
  | .finish id now removed =>
      ⟨dropLocks (c.runs.filter fun r => r.id == id) removed c.file,
        c.runs.filter fun r => r.id != id, now⟩

end Lock

/-! ## One action -/

/-- What the lock relies on: a timestamp that is read back is the one that was written, and an empty
text is none. -/
structure ReadsBack (text : TimestampText) : Prop where
  /-- A timestamp that is read back is the one that was written. -/
  same : ∀ t t', text.parseRfc3339 (text.toRfc3339 t) = some t' → t' = t
  /-- An empty text is no timestamp. -/
  empty : text.parseRfc3339 "" = none

/-- The lock file refuses others for as long as the lock of a run is live. -/
def Covers (text : TimestampText) (file : Option LockRecord) (r : FleetRun) : Prop :=
  ∃ rec, file = some rec ∧
    ∀ t, lockIsStale text rec.startedAt t = true → fleetLockTtl < t - r.started

section Actions

variable {text : TimestampText} {home : Bool} {c : Controller}

lemma fleetLockTtl_lt_saturatingSub {a b : Int} :
    fleetLockTtl < saturatingSub a b ↔ fleetLockTtl < a - b := by
  unfold fleetLockTtl saturatingSub
  omega

/-- A lock that is stale was started more than its time to live ago. -/
lemma lt_of_lockIsStale {started : String} {now : Int}
    (h : lockIsStale text started now = true) :
    ∃ t, text.parseRfc3339 started = some t ∧ fleetLockTtl < now - t := by
  unfold lockIsStale at h
  cases hparse : text.parseRfc3339 started with
  | none => simp [hparse] at h
  | some t =>
    rw [hparse] at h
    exact ⟨t, rfl, fleetLockTtl_lt_saturatingSub.mp (by simpa using h)⟩

lemma covers_written (htext : ReadsBack text) {host : String} {pid : Option UInt32} {now : Int}
    {r : FleetRun} (hr : r.started ≤ now) :
    Covers text (some ⟨host, pid, text.toRfc3339 now⟩) r := by
  refine ⟨_, rfl, fun t ht => ?_⟩
  obtain ⟨t', hparse, hlt⟩ := lt_of_lockIsStale ht
  have hsame : t' = now := htext.same now t' hparse
  rw [hsame] at hlt
  linarith

lemma covers_default (htext : ReadsBack text) (r : FleetRun) :
    Covers text (some .default) r := by
  refine ⟨_, rfl, fun t ht => ?_⟩
  obtain ⟨t', hparse, -⟩ := lt_of_lockIsStale ht
  rw [LockRecord.default, htext.empty] at hparse
  cases hparse

/-- What `acquire_fleet_lock` leaves in the file covers what the file covered, and the run that
took the lock. -/
lemma covers_acquire (htext : ReadsBack text) {breakLock : Bool} {now : Int} {host : String}
    {pid : UInt32} {outcome : WriteOutcome} {file file' : Option LockRecord} {locked : Bool}
    (h : acquireFleetLock text home breakLock now host pid outcome file = (.ok locked, file'))
    {r : FleetRun} (hr : r.started ≤ now) (hcovers : Covers text file r ∨ locked = true) :
    Covers text file' r := by
  have hwrite : writeLock ⟨host, some pid, text.toRfc3339 now⟩ file outcome = (.ok locked, file') →
      Covers text file' r := by
    intro hwrite
    cases outcome with
    | written =>
      obtain ⟨-, rfl⟩ := Prod.mk.inj hwrite
      exact covers_written htext hr
    | notOpened =>
      obtain ⟨hlocked, rfl⟩ := Prod.mk.inj hwrite
      cases hlocked
      simpa using hcovers
    | truncated =>
      obtain ⟨-, rfl⟩ := Prod.mk.inj hwrite
      exact covers_default htext r
  unfold acquireFleetLock at h
  split at h
  · obtain ⟨hlocked, rfl⟩ := Prod.mk.inj h
    cases hlocked
    simpa using hcovers
  · simp only at h
    split at h
    · split at h
      · cases (Prod.mk.inj h).1
      · exact hwrite h
    · exact hwrite h

/-- **The lock refuses.**  A lock that covers a live run is not taken without breaking it. -/
lemma acquire_refused {now : Int} {host : String} {pid : UInt32} {outcome : WriteOutcome}
    {file : Option LockRecord} {r : FleetRun} (hhome : home = true) (hcovers : Covers text file r)
    (hlive : now - r.started ≤ fleetLockTtl) :
    ∃ e, acquireFleetLock text home false now host pid outcome file = (.error e, file) := by
  obtain ⟨rec, rfl, hstale⟩ := hcovers
  have hfresh : lockIsStale text rec.startedAt now = false := by
    cases h : lockIsStale text rec.startedAt now with
    | false => rfl
    | true => exact absurd (hstale now h) (not_lt.mpr hlive)
  refine ⟨lockRefusal rec, ?_⟩
  simp [acquireFleetLock, hhome, hfresh]

lemma acquire_homeless {breakLock : Bool} {now : Int} {host : String} {pid : UInt32}
    {outcome : WriteOutcome} {file : Option LockRecord} (hhome : home = false) :
    acquireFleetLock text home breakLock now host pid outcome file = (.ok false, file) := by
  simp [acquireFleetLock, hhome]

end Actions

/-! ## Runs -/

/-- The invariant of a controller on which runs finish alone. -/
structure SingleFlight (text : TimestampText) (home : Bool) (c : Controller) : Prop where
  /-- Without an orca home nobody has a guard. -/
  homeless : home = false → ∀ r ∈ c.runs, r.locked = false
  started_le : ∀ r ∈ c.runs, r.started ≤ c.clock
  /-- The file covers every run with a guard whose lock is live. -/
  covered : ∀ r ∈ c.runs, r.locked = true →
    Covers text c.file r ∨ fleetLockTtl < c.clock - r.started
  /-- A run that did not break a lock started when the locks of the others were stale. -/
  apart : c.runs.Pairwise fun r r' => r.locked = true → r'.breakLock = false →
    fleetLockTtl < r'.started - r.started

/-- The clock does not go back. -/
def ClockForward (c : Controller) (a : FleetAction) : Prop := c.clock ≤ a.now

/-- A run that drops its guard does so when no other run with a live lock is in flight. -/
def FinishesAlone (c : Controller) : FleetAction → Prop
  | .finish id now _ => (∃ r ∈ c.runs, r.id = id ∧ r.locked = true) →
      ∀ r ∈ c.runs, r.id ≠ id → r.locked = true → fleetLockTtl < now - r.started
  | _ => True

section Runs

variable {text : TimestampText} {home : Bool} {c : Controller}

/-- A lock that is held and live refuses a run that does not break it. -/
lemma refused_of_singleFlight (h : SingleFlight text home c) {now : Int} (host : String)
    (pid : UInt32) (outcome : WriteOutcome) (hclock : c.clock ≤ now) {r : FleetRun}
    (hr : r ∈ c.runs) (hlocked : r.locked = true) (hlive : now - r.started ≤ fleetLockTtl) :
    ∃ e, acquireFleetLock text home false now host pid outcome c.file = (.error e, c.file) := by
  have hhome : home = true := by
    cases hhome : home with
    | true => rfl
    | false =>
      have hfree := h.homeless hhome r hr
      rw [hlocked] at hfree
      cases hfree
  rcases h.covered r hr hlocked with hcovers | hstale
  · exact acquire_refused hhome hcovers hlive
  · exact absurd hlive (not_le.mpr (lt_of_lt_of_le hstale (by linarith)))

/-- A refusal leaves the lock file as it is. -/
lemma file_of_refused {breakLock : Bool} {now : Int} {host : String} {pid : UInt32}
    {outcome : WriteOutcome} {file file' : Option LockRecord} {e : String}
    (h : acquireFleetLock text home breakLock now host pid outcome file = (.error e, file')) :
    file' = file := by
  unfold acquireFleetLock at h
  split at h
  · cases h
  · dsimp only at h
    split at h
    · split at h
      · exact (Prod.mk.inj h).2.symm
      · cases outcome <;> cases (Prod.mk.inj h).1
    · cases outcome <;> cases (Prod.mk.inj h).1

/-- A run that takes the lock keeps the invariant. -/
lemma singleFlight_acquire (htext : ReadsBack text) (h : SingleFlight text home c) {id : Nat}
    {breakLock : Bool} {now : Int} {host : String} {pid : UInt32} {outcome : WriteOutcome}
    (hclock : c.clock ≤ now) :
    SingleFlight text home
      (fleetStep text home c (.acquire id breakLock now host pid outcome)) := by
  have hlater : ∀ r ∈ c.runs, r.started ≤ now := fun r hr => le_trans (h.started_le r hr) hclock
  have hstale : ∀ r : FleetRun, fleetLockTtl < c.clock - r.started →
      fleetLockTtl < now - r.started :=
    fun r hr => lt_of_lt_of_le hr (by linarith)
  cases hresult : acquireFleetLock text home breakLock now host pid outcome c.file with
  | mk result file =>
    cases result with
    | error e =>
      have hstep : fleetStep text home c (.acquire id breakLock now host pid outcome) =
          ⟨file, c.runs, now⟩ := by
        simp only [fleetStep, hresult]
      rw [hstep]
      have hfile : file = c.file := file_of_refused hresult
      refine ⟨h.homeless, hlater, fun r hr hlocked => ?_, h.apart⟩
      rcases h.covered r hr hlocked with hcovers | hold
      · exact Or.inl (hfile ▸ hcovers)
      · exact Or.inr (hstale r hold)
    | ok locked =>
      have hstep : fleetStep text home c (.acquire id breakLock now host pid outcome) =
          ⟨file, c.runs ++ [⟨id, now, breakLock, locked⟩], now⟩ := by
        simp only [fleetStep, hresult]
      rw [hstep]
      refine ⟨fun hhome r hr => ?_, fun r hr => ?_, fun r hr hlocked => ?_, ?_⟩
      · rcases List.mem_append.mp hr with hr | hr
        · exact h.homeless hhome r hr
        · rw [List.mem_singleton.mp hr]
          rw [acquire_homeless hhome] at hresult
          cases hresult
          rfl
      · rcases List.mem_append.mp hr with hr | hr
        · exact hlater r hr
        · rw [List.mem_singleton.mp hr]
      · rcases List.mem_append.mp hr with hr | hr
        · rcases h.covered r hr hlocked with hcovers | hold
          · exact Or.inl (covers_acquire htext hresult (hlater r hr) (Or.inl hcovers))
          · exact Or.inr (hstale r hold)
        · rw [List.mem_singleton.mp hr] at hlocked ⊢
          exact Or.inl (covers_acquire htext hresult (le_refl now) (Or.inr hlocked))
      · -- the locks of those in flight were stale, or this one would have been refused
        rw [List.pairwise_append]
        refine ⟨h.apart, List.pairwise_singleton _ _, fun r hr r' hr' hlocked hbreak => ?_⟩
        rw [List.mem_singleton.mp hr'] at hbreak ⊢
        by_contra hlive
        simp only at hbreak
        subst hbreak
        obtain ⟨e, hrefused⟩ := refused_of_singleFlight h host pid outcome hclock hr
          hlocked (not_lt.mp hlive)
        rw [hrefused] at hresult
        cases hresult

/-- A run that finishes alone keeps the invariant. -/
lemma singleFlight_finish (h : SingleFlight text home c) {id : Nat} {now : Int} {removed : Bool}
    (hclock : c.clock ≤ now) (halone : FinishesAlone c (.finish id now removed)) :
    SingleFlight text home (fleetStep text home c (.finish id now removed)) := by
  have hrest : ∀ r ∈ c.runs.filter (fun r => r.id != id), r ∈ c.runs ∧ r.id ≠ id := fun r hr => by
    simpa using List.mem_filter.mp hr
  refine ⟨fun hhome r hr => h.homeless hhome r (hrest r hr).1,
    fun r hr => le_trans (h.started_le r (hrest r hr).1) hclock, fun r hr hlocked => ?_,
    h.apart.filter _⟩
  obtain ⟨hmem, hid⟩ := hrest r hr
  by_cases hguard : ∃ r ∈ c.runs, r.id = id ∧ r.locked = true
  · exact Or.inr (halone hguard r hmem hid hlocked)
  · -- without a guard the file stays
    have hnone : (c.runs.filter fun r => r.id == id).any FleetRun.locked = false := by
      rw [List.any_eq_false]
      intro r hr hlocked
      obtain ⟨hmem, hid⟩ := List.mem_filter.mp hr
      exact hguard ⟨r, hmem, by simpa using hid, hlocked⟩
    have hfile : dropLocks (c.runs.filter fun r => r.id == id) removed c.file = c.file := by
      simp [dropLocks, hnone]
    rcases h.covered r hmem hlocked with hcovers | hold
    · refine Or.inl ?_
      change Covers text (dropLocks _ removed c.file) r
      rwa [hfile]
    · exact Or.inr (lt_of_lt_of_le hold (Int.sub_le_sub_right hclock _))

lemma singleFlight_step (htext : ReadsBack text) {a : FleetAction} (h : SingleFlight text home c)
    (hclock : ClockForward c a) (halone : FinishesAlone c a) :
    SingleFlight text home (fleetStep text home c a) := by
  cases a with
  | acquire id breakLock now host pid outcome => exact singleFlight_acquire htext h hclock
  | finish id now removed => exact singleFlight_finish h hclock halone

end Runs

/-- The timestamps of two moments, as `chrono` writes and reads them. -/
def twoTimestamps : TimestampText where
  toRfc3339 t :=
    if t = 0 then "1970-01-01T00:00:00Z" else if t = 5401 then "1970-01-01T01:30:01Z" else ""
  parseRfc3339 s :=
    if s = "1970-01-01T00:00:00Z" then some 0
    else if s = "1970-01-01T01:30:01Z" then some 5401 else none

/-- The two timestamps read back. -/
lemma twoTimestamps_readsBack : ReadsBack twoTimestamps := by
  refine ⟨fun t t' h => ?_, by decide⟩
  by_cases hzero : t = 0
  · subst hzero
    exact (Option.some.inj h).symm
  by_cases hlate : t = 5401
  · subst hlate
    exact (Option.some.inj h).symm
  · simp [twoTimestamps, hzero, hlate] at h

/-- A run starts at the epoch, and another one after its lock is stale. -/
def takeover : List FleetAction :=
  [.acquire 1 false 0 "ctl" 10 .written, .acquire 2 false 5401 "ctl" 11 .written]

/-- A controller that was never used. -/
def idleController : Controller := ⟨none, [], 0⟩

end Orca
