import Mathlib.Algebra.Group.Nat.Defs
import Mathlib.Logic.Function.Basic
import Orca.Library.Invariant

/-!
# Reachability of peers

The dial loops share one record of each peer.  Before a probe they ask `should_dial`, after it they
tell `record_probe` how it ended: a failure widens the backoff window, and from a streak of
`DORMANT_STREAK` failures on the peer is dormant, which leaves it a heartbeat probe every
`BACKOFF_MAX`.  The loops run side by side, so a question and the record that follows it are two
steps, and other loops' steps may come in between.

The window of a peer in backoff is the instant `until`, set by each failure.  The window of a
dormant peer is counted from `last_change`, which is set when the peer becomes dormant and not by
the failed heartbeats after that.  Two consecutive failed probes of one streak are therefore as far
apart as the window says exactly if no two dials overlap and nobody probes the peer too soon after a
failed heartbeat (`spaced_iff`).

Instants are nanoseconds since some fixed one.
-/

namespace Orca.Reachability

/-- `Duration::from_secs`, in nanoseconds. -/
def fromSecs (secs : Nat) : Nat := secs * 1000000000

/-- Base backoff after a peer first fails. -/
def backoffBase : Nat := fromSecs 60

/-- Ceiling on the backoff window, and heartbeat cadence of a dormant peer. -/
def backoffMax : Nat := fromSecs 900

/-- Fail streak at which a peer becomes dormant. -/
def dormantStreak : Nat := 5

/-- The largest `u32`. -/
def u32Max : Nat := 4294967295

/-- How a peer is expected to be reachable. -/
inductive PeerClass
  | alwaysOn
  | wakeable
  deriving DecidableEq, Repr

/-- The reachability lifecycle of one peer. -/
inductive ReachState
  | reachable
  | backoff (notBefore : Nat) (streak : Nat)
  | dormant
  | waking
  deriving DecidableEq, Repr

/-- A peer's record. -/
structure PeerReach where
  peerClass : PeerClass
  /-- Where it is in its lifecycle. -/
  state : ReachState
  consecutiveFailures : Nat
  lastOk : Option Nat
  /-- Instant of the last change the module counts as one. -/
  lastChange : Nat
  deriving DecidableEq, Repr

/-- `PeerReach::new`. -/
def PeerReach.new (now : Nat) : PeerReach := ⟨.alwaysOn, .reachable, 0, none, now⟩

/-- The backoff window for a fail streak. -/
def backoffDelay (streak : Nat) : Nat :=
  let shift := min (streak - 1) 4
  min (backoffBase * 2 ^ shift) backoffMax

/-- Records by peer. -/
abbrev Table := String → Option PeerReach

/-- `set_class`. -/
def setClass (table : Table) (peer : String) (peerClass : PeerClass) (now : Nat) : Table :=
  let p := (table peer).getD (PeerReach.new now)
  Function.update table peer (some { p with peerClass := peerClass })

/-- Whether a dial loop should probe the peer on its current pass. -/
def shouldDial (table : Table) (peer : String) (now : Nat) : Bool :=
  match table peer with
  | none => true
  | some p =>
    match p.state with
    | .reachable => true
    | .backoff notBefore _ => notBefore ≤ now
    | .dormant => p.peerClass = .alwaysOn ∧ backoffMax ≤ now - p.lastChange
    | .waking => false

/-- What recording a probe result tells the caller. -/
structure ProbeOutcome where
  becameReachable : Bool
  /-- The peer was given up for the fast loops. -/
  becameDormant : Bool
  deriving DecidableEq, Repr

/-- The record after a probe that succeeded. -/
def PeerReach.succeeded (p : PeerReach) (now : Nat) : PeerReach × ProbeOutcome :=
  let becameReachable := p.state ≠ .reachable
  ({ p with
      state := .reachable
      consecutiveFailures := 0
      lastOk := some now
      lastChange := if becameReachable then now else p.lastChange },
    ⟨becameReachable, false⟩)

/-- The record after a probe that failed. -/
def PeerReach.failed (p : PeerReach) (now : Nat) : PeerReach × ProbeOutcome :=
  let failures := min (p.consecutiveFailures + 1) u32Max
  let state : ReachState :=
    if dormantStreak ≤ failures then .dormant
    else .backoff (now + backoffDelay failures) failures
  let becameDormant := p.state ≠ .dormant ∧ state = .dormant
  ({ p with
      state := state
      consecutiveFailures := failures
      lastChange := if becameDormant then now else p.lastChange },
    ⟨false, becameDormant⟩)

/-- `record_probe`. -/
def recordProbe (table : Table) (peer : String) (ok : Bool) (now : Nat) : Table × ProbeOutcome :=
  let p := (table peer).getD (PeerReach.new now)
  let after := if ok then p.succeeded now else p.failed now
  (Function.update table peer (some after.1), after.2)

/-- `mark_waking`. -/
def markWaking (table : Table) (peer : String) (now : Nat) : Table :=
  let p := (table peer).getD (PeerReach.new now)
  Function.update table peer (some { p with state := .waking, lastChange := now })

/-- `mark_dormant`. -/
def markDormant (table : Table) (peer : String) (now : Nat) : Table :=
  let p := (table peer).getD (PeerReach.new now)
  Function.update table peer (some { p with state := .dormant, lastChange := now })

/-! ## The windows -/

/-- How long a peer in this state is meant to be left alone after a failed probe. -/
def ReachState.window : ReachState → Nat
  | .backoff _ streak => backoffDelay streak
  | .dormant => backoffMax
  | .reachable | .waking => 0

lemma backoffDelay_pos (streak : Nat) : 0 < backoffDelay streak := by
  unfold backoffDelay
  have hshift : 0 < 2 ^ min (streak - 1) 4 := Nat.two_pow_pos _
  have hbase : 0 < backoffBase * 2 ^ min (streak - 1) 4 := Nat.mul_pos (by decide) hshift
  exact Nat.lt_min.mpr ⟨hbase, by decide⟩

/-- What a failed probe at `now` leaves: the peer is in backoff until the end of its window, or
dormant, and then the window is counted from this probe only if it made the peer dormant. -/
lemma failed_cases (p : PeerReach) (now : Nat) :
    (∃ streak, (p.failed now).1.state = .backoff (now + backoffDelay streak) streak) ∨
      (p.failed now).1.state = .dormant ∧
          (p.state ≠ .dormant → (p.failed now).1.lastChange = now) := by
  unfold PeerReach.failed
  by_cases hstreak : dormantStreak ≤ min (p.consecutiveFailures + 1) u32Max
  · refine Or.inr ⟨by simp [hstreak], fun hstate => ?_⟩
    simp [hstreak, hstate]
  · exact Or.inl ⟨min (p.consecutiveFailures + 1) u32Max, by simp [hstreak]⟩

/-! ## Runs -/

/-- One call of one dial loop. -/
inductive Call
  /-- A loop asks whether to probe a peer. -/
  | shouldDial (peer : String) (now : Nat)
  /-- A loop tells how its probe of a peer ended. -/
  | recordProbe (peer : String) (ok : Bool) (now : Nat)
  deriving DecidableEq, Repr

/-- The instant of a call. -/
def Call.now : Call → Nat
  | .shouldDial _ now => now
  | .recordProbe _ _ now => now

/-- The records, and what has happened to one peer so far. -/
structure Watch where
  table : Table
  /-- Instants at which `should_dial` said yes to the peer. -/
  granted : List Nat
  /-- Those of them since the last failed probe of the peer. -/
  grantedSince : List Nat
  /-- Instant of the last failed probe in the streak the peer is in. -/
  lastFailed : Option Nat
  /-- That probe was a heartbeat: the peer was dormant, and stayed so. -/
  heartbeat : Bool

/-- Before the first call. -/
def Watch.start (table : Table) : Watch := ⟨table, [], [], none, false⟩

/-- The state of the peer. -/
def Watch.state (w : Watch) (peer : String) : ReachState :=
  ((w.table peer).map (·.state)).getD .reachable

/-- One call, watched for the peer. -/
def step (peer : String) (w : Watch) : Call → Watch
  | .shouldDial peer' now =>
    if peer' = peer ∧ shouldDial w.table peer now then
      { w with granted := now :: w.granted, grantedSince := now :: w.grantedSince }
    else w
  | .recordProbe peer' ok now =>
    let table := (recordProbe w.table peer' ok now).1
    if peer' = peer then
      if ok then { w with table := table, lastFailed := none, heartbeat := false }
      else
        let after : Watch := { w with table := table, grantedSince := [], lastFailed := some now }
        { after with heartbeat := w.state peer = .dormant ∧ after.state peer = .dormant }
    else { w with table := table }

/-- The call, if it records a failed probe of the peer, is at an instant that satisfies `P`. -/
def OnFailure (peer : String) (P : Watch → Nat → Prop) (w : Watch) : Call → Prop
  | .recordProbe peer' false now => peer' = peer → P w now
  | .recordProbe _ true _ | .shouldDial .. => True

instance (peer : String) (P : Watch → Nat → Prop) [∀ w now, Decidable (P w now)] (w : Watch) :
    (call : Call) → Decidable (OnFailure peer P w call)
  | .recordProbe peer' false now => inferInstanceAs (Decidable (peer' = peer → P w now))
  | .recordProbe _ true _ | .shouldDial .. => isTrue trivial

/-- The failed probe was preceded by `should_dial` saying yes at that instant. -/
def Permitted (w : Watch) (now : Nat) : Prop := now ∈ w.granted

/-- The failed probe comes after the window of the failed probe before it in its streak. -/
def Spaced (peer : String) (w : Watch) (now : Nat) : Prop :=
  ∀ t ∈ w.lastFailed, t + (w.state peer).window ≤ now

/-- The failed probe was permitted after the failed probe before it in its streak was recorded: the
two dials do not overlap. -/
def Apart (w : Watch) (now : Nat) : Prop := w.lastFailed.isSome → now ∈ w.grantedSince

/-- The failed probe, if it follows a failed heartbeat, comes `BACKOFF_MAX` after it. -/
def RestsAfterHeartbeat (w : Watch) (now : Nat) : Prop :=
  w.heartbeat = true → ∀ t ∈ w.lastFailed, t + backoffMax ≤ now

instance (w : Watch) (now : Nat) : Decidable (Permitted w now) :=
  inferInstanceAs (Decidable (now ∈ w.granted))

instance (peer : String) (w : Watch) (now : Nat) : Decidable (Spaced peer w now) :=
  inferInstanceAs (Decidable (∀ t ∈ w.lastFailed, t + (w.state peer).window ≤ now))

instance (w : Watch) (now : Nat) : Decidable (Apart w now) :=
  inferInstanceAs (Decidable (w.lastFailed.isSome → now ∈ w.grantedSince))

instance (w : Watch) (now : Nat) : Decidable (RestsAfterHeartbeat w now) :=
  inferInstanceAs
    (Decidable (w.heartbeat = true → ∀ t ∈ w.lastFailed, t + backoffMax ≤ now))

/-- What the record of the peer says about its last failed probe at `t`. -/
structure Remembers (peer : String) (w : Watch) (t : Nat) : Prop where
  /-- The peer is in backoff until the end of its window, or dormant; unless the probe was a
  heartbeat, the window is counted from it. -/
  state : (∃ streak, w.state peer = .backoff (t + backoffDelay streak) streak ∧
      w.heartbeat = false) ∨
    w.state peer = .dormant ∧ (w.heartbeat = false → ∃ p, w.table peer = some p ∧ p.lastChange = t)
  /-- What was granted before the probe was granted at an instant no later than it. -/
  granted : ∀ g ∈ w.granted, g ∈ w.grantedSince ∨ g ≤ t
  /-- What was granted since is still granted. -/
  since : ∀ g ∈ w.grantedSince, shouldDial w.table peer g = true

lemma recordProbe_self (table : Table) (peer : String) (ok : Bool) (now : Nat) :
    (recordProbe table peer ok now).1 peer =
      let p := (table peer).getD (PeerReach.new now)
      some (if ok then p.succeeded now else p.failed now).1 := by
  simp [recordProbe]

lemma recordProbe_of_ne (table : Table) {peer peer' : String} (h : peer' ≠ peer) (ok : Bool)
    (now : Nat) : (recordProbe table peer' ok now).1 peer = table peer := by
  simp [recordProbe, Function.update_of_ne (Ne.symm h)]

lemma shouldDial_congr {table table' : Table} {peer : String} (h : table' peer = table peer)
    (now : Nat) : shouldDial table' peer now = shouldDial table peer now := by
  simp [shouldDial, h]

/-- What the record of the peer says right after a failed probe. -/
lemma remembers_failed {peer : String} {w : Watch} {now : Nat}
    (hgranted : ∀ g ∈ w.granted, g ≤ now) :
    Remembers peer (step peer w (.recordProbe peer false now)) now := by
  let p := (w.table peer).getD (PeerReach.new now)
  have hrecord : (recordProbe w.table peer false now).1 peer = some (p.failed now).1 :=
    recordProbe_self w.table peer false now
  have hstate : (step peer w (.recordProbe peer false now)).state peer =
      (p.failed now).1.state := by
    simp [step, Watch.state, hrecord]
  have hbefore : w.state peer = p.state := by
    cases hpeer : w.table peer with
    | none => simp [Watch.state, p, hpeer, PeerReach.new]
    | some q => simp [Watch.state, p, hpeer]
  have hheartbeat : (step peer w (.recordProbe peer false now)).heartbeat =
      decide (p.state = .dormant ∧ (p.failed now).1.state = .dormant) := by
    simp [step, Watch.state, hrecord, ← hbefore]
  refine ⟨?_, ?_, ?_⟩
  · rcases failed_cases p now with ⟨streak, hbackoff⟩ | ⟨hdormant, hchange⟩
    · refine Or.inl ⟨streak, hstate.trans hbackoff, ?_⟩
      rw [hheartbeat, hbackoff]
      simp
    · refine Or.inr ⟨hstate.trans hdormant, fun hquiet => ?_⟩
      rw [hheartbeat, decide_eq_false_iff_not] at hquiet
      refine ⟨(p.failed now).1, ?_, hchange fun hp => hquiet ⟨hp, hdormant⟩⟩
      simpa [step] using hrecord
  · intro g hg
    have hold : g ∈ w.granted := by simpa [step] using hg
    exact Or.inr (hgranted g hold)
  · intro g hg
    simp [step] at hg

/-- What the record of the peer says about its last failed probe stays so until the next one. -/
lemma remembers_step {peer : String} {w : Watch} {t : Nat} (h : Remembers peer w t) {call : Call}
    (hcall : ∀ ok now, call ≠ .recordProbe peer ok now) :
    Remembers peer (step peer w call) t := by
  cases call with
  | shouldDial peer' now =>
    by_cases hyes : peer' = peer ∧ shouldDial w.table peer now = true
    · have hstep : step peer w (.shouldDial peer' now) =
          { w with granted := now :: w.granted, grantedSince := now :: w.grantedSince } := by
        simp [step, hyes]
      rw [hstep]
      refine ⟨h.state, ?_, ?_⟩
      · intro g hg
        rcases List.mem_cons.mp hg with rfl | hg
        · exact Or.inl List.mem_cons_self
        · exact (h.granted g hg).imp_left (List.mem_cons_of_mem now)
      · intro g hg
        rcases List.mem_cons.mp hg with rfl | hg
        · exact hyes.2
        · exact h.since g hg
    · have hstep : step peer w (.shouldDial peer' now) = w := by
        rw [step, if_neg hyes]
      rw [hstep]
      exact h
  | recordProbe peer' ok now =>
    have hne : peer' ≠ peer := by
      rintro rfl
      exact hcall ok now rfl
    have hsame : (recordProbe w.table peer' ok now).1 peer = w.table peer :=
      recordProbe_of_ne w.table hne ok now
    have hstep : step peer w (.recordProbe peer' ok now) =
        { w with table := (recordProbe w.table peer' ok now).1 } := by
      simp [step, hne]
    have hstate : (step peer w (.recordProbe peer' ok now)).state peer = w.state peer := by
      simp [hstep, Watch.state, hsame]
    rw [hstep] at hstate ⊢
    refine ⟨?_, h.granted, fun g hg => ?_⟩
    · rw [hstate]
      dsimp only
      rw [hsame]
      exact h.state
    · rw [shouldDial_congr hsame]
      exact h.since g hg

/-- A permitted failed probe comes after the window of the one before it exactly if the two dials do
not overlap and, where the one before was a heartbeat, `BACKOFF_MAX` has passed. -/
lemma spaced_iff_of_remembers {peer : String} {w : Watch} {now : Nat}
    (h : ∀ t ∈ w.lastFailed, Remembers peer w t) (hpermitted : Permitted w now) :
    Spaced peer w now ↔ Apart w now ∧ RestsAfterHeartbeat w now := by
  constructor
  · intro hspaced
    refine ⟨fun hsome => ?_, fun hheartbeat t ht => ?_⟩
    · -- the window is not empty, so the instant it was granted at is later than `t`
      obtain ⟨t, ht⟩ := Option.isSome_iff_exists.mp hsome
      have hlater := hspaced t ht
      have hpos : 0 < (w.state peer).window := by
        rcases (h t ht).state with ⟨streak, hstate, -⟩ | ⟨hstate, -⟩
        · rw [hstate]
          exact backoffDelay_pos streak
        · rw [hstate]
          decide
      exact ((h t ht).granted now hpermitted).resolve_right (by omega)
    · have hlater := hspaced t ht
      rcases (h t ht).state with ⟨streak, -, hquiet⟩ | ⟨hstate, -⟩
      · rw [hquiet] at hheartbeat
        cases hheartbeat
      · rw [hstate] at hlater
        exact hlater
  · rintro ⟨hapart, hrests⟩ t ht
    have hdial : shouldDial w.table peer now = true :=
      (h t ht).since now (hapart (Option.isSome_of_mem ht))
    rcases (h t ht).state with ⟨streak, hstate, -⟩ | ⟨hstate, hanchor⟩
    · rw [hstate]
      cases hrecord : w.table peer with
      | none => simp [Watch.state, hrecord] at hstate
      | some p =>
        have hp : p.state = .backoff (t + backoffDelay streak) streak := by
          simpa [Watch.state, hrecord] using hstate
        change t + backoffDelay streak ≤ now
        simpa [shouldDial, hrecord, hp] using hdial
    · rw [hstate]
      change t + backoffMax ≤ now
      cases hheartbeat : w.heartbeat with
      | true => exact hrests hheartbeat t ht
      | false =>
        obtain ⟨p, hrecord, hchange⟩ := hanchor hheartbeat
        have hp : p.state = .dormant := by simpa [Watch.state, hrecord] using hstate
        have hwindow : backoffMax ≤ now - p.lastChange := by
          simp only [shouldDial, hrecord, hp, decide_eq_true_eq] at hdial
          exact hdial.2
        have hpos : 0 < backoffMax := by decide
        omega

/-- A condition on failed probes that is, at a permitted one, equivalent to another. -/
lemma onFailure_congr {peer : String} {P Q R : Watch → Nat → Prop} {w : Watch} {call : Call}
    (h : ∀ now, P w now → (Q w now ↔ R w now)) (hP : OnFailure peer P w call) :
    OnFailure peer Q w call ↔ OnFailure peer R w call := by
  cases call with
  | shouldDial => exact Iff.rfl
  | recordProbe peer' ok now =>
    cases ok with
    | true => exact Iff.rfl
    | false => exact forall_congr' fun hpeer => h now (hP hpeer)

/-- What the record remembers of the last failed probe, after one more call. -/
lemma remembers_of_step {peer : String} {w : Watch} {call : Call}
    (h : ∀ t ∈ w.lastFailed, Remembers peer w t) (hgranted : ∀ g ∈ w.granted, g ≤ call.now) :
    ∀ t ∈ (step peer w call).lastFailed, Remembers peer (step peer w call) t := by
  intro t ht
  by_cases hcall : ∃ ok now, call = .recordProbe peer ok now
  · obtain ⟨ok, now, rfl⟩ := hcall
    cases ok with
    | true => simp [step] at ht
    | false =>
      have hnow : t = now := by simpa [step, eq_comm] using ht
      rw [hnow]
      exact remembers_failed hgranted
  · push Not at hcall
    refine remembers_step (h t ?_) hcall
    cases call with
    | shouldDial peer' now =>
      rw [step] at ht
      split at ht <;> exact ht
    | recordProbe peer' ok now =>
      have hne : peer' ≠ peer := fun heq => hcall ok now (heq ▸ rfl)
      simpa [step, hne] using ht

/-- What is granted after a call was granted before it, or by it. -/
lemma granted_step {peer : String} {w : Watch} {call : Call} {g : Nat}
    (hg : g ∈ (step peer w call).granted) : g ∈ w.granted ∨ g = call.now := by
  cases call with
  | shouldDial peer' now =>
    rw [step] at hg
    split at hg
    · exact (List.mem_cons.mp hg).symm
    · exact Or.inl hg
  | recordProbe peer' ok now =>
    rw [step] at hg
    split at hg
    · split at hg <;> exact Or.inl hg
    · exact Or.inl hg

/-- The equivalence along the rest of a run. -/
lemma along_spaced_iff {peer : String} {w : Watch} {calls : List Call}
    (h : ∀ t ∈ w.lastFailed, Remembers peer w t)
    (hgranted : ∀ g ∈ w.granted, ∀ call ∈ calls, g ≤ call.now)
    (hclock : (calls.map Call.now).Pairwise (· ≤ ·))
    (hpermitted : Invariant.Along (step peer) (OnFailure peer Permitted) w calls) :
    Invariant.Along (step peer) (OnFailure peer (Spaced peer)) w calls ↔
      Invariant.Along (step peer)
        (OnFailure peer fun w now => Apart w now ∧ RestsAfterHeartbeat w now) w calls := by
  induction calls generalizing w with
  | nil => exact Iff.rfl
  | cons call calls ih =>
    rw [List.map_cons, List.pairwise_cons] at hclock
    refine and_congr ?_ (ih ?_ ?_ hclock.2 hpermitted.2)
    · exact onFailure_congr (fun now => spaced_iff_of_remembers h) hpermitted.1
    · exact remembers_of_step h fun g hg => hgranted g hg call List.mem_cons_self
    · intro g hg c hc
      rcases granted_step hg with hold | rfl
      · exact hgranted g hold c (List.mem_cons_of_mem call hc)
      · exact hclock.1 _ (List.mem_map_of_mem hc)

/-- **Bounded dialing.**  For every run of `should_dial` and `record_probe` calls by any number of
loops in which the clock does not go back and every failed probe of the peer was preceded by
`should_dial` saying yes at that instant: any two consecutive failed probes of one streak are at
least the backoff window apart in backoff and at least `BACKOFF_MAX` apart when dormant, exactly if
the dials of the peer do not overlap and no failed heartbeat is followed by another failed probe
within `BACKOFF_MAX`. -/
theorem spaced_iff (table : Table) (peer : String) (calls : List Call)
    (hclock : (calls.map Call.now).Pairwise (· ≤ ·))
    (hpermitted :
      Invariant.Along (step peer) (OnFailure peer Permitted) (Watch.start table) calls) :
    Invariant.Along (step peer) (OnFailure peer (Spaced peer)) (Watch.start table) calls ↔
      Invariant.Along (step peer)
        (OnFailure peer fun w now => Apart w now ∧ RestsAfterHeartbeat w now)
        (Watch.start table) calls := by
  refine along_spaced_iff ?_ ?_ hclock hpermitted
  · intro t ht
    cases ht
  · intro g hg
    cases hg

/-! ## A peer that stays down -/

/-- Minutes, as an instant. -/
def minutes (m : Nat) : Nat := fromSecs (60 * m)

/-- A loop asks and, at the same instant, records a failure. -/
def failedDial (peer : String) (now : Nat) : List Call :=
  [.shouldDial peer now, .recordProbe peer false now]

/-- The fifth failure makes the peer dormant, and a heartbeat fails at the end of its window. -/
def sampleCalls : List Call :=
  failedDial "p" (minutes 0) ++ failedDial "p" (minutes 1) ++ failedDial "p" (minutes 3) ++
    failedDial "p" (minutes 7) ++ failedDial "p" (minutes 15) ++ failedDial "p" (minutes 30)

/-- A loop runs the next minute as well. -/
def redialed : List Call := sampleCalls ++ failedDial "p" (minutes 31)

/-- Two loops ask at one instant, and both dial. -/
def overlapping : List Call :=
  [.shouldDial "p" 0, .shouldDial "p" 0, .recordProbe "p" false 0, .recordProbe "p" false 0]

/-- The equivalence at a run of six failed dials, each when its window was over. -/
theorem spaced_sample :
    Invariant.Along (step "p") (OnFailure "p" (Spaced "p")) (Watch.start fun _ => none)
      sampleCalls :=
  (spaced_iff (fun _ => none) "p" sampleCalls (by decide +kernel) (by decide +kernel)).mpr
    (by decide +kernel)

/-- A dormant peer whose heartbeat failed is dialed again a minute later, and two loops that ask at
one instant both dial. -/
theorem not_spaced :
    ¬(∀ (peer : String) (calls : List Call), (calls.map Call.now).Pairwise (· ≤ ·) →
        Invariant.Along (step peer) (OnFailure peer Permitted) (Watch.start fun _ => none) calls →
          Invariant.Along (step peer) (OnFailure peer (Spaced peer)) (Watch.start fun _ => none)
            calls) ∧
      shouldDial (redialed.dropLast.foldl (step "p") (Watch.start fun _ => none)).table "p"
        (minutes 31) = true ∧
      Invariant.Along (step "p") (OnFailure "p" Permitted) (Watch.start fun _ => none) overlapping ∧
      ¬Invariant.Along (step "p") (OnFailure "p" (Spaced "p")) (Watch.start fun _ => none)
        overlapping := by
  refine ⟨fun hall => ?_, by decide +kernel, by decide +kernel, by decide +kernel⟩
  have hspaced := hall "p" redialed (by decide +kernel) (by decide +kernel)
  exact absurd hspaced (by decide +kernel)

end Orca.Reachability
