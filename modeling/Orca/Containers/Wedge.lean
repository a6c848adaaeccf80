import Mathlib.Data.List.Induction
import Orca.Containers.Basic
import Orca.Library.Invariant

/-!
# Recovery of wedged containers

A container that runs but does not answer is wedged.  In every tick the reconciler passes the
liveness it observed to `processLivenessObservation`, which answers with a record to keep or to
delete, and with events to emit.  If the answer is to attempt a recovery, the outcome of the attempt
is passed to `processRecoveryOutcome`.  The record lives from the first wedged observation of a
streak until the container is seen live or an attempt succeeds.

The streak is described by its timeline: what was observed and emitted, with the clock readings.
`Bounded` is the law of a timeline, `Consistent` says what the record knows of it.  A tick that
starts from a record keeps both (`lawful_tick`), so the law holds of every streak of every run
(`recovery_is_bounded`).  Attempts are spaced in whole seconds of the clock, not in elapsed time.
-/

namespace Orca.Containers.Wedge

/-! ## Records and events -/

/-- `RecoveryOutcome`. -/
inductive RecoveryOutcome where
  | succeeded
  | failed (error : String)
  deriving DecidableEq, Repr

/-- `WedgeRecord`. -/
structure WedgeRecord where
  host : String
  runtime : RuntimeKind
  containerId : String
  /-- How many wedged observations the streak has. -/
  consecutiveWedgedTicks : Nat
  firstWedgedAt : Option Timestamp
  recoveryAttempts : Nat
  lastAttemptAt : Option Timestamp
  lastAttemptOutcome : Option RecoveryOutcome
  escalated : Bool
  notifiedDetected : Bool
  deriving DecidableEq, Repr

/-- `WedgeEvent`; durations are in milliseconds. -/
inductive WedgeEvent where
  | detected (key : RecordKey) (containerName : String) (firstWedgedAt : Timestamp)
  | recoveryAttempted (key : RecordKey) (containerName : String) (attemptNumber : Nat)
  | recoverySucceeded (key : RecordKey) (containerName : String) (attemptsTaken : Nat)
      (totalWedgedDuration : Int)
  | recoveryFailed (key : RecordKey) (containerName : String) (attemptNumber : Nat)
      (error : String)
  | unrecoverable (key : RecordKey) (containerName : String) (attempts : Nat)
      (firstWedgedAt : Timestamp)
  | recovered (key : RecordKey) (containerName : String) (attempts : Nat)
      (totalWedgedDuration : Int)
  deriving DecidableEq, Repr

/-- `NextAction`. -/
inductive NextAction where
  | save (record : WedgeRecord)
  | delete
  | attemptRecovery (record : WedgeRecord)
  | noop
  deriving DecidableEq, Repr

/-- `ObservationResult`. -/
structure ObservationResult where
  /-- What to do with the record. -/
  nextAction : NextAction
  events : List WedgeEvent
  deriving DecidableEq, Repr

/-- `UnwedgeOutcome`, as far as it is read. -/
structure UnwedgeOutcome where
  /-- Whether the container was live after the attempt. -/
  recovered : Bool
  error : Option String
  deriving DecidableEq, Repr

/-- `WEDGE_ARM_THRESHOLD`. -/
def wedgeArmThreshold : Nat := 2

/-- `MAX_RECOVERY_ATTEMPTS`. -/
def maxRecoveryAttempts : Nat := 3

/-- `MIN_BACKOFF_BETWEEN_ATTEMPTS_SECS`. -/
def minBackoffBetweenAttemptsSecs : Int := 60

/-- `u32::saturating_add(1)`. -/
def saturatingSucc (n : Nat) : Nat := min (n + 1) 4294967295

namespace WedgeRecord

/-- The key of the record. -/
def key (r : WedgeRecord) : RecordKey := ⟨r.host, r.runtime, r.containerId⟩

/-- `WedgeRecord::new`. -/
def new (key : RecordKey) (now : Timestamp) : WedgeRecord where
  host := key.host
  runtime := key.runtime
  containerId := key.containerId
  consecutiveWedgedTicks := 1
  firstWedgedAt := some now
  recoveryAttempts := 0
  lastAttemptAt := none
  lastAttemptOutcome := none
  escalated := false
  notifiedDetected := false

/-- `backoff_satisfied`. -/
def backoffSatisfied (r : WedgeRecord) (now : Timestamp) : Bool :=
  match r.lastAttemptAt with
  | none => true
  | some t => minBackoffBetweenAttemptsSecs ≤ now.unixSeconds - t.unixSeconds

/-- `wedged_duration_secs`, in milliseconds. -/
def wedgedDuration (r : WedgeRecord) (now : Timestamp) : Int :=
  match r.firstWedgedAt with
  | some t => now.unixMillis - t.unixMillis
  | none => 0

/-- The event that pages the operator. -/
def unrecoverable (r : WedgeRecord) (c : Container) (now : Timestamp) : WedgeEvent :=
  .unrecoverable r.key c.name r.recoveryAttempts (r.firstWedgedAt.getD now)

end WedgeRecord

/-! ## The state machine -/

/-- `is_unwedge_manual`. -/
def isUnwedgeManual (c : Container) : Bool := c.hasLabel "orca.unwedge" "manual"

/-- `observation_live`. -/
def observationLive (prior : Option WedgeRecord) (c : Container) (now : Timestamp) :
    ObservationResult :=
  match prior with
  | none => ⟨.noop, []⟩
  | some r =>
    if r.recoveryAttempts = 0 then ⟨.delete, []⟩
    else ⟨.delete, [.recovered r.key c.name r.recoveryAttempts (r.wedgedDuration now)]⟩

/-- The record at the start of a wedged observation. -/
def upsertRecord (prior : Option WedgeRecord) (c : Container) (now : Timestamp) : WedgeRecord :=
  match prior with
  | some r => { r with consecutiveWedgedTicks := saturatingSucc r.consecutiveWedgedTicks }
  | none => .new c.key now

/-- What follows once the streak has been announced. -/
def decideWedged (r : WedgeRecord) (c : Container) (hasRecoverer : Bool) (now : Timestamp) :
    ObservationResult :=
  let armReached : Bool := wedgeArmThreshold ≤ r.consecutiveWedgedTicks
  if r.escalated then ⟨.save r, []⟩
  else if armReached && (isUnwedgeManual c || !hasRecoverer) then
    ⟨.save { r with escalated := true }, [r.unrecoverable c now]⟩
  else if maxRecoveryAttempts ≤ r.recoveryAttempts then
    ⟨.save { r with escalated := true }, [r.unrecoverable c now]⟩
  else if armReached && r.backoffSatisfied now then
    ⟨.attemptRecovery r, [.recoveryAttempted r.key c.name (r.recoveryAttempts + 1)]⟩
  else ⟨.save r, []⟩

/-- `observation_wedged`. -/
def observationWedged (prior : Option WedgeRecord) (c : Container) (hasRecoverer : Bool)
    (now : Timestamp) : ObservationResult :=
  let r := upsertRecord prior c now
  let announced := { r with notifiedDetected := true }
  let result := decideWedged announced c hasRecoverer now
  if r.notifiedDetected then result
  else
    { result with events := .detected r.key c.name (r.firstWedgedAt.getD now) :: result.events }

/-- `process_liveness_observation`. -/
def processLivenessObservation (prior : Option WedgeRecord) (observed : Liveness) (c : Container)
    (hasRecoverer : Bool) (now : Timestamp) : ObservationResult :=
  match observed with
  | .live => observationLive prior c now
  | .wedged => observationWedged prior c hasRecoverer now
  | .notApplicable | .unknown =>
    match prior with
    | some r => ⟨.save r, []⟩
    | none => ⟨.noop, []⟩

/-- `process_recovery_outcome`. -/
def processRecoveryOutcome (record : WedgeRecord) (outcome : UnwedgeOutcome) (c : Container)
    (now : Timestamp) : ObservationResult :=
  let r := { record with
    recoveryAttempts := saturatingSucc record.recoveryAttempts
    lastAttemptAt := some now }
  if outcome.recovered then
    ⟨.delete, [.recoverySucceeded r.key c.name r.recoveryAttempts (r.wedgedDuration now)]⟩
  else
    let error := outcome.error.getD "post-attempt still wedged"
    let failed := { r with lastAttemptOutcome := some (.failed error) }
    let event := WedgeEvent.recoveryFailed r.key c.name r.recoveryAttempts error
    if maxRecoveryAttempts ≤ r.recoveryAttempts && !r.escalated then
      ⟨.save { failed with escalated := true }, [event, r.unrecoverable c now]⟩
    else ⟨.save failed, [event]⟩

/-! ## Ticks -/

/-- One tick of the reconciler for the container. -/
structure Tick where
  observed : Liveness
  container : Container
  /-- Whether the adapter can attempt a recovery. -/
  hasRecoverer : Bool
  now : Timestamp
  /-- What comes of an attempt in this tick, if there is one. -/
  outcome : UnwedgeOutcome
  outcomeAt : Timestamp

/-- What a timeline consists of. -/
inductive Happening where
  | observed (liveness : Liveness)
  | emitted (event : WedgeEvent)
  deriving DecidableEq, Repr

/-- A happening and the clock when it happened. -/
structure Entry where
  time : Timestamp
  what : Happening
  deriving DecidableEq, Repr

/-- Apply the answer to the stored record. -/
def NextAction.applyTo (prior : Option WedgeRecord) : NextAction → Option WedgeRecord
  | .save r => some r
  | .delete => none
  | .attemptRecovery r => some r
  | .noop => prior

/-- The events with the clock at which they are emitted. -/
def stamped (time : Timestamp) (events : List WedgeEvent) : List Entry :=
  events.map fun e => ⟨time, .emitted e⟩

/-- A tick: the observation is processed, an attempt that is asked for is made and its outcome
processed, and the answers are applied. -/
def tick (prior : Option WedgeRecord) (t : Tick) : Option WedgeRecord × List Entry :=
  let seen := processLivenessObservation prior t.observed t.container t.hasRecoverer t.now
  let entries := ⟨t.now, .observed t.observed⟩ :: stamped t.now seen.events
  match seen.nextAction with
  | .attemptRecovery r =>
    let tried := processRecoveryOutcome r t.outcome t.container t.outcomeAt
    (tried.nextAction.applyTo (some r), entries ++ stamped t.outcomeAt tried.events)
  | action => (action.applyTo prior, entries)

/-- The record after a tick. -/
def step (prior : Option WedgeRecord) (t : Tick) : Option WedgeRecord := (tick prior t).1

/-- The timeline of a run. -/
def timeline : Option WedgeRecord → List Tick → List Entry
  | _, [] => []
  | prior, t :: ts => (tick prior t).2 ++ timeline (step prior t) ts

/-! ## The law -/

/-- A wedged observation. -/
def Entry.isWedged (e : Entry) : Bool := e.what == .observed .wedged

/-- The announcement of a streak. -/
def Entry.isDetected (e : Entry) : Bool :=
  match e.what with
  | .emitted (.detected ..) => true
  | _ => false

/-- The start of an attempt. -/
def Entry.isAttempt (e : Entry) : Bool :=
  match e.what with
  | .emitted (.recoveryAttempted ..) => true
  | _ => false

/-- The start or the end of an attempt. -/
def Entry.isRecovery (e : Entry) : Bool :=
  match e.what with
  | .emitted (.recoveryAttempted ..) => true
  | .emitted (.recoverySucceeded ..) => true
  | .emitted (.recoveryFailed ..) => true
  | _ => false

/-- The page to the operator. -/
def Entry.isUnrecoverable (e : Entry) : Bool :=
  match e.what with
  | .emitted (.unrecoverable ..) => true
  | _ => false

/-- The law of a streak's timeline, where `Apart` says when two clock readings are far enough apart
for two attempts. -/
structure Bounded (Apart : Timestamp → Timestamp → Prop) (entries : List Entry) : Prop where
  detected : entries.countP Entry.isDetected = 1
  /-- There are at most three attempts. -/
  attempts : entries.countP Entry.isAttempt ≤ maxRecoveryAttempts
  /-- An attempt starts late enough after the start and the end of every earlier one. -/
  apart : entries.Pairwise fun e e' => e.isRecovery → e'.isAttempt → Apart e.time e'.time
  /-- An attempt is preceded by enough wedged observations. -/
  armed : ∀ past e, past ++ [e] <+: entries → e.isAttempt →
    wedgeArmThreshold ≤ past.countP Entry.isWedged
  /-- The operator is paged at most once. -/
  unrecoverable : entries.countP Entry.isUnrecoverable ≤ 1
  final : entries.Pairwise fun e e' => e.isUnrecoverable → ¬e'.isAttempt

/-- Far enough apart on a clock that shows whole seconds. -/
def ApartInSeconds (s t : Timestamp) : Prop :=
  minBackoffBetweenAttemptsSecs ≤ t.unixSeconds - s.unixSeconds

/-- The ticks are a streak: the first one creates a record, and each later one starts from a
record. -/
def IsStreak (first : Tick) (rest : List Tick) : Prop :=
  (step none first).isSome ∧
    Invariant.Along step (fun prior _ => prior.isSome) (step none first) rest

/-- The clock never goes back. -/
def Clocked (entries : List Entry) : Prop := (entries.map Entry.time).Pairwise (· ≤ ·)

instance (entries : List Entry) : Decidable (Clocked entries) :=
  inferInstanceAs (Decidable ((entries.map Entry.time).Pairwise (· ≤ ·)))


/-! ## One entry more -/

section Append

variable {Apart : Timestamp → Timestamp → Prop} {past : List Entry} {e : Entry}

/-- The law after one more entry: what it asks of an attempt and of a page. -/
lemma Bounded.concat (h : Bounded Apart past) (hdetected : e.isDetected = false)
    (hattempt : e.isAttempt = true →
      past.countP Entry.isAttempt < maxRecoveryAttempts ∧
        wedgeArmThreshold ≤ past.countP Entry.isWedged ∧
        (∀ e' ∈ past, e'.isRecovery → Apart e'.time e.time) ∧
        past.countP Entry.isUnrecoverable = 0)
    (hpage : e.isUnrecoverable = true → past.countP Entry.isUnrecoverable = 0) :
    Bounded Apart (past ++ [e]) where
  detected := by
    rw [List.countP_append, h.detected, List.countP_singleton, hdetected]
    rfl
  attempts := by
    rw [List.countP_append, List.countP_singleton]
    have hpast := h.attempts
    split
    · rename_i hyes
      exact (hattempt hyes).1
    · exact hpast
  apart := by
    rw [List.pairwise_append]
    refine ⟨h.apart, List.pairwise_singleton _ _, fun e' he' e'' he'' hrecovery hyes => ?_⟩
    obtain rfl := List.mem_singleton.mp he''
    exact (hattempt hyes).2.2.1 e' he' hrecovery
  armed := by
    intro before e' hinitial hyes
    rcases List.prefix_concat_iff.mp hinitial with heq | hearlier
    · obtain ⟨rfl, hsame⟩ := List.append_inj' heq rfl
      obtain rfl := List.singleton_inj.mp hsame
      exact (hattempt hyes).2.1
    · exact h.armed before e' hearlier hyes
  unrecoverable := by
    rw [List.countP_append, List.countP_singleton]
    split
    · rename_i hyes
      have hnone := hpage hyes
      omega
    · exact h.unrecoverable
  final := by
    rw [List.pairwise_append]
    refine ⟨h.final, List.pairwise_singleton _ _, fun e' he' e'' he'' hpaged hyes => ?_⟩
    obtain rfl := List.mem_singleton.mp he''
    exact List.countP_eq_zero.mp (hattempt hyes).2.2.2 e' he' hpaged

/-- An entry that neither announces, attempts nor pages keeps the law. -/
lemma Bounded.concat_quiet (h : Bounded Apart past) (hdetected : e.isDetected = false)
    (hattempt : e.isAttempt = false) (hpage : e.isUnrecoverable = false) :
    Bounded Apart (past ++ [e]) :=
  h.concat hdetected (fun hyes => absurd hyes (Bool.eq_false_iff.mp hattempt))
    fun hyes => absurd hyes (Bool.eq_false_iff.mp hpage)

end Append

/-! ## What the record knows of the streak -/

/-- The record agrees with the timeline of its streak. -/
structure Consistent (past : List Entry) (r : WedgeRecord) : Prop where
  notified : r.notifiedDetected = true
  attempts : past.countP Entry.isAttempt = r.recoveryAttempts
  /-- It counts no more wedged observations than there were. -/
  ticks : r.consecutiveWedgedTicks ≤ past.countP Entry.isWedged
  /-- It knows whether the operator was paged. -/
  paged : past.countP Entry.isUnrecoverable = if r.escalated then 1 else 0
  /-- Its last attempt ended after everything the attempts did. -/
  last : ∀ e ∈ past, e.isRecovery → ∃ last, r.lastAttemptAt = some last ∧ e.time ≤ last

section Record

variable {past : List Entry} {r : WedgeRecord}

lemma bounded_observed {Apart : Timestamp → Timestamp → Prop} (h : Bounded Apart past)
    (time : Timestamp) (liveness : Liveness) :
    Bounded Apart (past ++ [⟨time, .observed liveness⟩]) :=
  h.concat_quiet rfl rfl rfl

/-- An observation without a signal leaves the record as it is. -/
lemma Consistent.observed (h : Consistent past r) (time : Timestamp) (liveness : Liveness) :
    Consistent (past ++ [⟨time, .observed liveness⟩]) r where
  notified := h.notified
  attempts := by
    rw [List.countP_append, h.attempts]
    rfl
  ticks := by
    rw [List.countP_append]
    exact Nat.le_trans h.ticks (Nat.le_add_right _ _)
  paged := by
    rw [List.countP_append, h.paged]
    rfl
  last := by
    intro e he hrecovery
    rcases List.mem_append.mp he with he | he
    · exact h.last e he hrecovery
    · rw [List.mem_singleton.mp he] at hrecovery
      cases hrecovery

/-- A wedged observation is counted. -/
lemma Consistent.wedged (h : Consistent past r) (time : Timestamp) :
    Consistent (past ++ [⟨time, .observed .wedged⟩])
      { r with consecutiveWedgedTicks := saturatingSucc r.consecutiveWedgedTicks } where
  notified := h.notified
  attempts := (h.observed time .wedged).attempts
  ticks := by
    rw [List.countP_append]
    exact Nat.le_trans (Nat.min_le_left _ _) (Nat.succ_le_succ h.ticks)
  paged := (h.observed time .wedged).paged
  last := (h.observed time .wedged).last

/-- Paging the operator is recorded. -/
lemma Consistent.page (h : Consistent past r) (hnot : r.escalated = false) (time now : Timestamp)
    (c : Container) :
    Consistent (past ++ [⟨time, .emitted (r.unrecoverable c now)⟩])
      { r with escalated := true } where
  notified := h.notified
  attempts := by
    rw [List.countP_append, h.attempts]
    rfl
  ticks := by
    rw [List.countP_append]
    exact Nat.le_trans h.ticks (Nat.le_add_right _ _)
  paged := by
    rw [List.countP_append, h.paged, hnot]
    rfl
  last := by
    intro e he hrecovery
    rcases List.mem_append.mp he with he | he
    · exact h.last e he hrecovery
    · rw [List.mem_singleton.mp he] at hrecovery
      cases hrecovery

lemma bounded_page {Apart : Timestamp → Timestamp → Prop} (hb : Bounded Apart past)
    (h : Consistent past r) (hnot : r.escalated = false) (time now : Timestamp) (c : Container) :
    Bounded Apart (past ++ [⟨time, .emitted (r.unrecoverable c now)⟩]) := by
  have hnone : past.countP Entry.isUnrecoverable = 0 := by
    rw [h.paged, hnot]
    rfl
  exact hb.concat rfl (fun hyes => by cases hyes) fun _ => hnone

/-- An attempt keeps the law if the record allows it. -/
lemma bounded_attempt (hb : Bounded ApartInSeconds past) (h : Consistent past r)
    (hnot : r.escalated = false) (harmed : wedgeArmThreshold ≤ r.consecutiveWedgedTicks)
    (hcap : r.recoveryAttempts < maxRecoveryAttempts) {now : Timestamp}
    (hbackoff : r.backoffSatisfied now = true) (key : RecordKey) (name : String) (n : Nat) :
    Bounded ApartInSeconds (past ++ [⟨now, .emitted (.recoveryAttempted key name n)⟩]) := by
  refine hb.concat rfl (fun _ => ⟨?_, ?_, fun e he hrecovery => ?_, ?_⟩) fun hyes => by cases hyes
  · rw [h.attempts]
    exact hcap
  · exact Nat.le_trans harmed h.ticks
  · obtain ⟨last, hlast, hle⟩ := h.last e he hrecovery
    have hsecs : e.time.unixSeconds ≤ last.unixSeconds := Timestamp.unixSeconds_mono hle
    have henough : minBackoffBetweenAttemptsSecs ≤ now.unixSeconds - last.unixSeconds := by
      simpa [WedgeRecord.backoffSatisfied, hlast] using hbackoff
    exact Int.le_trans henough (Int.sub_le_sub_left hsecs _)
  · rw [h.paged, hnot]
    rfl

/-- An attempt and its failure are recorded. -/
lemma Consistent.attempt (h : Consistent past r) (hcap : r.recoveryAttempts < maxRecoveryAttempts)
    {now later : Timestamp} (hbefore : ∀ e ∈ past, e.time ≤ later) (hle : now ≤ later)
    (key : RecordKey) (name : String) (n m : Nat) (error : String)
    (outcome : Option RecoveryOutcome) :
    Consistent (past ++ [⟨now, .emitted (.recoveryAttempted key name n)⟩] ++
        [⟨later, .emitted (.recoveryFailed key name m error)⟩])
      { r with
        recoveryAttempts := saturatingSucc r.recoveryAttempts
        lastAttemptAt := some later
        lastAttemptOutcome := outcome } where
  notified := h.notified
  attempts := by
    rw [List.countP_append, List.countP_append, h.attempts]
    have hsmall : r.recoveryAttempts + 1 ≤ 2 ^ 32 - 1 :=
      Nat.le_trans (Nat.succ_le_of_lt hcap) (by decide)
    exact (Nat.min_eq_left hsmall).symm
  ticks := by
    rw [List.countP_append, List.countP_append]
    exact Nat.le_trans h.ticks (Nat.le_trans (Nat.le_add_right _ _) (Nat.le_add_right _ _))
  paged := by
    rw [List.countP_append, List.countP_append, h.paged]
    rfl
  last := by
    intro e he _
    refine ⟨later, rfl, ?_⟩
    rcases List.mem_append.mp he with he | he
    · rcases List.mem_append.mp he with he | he
      · exact hbefore e he
      · rw [List.mem_singleton.mp he]
        exact hle
    · obtain rfl := List.mem_singleton.mp he
      exact Int.le_refl later

end Record

/-! ## A tick that starts from a record -/

/-- The streak so far keeps the law, and the record, if it is still there, agrees with it. -/
def Lawful (past : List Entry) (record : Option WedgeRecord) : Prop :=
  Bounded ApartInSeconds past ∧ ∀ r, record = some r → Consistent past r

lemma lawful_none {past : List Entry} (h : Bounded ApartInSeconds past) : Lawful past none :=
  ⟨h, fun _ hsome => by cases hsome⟩

lemma lawful_some {past : List Entry} {r : WedgeRecord} (h : Bounded ApartInSeconds past)
    (hr : Consistent past r) : Lawful past (some r) :=
  ⟨h, fun _ hsome => Option.some_inj.mp hsome ▸ hr⟩

/-- What a wedged observation leads to: the record waits, the operator is paged, or a recovery is
attempted. -/
lemma decideWedged_cases (r : WedgeRecord) (c : Container) (hasRecoverer : Bool)
    (now : Timestamp) :
    decideWedged r c hasRecoverer now = ⟨.save r, []⟩ ∨
    (r.escalated = false ∧ decideWedged r c hasRecoverer now =
      ⟨.save { r with escalated := true }, [r.unrecoverable c now]⟩) ∨
    (r.escalated = false ∧ wedgeArmThreshold ≤ r.consecutiveWedgedTicks ∧
      r.recoveryAttempts < maxRecoveryAttempts ∧ r.backoffSatisfied now = true ∧
      decideWedged r c hasRecoverer now =
        ⟨.attemptRecovery r, [.recoveryAttempted r.key c.name (r.recoveryAttempts + 1)]⟩) := by
  dsimp only [decideWedged]
  cases hescalated : r.escalated with
  | true => exact Or.inl (if_pos rfl)
  | false =>
    rw [if_neg Bool.false_ne_true]
    split
    · exact Or.inr (Or.inl ⟨rfl, rfl⟩)
    · split
      · exact Or.inr (Or.inl ⟨rfl, rfl⟩)
      · rename_i hcap
        split
        · rename_i hready
          rw [Bool.and_eq_true, decide_eq_true_eq] at hready
          exact Or.inr (Or.inr ⟨rfl, hready.1, Nat.lt_of_not_le hcap, hready.2, rfl⟩)
        · exact Or.inl rfl

/-- What an attempt leads to: the record is deleted, it stays, or the operator is paged. -/
lemma processRecoveryOutcome_cases (record : WedgeRecord) (outcome : UnwedgeOutcome)
    (c : Container) (now : Timestamp) :
    (∃ n d, processRecoveryOutcome record outcome c now =
      ⟨.delete, [.recoverySucceeded record.key c.name n d]⟩) ∨
    ∃ error, ∃ r : WedgeRecord, r = { record with
        recoveryAttempts := saturatingSucc record.recoveryAttempts
        lastAttemptAt := some now
        lastAttemptOutcome := some (.failed error) } ∧
      (processRecoveryOutcome record outcome c now =
          ⟨.save r, [.recoveryFailed record.key c.name r.recoveryAttempts error]⟩ ∨
        r.escalated = false ∧ processRecoveryOutcome record outcome c now =
          ⟨.save { r with escalated := true },
            [.recoveryFailed record.key c.name r.recoveryAttempts error,
              r.unrecoverable c now]⟩) := by
  dsimp only [processRecoveryOutcome]
  split
  · exact Or.inl ⟨_, _, rfl⟩
  · refine Or.inr ⟨outcome.error.getD "post-attempt still wedged", _, rfl, ?_⟩
    split
    · rename_i hpage
      rw [Bool.and_eq_true, Bool.not_eq_true'] at hpage
      exact Or.inr ⟨hpage.2, rfl⟩
    · exact Or.inl rfl

/-- A wedged observation of an announced streak is counted and decided. -/
lemma observationWedged_of_notified {r : WedgeRecord} (h : r.notifiedDetected = true)
    (c : Container) (hasRecoverer : Bool) (now : Timestamp) :
    observationWedged (some r) c hasRecoverer now =
      decideWedged { r with consecutiveWedgedTicks := saturatingSucc r.consecutiveWedgedTicks } c
        hasRecoverer now := by
  have hsame : { r with
      consecutiveWedgedTicks := saturatingSucc r.consecutiveWedgedTicks
      notifiedDetected := true } =
        { r with consecutiveWedgedTicks := saturatingSucc r.consecutiveWedgedTicks } := by
    rw [h]
  unfold observationWedged
  refine (if_pos h).trans ?_
  exact congrArg (fun r => decideWedged r c hasRecoverer now) hsame

section Tick

variable {prior : Option WedgeRecord} {t : Tick} {r : WedgeRecord} {events : List WedgeEvent}

lemma tick_of_save (h : processLivenessObservation prior t.observed t.container t.hasRecoverer
    t.now = ⟨.save r, events⟩) :
    tick prior t = (some r, ⟨t.now, .observed t.observed⟩ :: stamped t.now events) := by
  unfold tick
  rw [h]
  rfl

lemma tick_of_delete (h : processLivenessObservation prior t.observed t.container t.hasRecoverer
    t.now = ⟨.delete, events⟩) :
    tick prior t = (none, ⟨t.now, .observed t.observed⟩ :: stamped t.now events) := by
  unfold tick
  rw [h]
  rfl

/-- A tick that attempts a recovery. -/
lemma tick_of_attempt (h : processLivenessObservation prior t.observed t.container t.hasRecoverer
    t.now = ⟨.attemptRecovery r, events⟩) {tried : ObservationResult}
    (htried : processRecoveryOutcome r t.outcome t.container t.outcomeAt = tried) :
    tick prior t = (tried.nextAction.applyTo (some r),
      (⟨t.now, .observed t.observed⟩ :: stamped t.now events) ++
        stamped t.outcomeAt tried.events) := by
  unfold tick
  rw [h]
  dsimp only
  rw [htried]

end Tick

/-- A tick in which a recovery is attempted keeps the law: the attempt is allowed, and its outcome
is recorded. -/
lemma lawful_attempt {past : List Entry} {r : WedgeRecord} (hb : Bounded ApartInSeconds past)
    (h : Consistent past r) (hnot : r.escalated = false)
    (harmed : wedgeArmThreshold ≤ r.consecutiveWedgedTicks)
    (hcap : r.recoveryAttempts < maxRecoveryAttempts) {now later : Timestamp}
    (hbackoff : r.backoffSatisfied now = true) (hbefore : ∀ e ∈ past, e.time ≤ later)
    (hle : now ≤ later) (c : Container) (outcome : UnwedgeOutcome) :
    Lawful (past ++ ([⟨now, .emitted (.recoveryAttempted r.key c.name (r.recoveryAttempts + 1))⟩] ++
        stamped later (processRecoveryOutcome r outcome c later).events))
      ((processRecoveryOutcome r outcome c later).nextAction.applyTo (some r)) := by
  have hattempt := bounded_attempt hb h hnot harmed hcap hbackoff r.key c.name
    (r.recoveryAttempts + 1)
  rw [← List.append_assoc]
  rcases processRecoveryOutcome_cases r outcome c later with
    ⟨n, d, heq⟩ | ⟨error, failed, rfl, heq | ⟨hunpaged, heq⟩⟩
  · rw [heq]
    exact lawful_none (hattempt.concat_quiet rfl rfl rfl)
  · rw [heq]
    exact lawful_some (hattempt.concat_quiet rfl rfl rfl) (h.attempt hcap hbefore hle _ _ _ _ _ _)
  · rw [heq]
    have hfailed := h.attempt hcap hbefore hle r.key c.name (r.recoveryAttempts + 1)
      (saturatingSucc r.recoveryAttempts) error (some (.failed error))
    have hbfailed : Bounded ApartInSeconds _ := hattempt.concat_quiet
      (e := ⟨later, .emitted (.recoveryFailed r.key c.name (saturatingSucc r.recoveryAttempts)
        error)⟩) rfl rfl rfl
    have hpaged := hfailed.page hunpaged later later c
    have hbpaged := bounded_page hbfailed hfailed hunpaged later later c
    rw [List.append_assoc] at hpaged hbpaged
    exact lawful_some hbpaged hpaged

/-- An attempt ends with an event. -/
lemma exists_outcome_entry (r : WedgeRecord) (outcome : UnwedgeOutcome) (c : Container)
    (later : Timestamp) :
    ∃ e ∈ stamped later (processRecoveryOutcome r outcome c later).events, e.time = later := by
  rcases processRecoveryOutcome_cases r outcome c later with
    ⟨n, d, heq⟩ | ⟨error, failed, -, heq | ⟨-, heq⟩⟩
  · rw [heq]
    exact ⟨_, List.mem_cons_self, rfl⟩
  · rw [heq]
    exact ⟨_, List.mem_cons_self, rfl⟩
  · rw [heq]
    exact ⟨_, List.mem_cons_self, rfl⟩

/-- A tick that starts from a record keeps the law of the streak. -/
lemma lawful_tick {past : List Entry} {r : WedgeRecord} {t : Tick} (h : Lawful past (some r))
    (hclock : Clocked (past ++ (tick (some r) t).2)) :
    Lawful (past ++ (tick (some r) t).2) (step (some r) t) := by
  obtain ⟨hb, hr⟩ := h
  replace hr := hr r rfl
  have hobserved := bounded_observed hb t.now t.observed
  unfold step
  cases hliveness : t.observed with
  | notApplicable =>
    have hseen : processLivenessObservation (some r) t.observed t.container t.hasRecoverer t.now =
        ⟨.save r, []⟩ := by
      rw [hliveness]
      rfl
    rw [tick_of_save hseen]
    exact lawful_some hobserved (hr.observed t.now t.observed)
  | unknown =>
    have hseen : processLivenessObservation (some r) t.observed t.container t.hasRecoverer t.now =
        ⟨.save r, []⟩ := by
      rw [hliveness]
      rfl
    rw [tick_of_save hseen]
    exact lawful_some hobserved (hr.observed t.now t.observed)
  | live =>
    by_cases hzero : r.recoveryAttempts = 0
    · have hseen : processLivenessObservation (some r) t.observed t.container t.hasRecoverer
          t.now = ⟨.delete, []⟩ := by
        rw [hliveness]
        exact if_pos hzero
      rw [tick_of_delete hseen]
      exact lawful_none hobserved
    · have hseen : processLivenessObservation (some r) t.observed t.container t.hasRecoverer
          t.now = ⟨.delete, [.recovered r.key t.container.name r.recoveryAttempts
            (r.wedgedDuration t.now)]⟩ := by
        rw [hliveness]
        exact if_neg hzero
      rw [tick_of_delete hseen]
      refine lawful_none ?_
      rw [List.append_cons]
      exact hobserved.concat_quiet rfl rfl rfl
  | wedged =>
    rw [hliveness] at hobserved
    have hcounted := hr.wedged t.now
    have hseen : processLivenessObservation (some r) t.observed t.container t.hasRecoverer t.now =
        decideWedged { r with consecutiveWedgedTicks := saturatingSucc r.consecutiveWedgedTicks }
          t.container t.hasRecoverer t.now := by
      rw [hliveness]
      exact observationWedged_of_notified hr.notified _ _ _
    generalize { r with consecutiveWedgedTicks := saturatingSucc r.consecutiveWedgedTicks } = r'
      at hcounted hseen
    rcases decideWedged_cases r' t.container t.hasRecoverer t.now with
      hwait | ⟨hnot, hpage⟩ | ⟨hnot, harmed, hcap, hbackoff, hattempt⟩
    · rw [tick_of_save (hseen.trans hwait), hliveness]
      exact lawful_some hobserved hcounted
    · rw [tick_of_save (hseen.trans hpage), hliveness]
      dsimp only
      rw [List.append_cons]
      exact lawful_some (bounded_page hobserved hcounted hnot _ _ _) (hcounted.page hnot _ _ _)
    · rw [tick_of_attempt (hseen.trans hattempt) rfl, hliveness] at hclock ⊢
      dsimp only at hclock ⊢
      rw [List.cons_append, List.append_cons] at hclock ⊢
      obtain ⟨e, he, htime⟩ := exists_outcome_entry r' t.outcome t.container t.outcomeAt
      have hlast : ∀ e' ∈ past ++ [⟨t.now, .observed .wedged⟩] ++
          stamped t.now [.recoveryAttempted r'.key t.container.name (r'.recoveryAttempts + 1)],
          e'.time ≤ t.outcomeAt := by
        rw [← htime]
        unfold Clocked at hclock
        rw [← List.append_assoc, List.map_append, List.pairwise_append] at hclock
        exact fun e' he' => hclock.2.2 _ (List.mem_map_of_mem he') _ (List.mem_map_of_mem he)
      refine lawful_attempt hobserved hcounted hnot harmed hcap hbackoff
        (fun e' he' => hlast e' (List.mem_append_left _ he')) ?_ t.container t.outcome
      exact hlast ⟨t.now, _⟩ (List.mem_append_right _ (List.mem_singleton_self _))

/-! ## Streaks -/

lemma timeline_append (prior : Option WedgeRecord) (before after : List Tick) :
    timeline prior (before ++ after) =
      timeline prior before ++ timeline (before.foldl step prior) after := by
  induction before generalizing prior with
  | nil => rfl
  | cons t before ih =>
    rw [List.cons_append, timeline, timeline, ih, List.append_assoc]
    rfl

lemma timeline_concat (prior : Option WedgeRecord) (ts : List Tick) (t : Tick) :
    timeline prior (ts ++ [t]) = timeline prior ts ++ (tick (ts.foldl step prior) t).2 := by
  rw [timeline_append, timeline, timeline, List.append_nil]

/-- The tick that creates a record observes the container wedged, and announces the streak. -/
lemma lawful_first {t : Tick} (h : (step none t).isSome) :
    Lawful (tick none t).2 (step none t) := by
  have hwedged : t.observed = .wedged := by
    cases hliveness : t.observed with
    | wedged => rfl
    | live =>
      rw [step, tick, hliveness] at h
      cases h
    | notApplicable =>
      rw [step, tick, hliveness] at h
      cases h
    | unknown =>
      rw [step, tick, hliveness] at h
      cases h
  have hseen : processLivenessObservation none t.observed t.container t.hasRecoverer t.now =
      ⟨.save { WedgeRecord.new t.container.key t.now with notifiedDetected := true },
        [.detected t.container.key t.container.name t.now]⟩ := by
    rw [hwedged]
    rfl
  unfold step
  rw [tick_of_save hseen, hwedged]
  refine lawful_some ?_ ?_
  · refine ⟨rfl, Nat.zero_le 3, ?_, ?_, Nat.zero_le 1, ?_⟩
    · simp [stamped, Entry.isRecovery]
    · intro past e hinitial hattempt
      have hmem := hinitial.subset (List.mem_append_right past (List.mem_singleton_self e))
      rcases List.mem_cons.mp hmem with rfl | hmem
      · cases hattempt
      · rw [List.mem_singleton.mp hmem] at hattempt
        cases hattempt
    · simp [stamped, Entry.isUnrecoverable]
  · refine ⟨rfl, rfl, Nat.le_refl 1, rfl, fun e he hrecovery => ?_⟩
    rcases List.mem_cons.mp he with rfl | he
    · cases hrecovery
    · rw [List.mem_singleton.mp he] at hrecovery
      cases hrecovery

/-- A streak keeps the law from its first tick on. -/
lemma lawful_streak {first : Tick} {rest : List Tick} (hstreak : IsStreak first rest)
    (hclock : Clocked (timeline none (first :: rest))) :
    Lawful (timeline none (first :: rest)) ((first :: rest).foldl step none) := by
  induction rest using List.reverseRecOn with
  | nil =>
    rw [timeline, timeline, List.append_nil]
    exact lawful_first hstreak.1
  | append_singleton rest t ih =>
    rw [← List.cons_append, timeline_concat] at hclock ⊢
    have hearlier : Clocked (timeline none (first :: rest)) := by
      unfold Clocked at hclock
      rw [List.map_append, List.pairwise_append] at hclock
      exact hclock.1
    have hbefore := ih ⟨hstreak.1, Invariant.along_of_initial hstreak.2 (List.prefix_append _ _)⟩
      hearlier
    -- the last tick starts from a record, since no earlier one has ended the streak
    have hsome : ((first :: rest).foldl step none).isSome :=
      (Invariant.along_of_append hstreak.2).1
    obtain ⟨r, hr⟩ := Option.isSome_iff_exists.mp hsome
    rw [List.foldl_append]
    rw [hr] at hbefore hclock ⊢
    exact lawful_tick hbefore hclock

/-- In every run with a clock that does not go back, every streak keeps the law, with attempts
spaced in whole seconds of the clock. -/
theorem recovery_is_bounded {prior : Option WedgeRecord} {run : List Tick}
    (hclock : Clocked (timeline prior run)) {before rest : List Tick} {first : Tick}
    (hrun : before ++ first :: rest <+: run) (hnone : before.foldl step prior = none)
    (hstreak : IsStreak first rest) :
    Bounded ApartInSeconds (timeline none (first :: rest)) := by
  refine (lawful_streak hstreak ?_).1
  obtain ⟨after, rfl⟩ := hrun
  unfold Clocked at hclock ⊢
  rw [timeline_append, timeline_append, hnone, List.map_append, List.map_append,
    List.pairwise_append, List.pairwise_append] at hclock
  exact hclock.1.2.1

/-! ## The clock of the spacing -/

/-- Far enough apart in elapsed time. -/
def ApartInTime (s t : Timestamp) : Prop :=
  seconds minBackoffBetweenAttemptsSecs.toNat ≤ t - s

/-- A container that hangs. -/
def sampleContainer : Container where
  id := "101"
  name := "db"
  runtime := .lxc
  host := "h1"
  state := .running
  labels := []
  restartCount := 0
  exitCode := none

/-- A wedged observation whose attempt, if there is one, fails at once. -/
def sampleTick (now : Timestamp) : Tick where
  observed := .wedged
  container := sampleContainer
  hasRecoverer := true
  now := now
  outcome := ⟨false, none⟩
  outcomeAt := now

/-- A streak with an attempt at the end of one second, and another at the start of the second that
is sixty seconds later. -/
def sampleStreak : List Tick := [sampleTick 1999999999, sampleTick (seconds 61)]

/-- The law holds of the sample streak. -/
theorem recovery_is_bounded_sample :
    Bounded ApartInSeconds (timeline none (sampleTick 0 :: sampleStreak)) :=
  have hclock : Clocked (timeline none (sampleTick 0 :: sampleStreak)) := by decide
  have hrun : [] ++ sampleTick 0 :: sampleStreak <+: sampleTick 0 :: sampleStreak :=
    List.prefix_refl _
  recovery_is_bounded hclock hrun rfl ⟨rfl, by decide⟩

/-- Elapsed time is not what the attempts are spaced by: two of them are less than sixty seconds
apart. -/
theorem attempts_within_a_minute :
    ¬∀ (prior : Option WedgeRecord) (run : List Tick), Clocked (timeline prior run) →
      ∀ (before : List Tick) (first : Tick) (rest : List Tick), before ++ first :: rest <+: run →
        before.foldl step prior = none → IsStreak first rest →
          Bounded ApartInTime (timeline none (first :: rest)) := by
  intro h
  have hbounded := h none (sampleTick 0 :: sampleStreak) (by decide) [] (sampleTick 0) sampleStreak
    (List.prefix_refl _) rfl ⟨rfl, by decide⟩
  have hapart := hbounded.apart
  revert hapart
  unfold ApartInTime
  decide

end Orca.Containers.Wedge
