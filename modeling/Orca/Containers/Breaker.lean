import Orca.Containers.Basic
import Orca.Data.Text
import Orca.Library.Invariant
import Orca.Library.KeyedTable

/-!
# The crashloop breaker

Before the reconciler starts a container it asks the breaker, which keeps a record for the
container: a window of its recent starts, and whether it is held.  `arm` folds the observation of
the tick into the record, classifies it and saves it; a record that trips is held, and from then on
`arm` refuses the start until an operator calls `unhold`.  `retainActive` collects the records of
containers that are gone.

A hold is sticky.  What a hold consists of (`Holding`) is kept by every operation except the
operator's on that very container (`holding_step`), so it holds in every state of every run
(`hold_is_sticky`): the record stays, its reason and its time stay, every `arm` answers with the
same reason, and none of them stamps a start.
-/

namespace Orca.Containers.Breaker

/-! ## Records -/

/-- `BreakerStatus`. -/
inductive BreakerStatus where
  | watching
  | tentativeHold
  | held
  deriving DecidableEq, Repr

/-- Why a container is held. -/
inductive HoldReason where
  /-- Docker restarted it too often in the window. -/
  | restartStormIn5Min (count : Nat) (windowStart : Timestamp)
  /-- It exited soon after a start of the reconciler's. -/
  | fastReexitAfterOrcaStart (withinSecs : Nat) (exitCode : Int)
  /-- It went from stopped to running too often in the window. -/
  | lxcFlappingIn5Min (transitions : Nat) (windowStart : Timestamp)
  /-- Its unit logged too many failures. -/
  | lxcJournalFailuresIn5Min (count : Nat) (windowStart : Timestamp)
  deriving DecidableEq, Repr

/-- `BreakerRecord`. -/
structure BreakerRecord where
  host : String
  runtime : RuntimeKind
  containerId : String
  /-- When the reconciler last started it. -/
  lastOrcaStartAt : Option Timestamp
  /-- The restart count that deltas are taken against. -/
  restartCountSnapshot : Option Nat
  recentStarts : List Timestamp
  status : BreakerStatus
  heldReason : Option HoldReason
  heldSince : Option Timestamp
  /-- When the operator was told of the hold. -/
  notifiedAt : Option Timestamp
  /-- The state at the end of the last `arm`. -/
  lastObservedState : Option ContainerState
  deriving DecidableEq, Repr

/-- `RecordKey::from_record`. -/
def BreakerRecord.key (r : BreakerRecord) : RecordKey := ⟨r.host, r.runtime, r.containerId⟩

/-- `BreakerRecord::fresh`. -/
def BreakerRecord.fresh (key : RecordKey) : BreakerRecord where
  host := key.host
  runtime := key.runtime
  containerId := key.containerId
  lastOrcaStartAt := none
  restartCountSnapshot := none
  recentStarts := []
  status := .watching
  heldReason := none
  heldSince := none
  notifiedAt := none
  lastObservedState := none

/-- `OBSERVATION_WINDOW`. -/
def observationWindow : Timestamp := seconds (5 * 60)

/-- `DOCKER_RESTART_THRESHOLD`. -/
def dockerRestartThreshold : Nat := 3

/-- `FAST_REEXIT_WITHIN`, in seconds. -/
def fastReexitWithin : Int := 60

/-- `LXC_TRANSITION_THRESHOLD`. -/
def lxcTransitionThreshold : Nat := 3

/-- `LXC_JOURNAL_FAILURE_THRESHOLD`. -/
def lxcJournalFailureThreshold : Nat := 3

/-- `prune_window`: drop the starts that left the window. -/
def BreakerRecord.pruneWindow (r : BreakerRecord) (now : Timestamp) : BreakerRecord :=
  { r with recentStarts := r.recentStarts.filter fun t => now - observationWindow ≤ t }

/-! ## Folding an observation -/

/-- `fold_owns_start_count`. -/
def foldOwnsStartCount : RuntimeKind → Bool
  | .lxc => true
  | _ => false

/-- `fold_docker`: restarts since the snapshot are starts at this moment. -/
def foldDocker (r : BreakerRecord) (c : Container) (now : Timestamp) : BreakerRecord :=
  match r.restartCountSnapshot with
  | none => { r with restartCountSnapshot := some c.restartCount }
  | some baseline =>
    if baseline < c.restartCount then
      -- the delta is clamped to 1024
      { r with
        recentStarts := r.recentStarts ++ List.replicate (min (c.restartCount - baseline) 1024) now
        restartCountSnapshot := some c.restartCount }
    else r

/-- `fold_lxc`: a container that was stopped and runs now was started. -/
def foldLxc (r : BreakerRecord) (c : Container) (obs : HostObservation) (now : Timestamp) :
    BreakerRecord :=
  match obs.lxcPreviousState with
  | some prev =>
    if c.state = .running ∧ (prev = .exited ∨ prev = .dead ∨ prev = .stopping) then
      { r with recentStarts := r.recentStarts ++ [now] }
    else r
  | none => r

/-- `fold_observation`. -/
def foldObservation (r : BreakerRecord) (c : Container) (obs : HostObservation) (now : Timestamp) :
    BreakerRecord :=
  match c.runtime with
  | .docker => foldDocker r c now
  | .lxc => foldLxc r c obs now
  | .podman | .nspawn => r

/-! ## The classifier -/

/-- The earliest start in the window. -/
def windowStart (r : BreakerRecord) (now : Timestamp) : Timestamp :=
  r.recentStarts.min?.getD (now - observationWindow)

/-- `classify_docker`. -/
def classifyDocker (r : BreakerRecord) (c : Container) (now : Timestamp) : Option HoldReason :=
  if dockerRestartThreshold < r.recentStarts.length then
    some (.restartStormIn5Min (r.recentStarts.length % 2 ^ 32) (windowStart r now))
  else
    match r.lastOrcaStartAt, c.exitCode with
    | some lastStart, some code =>
      let elapsedSecs := now.unixSeconds - lastStart.unixSeconds
      if c.state = .exited ∧ code ≠ 0 ∧ 0 ≤ elapsedSecs ∧ elapsedSecs ≤ fastReexitWithin then
        some (.fastReexitAfterOrcaStart (max elapsedSecs 0).toNat code)
      else none
    | _, _ => none

/-- A line of the journal that reports a failure. -/
def isFailureLine (line : String) : Bool :=
  let lower := toAsciiLowercase line
  containsText lower "failed to start" || containsText lower "exited with status"

/-- `classify_lxc`. -/
def classifyLxc (r : BreakerRecord) (obs : HostObservation) (now : Timestamp) :
    Option HoldReason :=
  if lxcTransitionThreshold < r.recentStarts.length % 2 ^ 32 then
    some (.lxcFlappingIn5Min (r.recentStarts.length % 2 ^ 32) (windowStart r now))
  else
    match obs.lxcJournalTail with
    | some tail =>
      let count := (lines tail).countP isFailureLine % 2 ^ 32
      if lxcJournalFailureThreshold < count then
        some (.lxcJournalFailuresIn5Min count (now - observationWindow))
      else none
    | none => none

/-- `classify`. -/
def classify (r : BreakerRecord) (c : Container) (obs : HostObservation) (now : Timestamp) :
    Option HoldReason :=
  match c.runtime with
  | .docker => classifyDocker r c now
  | .lxc => classifyLxc r obs now
  | .podman | .nspawn => none

/-! ## The operations -/

/-- The store: one record for each container. -/
abbrev BreakerStore := KeyedTable BreakerRecord.key

/-- `BreakerStore::save`. -/
def save (record : BreakerRecord) (store : BreakerStore) : BreakerStore :=
  store.upsert record (fun _ => record) fun _ _ => rfl

/-- `BreakerDecision`. -/
inductive BreakerDecision where
  | proceed
  | hold (reason : HoldReason) (notifiedAt : Option Timestamp)
  deriving DecidableEq, Repr

/-- `ArmRequest`, without the store. -/
structure ArmRequest where
  container : Container
  observation : HostObservation
  now : Timestamp
  /-- Whether the reconciler starts the container if the breaker lets it. -/
  initiatingStart : Bool
  deriving DecidableEq, Repr

/-- The observation with the state of the previous `arm`, unless the caller gives one. -/
def overlay (record : BreakerRecord) (obs : HostObservation) : HostObservation :=
  if obs.lxcPreviousState.isSome then obs
  else { obs with lxcPreviousState := record.lastObservedState }

/-- The record and the decision of a tick that classifies. -/
def judge (req : ArmRequest) (record : BreakerRecord) : BreakerRecord × BreakerDecision :=
  let c := req.container
  let pruned := record.pruneWindow req.now
  let obs := overlay pruned req.observation
  let folded := foldObservation pruned c obs req.now
  let (judged, decision) :=
    match classify folded c obs req.now with
    | some reason =>
      ({ folded with
          status := .held
          heldReason := some reason
          heldSince := some req.now }, BreakerDecision.hold reason none)
    | none =>
      ({ folded with
          recentStarts :=
            if req.initiatingStart && !foldOwnsStartCount c.runtime then
              folded.recentStarts ++ [req.now]
            else folded.recentStarts
          lastOrcaStartAt :=
            if req.initiatingStart then some req.now else folded.lastOrcaStartAt
          restartCountSnapshot := some c.restartCount }, BreakerDecision.proceed)
  ({ judged with lastObservedState := some c.state }, decision)

/-- What `arm` makes of the record it loaded. -/
def armRecord (req : ArmRequest) (record : BreakerRecord) : BreakerRecord × BreakerDecision :=
  match record.status, record.heldReason with
  | .held, some reason =>
    ({ record with lastObservedState := some req.container.state },
      .hold reason record.notifiedAt)
  | _, _ => judge req record

/-- The record of a container, a fresh one at the first contact. -/
def loadOrFresh (store : BreakerStore) (key : RecordKey) : BreakerRecord :=
  (store.find key).getD (.fresh key)

/-- `arm`. -/
def arm (req : ArmRequest) (store : BreakerStore) : BreakerStore × BreakerDecision :=
  let (record, decision) := armRecord req (loadOrFresh store req.container.key)
  (save record store, decision)

/-- `BreakerError`, without the errors of a store that cannot be read or written. -/
inductive BreakerError where
  | notFound (key : RecordKey)
  | notHeld (current : BreakerStatus)
  deriving DecidableEq, Repr

/-- `mark_notified`. -/
def markNotified (key : RecordKey) (now : Timestamp) (store : BreakerStore) :
    Except BreakerError BreakerStore :=
  match store.find key with
  | none => .error (.notFound key)
  | some record => .ok (save { record with notifiedAt := some now } store)

/-- `unhold`. -/
def unhold (key : RecordKey) (store : BreakerStore) :
    Except BreakerError (BreakerStore × BreakerRecord) :=
  match store.find key with
  | none => .error (.notFound key)
  | some record =>
    if record.status ≠ .held then .error (.notHeld record.status)
    else
      let cleared := { record with
        status := .watching
        heldReason := none
        heldSince := none
        notifiedAt := none
        recentStarts := [] }
      .ok (save cleared store, cleared)

/-- `breaker_record_is_actionable`. -/
def isActionable (record : BreakerRecord) : Bool := record.status == .held

/-- `retain_active`. -/
def retainActive (liveKeys : List RecordKey) (store : BreakerStore) : BreakerStore :=
  store.filter fun record => liveKeys.contains record.key || isActionable record

/-- A call on the store. -/
inductive Action where
  | arm (req : ArmRequest)
  | markNotified (key : RecordKey) (now : Timestamp)
  | unhold (key : RecordKey)
  | retainActive (liveKeys : List RecordKey)

/-- The store after a call; a call that fails leaves it as it is. -/
def step (store : BreakerStore) : Action → BreakerStore
  | .arm req => (arm req store).1
  | .markNotified key now => (markNotified key now store).toOption.getD store
  | .unhold key => ((unhold key store).toOption.map Prod.fst).getD store
  | .retainActive liveKeys => retainActive liveKeys store

/-- The call is a successful `unhold` of the container. -/
def Action.unholds (key : RecordKey) (store : BreakerStore) : Action → Bool
  | .unhold key' => key' == key && (Breaker.unhold key' store).isOk
  | _ => false

/-! ## What the operations do to a record -/

lemma find_save (record : BreakerRecord) (store : BreakerStore) (key : RecordKey) :
    (save record store).find key = if key = record.key then some record else store.find key := by
  unfold save
  rw [KeyedTable.find_upsert]
  congr 1
  cases store.find key with
  | none => rfl
  | some old => rfl

lemma key_loadOrFresh (store : BreakerStore) (key : RecordKey) :
    (loadOrFresh store key).key = key := by
  unfold loadOrFresh
  cases h : store.find key with
  | none => rfl
  | some record => exact KeyedTable.key_of_find h

/-- Folding an observation counts starts and restarts only. -/
lemma foldObservation_frame (r : BreakerRecord) (c : Container) (obs : HostObservation)
    (now : Timestamp) :
    (foldObservation r c obs now).key = r.key ∧
      (foldObservation r c obs now).lastOrcaStartAt = r.lastOrcaStartAt ∧
        (foldObservation r c obs now).status = r.status := by
  unfold foldObservation foldDocker foldLxc
  cases c.runtime with
  | docker =>
    dsimp only
    cases r.restartCountSnapshot with
    | none => exact ⟨rfl, rfl, rfl⟩
    | some baseline =>
      dsimp only
      split <;> exact ⟨rfl, rfl, rfl⟩
  | lxc =>
    dsimp only
    cases obs.lxcPreviousState with
    | none => exact ⟨rfl, rfl, rfl⟩
    | some prev =>
      dsimp only
      split <;> exact ⟨rfl, rfl, rfl⟩
  | podman => exact ⟨rfl, rfl, rfl⟩
  | nspawn => exact ⟨rfl, rfl, rfl⟩

/-- A tick that classifies keeps the key; if it holds the container, the record says so and no start
is stamped. -/
lemma judge_spec (req : ArmRequest) (record : BreakerRecord) :
    (judge req record).1.key = record.key ∧
      ∀ reason notified, (judge req record).2 = .hold reason notified →
        (judge req record).1.status = .held ∧ (judge req record).1.heldReason = some reason ∧
          (judge req record).1.lastOrcaStartAt = record.lastOrcaStartAt := by
  have hframe := foldObservation_frame (record.pruneWindow req.now) req.container
    (overlay (record.pruneWindow req.now) req.observation) req.now
  dsimp only [judge]
  cases classify _ req.container _ req.now with
  | none => exact ⟨hframe.1, fun reason notified h => by cases h⟩
  | some reason =>
    refine ⟨hframe.1, fun reason' notified h => ?_⟩
    obtain ⟨rfl, -⟩ := BreakerDecision.hold.inj h
    exact ⟨rfl, rfl, hframe.2.1⟩

lemma armRecord_of_held {record : BreakerRecord} {reason : HoldReason} (req : ArmRequest)
    (hstatus : record.status = .held) (hreason : record.heldReason = some reason) :
    armRecord req record = ({ record with lastObservedState := some req.container.state },
      .hold reason record.notifiedAt) := by
  unfold armRecord
  rw [hstatus, hreason]

/-- A record that is not held, or has no reason for it, is classified. -/
lemma armRecord_of_not_held {record : BreakerRecord} (req : ArmRequest)
    (h : record.status = .held → record.heldReason = none) :
    armRecord req record = judge req record := by
  unfold armRecord
  cases hstatus : record.status with
  | held => rw [h hstatus]
  | watching => rfl
  | tentativeHold => rfl

/-- Whatever `arm` makes of a record, it keeps the key; if it holds the container, the record says
so and no start is stamped. -/
lemma armRecord_spec (req : ArmRequest) (record : BreakerRecord) :
    (armRecord req record).1.key = record.key ∧
      ∀ reason notified, (armRecord req record).2 = .hold reason notified →
        (armRecord req record).1.status = .held ∧
          (armRecord req record).1.heldReason = some reason ∧
          (armRecord req record).1.lastOrcaStartAt = record.lastOrcaStartAt := by
  by_cases hheld : record.status = .held → record.heldReason = none
  · rw [armRecord_of_not_held req hheld]
    exact judge_spec req record
  · rw [Classical.not_imp] at hheld
    obtain ⟨hstatus, hsome⟩ := hheld
    obtain ⟨reason, hreason⟩ := Option.ne_none_iff_exists'.mp hsome
    rw [armRecord_of_held req hstatus hreason]
    refine ⟨rfl, fun reason' notified h => ?_⟩
    obtain ⟨rfl, -⟩ := BreakerDecision.hold.inj h
    exact ⟨hstatus, hreason, rfl⟩

/-- After `arm` the store has the new record under the container's key. -/
lemma find_arm (req : ArmRequest) (store : BreakerStore) (key : RecordKey) :
    (arm req store).1.find key =
      if key = req.container.key then
        some (armRecord req (loadOrFresh store req.container.key)).1
      else store.find key := by
  have hkey : (armRecord req (loadOrFresh store req.container.key)).1.key = req.container.key := by
    rw [(armRecord_spec req _).1, key_loadOrFresh]
  unfold arm
  rw [find_save, hkey]

/-! ## A hold is sticky -/

/-- What a record keeps as long as its container is held. -/
structure Hold where
  reason : HoldReason
  since : Option Timestamp
  /-- The last start of the reconciler's. -/
  lastStart : Option Timestamp

/-- The record of a held container. -/
structure Hold.Of (hold : Hold) (record : BreakerRecord) : Prop where
  status : record.status = .held
  reason : record.heldReason = some hold.reason
  since : record.heldSince = hold.since
  lastStart : record.lastOrcaStartAt = hold.lastStart

/-- The container has a record in the store, which is that of the hold. -/
def Holding (key : RecordKey) (hold : Hold) (store : BreakerStore) : Prop :=
  ∃ record, store.find key = some record ∧ hold.Of record

variable {key : RecordKey} {hold : Hold} {store : BreakerStore}

/-- An `arm` that holds a container begins a hold, or continues one. -/
lemma holding_of_arm {req : ArmRequest} {reason : HoldReason} {notified : Option Timestamp}
    (h : (arm req store).2 = .hold reason notified) :
    ∃ hold : Hold, hold.reason = reason ∧
      hold.lastStart = (loadOrFresh store req.container.key).lastOrcaStartAt ∧
      Holding req.container.key hold (arm req store).1 := by
  obtain ⟨-, hspec⟩ := armRecord_spec req (loadOrFresh store req.container.key)
  obtain ⟨hstatus, hreason, hstart⟩ := hspec reason notified h
  refine ⟨⟨reason, _, _⟩, rfl, rfl, _, ?_, hstatus, hreason, rfl, hstart⟩
  rw [find_arm, if_pos rfl]

/-- While a container is held, `arm` answers with the reason of the hold. -/
lemma arm_of_holding (h : Holding key hold store) {req : ArmRequest}
    (hkey : req.container.key = key) :
    ∃ notified, (arm req store).2 = .hold hold.reason notified := by
  obtain ⟨record, hfind, hof⟩ := h
  refine ⟨record.notifiedAt, ?_⟩
  have hload : loadOrFresh store req.container.key = record := by
    rw [loadOrFresh, hkey, hfind]
    rfl
  unfold arm
  rw [hload, armRecord_of_held req hof.status hof.reason]

/-- `arm` keeps a hold: that of its own container is answered from, others are not touched. -/
lemma holding_arm (h : Holding key hold store) (req : ArmRequest) :
    Holding key hold (arm req store).1 := by
  obtain ⟨record, hfind, hof⟩ := h
  by_cases hkey : key = req.container.key
  · have hload : loadOrFresh store req.container.key = record := by
      rw [loadOrFresh, ← hkey, hfind]
      rfl
    refine ⟨{ record with lastObservedState := some req.container.state }, ?_, hof.status,
      hof.reason, hof.since, hof.lastStart⟩
    rw [find_arm, if_pos hkey, hload, armRecord_of_held req hof.status hof.reason]
  · exact ⟨record, by rw [find_arm, if_neg hkey, hfind], hof⟩

lemma holding_save_of_ne (h : Holding key hold store) {other : BreakerRecord}
    (hne : other.key ≠ key) : Holding key hold (save other store) := by
  obtain ⟨record, hfind, hof⟩ := h
  refine ⟨record, ?_, hof⟩
  rw [find_save, if_neg hne.symm, hfind]

/-- A notification is noted in the record, the hold stays. -/
lemma holding_markNotified (h : Holding key hold store) (key' : RecordKey) (now : Timestamp) :
    Holding key hold (step store (.markNotified key' now)) := by
  dsimp only [step, markNotified]
  cases hfind' : store.find key' with
  | none => exact h
  | some other =>
    by_cases hkey : other.key = key
    · obtain ⟨record, hfind, hof⟩ := h
      have hsame : key' = key := (KeyedTable.key_of_find hfind').symm.trans hkey
      rw [hsame] at hfind'
      obtain rfl : record = other := Option.some_inj.mp (hfind.symm.trans hfind')
      refine ⟨{ record with notifiedAt := some now }, ?_, hof.status, hof.reason, hof.since,
        hof.lastStart⟩
      exact (find_save _ store key).trans (if_pos hkey.symm)
    · exact holding_save_of_ne h hkey

/-- An `unhold` of a held container succeeds. -/
lemma unhold_isOk_of_holding (h : Holding key hold store) : (unhold key store).isOk = true := by
  obtain ⟨record, hfind, hof⟩ := h
  unfold unhold
  rw [hfind]
  dsimp only
  rw [if_neg (not_not.mpr hof.status)]
  rfl

/-- An `unhold` that is not one of the container does not touch the hold. -/
lemma holding_unhold (h : Holding key hold store) {key' : RecordKey}
    (hother : (Action.unhold key').unholds key store = false) :
    Holding key hold (step store (.unhold key')) := by
  have hne : key' ≠ key := by
    rintro rfl
    simp [Action.unholds, unhold_isOk_of_holding h] at hother
  dsimp only [step, unhold]
  cases hfind' : store.find key' with
  | none => exact h
  | some other =>
    have hkey' : other.key = key' := KeyedTable.key_of_find hfind'
    dsimp only
    split
    · exact h
    · exact holding_save_of_ne h fun heq => hne (hkey'.symm.trans heq)

/-- The garbage collection keeps a held record, whether its container is live or not. -/
lemma holding_retainActive (h : Holding key hold store) (liveKeys : List RecordKey) :
    Holding key hold (retainActive liveKeys store) := by
  obtain ⟨record, hfind, hof⟩ := h
  refine ⟨record, ?_, hof⟩
  have hkeep : (liveKeys.contains record.key || isActionable record) = true := by
    rw [isActionable, hof.status]
    exact Bool.or_true _
  rw [retainActive, KeyedTable.find_filter, hfind, Option.filter_some, if_pos hkeep]

/-- Every call but a successful `unhold` of the container keeps the hold. -/
lemma holding_step (h : Holding key hold store) {a : Action} (ha : a.unholds key store = false) :
    Holding key hold (step store a) := by
  cases a with
  | arm req => exact holding_arm h req
  | markNotified key' now => exact holding_markNotified h key' now
  | unhold key' => exact holding_unhold h ha
  | retainActive liveKeys => exact holding_retainActive h liveKeys

/-- From the moment `arm` holds a container, and as long as no `unhold` of it succeeds, in every
state of every run the container's record is in the store, held for the same reason since the same
time; every `arm` for the container answers with this reason; and neither the `arm` that began the
hold nor any later one stamps a start. -/
theorem hold_is_sticky {req : ArmRequest} {store : BreakerStore} {reason : HoldReason}
    {notified : Option Timestamp} (hhold : (arm req store).2 = .hold reason notified)
    {run : List Action}
    (hrun : Invariant.Along step (fun s a => a.unholds req.container.key s = false)
      (arm req store).1 run) :
    ∃ since, ∀ before, before <+: run →
      (∃ record, (before.foldl step (arm req store).1).find req.container.key = some record ∧
        record.status = .held ∧ record.heldReason = some reason ∧ record.heldSince = since ∧
        record.lastOrcaStartAt = (loadOrFresh store req.container.key).lastOrcaStartAt) ∧
      ∀ req' : ArmRequest, req'.container.key = req.container.key →
        ∃ notified', (arm req' (before.foldl step (arm req store).1)).2 =
          .hold reason notified' := by
  obtain ⟨hold, rfl, hstart, hholding⟩ := holding_of_arm hhold
  refine ⟨hold.since, fun before hbefore => ?_⟩
  have hafter : Holding req.container.key hold (before.foldl step (arm req store).1) :=
    Invariant.foldl_invariant_along (I := Holding req.container.key hold)
      (fun s a hs ha => holding_step hs ha)
      (Invariant.along_of_initial hrun hbefore) hholding
  refine ⟨?_, fun req' hkey => arm_of_holding hafter hkey⟩
  obtain ⟨record, hfind, hof⟩ := hafter
  exact ⟨record, hfind, hof.status, hof.reason, hof.since, hof.lastStart.trans hstart⟩

/-- A container that docker has restarted four times since the reconciler last looked. -/
def sampleContainer : Container where
  id := "c1"
  name := "web"
  runtime := .docker
  host := "h1"
  state := .running
  labels := []
  restartCount := 4
  exitCode := none

/-- A store that saw the container when it had not been restarted. -/
def sampleStore : BreakerStore :=
  save { BreakerRecord.fresh sampleContainer.key with restartCountSnapshot := some 0 } .empty

/-- The hold of a container survives its disappearance, a notification, and a later `arm`. -/
theorem hold_is_sticky_sample :
    ∃ since, ∀ before, before <+: [Action.retainActive [],
        .markNotified sampleContainer.key (seconds 40),
        .arm ⟨sampleContainer, ⟨none, none⟩, seconds 1000, true⟩] →
      (∃ record, (before.foldl step
          (arm ⟨sampleContainer, ⟨none, none⟩, seconds 30, true⟩ sampleStore).1).find
            sampleContainer.key = some record ∧
        record.status = .held ∧
        record.heldReason = some (.restartStormIn5Min 4 (seconds 30)) ∧
        record.heldSince = since ∧ record.lastOrcaStartAt = none) ∧
      ∀ req' : ArmRequest, req'.container.key = sampleContainer.key →
        ∃ notified', (arm req' (before.foldl step
          (arm ⟨sampleContainer, ⟨none, none⟩, seconds 30, true⟩ sampleStore).1)).2 =
            .hold (.restartStormIn5Min 4 (seconds 30)) notified' := by
  have hhold : (arm ⟨sampleContainer, ⟨none, none⟩, seconds 30, true⟩ sampleStore).2 =
      .hold (.restartStormIn5Min 4 (seconds 30)) none := by decide
  exact hold_is_sticky hhold (by decide)

end Orca.Containers.Breaker
