import Mathlib.Data.List.Basic

/-!
# Consumers that were left stopped

A container that pins a dead mount is restarted once the mount of the host is healthy again.  When
the restart leaves the container stopped, the sweep writes it down in a ledger, and starts it in a
later sweep, after the mount has been healthy for some sweeps.  Each owner has a ledger of its own,
in a file.

`recoverConsumersForOwnerAt` is one sweep.  What the container runtimes, the mount table and the
file system answer during a sweep is in `Sweep`; nothing is assumed of it.  A sweep has what it asks
the runtimes to start and to restart among its results.
-/

namespace Orca.StoppedConsumers

/-! ## Runtimes -/

/-- `RESTORE_CONFIRM_SWEEPS`. -/
def restoreConfirmSweeps : ℕ := 3

/-- `MAX_START_FAILURES`. -/
def maxStartFailures : ℕ := 5

/-- `NO_RESTORE_LABEL`. -/
def noRestoreLabel : String := "orca.mount_recover.no-restore"

/-- `ConsumerBind`. -/
structure ConsumerBind where
  containerId : String
  containerName : String
  hostSource : String
  containerTarget : String

/-- `ConsumerProbe`. -/
inductive ConsumerProbe where
  | ok
  | stale

/-- `ConsumerState`. -/
inductive ConsumerState where
  | gone
  | running
  | stopped (finishedAt : String) (noRestore : Bool)
  | unrestorable (status : String)

/-- `StoppedConsumer`. -/
structure StoppedConsumer where
  runtime : String
  containerId : String
  containerName : String
  hostSource : String
  /-- `finished_at`: which stop it was. -/
  finishedAt : String
  healthySweeps : ℕ
  startFailures : ℕ
deriving DecidableEq

/-- `ConsumerRecoverResult`. -/
structure ConsumerRecoverResult where
  healthy : List String
  recovered : List String
  skippedHostStale : List String
  stillStale : List String
  errors : List String
  noConsumersFound : Bool

/-- `ConsumerRecoverResult::default`. -/
def ConsumerRecoverResult.default : ConsumerRecoverResult := ⟨[], [], [], [], [], false⟩

/-- What a runtime answers about a bind, one field for each time it may be asked. -/
structure BindAnswers where
  probe : Except String ConsumerProbe
  restart : Except String Unit
  /-- To the question for the state after it. -/
  state : Except String (Option ConsumerState)
  reprobe : Except String ConsumerProbe

/-- `ContainerRuntime`, as what it answers during a sweep. -/
structure ContainerRuntime where
  name : String
  /-- To the question for the state of a container that is in the ledger. -/
  state : String → Except String (Option ConsumerState)
  /-- To the start of such a container. -/
  start : String → Except String Unit
  /-- `binds_under`, each bind with what is answered about it. -/
  bindsUnder : Except String (List (ConsumerBind × BindAnswers))
  startGated : List String

/-! ## Consumers of stale mounts -/

/-- What is done about a bind. -/
structure SweptBind where
  result : ConsumerRecoverResult
  restarted : Bool
  stopped : Option StoppedConsumer

/-- What is recorded of a container after its restart. -/
def leftStopped (rt : ContainerRuntime) (bind : ConsumerBind) (answers : BindAnswers) :
    Option StoppedConsumer :=
  match answers.state with
  | .ok (some (.stopped finishedAt _)) =>
    some ⟨rt.name, bind.containerId, bind.containerName, bind.hostSource, finishedAt, 0, 0⟩
  | _ => none

/-- What is reported of a bind whose container was restarted. -/
def reportRestart (bind : ConsumerBind) (answers : BindAnswers) : ConsumerRecoverResult :=
  match answers.restart with
  | .ok () =>
    match answers.reprobe with
    | .ok .ok => { ConsumerRecoverResult.default with recovered := [bind.containerName] }
    | .ok .stale => { ConsumerRecoverResult.default with stillStale := [bind.containerName] }
    | .error e =>
      { ConsumerRecoverResult.default with
        stillStale := [bind.containerName]
        errors := [s!"re-probe {bind.containerName}: {e}"] }
  | .error e =>
    { ConsumerRecoverResult.default with
      stillStale := [bind.containerName]
      errors := [s!"restart {bind.containerName}: {e}"] }

/-- One bind of `sweep_runtime`. -/
def sweepBind (rt : ContainerRuntime) (hostHealthy : String → Bool)
    (b : ConsumerBind × BindAnswers) : SweptBind :=
  match b.2.probe with
  | .ok .ok => ⟨{ ConsumerRecoverResult.default with healthy := [b.1.containerName] }, false, none⟩
  | .ok .stale =>
    if hostHealthy b.1.hostSource then
      ⟨reportRestart b.1 b.2, true, leftStopped rt b.1 b.2⟩
    else
      ⟨{ ConsumerRecoverResult.default with skippedHostStale := [b.1.containerName] }, false, none⟩
  | .error e =>
    ⟨{ ConsumerRecoverResult.default with errors := [s!"probe {b.1.containerName}: {e}"] },
      false, none⟩

/-- One result behind another. -/
def ConsumerRecoverResult.append (r r' : ConsumerRecoverResult) : ConsumerRecoverResult :=
  ⟨r.healthy ++ r'.healthy, r.recovered ++ r'.recovered, r.skippedHostStale ++ r'.skippedHostStale,
    r.stillStale ++ r'.stillStale, r.errors ++ r'.errors, r.noConsumersFound⟩

/-- `sweep_runtime`: the result, the containers that are restarted and those that were left
stopped. -/
def sweepRuntime (rt : ContainerRuntime) (hostHealthy : String → Bool) :
    ConsumerRecoverResult × List String × List StoppedConsumer :=
  match rt.bindsUnder with
  | .error e =>
    ({ ConsumerRecoverResult.default with errors := [s!"enumerate consumer binds: {e}"] }, [], [])
  | .ok [] => ({ ConsumerRecoverResult.default with noConsumersFound := true }, [], [])
  | .ok binds =>
    ((binds.map fun b => (sweepBind rt hostHealthy b).result).foldl ConsumerRecoverResult.append
        ConsumerRecoverResult.default,
      (binds.filter fun b => (sweepBind rt hostHealthy b).restarted).map fun b => b.1.containerId,
      binds.filterMap fun b => (sweepBind rt hostHealthy b).stopped)

/-! ## Consumers in the ledger -/

/-- What is done about an entry of the ledger. -/
structure RestoredEntry where
  keep : Option StoppedConsumer
  started : Bool
  recovered : Option String
  /-- What is reported as an error. -/
  error : Option String

/-- The start of an entry that is confirmed. -/
def startEntry (rt : ContainerRuntime) (e : StoppedConsumer) : RestoredEntry :=
  match rt.start e.containerId with
  | .ok () => ⟨none, true, some s!"restored:{e.containerName}", none⟩
  | .error err =>
    let e := { e with startFailures := e.startFailures + 1 }
    if maxStartFailures ≤ e.startFailures then
      ⟨none, true, none,
        some s!"giving up on {e.containerName} after {maxStartFailures} failed starts: {err}"⟩
    else ⟨some e, true, none, some s!"start {e.containerName}: {err}"⟩

/-- An entry whose container is still stopped. -/
def confirmEntry (rt : ContainerRuntime) (hostHealthy : String → Option Bool)
    (e : StoppedConsumer) : RestoredEntry :=
  match hostHealthy e.hostSource with
  | none => ⟨some e, false, none, none⟩
  | some false => ⟨some { e with healthySweeps := 0 }, false, none, none⟩
  | some true =>
    let e := { e with healthySweeps := e.healthySweeps + 1 }
    if e.healthySweeps < restoreConfirmSweeps then ⟨some e, false, none, none⟩
    else startEntry rt e

/-- One entry of `restore_stopped`. -/
def restoreEntry (rt : ContainerRuntime) (hostHealthy : String → Option Bool)
    (e : StoppedConsumer) : RestoredEntry :=
  if e.runtime ≠ rt.name then ⟨some e, false, none, none⟩
  else
    match rt.state e.containerId with
    | .ok (some (.stopped finishedAt noRestore)) =>
      if finishedAt ≠ e.finishedAt then ⟨none, false, none, none⟩
      else if noRestore then
        ⟨none, false, none, some s!"{e.containerName}: {noRestoreLabel}=true, not restoring"⟩
      else confirmEntry rt hostHealthy e
    | .ok (some (.unrestorable status)) =>
      ⟨none, false, none, some s!"{e.containerName} is {status}, not restorable; dropped"⟩
    | .ok (some _) => ⟨none, false, none, none⟩
    | .ok none => ⟨some e, false, none, none⟩
    | .error err => ⟨some e, false, none, some s!"state {e.containerName}: {err}"⟩

/-- `restore_stopped`: the ledger after it, the entries whose containers are started, and the
result. -/
def restoreStopped (rt : ContainerRuntime) (hostHealthy : String → Option Bool)
    (ledger : List StoppedConsumer) (result : ConsumerRecoverResult) :
    List StoppedConsumer × List StoppedConsumer × ConsumerRecoverResult :=
  (ledger.filterMap fun e => (restoreEntry rt hostHealthy e).keep,
    ledger.filter fun e => (restoreEntry rt hostHealthy e).started,
    { result with
      recovered := result.recovered ++
        ledger.filterMap fun e => (restoreEntry rt hostHealthy e).recovered
      errors := result.errors ++ ledger.filterMap fun e => (restoreEntry rt hostHealthy e).error })

/-! ## A sweep -/

/-- `lock_ledger`. -/
inductive LockAnswer where
  | held
  | inProgress
  | error (e : String)

/-- Reading the file of the ledger. -/
inductive ReadAnswer where
  /-- The file is what was written last, or it is not there. -/
  | fine
  | failed (e : String)
  /-- The file is corrupt; it is moved to another place, or cannot be moved. -/
  | corrupt (e : String) (moved : Except String String)

/-- Writing the file of the ledger. -/
inductive SaveAnswer where
  | saved
  | failed (e : String)
  /-- The new file is in its place, and syncing the directory fails. -/
  | unsynced (e : String)
deriving DecidableEq

/-- The new file is in its place. -/
def SaveAnswer.written : SaveAnswer → Bool
  | .saved | .unsynced _ => true
  | .failed _ => false

/-- What is reported of the writing. -/
def SaveAnswer.errors : SaveAnswer → List String
  | .saved => []
  | .failed e | .unsynced e => [s!"persist stopped-consumer ledger: {e}"]

/-- What is answered during a sweep. -/
structure Sweep where
  runtimes : List ContainerRuntime
  /-- `host_healthy`; nothing for a source that the owner does not manage. -/
  hostHealthy : String → Option Bool
  home : Bool
  path : String
  lock : LockAnswer
  read : ReadAnswer
  save : SaveAnswer
  /-- How a text is printed for debugging. -/
  debug : String → String

/-- `valid_owner`. -/
def validOwner (owner : String) : Bool :=
  decide (1 ≤ owner.utf8ByteSize) && decide (owner.utf8ByteSize ≤ 32) &&
    owner.toList.all fun c => c.isLower || c.isDigit || c == '_' || c == '-'

/-- `load_stopped_at`: the ledger, the file after it and what is reported. -/
def loadStoppedAt (s : Sweep) (file : Option (List StoppedConsumer)) :
    List StoppedConsumer × Option (List StoppedConsumer) × List String :=
  match s.read with
  | .fine => (file.getD [], file, [])
  | .failed e => ([], file, [s!"read stopped-consumer ledger {s.path}: {e}"])
  | .corrupt e (.ok aside) =>
    ([], none, [s!"corrupt stopped-consumer ledger {s.path}: {e}; moved to {aside}"])
  | .corrupt e (.error re) =>
    ([], file, [s!"corrupt stopped-consumer ledger {s.path}: {e}; could not move aside: {re}"])

/-- What a sweep has done so far. -/
structure Progress where
  ledger : List StoppedConsumer
  /-- The entries whose containers are started. -/
  started : List StoppedConsumer
  /-- The containers that are restarted, each with its runtime. -/
  restarted : List (String × String)
  /-- What is recorded of those that were left stopped. -/
  stopped : List StoppedConsumer
  merged : ConsumerRecoverResult

/-- The records of a runtime's sweep in the ledger, one for each container. -/
def record (ledger : List StoppedConsumer) (s : StoppedConsumer) : List StoppedConsumer :=
  (ledger.filter fun e => !(e.runtime == s.runtime && e.containerId == s.containerId)) ++ [s]

/-- One runtime of the sweep. -/
def recoverRuntime (hostHealthy : String → Option Bool) (p : Progress) (rt : ContainerRuntime) :
    Progress :=
  let healthyBool := fun source => hostHealthy source == some true
  let (ledger, started, merged) := restoreStopped rt hostHealthy p.ledger p.merged
  let (c, restarted, stopped) := sweepRuntime rt healthyBool
  let merged := merged.append c
  let merged := { merged with noConsumersFound := merged.noConsumersFound && c.noConsumersFound }
  let merged :=
    if rt.startGated.isEmpty then merged
    else
      { merged with
        noConsumersFound := false
        recovered := merged.recovered ++ rt.startGated.map fun n => s!"started:{n}" }
  ⟨stopped.foldl record ledger, p.started ++ started,
    p.restarted ++ restarted.map fun id => (rt.name, id), p.stopped ++ stopped, merged⟩

/-- What a sweep does: the file of the ledger after it, and what it has done. -/
structure Swept where
  file : Option (List StoppedConsumer)
  /-- The entries whose containers are started. -/
  started : List StoppedConsumer
  /-- The containers that are restarted, each with its runtime. -/
  restarted : List (String × String)
  /-- What is recorded of those that were left stopped. -/
  stopped : List StoppedConsumer
  result : ConsumerRecoverResult

/-- The body of a sweep whose lock is held, on the ledger that was loaded. -/
def sweepLedger (s : Sweep) (ledger : List StoppedConsumer) (errors : List String) : Progress :=
  s.runtimes.foldl (recoverRuntime s.hostHealthy)
    ⟨ledger, [], [], [], { ConsumerRecoverResult.default with errors, noConsumersFound := true }⟩

/-- The ledger is written if it has changed. -/
def saveStoppedAt (s : Sweep) (file : Option (List StoppedConsumer)) (before : List StoppedConsumer)
    (p : Progress) : Swept :=
  if p.ledger = before then ⟨file, p.started, p.restarted, p.stopped, p.merged⟩
  else
    ⟨if s.save.written then some p.ledger else file, p.started, p.restarted, p.stopped,
      { p.merged with errors := p.merged.errors ++ s.save.errors }⟩

/-- `recover_consumers_for_owner_at`. -/
def recoverConsumersForOwnerAt (owner : String) (file : Option (List StoppedConsumer)) (s : Sweep) :
    Swept :=
  let refused (e : String) : Swept :=
    ⟨file, [], [], [],
      { ConsumerRecoverResult.default with errors := [e], noConsumersFound := true }⟩
  if !validOwner owner then
    refused s!"invalid owner {s.debug owner}: must match [a-z0-9_-]\x7b1,32\x7d"
  else if !s.home then
    let p := sweepLedger s []
      ["no orca home resolved: stopped consumers are not tracked or restored"]
    ⟨file, p.started, p.restarted, p.stopped, p.merged⟩
  else
    match s.lock with
    | .inProgress => refused s!"mount recovery sweep already in progress for {owner}"
    | .error e => refused s!"lock stopped-consumer ledger: {e}"
    | .held =>
      let (ledger, file, errors) := loadStoppedAt s file
      saveStoppedAt s file ledger (sweepLedger s ledger errors)

/-- The file of an owner after a run of sweeps. -/
def run (owner : String) (sweeps : List Sweep) : Option (List StoppedConsumer) :=
  sweeps.foldl (fun file s => (recoverConsumersForOwnerAt owner file s).file) none

end Orca.StoppedConsumers
