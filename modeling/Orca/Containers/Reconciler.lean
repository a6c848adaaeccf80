import Orca.Containers.Breaker

/-!
# The reconciler of containers

In a pass the reconciler asks every adapter for its containers, classifies each of them, and starts
those that should run and do not: the model of `classify`, `run_start_pipeline`,
`arm_and_dispatch_hold` and `reconcile`.  What the adapters and the host answer while a container is
looked at is a `Visit`.  The wedge detector is left out; it starts nothing and has its own store.

The hold of the breaker is consulted by arming it, and a pass does not arm it before every start: a
container that was created, is dead or has exited with the code 0 is started without, unless its
runtime is LXC.
-/

namespace Orca.Containers.Reconciler

open Breaker

/-! ## What a pass sees -/

/-- `RestartPolicy`. -/
inductive RestartPolicy where
  | no
  | onFailure
  | unlessStopped
  | always
  deriving DecidableEq, Repr

/-- `RestartPolicy::desires_running`. -/
def RestartPolicy.desiresRunning : RestartPolicy → Bool
  | .unlessStopped | .always => true
  | .no | .onFailure => false

/-- A row of the container list, as far as the reconciler reads it. -/
structure ListedContainer extends Container where
  restartPolicy : RestartPolicy
  mountSources : List String
  deriving DecidableEq, Repr

/-- `MountProbeResult`. -/
inductive MountProbeResult where
  | ok
  | stale
  | otherError (osError : Option Int)
  deriving DecidableEq, Repr

/-- What is answered while the reconciler looks at one container. -/
structure Visit where
  /-- The container, as its adapter lists it. -/
  container : ListedContainer
  /-- What the adapter observes on the host. -/
  observation : HostObservation
  /-- What the probe says of a mount source. -/
  probe : String → MountProbeResult
  /-- The time when the breaker is armed. -/
  now : Timestamp
  /-- When the hold was announced, if any backend delivers the event. -/
  announcedAt : Option Timestamp
  /-- Why the adapter does not start the container, if it does not. -/
  startError : Option String

/-- An adapter with its answer in one pass. -/
structure AdapterListing where
  runtime : RuntimeKind
  listing : Except String (List Visit)

/-! ## Rows -/

/-- `ReconcileAction`. -/
inductive ReconcileAction where
  | started
  | skippedPolicy
  | skippedLabel
  | blockedStaleMount
  | heldPendingBreaker
  | noOp
  deriving DecidableEq, Repr

/-- `SkipLabelReason`. -/
inductive SkipLabelReason where
  | skip
  | manual
  deriving DecidableEq, Repr

/-- `ReconcileReason`. -/
inductive ReconcileReason where
  | startedClean
  | startedTentative (exitCode : Option Int)
  | policyNotAutoStart (policy : RestartPolicy)
  | labelOverride (reason : SkipLabelReason)
  | staleMount (blockedSources : List String)
  | breakerHeld (exitCode : Option Int)
  | notACandidate (state : ContainerState)
  deriving DecidableEq, Repr

/-- `ReconcileRow`. -/
structure ReconcileRow where
  host : String
  runtime : RuntimeKind
  id : String
  name : String
  action : ReconcileAction
  reason : ReconcileReason
  deriving DecidableEq, Repr

/-- The row of a container. -/
def ListedContainer.row (c : ListedContainer) (action : ReconcileAction)
    (reason : ReconcileReason) : ReconcileRow :=
  ⟨c.host, c.runtime, c.id, c.name, action, reason⟩

/-- `classify`. -/
def classify (c : ListedContainer) : ReconcileRow :=
  if c.hasLabel "orca.skip" "true" then c.row .skippedLabel (.labelOverride .skip)
  else if c.hasLabel "orca.heal" "manual" then c.row .skippedLabel (.labelOverride .manual)
  else if !c.restartPolicy.desiresRunning then
    match c.state with
    | .running | .starting | .paused | .stopping => c.row .noOp (.notACandidate c.state)
    | .created | .exited | .dead | .unknown =>
        c.row .skippedPolicy (.policyNotAutoStart c.restartPolicy)
  else
    match c.state with
    | .running | .starting | .paused | .stopping | .unknown =>
        c.row .noOp (.notACandidate c.state)
    | .created | .dead => c.row .started .startedClean
    | .exited =>
        match c.exitCode with
        | none | some 0 => c.row .started .startedClean
        | some code => c.row .started (.startedTentative (some code))

/-! ## Starting a container -/

/-- `arm_on_every_start`. -/
def armOnEveryStart : RuntimeKind → Bool
  | .lxc => true
  | _ => false

/-- `arm_and_dispatch_hold`: the hold is noted as announced unless it was before. -/
def armAndDispatchHold (v : Visit) (initiatingStart : Bool) (store : BreakerStore) :
    BreakerStore × Option HoldReason :=
  match arm ⟨v.container.toContainer, v.observation, v.now, initiatingStart⟩ store with
  | (store, .proceed) => (store, none)
  | (store, .hold reason notifiedAt) =>
      match notifiedAt, v.announcedAt with
      | none, some announced =>
          (step store (.markNotified v.container.key announced), some reason)
      | _, _ => (store, some reason)

/-- `StartFailure`. -/
structure StartFailure where
  host : String
  runtime : RuntimeKind
  id : String
  name : String
  message : String

/-- A call of the adapter to start a container. -/
structure StartCall where
  visit : Visit
  /-- Whether the pass is a dry run. -/
  dryRun : Bool
  /-- The breaker store at the call. -/
  store : BreakerStore

/-- What comes of one container. -/
structure VisitResult where
  store : BreakerStore
  row : ReconcileRow
  /-- The start, if it is made. -/
  start : Option StartCall
  startFailure : Option StartFailure

/-- The mount sources that block a start. -/
def Visit.blockedSources (v : Visit) : List String :=
  v.container.mountSources.filter fun source => v.probe source = .stale

/-- The container has exited with another code than 0. -/
def ListedContainer.tentative (c : ListedContainer) : Bool :=
  c.state = .exited && c.exitCode ≠ none && c.exitCode ≠ some 0

/-- Whether the breaker is armed before the container is started. -/
def ListedContainer.arms (c : ListedContainer) : Bool := c.tentative || armOnEveryStart c.runtime

/-- What the breaker says before a start, if it is armed. -/
def breakerGate (dryRun : Bool) (v : Visit) (store : BreakerStore) :
    BreakerStore × Option HoldReason :=
  if !dryRun && v.container.arms then armAndDispatchHold v true store else (store, none)

/-- `run_start_pipeline`. -/
def runStartPipeline (dryRun : Bool) (v : Visit) (store : BreakerStore) : VisitResult :=
  let c := v.container
  if v.blockedSources ≠ [] then
    ⟨store, c.row .blockedStaleMount (.staleMount v.blockedSources), none, none⟩
  else
    match breakerGate dryRun v store with
    | (store, some _) => ⟨store, c.row .heldPendingBreaker (.breakerHeld c.exitCode), none, none⟩
    | (store, none) =>
        { store
          row :=
            c.row .started (if c.tentative then .startedTentative c.exitCode else .startedClean)
          start := if dryRun then none else some ⟨v, dryRun, store⟩
          startFailure :=
            if dryRun then none
            else v.startError.map fun message => ⟨c.host, c.runtime, c.id, c.name, message⟩ }

/-- What a pass does with one container. -/
def reconcileContainer (dryRun : Bool) (v : Visit) (store : BreakerStore) : VisitResult :=
  let row := classify v.container
  match row.action with
  | .skippedLabel | .skippedPolicy => ⟨store, row, none, none⟩
  | .noOp =>
      -- the breaker of a container that runs is armed without a start
      if !dryRun && armOnEveryStart v.container.runtime &&
          v.container.restartPolicy.desiresRunning then
        ⟨(armAndDispatchHold v false store).1, row, none, none⟩
      else ⟨store, row, none, none⟩
  | .started | .blockedStaleMount | .heldPendingBreaker => runStartPipeline dryRun v store

/-! ## Passes -/

/-- `AdapterFailure`. -/
structure AdapterFailure where
  runtime : RuntimeKind
  message : String

/-- A pass before its end. -/
structure PassState where
  store : BreakerStore
  /-- The keys of the containers that are listed. -/
  liveKeys : List RecordKey
  /-- Whether all adapters so far have listed their containers. -/
  allListed : Bool
  rows : List ReconcileRow
  adapterErrors : List AdapterFailure
  startErrors : List StartFailure
  starts : List StartCall

/-- One container of a pass. -/
def PassState.visit (dryRun : Bool) (p : PassState) (v : Visit) : PassState :=
  let result := reconcileContainer dryRun v p.store
  { p with
    store := result.store
    liveKeys := p.liveKeys ++ [v.container.key]
    rows := p.rows ++ [result.row]
    startErrors := p.startErrors ++ result.startFailure.toList
    starts := p.starts ++ result.start.toList }

/-- One adapter of a pass. -/
def PassState.listing (dryRun : Bool) (p : PassState) (a : AdapterListing) : PassState :=
  match a.listing with
  | .error message =>
      { p with adapterErrors := p.adapterErrors ++ [⟨a.runtime, message⟩], allListed := false }
  | .ok visits => visits.foldl (PassState.visit dryRun) p

/-- The order of the rows. -/
def rowLe (a b : ReconcileRow) : Bool :=
  a.host < b.host || a.host = b.host && (a.name < b.name || a.name = b.name && a.id ≤ b.id)

/-- A pass: what the adapters answer, and whether it is a dry run. -/
structure Pass where
  adapters : List AdapterListing
  /-- Whether nothing is to be started. -/
  dryRun : Bool

/-- `reconcile`. -/
def reconcile (pass : Pass) (store : BreakerStore) : PassState :=
  let p := pass.adapters.foldl (PassState.listing pass.dryRun) ⟨store, [], true, [], [], [], []⟩
  { p with
    store := if !pass.dryRun && p.allListed then retainActive p.liveKeys p.store else p.store
    rows := p.rows.mergeSort rowLe }

/-- What happens to the reconciler and its breaker store. -/
inductive Step where
  | pass (p : Pass)
  /-- The operator asks to clear a hold. -/
  | unhold (key : RecordKey)

/-- The breaker store after a step. -/
def stepStore (store : BreakerStore) : Step → BreakerStore
  | .pass p => (reconcile p store).store
  | .unhold key => step store (.unhold key)

/-- The starts of a step. -/
def stepStarts (store : BreakerStore) : Step → List StartCall
  | .pass p => (reconcile p store).starts
  | .unhold _ => []

/-- The starts of a run. -/
def runStarts : BreakerStore → List Step → List StartCall
  | _, [] => []
  | store, a :: as => stepStarts store a ++ runStarts (stepStore store a) as

/-- The step clears the hold of a container. -/
def Step.unholds (key : RecordKey) (store : BreakerStore) : Step → Bool
  | .pass _ => false
  | .unhold key' => (Action.unhold key').unholds key store

end Orca.Containers.Reconciler
