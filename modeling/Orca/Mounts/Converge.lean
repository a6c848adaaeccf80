import Mathlib.Data.List.AList
import Orca.Library.Streak
import Orca.Mounts.Source

/-!
# The convergence loop of the host's mounts

Every tick brings the mounts of this host closer to its placements.  It reads the kernel's mount
table and the ledger of the mounts that are its own, probes every placement and elects a source for
it, counts how long a mount has been stale or a swap worthwhile, plans releases and mounts, has the
privileged applier carry them out, and writes the ledger back.

The state between ticks is a `World`: the kernel's mount table, the ledger file and the counters.
`Tick` has what one tick meets: the placements with everything that is observed of them, the calls
that fail, and what becomes of each release and mount.  Between ticks others mount and unmount
(`Event.outside`), and the daemon restarts, which loses the counters.  The recovery of stale guests
at the end of a tick counts as others, and a tick that cannot list its placements does nothing and
is no event.
-/

namespace Orca.Mounts

/-! ## The kernel's mount table -/

/-- An entry of the mount table. -/
structure Mount where
  mountpoint : String
  source : String
  fstype : String
  options : List String
  /-- The kernel reports mountpoints without a slash at the end. -/
  normal : normTarget mountpoint = mountpoint
  deriving DecidableEq

/-- The mount on top at a mountpoint: the last of the table, which is in order of mounting. -/
def top (table : List Mount) (mountpoint : String) : Option Mount :=
  (table.filter fun m => m.mountpoint = mountpoint).getLast?

/-- Source on top at a mountpoint. -/
def activeAt (table : List Mount) (mountpoint : String) : Option String :=
  (top table mountpoint).map Mount.source

/-- Filesystem type on top at a mountpoint. -/
def fstypeAt (table : List Mount) (mountpoint : String) : String :=
  ((top table mountpoint).map Mount.fstype).getD ""

/-- What an unmount does. -/
structure UnmountOutcome where
  /-- The mount on top is released. -/
  released : Bool
  /-- What a lazy release detaches with it. -/
  detaches : Mount → Bool
  /-- The unmount is reported as done. -/
  reported : Bool

/-- The table after an unmount. -/
def release (table : List Mount) (mountpoint : String) (o : UnmountOutcome) : List Mount :=
  if o.released then
    (table.reverse.eraseP fun m => m.mountpoint = mountpoint).reverse.filter fun m => !o.detaches m
  else table

/-! ## What a tick meets -/

/-- How the reading of the mount table for one target ends. -/
inductive TableRead
  | read
  | failed
  | lost
  deriving DecidableEq, Repr

/-- `MountHealth`. -/
inductive MountHealth
  | ok
  | missing
  | stale
  | timeout
  | error
  | writeDenied
  | unknown
  deriving DecidableEq, Repr

/-- A placement, and what a tick observes of it. -/
structure Placement where
  mount : DesiredMount
  /-- Reading the mount table for it. -/
  tableRead : TableRead
  health : MountHealth
  /-- Whether the source at a position answers, when it is asked. -/
  live : ℕ → Bool
  /-- The mount is held, when it is asked before a swap. -/
  busySwap : Bool
  /-- The mount is held, when it is asked before it is mounted again for its options. -/
  busyDrift : Bool

/-- The target of a placement. -/
def Placement.target (p : Placement) : String := p.mount.target

/-- What the kernel shows of a mount. -/
structure Shown where
  source : String
  fstype : String
  options : List String

/-- What becomes of a mount request. -/
structure MountOutcome where
  /-- The applier could not create the mountpoint, and unmounts it first. -/
  firstRelease : Option UnmountOutcome
  /-- `mount` is run. -/
  runs : Bool
  /-- What is mounted, if it goes through. -/
  mounts : Option Shown
  /-- The mount is reported as done. -/
  reported : Bool

/-- What one tick meets. -/
structure Tick where
  placements : List Placement
  /-- Reading the mount table at the start succeeds. -/
  tableReadable : Bool
  ledgerReadable : Bool
  ledgerSaved : Bool
  replication : String → Option Bool
  /-- What becomes of the releases, by position. -/
  unmountOutcome : ℕ → UnmountOutcome
  /-- What becomes of the mount requests, by position. -/
  mountOutcome : ℕ → MountOutcome

/-- The mounts that are orca's own: target and the source it is mounted from. -/
abbrev Ledger : Type := AList fun _ : String => String

/-- The host. -/
structure World where
  table : List Mount
  /-- The ledger file; a file that is missing or no ledger reads as the empty one. -/
  file : Ledger
  counters : String → Option ℕ

/-! ## Reading and probing -/

section Tick

variable (w : World) (i : Tick)

/-- The mount table as the tick reads it: a failed read is an empty table. -/
def seen : List Mount := if i.tableReadable then w.table else []

/-- `load_ledger`. -/
def loadLedger : Ledger :=
  if i.ledgerReadable then
    w.file.entries.foldl (fun ledger e => ledger.insert (normTarget e.1) e.2) ∅
  else ∅

/-- The placement that stands in a map by target: the last one. -/
def lastFor (t : String) : Option Placement :=
  (i.placements.filter fun p => p.target = t).getLast?

/-- `orphan_targets`. -/
def orphanTargets : List String :=
  (loadLedger w i).keys.filter fun t => t ∉ i.placements.map fun p => normTarget p.target

/-- One target that is no longer desired: released if it is still mounted from the recorded source,
otherwise forgotten. -/
def removeOrphan (s : Ledger × List String) (t : String) : Ledger × List String :=
  match orphanAction ((s.1.lookup t).getD "") (activeAt (seen w i) t) with
  | .unmount => (s.1, s.2 ++ [t])
  | .forget => (s.1.erase t, s.2)
  | .forgetForeign _ => (s.1.erase t, s.2)

/-- Removal: the ledger without the forgotten targets, and the targets to release. -/
def removeOrphans : Ledger × List String :=
  (orphanTargets w i).foldl (removeOrphan w i) (loadLedger w i, [])

/-- How a target classifies. -/
inductive Presence
  | missing
  | healthy
  | stale
  deriving DecidableEq, Repr

/-- `classify`. -/
def classify (absentFromTable : Bool) (health : MountHealth) : Presence :=
  if absentFromTable then .missing
  else
    match health with
    | .ok | .writeDenied => .healthy
    | .missing | .unknown => .missing
    | .stale | .timeout | .error => .stale

/-- `target_has_no_mount`: a table that cannot be read has no mounts, a reading that is lost says
nothing. -/
def targetHasNoMount (p : Placement) : Bool :=
  match p.tableRead with
  | .lost => false
  | .failed => true
  | .read =>
    !w.table.any fun m => trimSlashes m.mountpoint.toList = trimSlashes p.target.toList

/-- How a placement is classified in the tick. -/
def presence (p : Placement) : Presence := classify (targetHasNoMount w p) p.health

/-- The targets of the placements that are classified so. -/
def targetsThat (what : Presence → Bool) : List String :=
  (i.placements.filter fun p => what (presence w p)).map Placement.target

/-- Targets mounted at all. -/
def mountedAny : List String := targetsThat w i (· ≠ .missing)

/-- Targets that are stale. -/
def staleNow : List String := targetsThat w i (· = .stale)

/-! ## Stale streaks -/

/-- A text starts with another one. -/
def startsWith (start s : String) : Bool := start.toList.isPrefixOf s.toList

/-- A placement has the target. -/
def isDesired (t : String) : Bool := i.placements.any fun p => p.target = t

/-- `retain`. -/
def retain (c : String → Option ℕ) (keep : String → Bool) : String → Option ℕ :=
  fun k => if keep k then c k else none

/-- `keep_stale_counter_key`. -/
def keepStaleCounterKey (k : String) : Bool :=
  startsWith "failover:" k || startsWith "mountfail:" k || isDesired i k

/-- `CONFIRM_TICKS`. -/
def confirmTicks : ℕ := 2

/-- The stale streaks: the counters, and the placements confirmed stale. -/
def staleStreaks : (String → Option ℕ) × List Placement :=
  Streak.pass Placement.target (fun p => (staleNow w i).contains p.target) (fun _ => confirmTicks)
    (retain w.counters (keepStaleCounterKey i)) i.placements

/-- Targets confirmed stale. -/
def confirmedStale : List String := (staleStreaks w i).2.map Placement.target

/-- Targets taken for healthy: the healthy ones, and those that are stale but not confirmed. -/
def healthy : List String :=
  targetsThat w i (· = .healthy) ++
    (i.placements.map Placement.target).filter fun t =>
      (staleNow w i).contains t && !(confirmedStale w i).contains t

/-! ## Election -/

/-- `MOUNTFAIL_BACKOFF_TICKS`. -/
def mountfailBackoffTicks : ℕ := 5

/-- `mountfail_key`. -/
def mountfailKey (target source : String) : String := "mountfail:" ++ target ++ "|" ++ source

/-- The target in the rest of a backoff key: what comes before the first bar. -/
def backoffTarget (rest : String) : String :=
  match splitOnce ['|'] rest.toList with
  | some (t, _) => String.ofList t
  | none => rest

/-- `tick_mountfail_backoff`. -/
def tickMountfailBackoff (c : String → Option ℕ) : String → Option ℕ := fun k =>
  match stripStart "mountfail:" k with
  | none => c k
  | some rest =>
    if isDesired i (backoffTarget rest) then
      (c k).bind fun n => if 0 < n - 1 then some (n - 1) else none
    else none

/-- The counters as the election finds them. -/
def countersAtElection : String → Option ℕ := tickMountfailBackoff i (staleStreaks w i).1

/-- The source of a target is backed off. -/
def backedOff (t s : String) : Bool :=
  (lastFor i t).any fun p =>
    p.mount.sources.contains s && (countersAtElection w i (mountfailKey t s)).isSome

/-- The election of a target. -/
def electedFor (t : String) : Option Election :=
  (lastFor i t).map fun p => elect p.mount.sources (backedOff w i t) p.live

/-- The source elected for a target. -/
def electedSource (t : String) : Option String := (electedFor w i t).bind Election.source?

/-! ## Failover -/

/-- `replication_health_by_target`: only placements with a reference are in the map. -/
def replicationHealth (t : String) : Option Bool :=
  ((i.placements.filter fun p => p.target = t && p.mount.replication.isSome).getLast?).bind fun p =>
    p.mount.replication.bind i.replication

/-- The signal for a target. -/
def signal (t : String) (busy : Bool) : FailoverSignal where
  elected := (electedFor w i t).getD .empty
  active := activeAt (seen w i) t
  busy := busy
  replicationHealthy := replicationHealth i t

/-- A placement taken for healthy whose swap is worthwhile. -/
def swapWorthy (p : Placement) : Bool :=
  (healthy w i).contains p.target && shouldSwap p.mount (signal w i p.target false)

/-- Key of a failover streak. -/
def failoverKey (t : String) : String := "failover:" ++ t

/-- A failover streak is kept while its target is desired. -/
def keepFailoverKey (k : String) : Bool :=
  match stripStart "failover:" k with
  | some t => isDesired i t
  | none => true

/-- The failover streaks: the counters, and the placements whose swap is confirmed. -/
def failoverStreaks : (String → Option ℕ) × List Placement :=
  Streak.pass (fun p => failoverKey p.target) (swapWorthy w i)
    (fun p => max p.mount.remountPolicy.failover.confirmTicks 1)
    (retain (countersAtElection w i) (keepFailoverKey i)) i.placements

/-- The signal of a target whose swap is confirmed. -/
def failover (t : String) : Option FailoverSignal :=
  (((failoverStreaks w i).2.filter fun p => p.target = t).getLast?).map fun p =>
    signal w i t p.busySwap

/-- The swap of a placement is confirmed, and stands now that it is known whether the mount is
held. -/
def swapDue (p : Placement) : Bool := (failover w i p.target).any (shouldSwap p.mount)

/-! ## Option drift -/

/-- The placement is to be mounted again for its options. -/
def driftDue (p : Placement) : Bool :=
  ((lastFor i p.target).map (presence w) = some .healthy) &&
    ((top (seen w i) p.target).any fun m => optionsDrifted p.mount.options m.options) &&
    !swapDue w i p &&
    driftAction (electedSource w i p.target) (activeAt (seen w i) p.target)
      p.mount.remountPolicy.aggression p.busyDrift = .remount

/-- Targets to be mounted again for their options. -/
def optionDrift : List String := (i.placements.filter (driftDue w i)).map Placement.target

/-! ## The plan -/

/-- `Action`. -/
inductive Action
  | mount (target : String)
  | unmount (target : String)
  deriving DecidableEq, Repr

/-- What is planned for a placement. -/
def planFor (p : Placement) : List Action :=
  if !(mountedAny w i).contains p.target then [.mount p.target]
  else if !(healthy w i).contains p.target then [.unmount p.target, .mount p.target]
  else if swapDue w i p then [.unmount p.target, .mount p.target]
  else if (optionDrift w i).contains p.target then [.unmount p.target, .mount p.target]
  else []

/-- `plan`: what is mounted and not desired comes last. -/
def plan : List Action :=
  i.placements.flatMap (planFor w i) ++
    ((mountedAny w i).filter fun t => !isDesired i t).map Action.unmount

/-- `retain_owned_unmounts`. -/
def retainOwnedUnmounts (actions : List Action) (ledger : Ledger) : List Action :=
  actions.filter fun
    | .unmount t => decide (normTarget t ∈ ledger)
    | .mount _ => true

/-- The actions of the tick: the plan, and the release of what was removed. -/
def actions : List Action :=
  retainOwnedUnmounts (plan w i) (removeOrphans w i).1 ++ (removeOrphans w i).2.map Action.unmount

/-! ## Execution -/

/-- A mount request. -/
structure MountReq where
  source : String
  target : String
  fstype : String
  options : String
  deriving DecidableEq, Repr

/-- `mount_req`. -/
def mountReq (d : DesiredMount) (source : String) : MountReq :=
  ⟨source, d.target, d.fstype, d.options⟩

/-- Adoption: a target that is not in the ledger is put there if a network filesystem is mounted
there from one of the desired sources. -/
def adopt (table : List Mount) (sources : List String) (ledger : Ledger) (t : String) : Ledger :=
  if t ∈ ledger then ledger
  else
    match activeAt table t with
    | some active =>
      if adoptOwns active (fstypeAt table t) sources then ledger.insert t active else ledger
    | none => ledger

/-- What the execution of the actions has collected. -/
structure Work where
  unmounts : List String
  reqs : List MountReq
  ledger : Ledger

/-- One action: a mount that is not preceded by a release of its target must not stack. -/
def execute (s : Work) : Action → Work
  | .unmount t => { s with unmounts := s.unmounts ++ [t] }
  | .mount t =>
    match lastFor i t, electedSource w i t with
    | some p, some source =>
      if s.unmounts.contains t then { s with reqs := s.reqs ++ [mountReq p.mount source] }
      else
        match mountExecution source p.mount.sources (activeAt (seen w i) t) with
        | .adopt =>
          { s with ledger := adopt (seen w i) p.mount.sources s.ledger (normTarget t) }
        | .foreign _ => s
        | .proceed => { s with reqs := s.reqs ++ [mountReq p.mount source] }
    | _, _ => s

/-- The releases and mount requests of the tick. -/
def work : Work := (actions w i).foldl (execute w i) ⟨[], [], (removeOrphans w i).1⟩

/-- The targets handed to the applier for release. -/
def handed : List String := (work w i).unmounts

/-- The mount requests handed to the applier. -/
def requests : List MountReq := (work w i).reqs

/-- The releases that are reported as done. -/
def released : List String :=
  ((handed w i).zipIdx.filter fun t => (i.unmountOutcome t.2).reported).map Prod.fst

/-- The targets of the mounts that are reported as done. -/
def mounted : List String :=
  ((requests w i).zipIdx.filter fun q => (i.mountOutcome q.2).reported).map fun q => q.1.target

/-- A released target that is no longer desired leaves the ledger. -/
def dropReleased (ledger : Ledger) (t : String) : Ledger :=
  if (removeOrphans w i).2.contains t then ledger.erase (normTarget t) else ledger

/-- `mounted_sources`: the source of the last request for a target. -/
def mountedSource (t : String) : Option String :=
  (((requests w i).filter fun q => normTarget q.target = t).getLast?).map MountReq.source

/-- `record_mounted_sources`, of one target. -/
def recordMounted (ledger : Ledger) (t : String) : Ledger :=
  match mountedSource w i (normTarget t) with
  | some source => ledger.insert (normTarget t) source
  | none => ledger

/-- `adopt_desired_owned`, of one placement. -/
def adoptDesired (ledger : Ledger) (p : Placement) : Ledger :=
  adopt (seen w i) p.mount.sources ledger (normTarget p.target)

/-- The ledger at the end of the tick. -/
def ledgerAfter : Ledger :=
  i.placements.foldl (adoptDesired w i)
    ((mounted w i).foldl (recordMounted w i)
      ((released w i).foldl (dropReleased w i) (work w i).ledger))

/-- `record_mount_outcomes`, of one request. -/
def recordOutcome (c : String → Option ℕ) (q : MountReq) : String → Option ℕ :=
  if (mounted w i).contains q.target then Function.update c (mountfailKey q.target q.source) none
  else Function.update c (mountfailKey q.target q.source) (some mountfailBackoffTicks)

/-- The counters at the end of the tick. -/
def countersAfter : String → Option ℕ :=
  (requests w i).foldl (recordOutcome w i) (failoverStreaks w i).1

/-! ## The applier -/

/-- The mount table after the releases of the tick. -/
def tableReleased : List Mount :=
  (handed w i).zipIdx.foldl
    (fun table t => release table (normTarget t.1) (i.unmountOutcome t.2)) w.table

/-- The table in which `mount` is run for a request. -/
def tableAtMount (table : List Mount) (q : MountReq) (o : MountOutcome) : List Mount :=
  match o.firstRelease with
  | some first => release table (normTarget q.target) first
  | none => table

/-- `run_mount`. -/
def runMount (table : List Mount) (q : MountReq) (o : MountOutcome) : List Mount :=
  if o.runs then
    match o.mounts with
    | some s =>
      tableAtMount table q o ++
        [⟨normTarget q.target, s.source, s.fstype, s.options, normTarget_normTarget _⟩]
    | none => tableAtMount table q o
  else tableAtMount table q o

/-- The requests with what becomes of them. -/
def attempts : List (MountReq × MountOutcome) :=
  (requests w i).zipIdx.map fun q => (q.1, i.mountOutcome q.2)

/-- The mount table at the end of the tick. -/
def tableAfter : List Mount :=
  (attempts w i).foldl (fun table q => runMount table q.1 q.2) (tableReleased w i)

/-- `tick`. -/
def tick : World where
  table := tableAfter w i
  file := if i.ledgerSaved then ledgerAfter w i else w.file
  counters := countersAfter w i

end Tick

/-! ## Runs -/

/-- What happens on the host. -/
inductive Event
  | tick (i : Tick)
  | outside (table : List Mount)
  | restart

/-- What an event does. -/
def step (w : World) : Event → World
  | .tick i => tick w i
  | .outside table => { w with table := table }
  | .restart => { w with counters := fun _ => none }

/-- A host on which the loop has never run. -/
def initial (table : List Mount) : World := ⟨table, ∅, fun _ => none⟩

/-- A run. -/
def run (w : World) (events : List Event) : World := events.foldl step w

/-- A statement about the ticks of a run. -/
def OnTick (P : World → Tick → Prop) (w : World) : Event → Prop
  | .tick i => P w i
  | .outside _ => True
  | .restart => True

lemma onTick_mono {P Q : World → Tick → Prop} (h : ∀ w i, P w i → Q w i) (w : World) (e : Event)
    (he : OnTick P w e) : OnTick Q w e := by
  cases e with
  | tick i => exact h w i he
  | outside table => trivial
  | restart => trivial

lemma onTick_congr {P Q : World → Tick → Prop} (h : ∀ w i, P w i ↔ Q w i) (w : World) (e : Event) :
    OnTick P w e ↔ OnTick Q w e := by
  cases e with
  | tick i => exact h w i
  | outside table => rfl
  | restart => rfl

end Orca.Mounts
