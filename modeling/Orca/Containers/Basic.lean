import Mathlib.Order.Basic

/-!
# Containers

What the reconciler sees of a container in one tick: its row in the runtime's list, the liveness its
adapter probed, and the signals of the host.  A `Timestamp` is a UTC instant, here the nanoseconds
since the Unix epoch; the second and the millisecond it lies in are rounded down.
-/

namespace Orca.Containers

/-- A UTC instant, in nanoseconds since the Unix epoch. -/
abbrev Timestamp := Int

/-- Nanoseconds of some seconds. -/
def seconds (n : Nat) : Timestamp := n * 1000000000

/-- `Timestamp::unix_seconds`. -/
def Timestamp.unixSeconds (t : Timestamp) : Int := t / 1000000000

/-- `Timestamp::unix_millis`. -/
def Timestamp.unixMillis (t : Timestamp) : Int := t / 1000000

lemma Timestamp.unixSeconds_mono {s t : Timestamp} (h : s ≤ t) :
    s.unixSeconds ≤ t.unixSeconds :=
  Int.ediv_le_ediv (by decide) h

/-- The runtimes. -/
inductive RuntimeKind where
  | docker
  | lxc
  | podman
  | nspawn
  deriving DecidableEq, Repr

/-- The lifecycle states of a container, normalised across the runtimes. -/
inductive ContainerState where
  | created
  | starting
  | running
  | paused
  | stopping
  | exited
  | dead
  | unknown
  deriving DecidableEq, Repr

/-- What a liveness probe observed. -/
inductive Liveness where
  | notApplicable
  | live
  | wedged
  | unknown
  deriving DecidableEq, Repr

/-- A row of the container list, as far as the breaker and the wedge detector read it. -/
structure Container where
  /-- The runtime's id of the container. -/
  id : String
  name : String
  runtime : RuntimeKind
  host : String
  state : ContainerState
  labels : List (String × String)
  /-- How often the runtime restarted it. -/
  restartCount : Nat
  /-- The exit code, if it has exited. -/
  exitCode : Option Int
  deriving DecidableEq, Repr

/-- `Container::has_label`. -/
def Container.hasLabel (c : Container) (key value : String) : Bool :=
  c.labels.any fun (k, v) => k == key && v == value

/-- The key under which the breaker and the wedge detector keep the record of a container. -/
structure RecordKey where
  host : String
  runtime : RuntimeKind
  containerId : String
  deriving DecidableEq, Repr

/-- The key of a container. -/
def Container.key (c : Container) : RecordKey := ⟨c.host, c.runtime, c.id⟩

/-- The signals of the host that a tick passes to the breaker. -/
structure HostObservation where
  /-- The last five minutes of the journal of the container's unit. -/
  lxcJournalTail : Option String
  /-- The state the container was in before, if the caller knows it. -/
  lxcPreviousState : Option ContainerState
  deriving DecidableEq, Repr

end Orca.Containers
