import Mathlib.Data.Nat.Basic
import Mathlib.Logic.Function.Basic
import Orca.Library.SlidingWindow

/-!
# Sign-in throttle

Failed sign-ins are counted within a sliding window in three families of buckets: by address and
user, by address, and by user.  A sign-in is refused when any of its three buckets is full; a
success empties all three.

Users are named by the lower-case form of the name they sign in with, which is also the unique key
of the users table.  Instants are nanoseconds since the earliest instant the platform can represent,
so that `Instant::checked_sub` is subtraction that fails below zero.  A bucket that is not in a map
is written as the empty one: `check_at` drops empty buckets, and a missing one counts as empty.
-/

namespace Orca.Auth

open SlidingWindow

/-- Window in which failures accumulate. -/
def window : Nat := 15 * 60 * 1000000000

/-- Failures per key within the window from which on sign-in is refused. -/
def maxFailures : Nat := 8

/-- `Instant::checked_sub`. -/
def checkedSub (now duration : Nat) : Option Nat :=
  if duration ≤ now then some (now - duration) else none

/-- The instant before which `Bucket::prune` drops. -/
def cutoff (now : Nat) : Nat := (checkedSub now window).getD now

/-- A bucket: failure instants, ascending. -/
abbrev Bucket := List Nat

/-- `Bucket::prune`. -/
def Bucket.prune (b : Bucket) (now : Nat) : Bucket := SlidingWindow.prune (cutoff now) b

/-- `Bucket::record_failure`. -/
def Bucket.recordFailure (b : Bucket) (now : Nat) : Bucket := b.prune now ++ [now]

/-- The buckets. -/
structure State where
  byIpUser : String × String → Bucket
  byIp : String → Bucket
  byUser : String → Bucket

/-- No failures. -/
def State.empty : State := ⟨fun _ => [], fun _ => [], fun _ => []⟩

/-- Outcome of a check. -/
inductive CheckOutcome
  | allowed
  | throttled (retryAfterSecs : Nat)
  deriving DecidableEq, Repr

/-- Change the three buckets of an address and a user. -/
def State.modify (s : State) (ip user : String) (f : Bucket → Bucket) : State where
  byIpUser := Function.update s.byIpUser (ip, user) (f (s.byIpUser (ip, user)))
  byIp := Function.update s.byIp ip (f (s.byIp ip))
  byUser := Function.update s.byUser user (f (s.byUser user))

/-- The fullest of the three buckets of an address and a user. -/
def State.worst (s : State) (ip user : String) : Nat :=
  max (max (s.byIpUser (ip, user)).length (s.byIp ip).length) (s.byUser user).length

/-- `check_at`, for a user key. -/
def checkAt (s : State) (ip user : String) (now : Nat) : CheckOutcome × State :=
  let s := s.modify ip user fun b => b.prune now
  (if maxFailures ≤ s.worst ip user then .throttled (15 * 60) else .allowed, s)

/-- `record_failure_at`, for a user key. -/
def recordFailureAt (s : State) (ip user : String) (now : Nat) : State :=
  s.modify ip user fun b => b.recordFailure now

/-- `record_success`, for a user key. -/
def recordSuccess (s : State) (ip user : String) : State := s.modify ip user fun _ => []

/-- The cutoff, once the clock reads at least the window. -/
lemma cutoff_of_le {now : Nat} (h : window ≤ now) : cutoff now = now - window := by
  rw [cutoff, checkedSub, if_pos h, Option.getD_some]

/-- The cutoff moves on with the clock, once the clock reads at least the window. -/
lemma cutoff_mono {now now' : Nat} (h : window ≤ now) (hle : now ≤ now') :
    cutoff now ≤ cutoff now' := by
  rw [cutoff_of_le h, cutoff_of_le (Nat.le_trans h hle)]
  exact Nat.sub_le_sub_right hle window

lemma byUser_modify (s : State) (ip user : String) (f : Bucket → Bucket) (u : String) :
    (s.modify ip user f).byUser u = if u = user then f (s.byUser u) else s.byUser u := by
  by_cases h : u = user
  · simp [State.modify, h]
  · simp [State.modify, h]

lemma byIp_modify (s : State) (ip user : String) (f : Bucket → Bucket) (i : String) :
    (s.modify ip user f).byIp i = if i = ip then f (s.byIp i) else s.byIp i := by
  by_cases h : i = ip
  · simp [State.modify, h]
  · simp [State.modify, h]

lemma byIpUser_modify (s : State) (ip user : String) (f : Bucket → Bucket) (i u : String) :
    (s.modify ip user f).byIpUser (i, u) =
      if i = ip ∧ u = user then f (s.byIpUser (i, u)) else s.byIpUser (i, u) := by
  by_cases h : i = ip ∧ u = user
  · simp [State.modify, h]
  · simp [State.modify, h]

/-- A full bucket of the user refuses the sign-in. -/
lemma recent_byUser_of_allowed {s : State} {ip user : String} {now : Nat}
    (h : (checkAt s ip user now).1 = .allowed) :
    recent (cutoff now) (s.byUser user) < maxFailures := by
  rw [← length_prune]
  dsimp only [checkAt] at h
  split at h
  · cases h
  · rename_i hworst
    rw [State.worst, byUser_modify, if_pos rfl] at hworst
    unfold Bucket.prune at hworst
    omega

/-- A full bucket of the address refuses the sign-in. -/
lemma throttled_of_recent_byIp {s : State} {ip user : String} {now : Nat}
    (h : maxFailures ≤ recent (cutoff now) (s.byIp ip)) :
    (checkAt s ip user now).1 = .throttled (15 * 60) := by
  rw [← length_prune] at h
  unfold checkAt
  refine if_pos ?_
  rw [State.worst, byIp_modify, if_pos rfl]
  unfold Bucket.prune
  omega

end Orca.Auth
