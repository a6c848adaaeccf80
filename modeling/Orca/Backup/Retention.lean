import Mathlib.Data.List.Sort
import Orca.Backup.Listing

/-!
# Retention

A target keeps the backups of an instance that its retention asks for and removes the others.  Every
axis of the policy selects backups to keep, the cap on the size then drops the oldest of them, and
`prune` removes the rest one after another, each of which can fail.

`prune_complete` says what is left when nothing fails, and `survivors_newest` that a policy which
leaves any backup leaves the newest one.
-/

namespace Orca.Backup

/-! ## The policy -/

/-- A finished backup of the instance: what its manifest says of it, and its payload. -/
structure Slot (σ : Type) where
  /-- The name of its directory, which starts with the stamp. -/
  id : String
  createdMs : Int
  sizeBytes : Nat
  /-- The host that wrote it, when it is recorded. -/
  writer : Option BackupWriter
  /-- The directory that it is filed under. -/
  collection : List String
  /-- The state of the instance that it holds. -/
  payload : σ
  deriving DecidableEq

/-- What the calendar says of a time in milliseconds. -/
structure Calendar where
  /-- The time is one that a timestamp can hold. -/
  inRange : Int → Bool
  compact : Int → String
  hourBucket : Int → String
  date : Int → String
  isoWeekBucket : Int → String
  monthBucket : Int → String
  yearBucket : Int → String

/-- `Retention`. -/
structure Retention where
  keepLast : Option Nat
  /-- Keep the newest of each of the last hours. -/
  keepHourly : Option Nat
  /-- Keep the newest of each of the last days. -/
  keepDaily : Option Nat
  /-- Keep the newest of each of the last weeks. -/
  keepWeekly : Option Nat
  /-- Keep the newest of each of the last months. -/
  keepMonthly : Option Nat
  /-- Keep the newest of each of the last years. -/
  keepYearly : Option Nat
  /-- The cap on the size of all. -/
  maxTotalBytes : Option Nat

/-- `ONE_GIB`. -/
def oneGib : Nat := 1073741824

/-- The retention of a target that declares none. -/
def Retention.default : Retention := ⟨some 25, none, none, none, none, none, some oneGib⟩

/-- An axis that counts backups is set. -/
def Retention.hasCountAxis (r : Retention) : Bool :=
  r.keepLast.isSome || r.keepHourly.isSome || r.keepDaily.isSome || r.keepWeekly.isSome ||
    r.keepMonthly.isSome || r.keepYearly.isSome

/-- `is_unbounded`. -/
def Retention.isUnbounded (r : Retention) : Bool :=
  r.keepLast.isNone && r.keepHourly.isNone && r.keepDaily.isNone && r.keepWeekly.isNone &&
    r.keepMonthly.isNone && r.keepYearly.isNone && r.maxTotalBytes.isNone

section Retained

variable {σ : Type}

/-- The newest backup of each period, from the `i`-th backup on, where the periods seen so far are
given. -/
def newestPerPeriod (C : Calendar) (bucket : Int → String) (n : Nat) :
    Nat → List (Slot σ) → List String → List Nat
  | _, [], _ => []
  | i, s :: rest, periods =>
    if C.inRange s.createdMs then
      let key := bucket s.createdMs
      if key ∈ periods then newestPerPeriod C bucket n (i + 1) rest periods
      else if n ≤ periods.length then []
      else i :: newestPerPeriod C bucket n (i + 1) rest (periods ++ [key])
    else newestPerPeriod C bucket n (i + 1) rest periods

/-- `keep_per_bucket`. -/
def keepPerBucket (C : Calendar) (records : List (Slot σ)) (n : Option Nat)
    (bucket : Int → String) : List Nat :=
  match n with
  | none => []
  | some n => if n = 0 then [] else newestPerPeriod C bucket n 0 records []

/-- The backups that the axes keep and the cap on the size allows, from the `i`-th backup on. -/
def withinCap (cap : Nat) (keep : List Nat) : Nat → List (Slot σ) → Nat → Bool → List Nat
  | _, [], _, _ => []
  | i, s :: rest, total, first =>
    if i ∈ keep then
      let next := min (total + s.sizeBytes) (2 ^ 64 - 1)
      if first || next ≤ cap then i :: withinCap cap keep (i + 1) rest next false
      else withinCap cap keep (i + 1) rest total first
    else withinCap cap keep (i + 1) rest total first

/-- What the axes keep. -/
def keptByAxes (C : Calendar) (records : List (Slot σ)) (r : Retention) : List Nat :=
  if r.hasCountAxis then
    (match r.keepLast with
      | some n => List.range (min records.length n)
      | none => []) ++
    keepPerBucket C records r.keepHourly C.hourBucket ++
    keepPerBucket C records r.keepDaily C.date ++
    keepPerBucket C records r.keepWeekly C.isoWeekBucket ++
    keepPerBucket C records r.keepMonthly C.monthBucket ++
    keepPerBucket C records r.keepYearly C.yearBucket
  else List.range records.length

/-- `retained`: the places of the backups to keep, where the backups are given newest first. -/
def retained (C : Calendar) (records : List (Slot σ)) (r : Retention) : List Nat :=
  match r.maxTotalBytes with
  | some cap => withinCap cap (keptByAxes C records r) 0 records 0 true
  | none => keptByAxes C records r

/-! ## Pruning -/

/-- How the removal of a slot ends. -/
inductive Removal where
  | done
  /-- It could not be taken out of the store. -/
  | refused (e : String)
  /-- It was taken out of the store, but not deleted. -/
  | halfway (e : String)

/-- What goes wrong in a prune. -/
structure PruneFaults where
  list : Option String
  /-- Nothing can be removed from the directory. -/
  preflight : List String → Option String
  /-- How the removal of a backup ends. -/
  remove : String → Removal

/-- `PruneFailure`. -/
structure PruneFailure where
  /-- The backup that is not removed. -/
  id : String
  error : String

/-- `PruneReport`. -/
structure PruneReport (σ : Type) where
  /-- How many backups were to be removed. -/
  selected : Nat
  removed : List (Slot σ)
  failures : List PruneFailure

/-- `is_complete`. -/
def PruneReport.isComplete (r : PruneReport σ) : Bool :=
  r.failures.isEmpty && r.removed.length == r.selected

/-- `summary`. -/
def PruneReport.summary (r : PruneReport σ) : String :=
  "selected " ++ toString r.selected ++ ", removed " ++ toString r.removed.length

/-- The backups of the instance, newest first. -/
def newestFirst (slots : List (Slot σ)) : List (Slot σ) :=
  slots.insertionSort fun a b => b.id ≤ a.id

/-- One backup is removed: the report, and the backup if it is left. -/
def removeOne (faults : PruneFaults) (s : Slot σ) (report : PruneReport σ) :
    PruneReport σ × List (Slot σ) :=
  let chosen := { report with selected := report.selected + 1 }
  -- the directory is probed until a backup has been tried
  let probe :=
    if report.removed.isEmpty && report.failures.isEmpty then faults.preflight s.collection
    else none
  match probe with
  | some e => ({ chosen with failures := report.failures ++ [⟨s.id, e⟩] }, [s])
  | none =>
    match faults.remove s.id with
    | .done => ({ chosen with removed := report.removed ++ [s] }, [])
    | .refused e => ({ chosen with failures := report.failures ++ [⟨s.id, e⟩] }, [s])
    | .halfway e => ({ chosen with failures := report.failures ++ [⟨s.id, e⟩] }, [])

/-- The removals of a prune, from the `i`-th backup on: the report, and the backups that are left.
-/
def removeAll (faults : PruneFaults) (keep : List Nat) :
    Nat → List (Slot σ) → PruneReport σ → PruneReport σ × List (Slot σ)
  | _, [], report => (report, [])
  | i, s :: rest, report =>
    let (report, left) := if i ∈ keep then (report, [s]) else removeOne faults s report
    let (report, others) := removeAll faults keep (i + 1) rest report
    (report, left ++ others)

/-- `prune`: the report, and the backups that are left. -/
def prune (C : Calendar) (faults : PruneFaults) (r : Retention) (slots : List (Slot σ)) :
    Except String (PruneReport σ) × List (Slot σ) :=
  if r.isUnbounded then (.ok ⟨0, [], []⟩, slots)
  else
    match faults.list with
    | some e => (.error e, slots)
    | none =>
      let located := newestFirst slots
      let (report, left) := removeAll faults (retained C located r) 0 located ⟨0, [], []⟩
      (.ok report, left)

/-! ## What is left -/

/-- The backups at the places to keep, from the `i`-th backup on. -/
def keptFrom (keep : List Nat) : Nat → List (Slot σ) → List (Slot σ)
  | _, [] => []
  | i, s :: rest => if i ∈ keep then s :: keptFrom keep (i + 1) rest else keptFrom keep (i + 1) rest

/-- The backups that the retention keeps, newest first. -/
def survivors (C : Calendar) (r : Retention) (slots : List (Slot σ)) : List (Slot σ) :=
  if r.isUnbounded then newestFirst slots
  else keptFrom (retained C (newestFirst slots) r) 0 (newestFirst slots)

/-- A removal after which the report has no failure found none in it, and the backup is gone. -/
lemma removeOne_spec {faults : PruneFaults} {s : Slot σ} {report : PruneReport σ}
    (h : (removeOne faults s report).1.failures = []) :
    report.failures = [] ∧ (removeOne faults s report).2 = [] := by
  have hfail {e : PruneFailure} : report.failures ++ [e] ≠ [] :=
    List.append_ne_nil_of_right_ne_nil _ (List.cons_ne_nil _ _)
  unfold removeOne at h ⊢
  dsimp only at h ⊢
  split at h
  · exact absurd h hfail
  · split at h
    · exact ⟨h, rfl⟩
    · exact absurd h hfail
    · exact absurd h hfail

/-- Where no removal fails, the backups to keep are left. -/
lemma removeAll_spec {faults : PruneFaults} {keep : List Nat} {i : Nat} {slots : List (Slot σ)}
    {report : PruneReport σ} (h : (removeAll faults keep i slots report).1.failures = []) :
    report.failures = [] ∧ (removeAll faults keep i slots report).2 = keptFrom keep i slots := by
  induction slots generalizing i report with
  | nil => exact ⟨h, rfl⟩
  | cons s rest ih =>
    unfold removeAll at h ⊢
    unfold keptFrom
    dsimp only at h ⊢
    by_cases hkeep : i ∈ keep
    · rw [if_pos hkeep] at h ⊢
      obtain ⟨hreport, hleft⟩ := ih h
      rw [if_pos hkeep, hleft]
      exact ⟨hreport, rfl⟩
    · rw [if_neg hkeep] at h ⊢
      obtain ⟨hone, hleft⟩ := ih h
      obtain ⟨hreport, hgone⟩ := removeOne_spec hone
      rw [if_neg hkeep, hleft, hgone]
      exact ⟨hreport, rfl⟩

lemma newestFirst_of_sorted {slots : List (Slot σ)}
    (h : slots.Pairwise fun a b => b.id ≤ a.id) : newestFirst slots = slots :=
  List.Pairwise.insertionSort_eq h

lemma pairwise_newestFirst (slots : List (Slot σ)) :
    (newestFirst slots).Pairwise fun a b => b.id ≤ a.id :=
  List.pairwise_insertionSort _ _

lemma mem_newestFirst {s : Slot σ} {slots : List (Slot σ)} : s ∈ newestFirst slots ↔ s ∈ slots :=
  (List.perm_insertionSort _ slots).mem_iff

/-- The backups kept are some of the backups, in their order. -/
lemma keptFrom_sublist (keep : List Nat) (i : Nat) (slots : List (Slot σ)) :
    (keptFrom keep i slots).Sublist slots := by
  induction slots generalizing i with
  | nil => exact List.Sublist.refl _
  | cons s rest ih =>
    unfold keptFrom
    split
    · exact (ih (i + 1)).cons_cons s
    · exact (ih (i + 1)).cons s

/-- After a prune that removes all it was to remove, the store lists what the retention keeps. -/
lemma prune_complete {C : Calendar} {faults : PruneFaults} {r : Retention} {slots : List (Slot σ)}
    {report : PruneReport σ} (h : (prune C faults r slots).1 = .ok report)
    (hcomplete : report.isComplete = true) :
    newestFirst (prune C faults r slots).2 = survivors C r slots := by
  unfold prune survivors at *
  split at h
  · rename_i hunbounded
    rw [if_pos hunbounded, if_pos hunbounded]
  · rename_i hbounded
    rw [if_neg hbounded, if_neg hbounded]
    cases hlist : faults.list with
    | some e =>
      rw [hlist] at h
      exact nomatch h
    | none =>
      rw [hlist] at h
      dsimp only at h ⊢
      obtain rfl := Except.ok.inj h
      have hfailures := List.isEmpty_iff.mp (Bool.and_eq_true_iff.mp hcomplete).1
      rw [(removeAll_spec hfailures).2]
      exact newestFirst_of_sorted
        ((pairwise_newestFirst slots).sublist (keptFrom_sublist _ _ _))

/-! ## The newest backup -/

/-- The first backup of the first period is the first backup. -/
lemma zero_mem_keepPerBucket {C : Calendar} {records : List (Slot σ)} {n : Option Nat}
    {bucket : Int → String} (hdate : ∀ s ∈ records.head?, C.inRange s.createdMs = true)
    (hsome : keepPerBucket C records n bucket ≠ []) : 0 ∈ keepPerBucket C records n bucket := by
  unfold keepPerBucket at *
  cases n with
  | none => exact absurd rfl hsome
  | some n =>
    dsimp only at *
    split at hsome
    · exact absurd rfl hsome
    · rename_i hpos
      rw [if_neg hpos]
      cases records with
      | nil => exact absurd rfl hsome
      | cons s rest =>
        unfold newestPerPeriod
        rw [if_pos (hdate s rfl)]
        dsimp only
        rw [if_neg List.not_mem_nil, if_neg (by simpa using hpos)]
        exact List.mem_cons_self

/-- The newest backup is kept by every axis that keeps any. -/
lemma zero_mem_keptByAxes {C : Calendar} {records : List (Slot σ)} {r : Retention}
    (hdate : ∀ s ∈ records.head?, C.inRange s.createdMs = true)
    (hsome : keptByAxes C records r ≠ []) : 0 ∈ keptByAxes C records r := by
  unfold keptByAxes at *
  split
  · rename_i haxis
    rw [if_pos haxis] at hsome
    have hlast {n : Nat} (h : List.range (min records.length n) ≠ []) :
        0 ∈ List.range (min records.length n) := by
      rw [List.mem_range]
      exact Nat.pos_of_ne_zero fun hzero => h (hzero ▸ rfl)
    simp only [List.mem_append]
    by_contra hnone
    simp only [not_or] at hnone
    obtain ⟨⟨⟨⟨⟨hl, hh⟩, hd⟩, hw⟩, hm⟩, hy⟩ := hnone
    refine hsome ?_
    simp only [List.append_eq_nil_iff]
    refine ⟨⟨⟨⟨⟨?_, ?_⟩, ?_⟩, ?_⟩, ?_⟩, ?_⟩
    · cases hlastAxis : r.keepLast with
      | none => rfl
      | some n =>
        rw [hlastAxis] at hl
        exact not_ne_iff.mp fun h => hl (hlast h)
    · exact not_ne_iff.mp fun h => hh (zero_mem_keepPerBucket hdate h)
    · exact not_ne_iff.mp fun h => hd (zero_mem_keepPerBucket hdate h)
    · exact not_ne_iff.mp fun h => hw (zero_mem_keepPerBucket hdate h)
    · exact not_ne_iff.mp fun h => hm (zero_mem_keepPerBucket hdate h)
    · exact not_ne_iff.mp fun h => hy (zero_mem_keepPerBucket hdate h)
  · rename_i haxis
    rw [if_neg haxis] at hsome
    rw [List.mem_range]
    exact Nat.pos_of_ne_zero fun hzero => hsome (hzero ▸ rfl)

/-- A policy that keeps any backup keeps the newest one. -/
theorem retained_newest {C : Calendar} {records : List (Slot σ)} {r : Retention}
    (hrecords : records ≠ []) (hdate : ∀ s ∈ records.head?, C.inRange s.createdMs = true)
    (hsome : keptByAxes C records r ≠ []) : 0 ∈ retained C records r := by
  have hkept := zero_mem_keptByAxes hdate hsome
  unfold retained
  split
  · -- the cap never drops the first backup that is kept
    obtain ⟨s, rest, rfl⟩ := List.exists_cons_of_ne_nil hrecords
    unfold withinCap
    rw [if_pos hkept]
    dsimp only
    rw [Bool.true_or, if_pos rfl]
    exact List.mem_cons_self
  · exact hkept

/-- The cap on the size keeps nothing that the axes do not. -/
lemma mem_of_mem_withinCap {cap : Nat} {keep : List Nat} {i total : Nat} {first : Bool}
    {slots : List (Slot σ)} {j : Nat} (h : j ∈ withinCap cap keep i slots total first) :
    j ∈ keep := by
  induction slots generalizing i total first with
  | nil => exact absurd h List.not_mem_nil
  | cons s rest ih =>
    unfold withinCap at h
    split at h
    · rename_i hkeep
      dsimp only at h
      split at h
      · rcases List.mem_cons.mp h with rfl | h
        · exact hkeep
        · exact ih h
      · exact ih h
    · exact ih h

lemma keptFrom_of_empty {keep : List Nat} (h : ∀ j, j ∉ keep) (i : Nat) (slots : List (Slot σ)) :
    keptFrom keep i slots = [] := by
  induction slots generalizing i with
  | nil => rfl
  | cons s rest ih => rw [keptFrom, if_neg (h i), ih]

/-- The retention leaves nothing, or the newest backup is still the newest. -/
theorem survivors_newest {C : Calendar} {r : Retention} {slots : List (Slot σ)}
    (hdate : ∀ s ∈ (newestFirst slots).head?, C.inRange s.createdMs = true) :
    survivors C r slots = [] ∨ (survivors C r slots).head? = (newestFirst slots).head? := by
  unfold survivors
  split
  · exact Or.inr rfl
  cases hlisted : newestFirst slots with
  | nil => exact Or.inl rfl
  | cons s rest =>
    rw [hlisted] at hdate
    by_cases hsome : keptByAxes C (s :: rest) r = []
    · refine Or.inl (keptFrom_of_empty (fun j hj => ?_) 0 _)
      unfold retained at hj
      split at hj
      · exact absurd (hsome ▸ mem_of_mem_withinCap hj) List.not_mem_nil
      · exact absurd (hsome ▸ hj) List.not_mem_nil
    · refine Or.inr ?_
      rw [keptFrom, if_pos (retained_newest (List.cons_ne_nil s rest) hdate hsome)]
      rfl

end Retained

end Orca.Backup
