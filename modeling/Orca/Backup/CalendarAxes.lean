import Orca.Backup.Retention
import Orca.Library.Decimal
import Orca.Library.Periods

/-!
# What the axes of a retention promise

An axis of a retention promises the newest backup of each of a number of periods.  The walk that
keeps them stops once it has seen that many periods, and keeps a backup when it has not seen its
period before.

`retained_iff_promised` says that a retention without a cap on the size keeps what its axes promise,
where the backups are listed newest first and the periods follow each other in time, and that it
keeps no less when a count is raised.  A retention without any axis promises nothing, and keeps
everything.
-/

namespace Orca.Backup

variable {σ : Type}

/-! ## The promise -/

/-- The times that a timestamp can hold. -/
def Calendar.times (C : Calendar) : Set Int := {t | C.inRange t = true}

/-- The calendar axes: how many periods each keeps a backup of, and the period that a time is in. -/
def calendarAxes (C : Calendar) (r : Retention) : List (Option Nat × (Int → String)) :=
  [(r.keepHourly, C.hourBucket), (r.keepDaily, C.date), (r.keepWeekly, C.isoWeekBucket),
    (r.keepMonthly, C.monthBucket), (r.keepYearly, C.yearBucket)]

/-- The `i`-th backup is one of the first ones that are to be kept, or the newest one of one of the
most recent periods of an axis. -/
def Promised (C : Calendar) (records : List (Slot σ)) (r : Retention) (i : Nat) : Prop :=
  (∃ n, r.keepLast = some n ∧ i < min records.length n) ∨
    ∃ axis ∈ calendarAxes C r, ∃ n, axis.1 = some n ∧
      Periods.IsLatestOfRecent C.times axis.2 n (records.map Slot.createdMs) i

/-- An axis is set to no less than it was. -/
def RaisedTo (a b : Option Nat) : Prop := ∀ n ∈ a, ∃ m ∈ b, n ≤ m

/-- Every axis is set to no less than it was. -/
structure Retention.Raised (r r' : Retention) : Prop where
  /-- The number of the newest ones. -/
  last : RaisedTo r.keepLast r'.keepLast
  hourly : RaisedTo r.keepHourly r'.keepHourly
  daily : RaisedTo r.keepDaily r'.keepDaily
  weekly : RaisedTo r.keepWeekly r'.keepWeekly
  monthly : RaisedTo r.keepMonthly r'.keepMonthly
  yearly : RaisedTo r.keepYearly r'.keepYearly

/-! ## The walk over the backups -/

/-- A walk over backups with times is a walk over their times. -/
lemma newestPerPeriod_eq {C : Calendar} {bucket : Int → String} {n i : Nat}
    {records : List (Slot σ)} {periods : List String}
    (hdates : ∀ s ∈ records, s.createdMs ∈ C.times) :
    newestPerPeriod C bucket n i records periods =
      Periods.latestOfPeriods bucket n i (records.map Slot.createdMs) periods := by
  induction records generalizing i periods with
  | nil => rfl
  | cons s rest ih =>
    obtain ⟨hdate, hrest⟩ := List.forall_mem_cons.mp hdates
    change C.inRange s.createdMs = true at hdate
    rw [List.map_cons, newestPerPeriod, Periods.latestOfPeriods, if_pos hdate]
    dsimp only
    rw [ih hrest, ih hrest]

/-- An axis keeps the newest backup of each of its most recent periods. -/
lemma mem_keepPerBucket_iff {C : Calendar} {bucket : Int → String} {n : Option Nat} {i : Nat}
    {records : List (Slot σ)} (hdates : ∀ s ∈ records, s.createdMs ∈ C.times)
    (hnewest : records.Pairwise fun a b => b.createdMs ≤ a.createdMs)
    (hperiods : Periods.Chronological C.times bucket) :
    i ∈ keepPerBucket C records n bucket ↔ ∃ m, n = some m ∧
      Periods.IsLatestOfRecent C.times bucket m (records.map Slot.createdMs) i := by
  unfold keepPerBucket
  cases n with
  | none =>
    refine iff_of_false List.not_mem_nil ?_
    rintro ⟨m, hm, -⟩
    exact nomatch hm
  | some n =>
    dsimp only
    have hsome : (∃ m, some n = some m ∧
        Periods.IsLatestOfRecent C.times bucket m (records.map Slot.createdMs) i) ↔
          Periods.IsLatestOfRecent C.times bucket n (records.map Slot.createdMs) i := by
      simp only [Option.some.injEq, exists_eq_left']
    rw [hsome]
    split
    · -- no number of periods is smaller than none
      rename_i hzero
      refine iff_of_false List.not_mem_nil ?_
      rintro ⟨t, -, -, hcard⟩
      exact absurd hcard (hzero ▸ Nat.not_lt_zero _)
    · rw [newestPerPeriod_eq hdates]
      refine Periods.mem_latestOfPeriods_iff hperiods (fun t ht => ?_)
        (List.pairwise_map.mpr hnewest)
      obtain ⟨s, hs, rfl⟩ := List.mem_map.mp ht
      exact hdates s hs

/-- The axes keep what each of them keeps. -/
lemma mem_keptByAxes {C : Calendar} {records : List (Slot σ)} {r : Retention} {i : Nat}
    (haxis : r.hasCountAxis = true) :
    i ∈ keptByAxes C records r ↔ (∃ n, r.keepLast = some n ∧ i < min records.length n) ∨
      ∃ axis ∈ calendarAxes C r, i ∈ keepPerBucket C records axis.1 axis.2 := by
  rw [keptByAxes, if_pos haxis]
  simp only [List.mem_append, calendarAxes, List.exists_mem_cons_iff, List.not_mem_nil, false_and,
    exists_false, or_false, or_assoc]
  refine or_congr_left ?_
  cases r.keepLast with
  | none => simp only [List.not_mem_nil, reduceCtorEq, false_and, exists_false]
  | some n => simp only [List.mem_range, Option.some.injEq, exists_eq_left']

/-- An axis that is set is set when it is raised. -/
lemma Retention.Raised.hasCountAxis {r r' : Retention} (h : r.Raised r')
    (haxis : r.hasCountAxis = true) : r'.hasCountAxis = true := by
  have hset {a b : Option Nat} (hraised : RaisedTo a b) (ha : a.isSome = true) :
      b.isSome = true := by
    obtain ⟨n, rfl⟩ := Option.isSome_iff_exists.mp ha
    obtain ⟨m, rfl, -⟩ := hraised n rfl
    rfl
  unfold Retention.hasCountAxis at *
  simp only [Bool.or_eq_true] at *
  rcases haxis with ((((ha | ha) | ha) | ha) | ha) | ha
  · simp [hset h.last ha]
  · simp [hset h.hourly ha]
  · simp [hset h.daily ha]
  · simp [hset h.weekly ha]
  · simp [hset h.monthly ha]
  · simp [hset h.yearly ha]

/-- Each calendar axis is raised. -/
lemma Retention.Raised.calendarAxes {C : Calendar} {r r' : Retention} (h : r.Raised r')
    {axis : Option Nat × (Int → String)} (haxis : axis ∈ Orca.Backup.calendarAxes C r) :
    ∃ axis' ∈ Orca.Backup.calendarAxes C r', axis'.2 = axis.2 ∧ RaisedTo axis.1 axis'.1 := by
  unfold Orca.Backup.calendarAxes at *
  simp only [List.mem_cons, List.not_mem_nil, or_false] at haxis
  rcases haxis with rfl | rfl | rfl | rfl | rfl
  · exact ⟨(r'.keepHourly, C.hourBucket), by simp, rfl, h.hourly⟩
  · exact ⟨(r'.keepDaily, C.date), by simp, rfl, h.daily⟩
  · exact ⟨(r'.keepWeekly, C.isoWeekBucket), by simp, rfl, h.weekly⟩
  · exact ⟨(r'.keepMonthly, C.monthBucket), by simp, rfl, h.monthly⟩
  · exact ⟨(r'.keepYearly, C.yearBucket), by simp, rfl, h.yearly⟩

lemma Promised.raised {C : Calendar} {records : List (Slot σ)} {r r' : Retention} {i : Nat}
    (h : Promised C records r i) (hraised : r.Raised r') : Promised C records r' i := by
  rcases h with ⟨n, hn, hi⟩ | ⟨axis, haxis, n, hn, hi⟩
  · obtain ⟨m, hm, hle⟩ := hraised.last n hn
    exact Or.inl ⟨m, hm, lt_of_lt_of_le hi (min_le_min_left _ hle)⟩
  · obtain ⟨axis', haxis', hbucket, hcount⟩ := hraised.calendarAxes haxis
    obtain ⟨m, hm, hle⟩ := hcount n hn
    exact Or.inr ⟨axis', haxis', m, hm, hbucket ▸ hi.mono hle⟩

/-- A retention without a cap on the size keeps what the axes promise. -/
lemma mem_retained_iff_promised {C : Calendar} {records : List (Slot σ)} {r : Retention} {i : Nat}
    (hdates : ∀ s ∈ records, s.createdMs ∈ C.times)
    (hnewest : records.Pairwise fun a b => b.createdMs ≤ a.createdMs)
    (hperiods : ∀ axis ∈ calendarAxes C r, Periods.Chronological C.times axis.2)
    (hcap : r.maxTotalBytes = none) (haxis : r.hasCountAxis = true) :
    i ∈ retained C records r ↔ Promised C records r i := by
  have hretained : retained C records r = keptByAxes C records r := by rw [retained, hcap]
  rw [hretained, mem_keptByAxes haxis]
  refine or_congr_right (exists_congr fun axis => and_congr_right fun hmem => ?_)
  exact mem_keepPerBucket_iff hdates hnewest (hperiods axis hmem)

/-- A retention that sets an axis, and no cap on the size, keeps exactly what the axes promise, and
it keeps all of that when counts are raised. -/
theorem retained_iff_promised {C : Calendar} {records : List (Slot σ)} {r : Retention}
    (hdates : ∀ s ∈ records, s.createdMs ∈ C.times)
    (hnewest : records.Pairwise fun a b => b.createdMs ≤ a.createdMs)
    (hperiods : ∀ axis ∈ calendarAxes C r, Periods.Chronological C.times axis.2)
    (hcap : r.maxTotalBytes = none) (haxis : r.hasCountAxis = true) :
    (∀ i, i ∈ retained C records r ↔ Promised C records r i) ∧
      ∀ r' : Retention, r'.maxTotalBytes = none → r.Raised r' →
        ∀ i ∈ retained C records r, i ∈ retained C records r' := by
  refine ⟨fun i => mem_retained_iff_promised hdates hnewest hperiods hcap haxis, ?_⟩
  intro r' hcap' hraised i hi
  have hperiods' : ∀ axis ∈ calendarAxes C r', Periods.Chronological C.times axis.2 := by
    -- the periods of an axis do not depend on its count
    unfold calendarAxes at *
    simpa only [List.forall_mem_cons] using hperiods
  rw [mem_retained_iff_promised hdates hnewest hperiods' hcap' (hraised.hasCountAxis haxis)]
  rw [mem_retained_iff_promised hdates hnewest hperiods hcap haxis] at hi
  exact hi.raised hraised

/-! ## Backups of two days -/

/-- The number of a day, which is zero for all days up to the first one of 1970. -/
def dayNumber (ms : Int) : Nat := (ms / 86400000).toNat

/-- A calendar on which every period is a day. -/
def dayCalendar : Calendar where
  inRange := fun _ => true
  compact := fun ms => toString (dayNumber ms)
  hourBucket := fun ms => toString (dayNumber ms)
  date := fun ms => toString (dayNumber ms)
  isoWeekBucket := fun ms => toString (dayNumber ms)
  monthBucket := fun ms => toString (dayNumber ms)
  yearBucket := fun ms => toString (dayNumber ms)

lemma chronological_days :
    Periods.Chronological dayCalendar.times fun ms => toString (dayNumber ms) := by
  have hmono : Monotone dayNumber := fun a b hab =>
    Int.toNat_le_toNat (Int.ediv_le_ediv (by decide) hab)
  exact Periods.chronological_of_monotoneOn (hmono.monotoneOn _) fun a _ b _ => Decimal.toString_inj

lemma chronological_dayCalendar (r : Retention) :
    ∀ axis ∈ calendarAxes dayCalendar r, Periods.Chronological dayCalendar.times axis.2 := by
  unfold calendarAxes
  simp only [List.forall_mem_cons]
  exact ⟨chronological_days, chronological_days, chronological_days, chronological_days,
    chronological_days, fun _ h => absurd h List.not_mem_nil⟩

/-- Two backups of one day, and one of the day before. -/
def backupsOfTwoDays : List (Slot Unit) :=
  [⟨"19700103-010000-thor", 176400000, 1, none, ["hosts", "thor"], ()⟩,
    ⟨"19700103-000000-thor", 172800000, 1, none, ["hosts", "thor"], ()⟩,
    ⟨"19700102-000000-thor", 86400000, 1, none, ["hosts", "thor"], ()⟩]

/-- One backup of each of the last two days is kept. -/
def twoDays : Retention := ⟨none, none, some 2, none, none, none, none⟩

/-- Nothing is removed. -/
def keepsAll : Retention := ⟨none, none, none, none, none, none, none⟩

/-- The newest backup of each of two days is kept, and no fewer for more days. -/
theorem retained_of_two_days :
    (∀ i, i ∈ retained dayCalendar backupsOfTwoDays twoDays ↔
        Promised dayCalendar backupsOfTwoDays twoDays i) ∧
      ∀ r' : Retention, r'.maxTotalBytes = none → twoDays.Raised r' →
        ∀ i ∈ retained dayCalendar backupsOfTwoDays twoDays,
          i ∈ retained dayCalendar backupsOfTwoDays r' :=
  retained_iff_promised (fun _ _ => rfl) (by decide) (chronological_dayCalendar twoDays) rfl rfl

/-- A retention without an axis promises no backup, and keeps all. -/
theorem all_kept_without_an_axis :
    (∀ s ∈ backupsOfTwoDays, s.createdMs ∈ dayCalendar.times) ∧
      (backupsOfTwoDays.Pairwise fun a b => b.createdMs ≤ a.createdMs) ∧
      (∀ axis ∈ calendarAxes dayCalendar keepsAll,
        Periods.Chronological dayCalendar.times axis.2) ∧
      keepsAll.maxTotalBytes = none ∧
      ¬∀ i, i ∈ retained dayCalendar backupsOfTwoDays keepsAll ↔
        Promised dayCalendar backupsOfTwoDays keepsAll i := by
  refine ⟨fun _ _ => rfl, by decide, chronological_dayCalendar keepsAll, rfl, fun hall => ?_⟩
  have hkept : 0 ∈ retained dayCalendar backupsOfTwoDays keepsAll := by decide
  rcases (hall 0).mp hkept with ⟨n, hn, -⟩ | ⟨axis, haxis, n, hn, -⟩
  · exact nomatch hn
  · unfold calendarAxes at haxis
    simp only [List.mem_cons, List.not_mem_nil, or_false] at haxis
    rcases haxis with rfl | rfl | rfl | rfl | rfl <;> exact nomatch hn

end Orca.Backup
