import Mathlib.Data.Int.ConditionallyCompleteOrder
import Mathlib.Order.ConditionallyCompleteLattice.Basic
import Orca.Basic
import Orca.Library.KeyedTable
import Orca.Library.TopCut

/-!
# Security findings

The store of the findings that security scanners report.  `FindingsStore.merge` takes one report
into the store: every finding of the report opens a record, refreshes the record it has, or opens a
resolved one again; a report that speaks for all of its unit, or for a part of it, resolves the
records which it leaves out; `FindingsStore.prune` then drops old and surplus resolved records.

Records have distinct keys (`Finding.key`), so a store is a `KeyedTable`, a partial function on
keys. `Scan.observe` says what a report means for the record of one key, whatever else is in the
report and in the store, and `find_merged` that `merge` does this to every key.
-/

namespace Orca.Security

/-! ## The data -/

/-- `Severity`. -/
inductive Severity
  /-- `Severity::Unknown`. -/
  | unknown
  /-- `Severity::Low`. -/
  | low
  /-- `Severity::Medium`. -/
  | medium
  /-- `Severity::High`. -/
  | high
  /-- `Severity::Critical`. -/
  | critical
  deriving DecidableEq

/-- `ScannedFinding`. -/
structure ScannedFinding where
  /-- `id`: a CVE or the id of a check. -/
  id : String
  severity : Severity
  title : Option String
  package : Option String
  file : Option String
  installedVersion : Option String
  fixedVersion : Option String
  deriving DecidableEq

/-- `ScanReport`. -/
structure ScanReport where
  findings : List ScannedFinding
  complete : Bool
  coverage : Option (List String)

/-- `Finding`: the record of a finding. -/
structure Finding where
  memberId : String
  /-- `unit_id`, as its text. -/
  unitId : String
  scanner : String
  finding : ScannedFinding
  firstSeenMs : Int
  lastSeenMs : Int
  resolvedMs : Option Int
  reopenedMs : Option Int
  reopenCount : UInt32
  deriving DecidableEq

/-- `MergeCounts`. -/
structure MergeCounts where
  new : ℕ
  updated : ℕ
  resolved : ℕ
  reopened : ℕ
  deriving DecidableEq

/-- `Retention`: the settings are read with a cap that is not zero. -/
structure Retention where
  resolvedMaxAgeMs : Int
  maxResolvedPerUnit : ℕ
  cap_pos : 0 < maxResolvedPerUnit

/-- `DAY_MS`. -/
def dayMs : Int := 86400000

/-- `Retention::default`. -/
def Retention.default : Retention := ⟨30 * dayMs, 500, by decide⟩

/-- `retention`: the two settings, as far as they are there and read as numbers. -/
def retention (days : Option Int) (cap : Option ℕ) : Retention :=
  let r := Retention.default
  let r := match days.filter (fun d => decide (0 ≤ d)) with
    | some d => { r with resolvedMaxAgeMs := wrapI64 (d * dayMs) }
    | none => r
  match cap with
  | some c => if h : 0 < c then { r with maxResolvedPerUnit := c, cap_pos := h } else r
  | none => r

/-- `Key`: the parts of it by their names. -/
structure Key where
  memberId : String
  unitId : String
  scanner : String
  /-- `id` of the finding. -/
  id : String
  /-- `package` of the finding. -/
  package : Option String
  deriving DecidableEq

/-- `key_of`. -/
def Finding.key (f : Finding) : Key :=
  ⟨f.memberId, f.unitId, f.scanner, f.finding.id, f.finding.package⟩

/-- The member and the unit of a record. -/
def Finding.unitKey (f : Finding) : String × String := (f.memberId, f.unitId)

/-- `in_coverage`. -/
def inCoverage (f : ScannedFinding) (coverage : List String) : Bool :=
  f.package.any coverage.contains || f.file.any coverage.contains

/-- `FindingsStore`. -/
structure FindingsStore where
  findings : List Finding

/-- `FindingsStore::default`. -/
def FindingsStore.empty : FindingsStore := ⟨[]⟩

/-- A report for `merge`, with where it comes from and the time at which it is taken. -/
structure Scan where
  memberId : String
  unitId : String
  scanner : String
  report : ScanReport
  nowMs : Int

namespace Scan

variable (scan : Scan)

/-- The key of a reported finding. -/
def keyOf (sf : ScannedFinding) : Key :=
  ⟨scan.memberId, scan.unitId, scan.scanner, sf.id, sf.package⟩

/-- The record that a finding opens. -/
def opened (sf : ScannedFinding) : Finding where
  memberId := scan.memberId
  unitId := scan.unitId
  scanner := scan.scanner
  finding := sf
  firstSeenMs := scan.nowMs
  lastSeenMs := scan.nowMs
  resolvedMs := none
  reopenedMs := none
  reopenCount := 0

/-- The record of a finding that is reported again. -/
def refreshed (f : Finding) (sf : ScannedFinding) : Finding :=
  if f.resolvedMs.isSome then
    { f with
      resolvedMs := none
      reopenedMs := some scan.nowMs
      reopenCount := f.reopenCount + 1
      finding := sf
      lastSeenMs := scan.nowMs }
  else { f with finding := sf, lastSeenMs := scan.nowMs }

/-- The record is one that the report, which leaves it out, resolves. -/
def resolves (f : Finding) : Bool :=
  (scan.report.coverage.isSome || scan.report.complete) &&
    scan.report.coverage.all (inCoverage f.finding) && f.resolvedMs.isNone &&
    decide (f.memberId = scan.memberId) && decide (f.unitId = scan.unitId) &&
    decide (f.scanner = scan.scanner)

end Scan

/-! ## Merging a report -/

/-- The state of the loop of `merge`. -/
structure Merging where
  /-- `self.findings`. -/
  findings : List Finding
  index : Key → Option ℕ
  seen : List Bool
  counts : MergeCounts

/-- What `merge` starts its loop with.  Collecting the index, a later position of a key replaces an
earlier one. -/
def Merging.start (findings : List Finding) : Merging where
  findings := findings
  index := findings.zipIdx.foldl (fun index entry =>
    Function.update index entry.1.key (some entry.2))
    fun _ => none
  seen := findings.map fun _ => false
  counts := ⟨0, 0, 0, 0⟩

/-- The loop of `merge` at one finding of the report. -/
def Merging.take (scan : Scan) (m : Merging) (sf : ScannedFinding) : Merging :=
  let k := scan.keyOf sf
  match m.index k with
  | some i =>
    if m.seen.getD i false then
      { m with findings := m.findings.modify i fun f => { f with finding := sf } }
    else
      let wasResolved := (m.findings[i]?).any fun f => f.resolvedMs.isSome
      { m with
        findings := m.findings.modify i fun f => scan.refreshed f sf
        seen := m.seen.set i true
        counts :=
          if wasResolved then { m.counts with reopened := m.counts.reopened + 1 }
          else { m.counts with updated := m.counts.updated + 1 } }
  | none =>
    { findings := m.findings ++ [scan.opened sf]
      index := Function.update m.index k (some m.findings.length)
      seen := m.seen ++ [true]
      counts := { m.counts with new := m.counts.new + 1 } }

/-- `merge`, up to the call of `prune`. -/
def FindingsStore.merged (store : FindingsStore) (scan : Scan) : FindingsStore × MergeCounts :=
  let m := scan.report.findings.foldl (Merging.take scan) (Merging.start store.findings)
  let absent := fun (f : Finding) (seen : Bool) => !seen && scan.resolves f
  (⟨List.zipWith
      (fun f seen => if absent f seen then { f with resolvedMs := some scan.nowMs } else f)
      m.findings m.seen⟩,
    { m.counts with
      resolved := m.counts.resolved + (m.findings.zip m.seen).countP fun row =>
        absent row.1 row.2 })

/-! ## Pruning -/

/-- The place of a record when the resolved ones are sorted to the front, the latest first. -/
def Finding.age (f : Finding) : WithBot Int := f.resolvedMs

/-- The resolved records of a unit, as the map `resolved` holds them. -/
def resolvedTimes (findings : List Finding) (unit : String × String) : List Int :=
  (findings.filter fun f => decide (f.unitKey = unit)).filterMap Finding.resolvedMs

/-- `floor`: of a unit with too many resolved records, the time of the last one that stays and how
many of that time stay. -/
def floorOf (cap : ℕ) (findings : List Finding) (unit : String × String) : Option (Int × ℕ) :=
  let times := resolvedTimes findings unit
  if cap < times.length then
    (TopCut.edge cap times).map fun edge => (edge, TopCut.atEdge cap times edge)
  else none

/-- The second `retain` of `prune`. -/
def retainFloor : (String × String → Option (Int × ℕ)) → List Finding → List Finding
  | _, [] => []
  | floor, f :: findings =>
    match f.resolvedMs with
    | none => f :: retainFloor floor findings
    | some r =>
      match floor f.unitKey with
      | none => f :: retainFloor floor findings
      | some (edge, left) =>
        if edge < r then f :: retainFloor floor findings
        else if r = edge ∧ 0 < left then
          f :: retainFloor (Function.update floor f.unitKey (some (edge, left - 1))) findings
        else retainFloor floor findings

/-- The records that `prune` has not dropped for their age. -/
def FindingsStore.unexpired (store : FindingsStore) (nowMs : Int) (retention : Retention) :
    List Finding :=
  let cutoff := wrapI64 (nowMs - retention.resolvedMaxAgeMs)
  store.findings.filter fun f => f.resolvedMs.all fun r => decide (cutoff ≤ r)

/-- `FindingsStore::prune`. -/
def FindingsStore.prune (store : FindingsStore) (nowMs : Int) (retention : Retention) :
    FindingsStore :=
  let findings := store.unexpired nowMs retention
  let floor := floorOf retention.maxResolvedPerUnit findings
  if findings.all fun f => (floor f.unitKey).isNone then ⟨findings⟩
  else ⟨retainFloor floor (findings.insertionSort fun f g => f.age ≥ g.age)⟩

/-- `FindingsStore::merge`. -/
def FindingsStore.merge (store : FindingsStore) (scan : Scan) (retention : Retention) :
    FindingsStore × MergeCounts :=
  let (merged, counts) := store.merged scan
  (merged.prune scan.nowMs retention, counts)

end Orca.Security
