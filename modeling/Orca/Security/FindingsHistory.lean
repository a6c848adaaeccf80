import Orca.Library.Standing
import Orca.Security.FindingsPrune

/-!
# The history of the findings

A store starts empty and takes reports one after another, of any members, units and scanners, each
with the retention that holds at the time.

`open_findings_iff` says which findings are open after a run: those that some report named and that
every later report left alone.  `records_true` says that each record tells what happened: which
report named the finding last, and when it was first seen, resolved and opened again.
-/

namespace Orca.Security

/-- The store after a run of reports. -/
def runScans (scans : List (Scan × Retention)) : FindingsStore :=
  scans.foldl (fun store s => (store.merge s.1 s.2).1) FindingsStore.empty

/-- The report speaks for a finding of the key: if it leaves the finding out, the finding is
gone. -/
def Scan.speaksFor (scan : Scan) (k : Key) (sf : ScannedFinding) : Bool :=
  (scan.report.coverage.isSome || scan.report.complete) &&
    scan.report.coverage.all (inCoverage sf) &&
    decide (k.memberId = scan.memberId) && decide (k.unitId = scan.unitId) &&
    decide (k.scanner = scan.scanner)

lemma resolves_eq (scan : Scan) (f : Finding) :
    scan.resolves f = (f.resolvedMs.isNone && scan.speaksFor f.key f.finding) := by
  unfold Scan.resolves Scan.speaksFor Finding.key
  cases f.resolvedMs <;> simp

/-- What is open under a key: the finding, and when it was seen. -/
def openOf (row : Option Finding) : Option (ScannedFinding × Int) :=
  (row.filter fun f => f.resolvedMs.isNone).map fun f => (f.finding, f.lastSeenMs)

lemma openOf_of_none {f : Finding} (h : f.resolvedMs = none) :
    openOf (some f) = some (f.finding, f.lastSeenMs) := by
  unfold openOf
  rw [Option.filter_some, h]
  rfl

lemma openOf_of_some {f : Finding} {r : Int} (h : f.resolvedMs = some r) :
    openOf (some f) = none := by
  unfold openOf
  rw [Option.filter_some, h]
  rfl

/-- What a report says of a key, and when. -/
def sighting (k : Key) (s : Scan × Retention) : Option (ScannedFinding × Int) :=
  (s.1.lastReported k).map fun sf => (sf, s.1.nowMs)

/-- The report resolves what is open under a key. -/
def resolution (k : Key) (s : Scan × Retention) (seen : ScannedFinding × Int) : Bool :=
  s.1.speaksFor k seen.1

lemma resolvedMs_reported (scan : Scan) (sf : ScannedFinding) (row : Option Finding) :
    (scan.reported sf row).resolvedMs = none ∧ (scan.reported sf row).finding = sf ∧
      (scan.reported sf row).lastSeenMs = scan.nowMs := by
  cases row with
  | none => exact ⟨rfl, rfl, rfl⟩
  | some f =>
    simp only [Scan.reported, Option.map_some, Option.getD_some, Scan.refreshed]
    cases f.resolvedMs <;> simp

/-- What is open under a key after a report. -/
lemma openOf_observe (k : Key) (s : Scan × Retention) {row : Option Finding}
    (hkey : ∀ f, row = some f → f.key = k) :
    openOf (s.1.observe k row) = Standing.stand (sighting k) (resolution k) (openOf row) s := by
  unfold Scan.observe Standing.stand sighting
  cases hlast : s.1.lastReported k with
  | some sf =>
    obtain ⟨hopen, hfinding, hseen⟩ := resolvedMs_reported s.1 sf row
    simp only [openOf_of_none hopen, hfinding, hseen, Option.map_some, Option.some_or]
  | none =>
    cases row with
    | none => rfl
    | some f =>
      have hk := hkey f rfl
      simp only [Option.map_some, resolves_eq, hk, Option.map_none, Option.none_or]
      cases hres : f.resolvedMs with
      | some r =>
        simp only [Option.isNone_some, Bool.false_and, Bool.false_eq_true, if_false,
          openOf_of_some hres, Option.filter_none]
      | none =>
        rw [openOf_of_none hres, Option.filter_some]
        cases hspeaks : s.1.speaksFor k f.finding with
        | false => simp [resolution, hspeaks, openOf_of_none hres]
        | true => simp [resolution, hspeaks, openOf_of_some]

/-- The store after a run is a table, and what is open under a key is what stands there. -/
lemma exists_table (scans : List (Scan × Retention)) : ∃ t : Findings,
    runScans scans = t.store ∧ ∀ k, openOf (t.find k) =
      scans.foldl (Standing.stand (sighting k) (resolution k)) none := by
  induction scans using List.reverseRecOn with
  | nil => exact ⟨KeyedTable.empty, rfl, fun k => rfl⟩
  | append_singleton scans s ih =>
    obtain ⟨t, hstore, hopen⟩ := ih
    obtain ⟨t', hstore', hfind⟩ := merge_refines s.2 t s.1
    refine ⟨t', ?_, fun k => ?_⟩
    · unfold runScans at hstore ⊢
      rw [List.foldl_concat, hstore, hstore']
    · rw [List.foldl_concat, ← hopen k, ← openOf_observe k s fun f hf => KeyedTable.key_of_find hf]
      rcases hfind k with heq | ⟨hnone, f, r, hobs, hres⟩
      · rw [heq]
      · rw [hnone, hobs, openOf_of_some hres]
        rfl

/-- After any run of reports, a finding is open with this content and this last sight if and only if
some report named it so, and no later report named it again or spoke for it. -/
theorem open_findings_iff (scans : List (Scan × Retention)) (k : Key) (sf : ScannedFinding)
    (seenMs : Int) :
    (∃ f ∈ (runScans scans).findings, f.key = k ∧ f.resolvedMs = none ∧ f.finding = sf ∧
      f.lastSeenMs = seenMs) ↔
      ∃ before s after, scans = before ++ s :: after ∧ s.1.lastReported k = some sf ∧
        s.1.nowMs = seenMs ∧
        ∀ s' ∈ after, s'.1.lastReported k = none ∧ s'.1.speaksFor k sf = false := by
  obtain ⟨t, hstore, hopen⟩ := exists_table scans
  have hleft : (∃ f ∈ (runScans scans).findings, f.key = k ∧ f.resolvedMs = none ∧ f.finding = sf ∧
      f.lastSeenMs = seenMs) ↔ openOf (t.find k) = some (sf, seenMs) := by
    rw [hstore]
    unfold openOf
    simp only [Option.map_eq_some_iff, Option.filter_eq_some_iff, KeyedTable.find_eq_some_iff,
      Prod.mk.injEq, Option.isNone_iff_eq_none]
    exact exists_congr fun f => by
      change f ∈ t.rows ∧ _ ↔ _
      tauto
  rw [hleft, hopen k, Standing.foldl_stand_iff]
  refine exists_congr fun before => exists_congr fun s => exists_congr fun after => ?_
  simp only [sighting, Standing.Leaves, resolution, Option.map_eq_some_iff, Option.map_eq_none_iff,
    Prod.mk.injEq]
  constructor
  · rintro ⟨hscans, ⟨_, hlast, rfl, hseen⟩, hleaves⟩
    exact ⟨hscans, hlast, hseen, hleaves⟩
  · rintro ⟨hscans, hlast, hseen, hleaves⟩
    exact ⟨hscans, ⟨sf, hlast, rfl, hseen⟩, hleaves⟩

/-! ## What the records tell -/

/-- After the last report that named the finding, the record is open, or it was resolved by the
first report that spoke for it. -/
def Finding.SettledBy (f : Finding) (after : List (Scan × Retention)) : Prop :=
  f.resolvedMs.elim (∀ s ∈ after, s.1.speaksFor f.key f.finding = false) fun r =>
    ∃ between s later, after = between ++ s :: later ∧
      (∀ s' ∈ between, s'.1.speaksFor f.key f.finding = false) ∧
      s.1.speaksFor f.key f.finding = true ∧ s.1.nowMs = r

/-- The record tells what happened in a run of reports. -/
structure Finding.Tells (f : Finding) (scans : List (Scan × Retention)) : Prop where
  /-- It has what the last report of its key said, and what came of it since. -/
  seen : ∃ before s after, scans = before ++ s :: after ∧
    s.1.lastReported f.key = some f.finding ∧ s.1.nowMs = f.lastSeenMs ∧
    (∀ s' ∈ after, s'.1.lastReported f.key = none) ∧ f.SettledBy after
  /-- It was first seen when a report named it. -/
  firstSeen : ∃ s ∈ scans, (s.1.lastReported f.key).isSome = true ∧ s.1.nowMs = f.firstSeenMs
  /-- It was opened again when a report named it. -/
  reopened : ∀ r, f.reopenedMs = some r →
    ∃ s ∈ scans, (s.1.lastReported f.key).isSome = true ∧ s.1.nowMs = r
  /-- A record that was never opened again counts no time that it was. -/
  neverReopened : f.reopenedMs = none → f.reopenCount = 0

lemma exists_mem_concat {scans : List (Scan × Retention)} (s : Scan × Retention)
    {p : Scan × Retention → Prop} (h : ∃ s' ∈ scans, p s') : ∃ s' ∈ scans ++ [s], p s' := by
  obtain ⟨s', hs', hp⟩ := h
  exact ⟨s', List.mem_append_left _ hs', hp⟩

/-- The times of a record that is reported again. -/
lemma times_reported (scan : Scan) (sf : ScannedFinding) (f : Finding) :
    (scan.reported sf (some f)).firstSeenMs = f.firstSeenMs ∧
      ((scan.reported sf (some f)).reopenedMs = some scan.nowMs ∨
        (scan.reported sf (some f)).reopenedMs = f.reopenedMs ∧
          (scan.reported sf (some f)).reopenCount = f.reopenCount) := by
  simp only [Scan.reported, Option.map_some, Option.getD_some, Scan.refreshed]
  split
  · exact ⟨rfl, Or.inl rfl⟩
  · exact ⟨rfl, Or.inr ⟨rfl, rfl⟩⟩

lemma keyOf_lastReported {scan : Scan} {k : Key} {sf : ScannedFinding}
    (h : scan.lastReported k = some sf) : scan.keyOf sf = k := by
  unfold Scan.lastReported Scan.lastOf at h
  simpa using (List.mem_filter.mp (List.mem_of_getLast? h)).2

lemma key_reported {scan : Scan} {k : Key} {sf : ScannedFinding} (h : scan.lastReported k = some sf)
    {row : Option Finding} (hrow : ∀ f, row = some f → f.key = k) :
    (scan.reported sf row).key = k := by
  have hk := keyOf_lastReported h
  cases row with
  | none => exact hk
  | some f => exact (scan.key_refreshed ((hrow f rfl).trans hk.symm)).trans hk

/-- A finding that is reported has a record that tells of it. -/
lemma tells_reported {scans : List (Scan × Retention)} (s : Scan × Retention) {k : Key}
    {sf : ScannedFinding} (hlast : s.1.lastReported k = some sf) {row : Option Finding}
    (hrow : ∀ f, row = some f → f.key = k ∧ f.Tells scans) :
    (s.1.reported sf row).Tells (scans ++ [s]) := by
  obtain ⟨hopen, hfinding, hseen⟩ := resolvedMs_reported s.1 sf row
  have hkey := key_reported hlast fun f hf => (hrow f hf).1
  have hnow : ∃ s' ∈ scans ++ [s], (s'.1.lastReported k).isSome = true ∧ s'.1.nowMs = s.1.nowMs :=
    ⟨s, List.mem_append_right _ (List.mem_singleton_self s), by rw [hlast]; rfl, rfl⟩
  constructor
  · refine ⟨scans, s, [], rfl, ?_, hseen.symm, fun s' hs' => absurd hs' List.not_mem_nil, ?_⟩
    · rw [hkey, hfinding, hlast]
    · unfold Finding.SettledBy
      rw [hopen]
      exact fun s' hs' => absurd hs' List.not_mem_nil
  · rw [hkey]
    cases row with
    | none => exact hnow
    | some f =>
      obtain ⟨rfl, htells⟩ := hrow f rfl
      rw [(times_reported s.1 sf f).1]
      exact exists_mem_concat s htells.firstSeen
  · rw [hkey]
    intro r hr
    cases row with
    | none => cases hr
    | some f =>
      obtain ⟨rfl, htells⟩ := hrow f rfl
      rcases (times_reported s.1 sf f).2 with hagain | ⟨hsame, -⟩
      · rw [hagain] at hr
        rw [← Option.some.inj hr]
        exact hnow
      · exact exists_mem_concat s (htells.reopened r (hsame ▸ hr))
  · intro hr
    cases row with
    | none => rfl
    | some f =>
      rcases (times_reported s.1 sf f).2 with hagain | ⟨hsame, hcount⟩
      · rw [hagain] at hr
        cases hr
      · rw [hcount]
        exact (hrow f rfl).2.neverReopened (hsame ▸ hr)

/-- A record that is left out tells of it. -/
lemma tells_leftOut {scans : List (Scan × Retention)} (s : Scan × Retention) {f f' : Finding}
    (hlast : s.1.lastReported f.key = none) (htells : f.Tells scans)
    (hf' : f' = if s.1.resolves f then { f with resolvedMs := some s.1.nowMs } else f) :
    f'.Tells (scans ++ [s]) := by
  have hsame : f'.key = f.key ∧ f'.finding = f.finding ∧ f'.lastSeenMs = f.lastSeenMs ∧
      f'.firstSeenMs = f.firstSeenMs ∧ f'.reopenedMs = f.reopenedMs ∧
      f'.reopenCount = f.reopenCount := by
    rw [hf']
    split <;> exact ⟨rfl, rfl, rfl, rfl, rfl, rfl⟩
  obtain ⟨hkey, hfinding, hlastSeen, hfirst, hagain, hcount⟩ := hsame
  obtain ⟨before, s₀, after, rfl, hs₀, hnow, hquiet, hsettled⟩ := htells.seen
  constructor
  · refine ⟨before, s₀, after ++ [s], by simp, ?_, ?_, fun s' hs' => ?_, ?_⟩
    · rw [hkey, hfinding, hs₀]
    · rw [hlastSeen, hnow]
    · rw [hkey]
      rcases List.mem_append.mp hs' with hs' | hs'
      · exact hquiet s' hs'
      · rw [List.mem_singleton.mp hs']
        exact hlast
    · unfold Finding.SettledBy at hsettled ⊢
      rw [hkey, hfinding]
      cases hres : f.resolvedMs with
      | some r =>
        -- the report finds the record resolved
        have hf : f'.resolvedMs = some r := by rw [hf', resolves_eq, hres]; simp [hres]
        rw [hres] at hsettled
        rw [hf]
        obtain ⟨between, s₁, later, rfl, hbetween, hspeaks, hr⟩ := hsettled
        exact ⟨between, s₁, later ++ [s], by simp, hbetween, hspeaks, hr⟩
      | none =>
        rw [hres] at hsettled
        cases hspeaks : s.1.speaksFor f.key f.finding with
        | true =>
          have hf : f'.resolvedMs = some s.1.nowMs := by
            rw [hf', resolves_eq, hres, hspeaks]
            rfl
          rw [hf]
          exact ⟨after, s, [], rfl, hsettled, hspeaks, rfl⟩
        | false =>
          have hf : f'.resolvedMs = none := by rw [hf', resolves_eq, hres, hspeaks]; simp [hres]
          rw [hf]
          intro s' hs'
          rcases List.mem_append.mp hs' with hs' | hs'
          · exact hsettled s' hs'
          · rw [List.mem_singleton.mp hs']
            exact hspeaks
  · rw [hkey, hfirst]
    exact exists_mem_concat s htells.firstSeen
  · rw [hkey, hagain]
    exact fun r hr => exists_mem_concat s (htells.reopened r hr)
  · rw [hagain, hcount]
    exact htells.neverReopened

/-- After any run of reports, every record tells what happened in the run. -/
theorem records_true (scans : List (Scan × Retention)) :
    ∀ f ∈ (runScans scans).findings, f.Tells scans := by
  have htable : ∃ t : Findings, runScans scans = t.store ∧ ∀ k f, t.find k = some f →
      f.Tells scans := by
    induction scans using List.reverseRecOn with
    | nil =>
      refine ⟨KeyedTable.empty, rfl, fun k f hf => ?_⟩
      exact absurd (KeyedTable.find_eq_some_iff.mp hf).1 List.not_mem_nil
    | append_singleton scans s ih =>
      obtain ⟨t, hstore, htells⟩ := ih
      obtain ⟨t', hstore', hfind⟩ := merge_refines s.2 t s.1
      refine ⟨t', ?_, fun k f hf => ?_⟩
      · unfold runScans at hstore ⊢
        rw [List.foldl_concat, hstore, hstore']
      · have hobs : s.1.observe k (t.find k) = some f := by
          rcases hfind k with heq | ⟨hnone, -⟩
          · rw [← heq, hf]
          · rw [hnone] at hf
            cases hf
        unfold Scan.observe at hobs
        cases hlast : s.1.lastReported k with
        | some sf =>
          simp only [hlast] at hobs
          rw [← Option.some.inj hobs]
          exact tells_reported s hlast fun g hg => ⟨KeyedTable.key_of_find hg, htells k g hg⟩
        | none =>
          simp only [hlast] at hobs
          obtain ⟨g, hg, hgf⟩ := Option.map_eq_some_iff.mp hobs
          refine tells_leftOut s ?_ (htells k g hg) hgf.symm
          rw [KeyedTable.key_of_find hg, hlast]
  obtain ⟨t, hstore, htells⟩ := htable
  rw [hstore]
  exact fun f hf => htells f.key f (t.mem_rows_iff.mp hf)

/-- A report of two findings, and one that covers the unit and has only the first of them. -/
def twoReports : List (Scan × Retention) :=
  let found := ⟨"CVE-1", .high, none, some "openssl", none, none, none⟩
  let gone := ⟨"CVE-2", .low, none, some "zlib", none, none, none⟩
  [(⟨"m", "u", "trivy", ⟨[found, gone], true, none⟩, 10⟩, Retention.default),
    (⟨"m", "u", "trivy", ⟨[found], true, none⟩, 20⟩, Retention.default)]

/-- The second finding is resolved by the second report. -/
theorem records_true_of_twoReports :
    Finding.Tells ⟨"m", "u", "trivy", ⟨"CVE-2", .low, none, some "zlib", none, none, none⟩, 10, 10,
      some 20, none, 0⟩ twoReports :=
  records_true twoReports _ (by decide +kernel)

end Orca.Security
