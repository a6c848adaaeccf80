import Orca.Security.FindingsMerge

/-!
# Which findings are kept

`FindingsStore::prune` drops the resolved records that are too old, and of each unit with more
resolved records than the cap all but the latest.  It computes for each such unit the time of the
last record that stays, sorts the records, and counts the records of that time as it goes through
them.

Of one unit, the pass is that of `TopCut` (`filter_retainFloor`); `prune_exact` says which records
are left.
-/

namespace Orca.Security

/-- The record is a resolved one of the unit. -/
def Finding.isResolvedOf (unit : String × String) (f : Finding) : Bool :=
  f.resolvedMs.isSome && decide (f.unitKey = unit)

/-- When a resolved record was resolved. -/
def Finding.resolvedAt (f : Finding) : Int := f.resolvedMs.getD 0

/-- The pass over the resolved records of one unit. -/
def cutTo (floor : Option (Int × ℕ)) (findings : List Finding) : List Finding :=
  match floor with
  | none => findings
  | some (edge, left) => TopCut.keepAbove Finding.resolvedAt edge left findings

/-- The second pass keeps the order. -/
lemma retainFloor_sublist (floor : String × String → Option (Int × ℕ)) (l : List Finding) :
    (retainFloor floor l).Sublist l := by
  induction l generalizing floor with
  | nil => exact List.Sublist.slnil
  | cons f l ih =>
    unfold retainFloor
    split
    · exact (ih floor).cons_cons f
    · split
      · exact (ih floor).cons_cons f
      · split
        · exact (ih floor).cons_cons f
        · split
          · exact (ih _).cons_cons f
          · exact (ih floor).cons f

/-- The second pass keeps the open records. -/
lemma filter_isNone_retainFloor (floor : String × String → Option (Int × ℕ)) (l : List Finding) :
    (retainFloor floor l).filter (fun f => f.resolvedMs.isNone) =
      l.filter fun f => f.resolvedMs.isNone := by
  induction l generalizing floor with
  | nil => rfl
  | cons f l ih =>
    unfold retainFloor
    cases hres : f.resolvedMs with
    | none => simp [hres, ih]
    | some r =>
      have hskip : (f :: l).filter (fun f => f.resolvedMs.isNone) =
          l.filter fun f => f.resolvedMs.isNone := by simp [hres]
      have hkeep (floor' : String × String → Option (Int × ℕ)) :
          (f :: retainFloor floor' l).filter (fun f => f.resolvedMs.isNone) =
            l.filter fun f => f.resolvedMs.isNone := by simp [hres, ih]
      rw [hskip]
      simp only
      split
      · exact hkeep floor
      · split
        · exact hkeep floor
        · split
          · exact hkeep _
          · exact ih floor

/-- What the second pass does with a resolved record. -/
lemma retainFloor_cons_some {floor : String × String → Option (Int × ℕ)} {f : Finding}
    {l : List Finding} {r : Int} (hres : f.resolvedMs = some r) {edge : Int} {left : ℕ}
    (hfloor : floor f.unitKey = some (edge, left)) :
    retainFloor floor (f :: l) =
      if edge < r then f :: retainFloor floor l
      else if r = edge ∧ 0 < left then
        f :: retainFloor (Function.update floor f.unitKey (some (edge, left - 1))) l
      else retainFloor floor l := by
  simp only [retainFloor, hres, hfloor]

lemma retainFloor_cons_none {floor : String × String → Option (Int × ℕ)} {f : Finding}
    {l : List Finding} (h : f.resolvedMs = none ∨ floor f.unitKey = none) :
    retainFloor floor (f :: l) = f :: retainFloor floor l := by
  rcases hres : f.resolvedMs with _ | r
  · simp only [retainFloor, hres]
  · have hfloor := h.resolve_left (by simp [hres])
    simp only [retainFloor, hres, hfloor]

/-- Of one unit, the second pass goes through its resolved records alone. -/
lemma filter_retainFloor (unit : String × String) (floor : String × String → Option (Int × ℕ))
    (l : List Finding) : (retainFloor floor l).filter (Finding.isResolvedOf unit) =
      cutTo (floor unit) (l.filter (Finding.isResolvedOf unit)) := by
  induction l generalizing floor with
  | nil => cases h : floor unit <;> rfl
  | cons f l ih =>
    cases hof : f.isResolvedOf unit with
    | true =>
      have hparts := hof
      unfold Finding.isResolvedOf at hparts
      rw [Bool.and_eq_true, Option.isSome_iff_exists, decide_eq_true_eq] at hparts
      obtain ⟨⟨r, hres⟩, rfl⟩ := hparts
      have hat : f.resolvedAt = r := by rw [Finding.resolvedAt, hres, Option.getD_some]
      rw [List.filter_cons_of_pos hof]
      cases hfloor : floor f.unitKey with
      | none =>
        rw [retainFloor_cons_none (Or.inr hfloor), List.filter_cons_of_pos hof, ih, hfloor]
        rfl
      | some mark =>
        obtain ⟨edge, left⟩ := mark
        rw [retainFloor_cons_some hres hfloor]
        unfold cutTo TopCut.keepAbove
        rw [hat]
        simp only
        split
        · rw [List.filter_cons_of_pos hof, ih, hfloor]
          rfl
        · split
          · rw [List.filter_cons_of_pos hof, ih, Function.update_self]
            rfl
          · rw [ih, hfloor]
            rfl
    | false =>
      have hnot : ¬ f.isResolvedOf unit = true := by rw [hof]; exact Bool.false_ne_true
      rw [List.filter_cons_of_neg hnot]
      by_cases hkept : f.resolvedMs = none ∨ floor f.unitKey = none
      · rw [retainFloor_cons_none hkept, List.filter_cons_of_neg hnot, ih]
      · obtain ⟨hres, hfloor⟩ := not_or.mp hkept
        obtain ⟨r, hres⟩ := Option.ne_none_iff_exists'.mp hres
        obtain ⟨⟨edge, left⟩, hfloor⟩ := Option.ne_none_iff_exists'.mp hfloor
        have hother : unit ≠ f.unitKey := by
          rintro rfl
          simp [Finding.isResolvedOf, hres] at hof
        rw [retainFloor_cons_some hres hfloor]
        split
        · rw [List.filter_cons_of_neg hnot, ih]
        · split
          · rw [List.filter_cons_of_neg hnot, ih, Function.update_of_ne hother]
          · rw [ih]

/-! ## What is left -/

/-- The times of a unit are those of its resolved records. -/
lemma resolvedTimes_eq (l : List Finding) (unit : String × String) :
    resolvedTimes l unit = (l.filter (Finding.isResolvedOf unit)).map Finding.resolvedAt := by
  unfold resolvedTimes
  induction l with
  | nil => rfl
  | cons f l ih =>
    by_cases hunit : f.unitKey = unit
    · cases hres : f.resolvedMs with
      | none => simp [hunit, hres, ih, Finding.isResolvedOf]
      | some r => simp [hunit, hres, ih, Finding.isResolvedOf, Finding.resolvedAt]
    · simp [hunit, ih, Finding.isResolvedOf]

section Prune

variable (store : FindingsStore) (nowMs : Int) (retention : Retention)

/-- What is left of the resolved records of a unit. -/
lemma cutTo_floorOf {l l' : List Finding} (h : l'.Perm l) (unit : String × String) :
    let kept := cutTo (floorOf retention.maxResolvedPerUnit l unit)
      (l'.filter (Finding.isResolvedOf unit))
    kept.length = min retention.maxResolvedPerUnit (l.countP (Finding.isResolvedOf unit)) ∧
      ∀ f ∈ l'.filter (Finding.isResolvedOf unit), f ∉ kept → ∀ g ∈ kept,
        f.resolvedAt ≤ g.resolvedAt := by
  have hperm := h.filter (Finding.isResolvedOf unit)
  have hcount : (resolvedTimes l unit).length = l.countP (Finding.isResolvedOf unit) := by
    rw [resolvedTimes_eq, List.length_map, List.countP_eq_length_filter]
  intro kept
  by_cases hmany : retention.maxResolvedPerUnit < (resolvedTimes l unit).length
  · obtain ⟨edge, hedge⟩ := TopCut.exists_edge retention.cap_pos hmany.le
    have hfloor : floorOf retention.maxResolvedPerUnit l unit = some
        (edge, TopCut.atEdge retention.maxResolvedPerUnit (resolvedTimes l unit) edge) := by
      simp only [floorOf, if_pos hmany, hedge, Option.map_some]
    -- the ranks of the records in the order of the pass are the times in another order
    have htimes : TopCut.descending (resolvedTimes l unit) =
        TopCut.descending ((l'.filter (Finding.isResolvedOf unit)).map Finding.resolvedAt) := by
      rw [resolvedTimes_eq]
      exact TopCut.descending_congr (hperm.map Finding.resolvedAt).symm
    have hkept : kept = TopCut.keepAbove Finding.resolvedAt edge
        (TopCut.atEdge retention.maxResolvedPerUnit
          ((l'.filter (Finding.isResolvedOf unit)).map Finding.resolvedAt) edge)
        (l'.filter (Finding.isResolvedOf unit)) := by
      unfold TopCut.atEdge at hfloor ⊢
      rw [← htimes]
      simp only [kept, hfloor, cutTo]
    have hlength : kept.length = retention.maxResolvedPerUnit := by
      rw [hkept]
      refine TopCut.length_keepAbove_edge Finding.resolvedAt retention.cap_pos ?_
      unfold TopCut.edge at hedge ⊢
      rw [← htimes]
      exact hedge
    constructor
    · rw [hlength, ← hcount, Nat.min_eq_left hmany.le]
    · intro f hf hdropped g hg
      rw [hkept] at hdropped hg
      exact TopCut.keepAbove_greatest Finding.resolvedAt hf hdropped hg
  · have hfloor : floorOf retention.maxResolvedPerUnit l unit = none := by
      simp only [floorOf, if_neg hmany]
    have hkept : kept = l'.filter (Finding.isResolvedOf unit) := by
      simp only [kept, hfloor, cutTo]
    rw [hkept]
    refine ⟨?_, fun f hf hdropped => absurd hf hdropped⟩
    rw [← hcount, Nat.min_eq_right (not_lt.mp hmany), hcount, List.countP_eq_length_filter]
    exact hperm.length_eq

/-- Sorting leaves the open records in their order. -/
lemma filter_isNone_sorted (l : List Finding) :
    (l.insertionSort fun f g => f.age ≥ g.age).filter (fun f => f.resolvedMs.isNone) =
      l.filter fun f => f.resolvedMs.isNone := by
  have hopen : (l.filter fun f => f.resolvedMs.isNone).Pairwise fun f g => f.age ≥ g.age := by
    rw [List.pairwise_filter]
    refine List.pairwise_of_forall fun f g hf hg => ?_
    rw [Finding.age, Finding.age, Option.isNone_iff_eq_none.mp hf, Option.isNone_iff_eq_none.mp hg]
    exact le_refl (⊥ : WithBot Int)
  have hsub : (l.filter fun f => f.resolvedMs.isNone).Sublist
      (l.insertionSort fun f g => f.age ≥ g.age) :=
    List.sublist_insertionSort hopen List.filter_sublist
  have hfilter := hsub.filter fun f => f.resolvedMs.isNone
  rw [List.filter_filter] at hfilter
  simp only [Bool.and_self] at hfilter
  refine (hfilter.eq_of_length ?_).symm
  exact ((List.perm_insertionSort _ l).filter _).length_eq.symm

/-- The records that stay are records that have not expired, and of one unit they are those that the
pass over the unit leaves, in some order of the records. -/
lemma prune_spec : let kept := (store.prune nowMs retention).findings
    let live := store.unexpired nowMs retention
    ∃ l', l'.Perm live ∧ kept.Sublist l' ∧
      kept.filter (fun f => f.resolvedMs.isNone) = live.filter (fun f => f.resolvedMs.isNone) ∧
      ∀ unit, kept.filter (Finding.isResolvedOf unit) =
        cutTo (floorOf retention.maxResolvedPerUnit live unit)
          (l'.filter (Finding.isResolvedOf unit)) := by
  intro kept live
  by_cases hall : (live.all fun f =>
      (floorOf retention.maxResolvedPerUnit live f.unitKey).isNone) = true
  · have hkept : kept = live := by
      simp only [kept, FindingsStore.prune, live, if_pos hall]
    refine ⟨live, List.Perm.refl live, hkept ▸ List.Sublist.refl _, by rw [hkept], fun unit => ?_⟩
    rw [hkept]
    cases hfloor : floorOf retention.maxResolvedPerUnit live unit with
    | none => rfl
    | some mark =>
      -- a unit with a floor has a record, whose floor is not there
      have hmany : retention.maxResolvedPerUnit < (resolvedTimes live unit).length := by
        by_contra hfew
        simp [floorOf, hfew] at hfloor
      obtain ⟨r, hr⟩ := List.exists_mem_of_length_pos (Nat.zero_lt_of_lt hmany)
      rw [resolvedTimes_eq] at hr
      obtain ⟨f, hf, -⟩ := List.mem_map.mp hr
      obtain ⟨hlive, hof⟩ := List.mem_filter.mp hf
      have hunit : f.unitKey = unit := by
        unfold Finding.isResolvedOf at hof
        simpa using (Bool.and_eq_true_iff.mp hof).2
      have hnone := List.all_eq_true.mp hall f hlive
      rw [hunit, hfloor] at hnone
      cases hnone
  · have hkept : kept = retainFloor (floorOf retention.maxResolvedPerUnit live)
        (live.insertionSort fun f g => f.age ≥ g.age) := by
      simp only [kept, FindingsStore.prune, live, if_neg hall]
    refine ⟨live.insertionSort fun f g => f.age ≥ g.age, List.perm_insertionSort _ _, ?_, ?_, ?_⟩
    · rw [hkept]
      exact retainFloor_sublist _ _
    · rw [hkept, filter_isNone_retainFloor]
      exact filter_isNone_sorted live
    · intro unit
      rw [hkept]
      exact filter_retainFloor unit _ _

lemma filter_isNone_unexpired :
    (store.unexpired nowMs retention).filter (fun f => f.resolvedMs.isNone) =
      store.findings.filter fun f => f.resolvedMs.isNone := by
  unfold FindingsStore.unexpired
  rw [List.filter_filter]
  refine List.filter_congr fun f _ => ?_
  cases f.resolvedMs <;> simp

/-- What `prune` keeps: every open record; no resolved record that has expired; of each unit as many
of the other resolved records as the cap lets it, and none that is dropped was resolved after one
that is kept. -/
theorem prune_exact (store : FindingsStore) (nowMs : Int) (retention : Retention) :
    let kept := (store.prune nowMs retention).findings
    let live := store.unexpired nowMs retention
    kept.Subperm live ∧
      kept.filter (fun f => f.resolvedMs.isNone) =
        store.findings.filter (fun f => f.resolvedMs.isNone) ∧
      ∀ unit, kept.countP (Finding.isResolvedOf unit) =
          min retention.maxResolvedPerUnit (live.countP (Finding.isResolvedOf unit)) ∧
        ∀ f ∈ live, f.isResolvedOf unit = true → f ∉ kept →
          ∀ g ∈ kept, g.isResolvedOf unit = true → f.resolvedAt ≤ g.resolvedAt := by
  intro kept live
  obtain ⟨l', hperm, hsub, hopen, hunit⟩ := prune_spec store nowMs retention
  refine ⟨hsub.subperm.trans hperm.subperm, ?_, fun unit => ?_⟩
  · exact hopen.trans (filter_isNone_unexpired store nowMs retention)
  · obtain ⟨hlength, hlatest⟩ := cutTo_floorOf retention hperm unit
    rw [← hunit unit] at hlength hlatest
    rw [List.countP_eq_length_filter]
    refine ⟨hlength, fun f hf hof hdropped g hg hofg => ?_⟩
    refine hlatest f ?_ ?_ g (List.mem_filter.mpr ⟨hg, hofg⟩)
    · exact List.mem_filter.mpr ⟨hperm.mem_iff.mpr hf, hof⟩
    · exact fun h => hdropped (List.mem_of_mem_filter h)

/-! ## Merging with pruning -/

/-- The store after a report and the pruning behind it has distinct keys, and under each key there
is what the report means for its record, unless this is a resolved record that was dropped. -/
theorem merge_refines (t : Findings) (scan : Scan) : ∃ t' : Findings,
    (t.store.merge scan retention).1 = t'.store ∧
      ∀ k, t'.find k = scan.observe k (t.find k) ∨
        t'.find k = none ∧ ∃ f r, scan.observe k (t.find k) = some f ∧ f.resolvedMs = some r := by
  have hmerged := store_observed scan t
  obtain ⟨l', hperm, hsub, hopen, -⟩ := prune_spec (t.observed scan).store scan.nowMs retention
  have hlive : (((t.observed scan).store.prune scan.nowMs retention).findings).Subperm
      (t.observed scan).rows :=
    hsub.subperm.trans (hperm.subperm.trans List.filter_sublist.subperm)
  have hnodup : (((t.observed scan).store.prune scan.nowMs retention).findings.map
      Finding.key).Nodup := by
    obtain ⟨l, hl, hlsub⟩ := hlive
    rw [← (hl.map Finding.key).nodup_iff]
    exact (t.observed scan).nodup.sublist (hlsub.map Finding.key)
  refine ⟨⟨_, hnodup⟩, congrArg (fun s => s.prune scan.nowMs retention) hmerged.symm, fun k => ?_⟩
  rw [← find_observed scan t k]
  cases hobserved : (t.observed scan).find k with
  | none =>
    left
    rw [KeyedTable.find_eq_none_iff]
    exact fun f hf => KeyedTable.find_eq_none_iff.mp hobserved f (hlive.subset hf)
  | some f =>
    obtain ⟨hmem, hkey⟩ := KeyedTable.find_eq_some_iff.mp hobserved
    by_cases hkept : f ∈ ((t.observed scan).store.prune scan.nowMs retention).findings
    · left
      exact KeyedTable.find_eq_some_iff.mpr ⟨hkept, hkey⟩
    · right
      constructor
      · rw [KeyedTable.find_eq_none_iff]
        intro g hg hgkey
        rw [(t.observed scan).eq_of_key (hlive.subset hg) hmem (hgkey.trans hkey.symm)] at hg
        exact hkept hg
      · cases hres : f.resolvedMs with
        | some r => exact ⟨f, r, rfl, hres⟩
        | none =>
          have hmemOpen : f ∈ ((t.observed scan).store.findings).filter fun f =>
            f.resolvedMs.isNone :=
            List.mem_filter.mpr ⟨hmem, by simp [hres]⟩
          rw [← filter_isNone_unexpired, ← hopen] at hmemOpen
          exact absurd (List.mem_of_mem_filter hmemOpen) hkept

end Prune

end Orca.Security
