import Mathlib.Data.Finset.Card
import Orca.Security.Findings

/-!
# What a report does to the findings

The loop of `FindingsStore.merge` goes through the report with an index of positions and a list of
flags.  Here the store and its flags are a `KeyedTable` of flagged records (`Flagged`), the loop is
an upsert for each reported finding (`note`, `represents_foldl_take`), and what it leaves under a
key depends on nothing but the record of that key and the last finding of the report that has it
(`find_foldl_note`).

`find_observed` says what a whole report does to the record of each key, and `merge_counts` what the
counts of the report mean.
-/

namespace Orca.Security

/-! ## The table -/

/-- A record with its flag in `seen`. -/
abbrev Flagged := Finding × Bool

/-- The key of a flagged record. -/
def Flagged.key (row : Flagged) : Key := row.1.key

/-- A store whose records have distinct keys. -/
abbrev Findings := KeyedTable Finding.key

/-- The records as `FindingsStore` has them. -/
def Findings.store (t : Findings) : FindingsStore := ⟨t.rows⟩

/-- No record is seen yet. -/
def Findings.unseen (t : Findings) : KeyedTable Flagged.key :=
  t.mapRows (fun f => (f, false)) fun _ => rfl

namespace Scan

variable (scan : Scan)

lemma key_withFinding {f : Finding} {sf : ScannedFinding} (h : f.key = scan.keyOf sf) :
    Finding.key { f with finding := sf } = scan.keyOf sf := by
  simp only [Finding.key, keyOf, Key.mk.injEq] at h ⊢
  exact ⟨h.1, h.2.1, h.2.2.1, trivial, trivial⟩

lemma key_refreshed {f : Finding} {sf : ScannedFinding} (h : f.key = scan.keyOf sf) :
    (scan.refreshed f sf).key = scan.keyOf sf := by
  unfold refreshed
  split
  · exact scan.key_withFinding h
  · exact scan.key_withFinding h

/-- The record and its flag after a reported finding. -/
def notedRow (sf : ScannedFinding) (row : Flagged) : Flagged :=
  (if row.2 = true then { row.1 with finding := sf } else scan.refreshed row.1 sf, true)

lemma key_notedRow {sf : ScannedFinding} {row : Flagged} (h : row.key = scan.keyOf sf) :
    (scan.notedRow sf row).key = scan.keyOf sf := by
  unfold notedRow Flagged.key
  split
  · exact scan.key_withFinding h
  · exact scan.key_refreshed h

/-- A reported finding is taken into the table. -/
def note (t : KeyedTable Flagged.key) (sf : ScannedFinding) : KeyedTable Flagged.key :=
  t.upsert (scan.opened sf, true) (scan.notedRow sf) fun _ h =>
    scan.key_notedRow h

/-! ## The loop is a run of upserts -/

end Scan

/-- The state of the loop stands for a table. -/
structure Merging.Represents (m : Merging) (t : KeyedTable Flagged.key) : Prop where
  /-- The records and their flags are the rows. -/
  rows : m.findings.zip m.seen = t.rows
  length : m.seen.length = m.findings.length
  /-- The index has the position of every key. -/
  index : KeyedTable.Indexes (t.rows.map Flagged.key) m.index

/-- Two lists are changed at one place. -/
lemma zip_modify {α β : Type*} (l : List α) (l' : List β) (i : ℕ) (f : α → α) (g : β → β) :
    (l.modify i f).zip (l'.modify i g) = (l.zip l').modify i (Prod.map f g) := by
  induction l generalizing l' i with
  | nil => simp
  | cons a l ih =>
    cases l' with
    | nil => simp
    | cons b l' =>
      cases i with
      | zero => simp
      | succ i => simp [ih]

/-- A change of one entry is what it does to this entry. -/
lemma modify_eq_modify {α : Type*} {l : List α} {i : ℕ} {a : α} (hi : l[i]? = some a) {f g : α → α}
    (h : f a = g a) : l.modify i f = l.modify i g := by
  refine List.ext_getElem? fun j => ?_
  rw [List.getElem?_modify, List.getElem?_modify]
  by_cases hij : i = j
  · subst hij
    rw [hi]
    exact congrArg some (by simpa using h)
  · simp [hij]

/-- The loop starts with no record seen. -/
lemma represents_start (t : Findings) : (Merging.start t.rows).Represents t.unseen where
  rows := by
    change t.rows.zip (t.rows.map fun _ => false) = t.rows.map fun f => (f, false)
    exact List.map_prod_left_eq_zip.symm
  length := List.length_map _
  index := by
    have hcollect := KeyedTable.indexes_collect t.nodup
    rw [List.zipIdx_map, List.foldl_map] at hcollect
    change KeyedTable.Indexes ((t.rows.map fun f => (f, false)).map Flagged.key) _
    rw [List.map_map]
    exact hcollect

section Take

variable {m : Merging} {t : KeyedTable Flagged.key} (scan : Scan) (sf : ScannedFinding)

lemma take_of_none (hindex : m.index (scan.keyOf sf) = none) : m.take scan sf =
    ⟨m.findings ++ [scan.opened sf],
      Function.update m.index (scan.keyOf sf) (some m.findings.length), m.seen ++ [true],
      { m.counts with new := m.counts.new + 1 }⟩ := by
  simp only [Merging.take, hindex]

lemma take_of_seen {i : ℕ} (hindex : m.index (scan.keyOf sf) = some i)
    (hseen : m.seen.getD i false = true) : m.take scan sf =
    { m with findings := m.findings.modify i fun f => { f with finding := sf } } := by
  simp only [Merging.take, hindex, hseen, if_true]

/-- The loop at a finding with a record that the report did not name before. -/
lemma take_of_unseen {i : ℕ} {f : Finding} (hindex : m.index (scan.keyOf sf) = some i)
    (hseen : m.seen.getD i false = false) (hf : m.findings[i]? = some f) : m.take scan sf =
    { m with
      findings := m.findings.modify i fun f => scan.refreshed f sf
      seen := m.seen.set i true
      counts :=
        if f.resolvedMs.isSome then { m.counts with reopened := m.counts.reopened + 1 }
        else { m.counts with updated := m.counts.updated + 1 } } := by
  simp only [Merging.take, hindex, hseen, hf, Bool.false_eq_true, if_false, Option.any_some]

/-- The key of a reported finding is at the place that the index has for it. -/
lemma Merging.Represents.row_at (h : m.Represents t) {i : ℕ} {k : Key}
    (hindex : m.index k = some i) :
    ∃ f seen, m.findings[i]? = some f ∧ m.seen.getD i false = seen ∧ t.rows[i]? = some (f, seen) ∧
      f.key = k := by
  have hkey := (h.index k i).mp hindex
  rw [List.getElem?_map, Option.map_eq_some_iff] at hkey
  obtain ⟨⟨f, seen⟩, hrow, hkey⟩ := hkey
  have hzip := hrow
  rw [← h.rows, List.getElem?_zip_eq_some] at hzip
  refine ⟨f, seen, hzip.1, ?_, hrow, hkey⟩
  rw [List.getD_eq_getElem?_getD, hzip.2]
  rfl

lemma Merging.Represents.find_of_none (h : m.Represents t) {k : Key} (hindex : m.index k = none) :
    t.find k = none := by
  rw [KeyedTable.find_eq_none_iff]
  intro row hrow hkey
  obtain ⟨i, hi⟩ := List.mem_iff_getElem?.mp (List.mem_map.mpr ⟨row, hrow, hkey⟩)
  rw [(h.index _ i).mpr hi] at hindex
  cases hindex

lemma rows_note : (scan.note t sf).rows = if scan.keyOf sf ∈ t.rows.map Flagged.key then
    t.rows.map fun row => if row.key = scan.keyOf sf then scan.notedRow sf row else row
    else t.rows ++ [(scan.opened sf, true)] :=
  t.rows_upsert (scan.opened sf, true) (scan.notedRow sf) _

/-- A finding with a record changes the row at its place. -/
lemma rows_note_of_row {i : ℕ} {row : Flagged} (hrow : t.rows[i]? = some row)
    (hkey : row.key = scan.keyOf sf) :
    (scan.note t sf).rows = t.rows.modify i (scan.notedRow sf) ∧
      (scan.note t sf).rows.map Flagged.key = t.rows.map Flagged.key := by
  have hmem : scan.keyOf sf ∈ t.rows.map Flagged.key :=
    List.mem_map.mpr ⟨row, List.mem_of_getElem? hrow, hkey⟩
  rw [rows_note, if_pos hmem]
  constructor
  · rw [← hkey]
    exact t.map_ite_eq_modify hrow _
  · rw [List.map_map]
    refine List.map_congr_left fun row' _ => ?_
    rw [Function.comp_apply]
    split
    next h => rw [scan.key_notedRow h, h]
    next => rfl

/-- One finding is taken as the table takes it. -/
lemma Merging.Represents.take (h : m.Represents t) :
    (m.take scan sf).Represents (scan.note t sf) := by
  cases hindex : m.index (scan.keyOf sf) with
  | none =>
    have hlength : m.findings.length = (t.rows.map Flagged.key).length := by
      rw [List.length_map, ← h.rows, List.length_zip, h.length, Nat.min_self]
    have hnew : scan.keyOf sf ∉ t.rows.map Flagged.key := by
      intro hmem
      obtain ⟨row, hrow, hkey⟩ := List.mem_map.mp hmem
      exact KeyedTable.find_eq_none_iff.mp (h.find_of_none hindex) row hrow hkey
    have hnote : (scan.note t sf).rows = t.rows ++ [(scan.opened sf, true)] := by
      rw [rows_note, if_neg hnew]
    rw [take_of_none scan sf hindex]
    refine ⟨?_, ?_, ?_⟩
    · rw [hnote, ← h.rows]
      exact List.zip_append h.length.symm
    · simp only [List.length_append, h.length, List.length_singleton]
    · rw [hnote, List.map_append, hlength]
      exact h.index.concat hnew
  | some i =>
    obtain ⟨f, seen, hf, hseen, hrow, hkey⟩ := h.row_at hindex
    obtain ⟨hnote, hkeys⟩ := rows_note_of_row scan sf hrow hkey
    cases seen with
    | true =>
      rw [take_of_seen scan sf hindex hseen]
      refine ⟨?_, ?_, ?_⟩
      · calc (m.findings.modify i fun f => { f with finding := sf }).zip m.seen
            = (m.findings.modify i fun f => { f with finding := sf }).zip (m.seen.modify i id) := by
              rw [List.modify_id]
          _ = t.rows.modify i (Prod.map (fun f => { f with finding := sf }) id) := by
              rw [zip_modify, h.rows]
          _ = (scan.note t sf).rows := by
              rw [hnote]
              exact modify_eq_modify hrow rfl
      · rw [List.length_modify]
        exact h.length
      · rw [hkeys]
        exact h.index
    | false =>
      rw [take_of_unseen scan sf hindex hseen hf]
      refine ⟨?_, ?_, ?_⟩
      · calc (m.findings.modify i fun f => scan.refreshed f sf).zip (m.seen.set i true)
            = (m.findings.modify i fun f => scan.refreshed f sf).zip
                (m.seen.modify i fun _ => true) := by
              rw [List.set_eq_modify]
          _ = t.rows.modify i (Prod.map (fun f => scan.refreshed f sf) fun _ => true) := by
              rw [zip_modify, h.rows]
          _ = (scan.note t sf).rows := by
              rw [hnote]
              exact modify_eq_modify hrow rfl
      · rw [List.length_modify, List.length_set]
        exact h.length
      · rw [hkeys]
        exact h.index

end Take

/-! ## What is left under a key -/

/-- The last of some findings that has the key. -/
def Scan.lastOf (scan : Scan) (sfs : List ScannedFinding) (k : Key) : Option ScannedFinding :=
  (sfs.filter fun sf => decide (scan.keyOf sf = k)).getLast?

/-- What the report says of a key. -/
def Scan.lastReported (scan : Scan) (k : Key) : Option ScannedFinding :=
  scan.lastOf scan.report.findings k

/-- The record of a finding that is reported. -/
def Scan.reported (scan : Scan) (sf : ScannedFinding) (row : Option Finding) : Finding :=
  (row.map fun f => scan.refreshed f sf).getD (scan.opened sf)

/-- What a report means for the record of a key. -/
def Scan.observe (scan : Scan) (k : Key) (row : Option Finding) : Option Finding :=
  match scan.lastReported k with
  | some sf => some (scan.reported sf row)
  | none => row.map fun f => if scan.resolves f then { f with resolvedMs := some scan.nowMs } else f

section Noted

variable (scan : Scan)

/-- The last finding of a key when one more is read. -/
lemma lastOf_concat (sfs : List ScannedFinding) (sf : ScannedFinding) (k : Key) :
    scan.lastOf (sfs ++ [sf]) k = if scan.keyOf sf = k then some sf else scan.lastOf sfs k := by
  unfold Scan.lastOf
  rw [List.filter_append]
  by_cases hk : scan.keyOf sf = k
  · rw [if_pos hk, List.filter_singleton, decide_eq_true hk]
    exact List.getLast?_concat
  · rw [if_neg hk, List.filter_singleton, decide_eq_false hk]
    simp

lemma withFinding_reported (sf sf' : ScannedFinding) (row : Option Finding) :
    { scan.reported sf row with finding := sf' } = scan.reported sf' row := by
  cases row with
  | none => rfl
  | some f =>
    simp only [Scan.reported, Option.map_some, Option.getD_some, Scan.refreshed]
    split <;> rfl

/-- The row of a key after some findings of the report. -/
def Scan.noted (sfs : List ScannedFinding) (k : Key) (row : Option Finding) : Option Flagged :=
  match scan.lastOf sfs k with
  | some sf => some (scan.reported sf row, true)
  | none => row.map fun f => (f, false)

/-- The row of a key after one finding more. -/
lemma noted_concat (sfs : List ScannedFinding) (sf : ScannedFinding) (k : Key)
    (row : Option Finding) : scan.noted (sfs ++ [sf]) k row =
      if scan.keyOf sf = k then
        some (((scan.noted sfs k row).map (scan.notedRow sf)).getD (scan.opened sf, true))
      else scan.noted sfs k row := by
  unfold Scan.noted
  rw [lastOf_concat]
  by_cases hk : scan.keyOf sf = k
  · rw [if_pos hk, if_pos hk]
    cases scan.lastOf sfs k with
    | none => cases row <;> rfl
    | some sf' =>
      exact congrArg (fun f => some (f, true)) (withFinding_reported scan sf' sf row).symm
  · rw [if_neg hk, if_neg hk]

/-- The row of a key depends on its record and on the findings that have the key. -/
theorem find_foldl_note (t : Findings) (sfs : List ScannedFinding) (k : Key) :
    (sfs.foldl scan.note t.unseen).find k = scan.noted sfs k (t.find k) := by
  induction sfs using List.reverseRecOn with
  | nil => exact t.find_mapRows (fun f => (f, false)) (fun _ => rfl) k
  | append_singleton sfs sf ih =>
    rw [List.foldl_concat, noted_concat, ← ih]
    refine ((sfs.foldl scan.note t.unseen).find_upsert _ _ _ k).trans ?_
    exact if_congr ⟨Eq.symm, Eq.symm⟩ rfl rfl

lemma represents_foldl_take (t : Findings) (sfs : List ScannedFinding) :
    (sfs.foldl (Merging.take scan) (Merging.start t.rows)).Represents
      (sfs.foldl scan.note t.unseen) := by
  induction sfs using List.reverseRecOn with
  | nil => exact represents_start t
  | append_singleton sfs sf ih =>
    rw [List.foldl_concat, List.foldl_concat]
    exact ih.take scan sf

/-- The record of a row after the report. -/
def Scan.settle (row : Flagged) : Finding :=
  if !row.2 && scan.resolves row.1 then { row.1 with resolvedMs := some scan.nowMs } else row.1

/-- The table after the report. -/
def Findings.observed (t : Findings) : Findings :=
  (scan.report.findings.foldl scan.note t.unseen).mapRows scan.settle fun row => by
    unfold Scan.settle
    split <;> rfl

/-- The store after the report is the table after it. -/
theorem store_observed (t : Findings) : (t.observed scan).store = (t.store.merged scan).1 := by
  have hrows := (represents_foldl_take scan t scan.report.findings).rows
  refine congrArg FindingsStore.mk ?_
  change (scan.report.findings.foldl scan.note t.unseen).rows.map scan.settle = _
  rw [← hrows, List.map_zip_eq_zipWith]
  rfl

/-- A report does to the record of each key what it means for it. -/
theorem find_observed (t : Findings) (k : Key) :
    (t.observed scan).find k = scan.observe k (t.find k) := by
  unfold Findings.observed Scan.observe Scan.lastReported
  rw [KeyedTable.find_mapRows, find_foldl_note, Scan.noted]
  cases scan.lastOf scan.report.findings k with
  | some sf => rfl
  | none => cases t.find k <;> rfl

end Noted

/-! ## The counts -/

section Counts

variable (scan : Scan)

lemma lastOf_eq_none_iff {sfs : List ScannedFinding} {k : Key} :
    scan.lastOf sfs k = none ↔ k ∉ sfs.map scan.keyOf := by
  unfold Scan.lastOf
  simp

/-- The counts of the loop for the keys that are reported. -/
def Findings.countsOf (t : Findings) (ks : Finset Key) : MergeCounts where
  new := (ks.filter fun k => t.find k = none).card
  updated := (ks.filter fun k => (t.find k).any fun f => f.resolvedMs.isNone).card
  resolved := 0
  reopened := (ks.filter fun k => (t.find k).any fun f => f.resolvedMs.isSome).card

/-- The counts after a key whose record is this one. -/
def MergeCounts.withKey (counts : MergeCounts) (row : Option Finding) : MergeCounts :=
  match row with
  | none => { counts with new := counts.new + 1 }
  | some f =>
    if f.resolvedMs.isSome then { counts with reopened := counts.reopened + 1 }
    else { counts with updated := counts.updated + 1 }

/-- The counts with one key more. -/
lemma countsOf_insert (t : Findings) {ks : Finset Key} {k : Key} (hk : k ∉ ks) :
    t.countsOf (insert k ks) = (t.countsOf ks).withKey (t.find k) := by
  have hfilter (p : Key → Prop) [DecidablePred p] : ((insert k ks).filter p).card =
      (ks.filter p).card + if p k then 1 else 0 := by
    rw [Finset.filter_insert]
    split
    · exact Finset.card_insert_of_notMem fun h => hk (Finset.mem_of_mem_filter k h)
    · rfl
  unfold Findings.countsOf MergeCounts.withKey
  simp only [hfilter]
  cases hfind : t.find k with
  | none => simp
  | some f => cases hres : f.resolvedMs <;> simp [hres]

/-- The loop counts each reported key once. -/
lemma counts_foldl_take (t : Findings) (sfs : List ScannedFinding) :
    (sfs.foldl (Merging.take scan) (Merging.start t.rows)).counts =
      t.countsOf (sfs.map scan.keyOf).toFinset := by
  induction sfs using List.reverseRecOn with
  | nil => rfl
  | append_singleton sfs sf ih =>
    have hrep := represents_foldl_take scan t sfs
    have hfind := find_foldl_note scan t sfs (scan.keyOf sf)
    have hnew : scan.lastOf sfs (scan.keyOf sf) = none →
        scan.keyOf sf ∉ (sfs.map scan.keyOf).toFinset := fun h => by
      rw [List.mem_toFinset]
      exact (lastOf_eq_none_iff scan).mp h
    have hkeys : ((sfs ++ [sf]).map scan.keyOf).toFinset =
        insert (scan.keyOf sf) (sfs.map scan.keyOf).toFinset := by
      ext k
      simp
    rw [List.foldl_concat, hkeys]
    unfold Scan.noted at hfind
    cases hindex : (sfs.foldl (Merging.take scan) (Merging.start t.rows)).index (scan.keyOf sf) with
    | none =>
      -- the key has no record and was not reported before
      rw [hrep.find_of_none hindex] at hfind
      cases hlast : scan.lastOf sfs (scan.keyOf sf) with
      | some sf' => simp [hlast] at hfind
      | none =>
        have hnone : t.find (scan.keyOf sf) = none := by simpa [hlast] using hfind.symm
        rw [take_of_none scan sf hindex, countsOf_insert t (hnew hlast), hnone, ← ih]
        rfl
    | some i =>
      obtain ⟨f, seen, hf, hseen, hrow, hkey⟩ := hrep.row_at hindex
      rw [KeyedTable.find_eq_some_iff.mpr ⟨List.mem_of_getElem? hrow, hkey⟩] at hfind
      cases seen with
      | true =>
        -- the key was counted when it was reported before
        have hmem : scan.keyOf sf ∈ (sfs.map scan.keyOf).toFinset := by
          rw [List.mem_toFinset]
          by_contra hnot
          rw [(lastOf_eq_none_iff scan).mpr hnot] at hfind
          cases hold : t.find (scan.keyOf sf) <;> simp [hold] at hfind
        rw [take_of_seen scan sf hindex hseen, Finset.insert_eq_of_mem hmem, ← ih]
      | false =>
        cases hlast : scan.lastOf sfs (scan.keyOf sf) with
        | some sf' => simp [hlast] at hfind
        | none =>
          have hold : t.find (scan.keyOf sf) = some f := by
            cases hold : t.find (scan.keyOf sf) <;> simp [hlast, hold] at hfind
            rw [hfind]
          rw [take_of_unseen scan sf hindex hseen hf, countsOf_insert t (hnew hlast), hold, ← ih]
          rfl

/-- The records that the report does not name are as they were. -/
lemma unseen_perm (t : Findings) (sfs : List ScannedFinding) :
    (((sfs.foldl scan.note t.unseen).rows.filter fun row => !row.2).map Prod.fst).Perm
      (t.rows.filter fun f => decide (f.key ∉ (sfs.map scan.keyOf).toFinset)) := by
  rw [List.perm_ext_iff_of_nodup]
  · intro f
    have hfind := find_foldl_note scan t sfs f.key
    simp only [List.mem_map, List.mem_filter, Prod.exists, decide_eq_true_eq, Bool.not_eq_true']
    rw [t.mem_rows_iff, List.mem_toFinset, ← lastOf_eq_none_iff]
    constructor
    · rintro ⟨f', seen, ⟨hrow, rfl⟩, rfl⟩
      have hrow : (sfs.foldl scan.note t.unseen).find f'.key = some (f', false) :=
        KeyedTable.find_eq_some_iff.mpr ⟨hrow, rfl⟩
      rw [hrow, Scan.noted] at hfind
      cases hlast : scan.lastOf sfs f'.key with
      | some sf => simp [hlast] at hfind
      | none => cases hold : KeyedTable.find t f'.key <;> simp_all
    · rintro ⟨hold, hlast⟩
      rw [Scan.noted, hlast, hold] at hfind
      exact ⟨f, false, ⟨(KeyedTable.find_eq_some_iff.mp hfind).1, rfl⟩, rfl⟩
  · refine List.Nodup.of_map Finding.key ?_
    rw [List.map_map]
    exact (sfs.foldl scan.note t.unseen).nodup.sublist (List.filter_sublist.map _)
  · exact t.nodup.of_map.filter _

/-- The report resolves the records that it leaves out, as far as it speaks for them. -/
lemma countP_absent (t : Findings) (sfs : List ScannedFinding) :
    (sfs.foldl scan.note t.unseen).rows.countP (fun row => !row.2 && scan.resolves row.1) =
      t.rows.countP fun f =>
        scan.resolves f && decide (f.key ∉ (sfs.map scan.keyOf).toFinset) := by
  calc (sfs.foldl scan.note t.unseen).rows.countP (fun row => !row.2 && scan.resolves row.1)
      = (((sfs.foldl scan.note t.unseen).rows.filter fun row => !row.2).map Prod.fst).countP
          scan.resolves := by
        rw [List.countP_map, List.countP_filter]
        refine List.countP_congr fun row _ => ?_
        rw [Bool.and_comm]
        rfl
    _ = (t.rows.filter fun f => decide (f.key ∉ (sfs.map scan.keyOf).toFinset)).countP
          scan.resolves := (unseen_perm scan t sfs).countP_eq _
    _ = _ := by rw [List.countP_filter]

/-- The counts of a report: each key that it names counts once, as a new record, as one that was
open, or as one that was resolved; and each record that it resolves counts once. -/
theorem merge_counts (t : Findings) (retention : Retention) :
    let reported := (scan.report.findings.map scan.keyOf).toFinset
    (t.store.merge scan retention).2 =
      { new := (reported.filter fun k => t.find k = none).card
        updated := (reported.filter fun k => (t.find k).any fun f => f.resolvedMs.isNone).card
        resolved := t.rows.countP fun f => scan.resolves f && decide (f.key ∉ reported)
        reopened := (reported.filter fun k => (t.find k).any fun f =>
          f.resolvedMs.isSome).card } := by
  intro reported
  have hcounts := counts_foldl_take scan t scan.report.findings
  have hrows := (represents_foldl_take scan t scan.report.findings).rows
  have habsent := countP_absent scan t scan.report.findings
  rw [← hrows] at habsent
  have hmerge : (t.store.merge scan retention).2 =
      let m := scan.report.findings.foldl (Merging.take scan) (Merging.start t.rows)
      { m.counts with
        resolved := m.counts.resolved +
          (m.findings.zip m.seen).countP fun row => !row.2 && scan.resolves row.1 } := rfl
  rw [hmerge]
  simp only [hcounts, habsent]
  exact congrArg (fun n => { t.countsOf reported with resolved := n }) (Nat.zero_add _)

end Counts

end Orca.Security
