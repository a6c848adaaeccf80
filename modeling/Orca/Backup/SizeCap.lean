import Orca.Backup.Retention
import Orca.Library.Budget

/-!
# The cap on the size of the backups

The cap is to drop the oldest of the backups that the axes keep, until the rest fits.  The walk over
them drops a backup that does not fit into what is left of the cap, and goes on: an older one that
is small enough is kept after it.

`trimsOldest_iff` says when what is left is nonetheless the newest of what the axes keep: no backup
after the first one that does not fit is small enough to fit.  The sum of the sizes is computed in
64 bits and stays at the greatest number, which a cap of that number never exceeds; there the sizes
themselves must fit.
-/

namespace Orca.Backup

variable {σ : Type}

/-! ## Places and backups -/

/-- The places to keep, each with its backup, from the `i`-th backup on. -/
def placesKept (keep : List Nat) : Nat → List (Slot σ) → List (Nat × Slot σ)
  | _, [] => []
  | i, s :: rest =>
    if i ∈ keep then (i, s) :: placesKept keep (i + 1) rest else placesKept keep (i + 1) rest

/-- The size of the payload of a backup at its place. -/
def placeBytes (p : Nat × Slot σ) : Nat := p.2.sizeBytes

/-- The backups at the places to keep are those that are kept. -/
lemma map_snd_placesKept (keep : List Nat) (i : Nat) (slots : List (Slot σ)) :
    (placesKept keep i slots).map Prod.snd = keptFrom keep i slots := by
  induction slots generalizing i with
  | nil => rfl
  | cons s rest ih =>
    unfold placesKept keptFrom
    split
    · rw [List.map_cons, ih]
    · exact ih (i + 1)

/-- A place is kept if and only if it is one to keep and there is a backup at it. -/
lemma mem_map_fst_placesKept {keep : List Nat} {i j : Nat} {slots : List (Slot σ)} :
    j ∈ (placesKept keep i slots).map Prod.fst ↔ j ∈ keep ∧ i ≤ j ∧ j < i + slots.length := by
  induction slots generalizing i with
  | nil =>
    refine iff_of_false List.not_mem_nil fun h => ?_
    exact absurd h.2.1 (Nat.not_le.mpr h.2.2)
  | cons s rest ih =>
    unfold placesKept
    rw [List.length_cons]
    split
    · rename_i hkeep
      rw [List.map_cons, List.mem_cons, ih]
      constructor
      · rintro (rfl | ⟨hj, hlow, hhigh⟩)
        · exact ⟨hkeep, Nat.le_refl j, by omega⟩
        · exact ⟨hj, by omega, by omega⟩
      · rintro ⟨hj, hlow, hhigh⟩
        rcases Nat.eq_or_lt_of_le hlow with rfl | hlow
        · exact Or.inl rfl
        · exact Or.inr ⟨hj, hlow, by omega⟩
    · rename_i hkeep
      rw [ih]
      constructor
      · rintro ⟨hj, hlow, hhigh⟩
        exact ⟨hj, by omega, by omega⟩
      · rintro ⟨hj, hlow, hhigh⟩
        have hne : i ≠ j := fun h => hkeep (h ▸ hj)
        exact ⟨hj, by omega, by omega⟩

/-- The places are in order. -/
lemma pairwise_placesKept (keep : List Nat) (i : Nat) (slots : List (Slot σ)) :
    (placesKept keep i slots).Pairwise fun p q => p.1 < q.1 := by
  induction slots generalizing i with
  | nil => exact List.Pairwise.nil
  | cons s rest ih =>
    unfold placesKept
    split
    · refine List.pairwise_cons.mpr ⟨fun q hq => ?_, ih (i + 1)⟩
      exact (mem_map_fst_placesKept.mp (List.mem_map_of_mem hq)).2.1
    · exact ih (i + 1)

lemma nodup_map_fst_placesKept (keep : List Nat) (i : Nat) (slots : List (Slot σ)) :
    ((placesKept keep i slots).map Prod.fst).Nodup := by
  rw [List.nodup_iff_pairwise_ne, List.pairwise_map]
  exact (pairwise_placesKept keep i slots).imp Nat.ne_of_lt

/-- What is kept from a place on depends on the places from it on. -/
lemma placesKept_congr {keep others : List Nat} {i : Nat} (slots : List (Slot σ))
    (h : ∀ j, i ≤ j → (j ∈ keep ↔ j ∈ others)) :
    placesKept keep i slots = placesKept others i slots := by
  induction slots generalizing i with
  | nil => rfl
  | cons s rest ih =>
    have hrest := ih (i := i + 1) fun j hj => h j (Nat.le_of_succ_le hj)
    unfold placesKept
    by_cases hkeep : i ∈ keep
    · rw [if_pos hkeep, if_pos ((h i (Nat.le_refl i)).mp hkeep), hrest]
    · rw [if_neg hkeep, if_neg fun hmem => hkeep ((h i (Nat.le_refl i)).mpr hmem), hrest]

/-- Keeping some of the places that are kept keeps those. -/
lemma placesKept_of_sublist {keep : List Nat} {i : Nat} {slots : List (Slot σ)}
    {chosen : List (Nat × Slot σ)} (h : chosen.Sublist (placesKept keep i slots)) :
    placesKept (chosen.map Prod.fst) i slots = chosen := by
  induction slots generalizing i chosen with
  | nil =>
    rw [List.sublist_nil.mp h]
    rfl
  | cons s rest ih =>
    have hlater {p : Nat × Slot σ} (hp : p ∈ placesKept keep (i + 1) rest) : i ≠ p.1 := by
      have hlow := (mem_map_fst_placesKept.mp (List.mem_map_of_mem hp)).2.1
      omega
    have hskip (hsub : chosen.Sublist (placesKept keep (i + 1) rest)) :
        placesKept (chosen.map Prod.fst) i (s :: rest) = chosen := by
      rw [placesKept, if_neg, ih hsub]
      intro hmem
      obtain ⟨p, hp, hpi⟩ := List.mem_map.mp hmem
      exact hlater (hsub.subset hp) hpi.symm
    unfold placesKept at h
    split at h
    · cases h with
      | cons _ hsub => exact hskip hsub
      | cons_cons _ hsub =>
        rename_i chosen
        rw [List.map_cons, placesKept, if_pos List.mem_cons_self]
        refine congrArg (List.cons (i, s)) ((placesKept_congr rest fun j hj => ?_).trans (ih hsub))
        exact List.mem_cons.trans (or_iff_right (by omega))
    · exact hskip h

/-! ## The walk -/

/-- After the first backup, the walk takes what fits into the cap. -/
lemma withinCap_eq_taken {cap : Nat} (hcap : cap < 2 ^ 64 - 1) (keep : List Nat) (i : Nat)
    (slots : List (Slot σ)) (total : Nat) :
    withinCap cap keep i slots total false =
      (Budget.taken placeBytes cap total (placesKept keep i slots)).map Prod.fst := by
  induction slots generalizing i total with
  | nil => rfl
  | cons s rest ih =>
    unfold withinCap placesKept
    dsimp only
    by_cases hkeep : i ∈ keep
    · rw [if_pos hkeep, if_pos hkeep, Bool.false_or, Budget.taken]
      by_cases hfits : total + s.sizeBytes ≤ cap
      · -- a sum within the cap is not cut off
        have hsum : min (total + s.sizeBytes) (2 ^ 64 - 1) = total + s.sizeBytes := by omega
        have htaken : total + placeBytes (i, s) ≤ cap := hfits
        rw [hsum, if_pos (decide_eq_true hfits), if_pos htaken, ih]
        rfl
      · have hskip : ¬min (total + s.sizeBytes) (2 ^ 64 - 1) ≤ cap := by omega
        have hnot : ¬total + placeBytes (i, s) ≤ cap := hfits
        rw [if_neg (by simpa only [decide_eq_true_eq] using hskip), if_neg hnot, ih]
    · rw [if_neg hkeep, if_neg hkeep, ih]

/-- A sum in 64 bits never exceeds the greatest cap. -/
lemma withinCap_greatest (keep : List Nat) (i : Nat) (slots : List (Slot σ)) (total : Nat)
    (first : Bool) :
    withinCap (2 ^ 64 - 1) keep i slots total first =
      (placesKept keep i slots).map Prod.fst := by
  induction slots generalizing i total first with
  | nil => rfl
  | cons s rest ih =>
    unfold withinCap placesKept
    dsimp only
    split
    · rw [if_pos (by rw [decide_eq_true (Nat.min_le_right _ _), Bool.or_true]), ih, List.map_cons]
    · exact ih (i + 1) total first

/-- Until a backup is kept, the walk has spent nothing. -/
lemma withinCap_first {cap : Nat} {keep : List Nat} {i : Nat} {slots : List (Slot σ)}
    (hcap : cap < 2 ^ 64 - 1) (hsizes : ∀ s ∈ slots, s.sizeBytes < 2 ^ 64) :
    withinCap cap keep i slots 0 true =
      (match placesKept keep i slots with
        | [] => []
        | p :: rest => p :: Budget.taken placeBytes cap (placeBytes p) rest).map Prod.fst := by
  induction slots generalizing i with
  | nil => rfl
  | cons s rest ih =>
    obtain ⟨hsize, hrest⟩ := List.forall_mem_cons.mp hsizes
    unfold withinCap placesKept
    dsimp only
    split
    · have hsum : min (0 + s.sizeBytes) (2 ^ 64 - 1) = s.sizeBytes := by omega
      rw [Bool.true_or, if_pos rfl, hsum, withinCap_eq_taken hcap]
      rfl
    · exact ih hrest

/-! ## Trimming -/

/-- The cap drops the oldest of what the axes keep, and what is left fits. -/
structure TrimsOldest (C : Calendar) (records : List (Slot σ)) (r : Retention) (cap : Nat) :
    Prop where
  /-- Only what the axes keep is kept. -/
  axes : ∀ j ∈ retained C records r, j ∈ keptByAxes C records r
  /-- With a backup, every newer one is kept that the axes keep. -/
  newer : ∀ j ∈ retained C records r, ∀ i ∈ keptByAxes C records r, i < j →
    i ∈ retained C records r
  /-- The newest backup that the axes keep is kept. -/
  newest : ∀ i ∈ keptByAxes C records r, (∀ j ∈ keptByAxes C records r, i ≤ j) →
    i ∈ retained C records r
  /-- The sizes add up to no more than the cap, or than the newest one's size. -/
  size : ((keptFrom (retained C records r) 0 records).map Slot.sizeBytes).sum ≤
    max cap (((keptFrom (keptByAxes C records r) 0 records).head?.map Slot.sizeBytes).getD 0)

/-- Of some sizes, newest first: wherever one is the first that does not fit into the cap, none of
the older ones fits in its place.  For the greatest cap, they all fit. -/
def NoneFitsAfter (cap : Nat) : List Nat → Prop
  | [] => True
  | newest :: sizes =>
    if cap = 2 ^ 64 - 1 then newest + sizes.sum ≤ cap
    else ∀ before x after, sizes = before ++ x :: after → newest + before.sum ≤ cap →
      cap < newest + before.sum + x → ∀ y ∈ after, cap < newest + before.sum + y

/-- The sizes after the newest one, as the walk over the places sees them. -/
lemma noneFitsAfter_iff {cap : Nat} (hcap : cap < 2 ^ 64 - 1) (p : Nat × Slot σ)
    (ps : List (Nat × Slot σ)) :
    NoneFitsAfter cap ((p :: ps).map placeBytes) ↔
      ∀ q ∈ Budget.later placeBytes cap (placeBytes p) ps,
        cap < Budget.spent placeBytes cap (placeBytes p) ps + placeBytes q := by
  rw [Budget.forall_later_iff, List.map_cons, NoneFitsAfter, if_neg hcap.ne]
  constructor
  · rintro hsizes before x after rfl hfits hskip q hq
    exact hsizes (before.map placeBytes) (placeBytes x) (after.map placeBytes)
      (by rw [List.map_append, List.map_cons]) hfits hskip _ (List.mem_map_of_mem hq)
  · intro hplaces before x after hsplit hfits hskip y hy
    obtain ⟨pre, tail, rfl, rfl, htail⟩ := List.map_eq_append_iff.mp hsplit
    obtain ⟨q, post, rfl, rfl, rfl⟩ := List.map_eq_cons_iff.mp htail
    obtain ⟨w, hw, rfl⟩ := List.mem_map.mp hy
    exact hplaces pre q post rfl hfits hskip w hw

/-- The axes keep no place without a backup. -/
lemma lt_of_mem_newestPerPeriod {C : Calendar} {bucket : Int → String} {n i j : Nat}
    {slots : List (Slot σ)} {periods : List String}
    (h : j ∈ newestPerPeriod C bucket n i slots periods) : j < i + slots.length := by
  induction slots generalizing i periods with
  | nil => exact absurd h List.not_mem_nil
  | cons s rest ih =>
    have hrest {periods : List String} (h : j ∈ newestPerPeriod C bucket n (i + 1) rest periods) :
        j < i + (s :: rest).length := by
      have hlt := ih h
      rw [List.length_cons]
      omega
    unfold newestPerPeriod at h
    dsimp only at h
    split at h
    · split at h
      · exact hrest h
      · split at h
        · exact absurd h List.not_mem_nil
        · rcases List.mem_cons.mp h with rfl | h
          · exact Nat.lt_add_of_pos_right (Nat.succ_pos _)
          · exact hrest h
    · exact hrest h

/-- One axis keeps no place without a backup. -/
lemma lt_of_mem_keepPerBucket {C : Calendar} {bucket : Int → String} {n : Option Nat} {j : Nat}
    {records : List (Slot σ)} (h : j ∈ keepPerBucket C records n bucket) : j < records.length := by
  unfold keepPerBucket at h
  cases n with
  | none => exact absurd h List.not_mem_nil
  | some n =>
    dsimp only at h
    split at h
    · exact absurd h List.not_mem_nil
    · simpa only [Nat.zero_add] using lt_of_mem_newestPerPeriod h

/-- No place without a backup is kept. -/
lemma lt_of_mem_keptByAxes {C : Calendar} {r : Retention} {j : Nat} {records : List (Slot σ)}
    (h : j ∈ keptByAxes C records r) : j < records.length := by
  unfold keptByAxes at h
  split at h
  · simp only [List.mem_append, or_assoc] at h
    rcases h with h | h | h | h | h | h
    · split at h
      · exact (List.mem_range.mp h).trans_le (Nat.min_le_left _ _)
      · exact absurd h List.not_mem_nil
    all_goals exact lt_of_mem_keepPerBucket h
  · exact List.mem_range.mp h

lemma mem_keptByAxes_iff {C : Calendar} {r : Retention} {j : Nat} {records : List (Slot σ)} :
    j ∈ keptByAxes C records r ↔
      j ∈ (placesKept (keptByAxes C records r) 0 records).map Prod.fst := by
  rw [mem_map_fst_placesKept]
  refine ⟨fun h => ⟨h, Nat.zero_le j, ?_⟩, And.left⟩
  rw [Nat.zero_add]
  exact lt_of_mem_keptByAxes h

/-- What the cap leaves of the places, where the walk leaves some of them. -/
lemma trimsOldest_iff_of_retained {C : Calendar} {records : List (Slot σ)} {r : Retention}
    {cap : Nat} {places chosen : List (Nat × Slot σ)}
    (hplaces : placesKept (keptByAxes C records r) 0 records = places)
    (hretained : retained C records r = chosen.map Prod.fst) (hsub : chosen.Sublist places)
    (hhead : chosen.head? = places.head?) :
    TrimsOldest C records r cap ↔
      chosen <+: places ∧
        (chosen.map placeBytes).sum ≤ max cap ((places.head?.map placeBytes).getD 0) := by
  have hordered := pairwise_placesKept (keptByAxes C records r) 0 records
  rw [hplaces] at hordered
  have haxes (j : Nat) : j ∈ keptByAxes C records r ↔ j ∈ places.map Prod.fst := by
    rw [mem_keptByAxes_iff, hplaces]
  have hkept : keptFrom (retained C records r) 0 records = chosen.map Prod.snd := by
    rw [hretained, ← map_snd_placesKept, placesKept_of_sublist (hplaces.symm ▸ hsub)]
  have hsum : ((keptFrom (retained C records r) 0 records).map Slot.sizeBytes).sum =
      (chosen.map placeBytes).sum := by
    rw [hkept, List.map_map]
    rfl
  have hnewest : (keptFrom (keptByAxes C records r) 0 records).head?.map Slot.sizeBytes =
      places.head?.map placeBytes := by
    rw [← map_snd_placesKept, hplaces, List.head?_map, Option.map_map]
    rfl
  rw [Budget.prefix_iff_of_ordered hordered hsub]
  constructor
  · intro h
    refine ⟨fun p hp q hq hlt => ?_, ?_⟩
    · have hmem : q.1 ∈ retained C records r := by
        refine h.newer p.1 ?_ q.1 ((haxes _).mpr (List.mem_map_of_mem hq)) hlt
        rw [hretained]
        exact List.mem_map_of_mem hp
      rw [hretained] at hmem
      obtain ⟨w, hw, hwq⟩ := List.mem_map.mp hmem
      have hnodup := nodup_map_fst_placesKept (keptByAxes C records r) 0 records
      rw [hplaces] at hnodup
      exact List.inj_on_of_nodup_map hnodup (hsub.subset hw) hq hwq ▸ hw
    · have hsize := h.size
      rwa [hsum, hnewest] at hsize
  · rintro ⟨hbegins, hsize⟩
    refine ⟨fun j hj => ?_, fun j hj i hi hlt => ?_, fun i hi hleast => ?_, ?_⟩
    · rw [hretained] at hj
      exact (haxes j).mpr ((hsub.map Prod.fst).subset hj)
    · rw [hretained] at hj ⊢
      obtain ⟨p, hp, rfl⟩ := List.mem_map.mp hj
      obtain ⟨q, hq, rfl⟩ := List.mem_map.mp ((haxes i).mp hi)
      exact List.mem_map_of_mem (hbegins p hp q hq hlt)
    · obtain ⟨q, hq, rfl⟩ := List.mem_map.mp ((haxes i).mp hi)
      cases places with
      | nil => exact absurd hq List.not_mem_nil
      | cons p ps =>
        have hle := hleast p.1 ((haxes _).mpr (List.mem_map_of_mem List.mem_cons_self))
        have hfirst : q = p := by
          rcases List.mem_cons.mp hq with rfl | hq
          · rfl
          · exact absurd ((List.pairwise_cons.mp hordered).1 q hq) (Nat.not_lt.mpr hle)
        rw [hretained, hfirst]
        exact List.mem_map_of_mem (List.mem_of_mem_head? (hhead.trans rfl))
    · rw [hsum, hnewest]
      exact hsize

/-- The cap drops the oldest of the backups that the axes keep if and only if no backup after the
first one that does not fit is small enough to fit. -/
theorem trimsOldest_iff {C : Calendar} {records : List (Slot σ)} {r : Retention} {cap : Nat}
    (hcap : r.maxTotalBytes = some cap) (hbits : cap < 2 ^ 64)
    (hsizes : ∀ s ∈ records, s.sizeBytes < 2 ^ 64) :
    TrimsOldest C records r cap ↔
      NoneFitsAfter cap ((keptFrom (keptByAxes C records r) 0 records).map Slot.sizeBytes) := by
  have hbytes : (keptFrom (keptByAxes C records r) 0 records).map Slot.sizeBytes =
      (placesKept (keptByAxes C records r) 0 records).map placeBytes := by
    rw [← map_snd_placesKept, List.map_map]
    rfl
  have hunfold : retained C records r =
      withinCap cap (keptByAxes C records r) 0 records 0 true := by
    rw [retained, hcap]
  rw [hbytes]
  cases hplaces : placesKept (keptByAxes C records r) 0 records with
  | nil =>
    have hretained : retained C records r = ([] : List (Nat × Slot σ)).map Prod.fst := by
      refine List.eq_nil_iff_forall_not_mem.mpr fun j hj => ?_
      have haxes := mem_keptByAxes_iff.mp (mem_of_mem_withinCap (hunfold ▸ hj))
      rw [hplaces] at haxes
      exact List.not_mem_nil haxes
    rw [trimsOldest_iff_of_retained hplaces hretained List.Sublist.slnil rfl]
    exact iff_of_true ⟨List.nil_prefix, Nat.zero_le _⟩ trivial
  | cons p ps =>
    rcases Nat.eq_or_lt_of_le (Nat.le_sub_one_of_lt hbits) with hgreatest | hless
    · -- everything is kept, so that it has to fit
      have hretained : retained C records r = (p :: ps).map Prod.fst := by
        rw [hunfold, hgreatest, withinCap_greatest, hplaces]
      have hp : placeBytes p ≤ cap := by
        have hmem : p.2 ∈ records := by
          refine (keptFrom_sublist (keptByAxes C records r) 0 records).subset ?_
          rw [← map_snd_placesKept, hplaces]
          exact List.mem_map_of_mem List.mem_cons_self
        have hlt := hsizes p.2 hmem
        unfold placeBytes
        omega
      rw [trimsOldest_iff_of_retained hplaces hretained (List.Sublist.refl _) rfl, List.map_cons,
        NoneFitsAfter, if_pos hgreatest, List.sum_cons, List.head?_cons, Option.map_some,
        Option.getD_some, max_eq_left hp]
      exact and_iff_right (List.prefix_refl _)
    · have hretained : retained C records r =
          (p :: Budget.taken placeBytes cap (placeBytes p) ps).map Prod.fst := by
        rw [hunfold, withinCap_first hless hsizes, hplaces]
      have hnodup : ps.Nodup := by
        have hplace := nodup_map_fst_placesKept (keptByAxes C records r) 0 records
        rw [hplaces, List.map_cons] at hplace
        exact (List.nodup_cons.mp hplace).2.of_map
      rw [trimsOldest_iff_of_retained hplaces hretained
        ((Budget.taken_sublist _ _).cons_cons p) rfl, noneFitsAfter_iff hless,
        ← Budget.taken_prefix_iff hnodup, List.prefix_cons_inj]
      refine and_iff_left ?_
      rw [List.map_cons, List.sum_cons]
      exact Budget.sum_taken_le (placeBytes p) ps

/-! ## A backup that is skipped -/

/-- A calendar on which every time is in one period. -/
def onePeriod : Calendar :=
  ⟨fun _ => true, fun _ => "", fun _ => "", fun _ => "", fun _ => "", fun _ => "", fun _ => ""⟩

/-- A backup of the given size. -/
def sized (id : String) (bytes : Nat) : Slot Unit := ⟨id, 0, bytes, none, ["hosts", "thor"], ()⟩

/-- A small backup, a large one before it, and a small one before that. -/
def largeBetweenSmall : List (Slot Unit) :=
  [sized "20250103-000000-thor" 10, sized "20250102-000000-thor" 100,
    sized "20250101-000000-thor" 5]

/-- Three backups are kept, if they have no more than twenty bytes. -/
def twentyBytes : Retention := ⟨some 3, none, none, none, none, none, some 20⟩

/-- Two backups that fit, and an older one that does not. -/
theorem trimsOldest_of_increasing_sizes :
    TrimsOldest onePeriod
      [sized "20250103-000000-thor" 5, sized "20250102-000000-thor" 10,
        sized "20250101-000000-thor" 100] twentyBytes 20 := by
  refine (trimsOldest_iff rfl (by decide) (by decide)).mpr ?_
  change NoneFitsAfter 20 [5, 10, 100]
  rw [NoneFitsAfter, if_neg (by decide)]
  intro before x after hsplit hfits hskip y hy
  match before, hsplit with
  | [], hsplit =>
    obtain ⟨rfl, rfl⟩ := List.cons.inj hsplit
    exact absurd hskip (by decide)
  | [_], hsplit =>
    obtain ⟨rfl, hrest⟩ := List.cons.inj hsplit
    obtain ⟨rfl, rfl⟩ := List.cons.inj hrest
    exact absurd hy List.not_mem_nil
  | _ :: _ :: rest, hsplit =>
    have hlength := congrArg List.length hsplit
    rw [List.length_append, List.length_cons] at hlength
    simp only [List.length_cons, List.length_nil] at hlength
    omega

/-- The cap drops a large backup and keeps an older one that is small. -/
theorem older_backup_kept_past_a_large_one :
    ¬TrimsOldest onePeriod largeBetweenSmall twentyBytes 20 := by
  intro h
  have hnewer := h.newer 2 (by decide) 1 (by decide) (by decide)
  exact absurd hnewer (by decide)

end Orca.Backup
