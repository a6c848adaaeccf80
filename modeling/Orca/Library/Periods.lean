import Mathlib.Data.List.Nodup
import Mathlib.Data.Set.Card

/-!
# Periods of time

A bucket gives each time the key of the period that it is in.  The periods follow each other
(`Chronological`) when no period starts again after another one has started; a period then comes
after another one (`ComesAfter`) with all of its times, or with none of them.

A walk over times, latest first, takes the first time of each new period until it has seen a number
of periods (`latestOfPeriods`).  `mem_latestOfPeriods_iff` says that it takes the latest time of
each of the latest periods that the times are in.
-/

namespace Periods

variable {τ κ : Type*}

/-! ## The order of the periods -/

section Order

variable [LinearOrder τ] {S : Set τ} {bucket : τ → κ}

/-- Between two times of one period there is no time of another one. -/
def Chronological (S : Set τ) (bucket : τ → κ) : Prop :=
  ∀ a ∈ S, ∀ b ∈ S, ∀ c ∈ S, a ≤ b → b ≤ c → bucket a = bucket c → bucket b = bucket c

/-- Every time of the one period is later than every time of the other. -/
def ComesAfter (S : Set τ) (bucket : τ → κ) (q p : κ) : Prop :=
  ∀ a ∈ S, ∀ b ∈ S, bucket a = q → bucket b = p → b < a

lemma chronological_of_monotoneOn {π : Type*} [PartialOrder π] {number : τ → π}
    (hnumber : MonotoneOn number S)
    (hkey : ∀ a ∈ S, ∀ b ∈ S, (bucket a = bucket b ↔ number a = number b)) :
    Chronological S bucket := by
  intro a ha b hb c hc hab hbc hsame
  refine (hkey b hb c hc).mpr (le_antisymm (hnumber hb hc hbc) ?_)
  rw [← (hkey a ha c hc).mp hsame]
  exact hnumber ha hb hab

/-- Of two periods that follow each other, the one with a later time comes after the other. -/
lemma comesAfter_iff (h : Chronological S bucket) {a b : τ} (ha : a ∈ S) (hb : b ∈ S)
    (hne : bucket a ≠ bucket b) : ComesAfter S bucket (bucket a) (bucket b) ↔ b < a := by
  constructor
  · intro hafter
    exact hafter a ha b hb rfl rfl
  · intro hlt c hc d hd hcperiod hdperiod
    by_contra hnot
    have hcd : c ≤ d := not_lt.mp hnot
    rcases le_total b c with hbc | hcb
    · -- the later period would be within the earlier one
      have hc' := h b hb c hc d hd hbc hcd hdperiod.symm
      exact hne (hcperiod.symm.trans (hc'.trans hdperiod))
    · exact hne (h c hc b hb a ha hcb hlt.le hcperiod).symm

/-- The `i`-th of some times, latest first, is the latest one of its period, and fewer than `n` of
the periods of the times come after that period. -/
def IsLatestOfRecent (S : Set τ) (bucket : τ → κ) (n : ℕ) (ts : List τ) (i : ℕ) : Prop :=
  ∃ t, ts[i]? = some t ∧ (∀ t' ∈ ts.take i, bucket t' ≠ bucket t) ∧
    {q | (∃ t' ∈ ts, bucket t' = q) ∧ ComesAfter S bucket q (bucket t)}.ncard < n

lemma IsLatestOfRecent.mono {n m i : ℕ} {ts : List τ}
    (h : IsLatestOfRecent S bucket n ts i) (hle : n ≤ m) : IsLatestOfRecent S bucket m ts i := by
  obtain ⟨t, hget, hfirst, hcard⟩ := h
  exact ⟨t, hget, hfirst, hcard.trans_le hle⟩

end Order

/-! ## The walk -/

variable [DecidableEq κ]

/-- The places, from the `i`-th on, of the first time of each period that is not seen yet, until `n`
periods are seen. -/
def latestOfPeriods (bucket : τ → κ) (n : ℕ) : ℕ → List τ → List κ → List ℕ
  | _, [], _ => []
  | i, t :: rest, periods =>
    if bucket t ∈ periods then latestOfPeriods bucket n (i + 1) rest periods
    else if n ≤ periods.length then []
    else i :: latestOfPeriods bucket n (i + 1) rest (periods ++ [bucket t])

/-- The periods seen so far, with those of some times. -/
def seen (bucket : τ → κ) (periods : List κ) (ts : List τ) : Finset κ :=
  periods.toFinset ∪ (ts.map bucket).toFinset

lemma seen_cons (bucket : τ → κ) (periods : List κ) (t : τ) (ts : List τ) :
    seen bucket periods (t :: ts) = insert (bucket t) (seen bucket periods ts) := by
  rw [seen, List.map_cons, List.toFinset_cons, Finset.union_insert, ← seen]

lemma seen_append (bucket : τ → κ) (periods : List κ) (t : τ) (ts : List τ) :
    seen bucket (periods ++ [bucket t]) ts = insert (bucket t) (seen bucket periods ts) := by
  ext q
  simp only [seen, Finset.mem_union, Finset.mem_insert, List.mem_toFinset, List.mem_append,
    List.mem_singleton]
  tauto

/-- The `k`-th of some times is of a new period, and fewer than `n` periods are seen before it. -/
def IsTaken (bucket : τ → κ) (n : ℕ) (periods : List κ) (ts : List τ) (k : ℕ) : Prop :=
  ∃ t, ts[k]? = some t ∧ bucket t ∉ seen bucket periods (ts.take k) ∧
    (seen bucket periods (ts.take k)).card < n

section Walk

variable {bucket : τ → κ} {n i j k : ℕ} {t : τ} {ts : List τ} {periods periods' : List κ}

/-- The first time is taken if its period is new and there are few enough. -/
lemma isTaken_zero (h : periods.Nodup) : IsTaken bucket n periods (t :: ts) 0 ↔
    bucket t ∉ periods ∧ periods.length < n := by
  have hseen : seen bucket periods ((t :: ts).take 0) = periods.toFinset := by
    rw [List.take_zero, seen, List.map_nil, List.toFinset_nil, Finset.union_empty]
  unfold IsTaken
  rw [hseen, List.toFinset_card_of_nodup h]
  constructor
  · rintro ⟨t', hget, hnew, hcard⟩
    obtain rfl : t = t' := Option.some.inj hget
    exact ⟨fun hmem => hnew (List.mem_toFinset.mpr hmem), hcard⟩
  · rintro ⟨hnew, hcard⟩
    exact ⟨t, rfl, fun hmem => hnew (List.mem_toFinset.mp hmem), hcard⟩

/-- A later time is taken as it is without the first one, if the same periods are seen before. -/
lemma isTaken_succ
    (h : seen bucket periods' (ts.take k) = insert (bucket t) (seen bucket periods (ts.take k))) :
    IsTaken bucket n periods (t :: ts) (k + 1) ↔ IsTaken bucket n periods' ts k := by
  unfold IsTaken
  rw [List.take_succ_cons, seen_cons, ← h, List.getElem?_cons_succ]

lemma not_isTaken_of_le (h : periods.Nodup) (hfull : n ≤ periods.length) :
    ¬IsTaken bucket n periods ts k := by
  rintro ⟨t, -, -, hcard⟩
  have hsub : periods.toFinset ⊆ seen bucket periods (ts.take k) := Finset.subset_union_left
  have hle := Finset.card_le_card hsub
  rw [List.toFinset_card_of_nodup h] at hle
  exact absurd (hfull.trans hle) (Nat.not_le.mpr hcard)

/-- The walk takes the times of new periods, until it has seen enough of them. -/
lemma mem_latestOfPeriods (h : periods.Nodup) :
    j ∈ latestOfPeriods bucket n i ts periods ↔
      ∃ k, j = i + k ∧ IsTaken bucket n periods ts k := by
  induction ts generalizing i periods with
  | nil =>
    refine iff_of_false List.not_mem_nil ?_
    rintro ⟨k, -, t, hget, -⟩
    exact nomatch hget
  | cons t ts ih =>
    have hplace (k : ℕ) : j = i + 1 + k ↔ j = i + (k + 1) := by
      rw [Nat.add_assoc, Nat.add_comm 1 k]
    rw [← Nat.or_exists_add_one, isTaken_zero h]
    unfold latestOfPeriods
    by_cases hmem : bucket t ∈ periods
    · have hseen (k : ℕ) : seen bucket periods (ts.take k) =
          insert (bucket t) (seen bucket periods (ts.take k)) :=
        (Finset.insert_eq_of_mem (Finset.mem_union_left _ (List.mem_toFinset.mpr hmem))).symm
      rw [if_pos hmem, ih h, or_iff_right fun hzero => hzero.2.1 hmem]
      exact exists_congr fun k => and_congr (hplace k) (isTaken_succ (hseen k)).symm
    · rw [if_neg hmem]
      by_cases hfull : n ≤ periods.length
      · rw [if_pos hfull]
        refine iff_of_false List.not_mem_nil ?_
        rintro (⟨-, -, hless⟩ | ⟨k, -, htaken⟩)
        · exact absurd hfull (Nat.not_le.mpr hless)
        · exact not_isTaken_of_le h hfull htaken
      · have hnodup : (periods ++ [bucket t]).Nodup :=
          List.nodup_append.mpr ⟨h, List.nodup_singleton _, fun a ha b hb hab =>
            hmem (List.mem_singleton.mp hb ▸ hab ▸ ha)⟩
        rw [if_neg hfull, List.mem_cons, ih hnodup]
        refine or_congr ⟨fun hj => ⟨hj, hmem, Nat.not_le.mp hfull⟩, And.left⟩ ?_
        exact exists_congr fun k => and_congr (hplace k) (isTaken_succ (seen_append ..)).symm

end Walk

/-! ## The latest time of each of the latest periods -/

/-- The periods that come after the one of a time which is the latest in its period are those of the
times before it. -/
lemma comesAfter_eq_seen [LinearOrder τ] {S : Set τ} {bucket : τ → κ} {ts : List τ}
    (hbucket : Chronological S bucket) (hts : ∀ t ∈ ts, t ∈ S)
    (hlatest : ts.Pairwise fun a b => b ≤ a) {i : ℕ} {t : τ} (hget : ts[i]? = some t)
    (hfirst : ∀ t' ∈ ts.take i, bucket t' ≠ bucket t) :
    {q | (∃ t' ∈ ts, bucket t' = q) ∧ ComesAfter S bucket q (bucket t)} =
      ↑(seen bucket [] (ts.take i)) := by
  have ht : t ∈ ts := List.mem_of_getElem? hget
  ext q
  rw [Set.mem_ofPred_eq, Finset.mem_coe, seen, List.toFinset_nil, Finset.empty_union,
    List.mem_toFinset, List.mem_map]
  constructor
  · rintro ⟨⟨t', ht', rfl⟩, hafter⟩
    have hlt : t < t' := hafter t' (hts t' ht') t (hts t ht) rfl rfl
    obtain ⟨j, hj⟩ := List.mem_iff_getElem?.mp ht'
    refine ⟨t', List.mem_of_getElem? (i := j) ?_, rfl⟩
    rw [List.getElem?_take_of_lt, hj]
    by_contra hnot
    -- a time after `t` is not later than `t`
    rcases Nat.eq_or_lt_of_le (Nat.not_lt.mp hnot) with rfl | hij
    · rw [hget] at hj
      exact absurd hlt (Option.some.inj hj ▸ lt_irrefl t)
    · obtain ⟨hi, rfl⟩ := List.getElem?_eq_some_iff.mp hget
      obtain ⟨hjlt, rfl⟩ := List.getElem?_eq_some_iff.mp hj
      exact absurd (List.pairwise_iff_getElem.mp hlatest i j hi hjlt hij) (not_le.mpr hlt)
  · rintro ⟨t', ht', rfl⟩
    have hmem : t' ∈ ts := List.mem_of_mem_take ht'
    refine ⟨⟨t', hmem, rfl⟩, (comesAfter_iff hbucket (hts t' hmem) (hts t ht)
      (hfirst t' ht')).mpr ?_⟩
    obtain ⟨j, hj⟩ := List.mem_iff_getElem?.mp ht'
    obtain ⟨hjlt, hj'⟩ := List.getElem?_eq_some_iff.mp hj
    rw [List.length_take] at hjlt
    obtain ⟨hi, hti⟩ := List.getElem?_eq_some_iff.mp hget
    have hle : t ≤ t' := by
      have := List.pairwise_iff_getElem.mp hlatest j i (by omega) hi (by omega)
      rw [List.getElem_take] at hj'
      rwa [hj', hti] at this
    exact lt_of_le_of_ne hle fun hsame => hfirst t' ht' (hsame ▸ rfl)

/-- The walk takes the latest time of each of the `n` latest periods. -/
theorem mem_latestOfPeriods_iff [LinearOrder τ] {S : Set τ} {bucket : τ → κ} {ts : List τ}
    (hbucket : Chronological S bucket) (hts : ∀ t ∈ ts, t ∈ S)
    (hlatest : ts.Pairwise fun a b => b ≤ a) {n i : ℕ} :
    i ∈ latestOfPeriods bucket n 0 ts [] ↔ IsLatestOfRecent S bucket n ts i := by
  rw [mem_latestOfPeriods List.nodup_nil]
  have hfresh (k : ℕ) (t : τ) : bucket t ∉ seen bucket [] (ts.take k) ↔
      ∀ t' ∈ ts.take k, bucket t' ≠ bucket t := by
    rw [seen, List.toFinset_nil, Finset.empty_union, List.mem_toFinset, List.mem_map]
    push Not
    rfl
  constructor
  · rintro ⟨k, rfl, t, hget, hnew, hcard⟩
    rw [Nat.zero_add]
    have hfirst := (hfresh k t).mp hnew
    refine ⟨t, hget, hfirst, ?_⟩
    rwa [comesAfter_eq_seen hbucket hts hlatest hget hfirst, Set.ncard_coe_finset]
  · rintro ⟨t, hget, hfirst, hcard⟩
    rw [comesAfter_eq_seen hbucket hts hlatest hget hfirst, Set.ncard_coe_finset] at hcard
    exact ⟨i, (Nat.zero_add i).symm, t, hget, (hfresh i t).mpr hfirst, hcard⟩

end Periods
