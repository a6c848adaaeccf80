import Mathlib.Data.List.Induction
import Mathlib.Logic.Function.Basic

/-!
# Confirm streaks

A signal is acted on only once it has lasted for a number of rounds.  Each subject has a counter in
a map: a round in which the signal holds counts it up, and confirms it when the threshold is
reached, which starts the counter again from zero; a round in which the signal does not hold removes
the counter.  `advance` is one subject's step and `pass` one round over all subjects.

The map may hold other counters under other keys: a pass leaves them alone (`pass_of_forall_ne`),
and it does to counters whose keys are embedded into a larger key type what it does to the counters
of a map of their own (`pass_comp`).  What a counter that stands at `n` means is `Lasted n`: the
signal has held in the last `n` rounds, and none of them confirmed it (`lasted_advance`).
-/

namespace Streak

variable {κ ι : Type*} [DecidableEq κ]

/-- One round of one subject: its new counter, and whether the signal is confirmed. -/
def advance (c : κ → Option ℕ) (k : κ) (holds : Bool) (threshold : ℕ) :
    (κ → Option ℕ) × Bool :=
  if holds then
    let n := (c k).getD 0 + 1
    if threshold ≤ n then (Function.update c k (some 0), true)
    else (Function.update c k (some n), false)
  else (Function.update c k none, false)

/-- A round of one subject, with the list of the subjects confirmed so far. -/
def visit (key : ι → κ) (holds : ι → Bool) (threshold : ι → ℕ)
    (s : (κ → Option ℕ) × List ι) (i : ι) : (κ → Option ℕ) × List ι :=
  let result := advance s.1 (key i) (holds i) (threshold i)
  (result.1, if result.2 then s.2 ++ [i] else s.2)

/-- One round over the subjects in order: the new counters, and the subjects confirmed. -/
def pass (key : ι → κ) (holds : ι → Bool) (threshold : ι → ℕ) (c : κ → Option ℕ)
    (subjects : List ι) :
    (κ → Option ℕ) × List ι :=
  subjects.foldl (visit key holds threshold) (c, [])

/-! ## One subject -/

lemma advance_of_ne {c : κ → Option ℕ} {k k' : κ} (h : k' ≠ k) (holds : Bool) (threshold : ℕ) :
    (advance c k holds threshold).1 k' = c k' := by
  unfold advance
  split
  · dsimp only
    split
    · exact Function.update_of_ne h _ _
    · exact Function.update_of_ne h _ _
  · exact Function.update_of_ne h _ _

/-- A signal is confirmed if it holds and the round completes the threshold. -/
lemma advance_confirms_iff {c : κ → Option ℕ} {k : κ} {holds : Bool} {threshold : ℕ} :
    (advance c k holds threshold).2 = true ↔ holds = true ∧ threshold ≤ (c k).getD 0 + 1 := by
  unfold advance
  split
  · rename_i hholds
    dsimp only
    split
    · rename_i hreached
      exact iff_of_true rfl ⟨hholds, hreached⟩
    · rename_i hreached
      exact iff_of_false Bool.false_ne_true fun h => hreached h.2
  · rename_i hholds
    exact iff_of_false Bool.false_ne_true fun h => hholds h.1

lemma advance_self (c : κ → Option ℕ) (k : κ) (holds : Bool) (threshold : ℕ) :
    (advance c k holds threshold).1 k =
      if holds then some (if threshold ≤ (c k).getD 0 + 1 then 0 else (c k).getD 0 + 1)
      else none := by
  unfold advance
  split
  · dsimp only
    split
    · exact Function.update_self _ _ _
    · exact Function.update_self _ _ _
  · exact Function.update_self _ _ _

lemma advance_congr {κ' : Type*} [DecidableEq κ'] {c : κ → Option ℕ} {c' : κ' → Option ℕ} {k : κ}
    {k' : κ'} (h : c k = c' k') (holds : Bool) (threshold : ℕ) :
    (advance c k holds threshold).1 k = (advance c' k' holds threshold).1 k' ∧
      (advance c k holds threshold).2 = (advance c' k' holds threshold).2 := by
  refine ⟨?_, ?_⟩
  · rw [advance_self, advance_self, h]
  · rw [Bool.eq_iff_iff, advance_confirms_iff, advance_confirms_iff, h]

/-! ## A round -/

variable {key : ι → κ} {holds : ι → Bool} {threshold : ι → ℕ}

lemma pass_concat (c : κ → Option ℕ) (subjects : List ι) (i : ι) :
    pass key holds threshold c (subjects ++ [i]) =
      visit key holds threshold (pass key holds threshold c subjects) i := by
  rw [pass, List.foldl_append]
  rfl

/-- A confirmed subject is one whose signal holds. -/
lemma of_mem_pass {c : κ → Option ℕ} {subjects : List ι} {i : ι}
    (h : i ∈ (pass key holds threshold c subjects).2) : i ∈ subjects ∧ holds i = true := by
  induction subjects using List.reverseRecOn with
  | nil => cases h
  | append_singleton subjects j ih =>
    rw [pass_concat, visit] at h
    dsimp only at h
    have hbefore : i ∈ (pass key holds threshold c subjects).2 →
        i ∈ subjects ++ [j] ∧ holds i = true := fun hmem =>
      ⟨List.mem_append_left _ (ih hmem).1, (ih hmem).2⟩
    split at h
    · rename_i hconfirmed
      rcases List.mem_append.mp h with hmem | hmem
      · exact hbefore hmem
      · rw [List.mem_singleton] at hmem
        subst hmem
        exact ⟨List.mem_append_right _ (List.mem_singleton_self i),
          (advance_confirms_iff.mp hconfirmed).1⟩
    · exact hbefore h

/-- A round leaves the counters alone that are none of its subjects'. -/
lemma pass_of_forall_ne {c : κ → Option ℕ} {subjects : List ι} {k : κ}
    (h : ∀ i ∈ subjects, key i ≠ k) : (pass key holds threshold c subjects).1 k = c k := by
  induction subjects using List.reverseRecOn with
  | nil => rfl
  | append_singleton subjects j ih =>
    have hj : k ≠ key j := fun heq =>
      h j (List.mem_append_right _ (List.mem_singleton_self j)) heq.symm
    rw [pass_concat, visit]
    dsimp only
    rw [advance_of_ne hj]
    exact ih fun i hi => h i (List.mem_append_left _ hi)

/-- The subject of a key that occurs once does the step of its key in the round. -/
lemma pass_of_unique {c : κ → Option ℕ} {before after : List ι} {i : ι}
    (hbefore : ∀ j ∈ before, key j ≠ key i) (hafter : ∀ j ∈ after, key j ≠ key i) :
    (pass key holds threshold c (before ++ i :: after)).1 (key i) =
        (advance c (key i) (holds i) (threshold i)).1 (key i) ∧
      ((∃ j ∈ (pass key holds threshold c (before ++ i :: after)).2, key j = key i) ↔
        (advance c (key i) (holds i) (threshold i)).2 = true) := by
  induction after using List.reverseRecOn with
  | nil =>
    have hsame : (pass key holds threshold c before).1 (key i) = c (key i) :=
      pass_of_forall_ne hbefore
    have hstep := advance_congr hsame (holds i) (threshold i)
    have hnone : ¬∃ j ∈ (pass key holds threshold c before).2, key j = key i := by
      rintro ⟨j, hj, heq⟩
      exact hbefore j (of_mem_pass hj).1 heq
    rw [pass_concat, visit]
    dsimp only
    refine ⟨hstep.1, ?_⟩
    rw [hstep.2]
    split
    · rename_i hconfirmed
      exact iff_of_true ⟨i, List.mem_append_right _ (List.mem_singleton_self i), rfl⟩ hconfirmed
    · rename_i hconfirmed
      exact iff_of_false hnone hconfirmed
  | append_singleton after j ih =>
    have hj : key j ≠ key i := hafter j (List.mem_append_right _ (List.mem_singleton_self j))
    have hih := ih fun j hj => hafter j (List.mem_append_left _ hj)
    have hassoc : before ++ i :: (after ++ [j]) = (before ++ i :: after) ++ [j] := by simp
    rw [hassoc, pass_concat, visit]
    dsimp only
    refine ⟨(advance_of_ne (Ne.symm hj) _ _).trans hih.1, ?_⟩
    rw [← hih.2]
    split
    · constructor
      · rintro ⟨l, hl, heq⟩
        rcases List.mem_append.mp hl with hl | hl
        · exact ⟨l, hl, heq⟩
        · rw [List.mem_singleton] at hl
          exact absurd (hl ▸ heq) hj
      · rintro ⟨l, hl, heq⟩
        exact ⟨l, List.mem_append_left _ hl, heq⟩
    · exact Iff.rfl

lemma exists_split_of_filter {subjects : List ι} {i : ι}
    (h : subjects.filter (fun j => key j = key i) = [i]) :
    ∃ before after, subjects = before ++ i :: after ∧ (∀ j ∈ before, key j ≠ key i) ∧
      ∀ j ∈ after, key j ≠ key i := by
  obtain ⟨before, after, rfl, hbefore, _, hafter⟩ := List.filter_eq_cons_iff.mp h
  refine ⟨before, after, rfl, fun j hj heq => ?_, fun j hj heq => ?_⟩
  · exact hbefore j hj (decide_eq_true heq)
  · exact List.filter_eq_nil_iff.mp hafter j hj (decide_eq_true heq)

/-- A key with a subject, whose signal holds for none of its subjects, has no counter after the
round. -/
lemma pass_of_not_holds {c : κ → Option ℕ} {subjects : List ι} {k : κ}
    (hmem : ∃ i ∈ subjects, key i = k) (h : ∀ i ∈ subjects, key i = k → holds i = false) :
    (pass key holds threshold c subjects).1 k = none := by
  induction subjects using List.reverseRecOn with
  | nil => obtain ⟨i, hi, -⟩ := hmem; cases hi
  | append_singleton subjects j ih =>
    rw [pass_concat, visit]
    dsimp only
    by_cases hj : key j = k
    · subst hj
      rw [advance_self, h j (List.mem_append_right _ (List.mem_singleton_self j)) rfl]
      rfl
    · rw [advance_of_ne (Ne.symm hj)]
      refine ih ?_ fun i hi => h i (List.mem_append_left _ hi)
      obtain ⟨i, hi, hk⟩ := hmem
      rcases List.mem_append.mp hi with hi | hi
      · exact ⟨i, hi, hk⟩
      · rw [List.mem_singleton] at hi
        exact absurd (hi ▸ hk) hj

/-- Counters under embedded keys go through a round as they do in a map of their own, if the two
maps agree on the keys that count. -/
lemma pass_comp {κ' : Type*} [DecidableEq κ'] {embed : κ' → κ} (hembed : Function.Injective embed)
    {key : ι → κ'} {counts : κ' → Prop} {c : κ → Option ℕ} {c' : κ' → Option ℕ}
    (h : ∀ k, counts k → c (embed k) = c' k) {subjects : List ι}
    (hsubjects : ∀ i ∈ subjects, counts (key i)) :
    (∀ k, counts k → (pass (fun i => embed (key i)) holds threshold c subjects).1 (embed k) =
        (pass key holds threshold c' subjects).1 k) ∧
      (pass (fun i => embed (key i)) holds threshold c subjects).2 =
        (pass key holds threshold c' subjects).2 := by
  induction subjects using List.reverseRecOn with
  | nil => exact ⟨h, rfl⟩
  | append_singleton subjects j ih =>
    have hih := ih fun i hi => hsubjects i (List.mem_append_left _ hi)
    have hj := hsubjects j (List.mem_append_right _ (List.mem_singleton_self j))
    rw [pass_concat, pass_concat, visit, visit]
    dsimp only
    have hstep := advance_congr (hih.1 (key j) hj) (holds j) (threshold j)
    refine ⟨fun k hk => ?_, ?_⟩
    · by_cases hne : k = key j
      · subst hne
        exact hstep.1
      · rw [advance_of_ne hne, advance_of_ne (fun heq => hne (hembed heq))]
        exact hih.1 k hk
    · rw [hstep.2, hih.2]

/-! ## What a counter means -/

/-- In the last `n` rounds the signal has held and has not been confirmed; rounds are listed newest
first. -/
def Lasted {α : Type*} (signal confirmed : α → Prop) (n : ℕ) (rounds : List α) : Prop :=
  n ≤ rounds.length ∧ ∀ round ∈ rounds.take n, signal round ∧ ¬confirmed round

lemma lasted_zero {α : Type*} (signal confirmed : α → Prop) (rounds : List α) :
    Lasted signal confirmed 0 rounds :=
  ⟨Nat.zero_le _, fun round hround => by cases hround⟩

/-- One more round. -/
lemma lasted_cons {α : Type*} {signal confirmed : α → Prop} {n : ℕ} {rounds : List α} {round : α}
    (h : Lasted signal confirmed n rounds) (hsignal : signal round)
    (hconfirmed : ¬confirmed round) :
    Lasted signal confirmed (n + 1) (round :: rounds) := by
  refine ⟨Nat.succ_le_succ h.1, fun r hr => ?_⟩
  rw [List.take_succ_cons] at hr
  rcases List.mem_cons.mp hr with rfl | hr
  · exact ⟨hsignal, hconfirmed⟩
  · exact h.2 r hr

lemma lasted_mono {α : Type*} {signal confirmed : α → Prop} {m n : ℕ} {rounds : List α}
    (hle : m ≤ n) (h : Lasted signal confirmed n rounds) : Lasted signal confirmed m rounds :=
  ⟨Nat.le_trans hle h.1, fun r hr => h.2 r (List.take_subset_take_left _ hle hr)⟩

/-- A counter keeps its meaning through a round. -/
theorem lasted_advance {α : Type*} {signal confirmed : α → Prop} {c : κ → Option ℕ} {k : κ}
    {holds : Bool} {threshold : ℕ} {rounds : List α} {round : α}
    (hsignal : holds = true → signal round)
    (hconfirmed : confirmed round → (advance c k holds threshold).2 = true)
    (h : Lasted signal confirmed ((c k).getD 0) rounds) :
    Lasted signal confirmed (((advance c k holds threshold).1 k).getD 0) (round :: rounds) := by
  rw [advance_self]
  split
  · rename_i hholds
    rw [Option.getD_some]
    split
    · exact lasted_zero _ _ _
    · rename_i hreached
      exact lasted_cons h (hsignal hholds) fun hconf =>
        hreached (advance_confirms_iff.mp (hconfirmed hconf)).2
  · exact lasted_zero _ _ _

/-- A subject that is the only one with its key is confirmed once its counter completes the
threshold. -/
lemma le_of_mem_pass {c : κ → Option ℕ} {subjects : List ι} {i : ι}
    (halone : subjects.filter (fun j => key j = key i) = [i])
    (h : i ∈ (pass key holds threshold c subjects).2) : threshold i ≤ (c (key i)).getD 0 + 1 := by
  obtain ⟨before, after, rfl, hbefore, hafter⟩ := exists_split_of_filter halone
  have hconfirmed := (pass_of_unique hbefore hafter).2.mp ⟨i, h, rfl⟩
  exact (advance_confirms_iff.mp hconfirmed).2

/-- A counter keeps its meaning through a round over all subjects, if a subject that counts is the
only one with its key. -/
theorem lasted_pass {α : Type*} {signal confirmed : α → Prop} {c : κ → Option ℕ} {k : κ}
    {subjects : List ι} {rounds : List α} {round : α} (hmem : ∃ i ∈ subjects, key i = k)
    (halone : ∀ i ∈ subjects, key i = k → holds i = true →
      subjects.filter (fun j => key j = key i) = [i])
    (hsignal : ∀ i ∈ subjects, key i = k → holds i = true → signal round)
    (hconfirmed : confirmed round → ∃ i ∈ (pass key holds threshold c subjects).2, key i = k)
    (h : Lasted signal confirmed ((c k).getD 0) rounds) :
    Lasted signal confirmed (((pass key holds threshold c subjects).1 k).getD 0)
      (round :: rounds) := by
  by_cases hholds : ∃ i ∈ subjects, key i = k ∧ holds i = true
  · obtain ⟨i, hi, rfl, hholds⟩ := hholds
    obtain ⟨before, after, rfl, hbefore, hafter⟩ := exists_split_of_filter (halone i hi rfl hholds)
    rw [(pass_of_unique hbefore hafter).1]
    refine lasted_advance (fun _ => hsignal i hi rfl hholds) (fun hconf => ?_) h
    exact (pass_of_unique hbefore hafter).2.mp (hconfirmed hconf)
  · have hnone : ∀ i ∈ subjects, key i = k → holds i = false := fun i hi hk =>
      Bool.eq_false_iff.mpr fun hh => hholds ⟨i, hi, hk, hh⟩
    rw [pass_of_not_holds hmem hnone]
    exact lasted_zero _ _ _

end Streak
