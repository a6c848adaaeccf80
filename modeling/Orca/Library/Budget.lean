import Mathlib.Algebra.BigOperators.Group.List.Basic
import Mathlib.Algebra.GroupWithZero.Nat
import Mathlib.Data.List.Nodup
import Mathlib.Data.List.Infix

/-!
# Walks within a budget

A walk over a list of weighted items takes each item that fits into what is left of a budget
(`taken`).  It skips an item that does not fit and goes on, so that it may take a later one that is
lighter.  The items up to the first one that does not fit are `fitting`; the walk takes them in any
case, and it takes nothing else if and only if none of the later items fits into what they leave
(`taken_prefix_iff`).  What is taken never weighs more than the budget (`sum_taken_le`).

To drain a total is to take items away until no more than a cap is left; this takes the shortest
start of the list that does (`drain_spec`).
-/

namespace Budget

variable {α : Type*} (weight : α → ℕ) (cap : ℕ)

/-- The items that a walk takes when `total` is spent. -/
def taken : ℕ → List α → List α
  | _, [] => []
  | total, x :: xs =>
    if total + weight x ≤ cap then x :: taken (total + weight x) xs else taken total xs

/-- The items before the first one that does not fit. -/
def fitting : ℕ → List α → List α
  | _, [] => []
  | total, x :: xs => if total + weight x ≤ cap then x :: fitting (total + weight x) xs else []

/-- What is spent after the items before the first one that does not fit. -/
def spent (total : ℕ) (xs : List α) : ℕ := total + ((fitting weight cap total xs).map weight).sum

/-- The first item that does not fit, and all later ones. -/
def later (total : ℕ) (xs : List α) : List α := xs.drop (fitting weight cap total xs).length

variable {weight cap}

lemma taken_sublist (total : ℕ) (xs : List α) : (taken weight cap total xs).Sublist xs := by
  induction xs generalizing total with
  | nil => exact List.Sublist.slnil
  | cons x xs ih =>
    unfold taken
    split
    · exact (ih _).cons_cons x
    · exact (ih _).cons x

/-- What is taken does not exceed the budget, if it was not exceeded before. -/
theorem sum_taken_le (total : ℕ) (xs : List α) :
    total + ((taken weight cap total xs).map weight).sum ≤ max cap total := by
  induction xs generalizing total with
  | nil => exact Nat.le_max_right _ _
  | cons x xs ih =>
    unfold taken
    split
    · rename_i hfits
      rw [List.map_cons, List.sum_cons, ← Nat.add_assoc]
      refine (ih _).trans (max_le (Nat.le_max_left _ _) ?_)
      exact hfits.trans (Nat.le_max_left _ _)
    · exact ih total

/-- Nothing is taken if and only if nothing fits. -/
lemma taken_eq_nil_iff {total : ℕ} {xs : List α} :
    taken weight cap total xs = [] ↔ ∀ x ∈ xs, cap < total + weight x := by
  induction xs with
  | nil => simp [taken]
  | cons x xs ih =>
    unfold taken
    by_cases hfits : total + weight x ≤ cap
    · rw [if_pos hfits]
      refine iff_of_false (List.cons_ne_nil _ _) fun h => ?_
      exact Nat.not_lt.mpr hfits (h x List.mem_cons_self)
    · rw [if_neg hfits, ih, List.forall_mem_cons]
      exact (and_iff_right (Nat.not_le.mp hfits)).symm

/-- A list is the items before the first one that does not fit, and the later ones. -/
lemma fitting_append_later (total : ℕ) (xs : List α) :
    fitting weight cap total xs ++ later weight cap total xs = xs := by
  unfold later
  induction xs generalizing total with
  | nil => rfl
  | cons x xs ih =>
    unfold fitting
    split
    · rw [List.cons_append, List.length_cons, List.drop_succ_cons, ih]
    · rfl

/-- The first of the later items does not fit. -/
lemma head_later {total : ℕ} {xs : List α} {x : α}
    (h : (later weight cap total xs).head? = some x) :
    cap < spent weight cap total xs + weight x := by
  unfold later spent at *
  induction xs generalizing total with
  | nil => cases h
  | cons y ys ih =>
    unfold fitting at h ⊢
    split at h
    · rename_i hfits
      rw [if_pos hfits, List.map_cons, List.sum_cons, ← Nat.add_assoc]
      exact ih h
    · rename_i hfits
      obtain rfl := Option.some.inj h
      rw [if_neg hfits]
      exact Nat.not_le.mp hfits

/-- The items before one that does not fit are the ones before the first, if they fit. -/
lemma fitting_of_split {total : ℕ} {before after : List α} {x : α}
    (hfits : total + (before.map weight).sum ≤ cap)
    (hskip : cap < total + (before.map weight).sum + weight x) :
    fitting weight cap total (before ++ x :: after) = before := by
  induction before generalizing total with
  | nil => exact if_neg (Nat.not_le.mpr hskip)
  | cons y before ih =>
    rw [List.map_cons, List.sum_cons, ← Nat.add_assoc] at hfits hskip
    rw [List.cons_append, fitting, if_pos ((Nat.le_add_right _ _).trans hfits), ih hfits hskip]

/-- A walk that has not spent the budget has not spent it when it comes to the first item that does
not fit. -/
lemma spent_le {total : ℕ} {xs : List α} (h : total ≤ cap) : spent weight cap total xs ≤ cap := by
  unfold spent
  induction xs generalizing total with
  | nil => exact h
  | cons x xs ih =>
    by_cases hfits : total + weight x ≤ cap
    · rw [fitting, if_pos hfits, List.map_cons, List.sum_cons, ← Nat.add_assoc]
      exact ih hfits
    · rw [fitting, if_neg hfits]
      exact h

/-- No later item fits if and only if, wherever the list is split at an item that is the first one
not to fit, no item after it fits. -/
lemma forall_later_iff {total : ℕ} {xs : List α} :
    (∀ x ∈ later weight cap total xs, cap < spent weight cap total xs + weight x) ↔
      ∀ before x after, xs = before ++ x :: after → total + (before.map weight).sum ≤ cap →
        cap < total + (before.map weight).sum + weight x →
        ∀ y ∈ after, cap < total + (before.map weight).sum + weight y := by
  constructor
  · rintro hlater before x after rfl hfits hskip y hy
    have hbefore : fitting weight cap total (before ++ x :: after) = before :=
      fitting_of_split hfits hskip
    rw [later, spent, hbefore, List.drop_left] at hlater
    exact hlater y (List.mem_cons_of_mem x hy)
  · intro hsplits x hx
    by_cases htotal : total ≤ cap
    · cases hlater : later weight cap total xs with
      | nil =>
        rw [hlater] at hx
        exact absurd hx List.not_mem_nil
      | cons y after =>
        have hy : cap < spent weight cap total xs + weight y :=
          head_later (by rw [hlater]; rfl)
        rw [hlater] at hx
        rcases List.mem_cons.mp hx with rfl | hx
        · exact hy
        · refine hsplits (fitting weight cap total xs) y after ?_ (spent_le htotal) hy x hx
          rw [← hlater, fitting_append_later]
    · -- the budget was spent before
      have hspent : total ≤ spent weight cap total xs := Nat.le_add_right _ _
      omega

/-- A walk takes the items before the first one that does not fit, and then goes on. -/
lemma taken_eq (total : ℕ) (xs : List α) : taken weight cap total xs =
    fitting weight cap total xs ++
      taken weight cap (spent weight cap total xs) (later weight cap total xs) := by
  unfold later spent
  induction xs generalizing total with
  | nil => rfl
  | cons x xs ih =>
    by_cases hfits : total + weight x ≤ cap
    · rw [taken, if_pos hfits, fitting, if_pos hfits, ih, List.map_cons, List.sum_cons,
        ← Nat.add_assoc]
      rfl
    · rw [fitting, if_neg hfits]
      rfl

/-- A walk takes the first items and no others if and only if no item after the first one that does
not fit is light enough. -/
theorem taken_prefix_iff {total : ℕ} {xs : List α} (h : xs.Nodup) :
    taken weight cap total xs <+: xs ↔
      ∀ x ∈ later weight cap total xs, cap < spent weight cap total xs + weight x := by
  rw [← taken_eq_nil_iff, taken_eq]
  constructor
  · intro hbegins
    have hsplit : fitting weight cap total xs ++ later weight cap total xs = xs :=
      fitting_append_later total xs
    obtain ⟨suffix, hsuffix⟩ := hbegins
    have hbegins : taken weight cap (spent weight cap total xs) (later weight cap total xs) <+:
        later weight cap total xs := by
      have hcancel : fitting weight cap total xs ++ (taken weight cap (spent weight cap total xs)
          (later weight cap total xs) ++ suffix) =
          fitting weight cap total xs ++ later weight cap total xs := by
        rw [hsplit, ← List.append_assoc, hsuffix]
      exact ⟨suffix, List.append_cancel_left hcancel⟩
    cases hlater : later weight cap total xs with
    | nil => rfl
    | cons x rest =>
      have hskip : ¬spent weight cap total xs + weight x ≤ cap :=
        Nat.not_le.mpr (head_later (by rw [hlater]; rfl))
      have hnot : x ∉ rest := by
        rw [← hsplit, hlater] at h
        exact (List.nodup_cons.mp (List.nodup_append.mp h).2.1).1
      rw [hlater, taken, if_neg hskip] at hbegins
      rw [taken, if_neg hskip]
      cases hrest : taken weight cap (spent weight cap total xs) rest with
      | nil => rfl
      | cons y ys =>
        -- the first item taken would be the one that is skipped
        rw [hrest] at hbegins
        have hy : y ∈ rest := (taken_sublist _ _).subset (by rw [hrest]; exact List.mem_cons_self)
        rw [(List.cons_prefix_cons.mp hbegins).1] at hy
        exact absurd hy hnot
  · intro hnone
    rw [hnone, List.append_nil]
    exact ⟨_, fitting_append_later total xs⟩

/-- Some items of a list that is ordered by a key are its first ones if and only if with each item
all are among them that have a smaller key. -/
theorem prefix_iff_of_ordered {κ : Type*} [Preorder κ] {key : α → κ} {l xs : List α}
    (hordered : xs.Pairwise fun a b => key a < key b) (hsub : l.Sublist xs) :
    l <+: xs ↔ ∀ x ∈ l, ∀ y ∈ xs, key y < key x → y ∈ l := by
  induction hsub with
  | slnil => simp
  | @cons l xs a hsub ih =>
    rw [List.pairwise_cons] at hordered
    constructor
    · intro hbegins
      cases l with
      | nil => simp
      | cons b l =>
        -- the first item would be before itself
        obtain ⟨rfl, -⟩ := List.cons_prefix_cons.mp hbegins
        exact absurd (hordered.1 b (hsub.subset List.mem_cons_self)) (lt_irrefl _)
    · intro hclosed
      cases l with
      | nil => exact List.nil_prefix
      | cons b l =>
        have hb := hsub.subset List.mem_cons_self
        have hmem := hclosed b List.mem_cons_self a List.mem_cons_self (hordered.1 b hb)
        exact absurd (hordered.1 a (hsub.subset hmem)) (lt_irrefl _)
  | @cons_cons l xs a hsub ih =>
    rw [List.pairwise_cons] at hordered
    rw [List.prefix_cons_inj, ih hordered.2]
    constructor
    · intro hclosed x hx y hy hlt
      rcases List.mem_cons.mp hx with rfl | hx
      · rcases List.mem_cons.mp hy with rfl | hy
        · exact List.mem_cons_self
        · exact absurd (hordered.1 y hy) (lt_asymm hlt)
      · rcases List.mem_cons.mp hy with rfl | hy
        · exact List.mem_cons_self
        · exact List.mem_cons_of_mem a (hclosed x hx y hy hlt)
    · intro hclosed x hx y hy hlt
      rcases List.mem_cons.mp (hclosed x (List.mem_cons_of_mem a hx) y
        (List.mem_cons_of_mem a hy) hlt) with rfl | hmem
      · exact absurd (hordered.1 y hy) (lt_irrefl _)
      · exact hmem

/-! ## Draining -/

variable (weight cap)

/-- The items that are taken away, one after another, until no more than a cap of a total is
left. -/
def drain : ℕ → List α → List α
  | _, [] => []
  | total, x :: xs => if total ≤ cap then [] else x :: drain (total - weight x) xs

variable {weight cap}

/-- What is taken away is the shortest start of the list that leaves no more than the cap, or the
whole list. -/
theorem drain_spec (total : ℕ) (xs : List α) : ∃ n ≤ xs.length,
    drain weight cap total xs = xs.take n ∧
      (total ≤ cap + ((xs.take n).map weight).sum ∨ n = xs.length) ∧
      ∀ m < n, cap + ((xs.take m).map weight).sum < total := by
  induction xs generalizing total with
  | nil => exact ⟨0, Nat.le_refl _, rfl, Or.inr rfl, fun m hm => absurd hm (Nat.not_lt_zero m)⟩
  | cons x xs ih =>
    unfold drain
    by_cases hdone : total ≤ cap
    · rw [if_pos hdone]
      exact ⟨0, Nat.zero_le _, rfl, Or.inl hdone, fun m hm => absurd hm (Nat.not_lt_zero m)⟩
    · rw [if_neg hdone]
      obtain ⟨n, hn, hdrain, hleft, hshort⟩ := ih (total - weight x)
      refine ⟨n + 1, Nat.succ_le_succ hn, by rw [hdrain, List.take_succ_cons], ?_, ?_⟩
      · rw [List.take_succ_cons, List.map_cons, List.sum_cons, List.length_cons]
        omega
      · intro m hm
        cases m with
        | zero => simpa using Nat.not_le.mp hdone
        | succ m =>
          have hbefore := hshort m (Nat.lt_of_succ_lt_succ hm)
          rw [List.take_succ_cons, List.map_cons, List.sum_cons]
          omega

lemma drain_sublist (total : ℕ) (xs : List α) : (drain weight cap total xs).Sublist xs := by
  obtain ⟨n, -, hdrain, -⟩ :=
    (drain_spec total xs : ∃ n ≤ xs.length, drain weight cap total xs = xs.take n ∧ _)
  rw [hdrain]
  exact List.take_sublist n xs

end Budget
