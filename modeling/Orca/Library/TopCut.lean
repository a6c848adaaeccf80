import Mathlib.Data.List.Sort
import Mathlib.Order.Lattice

/-!
# Cutting a list to its greatest entries

Of a list, the `n` entries of greatest rank are kept, in the order of the list.  The ranks are
sorted once, which gives the rank of the last entry that stays (`edge`) and the number of entries of
that very rank that stay with it (`atEdge`).  One pass over the list then keeps what ranks above the
edge and the first entries at the edge (`keepAbove`).

`length_keepAbove_edge` says that the pass keeps `n` entries, and `keepAbove_greatest` that no entry
which it drops ranks above one that it keeps.
-/

namespace TopCut

variable {α κ : Type*} [LinearOrder κ] (rank : α → κ)

/-- The ranks, the greatest first. -/
def descending (ranks : List κ) : List κ := ranks.insertionSort (· ≥ ·)

/-- The rank of the last of the first `n` entries. -/
def edge (n : ℕ) (ranks : List κ) : Option κ := (descending ranks)[n - 1]?

/-- How many of the first `n` entries have the rank `e`. -/
def atEdge (n : ℕ) (ranks : List κ) (e : κ) : ℕ :=
  ((descending ranks).take n).countP fun r => decide (r = e)

/-- Keep what ranks above the edge, and the first `left` entries at the edge. -/
def keepAbove (e : κ) : ℕ → List α → List α
  | _, [] => []
  | left, a :: l =>
    if e < rank a then a :: keepAbove e left l
    else if rank a = e ∧ 0 < left then a :: keepAbove e (left - 1) l
    else keepAbove e left l

/-! ## The pass -/

/-- What the pass keeps is not below the edge. -/
lemma le_of_mem_keepAbove {e : κ} {left : ℕ} {l : List α} {a : α}
    (h : a ∈ keepAbove rank e left l) : e ≤ rank a := by
  induction l generalizing left with
  | nil => exact absurd h List.not_mem_nil
  | cons b l ih =>
    unfold keepAbove at h
    split at h
    next habove =>
      rcases List.mem_cons.mp h with rfl | h
      · exact habove.le
      · exact ih h
    next =>
      split at h
      next hat =>
        rcases List.mem_cons.mp h with rfl | h
        · exact hat.1.ge
        · exact ih h
      next => exact ih h

/-- What ranks above the edge is kept. -/
lemma mem_keepAbove {e : κ} {left : ℕ} {l : List α} {a : α} (ha : a ∈ l) (habove : e < rank a) :
    a ∈ keepAbove rank e left l := by
  induction l generalizing left with
  | nil => exact absurd ha List.not_mem_nil
  | cons b l ih =>
    unfold keepAbove
    rcases List.mem_cons.mp ha with rfl | ha
    · rw [if_pos habove]
      exact List.mem_cons_self
    · split
      · exact List.mem_cons_of_mem b (ih ha)
      · split
        · exact List.mem_cons_of_mem b (ih ha)
        · exact ih ha

/-- No entry that is dropped ranks above one that is kept. -/
theorem keepAbove_greatest {e : κ} {left : ℕ} {l : List α} {a b : α} (ha : a ∈ l)
    (hdropped : a ∉ keepAbove rank e left l) (hb : b ∈ keepAbove rank e left l) :
    rank a ≤ rank b := by
  have hle : rank a ≤ e := not_lt.mp fun habove => hdropped (mem_keepAbove rank ha habove)
  exact hle.trans (le_of_mem_keepAbove rank hb)

/-- How many entries the pass keeps. -/
lemma length_keepAbove (e : κ) (left : ℕ) (l : List α) :
    (keepAbove rank e left l).length =
      l.countP (fun a => decide (e < rank a)) +
        min left (l.countP fun a => decide (rank a = e)) := by
  induction l generalizing left with
  | nil => simp [keepAbove]
  | cons a l ih =>
    unfold keepAbove
    rw [List.countP_cons, List.countP_cons]
    rcases lt_trichotomy e (rank a) with habove | hat | hbelow
    · rw [if_pos habove, List.length_cons, ih]
      simp only [habove, decide_true, if_true, habove.ne', decide_false]
      grind
    · subst hat
      rw [if_neg (lt_irrefl _)]
      simp only [lt_irrefl, decide_false, decide_true, if_true]
      cases left with
      | zero => simp [ih]
      | succ left =>
        rw [if_pos ⟨trivial, Nat.succ_pos left⟩, List.length_cons, ih]
        grind
    · rw [if_neg hbelow.not_gt, if_neg fun h => hbelow.ne h.1, ih]
      simp [hbelow.not_gt, hbelow.ne]

/-! ## The edge -/

lemma descending_perm (ranks : List κ) : (descending ranks).Perm ranks :=
  List.perm_insertionSort _ ranks

lemma descending_congr {ranks ranks' : List κ} (h : ranks.Perm ranks') :
    descending ranks = descending ranks' := by
  refine List.Perm.eq_of_pairwise' (r := (· ≥ ·)) ?_ ?_ ?_
  · exact List.pairwise_insertionSort _ ranks
  · exact List.pairwise_insertionSort _ ranks'
  · exact (descending_perm ranks).trans (h.trans (descending_perm ranks').symm)

/-- A list that is longer than `n` has an edge. -/
lemma exists_edge {n : ℕ} {ranks : List κ} (hn : 0 < n) (h : n ≤ ranks.length) :
    ∃ e, edge n ranks = some e := by
  have hlength : n - 1 < (descending ranks).length := by
    rw [(descending_perm ranks).length_eq]
    omega
  exact ⟨_, List.getElem?_eq_getElem hlength⟩

/-- In a list that is sorted, the entries above the `n`-th and those that tie with it on its side
are `n`. -/
lemma countP_above_add_countP_at {n : ℕ} {s : List κ} (hsorted : s.Pairwise (· ≥ ·)) (hn : 0 < n)
    {e : κ} (he : s[n - 1]? = some e) :
    s.countP (fun r => decide (e < r)) + (s.take n).countP (fun r => decide (r = e)) = n := by
  obtain ⟨hlt, hat⟩ := List.getElem?_eq_some_iff.mp he
  have hge : ∀ r ∈ s.take n, e ≤ r := by
    intro r hr
    obtain ⟨i, hi, rfl⟩ := List.mem_iff_getElem.mp hr
    rw [List.length_take] at hi
    rw [List.getElem_take, ← hat]
    rcases Nat.lt_or_ge i (n - 1) with hbefore | hlast
    · exact List.pairwise_iff_getElem.mp hsorted i (n - 1) _ hlt hbefore
    · obtain rfl : i = n - 1 := by omega
      exact le_rfl
  have hle : ∀ r ∈ s.drop n, r ≤ e := by
    intro r hr
    obtain ⟨i, hi, rfl⟩ := List.mem_iff_getElem.mp hr
    rw [List.getElem_drop, ← hat]
    exact List.pairwise_iff_getElem.mp hsorted (n - 1) (n + i) hlt _ (by omega)
  have hdrop : (s.drop n).countP (fun r => decide (e < r)) = 0 := by
    rw [List.countP_eq_zero]
    intro r hr
    simpa using hle r hr
  have htake : (s.take n).countP (fun r => decide (e < r)) +
      (s.take n).countP (fun r => decide (r = e)) = (s.take n).length := by
    rw [List.length_eq_countP_add_countP fun r => decide (e < r)]
    congr 1
    refine List.countP_congr fun r hr => ?_
    simp only [decide_eq_true_eq, not_lt]
    exact ⟨fun h => h.le, fun h => le_antisymm h (hge r hr)⟩
  calc s.countP (fun r => decide (e < r)) + (s.take n).countP (fun r => decide (r = e))
      = (s.take n).countP (fun r => decide (e < r)) +
          (s.take n).countP (fun r => decide (r = e)) := by
        conv_lhs => rw [← List.take_append_drop n s]
        rw [List.countP_append, hdrop, Nat.add_zero, List.take_append_drop]
    _ = (s.take n).length := htake
    _ = n := by
      rw [List.length_take]
      omega

/-- A pass with the edge of a list that is longer than `n` keeps `n` entries. -/
theorem length_keepAbove_edge {n : ℕ} {l : List α} (hn : 0 < n) {e : κ}
    (he : edge n (l.map rank) = some e) :
    (keepAbove rank e (atEdge n (l.map rank) e) l).length = n := by
  have hsorted : (descending (l.map rank)).Pairwise (· ≥ ·) := List.pairwise_insertionSort _ _
  have hcount := countP_above_add_countP_at hsorted hn he
  rw [(descending_perm _).countP_eq, List.countP_map] at hcount
  have hat : atEdge n (l.map rank) e ≤ l.countP fun a => decide (rank a = e) := by
    calc atEdge n (l.map rank) e
        ≤ (descending (l.map rank)).countP fun r => decide (r = e) :=
          List.Sublist.countP_le (List.take_sublist _ _)
      _ = l.countP fun a => decide (rank a = e) := by
          rw [(descending_perm _).countP_eq, List.countP_map]
          rfl
  rw [length_keepAbove, Nat.min_eq_left hat]
  exact hcount

end TopCut
