import Mathlib.Data.List.Basic
import Mathlib.Order.Lattice

/-!
# The best of a list, by rank

A test that says whether one value is better than another is a strict weak order if it compares
ranks in a linear order (`ByRank.strictWeakOrder`).  `maxBy` goes through a list with such a test
and keeps the best value so far; the value it ends with has the greatest rank, whatever the order of
the list, so that two orders give values of one rank (`ByRank.maxBy_perm`).
-/

namespace RankedChoice

variable {α κ : Type*} [LinearOrder κ]

/-- The test is a strict weak order: what is better is not worse, and to be neither better nor worse
is an equivalence. -/
structure StrictWeakOrder (better : α → α → Bool) : Prop where
  irrefl : ∀ a, better a a = false
  /-- What is better than something better is better. -/
  trans : ∀ a b c, better a b = true → better b c = true → better a c = true
  /-- What is alike to something alike is alike. -/
  alike_trans : ∀ a b c, better a b = false → better b a = false → better b c = false →
    better c b = false → better a c = false ∧ better c a = false

/-- The test compares ranks. -/
def ByRank (better : α → α → Bool) (rank : α → κ) : Prop :=
  ∀ a b, better a b = true ↔ rank b < rank a

/-- `Iterator::max_by` with the comparison that a test stands for: of values that are alike the last
one is kept. -/
def maxBy (better : α → α → Bool) : List α → Option α
  | [] => none
  | a :: l => some (l.foldl (fun best b => if better best b then best else b) a)

variable {better : α → α → Bool} {rank : α → κ}

lemma ByRank.eq_false_iff (h : ByRank better rank) (a b : α) :
    better a b = false ↔ rank a ≤ rank b := by
  rw [← not_lt, ← h a b, Bool.not_eq_true]

/-- A comparison of ranks is a strict weak order. -/
theorem ByRank.strictWeakOrder (h : ByRank better rank) : StrictWeakOrder better where
  irrefl a := (h.eq_false_iff a a).mpr le_rfl
  trans a b c hab hbc := (h a c).mpr (((h b c).mp hbc).trans ((h a b).mp hab))
  alike_trans a b c hab hba hbc hcb := by
    simp only [h.eq_false_iff] at *
    exact ⟨hab.trans hbc, hcb.trans hba⟩

/-- The value that is kept is one of those seen so far, and none of them has a greater rank. -/
lemma ByRank.foldl_spec (h : ByRank better rank) (l : List α) (a : α) :
    let best := l.foldl (fun best b => if better best b then best else b) a
    best ∈ a :: l ∧ ∀ b ∈ a :: l, rank b ≤ rank best := by
  induction l generalizing a with
  | nil => exact ⟨List.mem_cons_self, fun b hb => by rw [List.mem_singleton.mp hb]; exact le_rfl⟩
  | cons c l ih =>
    rw [List.foldl_cons]
    by_cases hac : better a c = true
    · rw [if_pos hac]
      obtain ⟨hmem, hmax⟩ := ih a
      refine ⟨?_, fun b hb => ?_⟩
      · rcases List.mem_cons.mp hmem with heq | hmem
        · exact heq.symm ▸ List.mem_cons_self
        · exact List.mem_cons_of_mem _ (List.mem_cons_of_mem _ hmem)
      · rcases List.mem_cons.mp hb with rfl | hb
        · exact hmax b List.mem_cons_self
        · rcases List.mem_cons.mp hb with rfl | hb
          · exact ((h a b).mp hac).le.trans (hmax a List.mem_cons_self)
          · exact hmax b (List.mem_cons_of_mem _ hb)
    · rw [if_neg hac]
      obtain ⟨hmem, hmax⟩ := ih c
      refine ⟨List.mem_cons_of_mem _ hmem, fun b hb => ?_⟩
      rcases List.mem_cons.mp hb with rfl | hb
      · exact (not_lt.mp fun hlt => hac ((h b c).mpr hlt)).trans (hmax c List.mem_cons_self)
      · exact hmax b hb

/-- The best value is in the list, and no value of the list is better. -/
theorem ByRank.maxBy_spec (h : ByRank better rank) {l : List α} {best : α}
    (hbest : maxBy better l = some best) : best ∈ l ∧ ∀ b ∈ l, better b best = false := by
  cases l with
  | nil => cases hbest
  | cons a l =>
    obtain ⟨hmem, hmax⟩ := h.foldl_spec l a
    obtain rfl := Option.some.inj hbest
    exact ⟨hmem, fun b hb => (h.eq_false_iff b _).mpr (hmax b hb)⟩

/-- The best values of a list in two orders are alike. -/
theorem ByRank.maxBy_perm (h : ByRank better rank) {l l' : List α} (hperm : l.Perm l') {a b : α}
    (ha : maxBy better l = some a) (hb : maxBy better l' = some b) :
    better a b = false ∧ better b a = false := by
  obtain ⟨hamem, hamax⟩ := h.maxBy_spec ha
  obtain ⟨hbmem, hbmax⟩ := h.maxBy_spec hb
  exact ⟨hbmax a (hperm.mem_iff.mp hamem), hamax b (hperm.mem_iff.mpr hbmem)⟩

end RankedChoice
