import Mathlib.Data.List.Infix
import Mathlib.Order.Bounds.Basic

/-!
# Edit scripts

A list turns into another one by removing some of its elements and adding others.  The elements that
stay are a common sublist of the two, and the longer it is the shorter is the script.

`lcs` is the length of a longest common sublist (`isGreatest_lcs`).  `script` goes over both lists,
keeps heads that are equal, and otherwise takes the side on which the longer common sublist is left.
That is an edit script (`exists_kept`), and there is none shorter (`length_script`): to keep heads
that are equal is never worse than not to.
-/

namespace EditScript

variable {α : Type*}

/-! ## Interleavings -/

/-- A list is made of the elements of two others, each in its order. -/
inductive Interleaves : List α → List α → List α → Prop
  | nil : Interleaves [] [] []
  /-- The next element is from the first list. -/
  | left (x : α) {l₁ l₂ l : List α} (h : Interleaves l₁ l₂ l) : Interleaves (x :: l₁) l₂ (x :: l)
  /-- The next element is from the second list. -/
  | right (x : α) {l₁ l₂ l : List α} (h : Interleaves l₁ l₂ l) : Interleaves l₁ (x :: l₂) (x :: l)

lemma Interleaves.eq_of_nil {l₂ l : List α} (h : Interleaves [] l₂ l) : l₂ = l := by
  induction l generalizing l₂ with
  | nil =>
    cases h
    rfl
  | cons x l ih =>
    cases h with
    | right _ h => rw [ih h]

/-! ## Steps -/

/-- A step of an edit script. -/
inductive Edit (α : Type*) where
  | remove (x : α)
  | add (x : α)
deriving DecidableEq

/-- The element that is removed. -/
def Edit.removed : Edit α → Option α
  | .remove x => some x
  | .add _ => none

/-- The element that is added. -/
def Edit.added : Edit α → Option α
  | .remove _ => none
  | .add x => some x

/-- Every step removes an element or adds one. -/
lemma length_eq_removed_add_added (edits : List (Edit α)) :
    edits.length = (edits.filterMap Edit.removed).length + (edits.filterMap Edit.added).length := by
  induction edits with
  | nil => rfl
  | cons edit edits ih =>
    rw [List.length_cons, ih]
    cases edit with
    | remove x =>
      rw [List.filterMap_cons_some (f := Edit.removed) rfl, List.length_cons,
        List.filterMap_cons_none (f := Edit.added) rfl]
      omega
    | add x =>
      rw [List.filterMap_cons_none (f := Edit.removed) rfl,
        List.filterMap_cons_some (f := Edit.added) rfl, List.length_cons]
      omega

variable [DecidableEq α]

/-! ## Longest common sublists -/

/-- The length of a longest common sublist. -/
def lcs : List α → List α → ℕ
  | [], _ => 0
  | _ :: _, [] => 0
  | x :: xs, y :: ys => if x = y then lcs xs ys + 1 else max (lcs xs (y :: ys)) (lcs (x :: xs) ys)
termination_by xs ys => xs.length + ys.length

@[simp] lemma lcs_nil_left (ys : List α) : lcs [] ys = 0 := by rw [lcs]

@[simp] lemma lcs_nil_right (xs : List α) : lcs xs [] = 0 := by cases xs <;> rw [lcs]

lemma lcs_cons_self (x : α) (xs ys : List α) : lcs (x :: xs) (x :: ys) = lcs xs ys + 1 := by
  rw [lcs, if_pos rfl]

lemma lcs_cons_of_ne {x y : α} (h : x ≠ y) (xs ys : List α) :
    lcs (x :: xs) (y :: ys) = max (lcs xs (y :: ys)) (lcs (x :: xs) ys) := by
  rw [lcs, if_neg h]

/-- A common sublist is not longer. -/
lemma length_le_lcs {l xs ys : List α} (hx : l.Sublist xs) (hy : l.Sublist ys) :
    l.length ≤ lcs xs ys := by
  induction xs, ys using lcs.induct generalizing l with
  | case1 ys =>
    rw [List.sublist_nil.mp hx, lcs_nil_left]
    exact le_refl 0
  | case2 x xs =>
    rw [List.sublist_nil.mp hy, lcs_nil_right]
    exact le_refl 0
  | case3 xs y ys ih =>
    -- whatever the common sublist starts with, the rest of it is common to the rests
    rw [lcs_cons_self]
    have htail := ih hx.tail hy.tail
    rw [List.length_tail] at htail
    omega
  | case4 x xs y ys hne ihx ihy =>
    rw [lcs_cons_of_ne hne]
    cases hx with
    | cons _ hx => exact (ihx hx hy).trans (le_max_left _ _)
    | cons_cons _ hx' =>
      cases hy with
      | cons _ hy => exact (ihy (hx'.cons_cons x) hy).trans (le_max_right _ _)
      | cons_cons _ _ => exact absurd rfl hne

/-- There is a common sublist of that length. -/
lemma exists_length_eq_lcs (xs ys : List α) :
    ∃ l : List α, l.Sublist xs ∧ l.Sublist ys ∧ l.length = lcs xs ys := by
  induction xs, ys using lcs.induct with
  | case1 ys => exact ⟨[], List.nil_sublist _, List.nil_sublist _, (lcs_nil_left ys).symm⟩
  | case2 x xs => exact ⟨[], List.nil_sublist _, List.nil_sublist _, (lcs_nil_right _).symm⟩
  | case3 xs y ys ih =>
    obtain ⟨l, hx, hy, hlength⟩ := ih
    refine ⟨y :: l, hx.cons_cons y, hy.cons_cons y, ?_⟩
    rw [lcs_cons_self, List.length_cons, hlength]
  | case4 x xs y ys hne ihx ihy =>
    rw [lcs_cons_of_ne hne]
    rcases le_total (lcs (x :: xs) ys) (lcs xs (y :: ys)) with hle | hle
    · obtain ⟨l, hx, hy, hlength⟩ := ihx
      exact ⟨l, hx.cons x, hy, by rw [hlength, max_eq_left hle]⟩
    · obtain ⟨l, hx, hy, hlength⟩ := ihy
      exact ⟨l, hx, hy.cons y, by rw [hlength, max_eq_right hle]⟩

/-- It is the greatest length of a common sublist. -/
theorem isGreatest_lcs (xs ys : List α) :
    IsGreatest {n | ∃ l : List α, l.Sublist xs ∧ l.Sublist ys ∧ l.length = n} (lcs xs ys) := by
  refine ⟨exists_length_eq_lcs xs ys, ?_⟩
  rintro n ⟨l, hx, hy, rfl⟩
  exact length_le_lcs hx hy

/-! ## The shortest script -/

/-- The steps from one list to another. -/
def script : List α → List α → List (Edit α)
  | [], [] => []
  | x :: xs, [] => .remove x :: script xs []
  | [], y :: ys => .add y :: script [] ys
  | x :: xs, y :: ys =>
    if x = y then script xs ys
    else if lcs (x :: xs) ys ≤ lcs xs (y :: ys) then .remove x :: script xs (y :: ys)
    else .add y :: script (x :: xs) ys
termination_by xs ys => xs.length + ys.length

/-- Without what is removed from the one, and without what is added in the other, the two lists are
the same. -/
theorem exists_kept (xs ys : List α) :
    ∃ kept, Interleaves ((script xs ys).filterMap Edit.removed) kept xs ∧
      Interleaves ((script xs ys).filterMap Edit.added) kept ys := by
  induction xs, ys using script.induct with
  | case1 =>
    rw [script]
    exact ⟨[], .nil, .nil⟩
  | case2 x xs ih =>
    obtain ⟨kept, hx, hy⟩ := ih
    rw [script]
    exact ⟨kept, .left x hx, hy⟩
  | case3 y ys ih =>
    obtain ⟨kept, hx, hy⟩ := ih
    rw [script]
    exact ⟨kept, hx, .left y hy⟩
  | case4 xs y ys ih =>
    obtain ⟨kept, hx, hy⟩ := ih
    rw [script, if_pos rfl]
    exact ⟨y :: kept, .right y hx, .right y hy⟩
  | case5 x xs y ys hne hle ih =>
    obtain ⟨kept, hx, hy⟩ := ih
    rw [script, if_neg hne, if_pos hle]
    exact ⟨kept, .left x hx, hy⟩
  | case6 x xs y ys hne hlt ih =>
    obtain ⟨kept, hx, hy⟩ := ih
    rw [script, if_neg hne, if_neg hlt]
    exact ⟨kept, hx, .left y hy⟩

/-- The script has as many steps as elements that are not in a longest common sublist. -/
theorem length_script (xs ys : List α) :
    (script xs ys).length + 2 * lcs xs ys = xs.length + ys.length := by
  induction xs, ys using script.induct with
  | case1 =>
    rw [script, lcs_nil_left]
    rfl
  | case2 x xs ih =>
    rw [lcs_nil_right] at ih ⊢
    rw [script, List.length_cons, List.length_cons]
    omega
  | case3 y ys ih =>
    rw [lcs_nil_left] at ih ⊢
    rw [script, List.length_cons, List.length_cons]
    omega
  | case4 xs y ys ih =>
    rw [script, if_pos rfl, lcs_cons_self, List.length_cons, List.length_cons]
    omega
  | case5 x xs y ys hne hle ih =>
    rw [script, if_neg hne, if_pos hle, lcs_cons_of_ne hne, max_eq_left hle]
    rw [List.length_cons] at ih ⊢
    rw [List.length_cons, List.length_cons]
    omega
  | case6 x xs y ys hne hlt ih =>
    rw [script, if_neg hne, if_neg hlt, lcs_cons_of_ne hne, max_eq_right (le_of_not_ge hlt)]
    rw [List.length_cons] at ih ⊢
    rw [List.length_cons, List.length_cons]
    omega

lemma script_self (xs : List α) : script xs xs = [] := by
  induction xs with
  | nil => rw [script]
  | cons x xs ih => rw [script, if_pos rfl, ih]

/-- Nothing is done if and only if the lists are the same. -/
theorem script_eq_nil_iff {xs ys : List α} : script xs ys = [] ↔ xs = ys := by
  constructor
  · intro hnil
    obtain ⟨kept, hx, hy⟩ := exists_kept xs ys
    rw [hnil] at hx hy
    exact hx.eq_of_nil.symm.trans hy.eq_of_nil
  · rintro rfl
    exact script_self xs

end EditScript
