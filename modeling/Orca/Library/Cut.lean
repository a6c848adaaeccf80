import Mathlib.Data.List.TakeWhile
import Mathlib.Data.List.Infix

/-!
# The first place where a list is cut

`Cut.once` cuts a list at the first element that passes a test, and drops this element.  The front
has no such element, and what comes behind it is arbitrary (`once_eq_some_iff`), so that a list that
was put together around such an element is taken apart again (`once_append`).
-/

namespace Cut

variable {α : Type*} {p : α → Bool}

/-- What comes before the first element that passes the test, and what comes behind it. -/
def once (p : α → Bool) (l : List α) : Option (List α × List α) :=
  match l.dropWhile (!p ·) with
  | [] => none
  | _ :: rest => some (l.takeWhile (!p ·), rest)

lemma takeWhile_append {front rest : List α} {a : α} (hfront : ∀ b ∈ front, p b = false)
    (ha : p a = true) : (front ++ a :: rest).takeWhile (!p ·) = front := by
  rw [List.takeWhile_append_of_pos fun b hb => by rw [hfront b hb]; rfl,
    List.takeWhile_cons_of_neg (by rw [ha]; decide), List.append_nil]

lemma dropWhile_append {front rest : List α} {a : α} (hfront : ∀ b ∈ front, p b = false)
    (ha : p a = true) : (front ++ a :: rest).dropWhile (!p ·) = a :: rest := by
  rw [List.dropWhile_append_of_pos fun b hb => by rw [hfront b hb]; rfl,
    List.dropWhile_cons_of_neg (by rw [ha]; decide)]

lemma once_append {front rest : List α} {a : α} (hfront : ∀ b ∈ front, p b = false)
    (ha : p a = true) : once p (front ++ a :: rest) = some (front, rest) := by
  unfold once
  rw [dropWhile_append hfront ha, takeWhile_append hfront ha]

/-- Where a list is cut. -/
theorem once_eq_some_iff {l front rest : List α} :
    once p l = some (front, rest) ↔
      ∃ a, l = front ++ a :: rest ∧ p a = true ∧ ∀ b ∈ front, p b = false := by
  constructor
  · intro h
    unfold once at h
    cases hd : l.dropWhile (!p ·) with
    | nil =>
      rw [hd] at h
      cases h
    | cons a tail =>
      rw [hd] at h
      obtain ⟨rfl, rfl⟩ := Prod.mk.inj (Option.some.inj h)
      refine ⟨a, ?_, ?_, fun b hb => ?_⟩
      · rw [← hd, List.takeWhile_append_dropWhile]
      · have hhead := List.head?_dropWhile_not (!p ·) l
        rw [hd] at hhead
        simpa using hhead
      · simpa using List.mem_takeWhile_imp hb
  · rintro ⟨a, rfl, ha, hfront⟩
    exact once_append hfront ha

/-- A list is not cut if no element passes the test. -/
theorem once_eq_none_iff {l : List α} : once p l = none ↔ ∀ a ∈ l, p a = false := by
  unfold once
  cases hd : l.dropWhile (!p ·) with
  | nil =>
    refine iff_of_true rfl fun a ha => ?_
    simpa using List.dropWhile_eq_nil_iff.mp hd a ha
  | cons a rest =>
    refine iff_of_false nofun fun h => ?_
    have hnil : l.dropWhile (!p ·) = [] :=
      List.dropWhile_eq_nil_iff.mpr fun b hb => by rw [h b hb]; rfl
    rw [hd] at hnil
    cases hnil

end Cut
