import Mathlib.Data.List.DropRight
import Mathlib.Data.List.Infix

/-!
# Marked blocks in a list

A block of a list starts with a marker and ends with another.  `enclosed` says of a place of the
list that it is between a begin marker and the end marker that matches it: of the markers around the
place the nearest one before it is a begin marker and the nearest one behind it an end marker.  A
scanner that goes through the list with a flag knows the marker before the place only (`opened`,
with its step `opened_concat`), and takes a begin marker without an end marker for a block that does
not end.

The lemmas on `rdropWhile` compare what is left of a list and of a part of it when the end is cut
off both.
-/

namespace MarkedBlocks

variable {α : Type*}

/-! ## Places -/

/-- An element of a list with what comes before it and behind it. -/
structure Place (α : Type*) where
  front : List α
  line : α
  rest : List α

/-- The places of a list behind another list. -/
def places : (front l : List α) → List (Place α)
  | _, [] => []
  | front, line :: rest => ⟨front, line, rest⟩ :: places (front ++ [line]) rest

lemma map_line_places (front l : List α) : (places front l).map Place.line = l := by
  induction l generalizing front with
  | nil => rfl
  | cons line rest ih => exact congrArg _ (ih _)

section Markers

variable (isBegin isEnd : α → Bool)

/-- The nearest marker before is a begin marker. -/
def opened (front : List α) : Bool :=
  (front.reverse.find? fun line => isBegin line || isEnd line).any isBegin

/-- The nearest markers around a place are a begin marker and an end marker. -/
def enclosed (place : Place α) : Bool :=
  opened isBegin isEnd place.front &&
    (place.rest.find? fun line => isBegin line || isEnd line).any isEnd

@[simp] lemma opened_nil : opened isBegin isEnd [] = false := rfl

lemma opened_concat (front : List α) (line : α) :
    opened isBegin isEnd (front ++ [line]) =
      (isBegin line || (!isEnd line && opened isBegin isEnd front)) := by
  unfold opened
  rw [List.reverse_append, List.reverse_singleton, List.singleton_append, List.find?_cons]
  cases hb : isBegin line with
  | true => simp [hb]
  | false =>
    cases he : isEnd line with
    | true => simp [hb]
    | false => simp

lemma opened_of_enclosed {place : Place α} (h : enclosed isBegin isEnd place = true) :
    opened isBegin isEnd place.front = true :=
  (Bool.and_eq_true_iff.mp h).1

end Markers

/-! ## Lists without their end -/

variable {p q : α → Bool}

lemma rdropWhile_append {l r : List α} (h : ∀ a ∈ r, p a = true) :
    (l ++ r).rdropWhile p = l.rdropWhile p := by
  induction r using List.reverseRecOn with
  | nil => rw [List.append_nil]
  | append_singleton r a ih =>
    rw [← List.append_assoc, List.rdropWhile_concat_pos p _ a (h a (by simp)),
      ih fun b hb => h b (List.mem_append_left _ hb)]

lemma rdropWhile_filter (l : List α) :
    (l.filter q).rdropWhile p = ((l.rdropWhile p).filter q).rdropWhile p := by
  have hparts := List.rdropWhile_append_rtakeWhile (p := p) (l := l)
  conv_lhs => rw [← hparts, List.filter_append]
  exact rdropWhile_append fun a ha => List.mem_rtakeWhile_imp (List.mem_filter.mp ha).1

lemma mem_rdropWhile_of_filter {l : List α} {a : α} (h : a ∈ (l.filter q).rdropWhile p) :
    a ∈ l.rdropWhile p := by
  rw [rdropWhile_filter] at h
  exact (List.mem_filter.mp ((List.rdropWhile_prefix p _).subset h)).1

lemma rdropWhile_filter_of_forall {l : List α} (h : ∀ a ∈ l.rdropWhile p, q a = true) :
    (l.filter q).rdropWhile p = l.rdropWhile p := by
  rw [rdropWhile_filter, List.filter_eq_self.mpr h, List.rdropWhile_idempotent]

/-- As much is left of a part if and only if the part has all that is left. -/
theorem rdropWhile_filter_length_iff {l : List α} :
    (l.rdropWhile p).length ≤ ((l.filter q).rdropWhile p).length ↔
      ∀ a ∈ l.rdropWhile p, q a = true := by
  constructor
  · intro h
    rw [rdropWhile_filter] at h
    have hpart := (List.rdropWhile_prefix p ((l.rdropWhile p).filter q)).length_le
    exact List.length_filter_eq_length_iff.mp
      (le_antisymm (List.length_filter_le _ _) (h.trans hpart))
  · exact fun h => (congrArg List.length (rdropWhile_filter_of_forall h)).ge

lemma rdropWhile_map {β : Type*} {p : β → Bool} (f : α → β) (l : List α) :
    (l.map f).rdropWhile p = (l.rdropWhile fun a => p (f a)).map f := by
  unfold List.rdropWhile
  rw [← List.map_reverse, List.dropWhile_map, List.map_reverse]
  rfl

end MarkedBlocks
