import Mathlib.Data.List.Basic
import Mathlib.Data.List.Induction

/-!
# What stands at the end of a run

Steps set a value or clear it.  A step that sets replaces whatever stands; a step that does not set
clears the value that stands if the value is one that it clears.  After a run, the value that stands
is the one that some step set and no later step replaced or cleared (`foldl_stand_iff`).
-/

namespace Standing

variable {ι α : Type*} (sets : ι → Option α) (clears : ι → α → Bool)

/-- One step. -/
def stand (s : Option α) (i : ι) : Option α := (sets i).or (s.filter fun a => !clears i a)

/-- The step leaves the value that stands. -/
def Leaves (i : ι) (a : α) : Prop := sets i = none ∧ clears i a = false

variable {sets clears}

/-- What stands after a step was set by it, or stood before and is left by it. -/
lemma stand_eq_some_iff {s : Option α} {i : ι} {a : α} :
    stand sets clears s i = some a ↔ sets i = some a ∨ s = some a ∧ Leaves sets clears i a := by
  unfold stand Leaves
  cases hset : sets i with
  | some b => simp
  | none => simp [Option.filter_eq_some_iff]

/-- What stands after a run was set by a step of it and is left by all the later ones. -/
theorem foldl_stand_iff {l : List ι} {a : α} :
    l.foldl (stand sets clears) none = some a ↔
      ∃ before i after, l = before ++ i :: after ∧ sets i = some a ∧
        ∀ j ∈ after, Leaves sets clears j a := by
  induction l using List.reverseRecOn with
  | nil => simp
  | append_singleton l i ih =>
    rw [List.foldl_concat, stand_eq_some_iff, ih]
    constructor
    · rintro (hset | ⟨⟨before, j, after, rfl, hset, hleaves⟩, hleft⟩)
      · exact ⟨l, i, [], rfl, hset, fun j hj => absurd hj List.not_mem_nil⟩
      · refine ⟨before, j, after ++ [i], by simp, hset, fun j' hj' => ?_⟩
        rcases List.mem_append.mp hj' with hj' | hj'
        · exact hleaves j' hj'
        · rw [List.mem_singleton.mp hj']
          exact hleft
    · rintro ⟨before, j, after, heq, hset, hleaves⟩
      rcases List.eq_nil_or_concat after with rfl | ⟨after', last, rfl⟩
      · obtain ⟨-, hlast⟩ := List.append_inj' heq rfl
        left
        rw [List.singleton_inj.mp hlast]
        exact hset
      · rw [List.concat_eq_append] at heq hleaves
        rw [← List.cons_append, ← List.append_assoc] at heq
        obtain ⟨rfl, hlast⟩ := List.append_inj' heq rfl
        right
        refine ⟨⟨before, j, after', rfl, hset, fun j' hj' => ?_⟩, ?_⟩
        · exact hleaves j' (List.mem_append_left _ hj')
        · rw [List.singleton_inj.mp hlast]
          exact hleaves last (List.mem_append_right _ (List.mem_singleton_self last))

end Standing
