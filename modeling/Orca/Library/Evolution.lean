import Mathlib.Data.List.Perm.Basic
import Mathlib.Data.List.Forall2
import Mathlib.Data.List.Count

/-!
# Evolution of a collection

A collection evolves when each of its members is replaced by a related one and further members are
added.  The order of the members carries no meaning.  `Evolves R closed t t'` says that `t'` arose
from `t` in this way, and that nothing was added if the collection is `closed`.  Members are never
lost, so that a property kept by the relation can only be met more often (`Evolves.countP_le`).
-/

namespace Evolution

variable {α : Type*} {R : α → α → Prop} {closed : Prop}

/-- Every member of `t` lives on in `t'`, related to what it was; the rest of `t'` is new, and a
closed collection has no new members. -/
def Evolves (R : α → α → Prop) (closed : Prop) (t t' : List α) : Prop :=
  ∃ kept added, List.Forall₂ R t kept ∧ t'.Perm (kept ++ added) ∧ (closed → added = [])

lemma forall₂_trans (hR : ∀ a b c, R a b → R b c → R a c) {t u v : List α}
    (h₁ : List.Forall₂ R t u) (h₂ : List.Forall₂ R u v) : List.Forall₂ R t v := by
  induction h₁ generalizing v with
  | nil => exact h₂
  | cons hab _ ih =>
    cases h₂ with
    | cons hbc htail => exact List.Forall₂.cons (hR _ _ _ hab hbc) (ih htail)

/-- A related member comes from a member. -/
lemma exists_of_mem_kept {t kept : List α} (h : List.Forall₂ R t kept) {b : α} (hb : b ∈ kept) :
    ∃ a ∈ t, R a b := by
  induction h with
  | nil => cases hb
  | cons hab _ ih =>
    rcases List.mem_cons.mp hb with rfl | hb
    · exact ⟨_, List.mem_cons_self, hab⟩
    · obtain ⟨a, ha, hR⟩ := ih hb
      exact ⟨a, List.mem_cons_of_mem _ ha, hR⟩

lemma Evolves.refl (hR : ∀ a, R a a) (t : List α) : Evolves R closed t t :=
  ⟨t, [], List.forall₂_same.mpr fun a _ => hR a, by simp, fun _ => rfl⟩

/-- Evolution composes when the relation does. -/
lemma Evolves.trans (hR : ∀ a b c, R a b → R b c → R a c) {t u v : List α}
    (h₁ : Evolves R closed t u) (h₂ : Evolves R closed u v) : Evolves R closed t v := by
  obtain ⟨kept₁, added₁, hkept₁, hperm₁, hclosed₁⟩ := h₁
  obtain ⟨kept₂, added₂, hkept₂, hperm₂, hclosed₂⟩ := h₂
  -- follow the second evolution along the first one's view of the middle collection
  obtain ⟨mid, hmid, hmidPerm⟩ := List.perm_comp_forall₂ hperm₁.symm hkept₂
  have hkept : List.Forall₂ R kept₁ (mid.take kept₁.length) :=
    (List.forall₂_take_append mid kept₁ added₁ hmid.flip).flip
  have hrest : List.Forall₂ R added₁ (mid.drop kept₁.length) :=
    (List.forall₂_drop_append mid kept₁ added₁ hmid.flip).flip
  refine ⟨mid.take kept₁.length, mid.drop kept₁.length ++ added₂, ?_, ?_, ?_⟩
  · exact forall₂_trans hR hkept₁ hkept
  · rw [← List.append_assoc, List.take_append_drop]
    exact hperm₂.trans (hmidPerm.symm.append_right added₂)
  · intro hc
    rw [hclosed₁ hc, List.forall₂_nil_left_iff] at hrest
    rw [hrest, hclosed₂ hc, List.append_nil]

lemma Evolves.of_map {f : α → α} {t : List α} (hf : ∀ a ∈ t, R a (f a)) :
    Evolves R closed t (t.map f) :=
  ⟨t.map f, [], List.forall₂_map_right_iff.mpr (List.forall₂_same.mpr hf), by simp, fun _ => rfl⟩

lemma Evolves.of_append (hR : ∀ a, R a a) (hopen : ¬closed) (t : List α) (a : α) :
    Evolves R closed t (t ++ [a]) :=
  ⟨t, [a], List.forall₂_same.mpr fun a _ => hR a, .rfl, fun hc => absurd hc hopen⟩

/-- One member may be replaced, wherever the new one is put. -/
lemma Evolves.of_replace (hR : ∀ a, R a a) {t t' rest : List α} {a b : α}
    (ht : t.Perm (a :: rest)) (ht' : t'.Perm (b :: rest)) (hab : R a b) :
    Evolves R closed t t' := by
  have hrest : List.Forall₂ R (a :: rest) (b :: rest) :=
    List.Forall₂.cons hab (List.forall₂_same.mpr fun x _ => hR x)
  obtain ⟨kept, hkept, hperm⟩ := List.perm_comp_forall₂ ht hrest
  exact ⟨kept, [], hkept, by simpa using ht'.trans hperm.symm, fun _ => rfl⟩

/-- A property that related members share is met at least as often afterwards. -/
lemma Evolves.countP_le {p : α → Bool} (hp : ∀ {a b}, R a b → p a = true → p b = true)
    {t t' : List α} (h : Evolves R closed t t') : t.countP p ≤ t'.countP p := by
  obtain ⟨kept, added, hkept, hperm, -⟩ := h
  have hle : t.countP p ≤ kept.countP p := by
    clear hperm
    induction hkept with
    | nil => exact Nat.le_refl _
    | @cons a b t kept hab _ ih =>
      rw [List.countP_cons, List.countP_cons]
      by_cases ha : p a = true
      · rw [if_pos ha, if_pos (hp hab ha)]
        exact Nat.add_le_add_right ih 1
      · rw [if_neg ha]
        exact Nat.le_trans ih (Nat.le_add_right _ _)
  calc t.countP p ≤ kept.countP p := hle
    _ ≤ (kept ++ added).countP p := by rw [List.countP_append]; exact Nat.le_add_right _ _
    _ = t'.countP p := (hperm.countP_eq p).symm

end Evolution
