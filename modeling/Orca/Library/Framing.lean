import Mathlib.Data.List.Basic
import Mathlib.Logic.Function.Basic

/-!
# Prefix-free writings

A way to write values as lists is prefix-free if what stands at the start of a list is determined,
whatever comes after it.  Writings of one width are prefix-free, and so is a list behind its length
(`lengthPrefixed`).  Several values in a row are then read in one way only (`flatMap_inj`).
-/

namespace Framing

variable {α β γ : Type*} {P : α → Prop} {f : α → List β}

/-- Two writings of values of a kind, each with something after it, are equal only if the values
are, and what comes after. -/
def PrefixFree (P : α → Prop) (f : α → List β) : Prop :=
  ∀ a b s t, P a → P b → f a ++ s = f b ++ t → a = b ∧ s = t

/-- Writings of one width are prefix-free, if they are distinct. -/
lemma prefixFree_of_length {n : ℕ} (hlength : ∀ a, (f a).length = n)
    (hinj : ∀ a b, P a → P b → f a = f b → a = b) : PrefixFree P f := by
  intro a b s t ha hb h
  obtain ⟨hfirst, hrest⟩ := List.append_inj h ((hlength a).trans (hlength b).symm)
  exact ⟨hinj a b ha hb hfirst, hrest⟩

lemma PrefixFree.comp {Q : γ → Prop} (h : PrefixFree P f) {g : γ → α} (hg : Function.Injective g)
    (hQ : ∀ c, Q c → P (g c)) : PrefixFree Q fun c => f (g c) := by
  intro c d s t hc hd heq
  obtain ⟨hsame, hrest⟩ := h (g c) (g d) s t (hQ c hc) (hQ d hd) heq
  exact ⟨hg hsame, hrest⟩

/-- A list behind its length. -/
def lengthPrefixed (header : ℕ → List β) (w : List β) : List β := header w.length ++ w

/-- A list behind its length is prefix-free, if the lengths are. -/
theorem prefixFree_lengthPrefixed {header : ℕ → List β} {n : ℕ}
    (h : PrefixFree (· < n) header) :
    PrefixFree (fun w => w.length < n) (lengthPrefixed header) := by
  intro v w s t hv hw heq
  unfold lengthPrefixed at heq
  rw [List.append_assoc, List.append_assoc] at heq
  obtain ⟨hlength, hrest⟩ := h _ _ _ _ hv hw heq
  exact List.append_inj hrest hlength

/-- Values in a row are read in one way only. -/
theorem flatMap_inj (h : PrefixFree P f) (hne : ∀ a, P a → f a ≠ []) {l l' : List α}
    (hl : ∀ a ∈ l, P a) (hl' : ∀ a ∈ l', P a) (heq : l.flatMap f = l'.flatMap f) : l = l' := by
  induction l generalizing l' with
  | nil =>
    cases l' with
    | nil => rfl
    | cons b l' =>
      have hnil := List.append_eq_nil_iff.mp ((List.flatMap_cons ..).symm.trans heq.symm)
      exact absurd hnil.1 (hne b (hl' b List.mem_cons_self))
  | cons a l ih =>
    cases l' with
    | nil =>
      have hnil := List.append_eq_nil_iff.mp ((List.flatMap_cons ..).symm.trans heq)
      exact absurd hnil.1 (hne a (hl a List.mem_cons_self))
    | cons b l' =>
      rw [List.flatMap_cons, List.flatMap_cons] at heq
      obtain ⟨rfl, hrest⟩ := h a b _ _ (hl a List.mem_cons_self) (hl' b List.mem_cons_self) heq
      rw [ih (fun c hc => hl c (List.mem_cons_of_mem a hc))
        (fun c hc => hl' c (List.mem_cons_of_mem a hc)) hrest]

end Framing
