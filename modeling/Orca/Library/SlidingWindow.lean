import Mathlib.Data.List.Count
import Mathlib.Order.Lattice

/-!
# Sliding windows

A bucket keeps the instants of the recent events of some kind: an event is pushed when it happens,
and entries that have left the window are pruned now and then, at different instants for different
buckets.  What such a bucket is for is a count, `recent c bucket`, the number of its entries from
`c` on.

`Covers low events bucket` says that the bucket counts all the events in every window that starts at
`low` or later, whatever has been pruned before.  It is kept as the window moves on (`Covers.mono`),
by pruning below it (`Covers.prune`) and by pushing an event (`Covers.push`).
-/

namespace SlidingWindow

variable {τ : Type*} [LinearOrder τ]

/-- The number of entries from `c` on. -/
def recent (c : τ) (entries : List τ) : Nat := entries.countP fun t => decide (c ≤ t)

/-- Drop the entries before `c`. -/
def prune (c : τ) (entries : List τ) : List τ := entries.filter fun t => decide (c ≤ t)

/-- From `low` on, the second list counts whatever the first one does. -/
def Covers (low : τ) (events bucket : List τ) : Prop :=
  ∀ c, low ≤ c → recent c events ≤ recent c bucket

variable {low : τ} {events bucket : List τ}

@[simp] lemma recent_nil (c : τ) : recent c [] = 0 := rfl

@[simp] lemma recent_cons (c t : τ) (entries : List τ) :
    recent c (t :: entries) = recent c entries + if c ≤ t then 1 else 0 := by
  simp [recent, List.countP_cons]

@[simp] lemma recent_append (c : τ) (entries entries' : List τ) :
    recent c (entries ++ entries') = recent c entries + recent c entries' := by
  simp [recent, List.countP_append]

lemma recent_anti {c d : τ} (h : c ≤ d) (entries : List τ) :
    recent d entries ≤ recent c entries := by
  refine List.countP_mono_left fun t _ ht => ?_
  rw [decide_eq_true_eq] at ht ⊢
  exact le_trans h ht

lemma recent_eq_zero {c : τ} {entries : List τ} (h : ∀ t ∈ entries, t < c) :
    recent c entries = 0 := by
  rw [recent, List.countP_eq_zero]
  intro t ht
  simpa using h t ht

lemma recent_prune {c d : τ} (h : c ≤ d) (entries : List τ) :
    recent d (prune c entries) = recent d entries := by
  unfold recent prune
  rw [List.countP_filter]
  refine List.countP_congr fun t _ => ?_
  simp only [Bool.and_eq_true, decide_eq_true_eq]
  exact ⟨fun ht => ht.1, fun ht => ⟨ht, le_trans h ht⟩⟩

lemma length_prune (c : τ) (entries : List τ) : (prune c entries).length = recent c entries := by
  rw [prune, recent, List.countP_eq_length_filter]

lemma Covers.mono (h : Covers low events bucket) {low' : τ} (hlow : low ≤ low') :
    Covers low' events bucket := fun c hc => h c (le_trans hlow hc)

lemma Covers.prune (h : Covers low events bucket) : Covers low events (prune low bucket) := by
  intro c hc
  rw [recent_prune hc]
  exact h c hc

lemma Covers.push (h : Covers low events bucket) (t : τ) :
    Covers low (t :: events) (bucket ++ [t]) := by
  intro c hc
  have hle := h c hc
  simp
  omega

lemma Covers.push_right (h : Covers low events bucket) (t : τ) :
    Covers low events (bucket ++ [t]) := by
  intro c hc
  have hle := h c hc
  simp
  omega

end SlidingWindow
