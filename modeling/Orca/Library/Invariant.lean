import Mathlib.Data.List.Basic
import Mathlib.Order.Defs.PartialOrder

/-!
# Invariants of runs

A system that performs a list of actions one after another is a left fold of its step function.
This file has the rules by which statements about whole runs are proved: an invariant kept by each
step of the run holds at its end (`foldl_invariant`), so does what one step establishes and the
others keep (`foldl_establishes`), and a relation between states that is reflexive and transitive
holds between the ends of a run as soon as each step establishes it (`foldl_relates`).  A condition
on the steps of a particular run is `Along`, and `foldl_invariant_along` is the rule for an
invariant that only such steps keep; where a step keeps a property exactly under a condition, the
rule is `foldl_holds_iff_along`.  A run that counts its changes and counts none has made none
(`foldl_eq_of_count_eq`).
-/

namespace Invariant

variable {σ α : Type*} {step : σ → α → σ}

/-- An invariant that every action of the run keeps holds after the run. -/
theorem foldl_invariant {I : σ → Prop} {as : List α}
    (hstep : ∀ a ∈ as, ∀ s, I s → I (step s a)) {s : σ} (hs : I s) : I (as.foldl step s) := by
  induction as generalizing s with
  | nil => exact hs
  | cons a as ih =>
    rw [List.foldl_cons]
    refine ih (fun b hb => hstep b (List.mem_cons_of_mem a hb)) ?_
    exact hstep a List.mem_cons_self s hs

/-- What one action of the run establishes, and no action of the run destroys, holds after it. -/
theorem foldl_establishes {Q : σ → Prop} {as : List α} {a : α} (ha : a ∈ as)
    (hset : ∀ s, Q (step s a)) (hkeep : ∀ b ∈ as, ∀ s, Q s → Q (step s b)) (s : σ) :
    Q (as.foldl step s) := by
  obtain ⟨before, after, rfl⟩ := List.append_of_mem ha
  rw [List.foldl_append, List.foldl_cons]
  refine foldl_invariant (fun b hb => hkeep b ?_) (hset _)
  exact List.mem_append_right before (List.mem_cons_of_mem a hb)

/-- A reflexive and transitive relation that holds across every step from a state satisfying the
invariant `I` holds between the first and the last state of the run. -/
theorem foldl_relates {I : σ → Prop} {R : σ → σ → Prop} {as : List α}
    (hrefl : ∀ s, R s s) (htrans : ∀ {s t u}, R s t → R t u → R s u)
    (hinv : ∀ a ∈ as, ∀ s, I s → I (step s a)) (hstep : ∀ a ∈ as, ∀ s, I s → R s (step s a))
    {s : σ} (hs : I s) : R s (as.foldl step s) := by
  induction as generalizing s with
  | nil => exact hrefl s
  | cons a as ih =>
    rw [List.foldl_cons]
    have hhead : R s (step s a) := hstep a List.mem_cons_self s hs
    have htail : R (step s a) (as.foldl step (step s a)) :=
      ih (fun b hb => hinv b (List.mem_cons_of_mem a hb))
        (fun b hb => hstep b (List.mem_cons_of_mem a hb)) (hinv a List.mem_cons_self s hs)
    exact htrans hhead htail

/-- `Q` holds of every step of the run: of the state the step starts from and of its action. -/
def Along (step : σ → α → σ) (Q : σ → α → Prop) : σ → List α → Prop
  | _, [] => True
  | s, a :: as => Q s a ∧ Along step Q (step s a) as

/-- Whether a condition holds along a run is decided by running it. -/
instance Along.decidable (step : σ → α → σ) (Q : σ → α → Prop) [∀ s a, Decidable (Q s a)] :
    (s : σ) → (as : List α) → Decidable (Along step Q s as)
  | _, [] => isTrue trivial
  | s, a :: as =>
    have := Along.decidable step Q (step s a) as
    inferInstanceAs (Decidable (Q s a ∧ Along step Q (step s a) as))

/-- What holds along a run holds along the start of it. -/
theorem along_of_initial {Q : σ → α → Prop} {s : σ} {as before : List α} (h : Along step Q s as)
    (hinitial : before <+: as) : Along step Q s before := by
  induction before generalizing s as with
  | nil => trivial
  | cons a before ih =>
    obtain ⟨rest, rfl⟩ := hinitial
    exact ⟨h.1, ih h.2 (List.prefix_append before rest)⟩

/-- What holds along a run holds along the rest of it. -/
theorem along_of_append {Q : σ → α → Prop} {s : σ} {before after : List α}
    (h : Along step Q s (before ++ after)) : Along step Q (before.foldl step s) after := by
  induction before generalizing s with
  | nil => exact h
  | cons a before ih => exact ih h.2

/-- What holds of every step at the end of a start of the run holds along the run. -/
theorem along_of_forall {Q : σ → α → Prop} {s : σ} {as : List α}
    (h : ∀ before a, before ++ [a] <+: as → Q (before.foldl step s) a) : Along step Q s as := by
  induction as generalizing s with
  | nil => trivial
  | cons a as ih =>
    refine ⟨h [] a (List.prefix_append [a] as), ih fun before b hinitial => ?_⟩
    exact h (a :: before) b (List.cons_prefix_cons.mpr ⟨rfl, hinitial⟩)

/-- A condition with a parameter holds along a run when it does for each value of it. -/
theorem along_forall {ι : Type*} {Q : ι → σ → α → Prop} {s : σ} {as : List α} :
    (∀ i, Along step (Q i) s as) ↔ Along step (fun s a => ∀ i, Q i s a) s as := by
  induction as generalizing s with
  | nil => simp [Along]
  | cons a as ih => simp only [Along, forall_and, ih]

/-- Two conditions hold along a run when each of them does. -/
theorem along_and {Q Q' : σ → α → Prop} {s : σ} {as : List α} :
    Along step (fun s a => Q s a ∧ Q' s a) s as ↔ Along step Q s as ∧ Along step Q' s as := by
  induction as generalizing s with
  | nil => simp [Along]
  | cons a as ih =>
    simp only [Along, ih]
    exact and_and_and_comm

/-- Conditions that agree on every step hold along the same runs. -/
theorem along_congr {Q Q' : σ → α → Prop} (h : ∀ s a, Q s a ↔ Q' s a) {s : σ} {as : List α} :
    Along step Q s as ↔ Along step Q' s as := by
  induction as generalizing s with
  | nil => rfl
  | cons a as ih => exact and_congr (h s a) ih

/-- A weaker condition holds along the runs on which the stronger one does. -/
theorem along_mono {Q Q' : σ → α → Prop} (h : ∀ s a, Q s a → Q' s a) {s : σ} {as : List α}
    (hQ : Along step Q s as) : Along step Q' s as := by
  induction as generalizing s with
  | nil => trivial
  | cons a as ih => exact ⟨h s a hQ.1, ih hQ.2⟩

/-- An invariant that every step satisfying `Q` keeps holds after a run of such steps. -/
theorem foldl_invariant_along {I : σ → Prop} {Q : σ → α → Prop}
    (hstep : ∀ s a, I s → Q s a → I (step s a)) {s : σ} {as : List α} (hQ : Along step Q s as)
    (hs : I s) : I (as.foldl step s) := by
  induction as generalizing s with
  | nil => exact hs
  | cons a as ih =>
    obtain ⟨hhead, htail⟩ := hQ
    rw [List.foldl_cons]
    exact ih htail (hstep s a hs hhead)

/-- What follows from an invariant, and from the condition under which the steps keep it, holds
along a run that meets the condition. -/
theorem along_of_invariant {I : σ → Prop} {Q P : σ → α → Prop}
    (hstep : ∀ s a, I s → Q s a → I (step s a)) (hP : ∀ s a, I s → Q s a → P s a) {s : σ}
    {as : List α} (hs : I s) (hQ : Along step Q s as) : Along step P s as := by
  induction as generalizing s with
  | nil => trivial
  | cons a as ih => exact ⟨hP s a hs hQ.1, ih (hstep s a hs hQ.1) hQ.2⟩

/-- What holds at the start of a run and after each of its steps holds after every start of it. -/
theorem forall_initial_of_along {I : σ → Prop} {s : σ} {as : List α} (hs : I s)
    (h : Along step (fun s a => I (step s a)) s as) :
    ∀ before, before <+: as → I (before.foldl step s) := by
  induction as generalizing s with
  | nil =>
    intro before hbefore
    rw [List.prefix_nil.mp hbefore]
    exact hs
  | cons a as ih =>
    intro before hbefore
    cases before with
    | nil => exact hs
    | cons b before =>
      obtain ⟨rfl, htail⟩ := List.cons_prefix_cons.mp hbefore
      exact ih h.1 h.2 before htail

/-- An invariant that refers to the time, in a run whose steps are taken in order of time: if every
step that satisfies `Q` carries the invariant to its own time, what the invariant gives for each
step holds along the run. -/
theorem along_of_timed {τ : Type*} [Preorder τ] {time : α → τ} {I : τ → σ → Prop}
    {Q P : σ → α → Prop}
    (hstep : ∀ t s a, I t s → t ≤ time a → Q s a → P s a ∧ I (time a) (step s a)) {t : τ} {s : σ}
    {as : List α} (hclock : (as.map time).Pairwise (· ≤ ·)) (hafter : ∀ a ∈ as, t ≤ time a)
    (hQ : Along step Q s as) (h : I t s) : Along step P s as := by
  induction as generalizing s t with
  | nil => trivial
  | cons a as ih =>
    rw [List.map_cons, List.pairwise_cons] at hclock
    obtain ⟨hP, hnext⟩ := hstep t s a h (hafter a List.mem_cons_self) hQ.1
    refine ⟨hP, ih hclock.2 (fun b hb => ?_) hQ.2 hnext⟩
    exact hclock.1 _ (List.mem_map_of_mem hb)

/-- A condition on actions that holds along a run holds of all its actions. -/
theorem forall_mem_of_along {P : α → Prop} {s : σ} {as : List α}
    (h : Along step (fun _ a => P a) s as) : ∀ a ∈ as, P a := by
  induction as generalizing s with
  | nil => exact fun a ha => absurd ha List.not_mem_nil
  | cons a as ih =>
    intro b hb
    rcases List.mem_cons.mp hb with rfl | hb
    · exact h.1
    · exact ih h.2 b hb

/-- A property that a step satisfying `C` keeps exactly if `Q` holds of it, from a state that has
it: in a run of such steps it holds in every state exactly if `Q` holds along the run. -/
theorem foldl_holds_iff_along_of {I : σ → Prop} {C Q : σ → α → Prop}
    (hstep : ∀ s a, I s → C s a → (I (step s a) ↔ Q s a)) {s : σ} (hs : I s) {as : List α}
    (hC : Along step C s as) :
    (∀ before, before <+: as → I (before.foldl step s)) ↔ Along step Q s as := by
  induction as generalizing s with
  | nil =>
    refine iff_of_true (fun before hbefore => ?_) trivial
    rw [List.prefix_nil.mp hbefore]
    exact hs
  | cons a as ih =>
    constructor
    · intro hall
      have hone : I (step s a) := hall [a] ⟨as, rfl⟩
      refine ⟨(hstep s a hs hC.1).mp hone, (ih hone hC.2).mp fun before hbefore => ?_⟩
      exact hall (a :: before) ((List.prefix_cons_inj a).mpr hbefore)
    · rintro ⟨hone, hrest⟩ before hbefore
      cases before with
      | nil => exact hs
      | cons b before =>
        obtain ⟨rfl, htail⟩ := List.cons_prefix_cons.mp hbefore
        exact (ih ((hstep s b hs hC.1).mpr hone) hC.2).mpr hrest before htail

/-- A property that one step keeps exactly if `Q` holds of it, from a state that has it: it holds in
every state of a run exactly if `Q` holds along the run. -/
theorem foldl_holds_iff_along {I : σ → Prop} {Q : σ → α → Prop}
    (hstep : ∀ s a, I s → (I (step s a) ↔ Q s a)) {s : σ} (hs : I s) {as : List α} :
    (∀ before, before <+: as → I (before.foldl step s)) ↔ Along step Q s as :=
  foldl_holds_iff_along_of (C := fun _ _ => True) (fun s a hI _ => hstep s a hI) hs
    (along_of_forall fun _ _ _ => trivial)

/-- A run over a state with a counter, where a step that does not count changes nothing: if the
counter is the same at the end, so is the state. -/
theorem foldl_eq_of_count_eq {step : σ × ℕ → α → σ × ℕ} {acc : σ × ℕ} {as : List α}
    (hle : ∀ a ∈ as, ∀ x : σ × ℕ, x.2 ≤ (step x a).2)
    (hkeep : ∀ a ∈ as, (step acc a).2 = acc.2 → step acc a = acc)
    (h : (as.foldl step acc).2 = acc.2) : as.foldl step acc = acc := by
  induction as with
  | nil => rfl
  | cons a as ih =>
    rw [List.foldl_cons] at h ⊢
    have hhead : acc.2 ≤ (step acc a).2 := hle a List.mem_cons_self acc
    have htail : (step acc a).2 ≤ (as.foldl step (step acc a)).2 :=
      foldl_invariant (I := fun x : σ × ℕ => (step acc a).2 ≤ x.2)
        (fun b hb x hx => Nat.le_trans hx (hle b (List.mem_cons_of_mem a hb) x)) (Nat.le_refl _)
    have hsame : step acc a = acc :=
      hkeep a List.mem_cons_self (Nat.le_antisymm (h ▸ htail) hhead)
    rw [hsame] at h ⊢
    exact ih (fun b hb => hle b (List.mem_cons_of_mem a hb))
      (fun b hb => hkeep b (List.mem_cons_of_mem a hb)) h

end Invariant
