import Mathlib.Data.List.Induction
import Mathlib.Data.List.Nodup
import Mathlib.Order.Defs.PartialOrder

/-!
# What a run emits

A system takes a list of actions one after another, and a step may emit a value: an acceptance, a
message, a call.  `emitted` is what a run emits, in order.

An invariant may refer to what was emitted before the state it is about (`emitted_invariant`); what
it says of the next value then holds at every place (`forall_initial_emitted`).  The rule
`emitted_nodup` is for values that are spent: a step that emits a value spends it, a spent value
stays spent as time goes on, and no step emits a spent value.  Then no run whose steps are taken in
order of time emits a value twice.
-/

namespace Emission

variable {σ α κ τ : Type*}

/-- What a run emits, in order. -/
def emitted (step : σ → α → σ) (emit : σ → α → Option κ) : σ → List α → List κ
  | _, [] => []
  | s, a :: as => (emit s a).toList ++ emitted step emit (step s a) as

variable {step : σ → α → σ} {emit : σ → α → Option κ}

/-- A value is emitted by a step of the run. -/
lemma forall_mem_emitted {Q : κ → Prop} {as : List α}
    (h : ∀ a ∈ as, ∀ s k, emit s a = some k → Q k) (s : σ) :
    ∀ k ∈ emitted step emit s as, Q k := by
  induction as generalizing s with
  | nil => exact fun k hk => absurd hk List.not_mem_nil
  | cons a as ih =>
    intro k hk
    rcases List.mem_append.mp hk with hhead | htail
    · exact h a List.mem_cons_self s k (Option.mem_toList.mp hhead)
    · exact ih (fun b hb => h b (List.mem_cons_of_mem a hb)) (step s a) k htail

lemma emitted_append (s : σ) (before after : List α) :
    emitted step emit s (before ++ after) =
      emitted step emit s before ++ emitted step emit (before.foldl step s) after := by
  induction before generalizing s with
  | nil => rfl
  | cons a before ih =>
    simp only [List.cons_append, emitted, List.foldl_cons, List.append_assoc]
    rw [ih]

/-- In a run that emits no value twice, what a step emits was not emitted before it. -/
lemma not_mem_emitted_before {s : σ} {before after : List α} {a : α} {k : κ}
    (hnodup : (emitted step emit s (before ++ a :: after)).Nodup)
    (h : emit (before.foldl step s) a = some k) : k ∉ emitted step emit s before := by
  rw [emitted_append, List.nodup_append] at hnodup
  intro hbefore
  refine hnodup.2.2 k hbefore k ?_ rfl
  exact List.mem_append_left _ (Option.mem_toList.mpr h)

/-- What is kept of the emitted values is emitted by the steps that keep it. -/
lemma filterMap_emitted {κ' : Type*} (f : κ → Option κ') (s : σ) (as : List α) :
    (emitted step emit s as).filterMap f =
      emitted step (fun s a => (emit s a).bind f) s as := by
  induction as generalizing s with
  | nil => rfl
  | cons a as ih =>
    rw [emitted, emitted, List.filterMap_append, ih]
    congr 1
    cases emit s a with
    | none => rfl
    | some k => cases hf : f k <;> simp [hf]

section History

variable {I : σ → List κ → Prop}

/-- An invariant of a state and of what was emitted before it holds after every run. -/
theorem emitted_invariant
    (hstep : ∀ s past a, I s past → I (step s a) (past ++ (emit s a).toList)) {s : σ}
    (hs : I s []) (as : List α) : I (as.foldl step s) (emitted step emit s as) := by
  induction as using List.reverseRecOn with
  | nil => exact hs
  | append_singleton as a ih =>
    rw [emitted_append, List.foldl_append]
    simpa [emitted] using hstep _ _ a ih

/-- What such an invariant says of a value that is emitted, and of those emitted before it, holds at
every place of what a run emits. -/
theorem forall_initial_emitted {P : List κ → κ → Prop}
    (hstep : ∀ s past a, I s past → I (step s a) (past ++ (emit s a).toList))
    (hP : ∀ s past a k, I s past → emit s a = some k → P past k) {s : σ} (hs : I s [])
    (as : List α) : ∀ past k, past ++ [k] <+: emitted step emit s as → P past k := by
  induction as using List.reverseRecOn with
  | nil =>
    intro past k hinitial
    have hempty := List.prefix_nil.mp hinitial
    simp at hempty
  | append_singleton as a ih =>
    intro past k hinitial
    rw [emitted_append] at hinitial
    cases hemit : emit (as.foldl step s) a with
    | none =>
      simp only [emitted, hemit, Option.toList_none, List.append_nil] at hinitial
      exact ih past k hinitial
    | some k' =>
      simp only [emitted, hemit, Option.toList_some, List.append_nil] at hinitial
      rcases List.prefix_concat_iff.mp hinitial with heq | hearlier
      · obtain ⟨rfl, hk⟩ := List.append_inj' heq rfl
        obtain rfl : k = k' := List.singleton_inj.mp hk
        exact hP _ _ a k (emitted_invariant hstep hs as) hemit
      · exact ih past k hearlier

end History

section Spent

variable [Preorder τ] {time : α → τ} {Spent : σ → τ → κ → Prop}

/-- A spent value is not emitted by the rest of the run. -/
lemma not_mem_emitted_of_spent
    (hkeep : ∀ s t k a, t ≤ time a → Spent s t k → Spent (step s a) (time a) k)
    (hrefuse : ∀ s t k a, t ≤ time a → Spent s t k → emit s a ≠ some k)
    {as : List α} {s : σ} {t : τ} {k : κ} (hclock : (as.map time).Pairwise (· ≤ ·))
    (hafter : ∀ a ∈ as, t ≤ time a) (h : Spent s t k) : k ∉ emitted step emit s as := by
  induction as generalizing s t with
  | nil => exact List.not_mem_nil
  | cons a as ih =>
    have ht : t ≤ time a := hafter a List.mem_cons_self
    rw [List.map_cons, List.pairwise_cons] at hclock
    have hlater : ∀ b ∈ as, time a ≤ time b := fun b hb => hclock.1 _ (List.mem_map_of_mem hb)
    intro hmem
    rcases List.mem_append.mp hmem with hhead | htail
    · exact hrefuse s t k a ht h (Option.mem_toList.mp hhead)
    · exact ih hclock.2 hlater (hkeep s t k a ht h) htail

/-- A run that is taken in order of time emits no value twice. -/
theorem emitted_nodup
    (hspend : ∀ s k a, emit s a = some k → Spent (step s a) (time a) k)
    (hkeep : ∀ s t k a, t ≤ time a → Spent s t k → Spent (step s a) (time a) k)
    (hrefuse : ∀ s t k a, t ≤ time a → Spent s t k → emit s a ≠ some k)
    {as : List α} (hclock : (as.map time).Pairwise (· ≤ ·)) (s : σ) :
    (emitted step emit s as).Nodup := by
  induction as generalizing s with
  | nil => exact List.nodup_nil
  | cons a as ih =>
    rw [List.map_cons, List.pairwise_cons] at hclock
    have hlater : ∀ b ∈ as, time a ≤ time b := fun b hb => hclock.1 _ (List.mem_map_of_mem hb)
    have htail := ih hclock.2 (step s a)
    cases hemit : emit s a with
    | none => simpa [emitted, hemit] using htail
    | some k =>
      simp only [emitted, hemit, Option.toList_some, List.singleton_append, List.nodup_cons]
      exact ⟨not_mem_emitted_of_spent hkeep hrefuse hclock.2 hlater (hspend s k a hemit), htail⟩

end Spent

end Emission
