import Mathlib.Data.Option.Basic

/-!
# Chains of checks

A function that can be refused at several places is a chain of steps in `Except`, each of which ends
the computation with a message or goes on.  This file has the three kinds of step such a chain is
made of: `ensure` for a condition, `required` for a value that may be missing, `context` for a step
whose own message is replaced and `withContext` for one whose message is kept behind another.  A
chain is taken apart with `chain_ok_iff` and `then_ok_iff`:
it succeeds exactly when each of its steps does.  A loop over a list is such a chain too
(`foldlM_cons_ok_iff`, `mem_of_mapM_ok`), and two loops in each other are one (`foldlM_flatMap_ok`).
-/

namespace Check

variable {ε : Type*} {α β : Type}

/-- Go on when the condition holds. -/
def ensure (b : Bool) (e : ε) : Except ε Unit := if b then .ok () else .error e

/-- Go on with the value, when there is one. -/
def required (o : Option α) (e : ε) : Except ε α :=
  match o with
  | some a => .ok a
  | none => .error e

/-- Replace the message of a step that fails. -/
def context (x : Except ε α) (e : ε) : Except ε α :=
  match x with
  | .ok a => .ok a
  | .error _ => .error e

/-- Put a message in front of the one of a step that fails. -/
def withContext (x : Except String α) (e : String) : Except String α :=
  match x with
  | .ok a => .ok a
  | .error cause => .error (e ++ ": " ++ cause)

lemma ok_bind (a : α) (rest : α → Except ε β) : (do let a ← Except.ok a; rest a) = rest a := rfl

/-- A chain succeeds when its first step does and the rest does on its result. -/
lemma chain_ok_iff {first : Except ε α} {rest : α → Except ε β} {result : β} :
    (do let a ← first; rest a) = Except.ok result ↔
      ∃ a, first = .ok a ∧ rest a = .ok result := by
  refine ⟨fun h => ?_, ?_⟩
  · cases first with
    | error e => cases h
    | ok a => exact ⟨a, rfl, h⟩
  · rintro ⟨a, rfl, h⟩
    exact h

lemma then_ok_iff {first : Except ε Unit} {rest : Except ε β} {result : β} :
    (do first; rest) = Except.ok result ↔ first = .ok () ∧ rest = .ok result := by
  rw [chain_ok_iff]
  exact ⟨fun ⟨_, hfirst, hrest⟩ => ⟨hfirst, hrest⟩, fun ⟨hfirst, hrest⟩ => ⟨(), hfirst, hrest⟩⟩

/-- A chain whose first step gives nothing fails where the first of its parts does. -/
lemma then_error_iff {first : Except ε Unit} {rest : Except ε β} {e : ε} :
    (do first; rest) = Except.error e ↔
      first = .error e ∨ first = .ok () ∧ rest = .error e := by
  cases first with
  | error e' =>
    refine ⟨fun h => Or.inl ?_, ?_⟩
    · cases h
      rfl
    · rintro (h | ⟨h, -⟩) <;> cases h
      rfl
  | ok u => exact ⟨fun h => Or.inr ⟨rfl, h⟩, fun h => (h.resolve_left nofun).2⟩

lemma ensure_of_true {b : Bool} (h : b = true) (e : ε) : ensure b e = .ok () := if_pos h

/-- A condition is passed exactly when it holds. -/
@[simp] lemma ensure_eq_ok {b : Bool} {e : ε} {u : Unit} : ensure b e = .ok u ↔ b = true := by
  cases b <;> simp [ensure]

/-- A required value is there. -/
@[simp] lemma required_eq_ok {o : Option α} {e : ε} {a : α} :
    required o e = .ok a ↔ o = some a := by
  cases o <;> simp [required]

/-- A message changes no success. -/
@[simp] lemma context_eq_ok {x : Except ε α} {e : ε} {a : α} :
    context x e = .ok a ↔ x = .ok a := by
  cases x <;> simp [context]

/-- A message in front of another changes no success. -/
@[simp] lemma withContext_eq_ok {x : Except String α} {e : String} {a : α} :
    withContext x e = .ok a ↔ x = .ok a := by
  cases x <;> simp [withContext]

/-- A rewritten message changes no success. -/
@[simp] lemma mapError_eq_ok {δ : Type*} {x : Except ε α} {f : ε → δ} {a : α} :
    x.mapError f = .ok a ↔ x = .ok a := by
  cases x <;> simp [Except.mapError]

/-! ## Loops -/

section Loops

variable {σ τ : Type}

lemma foldlM_cons_ok_iff {f : σ → α → Except ε σ} {a : α} {as : List α} {s s' : σ} :
    (a :: as).foldlM f s = .ok s' ↔ ∃ mid, f s a = .ok mid ∧ as.foldlM f mid = .ok s' := by
  rw [List.foldlM_cons]
  exact chain_ok_iff

/-- A loop over what the rounds of another one loop over does what that one does. -/
lemma foldlM_flatMap_ok {f : σ → α → Except ε σ} {g : σ → τ → Except ε σ} {pieces : α → List τ}
    (hround : ∀ s a s', f s a = .ok s' → (pieces a).foldlM g s = .ok s') {as : List α} {s s' : σ}
    (h : as.foldlM f s = .ok s') : (as.flatMap pieces).foldlM g s = .ok s' := by
  induction as generalizing s with
  | nil => exact h
  | cons a as ih =>
    obtain ⟨mid, hmid, hrest⟩ := foldlM_cons_ok_iff.mp h
    rw [List.flatMap_cons, List.foldlM_append, hround s a mid hmid]
    exact ih hrest

/-- Each element of a list that was mapped has its result. -/
lemma mem_of_mapM_ok {f : α → Except ε β} {as : List α} {bs : List β} (h : as.mapM f = .ok bs)
    {a : α} (ha : a ∈ as) : ∃ b ∈ bs, f a = .ok b := by
  induction as generalizing bs with
  | nil => cases ha
  | cons first as ih =>
    rw [List.mapM_cons] at h
    obtain ⟨b, hb, h⟩ := chain_ok_iff.mp h
    obtain ⟨rest, hrest, h⟩ := chain_ok_iff.mp h
    cases h
    rcases List.mem_cons.mp ha with rfl | ha
    · exact ⟨b, List.mem_cons_self, hb⟩
    · obtain ⟨c, hc, hac⟩ := ih hrest ha
      exact ⟨c, List.mem_cons_of_mem _ hc, hac⟩

end Loops

end Check
