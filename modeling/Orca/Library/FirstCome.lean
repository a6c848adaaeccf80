import Mathlib.Data.List.Basic
import Orca.Library.Check

/-!
# First come, first served

Steps that put entries into a store under keys.  An entry that is there stays, and a step that wants
a key which is taken goes on without an error; so a step may end without its entries being in the
store.  `Claims` says of a kind of steps that it is like that, and on what condition the entries of
one step are in the store after it.

A run of such steps is a step of the same kind (`Claims.run`): its entries are in the store at the
end if and only if each step meets its condition in the state that it starts from (`AlongRun`).
-/

namespace FirstCome

open Check

variable {σ ι κ α ε : Type}

/-- The steps of a run, one after another. -/
def runSteps (step : ι → σ → Except ε σ) (steps : List ι) (s : σ) : Except ε σ :=
  steps.foldlM (fun s i => step i s) s

/-- Each step of a run meets the condition in the state that it starts from. -/
def AlongRun (step : ι → σ → Except ε σ) (fits : ι → σ → Prop) : List ι → σ → Prop
  | [], _ => True
  | i :: steps, s => fits i s ∧ ∀ s', step i s = .ok s' → AlongRun step fits steps s'

/-- Steps that put entries into a store, where `view` is the entry of a key and `wants` says which
entries a step is to put there. -/
structure Claims (step : ι → σ → Except ε σ) (view : σ → κ → Option α) (wants : ι → κ → α → Prop)
    (fits : ι → σ → Prop) : Prop where
  keeps : ∀ {i s s'}, step i s = .ok s' → ∀ {k a}, view s k = some a → view s' k = some a
  takes : ∀ {i s s'}, step i s = .ok s' → ∀ {k a}, wants i k a → ∃ b, view s' k = some b
  /-- The entries of a step are in the store after it on this condition. -/
  stands_iff : ∀ {i s s'}, step i s = .ok s' →
    ((∀ k a, wants i k a → view s' k = some a) ↔ fits i s)

variable {step : ι → σ → Except ε σ} {view : σ → κ → Option α} {wants : ι → κ → α → Prop}
  {fits : ι → σ → Prop}

lemma runSteps_cons {i : ι} {steps : List ι} {s s' : σ} :
    runSteps step (i :: steps) s = .ok s' ↔
      ∃ mid, step i s = .ok mid ∧ runSteps step steps mid = .ok s' :=
  foldlM_cons_ok_iff

/-- An entry stays in a run. -/
lemma Claims.keeps_run (h : Claims step view wants fits) {steps : List ι} {s s' : σ}
    (hrun : runSteps step steps s = .ok s') {k : κ} {a : α} (ha : view s k = some a) :
    view s' k = some a := by
  induction steps generalizing s with
  | nil =>
    cases hrun
    exact ha
  | cons i steps ih =>
    obtain ⟨mid, hmid, hrest⟩ := runSteps_cons.mp hrun
    exact ih hrest (h.keeps hmid ha)

/-- A run of steps is a step of the same kind. -/
theorem Claims.run (h : Claims step view wants fits) :
    Claims (runSteps step) view (fun steps k a => ∃ i ∈ steps, wants i k a)
      (AlongRun step fits) where
  keeps hrun _ _ ha := h.keeps_run hrun ha
  takes {steps s s'} hrun k a hwants := by
    obtain ⟨i, hi, hwants⟩ := hwants
    induction steps generalizing s with
    | nil => cases hi
    | cons j steps ih =>
      obtain ⟨mid, hmid, hrest⟩ := runSteps_cons.mp hrun
      rcases List.mem_cons.mp hi with rfl | hi
      · obtain ⟨b, hb⟩ := h.takes hmid hwants
        exact ⟨b, h.keeps_run hrest hb⟩
      · exact ih hrest hi
  stands_iff {steps s s'} hrun := by
    induction steps generalizing s with
    | nil => exact iff_of_true (fun _ _ ⟨_, hi, _⟩ => absurd hi List.not_mem_nil) trivial
    | cons i steps ih =>
      obtain ⟨mid, hmid, hrest⟩ := runSteps_cons.mp hrun
      constructor
      · intro hstands
        have hlater : AlongRun step fits steps mid :=
          (ih hrest).mp fun k a ⟨j, hj, hwants⟩ =>
            hstands k a ⟨j, List.mem_cons_of_mem i hj, hwants⟩
        refine ⟨(h.stands_iff hmid).mp fun k a hwants => ?_, fun s'' hs'' => ?_⟩
        · -- what the step leaves under the key is there at the end
          obtain ⟨b, hb⟩ := h.takes hmid hwants
          have hend := h.keeps_run hrest hb
          rw [hstands k a ⟨i, List.mem_cons_self, hwants⟩] at hend
          rw [hb, Option.some.inj hend]
        · rw [hmid] at hs''
          cases hs''
          exact hlater
      · rintro ⟨hfits, hlater⟩ k a ⟨j, hj, hwants⟩
        rcases List.mem_cons.mp hj with rfl | hj
        · exact h.keeps_run hrest ((h.stands_iff hmid).mpr hfits k a hwants)
        · exact (ih hrest).mpr (hlater mid hmid) k a ⟨j, hj, hwants⟩

end FirstCome
