import Orca.Library.Check

/-!
# Handlers

A handler answers a request: it reads and writes a state and ends with an answer or with a refusal.
What it wrote before it was refused stays written, so a handler is a computation in `ExceptT` over
`StateM`.

A handler that answers is taken apart with `exec_bind_ok`: its first step does, and the rest does
from there.  How a handler ends whether or not it answers is said by `Ends`, a relation between the
state before, the refusal and the state after.  It is proved along the handler: over the steps that
only read with `Ends.bind_of_readsOnly`, up to the first that writes.
-/

/-- A computation over a state that ends with an answer or a refusal. -/
abbrev Handler (σ ε α : Type) := ExceptT ε (StateM σ) α

namespace Handler

variable {σ ε α β : Type}

/-- Run a handler from a state. -/
def exec (m : Handler σ ε α) (s : σ) : Except ε α × σ := m s

/-- A step that computes an answer from what is at hand, and reads and writes nothing. -/
def check (x : Except ε α) : Handler σ ε α := fun s => (x, s)

/-! ## Runs of handlers -/

/-- After the first step a handler goes on with the rest, unless it was refused. -/
lemma exec_bind (m : Handler σ ε α) (f : α → Handler σ ε β) (s : σ) :
    (m >>= f).exec s =
      match m.exec s with
      | (.ok a, t) => (f a).exec t
      | (.error e, t) => (.error e, t) := by
  change (ExceptT.bindCont f (m s).1 : StateM σ _) (m s).2 = _
  unfold exec
  rcases m s with ⟨result, t⟩
  cases result <;> rfl

/-- A handler answers when its first step does and the rest does from there. -/
lemma exec_bind_ok {m : Handler σ ε α} {f : α → Handler σ ε β} {s u : σ} {b : β} :
    (m >>= f).exec s = (.ok b, u) ↔
      ∃ a t, m.exec s = (.ok a, t) ∧ (f a).exec t = (.ok b, u) := by
  rw [exec_bind]
  constructor
  · intro h
    split at h
    · rename_i a t hfirst
      exact ⟨a, t, hfirst, h⟩
    · cases h
  · rintro ⟨a, t, hfirst, hrest⟩
    rw [hfirst]
    exact hrest

lemma exec_get_bind (f : σ → Handler σ ε β) (s : σ) :
    ((get : Handler σ ε σ) >>= f).exec s = (f s).exec s := rfl

/-- The last step answers. -/
@[simp] lemma exec_pure (a : α) (s : σ) : (pure a : Handler σ ε α).exec s = (.ok a, s) := rfl

/-- A check. -/
@[simp] lemma exec_check (x : Except ε α) (s : σ) : (check x).exec s = (x, s) := rfl

/-! ## Handlers that only read -/

/-- The handler leaves every state as it was. -/
def ReadsOnly (m : Handler σ ε α) : Prop := ∀ s, (m.exec s).2 = s

lemma readsOnly_check (x : Except ε α) : ReadsOnly (check x : Handler σ ε α) := fun _ => rfl

lemma readsOnly_get : ReadsOnly (get : Handler σ ε σ) := fun _ => rfl

/-! ## How handlers end -/

/-- The refusal a handler ends with, if any. -/
def refusal : Except ε α → Option ε
  | .ok _ => none
  | .error e => some e

/-- Every run of the handler ends as `Q` says: a relation between the state it starts from, its
refusal and the state it leaves. -/
def Ends (Q : σ → Option ε → σ → Prop) (m : Handler σ ε α) : Prop :=
  ∀ s, Q s (refusal (m.exec s).1) (m.exec s).2

variable {Q : σ → Option ε → σ → Prop}

/-- A handler whose first step only reads ends as its rest does, or is refused where it started. -/
lemma Ends.bind_of_readsOnly {m : Handler σ ε α} {f : α → Handler σ ε β} (hm : ReadsOnly m)
    (hrefused : ∀ s e, Q s (some e) s) (hf : ∀ a, Ends Q (f a)) : Ends Q (m >>= f) := by
  intro s
  have hfirst := hm s
  rw [exec_bind]
  split
  · rename_i a t hrun
    rw [hrun] at hfirst
    subst hfirst
    exact hf a t
  · rename_i e t hrun
    rw [hrun] at hfirst
    subst hfirst
    exact hrefused t e

/-- A handler that goes on with an answer only ends as its first step does. -/
lemma Ends.bind_pure {m : Handler σ ε α} {g : α → β} (hm : Ends Q m) :
    Ends Q (m >>= fun a => pure (g a)) := by
  intro s
  have hfirst := hm s
  rw [exec_bind]
  split
  · rename_i a t hrun
    rw [hrun] at hfirst
    exact hfirst
  · rename_i e t hrun
    rw [hrun] at hfirst
    exact hfirst

end Handler
