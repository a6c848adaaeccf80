import Mathlib.Logic.Function.Basic
import Mathlib.Order.Lattice
import Mathlib.Data.List.Basic

/-!
# Last-writer-wins maps

A replicated register keeps, for every key, the entry with the greatest stamp it has been given.
Stamps live in an arbitrary linear order.  `put` gives one entry to the map; `Represents` says
that a map holds exactly the latest entries of a set of entries.  Since `Represents` speaks of a
set, it does not depend on the order in which the entries were given nor on how often each of them
was: `represents_foldl_put` is the convergence theorem of the construction.
-/

namespace LastWriterWins

variable {K E S : Type*} [LinearOrder S] (key : E → K) (stamp : E → S)

/-- The entry a register keeps when it is given `e`: the newer one, the present one on a tie. -/
def join (cur : Option E) (e : E) : Option E :=
  match cur with
  | none => some e
  | some c => if stamp c < stamp e then some e else some c

/-- Give an entry to the register of its key. -/
def put [DecidableEq K] (m : K → Option E) (e : E) : K → Option E :=
  Function.update m (key e) (join stamp (m (key e)) e)

/-- The newer of two entries, the first one on a tie. -/
def newer (a b : Option E) : Option E := b.elim a (join stamp a)

/-- `w` is the latest entry for `k` among the entries satisfying `P`. -/
def IsLatest (P : E → Prop) (k : K) (w : E) : Prop :=
  P w ∧ key w = k ∧ ∀ e, P e → key e = k → stamp e ≤ stamp w

/-- The map holds, for every key, the latest entry among those satisfying `P`, and nothing for a
key without entries. -/
structure Represents (m : K → Option E) (P : E → Prop) : Prop where
  /-- Every entry of the map is the latest one for its key. -/
  latest : ∀ {k w}, m k = some w → IsLatest key stamp P k w
  occupied : ∀ {k}, m k = none → ∀ e, P e → key e ≠ k

variable {key stamp}

lemma represents_empty : Represents key stamp (fun _ => none) fun _ => False where
  latest := by simp
  occupied := fun _ _ he => he.elim

/-- If the stamp tells the entries of a key apart, the map holds an entry for that key exactly when
it is the latest one. -/
lemma Represents.eq_some_iff {m : K → Option E} {P : E → Prop} (h : Represents key stamp m P)
    {k : K} (hinj : ∀ a b, P a → P b → key a = k → key b = k → stamp a = stamp b → a = b) {w : E} :
    m k = some w ↔ IsLatest key stamp P k w := by
  refine ⟨h.latest, ?_⟩
  rintro ⟨hw, hkey, hmax⟩
  cases hm : m k with
  | none => exact absurd hkey (h.occupied hm w hw)
  | some c =>
    obtain ⟨hc, hckey, hcmax⟩ := h.latest hm
    have hstamp : stamp c = stamp w := le_antisymm (hmax c hc hckey) (hcmax w hw hkey)
    rw [hinj c w hc hw hckey hkey hstamp]

lemma Represents.eq_of_represents {m m' : K → Option E} {P : E → Prop}
    (h : Represents key stamp m P) (h' : Represents key stamp m' P) {k : K}
    (hinj : ∀ a b, P a → P b → key a = k → key b = k → stamp a = stamp b → a = b) :
    m k = m' k := by
  ext w
  rw [h.eq_some_iff hinj, h'.eq_some_iff hinj]

/-- The newer entries of two maps represent the two sets together. -/
lemma Represents.newer {m m' : K → Option E} {P Q : E → Prop} (h : Represents key stamp m P)
    (h' : Represents key stamp m' Q) :
    Represents key stamp (fun k => newer stamp (m k) (m' k)) fun e => P e ∨ Q e where
  latest := by
    intro k w hw
    dsimp only [LastWriterWins.newer] at hw
    cases hright : m' k with
    | none =>
      rw [hright] at hw
      obtain ⟨hP, hk, hmax⟩ := h.latest hw
      exact ⟨Or.inl hP, hk, fun e he hek =>
        he.elim (hmax e · hek) fun hQ => absurd hek (h'.occupied hright e hQ)⟩
    | some b =>
      obtain ⟨hQ, hbk, hbmax⟩ := h'.latest hright
      rw [hright, Option.elim_some] at hw
      cases hleft : m k with
      | none =>
        rw [hleft] at hw
        obtain rfl : b = w := Option.some.inj hw
        exact ⟨Or.inr hQ, hbk, fun e he hek =>
          he.elim (fun hP => absurd hek (h.occupied hleft e hP)) (hbmax e · hek)⟩
      | some a =>
        obtain ⟨hP, hak, hamax⟩ := h.latest hleft
        rw [hleft] at hw
        dsimp only [join] at hw
        split at hw
        · rename_i hlt
          obtain rfl : b = w := Option.some.inj hw
          exact ⟨Or.inr hQ, hbk, fun e he hek =>
            he.elim (fun hP => (hamax e hP hek).trans hlt.le) (hbmax e · hek)⟩
        · rename_i hge
          obtain rfl : a = w := Option.some.inj hw
          exact ⟨Or.inl hP, hak, fun e he hek =>
            he.elim (hamax e · hek) fun hQ => (hbmax e hQ hek).trans (not_lt.mp hge)⟩
  occupied := by
    intro k hnone e he hek
    dsimp only [LastWriterWins.newer] at hnone
    cases hright : m' k with
    | none =>
      rw [hright] at hnone
      exact he.elim (h.occupied hnone e · hek) (h'.occupied hright e · hek)
    | some b =>
      rw [hright, Option.elim_some] at hnone
      cases hleft : m k with
      | none => simp [join, hleft] at hnone
      | some a =>
        simp only [join, hleft] at hnone
        split at hnone <;> cases hnone

variable [DecidableEq K]

/-- Giving an entry to a map adds it to the set the map represents. -/
lemma Represents.put {m : K → Option E} {P : E → Prop} (h : Represents key stamp m P) (e : E) :
    Represents key stamp (put key stamp m e) fun x => P x ∨ x = e where
  latest := by
    intro k w hw
    unfold LastWriterWins.put at hw
    by_cases hk : k = key e
    · subst hk
      rw [Function.update_self] at hw
      cases hcur : m (key e) with
      | none =>
        obtain rfl : e = w := by simpa [join, hcur] using hw
        refine ⟨Or.inr rfl, rfl, ?_⟩
        rintro x (hx | rfl) hkey
        · exact absurd hkey (h.occupied hcur x hx)
        · exact le_rfl
      | some c =>
        obtain ⟨hc, hckey, hmax⟩ := h.latest hcur
        by_cases hlt : stamp c < stamp e
        · obtain rfl : e = w := by simpa [join, hcur, hlt] using hw
          refine ⟨Or.inr rfl, rfl, ?_⟩
          rintro x (hx | rfl) hkey
          · exact (hmax x hx hkey).trans hlt.le
          · exact le_rfl
        · obtain rfl : c = w := by simpa [join, hcur, hlt] using hw
          refine ⟨Or.inl hc, hckey, ?_⟩
          rintro x (hx | rfl) hkey
          · exact hmax x hx hkey
          · exact not_lt.mp hlt
    · rw [Function.update_of_ne hk] at hw
      obtain ⟨hw, hwkey, hmax⟩ := h.latest hw
      refine ⟨Or.inl hw, hwkey, ?_⟩
      rintro x (hx | rfl) hkey
      · exact hmax x hx hkey
      · exact absurd hkey.symm hk
  occupied := by
    intro k hnone x hx hkey
    unfold LastWriterWins.put at hnone
    by_cases hk : k = key e
    · subst hk
      rw [Function.update_self] at hnone
      cases hcur : m (key e) with
      | none => simp [join, hcur] at hnone
      | some c =>
        simp only [join, hcur] at hnone
        split at hnone <;> cases hnone
    · rw [Function.update_of_ne hk] at hnone
      rcases hx with hx | rfl
      · exact h.occupied hnone x hx hkey
      · exact hk hkey.symm

lemma Represents.foldl_put {m : K → Option E} {P : E → Prop} (h : Represents key stamp m P)
    (es : List E) :
    Represents key stamp (es.foldl (LastWriterWins.put key stamp) m) fun x => P x ∨ x ∈ es := by
  induction es generalizing m P with
  | nil => simpa using h
  | cons e es ih =>
    rw [List.foldl_cons]
    simpa only [List.mem_cons, or_assoc] using ih (h.put e)

/-- A register keeps its entry when it is given nothing newer. -/
lemma foldl_put_of_not_newer {m : K → Option E} {k : K} {c : E} (hc : m k = some c) (es : List E)
    (hold : ∀ e ∈ es, key e = k → ¬stamp c < stamp e) :
    es.foldl (LastWriterWins.put key stamp) m k = some c := by
  induction es generalizing m with
  | nil => exact hc
  | cons e es ih =>
    rw [List.foldl_cons]
    refine ih ?_ fun x hx => hold x (List.mem_cons_of_mem e hx)
    unfold LastWriterWins.put
    by_cases hk : k = key e
    · subst hk
      simp [join, hc, hold e List.mem_cons_self rfl]
    · rw [Function.update_of_ne hk, hc]

variable (key stamp) in
/-- **Convergence.**  A map that has been given a list of entries holds the latest of them for
every key. -/
theorem represents_foldl_put (es : List E) :
    Represents key stamp (es.foldl (put key stamp) fun _ => none) (· ∈ es) := by
  have hempty : Represents key stamp (fun _ => none) fun _ => False := represents_empty
  simpa using hempty.foldl_put es

end LastWriterWins
