import Mathlib.Algebra.BigOperators.Group.Finset.Basic
import Mathlib.Algebra.Order.BigOperators.Group.Finset
import Mathlib.Data.Finset.Card
import Mathlib.Data.Finset.Union
import Mathlib.Data.List.Perm.Subperm
import Mathlib.Order.Interval.Finset.Nat

/-!
# Pieces that are taken greedily from a line

Items have occurrences on a line, and each occurrence of an item is a piece of the item's length.
An item takes its pieces from left to right: those of its occurrences that are free, each behind
the piece before it (`greedy`).  Several items take their pieces one after the other, and a later
item finds only what the earlier ones left (`run`).

No order of the items leaves a piece of an occurrence free, and all orders take as many pieces, only
if no two items would take pieces that overlap when each were the first (`apart_of_sound`); and then
each item takes the same pieces in every order (`run_of_apart`).  The items are those of a text: if
two occur at one place, then the one is a beginning of the other (`Items`).
-/

namespace GreedyCover

/-! ## One item -/

/-- The place is taken: it is one of the places, and no piece that is taken before reaches it. -/
def Taken (len : ℕ) (places : Finset ℕ) (p : ℕ) : Prop :=
  p ∈ places ∧ ∀ r, (h : r < p) → Taken len places r → r + len ≤ p
termination_by p

open Classical in
/-- The places that are taken from left to right. -/
noncomputable def greedy (len : ℕ) (places : Finset ℕ) : Finset ℕ :=
  places.filter (Taken len places)

variable {len : ℕ} {places places' : Finset ℕ} {p q : ℕ}

/-- A place is taken unless a piece that is taken before reaches it. -/
lemma mem_greedy :
    p ∈ greedy len places ↔ p ∈ places ∧ ∀ r ∈ greedy len places, r < p → r + len ≤ p := by
  classical
  unfold greedy
  simp only [Finset.mem_filter]
  constructor
  · rintro ⟨hp, htaken⟩
    rw [Taken] at htaken
    exact ⟨hp, fun r ⟨_, hr⟩ hlt => htaken.2 r hlt hr⟩
  · rintro ⟨hp, hbefore⟩
    refine ⟨hp, ?_⟩
    rw [Taken]
    refine ⟨hp, fun r hlt hr => hbefore r ⟨?_, hr⟩ hlt⟩
    rw [Taken] at hr
    exact hr.1

lemma greedy_subset : greedy len places ⊆ places := fun _ hp => (mem_greedy.mp hp).1

lemma add_le_of_mem_greedy (hp : p ∈ greedy len places) (hq : q ∈ greedy len places)
    (hlt : p < q) : p + len ≤ q :=
  (mem_greedy.mp hq).2 p hp hlt

/-- Each place is in a piece that is taken. -/
lemma exists_mem_greedy (hlen : 0 < len) (hp : p ∈ places) :
    ∃ r ∈ greedy len places, r ≤ p ∧ p < r + len := by
  by_cases htaken : p ∈ greedy len places
  · exact ⟨p, htaken, le_rfl, by omega⟩
  · rw [mem_greedy, not_and] at htaken
    have hbefore := htaken hp
    push Not at hbefore
    obtain ⟨r, hr, hlt, hreach⟩ := hbefore
    exact ⟨r, hr, hlt.le, hreach⟩

/-- What is taken is known from what it satisfies. -/
lemma eq_greedy {taken : Finset ℕ}
    (h : ∀ p, p ∈ taken ↔ p ∈ places ∧ ∀ r ∈ taken, r < p → r + len ≤ p) :
    taken = greedy len places := by
  ext p
  induction p using Nat.strong_induction_on with
  | _ p ih =>
    rw [h, mem_greedy]
    refine and_congr_right fun _ => forall_congr' fun r => ?_
    constructor
    · exact fun hr hmem hlt => hr ((ih r hlt).mpr hmem) hlt
    · exact fun hr hmem hlt => hr ((ih r hlt).mp hmem) hlt

/-- Up to the first place that is taken and goes away, the same places are taken. -/
lemma mem_greedy_iff_of_lt {n : ℕ} (hsub : places' ⊆ places)
    (hkeep : ∀ p ∈ greedy len places, p < n → p ∈ places') :
    ∀ p < n, p ∈ greedy len places' ↔ p ∈ greedy len places := by
  intro p
  induction p using Nat.strong_induction_on with
  | _ p ih =>
    intro hn
    constructor
    · intro hp
      rw [mem_greedy] at hp ⊢
      exact ⟨hsub hp.1, fun r hr hlt => hp.2 r ((ih r hlt (hlt.trans hn)).mpr hr) hlt⟩
    · intro hp
      have hmem := hkeep p hp hn
      rw [mem_greedy] at hp ⊢
      exact ⟨hmem, fun r hr hlt => hp.2 r ((ih r hlt (hlt.trans hn)).mp hr) hlt⟩

lemma greedy_eq_of_subset (hsub : places' ⊆ places) (hkeep : greedy len places ⊆ places') :
    greedy len places' = greedy len places := by
  ext p
  exact mem_greedy_iff_of_lt hsub (fun q hq _ => hkeep hq) p p.lt_succ_self

/-- No more pieces fit than are taken. -/
lemma card_le_card_greedy (hlen : 0 < len) {chosen : Finset ℕ} (hsub : chosen ⊆ places)
    (hchosen : ∀ p ∈ chosen, ∀ q ∈ chosen, p < q → p + len ≤ q) :
    chosen.card ≤ (greedy len places).card := by
  have hreach : ∀ p ∈ chosen, ∃ r ∈ greedy len places, r ≤ p ∧ p < r + len := fun p hp =>
    exists_mem_greedy hlen (hsub hp)
  choose! f hf using hreach
  refine Finset.card_le_card_of_injOn f (fun p hp => (hf p hp).1) fun p hp q hq heq => ?_
  -- two chosen places in one piece would overlap
  obtain ⟨-, hple, hplt⟩ := hf p hp
  obtain ⟨-, hqle, hqlt⟩ := hf q hq
  rcases lt_trichotomy p q with hlt | rfl | hlt
  · have := hchosen p hp q hq hlt
    omega
  · rfl
  · have := hchosen q hq p hp hlt
    omega


/-! ## Several items -/

/-- Items with their lengths and the places where they occur. -/
structure Items (ι : Type*) where
  len : ι → ℕ
  occ : ι → Finset ℕ
  len_pos : ∀ x, 0 < len x
  /-- Items of one length at one place are one item. -/
  eq_of_len : ∀ {x y p}, p ∈ occ x → p ∈ occ y → len x = len y → x = y
  /-- The shorter one of two items at one place is a beginning of the other. -/
  occ_subset : ∀ {x y p}, p ∈ occ x → p ∈ occ y → len x ≤ len y → occ y ⊆ occ x

/-- What is covered of a line. -/
@[ext]
structure Line where
  covered : Finset ℕ
  /-- Where the pieces start that cover them. -/
  starts : Finset ℕ
  /-- The start of a piece is covered. -/
  starts_subset : starts ⊆ covered
  /-- A piece covers what stands between its start and its end. -/
  joined : ∀ p, p + 1 ∈ covered → p + 1 ∈ starts ∨ p ∈ covered

/-- The line of which nothing is covered. -/
def Line.bare : Line where
  covered := ∅
  starts := ∅
  starts_subset := Finset.Subset.refl _
  joined _ h := absurd h (Finset.notMem_empty _)

/-- What pieces of one length cover. -/
def span (len : ℕ) (places : Finset ℕ) : Finset ℕ :=
  places.biUnion fun p => Finset.Ico p (p + len)

/-- What is covered is behind a start, and before the end of its piece. -/
@[simp]
lemma mem_span {i : ℕ} : i ∈ span len places ↔ ∃ p ∈ places, p ≤ i ∧ i < p + len := by
  simp only [span, Finset.mem_biUnion, Finset.mem_Ico]

variable {ι : Type*} (I : Items ι)

namespace Items

/-- The occurrences of an item of which nothing is covered. -/
def free (s : Line) (x : ι) : Finset ℕ :=
  (I.occ x).filter fun p => Disjoint (Finset.Ico p (p + I.len x)) s.covered

/-- The places where an item takes its pieces. -/
noncomputable def picks (s : Line) (x : ι) : Finset ℕ := greedy (I.len x) (I.free s x)

/-- An item takes its pieces. -/
noncomputable def take (s : Line) (x : ι) : Line where
  covered := s.covered ∪ span (I.len x) (I.picks s x)
  starts := s.starts ∪ I.picks s x
  starts_subset := by
    refine Finset.union_subset_union s.starts_subset fun p hp => mem_span.mpr ⟨p, hp, le_rfl, ?_⟩
    have := I.len_pos x
    omega
  joined p hp := by
    rcases Finset.mem_union.mp hp with hp | hp
    · rcases s.joined p hp with hstart | hbefore
      · exact Or.inl (Finset.mem_union_left _ hstart)
      · exact Or.inr (Finset.mem_union_left _ hbefore)
    · obtain ⟨q, hq, hle, hlt⟩ := mem_span.mp hp
      rcases hle.eq_or_lt with rfl | hbefore
      · exact Or.inl (Finset.mem_union_right _ hq)
      · exact Or.inr (Finset.mem_union_right _ (mem_span.mpr ⟨q, hq, by omega, by omega⟩))

/-- Items take their pieces one after the other. -/
noncomputable def run (s : Line) (xs : List ι) : Line := xs.foldl I.take s

variable {I} {s : Line} {x y : ι} {p q : ℕ}

@[simp]
lemma take_covered : (I.take s x).covered = s.covered ∪ span (I.len x) (I.picks s x) := rfl

@[simp]
lemma take_starts : (I.take s x).starts = s.starts ∪ I.picks s x := rfl

lemma mem_free :
    p ∈ I.free s x ↔ p ∈ I.occ x ∧ ∀ i, p ≤ i → i < p + I.len x → i ∉ s.covered := by
  simp only [free, Finset.mem_filter, Finset.disjoint_left, Finset.mem_Ico, and_imp]

lemma picks_subset : I.picks s x ⊆ I.free s x := greedy_subset

lemma free_subset {s' : Line} (h : s.covered ⊆ s'.covered) : I.free s' x ⊆ I.free s x := by
  intro p hp
  rw [mem_free] at hp ⊢
  exact ⟨hp.1, fun i hle hlt hi => hp.2 i hle hlt (h hi)⟩

lemma covered_subset_run (xs : List ι) : s.covered ⊆ (I.run s xs).covered := by
  induction xs generalizing s with
  | nil => exact Finset.Subset.refl _
  | cons x xs ih =>
    have htake : s.covered ⊆ (I.take s x).covered := Finset.subset_union_left
    exact htake.trans ih

/-- What is free behind an item was free, and does not overlap a piece of the item. -/
lemma mem_free_take : p ∈ I.free (I.take s x) y ↔ p ∈ I.free s y ∧
    ∀ q ∈ I.picks s x, q + I.len x ≤ p ∨ p + I.len y ≤ q := by
  have hx := I.len_pos x
  have hy := I.len_pos y
  simp only [mem_free, take_covered, Finset.mem_union, mem_span, not_or, not_exists, not_and]
  constructor
  · rintro ⟨hocc, hfree⟩
    refine ⟨⟨hocc, fun i hle hlt => (hfree i hle hlt).1⟩, fun q hq => ?_⟩
    have hp := (hfree p le_rfl (by omega)).2 q hq
    by_contra! hboth
    exact (hfree q (by omega) (by omega)).2 q hq le_rfl (by omega)
  · rintro ⟨⟨hocc, hfree⟩, hapart⟩
    refine ⟨hocc, fun i hle hlt => ⟨hfree i hle hlt, fun q hq hqi hiq => ?_⟩⟩
    have := hapart q hq
    omega

lemma free_take_self : I.free (I.take s x) x = ∅ := by
  refine Finset.eq_empty_of_forall_notMem fun p hp => ?_
  obtain ⟨hfree, hapart⟩ := mem_free_take.mp hp
  obtain ⟨r, hr, hle, hlt⟩ := exists_mem_greedy (I.len_pos x) hfree
  have hx := I.len_pos x
  have := hapart r hr
  omega

lemma picks_eq_empty (h : I.free s x = ∅) : I.picks s x = ∅ :=
  Finset.subset_empty.mp (h ▸ picks_subset)

lemma take_eq_self (h : I.free s x = ∅) : I.take s x = s := by
  have hpicks := picks_eq_empty h
  ext p
  · simp [hpicks]
  · simp [hpicks]

lemma free_run_eq_empty {xs : List ι} (h : x ∈ xs) : I.free (I.run s xs) x = ∅ := by
  obtain ⟨before, after, rfl⟩ := List.append_of_mem h
  have hrun : I.run s (before ++ x :: after) = I.run (I.take (I.run s before) x) after :=
    List.foldl_append
  rw [hrun]
  exact Finset.subset_empty.mp (free_take_self (I := I) ▸ free_subset (covered_subset_run after))

/-- Items that took their pieces may stand at the end once more. -/
lemma run_append_of_subset {xs ys : List ι} (h : ys ⊆ xs) : I.run s (xs ++ ys) = I.run s xs := by
  have hrun : I.run s (xs ++ ys) = I.run (I.run s xs) ys := List.foldl_append
  rw [hrun]
  have hys : ∀ y ∈ ys, I.free (I.run s xs) y = ∅ := fun y hy => free_run_eq_empty (h hy)
  clear h hrun
  generalize I.run s xs = t at hys ⊢
  induction ys with
  | nil => rfl
  | cons y ys ih =>
    have htake : I.run t (y :: ys) = I.run (I.take t y) ys := rfl
    rw [htake, take_eq_self (hys y List.mem_cons_self)]
    exact ih fun z hz => hys z (List.mem_cons_of_mem y hz)

/-- What is covered at the end was covered before, or is in a piece that was free. -/
lemma mem_covered_run {xs : List ι} {i : ℕ} (h : i ∈ (I.run s xs).covered) :
    i ∈ s.covered ∨ ∃ x ∈ xs, ∃ p ∈ I.free s x, p ≤ i ∧ i < p + I.len x := by
  induction xs generalizing s with
  | nil => exact Or.inl h
  | cons x xs ih =>
    rcases ih h with hcovered | ⟨y, hy, p, hp, hle, hlt⟩
    · rcases Finset.mem_union.mp hcovered with hcovered | hspan
      · exact Or.inl hcovered
      · obtain ⟨p, hp, hle, hlt⟩ := mem_span.mp hspan
        exact Or.inr ⟨x, List.mem_cons_self, p, picks_subset hp, hle, hlt⟩
    · exact Or.inr ⟨y, List.mem_cons_of_mem x hy, p, (mem_free_take.mp hp).1, hle, hlt⟩

/-! ## Items that do not meet -/

variable [DecidableEq ι]

variable (I) in
omit [DecidableEq ι] in
/-- No two of the items would take pieces that overlap. -/
def Apart (s : Line) (T : Finset ι) : Prop :=
  ∀ x ∈ T, ∀ y ∈ T, x ≠ y → ∀ p ∈ I.picks s x, ∀ q ∈ I.picks s y,
    p + I.len x ≤ q ∨ q + I.len y ≤ p

/-- What an item takes behind another one that it does not meet. -/
lemma picks_take (h : x ≠ y → ∀ p ∈ I.picks s x, ∀ q ∈ I.picks s y,
    p + I.len x ≤ q ∨ q + I.len y ≤ p) :
    I.picks (I.take s x) y = if y = x then ∅ else I.picks s y := by
  by_cases hyx : y = x
  · rw [if_pos hyx, hyx]
    exact picks_eq_empty free_take_self
  · rw [if_neg hyx]
    exact greedy_eq_of_subset (fun p hp => (mem_free_take.mp hp).1) fun q hq =>
      mem_free_take.mpr ⟨picks_subset hq, fun p hp => h (Ne.symm hyx) p hp q hq⟩

/-- What is left out of a union is in the set beside it. -/
lemma union_biUnion_eq {f f' : ι → Finset ℕ} {T : Finset ι}
    (h : ∀ y ∈ T, f' y = if y = x then ∅ else f y) :
    f x ∪ T.biUnion f' = f x ∪ T.biUnion f := by
  have hrest : ∀ y ∈ T, f x ∪ f' y = f x ∪ f y := by
    intro y hy
    rw [h y hy]
    split
    next heq => rw [heq, Finset.union_empty, Finset.union_idempotent]
    next => rfl
  ext i
  simp only [Finset.mem_union, Finset.mem_biUnion]
  have hmem (y : ι) (hy : y ∈ T) : i ∈ f x ∨ i ∈ f' y ↔ i ∈ f x ∨ i ∈ f y := by
    rw [← Finset.mem_union, ← Finset.mem_union, hrest y hy]
  constructor
  · rintro (hx | ⟨y, hy, hi⟩)
    · exact Or.inl hx
    · exact ((hmem y hy).mp (Or.inr hi)).imp_right fun hi => ⟨y, hy, hi⟩
  · rintro (hx | ⟨y, hy, hi⟩)
    · exact Or.inl hx
    · exact ((hmem y hy).mpr (Or.inr hi)).imp_right fun hi => ⟨y, hy, hi⟩

/-- Items that do not meet take what each of them would take as the first. -/
theorem run_of_apart {xs : List ι} (h : I.Apart s xs.toFinset) :
    (I.run s xs).covered =
        s.covered ∪ xs.toFinset.biUnion (fun x => span (I.len x) (I.picks s x)) ∧
      (I.run s xs).starts = s.starts ∪ xs.toFinset.biUnion (I.picks s) := by
  induction xs generalizing s with
  | nil => simp [run]
  | cons x xs ih =>
    have hrun : I.run s (x :: xs) = I.run (I.take s x) xs := rfl
    have hpicks : ∀ y ∈ xs, I.picks (I.take s x) y = if y = x then ∅ else I.picks s y :=
      fun y hy => picks_take (h x (by simp) y (by simp [hy]))
    have hapart : I.Apart (I.take s x) xs.toFinset := by
      have hsub : ∀ y ∈ xs.toFinset, I.picks (I.take s x) y ⊆ I.picks s y := by
        intro y hy
        rw [hpicks y (List.mem_toFinset.mp hy)]
        split
        · exact Finset.empty_subset _
        · exact Finset.Subset.refl _
      intro y hy z hz hne p hp q hq
      exact h y (by simp [List.mem_toFinset.mp hy]) z (by simp [List.mem_toFinset.mp hz]) hne p
        (hsub y hy hp) q (hsub z hz hq)
    obtain ⟨hcovered, hstarts⟩ := ih hapart
    have hspans : ∀ y ∈ xs.toFinset, span (I.len y) (I.picks (I.take s x) y) =
        if y = x then ∅ else span (I.len y) (I.picks s y) := by
      intro y hy
      rw [hpicks y (List.mem_toFinset.mp hy)]
      split
      · rfl
      · rfl
    rw [hrun, hcovered, hstarts, List.toFinset_cons, Finset.biUnion_insert, Finset.biUnion_insert]
    refine ⟨?_, ?_⟩
    · rw [take_covered, Finset.union_assoc,
        union_biUnion_eq (f := fun y => span (I.len y) (I.picks s y)) hspans]
    · rw [take_starts, Finset.union_assoc,
        union_biUnion_eq fun y hy => hpicks y (List.mem_toFinset.mp hy)]

/-- Items that do not meet: how many pieces they take, and how much these cover. -/
lemma card_run_of_apart {xs : List ι} {T : Finset ι} (hxs : xs.toFinset = T) (h : I.Apart s T) :
    (I.run s xs).starts.card = s.starts.card + ∑ x ∈ T, (I.picks s x).card ∧
      (I.run s xs).covered.card =
        s.covered.card + ∑ x ∈ T, (I.picks s x).card * I.len x := by
  subst hxs
  obtain ⟨hcovered, hstarts⟩ := run_of_apart h
  have hspan (x : ι) : (span (I.len x) (I.picks s x)).card = (I.picks s x).card * I.len x := by
    unfold span
    rw [Finset.card_biUnion, Finset.sum_congr rfl fun p _ => Nat.card_Ico p (p + I.len x)]
    · simp
    · intro p hp q hq hne
      refine Finset.disjoint_left.mpr fun i hi hi' => ?_
      rw [Finset.mem_Ico] at hi hi'
      rcases Nat.lt_or_gt_of_ne hne with hlt | hlt
      · have := add_le_of_mem_greedy hp hq hlt
        omega
      · have := add_le_of_mem_greedy hq hp hlt
        omega
  -- what is taken is free, hence not covered
  have hnew {x : ι} {p i : ℕ} (hp : p ∈ I.picks s x) (hle : p ≤ i) (hlt : i < p + I.len x) :
      i ∉ s.covered := (mem_free.mp (picks_subset hp)).2 i hle hlt
  constructor
  · rw [hstarts, Finset.card_union_of_disjoint, Finset.card_biUnion]
    · intro x hx y hy hne
      refine Finset.disjoint_left.mpr fun p hp hq => ?_
      have hx' := I.len_pos x
      have hy' := I.len_pos y
      have := h x hx y hy hne p hp p hq
      omega
    · rw [Finset.disjoint_left]
      intro p hp hmem
      obtain ⟨x, -, hpick⟩ := Finset.mem_biUnion.mp hmem
      have hx' := I.len_pos x
      exact hnew hpick le_rfl (by omega) (s.starts_subset hp)
  · rw [hcovered, Finset.card_union_of_disjoint, Finset.card_biUnion,
      Finset.sum_congr rfl fun x _ => hspan x]
    · intro x hx y hy hne
      refine Finset.disjoint_left.mpr fun i hi hi' => ?_
      obtain ⟨p, hp, hle, hlt⟩ := mem_span.mp hi
      obtain ⟨q, hq, hle', hlt'⟩ := mem_span.mp hi'
      have := h x hx y hy hne p hp q hq
      omega
    · rw [Finset.disjoint_left]
      intro i hi hmem
      obtain ⟨x, -, hspan⟩ := Finset.mem_biUnion.mp hmem
      obtain ⟨p, hp, hle, hlt⟩ := mem_span.mp hspan
      exact hnew hp hle hlt hi

/-! ## Items whose order does not matter -/

variable (I) in
/-- In every order the items cover all of their free occurrences, with as many pieces. -/
structure Sound (s : Line) (T : Finset ι) (n : ℕ) : Prop where
  /-- Each free occurrence is covered in the end. -/
  covers : ∀ xs : List ι, xs.Nodup → xs.toFinset = T → ∀ x ∈ T, ∀ p ∈ I.free s x, ∀ i,
    p ≤ i → i < p + I.len x → i ∈ (I.run s xs).covered
  /-- The number of the pieces does not depend on the order. -/
  card : ∀ xs : List ι, xs.Nodup → xs.toFinset = T → (I.run s xs).starts.card = n

variable {T : Finset ι} {n : ℕ}

lemma nodup_cons_of_erase {xs : List ι} (hx : x ∈ T) (hnodup : xs.Nodup)
    (hxs : xs.toFinset = T.erase x) : (x :: xs).Nodup ∧ (x :: xs).toFinset = T := by
  refine ⟨List.nodup_cons.mpr ⟨fun hmem => ?_, hnodup⟩, ?_⟩
  · rw [← List.mem_toFinset, hxs] at hmem
    exact Finset.notMem_erase x T hmem
  · rw [List.toFinset_cons, hxs, Finset.insert_erase hx]

/-- An item that finds nothing when it is not the first may be put behind the others. -/
lemma run_append_of_gone {xs : List ι} (hx : x ∈ T) (hother : ∃ y ∈ T, y ≠ x)
    (hgone : ∀ y ∈ T, y ≠ x → I.free (I.take s y) x = ∅) (hnodup : xs.Nodup)
    (hxs : xs.toFinset = T.erase x) :
    (xs ++ [x]).Nodup ∧ (xs ++ [x]).toFinset = T ∧ I.run s (xs ++ [x]) = I.run s xs := by
  have hmem {y : ι} (hy : y ∈ xs) : y ∈ T.erase x := hxs ▸ List.mem_toFinset.mpr hy
  have hx' : x ∉ xs := fun hy => Finset.notMem_erase x T (hmem hy)
  refine ⟨hnodup.append (List.nodup_singleton x) (by simpa using hx'), ?_, ?_⟩
  · rw [List.toFinset_append, hxs]
    ext y
    by_cases hyx : y = x
    · simp [hyx, hx]
    · simp [hyx]
  · have hrun : I.run s (xs ++ [x]) = I.take (I.run s xs) x := List.foldl_append
    rw [hrun]
    apply take_eq_self
    cases xs with
    | nil =>
      obtain ⟨y, hy, hne⟩ := hother
      have hempty : y ∈ ([] : List ι).toFinset := hxs ▸ Finset.mem_erase.mpr ⟨hne, hy⟩
      exact absurd hempty (Finset.notMem_empty y)
    | cons y ys =>
      obtain ⟨hne, hy⟩ := Finset.mem_erase.mp (hmem List.mem_cons_self)
      exact Finset.subset_empty.mp (hgone y hy hne ▸ free_subset (covered_subset_run ys))

lemma Sound.take (h : I.Sound s T n) (hx : x ∈ T) : I.Sound (I.take s x) (T.erase x) n where
  covers xs hnodup hxs y hy p hp i hle hlt := by
    obtain ⟨hnodup', hxs'⟩ := nodup_cons_of_erase hx hnodup hxs
    exact h.covers (x :: xs) hnodup' hxs' y (Finset.mem_of_mem_erase hy) p
      (mem_free_take.mp hp).1 i hle hlt
  card xs hnodup hxs := by
    obtain ⟨hnodup', hxs'⟩ := nodup_cons_of_erase hx hnodup hxs
    exact h.card (x :: xs) hnodup' hxs'

lemma Sound.erase (h : I.Sound s T n) (hx : x ∈ T) (hother : ∃ y ∈ T, y ≠ x)
    (hgone : ∀ y ∈ T, y ≠ x → I.free (I.take s y) x = ∅) : I.Sound s (T.erase x) n where
  covers xs hnodup hxs y hy p hp i hle hlt := by
    obtain ⟨hnodup', hxs', hrun⟩ := run_append_of_gone hx hother hgone hnodup hxs
    exact hrun ▸ h.covers (xs ++ [x]) hnodup' hxs' y (Finset.mem_of_mem_erase hy) p hp i hle hlt
  card xs hnodup hxs := by
    obtain ⟨hnodup', hxs', hrun⟩ := run_append_of_gone hx hother hgone hnodup hxs
    exact hrun ▸ h.card (xs ++ [x]) hnodup' hxs'

variable (I) in
/-- A piece that an item would take starts at the place, in a piece that another one would take. -/
def MeetAt (s : Line) (T : Finset ι) (q : ℕ) : Prop :=
  ∃ x ∈ T, ∃ y ∈ T, x ≠ y ∧ q ∈ I.picks s y ∧ ∃ p ∈ I.picks s x, p ≤ q ∧ q < p + I.len x

omit [DecidableEq ι] in
lemma apart_of_not_meetAt (h : ∀ q, ¬I.MeetAt s T q) : I.Apart s T := by
  intro x hx y hy hne p hp q hq
  by_contra! hboth
  rcases le_total p q with hle | hle
  · exact h q ⟨x, hx, y, hy, hne, hq, p, hp, hle, hboth.1⟩
  · exact h p ⟨y, hy, x, hx, hne.symm, hp, q, hq, hle, hboth.2⟩

/-- At the first place where items meet, both pieces start. -/
lemma eq_of_first_meet (h : I.Sound s T n) (hx : x ∈ T) (hy : y ∈ T) (hne : x ≠ y)
    (hapart : I.Apart (I.take s y) (T.erase y)) (hp : p ∈ I.picks s x) (hq : q ∈ I.picks s y)
    (hle : p ≤ q) (hlt : q < p + I.len x) (hfirst : ∀ r < q, ¬I.MeetAt s T r) : p = q := by
  by_contra hpq
  have hpq : p < q := lt_of_le_of_ne hle hpq
  have hfree := mem_free.mp (picks_subset hp)
  -- the piece of `x` is covered when `y` is the first
  have hcovered : p ∈ (I.run (I.take s y) (T.erase y).toList).covered := by
    obtain ⟨hnodup, hcons⟩ :=
      nodup_cons_of_erase hy (Finset.nodup_toList _) (Finset.toList_toFinset _)
    exact h.covers _ hnodup hcons x hx p (picks_subset hp) p le_rfl (by omega)
  rw [(run_of_apart (by rwa [Finset.toList_toFinset])).1, Finset.toList_toFinset] at hcovered
  rcases Finset.mem_union.mp hcovered with hcovered | hcovered
  · -- not by `y`, which would meet `x` earlier
    rcases Finset.mem_union.mp hcovered with hcovered | hcovered
    · exact hfree.2 p le_rfl (by omega) hcovered
    · obtain ⟨q', hq', hle', hlt'⟩ := mem_span.mp hcovered
      exact hfirst p hpq ⟨y, hy, x, hx, hne.symm, hp, q', hq', hle', hlt'⟩
  · -- nor by another item, which would take that piece as the first as well
    obtain ⟨z, hz, hspan⟩ := Finset.mem_biUnion.mp hcovered
    obtain ⟨hzy, hz⟩ := Finset.mem_erase.mp hz
    obtain ⟨r, hr, hrp, hpr⟩ := mem_span.mp hspan
    have hrx : z = x → r < p := by
      rintro rfl
      refine lt_of_le_of_ne hrp ?_
      rintro rfl
      have := (mem_free_take.mp (picks_subset hr)).2 q hq
      have hlen := I.len_pos y
      omega
    have hkeep : ∀ g ∈ I.picks s z, g < r + 1 → g ∈ I.free (I.take s y) z := by
      intro g hg hgr
      refine mem_free_take.mpr ⟨picks_subset hg, fun q' hq' => ?_⟩
      by_contra! hboth
      rcases le_or_gt q' g with hle' | hlt'
      · exact hfirst g (by omega) ⟨y, hy, z, hz, hzy.symm, hg, q', hq', hle', hboth.1⟩
      · have hqq : q ≤ q' := by
          by_contra! hearlier
          exact hfirst q' hearlier ⟨z, hz, y, hy, hzy, hq', g, hg, hlt'.le, hboth.2⟩
        by_cases hzx : z = x
        · subst hzx
          have := add_le_of_mem_greedy hg hp (by have := hrx rfl; omega)
          omega
        · exact hfirst p hpq ⟨z, hz, x, hx, hzx, hp, g, hg, by omega, by omega⟩
    have hrs : r ∈ I.picks s z :=
      (mem_greedy_iff_of_lt (fun g hg => (mem_free_take.mp hg).1) hkeep r r.lt_succ_self).mp hr
    by_cases hzx : z = x
    · subst hzx
      have := add_le_of_mem_greedy hrs hp (hrx rfl)
      omega
    · exact hfirst p hpq ⟨z, hz, x, hx, hzx, hp, r, hrs, hrp, hpr⟩

omit [DecidableEq ι] in
lemma free_subset_of_nested {v w : ι} (hocc : I.occ w ⊆ I.occ v) (hlen : I.len v ≤ I.len w) :
    I.free s w ⊆ I.free s v := by
  intro p hp
  rw [mem_free] at hp ⊢
  exact ⟨hocc hp.1, fun i hle hlt => hp.2 i hle (by omega)⟩

/-- The longer one of two nested items finds nothing when it is not the first. -/
lemma free_take_of_nested {v w u : ι} (hocc : I.occ w ⊆ I.occ v) (hlen : I.len v < I.len w)
    (hv : v ∈ T) (hw : w ∈ T) (hu : u ≠ w) (hapart : I.Apart (I.take s u) (T.erase u)) :
    I.free (I.take s u) w = ∅ := by
  refine Finset.eq_empty_of_forall_notMem fun p hp => ?_
  by_cases huv : v = u
  · have hfree := free_subset_of_nested hocc hlen.le hp
    rw [huv, free_take_self] at hfree
    exact Finset.notMem_empty p hfree
  · -- otherwise the shorter item takes a piece that meets the first one of the longer
    obtain ⟨g, hg, -, -⟩ := exists_mem_greedy (I.len_pos w) hp
    obtain ⟨r, hr, hle, hlt⟩ := exists_mem_greedy (I.len_pos v)
      (free_subset_of_nested hocc hlen.le (picks_subset hg))
    have hne : v ≠ w := by
      rintro rfl
      exact absurd hlen (lt_irrefl _)
    have := hapart v (Finset.mem_erase.mpr ⟨huv, hv⟩) w (Finset.mem_erase.mpr ⟨hu.symm, hw⟩) hne
      r hr g hg
    omega

omit [DecidableEq ι] in
lemma card_picks_take_le (u x : ι) :
    (I.picks (I.take s u) x).card ≤ (I.picks s x).card :=
  card_le_card_greedy (I.len_pos x) (fun _ hp => (mem_free_take.mp (picks_subset hp)).1)
    fun _ hp _ hq hlt => add_le_of_mem_greedy hp hq hlt

omit [DecidableEq ι] in
/-- Nested items together take no more pieces than the shorter one as the first. -/
lemma card_picks_nested_le {v w : ι} (hocc : I.occ w ⊆ I.occ v) (hlen : I.len v ≤ I.len w) :
    (I.picks s w).card + (I.picks (I.take s w) v).card ≤ (I.picks s v).card := by
  have hapart : ∀ p ∈ I.picks (I.take s w) v, ∀ q ∈ I.picks s w,
      q + I.len w ≤ p ∨ p + I.len v ≤ q := fun p hp => (mem_free_take.mp (picks_subset hp)).2
  have hpos := I.len_pos v
  have hdisjoint : Disjoint (I.picks s w) (I.picks (I.take s w) v) :=
    Finset.disjoint_left.mpr fun p hp hq => by
      have := hapart p hq p hp
      omega
  rw [← Finset.card_union_of_disjoint hdisjoint]
  refine card_le_card_greedy hpos (fun p hp => ?_) fun p hp q hq hlt => ?_
  · rcases Finset.mem_union.mp hp with hp | hp
    · exact free_subset_of_nested hocc hlen (picks_subset hp)
    · exact (mem_free_take.mp (picks_subset hp)).1
  · rcases Finset.mem_union.mp hp with hp | hp <;> rcases Finset.mem_union.mp hq with hq | hq
    · have := add_le_of_mem_greedy hp hq hlt
      omega
    · have := hapart q hq p hp
      omega
    · have := hapart p hp q hq
      omega
    · exact add_le_of_mem_greedy hp hq hlt

/-- Where the order does not matter, what is covered is the same in all orders. -/
lemma Sound.covered_subset (h : I.Sound s T n) {xs ys : List ι} (hys : ys.Nodup)
    (hxT : xs.toFinset = T) (hyT : ys.toFinset = T) :
    (I.run s xs).covered ⊆ (I.run s ys).covered := by
  intro i hi
  rcases mem_covered_run hi with hi | ⟨x, hx, p, hp, hle, hlt⟩
  · exact covered_subset_run ys hi
  · exact h.covers ys hys hyT x (hxT ▸ List.mem_toFinset.mpr hx) p hp i hle hlt

/-- A sum over items is at most another one, and less in one item by as much as is missing: then the
other items have the same. -/
lemma sum_mul_eq {T : Finset ι} {v : ι} (hv : v ∈ T) {f c m : ι → ℕ} {g : ℕ}
    (hle : ∀ x ∈ T, c x ≤ f x) (hfirst : g + c v ≤ f v)
    (hsum : ∑ x ∈ T, f x = g + ∑ x ∈ T, c x) :
    ∑ x ∈ T, f x * m x = g * m v + ∑ x ∈ T, c x * m x := by
  have hrest : ∑ x ∈ T.erase v, c x ≤ ∑ x ∈ T.erase v, f x :=
    Finset.sum_le_sum fun x hx => hle x (Finset.mem_of_mem_erase hx)
  rw [← Finset.add_sum_erase T f hv, ← Finset.add_sum_erase T c hv] at hsum
  have hfv : f v = g + c v := by omega
  have heq : ∑ x ∈ T.erase v, c x = ∑ x ∈ T.erase v, f x := by omega
  have hsame : ∀ x ∈ T.erase v, c x = f x :=
    (Finset.sum_eq_sum_iff_of_le fun x hx => hle x (Finset.mem_of_mem_erase hx)).mp heq
  rw [← Finset.add_sum_erase T (fun x => f x * m x) hv,
    ← Finset.add_sum_erase T (fun x => c x * m x) hv, hfv,
    Finset.sum_congr rfl fun x hx => by rw [← hsame x hx], Nat.add_mul, Nat.add_assoc]

/-- Where the order does not matter, no two items would take pieces at one place. -/
lemma not_nested {v w : ι} (h : I.Sound s T n) (hv : v ∈ T) (hw : w ∈ T)
    (hocc : I.occ w ⊆ I.occ v) (hlen : I.len v < I.len w) (hpick : (I.picks s w).Nonempty)
    (ih : ∀ u ∈ T, ∀ s', I.Sound s' (T.erase u) n → I.Apart s' (T.erase u)) : False := by
  have hne : v ≠ w := by
    rintro rfl
    exact absurd hlen (lt_irrefl _)
  have hvT : v ∈ T.erase w := Finset.mem_erase.mpr ⟨hne, hv⟩
  have hgone : ∀ u ∈ T, u ≠ w → I.free (I.take s u) w = ∅ := fun u hu huw =>
    free_take_of_nested hocc hlen hv hw huw (ih u hu _ (h.take hu))
  -- without the longer item, and with the longer item first, the others are apart
  have hwithout : I.Sound s (T.erase w) n := h.erase hw ⟨v, hv, hne⟩ hgone
  have hbehind : I.Sound (I.take s w) (T.erase w) n := h.take hw
  have hnodup : (T.erase w).toList.Nodup := Finset.nodup_toList _
  have hlist : (T.erase w).toList.toFinset = T.erase w := Finset.toList_toFinset _
  obtain ⟨hstarts, hcovered⟩ := card_run_of_apart hlist (ih w hw _ hwithout)
  obtain ⟨hstarts', hcovered'⟩ := card_run_of_apart hlist (ih w hw _ hbehind)
  have hone : I.Apart s {w} := fun x hx y hy hxy =>
    absurd ((Finset.mem_singleton.mp hx).trans (Finset.mem_singleton.mp hy).symm) hxy
  have hw' : [w].toFinset = {w} := rfl
  obtain ⟨hfirst, hfirst'⟩ := card_run_of_apart hw' hone
  have htake : I.run s [w] = I.take s w := rfl
  rw [htake, Finset.sum_singleton] at hfirst hfirst'
  -- both orders take as many pieces and cover the same
  have hcard := hwithout.card _ hnodup hlist
  have hcard' := hbehind.card _ hnodup hlist
  have hsum : ∑ x ∈ T.erase w, (I.picks s x).card =
      (I.picks s w).card + ∑ x ∈ T.erase w, (I.picks (I.take s w) x).card := by omega
  have hsame : (I.run s (T.erase w).toList).covered =
      (I.run (I.take s w) (T.erase w).toList).covered := by
    obtain ⟨hcons, hcons'⟩ := nodup_cons_of_erase hw hnodup hlist
    obtain ⟨hlast, hlast', hrun⟩ := run_append_of_gone hw ⟨v, hv, hne⟩ hgone hnodup hlist
    rw [← hrun]
    exact (h.covered_subset hcons hlast' hcons').antisymm (h.covered_subset hlast hcons' hlast')
  -- then the pieces of the longer item are as long as those that the shorter one loses
  have hmul := sum_mul_eq hvT (m := I.len) (fun x _ => card_picks_take_le w x)
    (card_picks_nested_le hocc hlen.le) hsum
  have hcount : (I.picks s w).card * I.len v = (I.picks s w).card * I.len w := by
    rw [hsame] at hcovered
    omega
  exact absurd (Nat.eq_of_mul_eq_mul_left (Finset.card_pos.mpr hpick) hcount) hlen.ne

/-- If the items cover all of their occurrences in every order, with as many pieces, then no two of
them would take pieces that overlap. -/
theorem apart_of_sound (h : I.Sound s T n) : I.Apart s T := by
  induction T using Finset.strongInduction generalizing s with
  | H T ih =>
    have hother : ∀ u ∈ T, ∀ s', I.Sound s' (T.erase u) n → I.Apart s' (T.erase u) :=
      fun u hu s' hs' => ih (T.erase u) (Finset.erase_ssubset hu) hs'
    refine apart_of_not_meetAt fun q => ?_
    induction q using Nat.strong_induction_on with
    | _ q hfirst =>
      rintro ⟨x, hx, y, hy, hne, hq, p, hp, hle, hlt⟩
      obtain rfl : p = q :=
        eq_of_first_meet h hx hy hne (hother y hy _ (h.take hy)) hp hq hle hlt hfirst
      have hxocc := (mem_free.mp (picks_subset hp)).1
      have hyocc := (mem_free.mp (picks_subset hq)).1
      rcases lt_trichotomy (I.len x) (I.len y) with hlen | hlen | hlen
      · exact not_nested h hx hy (I.occ_subset hxocc hyocc hlen.le) hlen ⟨p, hq⟩ hother
      · exact hne (I.eq_of_len hxocc hyocc hlen)
      · exact not_nested h hy hx (I.occ_subset hyocc hxocc hlen.le) hlen ⟨p, hp⟩ hother

end Items

end GreedyCover
