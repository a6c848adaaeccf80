import Mathlib.Data.List.Sort

/-!
# The first page of a merged listing

Several sources have lists of rows; the rows are merged, sorted, and cut to the first `n`.  The sort
is stable (`List.insertionSort`), so rows that compare equal stay in the order of their sources.
When every source sorts and cuts its own rows first, the page stays the same
(`firsts_append_flatMap`): a row among the first `n` of all is among the first `n` of its source.

`filter_take_of_sorted` says what a page has of the rows of one rank: those that fit on it behind
the rows of a better rank.
-/

namespace StablePage

variable {α : Type*} (r : α → α → Prop) [DecidableRel r]

/-- The first rows in the order. -/
def firsts (n : ℕ) (l : List α) : List α := (l.insertionSort r).take n

/-- Insert rows into a sorted list, the last one first. -/
def mergeInto (base l : List α) : List α := l.foldr (List.orderedInsert r) base

variable {r}

lemma insertionSort_append (l₁ l₂ : List α) :
    (l₁ ++ l₂).insertionSort r = mergeInto r (l₂.insertionSort r) l₁ := by
  unfold List.insertionSort mergeInto
  rw [List.foldr_append]

/-! ## Cutting the base -/

/-- The first rows after an insertion depend on the first rows before it. -/
lemma take_orderedInsert (a : α) (n : ℕ) (l : List α) :
    ((l.take n).orderedInsert r a).take n = (l.orderedInsert r a).take n := by
  induction l generalizing n with
  | nil => rw [List.take_nil]
  | cons b l ih =>
    cases n with
    | zero => rw [List.take_zero, List.take_zero]
    | succ n =>
      rw [List.take_succ_cons, List.orderedInsert_cons, List.orderedInsert_cons]
      split
      · rw [List.take_succ_cons, List.take_succ_cons]
        cases n with
        | zero => rw [List.take_zero, List.take_zero]
        | succ n => rw [List.take_succ_cons, List.take_succ_cons, List.take_take, Nat.min_eq_left
            (Nat.le_succ n)]
      · rw [List.take_succ_cons, List.take_succ_cons, ih]

/-- The first rows after insertions depend on the first rows before them. -/
lemma take_mergeInto (n : ℕ) (base l : List α) :
    (mergeInto r (base.take n) l).take n = (mergeInto r base l).take n := by
  induction l with
  | nil =>
    unfold mergeInto
    rw [List.foldr_nil, List.foldr_nil, List.take_take, Nat.min_self]
  | cons a l ih =>
    unfold mergeInto at ih ⊢
    rw [List.foldr_cons, List.foldr_cons, ← take_orderedInsert, ih, take_orderedInsert]

section Order

variable [IsTrans α r] [Std.Total r]

lemma firsts_append_right (n : ℕ) (l₁ l₂ : List α) :
    firsts r n (l₁ ++ firsts r n l₂) = firsts r n (l₁ ++ l₂) := by
  have hsorted : (firsts r n l₂).Pairwise r :=
    (List.pairwise_insertionSort r l₂).sublist (List.take_sublist _ _)
  have hpage : (firsts r n l₂).insertionSort r = (l₂.insertionSort r).take n :=
    hsorted.insertionSort_eq
  unfold firsts at hpage ⊢
  rw [insertionSort_append, insertionSort_append, hpage, take_mergeInto]

/-! ## Cutting what is inserted -/

omit [Std.Total r] in
/-- Rows that do not compare equal can be inserted in either order. -/
lemma orderedInsert_comm {a b : α} (hba : r b a) (hab : ¬r a b) (l : List α) :
    (l.orderedInsert r a).orderedInsert r b = (l.orderedInsert r b).orderedInsert r a := by
  induction l with
  | nil => simp [hba, hab]
  | cons c l ih =>
    by_cases hac : r a c
    · have hbc : r b c := Trans.trans hba hac
      simp [hac, hbc, hba, hab]
    · by_cases hbc : r b c
      · simp [hac, hbc, hab]
      · simp [hac, hbc, ih]

/-- Sorting rows before they are inserted makes no difference. -/
lemma mergeInto_insertionSort (base l : List α) :
    mergeInto r base (l.insertionSort r) = mergeInto r base l := by
  -- a row may be inserted into the rows to come, or after them
  have hinsert : ∀ a (l : List α),
      mergeInto r base (l.orderedInsert r a) = (mergeInto r base l).orderedInsert r a := by
    intro a l
    induction l with
    | nil => rfl
    | cons b l ih =>
      rw [List.orderedInsert_cons]
      split
      · rfl
      · rename_i hab
        have hba : r b a := (Std.Total.total a b).resolve_left hab
        unfold mergeInto at ih ⊢
        rw [List.foldr_cons, List.foldr_cons, ih, orderedInsert_comm hba hab]
  induction l with
  | nil => rfl
  | cons a l ih =>
    rw [List.insertionSort_cons, hinsert, ih]
    rfl

omit [IsTrans α r] [Std.Total r] in
/-- A row goes into the first of two lists, if it comes before a row there, or else into the
second. -/
lemma orderedInsert_append (a : α) (u v : List α) :
    (u ++ v).orderedInsert r a =
      if ∃ b ∈ u, r a b then u.orderedInsert r a ++ v else u ++ v.orderedInsert r a := by
  induction u with
  | nil => simp
  | cons b u ih =>
    rw [List.cons_append, List.orderedInsert_cons, List.orderedInsert_cons, ih]
    by_cases hab : r a b
    · simp [hab]
    · by_cases hu : ∃ b ∈ u, r a b
      · simp [hab, hu]
      · simp [hab, hu]

omit [Std.Total r] in
/-- A row that none of the rows inserted after it comes behind is found behind all of these. -/
lemma exists_split_mergeInto {c : α} {l : List α} (hl : ∀ a ∈ l, r a c) (base : List α) :
    ∃ u v, mergeInto r base l = u ++ v ∧ mergeInto r (base.orderedInsert r c) l = u ++ c :: v ∧
      l.length ≤ u.length ∧ ∀ d ∈ v.head?, r c d := by
  induction l with
  | nil =>
    refine ⟨base.takeWhile fun b => ¬r c b, base.dropWhile fun b => ¬r c b, ?_, ?_, Nat.zero_le _,
      fun d hd => ?_⟩
    · exact (List.takeWhile_append_dropWhile ..).symm
    · exact List.orderedInsert_eq_take_drop ..
    · have hnot := List.head?_dropWhile_not (fun b => ¬r c b) base
      rw [Option.mem_def.mp hd] at hnot
      simpa using hnot
  | cons a l ih =>
    obtain ⟨u, v, hu, huc, hlength, hhead⟩ := ih fun b hb => hl b (List.mem_cons_of_mem a hb)
    have hac : r a c := hl a List.mem_cons_self
    unfold mergeInto at hu huc ⊢
    rw [List.foldr_cons, List.foldr_cons, hu, huc, orderedInsert_append, orderedInsert_append]
    by_cases hin : ∃ b ∈ u, r a b
    · rw [if_pos hin, if_pos hin]
      refine ⟨_, v, rfl, rfl, ?_, hhead⟩
      rw [List.orderedInsert_length]
      exact Nat.succ_le_succ hlength
    · -- the row is inserted right before `c`
      rw [if_neg hin, if_neg hin, List.orderedInsert_cons_of_le _ _ hac]
      have hv : v.orderedInsert r a = a :: v := by
        cases v with
        | nil => rfl
        | cons d v => exact List.orderedInsert_cons_of_le _ _ (Trans.trans hac (hhead d rfl))
      refine ⟨u ++ [a], v, ?_, ?_, ?_, hhead⟩
      · rw [hv, List.append_assoc, List.singleton_append]
      · rw [List.append_assoc, List.singleton_append]
      · rw [List.length_append]
        exact Nat.succ_le_succ hlength

omit [Std.Total r] in
/-- Of sorted rows that are inserted the first ones make the page. -/
lemma take_mergeInto_take (n : ℕ) (base : List α) {l : List α} (hl : l.Pairwise r) :
    (mergeInto r base (l.take n)).take n = (mergeInto r base l).take n := by
  by_cases hshort : l.length ≤ n
  · rw [List.take_of_length_le hshort]
  · -- the rows behind the first ones make no difference, one after another
    have hfirst : (l.take n).length = n := List.length_take_of_le (Nat.le_of_not_le hshort)
    have hrest : ∀ rest, (∀ c ∈ rest, ∀ a ∈ l.take n, r a c) →
        (mergeInto r (mergeInto r base rest) (l.take n)).take n =
          (mergeInto r base (l.take n)).take n := by
      intro rest hbehind
      induction rest with
      | nil => rfl
      | cons c rest ih =>
        rw [List.forall_mem_cons] at hbehind
        obtain ⟨u, v, hu, huc, hlength, -⟩ :=
          exists_split_mergeInto hbehind.1 (mergeInto r base rest)
        rw [hfirst] at hlength
        rw [← ih hbehind.2, hu]
        refine (congrArg (List.take n) huc).trans ?_
        rw [List.take_append_of_le_length hlength, List.take_append_of_le_length hlength]
    have hwhole : mergeInto r base l =
        mergeInto r (mergeInto r base (l.drop n)) (l.take n) := by
      unfold mergeInto
      rw [← List.foldr_append, List.take_append_drop]
    have hsorted := hl
    rw [← List.take_append_drop n l, List.pairwise_append] at hsorted
    rw [hwhole, hrest _ fun c hc a ha => hsorted.2.2 a ha c hc]

lemma firsts_append_left (n : ℕ) (l₁ l₂ : List α) :
    firsts r n (firsts r n l₁ ++ l₂) = firsts r n (l₁ ++ l₂) := by
  unfold firsts
  rw [insertionSort_append, insertionSort_append,
    take_mergeInto_take n _ (List.pairwise_insertionSort r l₁), mergeInto_insertionSort]

/-- Every source may sort and cut its rows. -/
theorem firsts_append_flatMap {σ : Type*} (n : ℕ) (l : List α) (sources : List σ)
    (rows : σ → List α) :
    firsts r n (l ++ sources.flatMap fun s => firsts r n (rows s)) =
      firsts r n (l ++ sources.flatMap rows) := by
  induction sources generalizing l with
  | nil => rfl
  | cons s sources ih =>
    rw [List.flatMap_cons, List.flatMap_cons]
    calc firsts r n (l ++ (firsts r n (rows s) ++ sources.flatMap fun s => firsts r n (rows s)))
        = firsts r n (l ++ firsts r n
            (firsts r n (rows s) ++ sources.flatMap fun s => firsts r n (rows s))) :=
          (firsts_append_right n _ _).symm
      _ = firsts r n (l ++ firsts r n (rows s ++ sources.flatMap rows)) := by
          rw [firsts_append_left, ih]
      _ = firsts r n (l ++ (rows s ++ sources.flatMap rows)) := firsts_append_right n _ _

end Order

/-! ## Rows of one rank -/

/-- A page of sorted rows has, of the rows of one rank, those that fit behind the rows of a better
rank. -/
theorem filter_take_of_sorted {better same : α → Bool} {l : List α}
    (hl : l.Pairwise fun a b => (better b → better a) ∧ (same b → better a ∨ same a))
    (hne : ∀ a, better a → same a = false) (n : ℕ) :
    (l.take n).filter same = (l.filter same).take (n - l.countP better) := by
  induction l generalizing n with
  | nil => simp
  | cons a l ih =>
    rw [List.pairwise_cons] at hl
    cases n with
    | zero => simp
    | succ n =>
      rw [List.take_succ_cons, List.filter_cons, List.filter_cons, ih hl.2, List.countP_cons]
      by_cases hbetter : better a = true
      · rw [hne a hbetter, hbetter]
        simp
      · -- no later row is better
        have hnone : l.countP better = 0 :=
          List.countP_eq_zero.mpr fun b hb hbb => hbetter ((hl.1 b hb).1 hbb)
        by_cases hsame : same a = true
        · simp [hsame, hbetter, hnone]
        · have hempty : l.filter same = [] := List.filter_eq_nil_iff.mpr fun b hb hbs =>
            ((hl.1 b hb).2 hbs).elim hbetter hsame
          simp [hsame, hempty]

end StablePage
