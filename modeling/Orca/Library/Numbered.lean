import Mathlib.Data.List.Basic

/-!
# What is read from numbered lines

A file is read line by line, and what a line says is kept with the number of the line.  An edit of
the lines is an edit of what is read: a line that is replaced changes what was read there
(`readFrom_replace`), a line that says nothing moves what is read after it (`readFrom_insert`), and
a line that is removed takes what it says with it (`readFrom_remove`).
-/

namespace Numbered

variable {α β : Type*} (read : α → Option β)

/-- What some lines say, with their numbers, of which the first is given. -/
def readFrom (n : Nat) (ls : List α) : List (Nat × β) :=
  (ls.zipIdx n).filterMap fun (l, i) => (read l).map (i, ·)

/-- What is read at a line is changed. -/
def modifyAt (i : Nat) (f : β → β) (xs : List (Nat × β)) : List (Nat × β) :=
  xs.map fun (j, b) => if j = i then (j, f b) else (j, b)

/-- What is read from a line on is moved to the next one. -/
def shiftFrom (i : Nat) (xs : List (Nat × β)) : List (Nat × β) :=
  xs.map fun (j, b) => if i ≤ j then (j + 1, b) else (j, b)

/-- What is read at a line is left out, and what is read after it is moved up. -/
def dropAt (i : Nat) (xs : List (Nat × β)) : List (Nat × β) :=
  (xs.filter (·.1 ≠ i)).map fun (j, b) => if i < j then (j - 1, b) else (j, b)

variable {read} {n i : Nat}

/-! ## Reading -/

lemma readFrom_append (a r : List α) :
    readFrom read n (a ++ r) = readFrom read n a ++ readFrom read (n + a.length) r := by
  rw [readFrom, List.zipIdx_append, List.filterMap_append, ← readFrom, ← readFrom]

/-- What is read is that of the first line and that of the others. -/
lemma readFrom_cons (l : α) (r : List α) :
    readFrom read n (l :: r) = ((read l).map (n, ·)).toList ++ readFrom read (n + 1) r := by
  rw [readFrom, List.zipIdx_cons]
  cases hl : read l with
  | none =>
    rw [List.filterMap_cons_none (by simp only [hl, Option.map_none])]
    rfl
  | some b =>
    rw [List.filterMap_cons_some (b := (n, b)) (by simp only [hl, Option.map_some])]
    rfl

lemma le_of_mem_readFrom {ls : List α} {x : Nat × β} (h : x ∈ readFrom read n ls) : n ≤ x.1 := by
  obtain ⟨⟨l, j⟩, hmem, hx⟩ := List.mem_filterMap.mp h
  obtain ⟨b, -, rfl⟩ := Option.map_eq_some_iff.mp hx
  exact List.le_snd_of_mem_zipIdx hmem

lemma lt_of_mem_readFrom {ls : List α} {x : Nat × β} (h : x ∈ readFrom read n ls) :
    x.1 < n + ls.length := by
  obtain ⟨⟨l, j⟩, hmem, hx⟩ := List.mem_filterMap.mp h
  obtain ⟨b, -, rfl⟩ := Option.map_eq_some_iff.mp hx
  have hlt := List.snd_lt_add_of_mem_zipIdx hmem
  omega

/-- What is read is read from a line with that number. -/
lemma exists_of_mem_readFrom {ls : List α} {b : β} (h : (i, b) ∈ readFrom read n ls) :
    ∃ a l r, ls = a ++ l :: r ∧ i = n + a.length ∧ read l = some b := by
  induction ls generalizing n with
  | nil => exact absurd h List.not_mem_nil
  | cons l ls ih =>
    rw [readFrom_cons, List.mem_append] at h
    rcases h with h | h
    · obtain ⟨b', hb', heq⟩ := Option.map_eq_some_iff.mp (Option.mem_toList.mp h)
      obtain ⟨rfl, rfl⟩ := Prod.mk.inj heq
      exact ⟨[], l, ls, rfl, rfl, hb'⟩
    · obtain ⟨a, l', r, rfl, rfl, hl'⟩ := ih h
      refine ⟨l :: a, l', r, rfl, ?_, hl'⟩
      rw [List.length_cons]
      omega

lemma mem_readFrom {a r : List α} {l : α} {b : β} (h : read l = some b) :
    (n + a.length, b) ∈ readFrom read n (a ++ l :: r) := by
  rw [readFrom_append, readFrom_cons, h]
  exact List.mem_append_right _ (List.mem_append_left _ (List.mem_singleton_self _))

lemma readFrom_succ (ls : List α) :
    readFrom read (n + 1) ls = (readFrom read n ls).map fun (j, b) => (j + 1, b) := by
  induction ls generalizing n with
  | nil => rfl
  | cons l ls ih =>
    rw [readFrom_cons, readFrom_cons, List.map_append, ih]
    cases read l <;> rfl

/-- Only one line has a number. -/
lemma filter_readFrom {a r : List α} {l : α} (hi : i = n + a.length) :
    (readFrom read n (a ++ l :: r)).filter (·.1 = i) = ((read l).map (i, ·)).toList := by
  have hbefore : (readFrom read n a).filter (·.1 = i) = [] := by
    refine List.filter_eq_nil_iff.mpr fun x hx => ?_
    have hlt := lt_of_mem_readFrom hx
    exact fun heq => absurd (of_decide_eq_true heq) (by omega)
  have hafter : (readFrom read (i + 1) r).filter (·.1 = i) = [] := by
    refine List.filter_eq_nil_iff.mpr fun x hx => ?_
    have hle := le_of_mem_readFrom hx
    exact fun heq => absurd (of_decide_eq_true heq) (by omega)
  have hhere : ((read l).map (i, ·)).toList.filter (·.1 = i) = ((read l).map (i, ·)).toList := by
    cases read l with
    | none => rfl
    | some b => exact List.filter_cons_of_pos (decide_eq_true rfl)
  rw [readFrom_append, ← hi, readFrom_cons, List.filter_append, List.filter_append, hbefore, hafter,
    hhere, List.nil_append, List.append_nil]

/-! ## Edits -/

section Edits

variable {xs ys : List (Nat × β)}

lemma modifyAt_eq_self {f : β → β} (h : ∀ x ∈ xs, x.1 ≠ i) : modifyAt i f xs = xs := by
  refine (List.map_congr_left ?_).trans xs.map_id
  exact fun x hx => if_neg (h x hx)

lemma mem_modifyAt {f : β → β} {b : β} (h : (i, b) ∈ xs) : (i, f b) ∈ modifyAt i f xs :=
  List.mem_map.mpr ⟨(i, b), h, if_pos rfl⟩

/-- A change does not change how many are read. -/
@[simp] lemma length_modifyAt (f : β → β) : (modifyAt i f xs).length = xs.length :=
  List.length_map _

/-- A move does not change how many are read. -/
@[simp] lemma length_shiftFrom : (shiftFrom i xs).length = xs.length := List.length_map _

lemma shiftFrom_eq_self (h : ∀ x ∈ xs, x.1 < i) : shiftFrom i xs = xs := by
  refine (List.map_congr_left ?_).trans xs.map_id
  exact fun x hx => if_neg (Nat.not_le.mpr (h x hx))

lemma shiftFrom_eq_map (h : ∀ x ∈ xs, i ≤ x.1) :
    shiftFrom i xs = xs.map fun (j, b) => (j + 1, b) :=
  List.map_congr_left fun x hx => if_pos (h x hx)

lemma dropAt_eq_self (h : ∀ x ∈ xs, x.1 < i) : dropAt i xs = xs := by
  have hkeep : xs.filter (·.1 ≠ i) = xs :=
    List.filter_eq_self.mpr fun x hx => decide_eq_true (Nat.ne_of_lt (h x hx))
  rw [dropAt, hkeep]
  refine (List.map_congr_left ?_).trans xs.map_id
  exact fun x hx => if_neg (Nat.lt_asymm (h x hx))

/-- What is moved down by a line is moved up again. -/
lemma dropAt_map_succ (h : ∀ x ∈ xs, i ≤ x.1) :
    dropAt i (xs.map fun (j, b) => (j + 1, b)) = xs := by
  have hkeep : (xs.map fun (j, b) => (j + 1, b)).filter (·.1 ≠ i) =
      xs.map fun (j, b) => (j + 1, b) := by
    refine List.filter_eq_self.mpr fun x hx => ?_
    obtain ⟨y, hy, rfl⟩ := List.mem_map.mp hx
    exact decide_eq_true (Nat.ne_of_gt (Nat.lt_succ_of_le (h y hy)))
  rw [dropAt, hkeep, List.map_map]
  refine (List.map_congr_left ?_).trans xs.map_id
  exact fun x hx => if_pos (Nat.lt_succ_of_le (h x hx))

lemma modifyAt_append (f : β → β) : modifyAt i f (xs ++ ys) = modifyAt i f xs ++ modifyAt i f ys :=
  List.map_append

lemma shiftFrom_append : shiftFrom i (xs ++ ys) = shiftFrom i xs ++ shiftFrom i ys :=
  List.map_append

lemma dropAt_append : dropAt i (xs ++ ys) = dropAt i xs ++ dropAt i ys := by
  rw [dropAt, List.filter_append, List.map_append, ← dropAt, ← dropAt]

end Edits

variable {a r : List α} {l m : α}

/-- A line that is replaced changes what is read there. -/
theorem readFrom_replace {f : β → β} (h : read m = (read l).map f) :
    readFrom read n (a ++ m :: r) =
      modifyAt (n + a.length) f (readFrom read n (a ++ l :: r)) := by
  have hbefore : modifyAt (n + a.length) f (readFrom read n a) = readFrom read n a :=
    modifyAt_eq_self fun x hx => Nat.ne_of_lt (lt_of_mem_readFrom hx)
  have hafter : modifyAt (n + a.length) f (readFrom read (n + a.length + 1) r) =
      readFrom read (n + a.length + 1) r :=
    modifyAt_eq_self fun x hx => Nat.ne_of_gt (Nat.lt_of_succ_le (le_of_mem_readFrom hx))
  rw [readFrom_append, readFrom_append, readFrom_cons, readFrom_cons, modifyAt_append,
    modifyAt_append, hbefore, hafter, h]
  cases read l with
  | none => rfl
  | some b => simp [modifyAt]

/-- A line that says nothing moves what is read after it. -/
theorem readFrom_insert (h : read m = none) :
    readFrom read n (a ++ m :: r) = shiftFrom (n + a.length) (readFrom read n (a ++ r)) := by
  have hbefore : shiftFrom (n + a.length) (readFrom read n a) = readFrom read n a :=
    shiftFrom_eq_self fun x hx => lt_of_mem_readFrom hx
  rw [readFrom_append, readFrom_append, readFrom_cons, h, shiftFrom_append, hbefore,
    shiftFrom_eq_map fun x hx => le_of_mem_readFrom hx, ← readFrom_succ]
  rfl

/-- A line that is removed takes what it says with it. -/
theorem readFrom_remove :
    readFrom read n (a ++ r) = dropAt (n + a.length) (readFrom read n (a ++ l :: r)) := by
  have hbefore : dropAt (n + a.length) (readFrom read n a) = readFrom read n a :=
    dropAt_eq_self fun x hx => lt_of_mem_readFrom hx
  have hhere : dropAt (n + a.length) ((read l).map (n + a.length, ·)).toList = [] := by
    cases read l with
    | none => rfl
    | some b => simp [dropAt]
  rw [readFrom_append, readFrom_append, readFrom_cons, dropAt_append, dropAt_append, hbefore, hhere,
    readFrom_succ, dropAt_map_succ fun x hx => le_of_mem_readFrom hx, List.nil_append]

lemma length_readFrom_insert {b : β} (h : read m = some b) :
    (readFrom read n (a ++ m :: r)).length = (readFrom read n (a ++ r)).length + 1 := by
  rw [readFrom_append, readFrom_append, readFrom_cons, h, List.length_append, List.length_append,
    List.length_append, readFrom_succ, List.length_map, Option.map_some, Option.toList_some,
    List.length_singleton]
  omega

end Numbered
