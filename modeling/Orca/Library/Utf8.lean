import Mathlib.Algebra.GroupWithZero.Nat
import Mathlib.Data.List.Basic
import Mathlib.Data.String.Basic

/-!
# Bytes of a text

A text is the list of its characters, each of which takes one to four bytes in UTF-8.  `splitAt?`
splits a text at a byte, and `slice?` takes a part between two bytes; neither is possible inside of
a character (`splitAt?_eq_some_iff`, `slice?_eq_some_iff`).  Where all characters are ASCII a byte
is a character.
-/

namespace Utf8

/-- The number of bytes. -/
def byteLength (s : List Char) : ℕ := (s.map Char.utf8Size).sum

@[simp] lemma byteLength_nil : byteLength [] = 0 := rfl

@[simp] lemma byteLength_cons (c : Char) (s : List Char) :
    byteLength (c :: s) = c.utf8Size + byteLength s := List.sum_cons

@[simp] lemma byteLength_append (s t : List Char) :
    byteLength (s ++ t) = byteLength s + byteLength t := by
  rw [byteLength, List.map_append, List.sum_append, ← byteLength, ← byteLength]

lemma byteLength_eq_zero {s : List Char} : byteLength s = 0 ↔ s = [] := by
  cases s with
  | nil => exact iff_of_true rfl rfl
  | cons c s =>
    have hpos := c.utf8Size_pos
    refine iff_of_false (fun h => ?_) (List.cons_ne_nil c s)
    rw [byteLength_cons] at h
    omega

lemma byteLength_of_ascii {s : List Char} (h : ∀ c ∈ s, c.utf8Size = 1) :
    byteLength s = s.length := by
  induction s with
  | nil => rfl
  | cons c s ih =>
    obtain ⟨hc, hs⟩ := List.forall_mem_cons.mp h
    rw [byteLength_cons, hc, ih hs, List.length_cons, Nat.add_comm]

/-! ## Splitting -/

/-- The text before a byte and from it on, if the byte is not inside of a character. -/
def splitAt? : ℕ → List Char → Option (List Char × List Char)
  | 0, s => some ([], s)
  | _ + 1, [] => none
  | n + 1, c :: s =>
    if c.utf8Size ≤ n + 1 then
      (splitAt? (n + 1 - c.utf8Size) s).map fun parts => (c :: parts.1, parts.2)
    else none

/-- At its first byte a text is split into nothing and itself. -/
lemma splitAt?_zero_iff {s front rest : List Char} :
    splitAt? 0 s = some (front, rest) ↔ s = front ++ rest ∧ byteLength front = 0 := by
  have hzero : splitAt? 0 s = some ([], s) := by cases s <;> rfl
  rw [hzero, byteLength_eq_zero]
  constructor
  · intro h
    obtain ⟨rfl, rfl⟩ := Prod.mk.inj (Option.some.inj h)
    exact ⟨rfl, rfl⟩
  · rintro ⟨hs, rfl⟩
    rw [hs, List.nil_append]

/-- A text is split between two characters. -/
theorem splitAt?_eq_some_iff {n : ℕ} {s front rest : List Char} :
    splitAt? n s = some (front, rest) ↔ s = front ++ rest ∧ byteLength front = n := by
  induction s generalizing n front with
  | nil =>
    cases n with
    | zero => exact splitAt?_zero_iff
    | succ n =>
      refine iff_of_false nofun ?_
      rintro ⟨hs, hn⟩
      rw [(List.nil_eq_append_iff.mp hs).1] at hn
      exact absurd hn (Nat.succ_ne_zero n).symm
  | cons c s ih =>
    have hpos := c.utf8Size_pos
    cases n with
    | zero => exact splitAt?_zero_iff
    | succ n =>
      simp only [splitAt?]
      split
      next hle =>
        rw [Option.map_eq_some_iff]
        constructor
        · rintro ⟨⟨before, after⟩, h, heq⟩
          obtain ⟨rfl, rfl⟩ := Prod.mk.inj heq
          obtain ⟨rfl, hn⟩ := ih.mp h
          exact ⟨rfl, by rw [byteLength_cons, hn]; omega⟩
        · rintro ⟨hs, hn⟩
          cases front with
          | nil => exact absurd hn (Nat.succ_ne_zero n).symm
          | cons d before =>
            obtain ⟨rfl, rfl⟩ := List.cons.inj hs
            rw [byteLength_cons] at hn
            exact ⟨(before, rest), ih.mpr ⟨rfl, by omega⟩, rfl⟩
      next hgt =>
        refine iff_of_false nofun ?_
        rintro ⟨hs, hn⟩
        cases front with
        | nil => exact absurd hn (Nat.succ_ne_zero n).symm
        | cons d before =>
          obtain ⟨rfl, -⟩ := List.cons.inj hs
          rw [byteLength_cons] at hn
          omega

/-- The part of a text from one byte to another, if neither is inside of a character. -/
def slice? (i j : ℕ) (s : List Char) : Option (List Char) :=
  (splitAt? j s).bind fun parts => (splitAt? i parts.1).map Prod.snd

/-- A part lies between two splits. -/
theorem slice?_eq_some_iff {i j : ℕ} {s part : List Char} :
    slice? i j s = some part ↔
      ∃ front rest, s = front ++ part ++ rest ∧ byteLength front = i ∧
        byteLength (front ++ part) = j := by
  unfold slice?
  rw [Option.bind_eq_some_iff]
  constructor
  · rintro ⟨⟨before, rest⟩, hsplit, h⟩
    obtain ⟨⟨front, part'⟩, hsplit', rfl⟩ := Option.map_eq_some_iff.mp h
    obtain ⟨rfl, hj⟩ := splitAt?_eq_some_iff.mp hsplit
    obtain ⟨hbefore, hi⟩ := splitAt?_eq_some_iff.mp hsplit'
    obtain rfl : before = front ++ part' := hbefore
    exact ⟨front, rest, rfl, hi, hj⟩
  · rintro ⟨front, rest, rfl, hi, hj⟩
    exact ⟨(front ++ part, rest), splitAt?_eq_some_iff.mpr ⟨rfl, hj⟩,
      Option.map_eq_some_iff.mpr ⟨(front, part), splitAt?_eq_some_iff.mpr ⟨rfl, hi⟩, rfl⟩⟩

/-- A byte of a text that is not inside of a character. -/
def IsBoundary (n : ℕ) (s : List Char) : Prop :=
  ∃ front rest, s = front ++ rest ∧ byteLength front = n

lemma isBoundary_of_ascii {n : ℕ} {s : List Char} (hn : n ≤ s.length)
    (h : ∀ c ∈ s, c.utf8Size = 1) : IsBoundary n s := by
  refine ⟨s.take n, s.drop n, (List.take_append_drop n s).symm, ?_⟩
  rw [byteLength_of_ascii fun c hc => h c (List.mem_of_mem_take hc), List.length_take,
    min_eq_left hn]

/-- Of two beginnings of a text, the one with fewer bytes begins the other. -/
lemma exists_append_of_le {front rest front' rest' : List Char}
    (h : front ++ rest = front' ++ rest') (hle : byteLength front ≤ byteLength front') :
    ∃ part, front' = front ++ part := by
  rcases List.append_eq_append_iff.mp h with ⟨part, hfront, -⟩ | ⟨part, hfront, -⟩
  · exact ⟨part, hfront⟩
  · rw [hfront, byteLength_append] at hle
    have hpart : part = [] := byteLength_eq_zero.mp (by omega)
    exact ⟨[], by rw [hfront, hpart, List.append_nil, List.append_nil]⟩

/-- A part can be taken between two boundaries. -/
theorem slice?_isSome_iff {i j : ℕ} (hij : i ≤ j) {s : List Char} :
    (∃ part, slice? i j s = some part) ↔ IsBoundary i s ∧ IsBoundary j s := by
  constructor
  · rintro ⟨part, h⟩
    obtain ⟨front, rest, rfl, hi, hj⟩ := slice?_eq_some_iff.mp h
    exact ⟨⟨front, part ++ rest, List.append_assoc front part rest, hi⟩,
      ⟨front ++ part, rest, rfl, hj⟩⟩
  · rintro ⟨⟨front, rest, rfl, rfl⟩, front', rest', hsplit, rfl⟩
    obtain ⟨part, rfl⟩ := exists_append_of_le hsplit hij
    exact ⟨part, slice?_eq_some_iff.mpr ⟨front, rest', hsplit, rfl, rfl⟩⟩

end Utf8
