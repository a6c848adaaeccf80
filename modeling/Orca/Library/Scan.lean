import Mathlib.Data.List.Infix
import Mathlib.Data.List.TakeWhile

/-!
# Scanning a text for matches

A pattern is tried at the front of a text, and says what is left behind the match (`Pattern`); a
match is not empty.  A scan goes through a text from left to right and takes the matches that it
meets, each behind the one before it: `rests` are what is left behind each of them, `starts` are
their places, and `replace` writes something else there.

The recursion is on the text, and counts down the elements of a match that is taken.  What a scan
does at a match is `replace_of_match` and `starts_of_match`, and where there is none
`replace_of_no_match` and `starts_of_no_match`.  The places of a word are known from
`starts_literal`.
-/

namespace Scan

variable {α : Type*}

/-- A pattern. -/
structure Pattern (α : Type*) where
  /-- What is left behind a match at the front. -/
  rest : List α → Option (List α)
  /-- A match is a non-empty beginning. -/
  consumes : ∀ {s r}, rest s = some r → ∃ w, w ≠ [] ∧ s = w ++ r

/-- The pattern that matches a word. -/
def literal [DecidableEq α] (word : List α) (h : word ≠ []) : Pattern α where
  rest s := word.isPrefixOf? s
  consumes hs := ⟨word, h, (List.isPrefixOf?_eq_some_iff_append_eq.mp hs).symm⟩

/-- The pattern that matches what is spelled like a word. -/
def spelled {β : Type*} [DecidableEq β] (f : α → β) (word : List β) (h : word ≠ []) :
    Pattern α where
  rest s := if word.isPrefixOf (s.map f) then some (s.drop word.length) else none
  consumes {s r} hs := by
    obtain ⟨hword, hr⟩ := Option.ite_none_right_eq_some.mp hs
    have hbegin : word <+: s.map f := List.isPrefixOf_iff_prefix.mp hword
    refine ⟨s.take word.length, fun hnil => ?_, ?_⟩
    · have hlength := congrArg List.length hnil
      have hle := hbegin.length_le
      rw [List.length_take, List.length_nil] at hlength
      rw [List.length_map] at hle
      exact h (List.length_eq_zero_iff.mp (by omega))
    · rw [← Option.some.inj hr, List.take_append_drop]

variable (p : Pattern α)

/-- What is left behind each match, where the first `skip` elements belong to a match before. -/
def rests : (skip : ℕ) → List α → List (List α)
  | _, [] => []
  | skip + 1, _ :: s => rests skip s
  | 0, a :: s =>
    match p.rest (a :: s) with
    | some r => r :: rests (s.length - r.length) s
    | none => rests 0 s

/-- The text with other elements in place of each match, where the first `skip` elements belong to a
match before. -/
def replace (sub : List α) : (skip : ℕ) → List α → List α
  | _, [] => []
  | skip + 1, _ :: s => replace sub skip s
  | 0, a :: s =>
    match p.rest (a :: s) with
    | some r => sub ++ replace sub (s.length - r.length) s
    | none => a :: replace sub 0 s

/-- The places of the matches, where the text starts at `i` and the first `skip`
elements belong to a match before. -/
def starts : (skip i : ℕ) → List α → List ℕ
  | _, _, [] => []
  | skip + 1, i, _ :: s => starts skip (i + 1) s
  | 0, i, a :: s =>
    match p.rest (a :: s) with
    | some r => i :: starts (s.length - r.length) (i + 1) s
    | none => starts 0 (i + 1) s

variable {p}

lemma replace_append (sub w r : List α) :
    replace p sub w.length (w ++ r) = replace p sub 0 r := by
  induction w with
  | nil => rfl
  | cons a w ih => exact ih

/-- The elements of a match behind its first one. -/
lemma exists_match {a : α} {s r : List α} (h : p.rest (a :: s) = some r) :
    ∃ w, s = w ++ r ∧ s.length - r.length = w.length := by
  obtain ⟨w, hw, heq⟩ := p.consumes h
  cases w with
  | nil => exact absurd rfl hw
  | cons b w =>
    have htail : s = w ++ r := (List.cons.inj heq).2
    refine ⟨w, htail, ?_⟩
    rw [htail, List.length_append, Nat.add_sub_cancel]

/-- A match is replaced, and the scan goes on behind it. -/
lemma replace_of_match {sub : List α} {a : α} {s r : List α} (h : p.rest (a :: s) = some r) :
    replace p sub 0 (a :: s) = sub ++ replace p sub 0 r := by
  obtain ⟨w, rfl, hlength⟩ := exists_match h
  rw [replace, h]
  simp only [hlength, replace_append]

lemma replace_of_rest {sub s r : List α} (h : p.rest s = some r) :
    replace p sub 0 s = sub ++ replace p sub 0 r := by
  cases s with
  | nil =>
    obtain ⟨w, hw, heq⟩ := p.consumes h
    exact absurd (List.append_eq_nil_iff.mp heq.symm).1 hw
  | cons a s => exact replace_of_match h

lemma replace_of_no_match {sub : List α} {a : α} {s : List α} (h : p.rest (a :: s) = none) :
    replace p sub 0 (a :: s) = a :: replace p sub 0 s := by
  rw [replace, h]

lemma starts_append (w r : List α) (i : ℕ) :
    starts p w.length i (w ++ r) = starts p 0 (i + w.length) r := by
  induction w generalizing i with
  | nil => rfl
  | cons a w ih =>
    have hlength : i + (a :: w).length = i + 1 + w.length := by
      rw [List.length_cons]
      omega
    rw [hlength]
    exact ih (i + 1)

/-- The place of a match is noted, and the scan goes on behind it. -/
lemma starts_of_match {a : α} {s r : List α} {i : ℕ} (h : p.rest (a :: s) = some r) :
    starts p 0 i (a :: s) = i :: starts p 0 (i + ((a :: s).length - r.length)) r := by
  obtain ⟨w, rfl, hlength⟩ := exists_match h
  have hnext : i + ((a :: (w ++ r)).length - r.length) = i + 1 + w.length := by
    rw [List.length_cons, List.length_append]
    omega
  rw [starts, h, hnext]
  simp only [hlength, starts_append]

lemma starts_of_no_match {a : α} {s : List α} {i : ℕ} (h : p.rest (a :: s) = none) :
    starts p 0 i (a :: s) = starts p 0 (i + 1) s := by
  rw [starts, h]

/-- What is left behind a match of the scan is left behind an occurrence. -/
theorem exists_occurrence {s r : List α} {skip : ℕ} (h : r ∈ rests p skip s) :
    ∃ t, t <:+ s ∧ p.rest t = some r := by
  fun_induction rests p skip s with
  | case1 => exact absurd h List.not_mem_nil
  | case2 skip a s ih =>
    obtain ⟨t, ht, hr⟩ := ih h
    exact ⟨t, ht.trans (List.suffix_cons a s), hr⟩
  | case3 a s r' hmatch ih =>
    rcases List.mem_cons.mp h with rfl | h
    · exact ⟨a :: s, List.suffix_rfl, hmatch⟩
    · obtain ⟨t, ht, hr⟩ := ih h
      exact ⟨t, ht.trans (List.suffix_cons a s), hr⟩
  | case4 a s hnone ih =>
    obtain ⟨t, ht, hr⟩ := ih h
    exact ⟨t, ht.trans (List.suffix_cons a s), hr⟩

section Word

variable [DecidableEq α] {word : List α} {h : word ≠ []}

lemma literal_rest (r : List α) : (literal word h).rest (word ++ r) = some r :=
  List.isPrefixOf?_eq_some_iff_append_eq.mpr rfl

lemma literal_rest_eq_none {s : List α} : (literal word h).rest s = none ↔ ¬word <+: s := by
  rw [Option.eq_none_iff_forall_ne_some]
  constructor
  · rintro hnone ⟨r, rfl⟩
    exact hnone r (literal_rest r)
  · rintro hword r hr
    exact hword ⟨r, List.isPrefixOf?_eq_some_iff_append_eq.mp hr⟩

lemma spelled_rest {β : Type*} {f : β → α} {w : List β} (hw : w.map f = word) (r : List β) :
    (spelled f word h).rest (w ++ r) = some r := by
  have hbegin : word.isPrefixOf ((w ++ r).map f) = true := by
    rw [List.isPrefixOf_iff_prefix, List.map_append, hw]
    exact List.prefix_append word _
  have hlength : w.length = word.length := by rw [← hw, List.length_map]
  change (if word.isPrefixOf ((w ++ r).map f) then some ((w ++ r).drop word.length) else none) = _
  rw [if_pos hbegin, ← hlength, List.drop_left]

lemma spelled_rest_eq_none {β : Type*} {f : β → α} {s : List β} :
    (spelled f word h).rest s = none ↔ ¬word <+: s.map f := by
  change (if word.isPrefixOf (s.map f) then some (s.drop word.length) else none) = none ↔ _
  rw [← List.isPrefixOf_iff_prefix]
  cases word.isPrefixOf (s.map f) with
  | true => exact ⟨nofun, fun hnot => absurd rfl hnot⟩
  | false => exact ⟨fun _ => nofun, fun _ => rfl⟩

/-- What is spelled like a word is replaced like the word itself. -/
lemma map_replace {β : Type*} (f : β → α) (sub : List β) (skip : ℕ) (s : List β) :
    (replace (spelled f word h) sub skip s).map f =
      replace (literal word h) (sub.map f) skip (s.map f) := by
  fun_induction replace (spelled f word h) sub skip s with
  | case1 skip => rw [List.map_nil, replace]
  | case2 skip b s ih => exact ih
  | case3 b s r hmatch ih =>
    obtain ⟨hword, hr⟩ := Option.ite_none_right_eq_some.mp hmatch
    obtain ⟨t, ht⟩ := List.isPrefixOf_iff_prefix.mp hword
    have hrest : r.map f = t := by
      rw [← Option.some.inj hr, List.map_drop, ← ht, List.drop_left]
    have hliteral : (literal word h).rest (f b :: s.map f) = some (r.map f) := by
      rw [hrest, ← List.map_cons, ← ht, literal_rest]
    rw [List.map_append, ih, List.map_cons, replace, hliteral]
    simp only [List.length_map]
  | case4 b s hnone ih =>
    have hliteral : (literal word h).rest (f b :: s.map f) = none := by
      rw [literal_rest_eq_none, ← List.map_cons]
      exact spelled_rest_eq_none.mp hnone
    rw [List.map_cons, ih, List.map_cons, replace_of_no_match hliteral]

/-- The places of a word are behind each other, and each of its occurrences meets one of them. -/
theorem starts_literal (i : ℕ) (s : List α) :
    (∀ q ∈ starts (literal word h) 0 i s, i ≤ q ∧ word <+: s.drop (q - i)) ∧
    (∀ q ∈ starts (literal word h) 0 i s, ∀ r ∈ starts (literal word h) 0 i s, q < r →
      q + word.length ≤ r) ∧
    ∀ k, word <+: s.drop k →
      ∃ q ∈ starts (literal word h) 0 i s, q ≤ i + k ∧ i + k < q + word.length := by
  have hpos : 0 < word.length := List.length_pos_iff.mpr h
  induction hn : s.length using Nat.strong_induction_on generalizing i s with
  | _ n ih =>
    subst hn
    cases s with
    | nil =>
      refine ⟨nofun, nofun, fun k hk => ?_⟩
      rw [List.drop_nil] at hk
      exact absurd (List.prefix_nil.mp hk) h
    | cons a s =>
      cases hrest : (literal word h).rest (a :: s) with
      | none =>
        obtain ⟨hwhere, hbehind, hall⟩ := ih s.length (Nat.lt_succ_self _) (i + 1) s rfl
        rw [starts_of_no_match hrest]
        refine ⟨fun q hq => ?_, hbehind, fun k hk => ?_⟩
        · obtain ⟨hle, hword⟩ := hwhere q hq
          obtain ⟨d, rfl⟩ := Nat.exists_eq_add_of_le hle
          have hd : i + 1 + d - i = d + 1 := by omega
          rw [hd, List.drop_succ_cons]
          rw [Nat.add_sub_cancel_left] at hword
          exact ⟨by omega, hword⟩
        · cases k with
          | zero => exact absurd hk (literal_rest_eq_none.mp hrest)
          | succ k =>
            obtain ⟨q, hq, hle, hlt⟩ := hall k hk
            exact ⟨q, hq, by omega, by omega⟩
      | some r =>
        have hs : word ++ r = a :: s := List.isPrefixOf?_eq_some_iff_append_eq.mp hrest
        have hlength : (a :: s).length - r.length = word.length := by
          rw [← hs, List.length_append, Nat.add_sub_cancel]
        have hshort : r.length < (a :: s).length := by
          rw [← hs, List.length_append]
          omega
        obtain ⟨hwhere, hbehind, hall⟩ := ih r.length hshort (i + word.length) r rfl
        rw [starts_of_match hrest, hlength]
        refine ⟨fun q hq => ?_, fun q hq q' hq' hlt => ?_, fun k hk => ?_⟩
        · rcases List.mem_cons.mp hq with rfl | hq
          · rw [Nat.sub_self, List.drop_zero, ← hs]
            exact ⟨le_rfl, List.prefix_append word r⟩
          · obtain ⟨hle, hword⟩ := hwhere q hq
            have hd : q - i = word.length + (q - (i + word.length)) := by omega
            rw [hd, ← hs, List.drop_length_add_append]
            exact ⟨by omega, hword⟩
        · rcases List.mem_cons.mp hq' with rfl | hq'
          · rcases List.mem_cons.mp hq with rfl | hq
            · exact absurd hlt (lt_irrefl _)
            · have := (hwhere q hq).1
              omega
          · rcases List.mem_cons.mp hq with rfl | hq
            · exact (hwhere q' hq').1
            · exact hbehind q hq q' hq' hlt
        · rcases Nat.lt_or_ge k word.length with hk' | hk'
          · exact ⟨i, List.mem_cons_self, by omega, by omega⟩
          · obtain ⟨d, rfl⟩ := Nat.exists_eq_add_of_le hk'
            rw [← hs, List.drop_length_add_append] at hk
            obtain ⟨q, hq, hle, hlt⟩ := hall d hk
            exact ⟨q, List.mem_cons_of_mem i hq, by omega, by omega⟩

end Word

end Scan
