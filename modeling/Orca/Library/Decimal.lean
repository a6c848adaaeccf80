import Mathlib.Data.String.Basic

/-!
# Decimal numbers in names

A name can end in a number after a hyphen.  The number has no hyphen, so that the name says what
stands before it and what the number is (`eq_of_append_hyphen`).  In the order of strings, numbers
of one digit are in their own order (`toString_lt_toString`), and a name that differs from another
one before a number is in the order of what differs (`append_lt_append`).
-/

namespace Decimal

lemma toList_toString (n : ℕ) : (toString n).toList = Nat.toDigits 10 n := by
  rw [Nat.toString_eq_repr, Nat.toList_repr]

lemma toString_inj {m n : ℕ} : toString m = toString n ↔ m = n := by
  refine ⟨fun h => ?_, fun h => h ▸ rfl⟩
  have hdigits := congrArg String.toList h
  rw [toList_toString, toList_toString] at hdigits
  rw [← Nat.ofDigitChars_ten_toDigits (n := m), hdigits, Nat.ofDigitChars_ten_toDigits]

lemma toList_toString_ne_nil (n : ℕ) : (toString n).toList ≠ [] := by
  rw [toList_toString]
  exact Nat.toDigits_ne_nil

lemma hyphen_not_mem (n : ℕ) : '-' ∉ (toString n).toList := by
  intro h
  rw [toList_toString] at h
  have hdigit := Nat.isDigit_of_mem_toDigits (by decide) (le_refl 10) h
  exact absurd hdigit (by decide)

/-- Different integers are written in different ways. -/
lemma toString_int_inj {i j : ℤ} : toString i = toString j ↔ i = j := by
  refine ⟨fun h => ?_, fun h => h ▸ rfl⟩
  have hsign (m n : ℕ) : toString m ≠ "-" ++ toString (n + 1) := by
    intro heq
    have hminus : '-' ∈ (toString m).toList := by
      rw [heq, String.toList_append]
      exact List.mem_append_left _ (by decide)
    exact hyphen_not_mem m hminus
  cases i with
  | ofNat m =>
    cases j with
    | ofNat n => exact congrArg Int.ofNat (toString_inj.mp h)
    | negSucc n => exact absurd h (hsign m n)
  | negSucc m =>
    cases j with
    | ofNat n => exact absurd h.symm (hsign n m)
    | negSucc n =>
      have hdigits := congrArg String.toList h
      change ("-" ++ toString (m + 1)).toList = ("-" ++ toString (n + 1)).toList at hdigits
      rw [String.toList_append, String.toList_append] at hdigits
      have hnumber := toString_inj.mp (String.toList_inj.mp (List.append_cancel_left hdigits))
      rw [Nat.succ.inj hnumber]

/-- What stands after the last occurrence of an element is determined, and so is what stands before
it. -/
lemma eq_of_append_cons {α : Type*} {c : α} {l₁ l₂ r₁ r₂ : List α} (h₁ : c ∉ r₁) (h₂ : c ∉ r₂)
    (h : l₁ ++ c :: r₁ = l₂ ++ c :: r₂) : l₁ = l₂ ∧ r₁ = r₂ := by
  have hend {l r r' : List α} (hr : c ∉ r) (h : c :: r = l ++ c :: r') : l = [] ∧ r = r' := by
    cases l with
    | nil => exact ⟨rfl, (List.cons.inj h).2⟩
    | cons a l =>
      obtain ⟨-, hr'⟩ := List.cons.inj h
      exact absurd (hr' ▸ List.mem_append_right l List.mem_cons_self) hr
  rcases List.append_eq_append_iff.mp h with ⟨l, rfl, hsplit⟩ | ⟨l, rfl, hsplit⟩
  · obtain ⟨rfl, hr⟩ := hend h₁ hsplit
    exact ⟨(List.append_nil _).symm, hr⟩
  · obtain ⟨rfl, hr⟩ := hend h₂ hsplit
    exact ⟨List.append_nil _, hr.symm⟩

/-- A name that ends in a number says what stands before the number, and the number. -/
theorem eq_of_append_hyphen {a b : String} {m n : ℕ}
    (h : a ++ "-" ++ toString m = b ++ "-" ++ toString n) : a = b ∧ m = n := by
  have hchars := congrArg String.toList h
  rw [String.toList_append, String.toList_append, String.toList_append, String.toList_append,
    List.append_assoc, List.append_assoc] at hchars
  obtain ⟨hfront, hnumber⟩ := eq_of_append_cons (hyphen_not_mem m) (hyphen_not_mem n) hchars
  exact ⟨String.toList_inj.mp hfront, toString_inj.mp (String.toList_inj.mp hnumber)⟩

/-! ## The order of strings -/

lemma lt_append (s : String) {t : String} (h : t.toList ≠ []) : s < s ++ t := by
  rw [String.lt_iff_toList_lt, String.toList_append]
  obtain ⟨c, rest, hc⟩ := List.exists_cons_of_ne_nil h
  have hlt : s.toList ++ [] < s.toList ++ t.toList := by
    rw [hc]
    exact List.append_left_lt (List.nil_lt_cons c rest)
  rwa [List.append_nil] at hlt

lemma append_lt_append_left (s : String) {t u : String} (h : t < u) : s ++ t < s ++ u := by
  rw [String.lt_iff_toList_lt] at *
  rw [String.toList_append, String.toList_append]
  exact List.append_left_lt h

/-- Of lists of one length, the one that is smaller is smaller whatever follows. -/
lemma list_append_lt_append {l₁ l₂ : List Char} (hlength : l₁.length = l₂.length) (h : l₁ < l₂)
    (r₁ r₂ : List Char) : l₁ ++ r₁ < l₂ ++ r₂ := by
  induction l₁ generalizing l₂ with
  | nil =>
    rw [List.length_nil] at hlength
    rw [List.eq_nil_of_length_eq_zero hlength.symm] at h
    exact absurd h (List.not_lt_nil _)
  | cons a l₁ ih =>
    cases l₂ with
    | nil => exact absurd hlength (Nat.succ_ne_zero _)
    | cons b l₂ =>
      rw [List.cons_append, List.cons_append, List.cons_lt_cons_iff]
      rcases List.cons_lt_cons_iff.mp h with hab | ⟨rfl, hrest⟩
      · exact Or.inl hab
      · exact Or.inr ⟨rfl, ih (Nat.succ.inj hlength) hrest⟩

/-- Of names of one length, the one that is smaller is smaller whatever follows. -/
lemma append_lt_append {s t : String} (hlength : s.length = t.length) (h : s < t)
    (u v : String) : s ++ u < t ++ v := by
  rw [String.lt_iff_toList_lt] at *
  rw [String.toList_append, String.toList_append]
  rw [← String.length_toList, ← String.length_toList] at hlength
  exact list_append_lt_append hlength h _ _

lemma toString_lt_toString {m n : ℕ} (hn : n < 10) (h : m < n) : toString m < toString n := by
  have hdigits : ∀ n < 10, ∀ m < n, [Nat.digitChar m] < [Nat.digitChar n] := by decide
  rw [String.lt_iff_toList_lt, toList_toString, toList_toString,
    Nat.toDigits_of_lt_base (h.trans hn), Nat.toDigits_of_lt_base hn]
  exact hdigits n hn m h

end Decimal
