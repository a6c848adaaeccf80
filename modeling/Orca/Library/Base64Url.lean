import Mathlib.Data.String.Basic

/-!
# Bytes in a text of sixty-four characters

Three bytes are four sextets, and a sextet is a character of an alphabet that needs no quoting in an
address.  What is left at the end, one byte or two, is two sextets or three, whose last bits are
zero; nothing is padded.  `decode` refuses a character outside the alphabet, a single sextet at the
end and a last bit that is not zero.  Decoding the text of bytes gives the bytes
(`decode_encode`).
-/

namespace Base64Url

/-- The characters of the sextets. -/
def alphabet : List Char :=
  "ABCDEFGHIJKLMNOPQRSTUVWXYZabcdefghijklmnopqrstuvwxyz0123456789-_".toList

/-- The character of a sextet. -/
def digit (n : ℕ) : Char := alphabet.getD n 'A'

/-- The sextet of a character. -/
def value (c : Char) : Option ℕ := if c ∈ alphabet then some (alphabet.idxOf c) else none

/-- The sextets of bytes. -/
def sextets : List UInt8 → List ℕ
  | a :: b :: c :: rest =>
    a.toNat / 4 :: (a.toNat % 4 * 16 + b.toNat / 16) :: (b.toNat % 16 * 4 + c.toNat / 64) ::
      c.toNat % 64 :: sextets rest
  | [a, b] => [a.toNat / 4, a.toNat % 4 * 16 + b.toNat / 16, b.toNat % 16 * 4]
  | [a] => [a.toNat / 4, a.toNat % 4 * 16]
  | [] => []

/-- The bytes of sextets. -/
def bytes : List ℕ → Option (List UInt8)
  | p :: q :: r :: s :: rest =>
    (bytes rest).map fun l =>
      UInt8.ofNat (p * 4 + q / 16) :: UInt8.ofNat (q % 16 * 16 + r / 4) ::
        UInt8.ofNat (r % 4 * 64 + s) :: l
  | [p, q, r] =>
    if r % 4 = 0 then some [UInt8.ofNat (p * 4 + q / 16), UInt8.ofNat (q % 16 * 16 + r / 4)]
    else none
  | [p, q] => if q % 16 = 0 then some [UInt8.ofNat (p * 4 + q / 16)] else none
  | [_] => none
  | [] => some []

/-- The text of bytes. -/
def encode (l : List UInt8) : String := String.ofList ((sextets l).map digit)

/-- The bytes of a text. -/
def decode (s : String) : Option (List UInt8) := (s.toList.mapM value).bind bytes

/-! ## Decoding what was encoded -/

lemma value_digit {n : ℕ} (hn : n < 64) : value (digit n) = some n := by
  have hall : ∀ m < 64, value (digit m) = some m := by decide +kernel
  exact hall n hn

/-- Sextets are less than sixty-four. -/
lemma lt_of_mem_sextets (l : List UInt8) : ∀ n ∈ sextets l, n < 64 := by
  fun_induction sextets l with
  | case1 a b c rest ih =>
    intro n hn
    have ha := a.toNat_lt
    have hb := b.toNat_lt
    have hc := c.toNat_lt
    simp only [List.mem_cons] at hn
    rcases hn with rfl | rfl | rfl | rfl | hn
    · omega
    · omega
    · omega
    · omega
    · exact ih n hn
  | case2 a b =>
    intro n hn
    have ha := a.toNat_lt
    have hb := b.toNat_lt
    simp only [List.mem_cons, List.not_mem_nil, or_false] at hn
    omega
  | case3 a =>
    intro n hn
    have ha := a.toNat_lt
    simp only [List.mem_cons, List.not_mem_nil, or_false] at hn
    omega
  | case4 => exact fun n hn => absurd hn List.not_mem_nil

lemma ofNat_eq {a : UInt8} {n : ℕ} (h : n = a.toNat) : UInt8.ofNat n = a := by
  rw [h, UInt8.ofNat_toNat]

/-- The sextets of bytes give the bytes. -/
lemma bytes_sextets (l : List UInt8) : bytes (sextets l) = some l := by
  fun_induction sextets l with
  | case1 a b c rest ih =>
    have ha := a.toNat_lt
    have hb := b.toNat_lt
    have hc := c.toNat_lt
    have h₁ : UInt8.ofNat (a.toNat / 4 * 4 + (a.toNat % 4 * 16 + b.toNat / 16) / 16) = a :=
      ofNat_eq (by omega)
    have h₂ : UInt8.ofNat ((a.toNat % 4 * 16 + b.toNat / 16) % 16 * 16 +
        (b.toNat % 16 * 4 + c.toNat / 64) / 4) = b := ofNat_eq (by omega)
    have h₃ : UInt8.ofNat ((b.toNat % 16 * 4 + c.toNat / 64) % 4 * 64 + c.toNat % 64) = c :=
      ofNat_eq (by omega)
    rw [bytes, ih, Option.map_some, h₁, h₂, h₃]
  | case2 a b =>
    have ha := a.toNat_lt
    have hb := b.toNat_lt
    have hzero : b.toNat % 16 * 4 % 4 = 0 := Nat.mul_mod_left _ _
    have h₁ : UInt8.ofNat (a.toNat / 4 * 4 + (a.toNat % 4 * 16 + b.toNat / 16) / 16) = a :=
      ofNat_eq (by omega)
    have h₂ : UInt8.ofNat ((a.toNat % 4 * 16 + b.toNat / 16) % 16 * 16 +
        b.toNat % 16 * 4 / 4) = b := ofNat_eq (by omega)
    rw [bytes, if_pos hzero, h₁, h₂]
  | case3 a =>
    have ha := a.toNat_lt
    have hzero : a.toNat % 4 * 16 % 16 = 0 := Nat.mul_mod_left _ _
    have h₁ : UInt8.ofNat (a.toNat / 4 * 4 + a.toNat % 4 * 16 / 16) = a := ofNat_eq (by omega)
    rw [bytes, if_pos hzero, h₁]
  | case4 => rfl

lemma mapM_value_digit {l : List ℕ} (h : ∀ n ∈ l, n < 64) :
    (l.map digit).mapM value = some l := by
  induction l with
  | nil => rfl
  | cons n l ih =>
    have hrest := ih fun m hm => h m (List.mem_cons_of_mem n hm)
    rw [List.map_cons, List.mapM_cons, value_digit (h n List.mem_cons_self), hrest]
    rfl

/-- Decoding the text of bytes gives the bytes. -/
theorem decode_encode (l : List UInt8) : decode (encode l) = some l := by
  unfold decode encode
  rw [String.toList_ofList, mapM_value_digit (lt_of_mem_sextets l), Option.bind_some,
    bytes_sextets]

end Base64Url
