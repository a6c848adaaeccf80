import Mathlib.Algebra.Field.Rat
import Mathlib.Data.String.Basic
import Orca.Library.Words

/-!
# Literals in a statement

The values that SQL writes without an expression: a word such as `NULL`, a number with a sign, and
a text between quotes, in which a quote is written twice.  `IsLiteral` says which texts are literals
and of what, and `readLiteral` is how an engine reads one from the front of a statement, as far as
it goes.

What the reader takes from a literal is the whole literal, with its value, if what follows it could
not go on with it (`readLiteral_append`).  So a text that is a literal is no more than a literal,
wherever it stands.
-/

namespace SqlLiteral

/-! ## Values -/

/-- A word that is a value. -/
inductive Keyword where
  | null
  | currentTimestamp
  | currentDate
  | currentTime
  deriving DecidableEq

/-- The word in capitals. -/
def Keyword.text : Keyword → String
  | .null => "NULL"
  | .currentTimestamp => "CURRENT_TIMESTAMP"
  | .currentDate => "CURRENT_DATE"
  | .currentTime => "CURRENT_TIME"

/-- The words. -/
def keywords : List Keyword := [.null, .currentTimestamp, .currentDate, .currentTime]

/-- A value. -/
inductive Literal where
  | keyword (k : Keyword)
  /-- A number, which is real if it has a point or an exponent. -/
  | number (real : Bool) (value : ℚ)
  | text (s : List Char)
  deriving DecidableEq

/-! ## Texts of values -/

/-- The sign of a number. -/
inductive Sign where
  | plus
  | minus
  deriving DecidableEq

/-- The characters of a sign that may be missing. -/
def signChars : Option Sign → List Char
  | none => []
  | some .plus => ['+']
  | some .minus => ['-']

/-- The characters are digits. -/
def Digits (s : List Char) : Prop := ∀ c ∈ s, c.isDigit = true

/-- The parts of a number. -/
structure NumberParts where
  sign : Option Sign
  whole : List Char
  /-- The digits behind the point, if there is one. -/
  fraction : Option (List Char)
  /-- The letter, the sign and the digits of the exponent, if there is one. -/
  exponent : Option (Char × Option Sign × List Char)

/-- The characters of a fraction. -/
def fractionChars : Option (List Char) → List Char
  | none => []
  | some digits => '.' :: digits

/-- The characters of an exponent. -/
def exponentChars : Option (Char × Option Sign × List Char) → List Char
  | none => []
  | some (letter, sign, digits) => letter :: (signChars sign ++ digits)

/-- The characters of a number. -/
def NumberParts.chars (n : NumberParts) : List Char :=
  signChars n.sign ++ (n.whole ++ (fractionChars n.fraction ++ exponentChars n.exponent))

/-- The letter of an exponent. -/
def isExponentLetter (c : Char) : Bool := c == 'e' || c == 'E'

/-- The parts are those of a number: there is a digit before the point or behind it, and an exponent
has digits. -/
structure NumberParts.WellFormed (n : NumberParts) : Prop where
  whole : Digits n.whole
  fraction : ∀ digits ∈ n.fraction, Digits digits
  digit : n.whole ≠ [] ∨ n.fraction.getD [] ≠ []
  exponent : ∀ e ∈ n.exponent, isExponentLetter e.1 = true ∧ e.2.2 ≠ [] ∧ Digits e.2.2

/-- A number with its sign. -/
def applySign {α : Type*} [Neg α] : Option Sign → α → α
  | some .minus, x => -x
  | _, x => x

/-- The value of a number. -/
def NumberParts.value (n : NumberParts) : Literal :=
  let digits := n.whole ++ n.fraction.getD []
  let power : ℤ := match n.exponent with
    | none => 0
    | some (_, sign, e) => applySign sign (Nat.ofDigitChars 10 e 0 : ℤ)
  .number (n.fraction.isSome || n.exponent.isSome)
    (applySign n.sign
      ((Nat.ofDigitChars 10 digits 0 : ℚ) * 10 ^ (power - (n.fraction.getD []).length)))

/-- Every quote is written twice. -/
def doubleQuotes (s : List Char) : List Char :=
  s.flatMap fun c => if c = '\'' then ['\'', '\''] else [c]

/-- The text is a literal of the value. -/
inductive IsLiteral : List Char → Literal → Prop
  /-- A word, in capitals or not. -/
  | keyword (k : Keyword) (s : List Char) (h : s.map Char.toUpper = k.text.toList) :
    IsLiteral s (.keyword k)
  | number (n : NumberParts) (h : n.WellFormed) : IsLiteral n.chars n.value
  | text (s : List Char) : IsLiteral ('\'' :: (doubleQuotes s ++ ['\''])) (.text s)

/-! ## Reading -/

/-- A character that a name can go on with. -/
def isNameChar (c : Char) : Bool :=
  c.isAlphanum || c == '_' || c == '$' || decide (128 ≤ c.toNat)

/-- A sign is read, if there is one. -/
def readSign : List Char → Option Sign × List Char
  | '+' :: rest => (some .plus, rest)
  | '-' :: rest => (some .minus, rest)
  | s => (none, s)

/-- A point and the digits behind it are read. -/
def readFraction : List Char → Option (List Char) × List Char
  | '.' :: rest => (some (rest.takeWhile Char.isDigit), rest.dropWhile Char.isDigit)
  | s => (none, s)

/-- An exponent is read, if the letter has digits behind it. -/
def readExponent : List Char → Option (Char × Option Sign × List Char) × List Char
  | [] => (none, [])
  | c :: rest =>
    let digits := (readSign rest).2.takeWhile Char.isDigit
    if isExponentLetter c = true ∧ digits ≠ [] then
      (some (c, (readSign rest).1, digits), (readSign rest).2.dropWhile Char.isDigit)
    else (none, c :: rest)

/-- A number is read. -/
def readNumber (s : List Char) : Option (Literal × List Char) :=
  let (sign, s) := readSign s
  let whole := s.takeWhile Char.isDigit
  let (fraction, s) := readFraction (s.dropWhile Char.isDigit)
  let (exponent, rest) := readExponent s
  if whole = [] ∧ fraction.getD [] = [] then none
  else some (NumberParts.value ⟨sign, whole, fraction, exponent⟩, rest)

/-- A text is read up to a quote that is not followed by another one. -/
def readQuoted : List Char → Option (List Char × List Char)
  | '\'' :: '\'' :: rest => (readQuoted rest).map fun (s, r) => ('\'' :: s, r)
  | '\'' :: rest => some ([], rest)
  | c :: rest => (readQuoted rest).map fun (s, r) => (c :: s, r)
  | [] => none

/-- A word is read. -/
def readKeyword (s : List Char) : Option (Literal × List Char) :=
  (keywords.find? fun k => k.text.toList == (s.takeWhile isNameChar).map Char.toUpper).map
    fun k => (.keyword k, s.dropWhile isNameChar)

/-- A literal is read from the front of a statement.  A number must not run into a name. -/
def readLiteral (s : List Char) : Option (Literal × List Char) :=
  match s with
  | [] => none
  | c :: rest =>
    if c = '\'' then (readQuoted rest).map fun (t, r) => (.text t, r)
    else if c.isAlpha then readKeyword s
    else (readNumber s).filter fun (_, r) => !(r.head?.any isNameChar)

/-- What follows could not be more of a literal. -/
def Delimited (rest : List Char) : Prop :=
  ∀ c ∈ rest.head?, isNameChar c = false ∧ c ≠ '.' ∧ c ≠ '\''

/-! ## Characters -/

/-- The digits. -/
def digits : List Char := "0123456789".toList

lemma mem_digits {c : Char} (h : c.isDigit = true) : c ∈ digits := by
  obtain ⟨hlow, hhigh⟩ := Char.isDigit_iff_toNat.mp h
  have hlow : 48 ≤ c.toNat := hlow
  have hhigh : c.toNat < 58 := Nat.lt_succ_of_le hhigh
  have hall : ∀ n < 58, 48 ≤ n → Char.ofNat n ∈ digits := by decide
  rw [← Char.ofNat_toNat c]
  exact hall c.toNat hhigh hlow

/-- A digit is a character of names, and none of those that mean something else in a number. -/
lemma digit_other {c : Char} (h : c.isDigit = true) :
    isNameChar c = true ∧ c.isAlpha = false ∧ isExponentLetter c = false ∧
      c ∉ ['+', '-', '.', '\''] := by
  have hall : (digits.all fun c => decide (isNameChar c = true ∧ c.isAlpha = false ∧
      isExponentLetter c = false ∧ c ∉ ['+', '-', '.', '\''])) = true := by decide
  exact of_decide_eq_true (List.all_eq_true.mp hall c (mem_digits h))

/-! ## Reading what was written -/

lemma readSign_append (sign : Option Sign) {s : List Char}
    (h : ∀ c ∈ s.head?, c ≠ '+' ∧ c ≠ '-') : readSign (signChars sign ++ s) = (sign, s) := by
  cases sign with
  | some sign => cases sign <;> rfl
  | none =>
    change readSign s = (none, s)
    unfold readSign
    split
    next => exact absurd rfl (h '+' rfl).1
    next => exact absurd rfl (h '-' rfl).2
    next => rfl

/-- A fraction is read back. -/
lemma readFraction_append {fraction : Option (List Char)} (hf : ∀ f ∈ fraction, Digits f)
    {s : List Char} (h : ∀ c ∈ s.head?, c.isDigit = false ∧ c ≠ '.') :
    readFraction (fractionChars fraction ++ s) = (fraction, s) := by
  have hstop : ∀ c ∈ s.head?, c.isDigit = false := fun c hc => (h c hc).1
  cases fraction with
  | some f =>
    change (some ((f ++ s).takeWhile Char.isDigit), (f ++ s).dropWhile Char.isDigit) = _
    rw [Words.takeWhile_append_stop (hf f rfl) hstop, Words.dropWhile_append_stop (hf f rfl) hstop]
  | none =>
    change readFraction s = (none, s)
    unfold readFraction
    split
    next => exact absurd rfl (h '.' rfl).2
    next => rfl

/-- An exponent is read back. -/
lemma readExponent_append {exponent : Option (Char × Option Sign × List Char)}
    (he : ∀ e ∈ exponent, isExponentLetter e.1 = true ∧ e.2.2 ≠ [] ∧ Digits e.2.2)
    {s : List Char} (h : ∀ c ∈ s.head?, c.isDigit = false ∧ isExponentLetter c = false) :
    readExponent (exponentChars exponent ++ s) = (exponent, s) := by
  have hstop : ∀ c ∈ s.head?, c.isDigit = false := fun c hc => (h c hc).1
  cases exponent with
  | some e =>
    obtain ⟨letter, sign, digits⟩ := e
    obtain ⟨hletter, hne, hdigits⟩ := he _ rfl
    have hhead : ∀ c ∈ (digits ++ s).head?, c ≠ '+' ∧ c ≠ '-' := by
      intro c hc
      cases digits with
      | nil => exact absurd rfl hne
      | cons d digits =>
        obtain rfl : d = c := Option.some.inj hc
        have hother := (digit_other (hdigits d List.mem_cons_self)).2.2.2
        exact ⟨fun heq => hother (heq ▸ by simp), fun heq => hother (heq ▸ by simp)⟩
    have htake := Words.takeWhile_append_stop hdigits hstop
    have hdrop := Words.dropWhile_append_stop hdigits hstop
    change readExponent (letter :: (signChars sign ++ digits ++ s)) = _
    rw [List.append_assoc, readExponent, readSign_append sign hhead]
    simp only [htake, hdrop]
    rw [if_pos ⟨hletter, hne⟩]
  | none =>
    change readExponent s = (none, s)
    cases s with
    | nil => rfl
    | cons c s =>
      have hletter := (h c rfl).2
      rw [readExponent, if_neg]
      rintro ⟨hyes, -⟩
      rw [hletter] at hyes
      exact Bool.false_ne_true hyes

/-- What cannot go on with a name cannot go on with a number. -/
lemma not_nameChar {c : Char} (h : isNameChar c = false) :
    c.isDigit = false ∧ isExponentLetter c = false := by
  refine ⟨Bool.eq_false_iff.mpr fun hdigit => ?_, Bool.eq_false_iff.mpr fun hletter => ?_⟩
  · rw [(digit_other hdigit).1] at h
    exact Bool.false_ne_true h.symm
  · unfold isExponentLetter at hletter
    rw [Bool.or_eq_true, beq_iff_eq, beq_iff_eq] at hletter
    rcases hletter with rfl | rfl
    · exact absurd h (by decide)
    · exact absurd h (by decide)

lemma exponentLetter_other {c : Char} (h : isExponentLetter c = true) :
    c.isDigit = false ∧ c ≠ '.' := by
  unfold isExponentLetter at h
  rw [Bool.or_eq_true, beq_iff_eq, beq_iff_eq] at h
  rcases h with rfl | rfl
  · decide
  · decide

section Number

variable {n : NumberParts} (hn : n.WellFormed) {rest : List Char} (hrest : Delimited rest)
include hn hrest

/-- What stands behind the fraction does not go on with it. -/
lemma head_exponent : ∀ c ∈ (exponentChars n.exponent ++ rest).head?,
    c.isDigit = false ∧ c ≠ '.' := by
  intro c hc
  cases he : n.exponent with
  | none =>
    rw [he] at hc
    obtain ⟨hname, hpoint, -⟩ := hrest c hc
    exact ⟨(not_nameChar hname).1, hpoint⟩
  | some e =>
    rw [he] at hc
    obtain rfl : e.1 = c := Option.some.inj hc
    exact exponentLetter_other (hn.exponent e he).1

/-- What stands behind the digits before the point is no digit. -/
lemma head_fraction :
    ∀ c ∈ (fractionChars n.fraction ++ (exponentChars n.exponent ++ rest)).head?,
      c.isDigit = false := by
  intro c hc
  cases hf : n.fraction with
  | none =>
    rw [hf] at hc
    exact (head_exponent hn hrest c hc).1
  | some f =>
    rw [hf] at hc
    obtain rfl : '.' = c := Option.some.inj hc
    decide

variable (rest) in
omit hrest in
/-- A number without its sign starts with a digit or a point. -/
lemma head_whole : ∃ c s, n.whole ++ (fractionChars n.fraction ++
    (exponentChars n.exponent ++ rest)) = c :: s ∧ (c.isDigit = true ∨ c = '.') := by
  cases hw : n.whole with
  | cons d whole => exact ⟨d, _, rfl, Or.inl (hn.whole d (hw ▸ List.mem_cons_self))⟩
  | nil =>
    cases hf : n.fraction with
    | some f => exact ⟨'.', _, rfl, Or.inr rfl⟩
    | none =>
      have hdigit := hn.digit
      rw [hw, hf] at hdigit
      rcases hdigit with h | h
      · exact absurd rfl h
      · exact absurd rfl h

variable (rest) in
omit hrest in
/-- A number without its sign starts with no sign. -/
lemma head_unsigned : ∀ c ∈ (n.whole ++ (fractionChars n.fraction ++
    (exponentChars n.exponent ++ rest))).head?, c ≠ '+' ∧ c ≠ '-' := by
  intro c hc
  obtain ⟨d, s, hs, hd⟩ := head_whole hn rest
  rw [hs] at hc
  obtain rfl : d = c := Option.some.inj hc
  rcases hd with hd | rfl
  · have hother := (digit_other hd).2.2.2
    exact ⟨fun heq => hother (heq ▸ by simp), fun heq => hother (heq ▸ by simp)⟩
  · decide

omit hrest in
/-- A number starts neither with a quote nor with a letter. -/
lemma head_chars (rest : List Char) :
    ∃ c t, n.chars ++ rest = c :: t ∧ c ≠ '\'' ∧ c.isAlpha = false := by
  obtain ⟨d, t, ht, hd⟩ := head_whole hn rest
  have hchars : n.chars ++ rest = signChars n.sign ++ d :: t := by
    rw [← ht]
    unfold NumberParts.chars
    rw [List.append_assoc, List.append_assoc, List.append_assoc]
  rw [hchars]
  cases n.sign with
  | some sign =>
    cases sign with
    | plus => exact ⟨'+', d :: t, rfl, by decide, by decide⟩
    | minus => exact ⟨'-', d :: t, rfl, by decide, by decide⟩
  | none =>
    refine ⟨d, t, rfl, ?_⟩
    rcases hd with hd | rfl
    · have hother := digit_other hd
      exact ⟨fun heq => hother.2.2.2 (heq ▸ by simp), hother.2.1⟩
    · decide

/-- A number is read back. -/
lemma readNumber_append : readNumber (n.chars ++ rest) = some (n.value, rest) := by
  have hexponent : ∀ c ∈ rest.head?, c.isDigit = false ∧ isExponentLetter c = false :=
    fun c hc => not_nameChar (hrest c hc).1
  have hdigit : ¬(n.whole = [] ∧ n.fraction.getD [] = []) := by
    rintro ⟨hwhole, hfraction⟩
    rcases hn.digit with h | h
    · exact h hwhole
    · exact h hfraction
  have hchars : n.chars ++ rest = signChars n.sign ++ (n.whole ++ (fractionChars n.fraction ++
      (exponentChars n.exponent ++ rest))) := by
    unfold NumberParts.chars
    rw [List.append_assoc, List.append_assoc, List.append_assoc]
  unfold readNumber
  rw [hchars, readSign_append n.sign (head_unsigned hn rest)]
  simp only [Words.takeWhile_append_stop hn.whole (head_fraction hn hrest),
    Words.dropWhile_append_stop hn.whole (head_fraction hn hrest),
    readFraction_append hn.fraction (head_exponent hn hrest),
    readExponent_append hn.exponent hexponent]
  rw [if_neg hdigit]

end Number

lemma doubleQuotes_cons (c : Char) (s : List Char) :
    doubleQuotes (c :: s) = (if c = '\'' then ['\'', '\''] else [c]) ++ doubleQuotes s :=
  List.flatMap_cons

/-- A text is read back up to its last quote. -/
lemma readQuoted_append (s : List Char) {rest : List Char} (hrest : ∀ c ∈ rest.head?, c ≠ '\'') :
    readQuoted (doubleQuotes s ++ '\'' :: rest) = some (s, rest) := by
  induction s with
  | nil =>
    change readQuoted ('\'' :: rest) = _
    cases rest with
    | nil => rfl
    | cons c rest =>
      have hc := hrest c rfl
      rw [readQuoted]
      rintro tail htail
      exact hc (List.cons.inj htail).1
  | cons c s ih =>
    rw [doubleQuotes_cons]
    by_cases hc : c = '\''
    · subst hc
      rw [if_pos rfl]
      change readQuoted ('\'' :: '\'' :: (doubleQuotes s ++ '\'' :: rest)) = _
      rw [readQuoted, ih, Option.map_some]
    · rw [if_neg hc]
      change readQuoted (c :: (doubleQuotes s ++ '\'' :: rest)) = _
      rw [readQuoted, ih, Option.map_some]
      · exact fun _ h => absurd h hc
      · exact fun h => absurd h hc

lemma nameChar_of_isAlpha {c : Char} (h : c.isAlpha = true) : isNameChar c = true := by
  unfold isNameChar Char.isAlphanum
  rw [h]
  rfl

/-- What has another capital is a letter. -/
lemma isAlpha_of_toUpper_ne {c : Char} (h : c.toUpper ≠ c) : c.isAlpha = true := by
  have hlower : c.val ≥ 'a'.val ∧ c.val ≤ 'z'.val := by
    by_contra hnot
    exact h (dif_neg hnot)
  have hlow : 97 ≤ c.toNat := UInt32.le_iff_toNat_le.mp hlower.1
  have hhigh : c.toNat < 123 := Nat.lt_succ_of_le (UInt32.le_iff_toNat_le.mp hlower.2)
  have hall : ∀ n < 123, 97 ≤ n → (Char.ofNat n).isAlpha = true := by decide
  rw [← Char.ofNat_toNat c]
  exact hall c.toNat hhigh hlow

lemma isAlpha_of_isUpper_toUpper {c : Char} (h : c.toUpper.isUpper = true) : c.isAlpha = true := by
  by_cases hc : c.toUpper = c
  · rw [hc] at h
    unfold Char.isAlpha
    rw [h, Bool.true_or]
  · exact isAlpha_of_toUpper_ne hc

lemma nameChar_of_toUpper {c : Char} (h : c.toUpper.isUpper = true ∨ c.toUpper = '_') :
    isNameChar c = true := by
  rcases h with h | h
  · exact nameChar_of_isAlpha (isAlpha_of_isUpper_toUpper h)
  · by_cases hc : c.toUpper = c
    · rw [← hc, h]
      decide
    · exact nameChar_of_isAlpha (isAlpha_of_toUpper_ne hc)

/-- A word that is a value has capitals and underscores, and the first is a capital. -/
lemma keyword_chars (k : Keyword) : (∀ c ∈ k.text.toList, c.isUpper = true ∨ c = '_') ∧
    k.text.toList.head?.any Char.isUpper = true := by
  have hall : (k.text.toList.all fun c => decide (c.isUpper = true ∨ c = '_')) = true ∧
      k.text.toList.head?.any Char.isUpper = true := by
    cases k <;> decide
  exact ⟨fun c hc => of_decide_eq_true (List.all_eq_true.mp hall.1 c hc), hall.2⟩

lemma find_keyword (k : Keyword) :
    (keywords.find? fun k' => k'.text.toList == k.text.toList) = some k := by
  cases k <;> decide

/-- A word is read back. -/
lemma readKeyword_append {k : Keyword} {s : List Char} (h : s.map Char.toUpper = k.text.toList)
    {rest : List Char} (hrest : ∀ c ∈ rest.head?, isNameChar c = false) :
    readKeyword (s ++ rest) = some (.keyword k, rest) := by
  have hname : ∀ c ∈ s, isNameChar c = true := by
    intro c hc
    have hupper : c.toUpper ∈ k.text.toList := h ▸ List.mem_map_of_mem hc
    exact nameChar_of_toUpper ((keyword_chars k).1 _ hupper)
  unfold readKeyword
  rw [Words.takeWhile_append_stop hname hrest, Words.dropWhile_append_stop hname hrest, h,
    find_keyword, Option.map_some]

/-- What the reader takes from a literal is the whole literal, with its value. -/
theorem readLiteral_append {s : List Char} {v : Literal} (h : IsLiteral s v) {rest : List Char}
    (hrest : Delimited rest) : readLiteral (s ++ rest) = some (v, rest) := by
  cases h with
  | keyword k s hs =>
    have hread := readKeyword_append hs fun c hc => (hrest c hc).1
    have hhead := (keyword_chars k).2
    rw [← hs, List.head?_map] at hhead
    cases s with
    | nil => exact absurd hhead Bool.false_ne_true
    | cons c s =>
      have halpha : c.isAlpha = true := isAlpha_of_isUpper_toUpper hhead
      have hquote : c ≠ '\'' := fun heq => absurd (heq ▸ halpha) (by decide)
      rw [List.cons_append] at hread ⊢
      rw [readLiteral, if_neg hquote, if_pos halpha, hread]
  | number n hn =>
    obtain ⟨c, t, ht, hc⟩ : ∃ c t, n.chars ++ rest = c :: t ∧ c ≠ '\'' ∧ c.isAlpha = false := by
      exact head_chars hn rest
    have hstop : (rest.head?.any isNameChar) = false := by
      cases rest with
      | nil => rfl
      | cons d rest => exact (hrest d rfl).1
    have hread := readNumber_append hn hrest
    rw [ht] at hread ⊢
    rw [readLiteral, if_neg hc.1, if_neg (Bool.not_eq_true _ ▸ hc.2), hread]
    refine Option.filter_eq_some_iff.mpr ⟨rfl, ?_⟩
    change (!(rest.head?.any isNameChar)) = true
    rw [hstop, Bool.not_false]
  | text s =>
    have hread := readQuoted_append s fun c hc => (hrest c hc).2.2
    rw [List.cons_append, List.append_assoc, readLiteral, if_pos rfl, List.singleton_append, hread,
      Option.map_some]

end SqlLiteral
