import Orca.Data.Text
import Orca.Library.Cut
import Orca.Library.SqlLiteral

/-!
# Defaults of columns

`default_literal`, which turns the default that a plugin declares for a column into the text that
stands behind `DEFAULT`.  It trims the default, and then accepts a word, a number or a text between
quotes.

The default is accepted if the trimmed text is a literal of SQL, and then what stands behind
`DEFAULT` is that literal and nothing else (`defaultLiteral_eq`).
-/

namespace Orca.Plugins

open SqlLiteral

/-! ## Numbers -/

/-- `str::split_once` with a pattern that is a set of characters. -/
def splitOnce (p : Char → Bool) (s : List Char) : Option (List Char × List Char) :=
  match s.dropWhile (!p ·) with
  | [] => none
  | _ :: rest => some (s.takeWhile (!p ·), rest)

/-- `strip_prefix(['-', '+'])`, or the text if it has none of them in front. -/
def stripSign : List Char → List Char
  | '-' :: rest => rest
  | '+' :: rest => rest
  | s => s

/-- The mantissa, and the digits of the exponent if there is one. -/
def splitExponent (body : List Char) : List Char × Option (List Char) :=
  match splitOnce (fun c => c == 'e' || c == 'E') body with
  | some (m, e) => (m, some (stripSign e))
  | none => (body, none)

/-- What stands before the point and behind it. -/
def splitPoint (mantissa : List Char) : List Char × List Char :=
  (splitOnce (· == '.') mantissa).getD (mantissa, [])

/-- `is_numeric_literal`. -/
def isNumericLiteral (d : List Char) : Bool :=
  let body := stripSign d
  let (mantissa, exponent) := splitExponent body
  let (int, frac) := splitPoint mantissa
  let digits := fun s : List Char => s.all Char.isDigit
  (!int.isEmpty || !frac.isEmpty) && digits int && digits frac &&
    exponent.all fun e => !e.isEmpty && digits e

/-! ## Texts between quotes -/

/-- The loop of `default_literal` over the characters between the quotes, with the value that it has
so far.  A quote must be followed by another one. -/
def unquote : (chars value : List Char) → Option (List Char)
  | [], value => some value
  | '\'' :: '\'' :: chars, value => unquote chars (value ++ ['\''])
  | '\'' :: _, _ => none
  | ch :: chars, value => unquote chars (value ++ [ch])

/-- `strip_prefix('\'')` and `strip_suffix('\'')`. -/
def stripQuotes : List Char → Option (List Char)
  | '\'' :: rest => if rest.getLast? = some '\'' then some rest.dropLast else none
  | _ => none

/-- `default_literal`. -/
def defaultLiteral (d : String) : Option String :=
  let d := trim d
  let upper := d.toList.map Char.toUpper
  if upper ∈ ["NULL", "CURRENT_TIMESTAMP", "CURRENT_DATE", "CURRENT_TIME"].map String.toList then
    some (String.ofList upper)
  else if isNumericLiteral d.toList then some d
  else do
    let inner ← stripQuotes d.toList
    let value ← unquote inner []
    some (String.ofList ('\'' :: (doubleQuotes value ++ ['\''])))

/-! ## What is accepted -/

lemma splitOnce_eq_once (p : Char → Bool) (s : List Char) : splitOnce p s = Cut.once p s := by
  unfold splitOnce Cut.once
  cases s.dropWhile (!p ·) <;> rfl

lemma splitOnce_eq_some {p : Char → Bool} {s m r : List Char} (h : splitOnce p s = some (m, r)) :
    ∃ c, s = m ++ c :: r ∧ p c = true ∧ ∀ a ∈ m, p a = false := by
  rw [splitOnce_eq_once] at h
  exact Cut.once_eq_some_iff.mp h

lemma splitOnce_eq_none {p : Char → Bool} {s : List Char} :
    splitOnce p s = none ↔ ∀ a ∈ s, p a = false := by
  rw [splitOnce_eq_once]
  exact Cut.once_eq_none_iff

lemma splitOnce_append {p : Char → Bool} {m r : List Char} {c : Char} (hm : ∀ a ∈ m, p a = false)
    (hc : p c = true) : splitOnce p (m ++ c :: r) = some (m, r) := by
  rw [splitOnce_eq_once]
  exact Cut.once_append hm hc

lemma exists_sign (s : List Char) : ∃ sign, s = signChars sign ++ stripSign s := by
  unfold stripSign
  split
  next rest => exact ⟨some .minus, rfl⟩
  next rest => exact ⟨some .plus, rfl⟩
  next => exact ⟨none, rfl⟩

/-- The sign in front of what has none is the one that is stripped. -/
lemma stripSign_append (sign : Option Sign) {s : List Char}
    (h : ∀ c ∈ s.head?, c ≠ '+' ∧ c ≠ '-') : stripSign (signChars sign ++ s) = s := by
  cases sign with
  | some sign => cases sign <;> rfl
  | none =>
    change stripSign s = s
    unfold stripSign
    split
    next => exact absurd rfl (h '-' rfl).2
    next => exact absurd rfl (h '+' rfl).1
    next => rfl

/-- The mantissa is followed by the exponent. -/
lemma exists_exponent (body : List Char) : ∃ exponent,
    body = (splitExponent body).1 ++ exponentChars exponent ∧
      (splitExponent body).2 = exponent.map (·.2.2) ∧
      ∀ e ∈ exponent, isExponentLetter e.1 = true := by
  unfold splitExponent
  cases h : splitOnce (fun c => c == 'e' || c == 'E') body with
  | none => exact ⟨none, (List.append_nil _).symm, rfl, nofun⟩
  | some parts =>
    obtain ⟨m, e⟩ := parts
    obtain ⟨c, rfl, hc, -⟩ := splitOnce_eq_some h
    obtain ⟨sign, hsign⟩ := exists_sign e
    refine ⟨some (c, sign, stripSign e), ?_, rfl, ?_⟩
    · change m ++ c :: e = m ++ c :: (signChars sign ++ stripSign e)
      rw [← hsign]
    · rintro e he
      obtain rfl := Option.some.inj he
      exact hc

/-- The digits before the point are followed by the fraction. -/
lemma exists_fraction (mantissa : List Char) : ∃ fraction,
    mantissa = (splitPoint mantissa).1 ++ fractionChars fraction ∧
      (splitPoint mantissa).2 = fraction.getD [] := by
  unfold splitPoint
  cases h : splitOnce (· == '.') mantissa with
  | none => exact ⟨none, (List.append_nil _).symm, rfl⟩
  | some parts =>
    obtain ⟨int, frac⟩ := parts
    obtain ⟨c, rfl, hc, -⟩ := splitOnce_eq_some h
    obtain rfl : c = '.' := beq_iff_eq.mp hc
    exact ⟨some frac, rfl, rfl⟩

lemma isNumericLiteral_eq_true {d : List Char} : isNumericLiteral d = true ↔
    let m := splitExponent (stripSign d)
    let p := splitPoint m.1
    (p.1 ≠ [] ∨ p.2 ≠ []) ∧ Digits p.1 ∧ Digits p.2 ∧ ∀ e ∈ m.2, e ≠ [] ∧ Digits e := by
  simp only [isNumericLiteral, Bool.and_eq_true, Bool.or_eq_true, Bool.not_eq_true',
    List.isEmpty_eq_false_iff, List.all_eq_true, Option.all_eq_true, Option.mem_def, Digits,
    and_assoc]

section Parts

variable {n : NumberParts} (hn : n.WellFormed)
include hn

/-- Digits and a point have no letter of an exponent. -/
lemma not_letter_mantissa : ∀ c ∈ n.whole ++ fractionChars n.fraction,
    (c == 'e' || c == 'E') = false := by
  intro c hc
  rcases List.mem_append.mp hc with hc | hc
  · exact (digit_other (hn.whole c hc)).2.2.1
  · cases hf : n.fraction with
    | none =>
      rw [hf] at hc
      exact absurd hc List.not_mem_nil
    | some f =>
      rw [hf] at hc
      rcases List.mem_cons.mp hc with rfl | hc
      · decide
      · exact (digit_other (hn.fraction f hf c hc)).2.2.1

/-- The exponent that the code finds is that of the number. -/
lemma splitExponent_chars :
    splitExponent (n.whole ++ (fractionChars n.fraction ++ exponentChars n.exponent)) =
      (n.whole ++ fractionChars n.fraction, n.exponent.map (·.2.2)) := by
  have hmantissa := not_letter_mantissa hn
  unfold splitExponent
  rw [← List.append_assoc]
  cases he : n.exponent with
  | none =>
    have hnone : splitOnce (fun c => c == 'e' || c == 'E')
        (n.whole ++ fractionChars n.fraction ++ exponentChars none) = none := by
      rw [splitOnce_eq_none]
      change ∀ c ∈ n.whole ++ fractionChars n.fraction ++ [], _
      rw [List.append_nil]
      exact hmantissa
    rw [hnone]
    exact Prod.ext (List.append_nil _) rfl
  | some e =>
    obtain ⟨letter, sign, digits⟩ := e
    obtain ⟨hletter, hne, hdigits⟩ := hn.exponent _ he
    have hsome : splitOnce (fun c => c == 'e' || c == 'E') (n.whole ++ fractionChars n.fraction ++
        exponentChars (some (letter, sign, digits))) =
          some (n.whole ++ fractionChars n.fraction, signChars sign ++ digits) :=
      splitOnce_append hmantissa hletter
    have hhead : ∀ c ∈ digits.head?, c ≠ '+' ∧ c ≠ '-' := by
      intro c hc
      have hother := (digit_other (hdigits c (List.mem_of_mem_head? hc))).2.2.2
      exact ⟨fun heq => hother (heq ▸ by simp), fun heq => hother (heq ▸ by simp)⟩
    rw [hsome]
    change (n.whole ++ fractionChars n.fraction, some (stripSign (signChars sign ++ digits))) = _
    rw [stripSign_append sign hhead]
    rfl

/-- The fraction that the code finds is that of the number. -/
lemma splitPoint_chars :
    splitPoint (n.whole ++ fractionChars n.fraction) = (n.whole, n.fraction.getD []) := by
  have hwhole : ∀ c ∈ n.whole, (c == '.') = false := by
    intro c hc
    have hother := (digit_other (hn.whole c hc)).2.2.2
    exact beq_eq_false_iff_ne.mpr fun heq => hother (heq ▸ by simp)
  unfold splitPoint
  cases n.fraction with
  | none =>
    change (splitOnce (· == '.') (n.whole ++ [])).getD (n.whole ++ [], []) = (n.whole, [])
    rw [List.append_nil, splitOnce_eq_none.mpr hwhole, Option.getD_none]
  | some f =>
    change (splitOnce (· == '.') (n.whole ++ '.' :: f)).getD _ = (n.whole, f)
    rw [splitOnce_append hwhole (by decide), Option.getD_some]

lemma stripSign_chars :
    stripSign n.chars = n.whole ++ (fractionChars n.fraction ++ exponentChars n.exponent) := by
  have hhead := head_unsigned hn []
  rw [List.append_nil] at hhead
  exact stripSign_append n.sign hhead

end Parts

/-- The numbers are those of SQL. -/
lemma isNumericLiteral_iff {d : List Char} :
    isNumericLiteral d = true ↔ ∃ n : NumberParts, n.WellFormed ∧ n.chars = d := by
  rw [isNumericLiteral_eq_true]
  constructor
  · intro h
    obtain ⟨hdigit, hwhole, hfrac, hexp⟩ := h
    obtain ⟨sign, hsign⟩ := exists_sign d
    obtain ⟨exponent, hbody, hexponent, hletter⟩ := exists_exponent (stripSign d)
    obtain ⟨fraction, hmantissa, hfraction⟩ := exists_fraction (splitExponent (stripSign d)).1
    refine ⟨⟨sign, _, fraction, exponent⟩, ⟨hwhole, ?_, ?_, ?_⟩, ?_⟩
    · rintro f rfl
      rw [hfraction] at hfrac
      exact hfrac
    · rw [hfraction] at hdigit
      exact hdigit
    · rintro e rfl
      obtain ⟨hne, hdigits⟩ := hexp e.2.2 (by rw [hexponent]; rfl)
      exact ⟨hletter e rfl, hne, hdigits⟩
    · unfold NumberParts.chars
      rw [← List.append_assoc (splitPoint _).1, ← hmantissa, ← hbody, ← hsign]
  · rintro ⟨n, hn, rfl⟩
    simp only [stripSign_chars hn, splitExponent_chars hn, splitPoint_chars hn]
    refine ⟨hn.digit, hn.whole, ?_, ?_⟩
    · cases hf : n.fraction with
      | none => exact fun c hc => absurd hc List.not_mem_nil
      | some f => exact hn.fraction f hf
    · intro digits hdigits
      obtain ⟨e, he, rfl⟩ := Option.mem_map.mp hdigits
      exact (hn.exponent e he).2

/-- Quotes that are written twice are read once. -/
lemma unquote_doubleQuotes (s value : List Char) :
    unquote (doubleQuotes s) value = some (value ++ s) := by
  induction s generalizing value with
  | nil => exact congrArg some (List.append_nil value).symm
  | cons c s ih =>
    rw [doubleQuotes_cons, List.append_cons value c s]
    by_cases hc : c = '\''
    · subst hc
      rw [if_pos rfl]
      exact ih _
    · rw [if_neg hc, List.singleton_append, unquote]
      · exact ih _
      · exact fun _ h => absurd h hc
      · exact fun h => absurd h hc

/-- The loop succeeds if every quote is written twice. -/
lemma eq_doubleQuotes {inner value result : List Char} (h : unquote inner value = some result) :
    ∃ s, result = value ++ s ∧ inner = doubleQuotes s := by
  fun_induction unquote inner value with
  | case1 value => exact ⟨[], by rw [List.append_nil, Option.some.inj h], rfl⟩
  | case2 chars value ih =>
    obtain ⟨s, rfl, rfl⟩ := ih h
    exact ⟨'\'' :: s, by rw [List.append_assoc, List.singleton_append], rfl⟩
  | case3 => cases h
  | case4 ch chars value hpair hsingle ih =>
    obtain ⟨s, rfl, rfl⟩ := ih h
    refine ⟨ch :: s, by rw [List.append_assoc, List.singleton_append], ?_⟩
    have hch : ch ≠ '\'' := fun heq => hsingle heq
    change _ = List.flatMap _ (ch :: s)
    rw [List.flatMap_cons, if_neg hch, List.singleton_append]
    rfl

/-- The quotes around a text are stripped. -/
lemma stripQuotes_eq_some {d inner : List Char} :
    stripQuotes d = some inner ↔ d = '\'' :: (inner ++ ['\'']) := by
  constructor
  · intro h
    unfold stripQuotes at h
    split at h
    next rest =>
      obtain ⟨hlast, hinner⟩ := Option.ite_none_right_eq_some.mp h
      rw [← Option.some.inj hinner, List.dropLast_append_getLast? _ hlast]
    next => cases h
  · rintro rfl
    rw [stripQuotes, if_pos List.getLast?_concat, List.dropLast_concat]

/-- A text is a word in some case if its capitals are one of the four texts. -/
lemma mem_words_iff {upper : List Char} :
    upper ∈ ["NULL", "CURRENT_TIMESTAMP", "CURRENT_DATE", "CURRENT_TIME"].map String.toList ↔
      ∃ k : Keyword, upper = k.text.toList := by
  simp only [List.map_cons, List.map_nil, List.mem_cons, List.not_mem_nil, or_false]
  constructor
  · rintro (h | h | h | h)
    · exact ⟨.null, h⟩
    · exact ⟨.currentTimestamp, h⟩
    · exact ⟨.currentDate, h⟩
    · exact ⟨.currentTime, h⟩
  · rintro ⟨k, h⟩
    cases k with
    | null => exact Or.inl h
    | currentTimestamp => exact Or.inr (Or.inl h)
    | currentDate => exact Or.inr (Or.inr (Or.inl h))
    | currentTime => exact Or.inr (Or.inr (Or.inr h))

/-- What does not start with a letter is no word. -/
lemma not_mem_words {c : Char} {s : List Char} (hc : c.isAlpha = false) :
    (c :: s).map Char.toUpper ∉
      ["NULL", "CURRENT_TIMESTAMP", "CURRENT_DATE", "CURRENT_TIME"].map String.toList := by
  intro hmem
  obtain ⟨k, hk⟩ := mem_words_iff.mp hmem
  have hhead := (keyword_chars k).2
  rw [← hk] at hhead
  rw [isAlpha_of_isUpper_toUpper hhead] at hc
  exact Bool.false_ne_true hc.symm

lemma not_isNumericLiteral (s : List Char) : ¬isNumericLiteral ('\'' :: s) = true := by
  intro h
  obtain ⟨n, hn, hchars⟩ := isNumericLiteral_iff.mp h
  obtain ⟨c, t, ht, hc, -⟩ := head_chars hn []
  rw [List.append_nil, hchars] at ht
  exact hc (List.cons.inj ht).1.symm

/-- A literal is accepted, and what stands behind `DEFAULT` is a literal of the same value. -/
theorem defaultLiteral_eq {d : String} {v : Literal} (h : IsLiteral (trim d).toList v) :
    ∃ sql, defaultLiteral d = some sql ∧ IsLiteral sql.toList v := by
  unfold defaultLiteral
  generalize trim d = t at h ⊢
  generalize hs : t.toList = s at h
  simp only [hs]
  cases h with
  | keyword k s hk =>
    have hcapital : k.text.toList.map Char.toUpper = k.text.toList := by cases k <;> decide
    refine ⟨_, if_pos (mem_words_iff.mpr ⟨k, hk⟩), ?_⟩
    rw [String.toList_ofList, hk]
    exact .keyword k _ hcapital
  | number n hn =>
    obtain ⟨c, r, hr, -, hc⟩ := head_chars hn []
    rw [List.append_nil] at hr
    have hword := not_mem_words (s := r) hc
    rw [← hr] at hword
    refine ⟨t, ?_, hs ▸ .number n hn⟩
    rw [if_neg hword, if_pos (isNumericLiteral_iff.mpr ⟨n, hn, rfl⟩)]
  | text value =>
    have hunquote := unquote_doubleQuotes value []
    rw [List.nil_append] at hunquote
    refine ⟨String.ofList ('\'' :: (doubleQuotes value ++ ['\''])), ?_, ?_⟩
    · rw [if_neg (not_mem_words (by decide)), if_neg (not_isNumericLiteral _),
        stripQuotes_eq_some.mpr rfl]
      simp only [Option.bind_eq_bind, Option.bind_some, hunquote]
    · rw [String.toList_ofList]
      exact .text value

/-- What is accepted is a literal. -/
theorem exists_isLiteral {d sql : String} (h : defaultLiteral d = some sql) :
    ∃ v, IsLiteral (trim d).toList v := by
  unfold defaultLiteral at h
  simp only at h
  by_cases hword : (trim d).toList.map Char.toUpper ∈
      ["NULL", "CURRENT_TIMESTAMP", "CURRENT_DATE", "CURRENT_TIME"].map String.toList
  · obtain ⟨k, hk⟩ := mem_words_iff.mp hword
    exact ⟨_, .keyword k _ hk⟩
  · rw [if_neg hword] at h
    by_cases hnumber : isNumericLiteral (trim d).toList = true
    · obtain ⟨n, hn, hchars⟩ := isNumericLiteral_iff.mp hnumber
      rw [← hchars]
      exact ⟨_, .number n hn⟩
    · rw [if_neg hnumber] at h
      obtain ⟨inner, hinner, h⟩ := Option.bind_eq_some_iff.mp h
      obtain ⟨value, hvalue, -⟩ := Option.bind_eq_some_iff.mp h
      obtain ⟨s, -, rfl⟩ := eq_doubleQuotes hvalue
      rw [stripQuotes_eq_some.mp hinner]
      exact ⟨_, .text s⟩

end Orca.Plugins
