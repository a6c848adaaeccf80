import Mathlib.Data.List.Basic
import Mathlib.Data.List.Infix
import Mathlib.Data.String.Basic
import Mathlib.Tactic.IntervalCases
import Orca.Library.Words

/-!
# Text

The operations on `str` that the program uses where Lean's own behave differently: `trim` removes
the characters with the Unicode property `White_Space`, and `lines` drops a last empty line and the
carriage return before a newline.  `colonHex` is the spelling of a digest as `openssl` prints it.

The results are the two round trips the program relies on: a text without white space is its own
trimmed form, and lines joined by newlines read back as they were.
-/

namespace Orca

/-- `char::is_whitespace`: the Unicode property `White_Space`. -/
def isWhitespace (c : Char) : Bool :=
  let n := c.toNat
  (0x9 ≤ n && n ≤ 0xD) || n == 0x20 || n == 0x85 || n == 0xA0 || n == 0x1680 ||
    (0x2000 ≤ n && n ≤ 0x200A) || n == 0x2028 || n == 0x2029 || n == 0x202F || n == 0x205F ||
    n == 0x3000

/-- `str::trim`. -/
def trim (s : String) : String :=
  String.ofList (((s.toList.dropWhile isWhitespace).reverse.dropWhile isWhitespace).reverse)

/-- A line without its carriage return. -/
def stripReturn (l : List Char) : List Char :=
  if l.getLast? = some '\r' then l.dropLast else l

/-- `str::lines`: what follows the last newline is a line as it is, if it is not empty. -/
def lines (s : String) : List String :=
  let parts := s.toList.splitOn '\n'
  let full := parts.dropLast.map stripReturn ++ parts.getLast?.toList.filter (· ≠ [])
  full.map String.ofList

/-- `str::contains`. -/
def containsText (s pattern : String) : Bool :=
  s.toList.tails.any fun rest => pattern.toList.isPrefixOf rest

/-- `str::strip_suffix`. -/
def stripSuffix (s suffix : String) : Option String :=
  if suffix.toList <:+ s.toList then
    some (String.ofList (s.toList.take (s.toList.length - suffix.toList.length)))
  else none

/-- `to_ascii_lowercase`. -/
def toAsciiLowercase (s : String) : String := String.ofList (s.toList.map Char.toLower)

/-- `Vec::join("\n")` with a newline at the end. -/
def unlines (ls : List String) : String :=
  String.ofList (['\n'].intercalate (ls.map String.toList) ++ ['\n'])

/-- The lines with a newline behind each of them. -/
def endLines (ls : List (List Char)) : String := String.ofList (ls.flatMap (· ++ ['\n']))

/-! ## Containment -/

lemma any_isPrefixOf_iff {word l : List Char} :
    l.tails.any word.isPrefixOf = true ↔ word <:+: l := by
  rw [List.any_eq_true, List.infix_iff_prefix_suffix]
  constructor
  · rintro ⟨rest, hrest, hstart⟩
    exact ⟨rest, List.isPrefixOf_iff_prefix.mp hstart, (List.mem_tails rest l).mp hrest⟩
  · rintro ⟨rest, hstart, hrest⟩
    exact ⟨rest, (List.mem_tails rest l).mpr hrest, List.isPrefixOf_iff_prefix.mpr hstart⟩

lemma containsText_iff {s pattern : String} :
    containsText s pattern = true ↔ pattern.toList <:+: s.toList :=
  any_isPrefixOf_iff

/-! ## Trimming -/

/-- A letter or a digit is no white space. -/
lemma isWhitespace_of_isAlphanum {c : Char} (h : c.isAlphanum = true) :
    isWhitespace c = false := by
  have hbounds : (0x30 ≤ c.toNat ∧ c.toNat ≤ 0x39) ∨ (0x41 ≤ c.toNat ∧ c.toNat ≤ 0x5A) ∨
      (0x61 ≤ c.toNat ∧ c.toNat ≤ 0x7A) := by
    have hupper : c.isUpper = true → 0x41 ≤ c.toNat ∧ c.toNat ≤ 0x5A := of_decide_eq_true
    have hlower : c.isLower = true → 0x61 ≤ c.toNat ∧ c.toNat ≤ 0x7A := fun h =>
      (Bool.and_eq_true_iff.mp h).imp of_decide_eq_true of_decide_eq_true
    have hdigit : c.isDigit = true → 0x30 ≤ c.toNat ∧ c.toNat ≤ 0x39 := fun h =>
      (Bool.and_eq_true_iff.mp h).imp of_decide_eq_true of_decide_eq_true
    rcases Bool.or_eq_true_iff.mp h with h | h
    · rcases Bool.or_eq_true_iff.mp h with h | h
      · exact Or.inr (Or.inl (hupper h))
      · exact Or.inr (Or.inr (hlower h))
    · exact Or.inl (hdigit h)
  by_contra hws
  rw [Bool.not_eq_false] at hws
  simp only [isWhitespace, Bool.or_eq_true, Bool.and_eq_true, decide_eq_true_eq, beq_iff_eq] at hws
  omega

lemma dropWhile_eq_self {α : Type*} {p : α → Bool} {l : List α} (h : ∀ a ∈ l, p a = false) :
    l.dropWhile p = l := by
  cases l with
  | nil => rfl
  | cons a l => rw [List.dropWhile_cons_of_neg (by simp [h a List.mem_cons_self])]

lemma trim_eq_self {s : String} (h : ∀ c ∈ s.toList, isWhitespace c = false) : trim s = s := by
  unfold trim
  rw [dropWhile_eq_self h, dropWhile_eq_self fun c hc => h c (List.mem_reverse.mp hc),
    List.reverse_reverse, String.ofList_toList]

/-! ## Lines -/

lemma stripReturn_eq_self {l : List Char} (h : l.getLast? ≠ some '\r') : stripReturn l = l :=
  if_neg h

/-- The characters of a line are in the text, and none of them is a newline. -/
lemma mem_of_mem_lines {text s : String} (hs : s ∈ lines text) :
    ∀ c ∈ s.toList, c ∈ text.toList ∧ c ≠ '\n' := by
  have hpart : ∀ part ∈ text.toList.splitOn '\n', ∀ c ∈ part, c ∈ text.toList ∧ c ≠ '\n' := by
    intro part hmem c hc
    obtain ⟨hc, hne⟩ := Words.mem_of_mem_splitOnP hmem c hc
    exact ⟨hc, beq_eq_false_iff_ne.mp hne⟩
  unfold lines at hs
  obtain ⟨l, hl, rfl⟩ := List.mem_map.mp hs
  rw [String.toList_ofList]
  rcases List.mem_append.mp hl with hl | hl
  · obtain ⟨part, hmem, rfl⟩ := List.mem_map.mp hl
    intro c hc
    refine hpart part (List.mem_of_mem_dropLast hmem) c ?_
    unfold stripReturn at hc
    split at hc
    · exact List.mem_of_mem_dropLast hc
    · exact hc
  · exact hpart l (List.mem_of_getLast? (Option.mem_toList.mp (List.mem_filter.mp hl).1))

/-- Lines with a newline behind each of them are read back without the carriage returns at their
ends. -/
theorem lines_endLines {ls : List (List Char)} (h : ∀ l ∈ ls, '\n' ∉ l) :
    lines (endLines ls) = ls.map fun l => String.ofList (stripReturn l) := by
  have hparts : (ls.flatMap (· ++ ['\n'])).splitOn '\n' = ls ++ [[]] := by
    induction ls with
    | nil => rfl
    | cons l ls ih =>
      rw [List.flatMap_cons, List.append_assoc, List.singleton_append,
        List.splitOn_append_cons_self_of_not_mem (h l List.mem_cons_self),
        ih fun l' hl' => h l' (List.mem_cons_of_mem _ hl')]
      rfl
  have hlast : ([[]] : List (List Char)).filter (· ≠ []) = [] := rfl
  unfold lines endLines
  simp only [String.toList_ofList, hparts, List.getLast?_append, List.getLast?_singleton,
    Option.some_or, Option.toList_some, hlast, List.append_nil, List.dropLast_concat, List.map_map]
  rfl

/-- Lines without a newline and without a carriage return at the end read back as they were
written. -/
theorem lines_unlines {ls : List String} (hne : ls ≠ []) (hnewline : ∀ s ∈ ls, '\n' ∉ s.toList)
    (hreturn : ∀ s ∈ ls, s.toList.getLast? ≠ some '\r') : lines (unlines ls) = ls := by
  have hnone : ∀ l ∈ ls.map String.toList, '\n' ∉ l := by
    intro l hl
    obtain ⟨s, hs, rfl⟩ := List.mem_map.mp hl
    exact hnewline s hs
  have hparts : (unlines ls).toList.splitOn '\n' = ls.map String.toList ++ [[]] := by
    unfold unlines
    rw [String.toList_ofList, List.splitOn_append_cons_self,
      List.splitOn_intercalate '\n' hnone (by simpa using hne), List.splitOn_nil]
  have hlast : ([[]] : List (List Char)).filter (· ≠ []) = [] := rfl
  unfold lines
  simp only [hparts, List.getLast?_append, List.getLast?_singleton, Option.some_or,
    Option.toList_some, hlast, List.append_nil, List.dropLast_concat, List.map_map]
  rw [List.map_congr_left (g := id), List.map_id]
  intro s hs
  simp [stripReturn_eq_self (hreturn s hs)]

lemma lines_unlines_of_isWhitespace {ls : List String} (hne : ls ≠ [])
    (h : ∀ s ∈ ls, ∀ c ∈ s.toList, isWhitespace c = false) : lines (unlines ls) = ls := by
  refine lines_unlines hne (fun s hs hmem => ?_) (fun s hs hlast => ?_)
  · exact absurd (h s hs '\n' hmem) (by decide)
  · exact absurd (h s hs '\r' (List.mem_of_getLast? hlast)) (by decide)

/-! ## Digests -/

/-- A hexadecimal digit in upper case. -/
def upperHexDigit (n : Nat) : Char := Char.ofNat (if n < 10 then 0x30 + n else 0x37 + n)

/-- `{b:02X}`. -/
def upperHexByte (b : UInt8) : List Char :=
  [upperHexDigit (b.toNat / 16), upperHexDigit (b.toNat % 16)]

/-- The bytes in upper-case hexadecimal with colons in between. -/
def colonHex (bytes : List UInt8) : String :=
  String.ofList ([':'].intercalate (bytes.map upperHexByte))

lemma isWhitespace_upperHexDigit {n : Nat} (h : n < 16) :
    isWhitespace (upperHexDigit n) = false := by
  interval_cases n <;> decide

lemma isWhitespace_upperHexByte (b : UInt8) : ∀ c ∈ upperHexByte b, isWhitespace c = false := by
  have hb : b.toNat < 256 := b.toNat_lt
  intro c hc
  simp only [upperHexByte, List.mem_cons, List.not_mem_nil, or_false] at hc
  rcases hc with rfl | rfl
  · exact isWhitespace_upperHexDigit (by omega)
  · exact isWhitespace_upperHexDigit (by omega)

/-- The spelling of a digest has no white space. -/
lemma isWhitespace_colonHex (bytes : List UInt8) :
    ∀ c ∈ (colonHex bytes).toList, isWhitespace c = false := by
  intro c hc
  rw [colonHex, String.toList_ofList] at hc
  induction bytes with
  | nil => simp at hc
  | cons b bytes ih =>
    cases bytes with
    | nil => exact isWhitespace_upperHexByte b c (by simpa using hc)
    | cons b' bytes =>
      rw [List.map_cons, List.map_cons, List.intercalate_cons_cons, List.mem_append,
        List.mem_append] at hc
      rcases hc with (hc | hc) | hc
      · exact isWhitespace_upperHexByte b c hc
      · rw [List.mem_singleton.mp hc]
        decide
      · exact ih hc

/-- The spelling of a digest is not empty. -/
lemma colonHex_ne_empty {bytes : List UInt8} (h : bytes ≠ []) : colonHex bytes ≠ "" := by
  intro hempty
  have hlist : [':'].intercalate (bytes.map upperHexByte) = [] := by
    rw [← String.toList_ofList (l := [':'].intercalate (bytes.map upperHexByte)),
      ← colonHex, hempty]
    rfl
  cases bytes with
  | nil => exact h rfl
  | cons b bytes => cases bytes <;> simp [upperHexByte, List.intercalate_cons_cons] at hlist

end Orca
