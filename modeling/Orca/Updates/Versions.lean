import Orca.Contract.Paging
import Orca.Data.Text
import Orca.Library.Cut
import Orca.Library.Decimal
import Orca.Library.RankedChoice
import Orca.Library.SemVer

/-!
# Versions and updates

`is_newer_full` and `is_update_available` in `system/src/update_state.rs`, and the choice of the
newest release in `system/src/update.rs`.  The comparison takes a version apart into the numbers
before the first hyphen, and the kind and the last number of what comes behind it.

The comparison compares these ranks (`byRank`), whatever the texts are, and hence is a strict weak
order.  On versions as they are released (`ReleaseVersion`) the rank is in the order of semantic
versions (`isNewerFull_text`).  A development build ranks below its release, and is taken for its
release where it asks for an update (`stripDev_devBuild`).
-/

namespace Orca.Updates

open Contract RankedChoice SemVer

/-! ## The comparison -/

/-- `str::parse::<u64>`. -/
def parseU64 (s : List Char) : Option ℕ := parseUsize s

/-- `trim_start_matches('v')`. -/
def trimStartV (s : List Char) : List Char := s.dropWhile (· == 'v')

/-- `split_pre`: what comes before the first hyphen and behind it. -/
def splitPre (s : List Char) : List Char × List Char :=
  (Cut.once (· == '-') s).getD (s, [])

/-- `parse_core`. -/
def parseCore (s : List Char) : ℕ ×ₗ ℕ ×ₗ ℕ :=
  let p := (s.splitOn '.').map fun x => (parseU64 x).getD 0
  toLex (p.getD 0 0, toLex (p.getD 1 0, p.getD 2 0))

/-- `pre_kind`. -/
def preKind (s : List Char) : ℕ :=
  if s = [] then 2 else if "rc".toList.isPrefixOf s then 1 else 0

/-- `pre_num`. -/
def preNum (s : List Char) : ℕ := (((s.splitOn '.').getLast?).bind parseU64).getD 0

/-- The kind and the number of a suffix, which are compared in this order. -/
def preRank (s : List Char) : ℕ ×ₗ ℕ := toLex (preKind s, preNum s)

/-- `is_newer_full`. -/
def isNewerFull (a b : String) : Bool :=
  let (aCore, aPre) := splitPre (trimStartV a.toList)
  let (bCore, bPre) := splitPre (trimStartV b.toList)
  let (ac, bc) := (parseCore aCore, parseCore bCore)
  if ac ≠ bc then decide (bc < ac) else decide (preRank bPre < preRank aPre)

/-- What comes before the first occurrence of a pattern, or the text. -/
def before (pattern : List Char) : List Char → List Char
  | [] => []
  | c :: s => if pattern.isPrefixOf (c :: s) then [] else c :: before pattern s

/-- `strip_dev`. -/
def stripDev (v : String) : String :=
  String.ofList (before "-dev+g".toList ((stripSuffix v ".dirty").getD v).toList)

/-- `is_update_available`. -/
def isUpdateAvailable (current latest : String) : Bool :=
  let cur := stripDev (String.ofList (trimStartV (trim current).toList))
  let lat := String.ofList (trimStartV (trim latest).toList)
  if cur = "" ∨ lat = "" then false else isNewerFull lat cur

/-! ## The newest release -/

/-- `Channel`. -/
inductive Channel
  | stable
  | beta

/-- `Channel::accepts`. -/
def Channel.accepts (channel : Channel) (tag : String) : Bool :=
  match channel with
  | .stable => '-' ∉ tag.toList
  | .beta => '-' ∉ tag.toList || containsText tag "-rc." || containsText tag "-beta."

/-- `Release`, by its tag and the names of its assets. -/
structure Release where
  tagName : String
  assets : List String

/-- `pick_best_release`. -/
def pickBestRelease (releases : List Release) (channel : Channel) : Option Release :=
  maxBy (fun a b => isNewerFull a.tagName b.tagName)
    (releases.filter fun r => channel.accepts r.tagName)

/-! ## Ranks -/

/-- The numbers of a version. -/
def core (s : String) : ℕ ×ₗ ℕ ×ₗ ℕ := parseCore (splitPre (trimStartV s.toList)).1

/-- The rank of what comes behind the first hyphen of a version. -/
def suffixRank (s : String) : ℕ ×ₗ ℕ := preRank (splitPre (trimStartV s.toList)).2

/-- What is compared of a version. -/
def rank (s : String) : (ℕ ×ₗ ℕ ×ₗ ℕ) ×ₗ (ℕ ×ₗ ℕ) := toLex (core s, suffixRank s)

lemma isNewerFull_eq (a b : String) : isNewerFull a b =
    if core a ≠ core b then decide (core b < core a) else decide (suffixRank b < suffixRank a) :=
  rfl

/-- The comparison compares ranks. -/
theorem byRank : ByRank isNewerFull rank := by
  intro a b
  rw [isNewerFull_eq, rank, rank, Prod.Lex.toLex_lt_toLex]
  by_cases heq : core b = core a
  · rw [if_neg (not_ne_iff.mpr heq.symm), decide_eq_true_eq]
    exact ⟨fun h => Or.inr ⟨heq, h⟩, fun h => h.elim (fun hlt => absurd heq hlt.ne) And.right⟩
  · rw [if_pos (Ne.symm heq), decide_eq_true_eq]
    exact ⟨Or.inl, fun h => h.elim id fun ⟨h, _⟩ => absurd h heq⟩

/-- Of two orders of the same releases the one picked is not older than the other. -/
theorem pickBestRelease_perm {releases releases' : List Release} (h : releases.Perm releases')
    {channel : Channel} {a b : Release} (ha : pickBestRelease releases channel = some a)
    (hb : pickBestRelease releases' channel = some b) :
    isNewerFull a.tagName b.tagName = false ∧ isNewerFull b.tagName a.tagName = false := by
  have hranks : ByRank (fun a b : Release => isNewerFull a.tagName b.tagName)
      (fun r => rank r.tagName) := fun a b => byRank a.tagName b.tagName
  exact hranks.maxBy_perm (h.filter _) ha hb

/-! ## Versions as they are released -/

/-- A version as it is released: `X.Y.Z` or `X.Y.Z-rc.N`, with numbers of 64 bits. -/
structure ReleaseVersion where
  /-- `X`. -/
  major : ℕ
  /-- `Y`. -/
  minor : ℕ
  /-- `Z`. -/
  patch : ℕ
  /-- `N`, for a release candidate. -/
  rc : Option ℕ
  /-- `X` has 64 bits. -/
  major_lt : major < 2 ^ 64
  /-- `Y` has 64 bits. -/
  minor_lt : minor < 2 ^ 64
  /-- `Z` has 64 bits. -/
  patch_lt : patch < 2 ^ 64
  /-- `N` has 64 bits. -/
  rc_lt : ∀ n, rc = some n → n < 2 ^ 64

namespace ReleaseVersion

/-- The digits of a number. -/
def digits (n : ℕ) : List Char := (toString n).toList

/-- The numbers of the version, with points between them. -/
def coreChars (v : ReleaseVersion) : List Char :=
  ['.'].intercalate [digits v.major, digits v.minor, digits v.patch]

/-- What comes behind the numbers. -/
def preChars (v : ReleaseVersion) : List Char :=
  match v.rc with
  | none => []
  | some n => "-rc.".toList ++ digits n

/-- The numbers of the version with what comes behind them; a `v` may stand in front. -/
def spell (v : ReleaseVersion) (withV : Bool) (s : List Char) : String :=
  String.ofList ((if withV then ['v'] else []) ++ (v.coreChars ++ s))

/-- The text of the version. -/
def text (v : ReleaseVersion) (withV : Bool) : String := v.spell withV v.preChars

/-- The version as a semantic version. -/
def toSemVer (v : ReleaseVersion) : Version where
  major := v.major
  minor := v.minor
  patch := v.patch
  pre := match v.rc with
    | none => []
    | some n => [.alphanumeric "rc", .numeric n]

/-- The kind and the number of what comes behind the numbers. -/
def suffix (v : ReleaseVersion) : ℕ ×ₗ ℕ :=
  match v.rc with
  | none => toLex (2, 0)
  | some n => toLex (1, n)

/-! ### Characters -/

lemma isDigit_of_mem_digits {n : ℕ} : ∀ c ∈ digits n, c.isDigit = true := by
  intro c hc
  rw [digits, Decimal.toList_toString] at hc
  exact Nat.isDigit_of_mem_toDigits (by decide) (le_refl 10) hc

lemma not_mem_digits {n : ℕ} {c : Char} (h : c.isDigit = false) : c ∉ digits n := fun hc => by
  rw [isDigit_of_mem_digits c hc] at h
  cases h

/-- The numbers of a version are written with digits and points. -/
lemma mem_coreChars {v : ReleaseVersion} {c : Char} (hc : c ∈ v.coreChars) :
    c.isDigit = true ∨ c = '.' := by
  simp only [coreChars, List.intercalate_cons_cons, List.intercalate_singleton, List.mem_append,
    List.mem_singleton] at hc
  rcases hc with (hc | hc) | (hc | hc) | hc
  · exact Or.inl (isDigit_of_mem_digits c hc)
  · exact Or.inr hc
  · exact Or.inl (isDigit_of_mem_digits c hc)
  · exact Or.inr hc
  · exact Or.inl (isDigit_of_mem_digits c hc)

lemma hyphen_of_mem_coreChars {v : ReleaseVersion} : ∀ c ∈ v.coreChars, (c == '-') = false := by
  intro c hc
  refine beq_eq_false_iff_ne.mpr ?_
  rintro rfl
  exact absurd (mem_coreChars hc) (by decide)

lemma exists_chars_cons (v : ReleaseVersion) :
    ∃ c s, v.coreChars = c :: s ∧ c.isDigit = true := by
  obtain ⟨c, s, hc⟩ := List.exists_cons_of_ne_nil (Decimal.toList_toString_ne_nil v.major)
  refine ⟨c, s ++ ['.'] ++ ['.'].intercalate [digits v.minor, digits v.patch], ?_, ?_⟩
  · rw [coreChars, List.intercalate_cons_cons, digits, hc]
    rfl
  · exact isDigit_of_mem_digits c (hc ▸ List.mem_cons_self)

/-- The letter in front is dropped, and nothing else. -/
lemma trimStartV_chars (v : ReleaseVersion) (withV : Bool) (s : List Char) :
    trimStartV ((if withV then ['v'] else []) ++ (v.coreChars ++ s)) = v.coreChars ++ s := by
  obtain ⟨c, t, hc, hdigit⟩ := v.exists_chars_cons
  have hne : (c == 'v') = false := by
    refine beq_eq_false_iff_ne.mpr ?_
    rintro rfl
    exact absurd hdigit (by decide)
  have hstop : trimStartV (v.coreChars ++ s) = v.coreChars ++ s := by
    rw [hc, List.cons_append, trimStartV, List.dropWhile_cons_of_neg (by rw [hne]; decide)]
  cases withV with
  | false => exact hstop
  | true =>
    rw [trimStartV]
    exact hstop

lemma splitPre_chars (v : ReleaseVersion) (s : List Char) :
    splitPre (v.coreChars ++ '-' :: s) = (v.coreChars, s) := by
  rw [splitPre, Cut.once_append hyphen_of_mem_coreChars rfl]
  rfl

/-- The numbers are read back. -/
lemma parseCore_coreChars (v : ReleaseVersion) :
    parseCore v.coreChars = v.toSemVer.core := by
  have hpoint : ∀ l ∈ [digits v.major, digits v.minor, digits v.patch], '.' ∉ l := by
    intro l hl
    simp only [List.mem_cons, List.not_mem_nil, or_false] at hl
    rcases hl with rfl | rfl | rfl <;> exact not_mem_digits rfl
  unfold parseCore
  rw [coreChars, List.splitOn_intercalate '.' hpoint (List.cons_ne_nil _ _)]
  simp only [digits, parseU64, List.map_cons, List.map_nil, parseUsize_toString v.major_lt,
    parseUsize_toString v.minor_lt, parseUsize_toString v.patch_lt]
  rfl

/-! ### Ranks -/

lemma core_spell (v : ReleaseVersion) (withV : Bool) (s : List Char) :
    core (v.spell withV ('-' :: s)) = v.toSemVer.core := by
  rw [core, spell, String.toList_ofList, trimStartV_chars, splitPre_chars]
  exact v.parseCore_coreChars

lemma suffixRank_spell (v : ReleaseVersion) (withV : Bool) (s : List Char) :
    suffixRank (v.spell withV ('-' :: s)) = preRank s := by
  rw [suffixRank, spell, String.toList_ofList, trimStartV_chars, splitPre_chars]

lemma rank_spell_nil (v : ReleaseVersion) (withV : Bool) :
    rank (v.spell withV []) = toLex (v.toSemVer.core, toLex (2, 0)) := by
  have hsplit : splitPre v.coreChars = (v.coreChars, []) := by
    rw [splitPre, Cut.once_eq_none_iff.mpr hyphen_of_mem_coreChars]
    rfl
  rw [rank, core, suffixRank, spell, String.toList_ofList, trimStartV_chars, List.append_nil,
    hsplit, parseCore_coreChars]
  rfl

lemma preNum_append (front : List Char) {s : List Char} (hs : '.' ∉ s) :
    preNum (front ++ '.' :: s) = (parseU64 s).getD 0 := by
  unfold preNum
  rw [List.splitOn_append_cons_self, List.splitOn_eq_singleton hs, List.getLast?_concat]
  rfl

lemma preRank_rc {n : ℕ} (hn : n < 2 ^ 64) :
    preRank ("rc.".toList ++ digits n) = toLex (1, n) := by
  have hnum : preNum ("rc".toList ++ '.' :: digits n) = n := by
    rw [preNum_append _ (not_mem_digits rfl), parseU64, digits, parseUsize_toString hn]
    rfl
  exact congrArg (fun m => toLex (1, m)) hnum

/-- The rank of a version. -/
lemma rank_text (v : ReleaseVersion) (withV : Bool) :
    rank (v.text withV) = toLex (v.toSemVer.core, v.suffix) := by
  unfold text preChars suffix
  cases hrc : v.rc with
  | none => exact v.rank_spell_nil withV
  | some n =>
    have hpre : "-rc.".toList ++ digits n = '-' :: ("rc.".toList ++ digits n) := rfl
    simp only [hpre]
    rw [rank, core_spell, suffixRank_spell, preRank_rc (v.rc_lt n hrc)]

/-- The suffixes are compared as pre-releases are. -/
lemma suffix_lt_iff (v w : ReleaseVersion) :
    v.suffix < w.suffix ↔ PrePrecedes v.toSemVer.pre w.toSemVer.pre := by
  unfold suffix toSemVer PrePrecedes
  cases v.rc with
  | none => cases w.rc <;> simp [Prod.Lex.toLex_lt_toLex]
  | some m =>
    cases w.rc with
    | none => simp [Prod.Lex.toLex_lt_toLex]
    | some n => simp [Prod.Lex.toLex_lt_toLex, lex_numeric_iff]

/-- On versions as they are released the comparison is that of semantic versions. -/
theorem isNewerFull_text (v w : ReleaseVersion) (withV withV' : Bool) :
    isNewerFull (v.text withV) (w.text withV') = true ↔ Precedes w.toSemVer v.toSemVer := by
  rw [byRank (v.text withV) (w.text withV'), rank_text, rank_text, Prod.Lex.toLex_lt_toLex,
    suffix_lt_iff]
  rfl

/-! ## Development builds -/

end ReleaseVersion

/-- The abbreviated name of a commit: hexadecimal digits, or the word that stands for them. -/
structure Commit where
  name : String
  /-- It has letters and digits only. -/
  alphanumeric : ∀ c ∈ name.toList, c.isAlphanum = true

namespace ReleaseVersion

/-- What a development build has behind the version of its release; older ones may have `.dirty` at
the end. -/
def devChars (commit : Commit) (dirty : Bool) : List Char :=
  "-dev+g".toList ++ (commit.name.toList ++ if dirty then ".dirty".toList else [])

/-- A development build of a release. -/
def devBuild (v : ReleaseVersion) (withV : Bool) (commit : Commit) (dirty : Bool) : String :=
  v.spell withV (v.preChars ++ devChars commit dirty)

lemma not_mem_name {commit : Commit} {c : Char} (h : c.isAlphanum = false) :
    c ∉ commit.name.toList := fun hc => by
  rw [commit.alphanumeric c hc] at h
  cases h

lemma not_isWhitespace {l : List Char} (h : l.all (!isWhitespace ·) = true) :
    ∀ c ∈ l, isWhitespace c = false := fun c hc =>
  Bool.not_eq_true' _ ▸ List.all_eq_true.mp h c hc

/-- A version has no white space. -/
lemma isWhitespace_of_mem_chars {v : ReleaseVersion} :
    ∀ c ∈ v.coreChars ++ v.preChars, isWhitespace c = false := by
  have hdigits : ∀ {n : ℕ}, ∀ c ∈ digits n, isWhitespace c = false := fun c hc =>
    isWhitespace_of_isAlphanum (Bool.or_eq_true_iff.mpr (Or.inr (isDigit_of_mem_digits c hc)))
  intro c hc
  rcases List.mem_append.mp hc with hc | hc
  · rcases mem_coreChars hc with hdigit | rfl
    · exact isWhitespace_of_isAlphanum (Bool.or_eq_true_iff.mpr (Or.inr hdigit))
    · decide
  · unfold preChars at hc
    cases hrc : v.rc with
    | none =>
      rw [hrc] at hc
      cases hc
    | some n =>
      rw [hrc] at hc
      rcases List.mem_append.mp hc with hc | hc
      · exact not_isWhitespace (by decide) c hc
      · exact hdigits c hc

/-- What a development build has behind its release has no white space. -/
lemma isWhitespace_of_mem_devChars {commit : Commit} {dirty : Bool} :
    ∀ c ∈ devChars commit dirty, isWhitespace c = false := by
  intro c hc
  rcases List.mem_append.mp hc with hc | hc
  · exact not_isWhitespace (by decide) c hc
  · rcases List.mem_append.mp hc with hc | hc
    · exact isWhitespace_of_isAlphanum (commit.alphanumeric c hc)
    · cases dirty with
      | false => cases hc
      | true => exact not_isWhitespace (l := ".dirty".toList) (by decide) c hc

/-- There is no `d` in a version. -/
lemma d_not_mem (v : ReleaseVersion) : 'd' ∉ v.coreChars ++ v.preChars := by
  intro hd
  rcases List.mem_append.mp hd with hd | hd
  · exact absurd (mem_coreChars hd) (by decide)
  · unfold preChars at hd
    cases hrc : v.rc with
    | none =>
      rw [hrc] at hd
      cases hd
    | some n =>
      rw [hrc] at hd
      rcases List.mem_append.mp hd with hd | hd
      · exact absurd hd (by decide)
      · exact not_mem_digits rfl hd

end ReleaseVersion

lemma stripSuffix_eq_none {s : List Char} {suffix : String} (h : ¬suffix.toList <:+ s) :
    stripSuffix (String.ofList s) suffix = none := by
  unfold stripSuffix
  rw [String.toList_ofList, if_neg h]

lemma stripSuffix_append (s : List Char) (suffix : String) :
    stripSuffix (String.ofList (s ++ suffix.toList)) suffix = some (String.ofList s) := by
  unfold stripSuffix
  rw [String.toList_ofList, if_pos (List.suffix_append s _), List.length_append,
    Nat.add_sub_cancel, List.take_left]

/-- A text without the second character of a pattern has nothing cut off. -/
lemma before_eq_self {a b : Char} {pattern s : List Char} (h : b ∉ s) :
    before (a :: b :: pattern) s = s := by
  induction s with
  | nil => rfl
  | cons c s ih =>
    have hs : b ∉ s := fun hb => h (List.mem_cons_of_mem c hb)
    have hno : (a :: b :: pattern).isPrefixOf (c :: s) = false := by
      rw [Bool.eq_false_iff]
      intro hstart
      have hmem : b ∈ c :: s := (List.isPrefixOf_iff_prefix.mp hstart).subset (by simp)
      exact h hmem
    rw [before, if_neg (Bool.eq_false_iff.mp hno), ih hs]

/-- A pattern is found behind a text without its second character. -/
lemma before_append {a b : Char} (hab : a ≠ b) {pattern front : List Char} (h : b ∉ front)
    (rest : List Char) :
    before (a :: b :: pattern) (front ++ (a :: b :: pattern ++ rest)) = front := by
  induction front with
  | nil =>
    have hstart : (a :: b :: pattern).isPrefixOf (a :: b :: pattern ++ rest) = true :=
      List.isPrefixOf_iff_prefix.mpr (List.prefix_append _ _)
    rw [List.nil_append, List.cons_append, before, ← List.cons_append, if_pos hstart]
  | cons c front ih =>
    have hfront : b ∉ front := fun hb => h (List.mem_cons_of_mem c hb)
    have hno : ¬(a :: b :: pattern).isPrefixOf (c :: (front ++ (a :: b :: pattern ++ rest))) =
        true := by
      intro hstart
      -- the second character of the pattern would be the next one, which is `a` or in the front
      obtain ⟨-, hstart⟩ := List.cons_prefix_cons.mp (List.isPrefixOf_iff_prefix.mp hstart)
      cases front with
      | nil => exact hab (List.cons_prefix_cons.mp hstart).1.symm
      | cons d front => exact hfront ((List.cons_prefix_cons.mp hstart).1 ▸ List.mem_cons_self)
    rw [List.cons_append, before, if_neg hno, ih hfront]

lemma stripDev_clean {s : List Char} (h : ¬".dirty".toList <:+ s) :
    stripDev (String.ofList s) = String.ofList (before "-dev+g".toList s) := by
  have hchars : (String.ofList s).toList = s := String.toList_ofList
  rw [stripDev, stripSuffix_eq_none h, Option.getD_none, hchars]

lemma stripDev_dirty (s : List Char) :
    stripDev (String.ofList (s ++ ".dirty".toList)) =
      String.ofList (before "-dev+g".toList s) := by
  have hchars : (String.ofList s).toList = s := String.toList_ofList
  rw [stripDev, stripSuffix_append, Option.getD_some, hchars]

namespace ReleaseVersion

lemma stripDev_chars (v : ReleaseVersion) :
    stripDev (String.ofList (v.coreChars ++ v.preChars)) =
      String.ofList (v.coreChars ++ v.preChars) := by
  have hd : 'd' ∈ ".dirty".toList := by decide
  rw [stripDev_clean fun hend => v.d_not_mem (hend.subset hd)]
  exact congrArg String.ofList (before_eq_self v.d_not_mem)

/-- A development build is taken for its release. -/
theorem stripDev_devBuild (v : ReleaseVersion) (commit : Commit) (dirty : Bool) :
    stripDev (String.ofList (v.coreChars ++ (v.preChars ++ devChars commit dirty))) =
      String.ofList (v.coreChars ++ v.preChars) := by
  have hcut (rest : List Char) :
      before "-dev+g".toList (v.coreChars ++ v.preChars ++ ("-dev+g".toList ++ rest)) =
        v.coreChars ++ v.preChars := before_append (by decide) v.d_not_mem rest
  unfold devChars
  rw [← List.append_assoc]
  cases dirty with
  | false =>
    have hpoint : '.' ∉ "-dev+g".toList ++ commit.name.toList := by
      rw [List.mem_append, not_or]
      exact ⟨by decide, not_mem_name rfl⟩
    -- the last six characters are behind the version, where there is no point
    have hclean : ¬".dirty".toList <:+
        v.coreChars ++ v.preChars ++ ("-dev+g".toList ++ commit.name.toList) := by
      intro hend
      have hlength : ".dirty".toList.length ≤ ("-dev+g".toList ++ commit.name.toList).length := by
        rw [List.length_append]
        exact Nat.le_add_right 6 _
      have hmem : '.' ∈ ".dirty".toList := by decide
      exact hpoint ((List.suffix_of_suffix_length_le hend (List.suffix_append _ _) hlength).subset
        hmem)
    rw [if_neg Bool.false_ne_true, List.append_nil, stripDev_clean hclean, hcut]
  | true =>
    rw [if_pos rfl, ← List.append_assoc "-dev+g".toList, ← List.append_assoc, stripDev_dirty, hcut]

/-! ### Updates -/

/-- What is compared of a spelled version when it asks for an update, or is offered as one. -/
lemma trimmed_spell (v : ReleaseVersion) (withV : Bool) {s : List Char}
    (hs : ∀ c ∈ v.coreChars ++ s, isWhitespace c = false) :
    String.ofList (trimStartV (trim (v.spell withV s)).toList) =
      String.ofList (v.coreChars ++ s) := by
  have hspell : ∀ c ∈ (v.spell withV s).toList, isWhitespace c = false := by
    intro c hc
    rw [spell, String.toList_ofList] at hc
    rcases List.mem_append.mp hc with hc | hc
    · cases withV with
      | false => cases hc
      | true =>
        rw [List.mem_singleton.mp hc]
        decide
    · exact hs c hc
  rw [trim_eq_self hspell, spell, String.toList_ofList, trimStartV_chars]

lemma ofList_chars_ne_empty (v : ReleaseVersion) (s : List Char) :
    String.ofList (v.coreChars ++ s) ≠ "" := by
  obtain ⟨c, t, hc, -⟩ := v.exists_chars_cons
  intro hempty
  have hchars := congrArg String.toList hempty
  rw [hc, String.toList_ofList] at hchars
  exact List.cons_ne_nil _ _ hchars

/-- A version that asks for an update is compared as a release. -/
lemma isUpdateAvailable_spell {v w : ReleaseVersion} {s t : List Char}
    (hs : ∀ c ∈ v.coreChars ++ s, isWhitespace c = false)
    (ht : ∀ c ∈ w.coreChars ++ t, isWhitespace c = false)
    (hdev : stripDev (String.ofList (v.coreChars ++ s)) = v.text false) (withV withV' : Bool) :
    isUpdateAvailable (v.spell withV s) (w.spell withV' t) =
      isNewerFull (w.spell false t) (v.text false) := by
  unfold isUpdateAvailable
  rw [v.trimmed_spell withV hs, w.trimmed_spell withV' ht, hdev]
  refine if_neg (not_or.mpr ⟨v.ofList_chars_ne_empty v.preChars, w.ofList_chars_ne_empty t⟩)

lemma isWhitespace_of_mem_devBuild {v : ReleaseVersion} {commit : Commit} {dirty : Bool} :
    ∀ c ∈ v.coreChars ++ (v.preChars ++ devChars commit dirty), isWhitespace c = false := by
  intro c hc
  rw [← List.append_assoc] at hc
  rcases List.mem_append.mp hc with hc | hc
  · exact isWhitespace_of_mem_chars c hc
  · exact isWhitespace_of_mem_devChars c hc

/-- A text with a character that is neither a digit nor a plus sign is no number. -/
lemma parseU64_eq_none {s : List Char} {c : Char} (hc : c ∈ s) (hdigit : c.isDigit = false)
    (hplus : c ≠ '+') : parseU64 s = none := by
  have hmem : c ∈ unsigned s := by
    unfold unsigned
    split
    next rest => exact (List.mem_cons.mp hc).resolve_left hplus
    next => exact hc
  refine if_neg fun ⟨_, hall⟩ => ?_
  rw [List.all_eq_true.mp hall c hmem] at hdigit
  cases hdigit

/-- Behind its last point a development build of a release candidate has no number. -/
lemma preNum_devBuild (n : ℕ) (commit : Commit) (dirty : Bool) :
    preNum ("rc.".toList ++ digits n ++ devChars commit dirty) = 0 := by
  cases dirty with
  | false =>
    have hpoint : '.' ∉ digits n ++ devChars commit false := by
      change '.' ∉ digits n ++ ("-dev+g".toList ++ (commit.name.toList ++ []))
      simp only [List.mem_append, not_or]
      exact ⟨not_mem_digits rfl, by decide, not_mem_name rfl, List.not_mem_nil⟩
    have hhyphen : '-' ∈ digits n ++ devChars commit false := by
      rw [List.mem_append]
      exact Or.inr List.mem_cons_self
    have hnum := preNum_append "rc".toList hpoint
    rw [parseU64_eq_none hhyphen rfl (by decide)] at hnum
    rw [List.append_assoc]
    exact hnum
  | true =>
    have hpoint : '.' ∉ "dirty".toList := by decide
    have hsplit : "rc.".toList ++ digits n ++ devChars commit true =
        ("rc.".toList ++ digits n ++ ("-dev+g".toList ++ commit.name.toList)) ++
          '.' :: "dirty".toList := by
      rw [List.append_assoc ("rc.".toList ++ digits n), List.append_assoc "-dev+g".toList]
      rfl
    rw [hsplit, preNum_append _ hpoint]
    rfl

/-- A development build ranks no higher than its release. -/
theorem rank_devBuild_le (v : ReleaseVersion) (withV withV' : Bool) (commit : Commit)
    (dirty : Bool) : rank (v.devBuild withV commit dirty) ≤ rank (v.text withV') := by
  have hrank {s : List Char} (hs : preRank s ≤ v.suffix) :
      rank (v.spell withV ('-' :: s)) ≤ rank (v.text withV') := by
    rw [rank_text, rank, core_spell, suffixRank_spell, Prod.Lex.toLex_le_toLex]
    exact Or.inr ⟨rfl, hs⟩
  unfold devBuild preChars
  cases hrc : v.rc with
  | none =>
    have hsuffix : v.suffix = toLex (2, 0) := by rw [suffix, hrc]
    refine hrank (s := "dev+g".toList ++ (commit.name.toList ++
      if dirty then ".dirty".toList else [])) ?_
    rw [hsuffix, preRank, Prod.Lex.toLex_le_toLex]
    exact Or.inl (by decide : 0 < 2)
  | some n =>
    have hsuffix : v.suffix = toLex (1, n) := by rw [suffix, hrc]
    refine hrank (s := "rc.".toList ++ digits n ++ devChars commit dirty) ?_
    rw [hsuffix, preRank, Prod.Lex.toLex_le_toLex, preNum_devBuild]
    exact Or.inr ⟨rfl, Nat.zero_le n⟩

end ReleaseVersion

/-! ## The order of versions -/

/-- The comparison is a strict weak order on all texts, and of two orders of the same tags the
newest tag of the one is neither newer nor older than that of the other.  On versions as they are
released it is the precedence of semantic versions; of two of them at most one is an update of the
other, and a release and a development build of it are no updates of each other. -/
theorem versions_are_ordered :
    StrictWeakOrder isNewerFull ∧
    (∀ tags tags' : List String, tags.Perm tags' → ∀ a b, maxBy isNewerFull tags = some a →
      maxBy isNewerFull tags' = some b → isNewerFull a b = false ∧ isNewerFull b a = false) ∧
    (∀ (v w : ReleaseVersion) (withV withV' : Bool),
      (isNewerFull (v.text withV) (w.text withV') = true ↔ Precedes w.toSemVer v.toSemVer) ∧
      ¬(isUpdateAvailable (v.text withV) (w.text withV') = true ∧
        isUpdateAvailable (w.text withV') (v.text withV) = true)) ∧
    ∀ (v : ReleaseVersion) (withV withV' : Bool) (commit : Commit) (dirty : Bool),
      isUpdateAvailable (v.text withV) (v.devBuild withV' commit dirty) = false ∧
      isUpdateAvailable (v.devBuild withV' commit dirty) (v.text withV) = false := by
  refine ⟨byRank.strictWeakOrder, fun tags tags' hperm a b => byRank.maxBy_perm hperm,
    fun v w withV withV' => ⟨v.isNewerFull_text w withV withV', fun ⟨hvw, hwv⟩ => ?_⟩,
    fun v withV withV' commit dirty => ⟨?_, ?_⟩⟩
  · have hcompare (v w : ReleaseVersion) (withV withV' : Bool) :
        isUpdateAvailable (v.text withV) (w.text withV') =
          isNewerFull (w.text false) (v.text false) :=
      ReleaseVersion.isUpdateAvailable_spell ReleaseVersion.isWhitespace_of_mem_chars
        ReleaseVersion.isWhitespace_of_mem_chars v.stripDev_chars withV withV'
    rw [hcompare] at hvw hwv
    exact absurd ((byRank _ _).mp hvw) ((byRank _ _).mp hwv).asymm
  · refine (ReleaseVersion.isUpdateAvailable_spell ReleaseVersion.isWhitespace_of_mem_chars
      ReleaseVersion.isWhitespace_of_mem_devBuild v.stripDev_chars withV withV').trans ?_
    exact (byRank.eq_false_iff _ _).mpr (v.rank_devBuild_le false false commit dirty)
  · refine (ReleaseVersion.isUpdateAvailable_spell ReleaseVersion.isWhitespace_of_mem_devBuild
      ReleaseVersion.isWhitespace_of_mem_chars
        (v.stripDev_devBuild commit dirty) withV' withV).trans
        ?_
    exact byRank.strictWeakOrder.irrefl _

/-- Which of two tags of one rank is the newest depends on their order. -/
theorem newest_of_alike_tags :
    maxBy isNewerFull ["v1.0.0", "1.0.0"] = some "1.0.0" ∧
      maxBy isNewerFull ["1.0.0", "v1.0.0"] = some "v1.0.0" := by
  decide

end Orca.Updates
