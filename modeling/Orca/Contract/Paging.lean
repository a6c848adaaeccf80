import Mathlib.Data.List.Basic
import Orca.Library.Base64Url
import Orca.Library.Decimal

/-!
# Pages of a list

`Page::from_slice` and its cursor.  A list of rows is a vector, whose length is a `usize`
(`Rows`); a call that panics has no page.  The text of bytes is that of another library and a
parameter (`TextCodec`).

A cursor that a page hands out reads as the offset of the first row behind the page
(`decodeOffsetCursor_encode`), and any other cursor reads as some offset.  So a call returns the
rows from one offset on, as many as the limit lets it (`fromSlice_eq`), and a walk that follows the
cursors moves on with every page (`exists_walk`).
-/

namespace Orca.Contract

/-! ## The cursor -/

/-- `base64url_encode` and `base64url_decode`. -/
structure TextCodec where
  /-- `URL_SAFE_NO_PAD.encode`. -/
  encode : List UInt8 → String
  /-- `URL_SAFE_NO_PAD.decode`. -/
  decode : String → Option (List UInt8)
  /-- Decoding what was encoded gives the bytes. -/
  decode_encode : ∀ bytes, decode (encode bytes) = some bytes

/-- `str::as_bytes`. -/
def asBytes (s : String) : List UInt8 := s.toByteArray.data.toList

/-- `std::str::from_utf8`. -/
def fromUtf8 (bytes : List UInt8) : Option String := String.fromUTF8? ⟨bytes.toArray⟩

/-- The digits of a number, without the sign that may stand before them. -/
def unsigned : List Char → List Char
  | '+' :: rest => rest
  | s => s

/-- `str::parse::<usize>`. -/
def parseUsize (s : List Char) : Option ℕ :=
  let digits := unsigned s
  if digits ≠ [] ∧ digits.all Char.isDigit = true then
    let n := Nat.ofDigitChars 10 digits 0
    if n < 2 ^ 64 then some n else none
  else none

/-- `encode_offset_cursor`. -/
def encodeOffsetCursor (codec : TextCodec) (offset : ℕ) : String :=
  codec.encode (asBytes ("off:" ++ toString offset))

/-- `decode_offset_cursor`. -/
def decodeOffsetCursor (codec : TextCodec) (cursor : String) : Option ℕ := do
  let raw ← codec.decode cursor
  let s ← fromUtf8 raw
  let offset ← "off:".toList.isPrefixOf? s.toList
  parseUsize offset

/-! ## A page -/

/-- `DEFAULT_LIMIT`. -/
def defaultLimit : UInt32 := 50

/-- `MAX_LIMIT`. -/
def maxLimit : UInt32 := 200

/-- `Ord::clamp`, which panics if the bounds are the wrong way round. -/
def clamp (x lo hi : UInt32) : Option UInt32 :=
  if lo ≤ hi then some (if x < lo then lo else if hi < x then hi else x) else none

/-- `PageParams`. -/
structure PageParams where
  limit : Option UInt32
  cursor : Option String

/-- `PageParams::effective_limit`. -/
def PageParams.effectiveLimit (params : PageParams) : Option ℕ :=
  (clamp (params.limit.getD defaultLimit) 1 maxLimit).map UInt32.toNat

/-- `PageParams::start_offset`. -/
def PageParams.startOffset (codec : TextCodec) (params : PageParams) : ℕ :=
  (params.cursor.bind (decodeOffsetCursor codec)).getD 0

/-- The rows of a list: its length is a `usize`. -/
structure Rows (α : Type*) where
  toList : List α
  /-- Their number is a `usize`. -/
  length_lt : toList.length < 2 ^ 64

/-- `Page`. -/
structure Page (α : Type*) where
  items : List α
  nextCursor : Option String
  total : Option ℕ

variable {α : Type*} (codec : TextCodec)

/-- `Page::from_slice`. -/
def fromSlice (all : Rows α) (params : PageParams) : Option (Page α) :=
  let total := all.toList.length
  let start := min (params.startOffset codec) all.toList.length
  params.effectiveLimit.map fun limit =>
    -- `saturating_add` stops at `usize::MAX`.
    let stop := min (min (start + limit) (2 ^ 64 - 1)) all.toList.length
    let hasMore := decide (stop < all.toList.length)
    let items := (all.toList.drop start).take limit
    ⟨items, if hasMore then some (encodeOffsetCursor codec stop) else none, some total⟩

/-- A client calls `from_slice` and follows `next_cursor` until a page has none; the calls have
limits of their own.  There is no result if a call panics, or if `fuel` calls are not enough. -/
def walk (all : Rows α) (limits : ℕ → Option UInt32) :
    (fuel i : ℕ) → Option String → Option (List (Page α))
  | 0, _, _ => none
  | fuel + 1, i, cursor => do
    let page ← fromSlice codec all ⟨limits i, cursor⟩
    match page.nextCursor with
    | none => some [page]
    | some next => (walk all limits fuel (i + 1) (some next)).map (page :: ·)

/-! ## Cursors read back -/

lemma fromUtf8_asBytes (s : String) : fromUtf8 (asBytes s) = some s := by
  have hbytes : (⟨(asBytes s).toArray⟩ : ByteArray) = s.toByteArray := by
    unfold asBytes
    rw [Array.toArray_toList]
  unfold fromUtf8 String.fromUTF8?
  rw [hbytes, dif_pos s.isValidUTF8]
  rfl

lemma unsigned_eq {s : List Char} (h : ∀ c ∈ s, c.isDigit = true) : unsigned s = s := by
  unfold unsigned
  split
  next rest => exact absurd (h '+' List.mem_cons_self) (by decide)
  next => rfl

/-- A number less than `2 ^ 64` is read back. -/
lemma parseUsize_toString {n : ℕ} (hn : n < 2 ^ 64) :
    parseUsize (toString n).toList = some n := by
  have hdigit : ∀ c ∈ Nat.toDigits 10 n, c.isDigit = true := fun c hc =>
    Nat.isDigit_of_mem_toDigits (by decide) (le_refl 10) hc
  have hdigits : Nat.toDigits 10 n ≠ [] ∧ (Nat.toDigits 10 n).all Char.isDigit = true :=
    ⟨Nat.toDigits_ne_nil, List.all_eq_true.mpr hdigit⟩
  unfold parseUsize
  rw [Decimal.toList_toString, unsigned_eq hdigit]
  simp only [if_pos hdigits, Nat.ofDigitChars_ten_toDigits, if_pos hn]

/-- The cursor of an offset reads as the offset. -/
theorem decodeOffsetCursor_encode {n : ℕ} (hn : n < 2 ^ 64) :
    decodeOffsetCursor codec (encodeOffsetCursor codec n) = some n := by
  have hprefix : "off:".toList.isPrefixOf? ("off:" ++ toString n).toList =
      some (toString n).toList := by
    rw [String.toList_append]
    rfl
  unfold decodeOffsetCursor encodeOffsetCursor
  simp only [codec.decode_encode, fromUtf8_asBytes, hprefix, Option.bind_eq_bind,
    Option.bind_some]
  exact parseUsize_toString hn

/-! ## Calls -/

variable {codec}

/-- The number of rows that a call may return. -/
def PageParams.size (params : PageParams) : ℕ :=
  min (max (params.limit.getD defaultLimit).toNat 1) 200

/-- The limit is at least one, and no limit makes a call panic. -/
lemma effectiveLimit_eq (params : PageParams) : params.effectiveLimit = some params.size := by
  have hclamp (x : UInt32) : clamp x 1 maxLimit = some (if x < 1 then 1 else
      if maxLimit < x then maxLimit else x) := if_pos (by decide)
  have hone : (1 : UInt32).toNat = 1 := rfl
  have hmax : maxLimit.toNat = 200 := rfl
  unfold PageParams.effectiveLimit PageParams.size
  rw [hclamp, Option.map_some]
  congr 1
  split
  next hlow =>
    rw [UInt32.lt_iff_toNat_lt] at hlow
    omega
  next hlow =>
    rw [UInt32.lt_iff_toNat_lt] at hlow
    split
    next hhigh =>
      rw [UInt32.lt_iff_toNat_lt] at hhigh
      omega
    next hhigh =>
      rw [UInt32.lt_iff_toNat_lt] at hhigh
      omega

lemma size_pos (params : PageParams) : 0 < params.size := by
  unfold PageParams.size
  omega

/-- The offset from which a call with the cursor returns rows. -/
def offsetOf (codec : TextCodec) (all : Rows α) (cursor : Option String) : ℕ :=
  min ((cursor.bind (decodeOffsetCursor codec)).getD 0) all.toList.length

lemma min_saturating {n length : ℕ} (h : length < 2 ^ 64) :
    min (min n (2 ^ 64 - 1)) length = min n length := by
  have hmax : length ≤ 2 ^ 64 - 1 := Nat.le_sub_one_of_lt h
  rw [min_assoc, min_eq_right hmax]

/-- A call does not panic.  It returns the rows from its offset on, as many as its limit lets it,
and it has a cursor for the offset behind them if there are more. -/
lemma fromSlice_eq (all : Rows α) (params : PageParams) :
    fromSlice codec all params = some
      ⟨(all.toList.drop (offsetOf codec all params.cursor)).take params.size,
        if offsetOf codec all params.cursor + params.size < all.toList.length then
          some (encodeOffsetCursor codec (offsetOf codec all params.cursor + params.size))
        else none,
        some all.toList.length⟩ := by
  unfold fromSlice
  rw [effectiveLimit_eq, Option.map_some]
  simp only [min_saturating all.length_lt, decide_eq_true_eq, PageParams.startOffset]
  change some (Page.mk ((all.toList.drop (offsetOf codec all params.cursor)).take params.size)
    (if min (offsetOf codec all params.cursor + params.size) all.toList.length <
      all.toList.length then some (encodeOffsetCursor codec
        (min (offsetOf codec all params.cursor + params.size) all.toList.length)) else none)
    (some all.toList.length)) = _
  by_cases hmore : offsetOf codec all params.cursor + params.size < all.toList.length
  · rw [min_eq_left hmore.le]
  · rw [min_eq_right (not_lt.mp hmore), if_neg (lt_irrefl _), if_neg hmore]

/-! ## Walks -/

/-- What a client reads from an offset on: pages of which every one but the last has rows and a
cursor, and which together have the rows from the offset on in their order. -/
structure ReadsFrom (all : Rows α) (offset : ℕ) (pages : List (Page α)) : Prop where
  /-- The pages together have the rows. -/
  items : pages.flatMap Page.items = all.toList.drop offset
  /-- The last page, and no other one, is without a cursor. -/
  cursors : ∃ front last, pages = front ++ [last] ∧ last.nextCursor = none ∧
    ∀ page ∈ front, page.nextCursor ≠ none ∧ page.items ≠ []

lemma ReadsFrom.last {all : Rows α} {offset : ℕ} {page : Page α}
    (hitems : page.items = all.toList.drop offset) (hcursor : page.nextCursor = none) :
    ReadsFrom all offset [page] := by
  refine ⟨?_, [], page, rfl, hcursor, fun _ h => absurd h List.not_mem_nil⟩
  rw [List.flatMap_singleton, hitems]

/-- A page is read in front of others. -/
lemma ReadsFrom.cons {all : Rows α} {offset n : ℕ} {page : Page α} {pages : List (Page α)}
    (h : ReadsFrom all (offset + n) pages) (hitems : page.items = (all.toList.drop offset).take n)
    (hcursor : page.nextCursor ≠ none) (hne : page.items ≠ []) :
    ReadsFrom all offset (page :: pages) := by
  obtain ⟨hrest, front, last, rfl, hlast, hfront⟩ := h
  refine ⟨?_, page :: front, last, rfl, hlast, ?_⟩
  · rw [List.flatMap_cons, hrest, hitems, ← List.drop_drop, List.take_append_drop]
  · intro p hp
    rcases List.mem_cons.mp hp with rfl | hp
    · exact ⟨hcursor, hne⟩
    · exact hfront p hp

lemma offsetOf_encode {all : Rows α} {n : ℕ} (hn : n < all.toList.length) :
    offsetOf codec all (some (encodeOffsetCursor codec n)) = n := by
  unfold offsetOf
  rw [Option.bind_some, decodeOffsetCursor_encode codec (hn.trans all.length_lt),
    Option.getD_some, min_eq_left hn.le]

/-- A walk from a cursor ends, for every sequence of limits: with every page the offset grows. -/
theorem exists_walk (all : Rows α) (limits : ℕ → Option UInt32) (fuel : ℕ) :
    ∀ (i : ℕ) (cursor : Option String), all.toList.length < offsetOf codec all cursor + fuel →
      ∃ pages, walk codec all limits fuel i cursor = some pages ∧
        ReadsFrom all (offsetOf codec all cursor) pages := by
  induction fuel with
  | zero =>
    intro i cursor hfuel
    have hend : offsetOf codec all cursor ≤ all.toList.length := min_le_right _ _
    omega
  | succ fuel ih =>
    intro i cursor hfuel
    have hsize := size_pos ⟨limits i, cursor⟩
    rw [walk, fromSlice_eq, Option.bind_eq_bind, Option.bind_some]
    generalize PageParams.size ⟨limits i, cursor⟩ = n at hsize ⊢
    by_cases hmore : offsetOf codec all cursor + n < all.toList.length
    · simp only [if_pos hmore]
      have hnext : offsetOf codec all
          (some (encodeOffsetCursor codec (offsetOf codec all cursor + n))) =
            offsetOf codec all cursor + n := offsetOf_encode hmore
      obtain ⟨pages, hpages, hreads⟩ := ih (i + 1)
        (some (encodeOffsetCursor codec (offsetOf codec all cursor + n))) (by omega)
      rw [hnext] at hreads
      rw [hpages, Option.map_some]
      refine ⟨_, rfl, hreads.cons rfl nofun ?_⟩
      refine List.ne_nil_of_length_pos ?_
      rw [List.length_take, List.length_drop]
      omega
    · simp only [if_neg hmore]
      refine ⟨_, rfl, ReadsFrom.last ?_ rfl⟩
      refine List.take_of_length_le ?_
      rw [List.length_drop]
      omega

/-- Walking pages returns everything once.  For every list of rows and every sequence of limits, a
walk that starts without a cursor ends after at most one call more than there are rows; its pages
together are the rows in order, and the last page, and no other one, is without a cursor.  A call
with any limit and any cursor returns a page, whose rows are consecutive rows of the list. -/
theorem walk_returns_everything_once (codec : TextCodec) (all : Rows α) :
    (∀ limits : ℕ → Option UInt32, ∃ pages,
      walk codec all limits (all.toList.length + 1) 0 none = some pages ∧
      pages.flatMap Page.items = all.toList ∧
      ∃ front last, pages = front ++ [last] ∧ last.nextCursor = none ∧
        ∀ page ∈ front, page.nextCursor ≠ none ∧ page.items ≠ []) ∧
    ∀ (limit : Option UInt32) (cursor : Option String), ∃ page,
      fromSlice codec all ⟨limit, cursor⟩ = some page ∧ page.items <:+: all.toList ∧
      page.items.length ≤ 200 ∧ page.total = some all.toList.length := by
  have hstart : offsetOf codec all none = 0 := Nat.zero_min _
  refine ⟨fun limits => ?_, fun limit cursor => ?_⟩
  · obtain ⟨pages, hpages, hreads⟩ := exists_walk all limits (all.toList.length + 1) 0 none
      (by rw [hstart]; omega)
    refine ⟨pages, hpages, ?_, hreads.cursors⟩
    rw [hreads.items, hstart, List.drop_zero]
  · refine ⟨_, fromSlice_eq all ⟨limit, cursor⟩, ?_, ?_, rfl⟩
    · exact (List.take_prefix _ _).isInfix.trans (List.drop_suffix _ _).isInfix
    · have hsize : PageParams.size ⟨limit, cursor⟩ ≤ 200 := min_le_right _ _
      exact (List.length_take_le _ _).trans hsize

/-- The text of bytes in sixty-four characters, without padding. -/
def urlSafeNoPad : TextCodec where
  encode := Base64Url.encode
  decode := Base64Url.decode
  decode_encode := Base64Url.decode_encode

/-- Three rows. -/
def threeRows : Rows ℕ := ⟨[1, 2, 3], by decide⟩

/-- Three rows are walked with a limit of zero and then with an oversized one, and a cursor that is
no cursor is answered. -/
theorem walk_of_three_rows :
    (∃ pages, walk urlSafeNoPad threeRows (fun i => if i = 0 then some 0 else some 9999) 4 0 none =
        some pages ∧
      pages.flatMap Page.items = [1, 2, 3]) ∧
    ∃ page, fromSlice urlSafeNoPad threeRows ⟨none, some "garbage"⟩ = some page ∧
      page.items <:+: [1, 2, 3] := by
  obtain ⟨hwalk, hcall⟩ := walk_returns_everything_once urlSafeNoPad threeRows
  obtain ⟨pages, hpages, hitems, -⟩ := hwalk fun i => if i = 0 then some 0 else some 9999
  obtain ⟨page, hpage, hrows, -⟩ := hcall none (some "garbage")
  exact ⟨⟨pages, hpages, hitems⟩, page, hpage, hrows⟩

end Orca.Contract
