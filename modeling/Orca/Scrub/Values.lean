import Orca.Library.GreedyCover
import Orca.Library.Scan
import Orca.Scrub.PemBlocks

/-!
# Secret values in a text

`redact_values` puts `***` in the place of each value of a list, one value after the other, and
reads what the values before have left.  The values are not empty and have no star (`Secret`), so
that a value is not found across what was put in.

A character of the output that comes from the text is told apart from one that was put in
(`Marked`).  Nothing of an occurrence of a value is left, and the order of the values does not
matter, if and only if the matches of different values do not overlap and all of the occurrences
are in matches (`replaceValues_whole_iff`).
-/

namespace Orca.Scrub

open GreedyCover

/-! ## Values -/

/-- A step of the fold of `redact_values`; an empty value is skipped. -/
def replaceValue (out v : List Char) : List Char :=
  if h : v = [] then out else Scan.replace (Scan.literal v h) redacted 0 out

/-- The fold of `redact_values`. -/
def replaceValues (text : List Char) (values : List (List Char)) : List Char :=
  values.foldl replaceValue text

/-- `redact_values`. -/
def redactValues (rules : List Rule) (text : List Char) (values : List (List Char)) : List Char :=
  scrubLine rules (replaceValues text values)

/-- A value that is a secret. -/
structure Secret where
  value : List Char
  nonempty : value ≠ []
  no_star : '*' ∉ value
  deriving DecidableEq

/-- A character of the output. -/
structure Marked where
  char : Char
  /-- The place of the text that it comes from; a star that was put in comes from none. -/
  origin : Option ℕ
  deriving DecidableEq

/-- The characters of a text with their places. -/
def markFrom : ℕ → List Char → List Marked
  | _, [] => []
  | i, c :: s => ⟨c, some i⟩ :: markFrom (i + 1) s

/-- `REDACTED`, with stars that come from nowhere. -/
def stars : List Marked := redacted.map fun c => ⟨c, none⟩

/-- A value is found by its characters. -/
def Secret.pattern (v : Secret) : Scan.Pattern Marked :=
  Scan.spelled Marked.char v.value v.nonempty

/-- The fold of `redact_values`, where characters keep their places. -/
def replaceMarked (text : List Char) (values : List Secret) : List Marked :=
  values.foldl (fun out v => Scan.replace v.pattern stars 0 out) (markFrom 0 text)

/-- `match_indices`: the places of a text where a value is found from left to right. -/
def matchIndices (text : List Char) (v : Secret) : List ℕ :=
  Scan.starts (Scan.literal v.value v.nonempty) 0 0 text

/-- A place of the text is in an occurrence of one of the values. -/
def IsSecret (text : List Char) (values : List Secret) (i : ℕ) : Prop :=
  ∃ v ∈ values, ∃ p, v.value <+: text.drop p ∧ p ≤ i ∧ i < p + v.value.length

lemma map_char_markFrom (i : ℕ) (s : List Char) : (markFrom i s).map Marked.char = s := by
  induction s generalizing i with
  | nil => rfl
  | cons c s ih => rw [markFrom, List.map_cons, ih]

/-- The marks do not change what is put out. -/
lemma map_char_replaceMarked (text : List Char) (values : List Secret) :
    (replaceMarked text values).map Marked.char = replaceValues text (values.map Secret.value) := by
  have hstep (out : List Marked) (v : Secret) :
      (Scan.replace v.pattern stars 0 out).map Marked.char =
        replaceValue (out.map Marked.char) v.value := by
    unfold replaceValue Secret.pattern
    rw [dif_neg v.nonempty, Scan.map_replace]
    rfl
  unfold replaceMarked replaceValues
  rw [List.foldl_map]
  conv_rhs => rw [← map_char_markFrom 0 text]
  generalize markFrom 0 text = out
  induction values generalizing out with
  | nil => rfl
  | cons v values ih =>
    rw [List.foldl_cons, List.foldl_cons, ih, hstep]

/-! ## What is left of a text -/

/-- The secrets of a text, as items on a line. -/
def items (text : List Char) : Items Secret where
  len v := v.value.length
  occ v := (Finset.range text.length).filter fun p => v.value <+: text.drop p
  len_pos v := List.length_pos_iff.mpr v.nonempty
  eq_of_len {v w p} hv hw hlen := by
    have hv := (Finset.mem_filter.mp hv).2
    have hw := (Finset.mem_filter.mp hw).2
    have hvalue := (List.prefix_of_prefix_length_le hv hw hlen.le).eq_of_length hlen
    cases v
    cases w
    cases hvalue
    rfl
  occ_subset {v w p} hv hw hlen := by
    have hv := (Finset.mem_filter.mp hv).2
    have hw := (Finset.mem_filter.mp hw).2
    have hbegin := List.prefix_of_prefix_length_le hv hw hlen
    intro q hq
    rw [Finset.mem_filter] at hq ⊢
    exact ⟨hq.1, hbegin.trans hq.2⟩

variable {text : List Char}

lemma mem_occ {v : Secret} {p : ℕ} : p ∈ (items text).occ v ↔ v.value <+: text.drop p := by
  change p ∈ (Finset.range text.length).filter (fun p => v.value <+: text.drop p) ↔ _
  rw [Finset.mem_filter, Finset.mem_range, and_iff_right_iff_imp]
  intro hbegin
  by_contra! hle
  rw [List.drop_eq_nil_of_le hle] at hbegin
  exact v.nonempty (List.prefix_nil.mp hbegin)

/-- The characters that are left of a text that starts at `i`, with `***` where a piece starts. -/
def renderFrom (s : Line) : ℕ → List Char → List Marked
  | _, [] => []
  | i, c :: rest =>
    (if i ∈ s.starts then stars else if i ∈ s.covered then [] else [⟨c, some i⟩]) ++
      renderFrom s (i + 1) rest

/-- All characters are left where nothing is covered. -/
lemma renderFrom_uncovered {s : Line} {i : ℕ} {u : List Char}
    (h : ∀ j, i ≤ j → j < i + u.length → j ∉ s.covered) (rest : List Char) :
    renderFrom s i (u ++ rest) = markFrom i u ++ renderFrom s (i + u.length) rest := by
  induction u generalizing i with
  | nil => rfl
  | cons c u ih =>
    rw [List.length_cons] at h
    have hi : i ∉ s.covered := h i le_rfl (by omega)
    have hnext : i + (c :: u).length = i + 1 + u.length := by
      rw [List.length_cons]
      omega
    rw [List.cons_append, renderFrom, if_neg fun hstart => hi (s.starts_subset hstart), if_neg hi,
      ih fun j hle hlt => h j (by omega) (by omega), hnext]
    rfl

/-- No character is left behind the start of a piece. -/
lemma renderFrom_covered {s : Line} {i : ℕ} {u : List Char}
    (h : ∀ j, i ≤ j → j < i + u.length → j ∈ s.covered ∧ j ∉ s.starts) (rest : List Char) :
    renderFrom s i (u ++ rest) = renderFrom s (i + u.length) rest := by
  induction u generalizing i with
  | nil => rfl
  | cons c u ih =>
    rw [List.length_cons] at h
    obtain ⟨hcovered, hstart⟩ := h i le_rfl (by omega)
    have hnext : i + (c :: u).length = i + 1 + u.length := by
      rw [List.length_cons]
      omega
    rw [List.cons_append, renderFrom, if_neg hstart, if_pos hcovered, List.nil_append,
      ih fun j hle hlt => h j (by omega) (by omega), hnext]

/-- Nothing is covered of a word that is spelled by what is left: it stands in the text. -/
lemma prefix_of_spelled {s : Line} {i : ℕ} {u rest : List Char} (hstar : '*' ∉ u)
    (hspelled : u <+: (renderFrom s i rest).map Marked.char)
    (hstart : i ∈ s.covered → i ∈ s.starts) :
    u <+: rest ∧ ∀ j, i ≤ j → j < i + u.length → j ∉ s.covered := by
  induction rest generalizing i u with
  | nil =>
    obtain rfl := List.prefix_nil.mp hspelled
    exact ⟨List.prefix_rfl, fun j hle hlt => absurd hlt (by simpa using hle)⟩
  | cons c rest ih =>
    cases u with
    | nil => exact ⟨List.nil_prefix, fun j hle hlt => absurd hlt (by simpa using hle)⟩
    | cons c' u =>
      by_cases hi : i ∈ s.starts
      · rw [renderFrom, if_pos hi] at hspelled
        have hhead : c' = '*' := (List.cons_prefix_cons.mp hspelled).1
        exact absurd (hhead ▸ List.mem_cons_self) hstar
      · have hcovered : i ∉ s.covered := fun h => hi (hstart h)
        rw [renderFrom, if_neg hi, if_neg hcovered, List.singleton_append,
          List.map_cons] at hspelled
        obtain ⟨hc, hu⟩ := List.cons_prefix_cons.mp hspelled
        obtain ⟨hbegin, hfree⟩ := ih (fun h => hstar (List.mem_cons_of_mem _ h)) hu
          fun hnext => (s.joined i hnext).resolve_right hcovered
        refine ⟨List.cons_prefix_cons.mpr ⟨hc, hbegin⟩, fun j hle hlt => ?_⟩
        rcases hle.eq_or_lt with rfl | hlt'
        · exact hcovered
        · rw [List.length_cons] at hlt
          exact hfree j hlt' (by omega)

/-- A star that was put in is left as it is. -/
lemma replace_stars (v : Secret) (rest : List Marked) :
    Scan.replace v.pattern stars 0 (stars ++ rest) =
      stars ++ Scan.replace v.pattern stars 0 rest := by
  have hone (rest : List Marked) : Scan.replace v.pattern stars 0 (⟨'*', none⟩ :: rest) =
      ⟨'*', none⟩ :: Scan.replace v.pattern stars 0 rest := by
    refine Scan.replace_of_no_match (Scan.spelled_rest_eq_none.mpr fun hbegin => ?_)
    obtain ⟨c, u, hvalue⟩ := List.exists_cons_of_ne_nil v.nonempty
    rw [hvalue, List.map_cons] at hbegin
    have hstar : '*' ∈ v.value := by
      rw [hvalue, (List.cons_prefix_cons.mp hbegin).1]
      exact List.mem_cons_self
    exact v.no_star hstar
  have hstars (rest : List Marked) :
      stars ++ rest = ⟨'*', none⟩ :: ⟨'*', none⟩ :: ⟨'*', none⟩ :: rest := rfl
  rw [hstars, hone, hone, hone, hstars]

/-- A value is found at the front of what is left if its occurrence is free. -/
lemma mem_free_iff {s : Line} {v : Secret} {i : ℕ} (hi : i ∉ s.covered) :
    i ∈ (items text).free s v ↔
      v.value <+: (renderFrom s i (text.drop i)).map Marked.char := by
  rw [Items.mem_free, mem_occ]
  constructor
  · rintro ⟨⟨rest, hrest⟩, hfree⟩
    rw [← hrest, renderFrom_uncovered hfree, List.map_append, map_char_markFrom]
    exact List.prefix_append _ _
  · exact fun hbegin => prefix_of_spelled v.no_star hbegin fun h => absurd h hi

/-- What is left of a piece that a value takes. -/
lemma renderFrom_take_of_mem {s : Line} {v : Secret} {i : ℕ} (hi : i ∈ (items text).picks s v)
    (rest : List Char) : renderFrom ((items text).take s v) i (v.value ++ rest) =
      stars ++ renderFrom ((items text).take s v) (i + v.value.length) rest := by
  have hfree := (Items.mem_free.mp (Items.picks_subset hi)).2
  have hlen : (items text).len v = v.value.length := rfl
  obtain ⟨c, u, hvalue⟩ := List.exists_cons_of_ne_nil v.nonempty
  have hlength : v.value.length = u.length + 1 := by rw [hvalue, List.length_cons]
  have hstart : i ∈ ((items text).take s v).starts := Finset.mem_union_right _ hi
  have hnext : i + v.value.length = i + 1 + u.length := by omega
  rw [hnext, hvalue, List.cons_append, renderFrom, if_pos hstart, renderFrom_covered]
  intro j hle hlt
  refine ⟨Finset.mem_union_right _ (mem_span.mpr ⟨i, hi, by omega, by omega⟩), fun hj => ?_⟩
  rcases Finset.mem_union.mp hj with hj | hj
  · exact hfree j (by omega) (by omega) (s.starts_subset hj)
  · have := add_le_of_mem_greedy hi hj (by omega)
    omega

/-- What is left of a place that is in no piece that a value takes. -/
lemma renderFrom_take_of_notMem {s : Line} {v : Secret} {i : ℕ} (hi : i ∉ (items text).picks s v)
    (hbehind : ∀ g ∈ (items text).picks s v, g < i → g + v.value.length ≤ i) (c : Char)
    (rest : List Char) : renderFrom ((items text).take s v) i (c :: rest) =
      (if i ∈ s.starts then stars else if i ∈ s.covered then [] else [⟨c, some i⟩]) ++
        renderFrom ((items text).take s v) (i + 1) rest := by
  have hstarts : i ∈ ((items text).take s v).starts ↔ i ∈ s.starts := by
    rw [Items.take_starts, Finset.mem_union, or_iff_left hi]
  have hcovered : i ∈ ((items text).take s v).covered ↔ i ∈ s.covered := by
    rw [Items.take_covered, Finset.mem_union, or_iff_left]
    intro hspan
    obtain ⟨g, hg, hle, hlt⟩ := mem_span.mp hspan
    rcases hle.eq_or_lt with rfl | hlt'
    · exact hi hg
    · exact absurd hlt (not_lt.mpr (hbehind g hg hlt'))
  rw [renderFrom]
  simp only [hstarts, hcovered]

/-- What a value does to what is left of a text is to take its pieces. -/
lemma replace_renderFrom (s : Line) (v : Secret) (i : ℕ)
    (hbehind : ∀ g ∈ (items text).picks s v, g < i → g + v.value.length ≤ i) :
    Scan.replace v.pattern stars 0 (renderFrom s i (text.drop i)) =
      renderFrom ((items text).take s v) i (text.drop i) := by
  have hpos : 0 < v.value.length := List.length_pos_iff.mpr v.nonempty
  induction hn : (text.drop i).length using Nat.strong_induction_on generalizing i with
  | _ n ih =>
    subst hn
    by_cases hpick : i ∈ (items text).picks s v
    · -- the value is found here, and the scan goes on behind it
      have hfree := Items.mem_free.mp (Items.picks_subset hpick)
      obtain ⟨rest, hrest⟩ := mem_occ.mp hfree.1
      have hdrop : text.drop (i + v.value.length) = rest := by
        rw [← List.drop_drop, ← hrest, List.drop_left]
      have hnext := ih rest.length (by rw [← hrest, List.length_append]; omega)
        (i + v.value.length) (fun g hg hlt => by
          rcases Nat.lt_or_ge i g with hlt' | hle
          · have hlen : i + v.value.length ≤ g := add_le_of_mem_greedy hpick hg hlt'
            omega
          · omega) (by rw [hdrop])
      rw [hdrop] at hnext
      have hmatch := Scan.spelled_rest (h := v.nonempty) (map_char_markFrom i v.value)
        (renderFrom s (i + v.value.length) rest)
      rw [← hrest, renderFrom_uncovered hfree.2, renderFrom_take_of_mem hpick, ← hnext]
      exact Scan.replace_of_rest hmatch
    · cases hrest : text.drop i with
      | nil => rfl
      | cons c rest =>
        have hdrop : text.drop (i + 1) = rest := by
          rw [← List.drop_drop, hrest, List.drop_one, List.tail_cons]
        have hnext := ih rest.length (by rw [hrest]; exact Nat.lt_succ_self _) (i + 1)
          (fun g hg hlt => by
            have hne : g ≠ i := fun heq => hpick (heq ▸ hg)
            have := hbehind g hg (by omega)
            omega) (by rw [hdrop])
        rw [hdrop] at hnext
        rw [renderFrom_take_of_notMem hpick hbehind, ← hnext, renderFrom]
        by_cases hstart : i ∈ s.starts
        · rw [if_pos hstart, replace_stars]
        · rw [if_neg hstart]
          by_cases hcovered : i ∈ s.covered
          · rw [if_pos hcovered, List.nil_append, List.nil_append]
          · rw [if_neg hcovered]
            -- a free occurrence here would be taken
            have hfree : i ∉ (items text).free s v := fun hfree =>
              hpick (mem_greedy.mpr ⟨hfree, hbehind⟩)
            rw [mem_free_iff hcovered, hrest, renderFrom, if_neg hstart, if_neg hcovered] at hfree
            exact Scan.replace_of_no_match (Scan.spelled_rest_eq_none.mpr hfree)

/-- What is put out is what is left when the values have taken their pieces. -/
lemma replaceMarked_eq (values : List Secret) :
    replaceMarked text values = renderFrom ((items text).run Line.bare values) 0 text := by
  have hbare (i : ℕ) (rest : List Char) : markFrom i rest = renderFrom Line.bare i rest := by
    induction rest generalizing i with
    | nil => rfl
    | cons c rest ih =>
      have hstart : i ∉ Line.bare.starts := Finset.notMem_empty i
      have hcovered : i ∉ Line.bare.covered := Finset.notMem_empty i
      rw [markFrom, ih, renderFrom, if_neg hstart, if_neg hcovered, List.singleton_append]
  unfold replaceMarked
  rw [hbare]
  generalize Line.bare = s
  induction values generalizing s with
  | nil => rfl
  | cons v values ih =>
    have hstep : Scan.replace v.pattern stars 0 (renderFrom s 0 (text.drop 0)) =
        renderFrom ((items text).take s v) 0 (text.drop 0) :=
      replace_renderFrom s v 0 fun g _ hg => absurd hg (Nat.not_lt_zero g)
    rw [List.drop_zero] at hstep
    rw [List.foldl_cons, hstep, ih]
    rfl

/-! ## What the output tells -/

/-- A place comes out if and only if nothing covers it. -/
lemma exists_mem_renderFrom {s : Line} {i j : ℕ} {rest : List Char} :
    (∃ m ∈ renderFrom s i rest, m.origin = some j) ↔
      i ≤ j ∧ j < i + rest.length ∧ j ∉ s.covered := by
  induction rest generalizing i with
  | nil =>
    constructor
    · rintro ⟨m, hm, -⟩
      exact absurd hm List.not_mem_nil
    · rintro ⟨hle, hlt, -⟩
      exact absurd hlt (not_lt.mpr hle)
  | cons c rest ih =>
    have hfirst : (∃ m ∈ (if i ∈ s.starts then stars else if i ∈ s.covered then []
        else [(⟨c, some i⟩ : Marked)]), m.origin = some j) ↔ i = j ∧ j ∉ s.covered := by
      by_cases hstart : i ∈ s.starts
      · have hcovered := s.starts_subset hstart
        rw [if_pos hstart]
        constructor
        · rintro ⟨m, hm, hj⟩
          obtain ⟨c, -, rfl⟩ := List.mem_map.mp hm
          cases hj
        · rintro ⟨rfl, hj⟩
          exact absurd hcovered hj
      · rw [if_neg hstart]
        by_cases hcovered : i ∈ s.covered
        · rw [if_pos hcovered]
          constructor
          · rintro ⟨m, hm, -⟩
            exact absurd hm List.not_mem_nil
          · rintro ⟨rfl, hj⟩
            exact absurd hcovered hj
        · rw [if_neg hcovered]
          constructor
          · rintro ⟨m, hm, hj⟩
            rw [List.mem_singleton.mp hm] at hj
            obtain rfl : i = j := Option.some.inj hj
            exact ⟨rfl, hcovered⟩
          · rintro ⟨rfl, -⟩
            exact ⟨_, List.mem_singleton_self _, rfl⟩
    have hor : (∃ m ∈ renderFrom s i (c :: rest), m.origin = some j) ↔
        (i = j ∧ j ∉ s.covered) ∨ ∃ m ∈ renderFrom s (i + 1) rest, m.origin = some j := by
      rw [← hfirst, renderFrom]
      simp only [List.mem_append, or_and_right, exists_or]
    rw [hor, ih, List.length_cons]
    constructor
    · rintro (⟨rfl, hj⟩ | ⟨hle, hlt, hj⟩)
      · exact ⟨le_rfl, by omega, hj⟩
      · exact ⟨by omega, by omega, hj⟩
    · rintro ⟨hle, hlt, hj⟩
      rcases hle.eq_or_lt with rfl | hlt'
      · exact Or.inl ⟨rfl, hj⟩
      · exact Or.inr ⟨hlt', by omega, hj⟩

/-- The length of what is left. -/
lemma length_renderFrom (s : Line) (i : ℕ) (rest : List Char) :
    (renderFrom s i rest).length + (List.range' i rest.length).countP (· ∈ s.covered) =
      rest.length + 3 * (List.range' i rest.length).countP (· ∈ s.starts) := by
  induction rest generalizing i with
  | nil => rfl
  | cons c rest ih =>
    have hrest := ih (i + 1)
    rw [List.length_cons, List.range'_succ, List.countP_cons, List.countP_cons, renderFrom,
      List.length_append]
    by_cases hstart : i ∈ s.starts
    · have hcovered := s.starts_subset hstart
      have hstars : stars.length = 3 := rfl
      simp only [hstart, hcovered, if_true, decide_true, hstars]
      omega
    · by_cases hcovered : i ∈ s.covered
      · simp only [hstart, hcovered, if_true, if_false, decide_true, decide_false, List.length_nil,
          Bool.false_eq_true]
        omega
      · simp only [hstart, hcovered, if_false, decide_false, List.length_singleton,
          Bool.false_eq_true]
        omega

/-- The stars of what is left, where no star of the text is covered. -/
lemma count_renderFrom {s : Line} {i : ℕ} {rest : List Char}
    (h : ∀ k, rest[k]? = some '*' → i + k ∉ s.covered) :
    ((renderFrom s i rest).map Marked.char).count '*' =
      rest.count '*' + 3 * (List.range' i rest.length).countP (· ∈ s.starts) := by
  induction rest generalizing i with
  | nil => rfl
  | cons c rest ih =>
    have hrest := ih fun k hk => by
      have hnext := h (k + 1) hk
      rwa [Nat.add_assoc, Nat.add_comm 1 k]
    rw [List.length_cons, List.range'_succ, List.countP_cons, renderFrom, List.map_append,
      List.count_append, hrest, List.count_cons]
    by_cases hcovered : i ∈ s.covered
    · have hc : c ≠ '*' := by
        rintro rfl
        exact h 0 rfl hcovered
      by_cases hstart : i ∈ s.starts
      · have hstars : (stars.map Marked.char).count '*' = 3 := by decide
        simp only [hstart, if_true, decide_true, hstars, beq_iff_eq, hc, if_false]
        omega
      · simp only [hstart, hcovered, if_true, if_false, decide_false, List.map_nil, List.count_nil,
          beq_iff_eq, hc, Bool.false_eq_true]
        omega
    · have hstart : i ∉ s.starts := fun hstart => hcovered (s.starts_subset hstart)
      simp only [hstart, hcovered, if_false, decide_false, List.map_singleton,
        Bool.false_eq_true, List.count_singleton]
      omega

/-- A set of places is counted place by place. -/
lemma countP_range' {n : ℕ} {S : Finset ℕ} (h : S ⊆ Finset.range n) :
    (List.range' 0 n).countP (· ∈ S) = S.card := by
  rw [List.countP_eq_length_filter, ← List.range_eq_range']
  have hset : ((List.range n).filter (· ∈ S)).toFinset = S := by
    ext j
    simp only [List.mem_toFinset, List.mem_filter, List.mem_range, decide_eq_true_eq]
    exact ⟨fun hj => hj.2, fun hj => ⟨Finset.mem_range.mp (h hj), hj⟩⟩
  conv_rhs => rw [← hset]
  exact (List.toFinset_card_of_nodup (List.nodup_range.filter _)).symm

/-- What the values cover is in the text, and no star. -/
lemma covered_run {values : List Secret} {j : ℕ}
    (h : j ∈ ((items text).run Line.bare values).covered) : IsSecret text values j := by
  rcases Items.mem_covered_run h with hbare | ⟨v, hv, p, hp, hle, hlt⟩
  · exact absurd hbare (Finset.notMem_empty j)
  · exact ⟨v, hv, p, mem_occ.mp (Items.mem_free.mp hp).1, hle, hlt⟩

/-- A secret place is a place of the text, without a star. -/
lemma IsSecret.getElem? {values : List Secret} {j : ℕ} (h : IsSecret text values j) :
    j < text.length ∧ text[j]? ≠ some '*' := by
  obtain ⟨v, -, p, ⟨rest, hrest⟩, hle, hlt⟩ := h
  obtain ⟨k, rfl⟩ := Nat.exists_eq_add_of_le hle
  have hk : text[p + k]? = v.value[k]? := by
    rw [← List.getElem?_drop, ← hrest, List.getElem?_append_left (by omega)]
  rw [List.getElem?_eq_getElem (show k < v.value.length by omega)] at hk
  refine ⟨(List.getElem?_eq_some_iff.mp hk).1, fun hstar => ?_⟩
  rw [hk] at hstar
  exact v.no_star (Option.some.inj hstar ▸ List.getElem_mem _)

/-- Outputs that are the same come from as many pieces, which cover as much. -/
lemma card_eq_of_replaceValues_eq {values values' : List Secret}
    (h : replaceValues text (values.map Secret.value) =
      replaceValues text (values'.map Secret.value)) :
    ((items text).run Line.bare values).starts.card =
        ((items text).run Line.bare values').starts.card ∧
      ((items text).run Line.bare values).covered.card =
        ((items text).run Line.bare values').covered.card := by
  have hcount (values : List Secret) : (replaceValues text (values.map Secret.value)).count '*' =
      text.count '*' + 3 * ((items text).run Line.bare values).starts.card ∧
      (replaceValues text (values.map Secret.value)).length +
          ((items text).run Line.bare values).covered.card =
        text.length + 3 * ((items text).run Line.bare values).starts.card := by
    set s := (items text).run Line.bare values with hs
    have hsub : s.covered ⊆ Finset.range text.length := fun j hj =>
      Finset.mem_range.mpr (covered_run hj).getElem?.1
    rw [← map_char_replaceMarked, replaceMarked_eq, ← hs, List.length_map,
      ← countP_range' (s.starts_subset.trans hsub), ← countP_range' hsub]
    refine ⟨count_renderFrom fun k hk hj => ?_, length_renderFrom s 0 text⟩
    rw [Nat.zero_add] at hj
    exact (covered_run hj).getElem?.2 hk
  obtain ⟨hstars, hlength⟩ := hcount values
  obtain ⟨hstars', hlength'⟩ := hcount values'
  rw [h] at hstars hlength
  omega

/-! ## Whole redaction -/

/-- The matches of two different values do not overlap. -/
def MatchesApart (text : List Char) (values : List Secret) : Prop :=
  ∀ v ∈ values, ∀ w ∈ values, v ≠ w → ∀ p ∈ matchIndices text v, ∀ q ∈ matchIndices text w,
    p + v.value.length ≤ q ∨ q + w.value.length ≤ p

/-- What is secret is in a match. -/
def MatchesCover (text : List Char) (values : List Secret) : Prop :=
  ∀ i, IsSecret text values i →
    ∃ v ∈ values, ∃ p ∈ matchIndices text v, p ≤ i ∧ i < p + v.value.length

/-- The matches of a value are the pieces that it takes as the first. -/
lemma mem_matchIndices {v : Secret} {p : ℕ} :
    p ∈ matchIndices text v ↔ p ∈ (items text).picks Line.bare v := by
  obtain ⟨hwhere, hbehind, hall⟩ := Scan.starts_literal (h := v.nonempty) 0 text
  have hfree (p : ℕ) : p ∈ (items text).free Line.bare v ↔ v.value <+: text.drop p := by
    rw [Items.mem_free, mem_occ, and_iff_left]
    exact fun i _ _ => Finset.notMem_empty i
  have heq : (matchIndices text v).toFinset = (items text).picks Line.bare v := by
    refine eq_greedy fun p => ?_
    simp only [List.mem_toFinset, hfree]
    constructor
    · intro hp
      have hword := (hwhere p hp).2
      rw [Nat.sub_zero] at hword
      exact ⟨hword, fun r hr hlt => hbehind r hr p hp hlt⟩
    · rintro ⟨hword, hfirst⟩
      obtain ⟨r, hr, hle, hlt⟩ := hall p hword
      rw [Nat.zero_add] at hle hlt
      rcases hle.eq_or_lt with rfl | hlt'
      · exact hr
      · exact absurd hlt (not_lt.mpr (hfirst r hr hlt'))
  rw [← heq, List.mem_toFinset]

lemma matchesApart_iff {values : List Secret} :
    MatchesApart text values ↔ (items text).Apart Line.bare values.toFinset := by
  unfold MatchesApart Items.Apart
  simp only [mem_matchIndices, List.mem_toFinset]
  exact Iff.rfl

/-- Nothing secret comes out if and only if the pieces that the values take cover it. -/
lemma leaks_nothing_iff {values : List Secret} :
    (∀ m ∈ replaceMarked text values, ∀ i ∈ m.origin, ¬IsSecret text values i) ↔
      ∀ i, IsSecret text values i → i ∈ ((items text).run Line.bare values).covered := by
  rw [replaceMarked_eq]
  constructor
  · intro h i hi
    by_contra hcovered
    obtain ⟨m, hm, horigin⟩ := exists_mem_renderFrom.mpr
      ⟨Nat.zero_le i, by rw [Nat.zero_add]; exact hi.getElem?.1, hcovered⟩
    exact h m hm i horigin hi
  · intro h m hm i horigin hi
    exact (exists_mem_renderFrom.mp ⟨m, hm, horigin⟩).2.2 (h i hi)

/-- Values that redact their text whole, in the same way in all orders, are items whose order does
not matter. -/
lemma sound_of_whole {values : List Secret}
    (hwhole : ∀ i, IsSecret text values i → i ∈ ((items text).run Line.bare values).covered)
    (horder : ∀ values' : List Secret, values'.Perm values →
      replaceValues text (values'.map Secret.value) =
        replaceValues text (values.map Secret.value)) :
    (items text).Sound Line.bare values.toFinset
      ((items text).run Line.bare values).starts.card := by
  have hrun {xs : List Secret} (hnodup : xs.Nodup) (hxs : xs.toFinset = values.toFinset) :
      ((items text).run Line.bare xs).starts.card =
          ((items text).run Line.bare values).starts.card ∧
        ((items text).run Line.bare xs).covered.card =
          ((items text).run Line.bare values).covered.card := by
    have hmem (v : Secret) : v ∈ xs ↔ v ∈ values := by
      rw [← List.mem_toFinset, hxs, List.mem_toFinset]
    have hperm : (xs ++ values.diff xs).Perm values :=
      List.subperm_append_diff_self_of_count_le fun v hv =>
        (List.nodup_iff_count_le_one.mp hnodup v).trans
          (List.one_le_count_iff.mpr ((hmem v).mp hv))
    have hsame := card_eq_of_replaceValues_eq (horder _ hperm)
    rwa [Items.run_append_of_subset fun v hv =>
      (hmem v).mpr ((List.diff_subset values xs) hv)] at hsame
  constructor
  · intro xs hnodup hxs v hv p hp i hle hlt
    -- as much is covered as in the order of the list, and nothing else
    have hsub : ((items text).run Line.bare xs).covered ⊆
        ((items text).run Line.bare values).covered := by
      intro j hj
      obtain ⟨w, hw, hoccurs⟩ := covered_run hj
      rw [← List.mem_toFinset, hxs, List.mem_toFinset] at hw
      exact hwhole j ⟨w, hw, hoccurs⟩
    rw [Finset.eq_of_subset_of_card_le hsub (hrun hnodup hxs).2.ge]
    exact hwhole i ⟨v, List.mem_toFinset.mp hv, p, mem_occ.mp (Items.mem_free.mp hp).1, hle, hlt⟩
  · exact fun xs hnodup hxs => (hrun hnodup hxs).1

/-- Nothing secret comes out, and the output is the same for every order of the values, if and only
if the matches of different values do not overlap and what is secret is in a match. -/
theorem replaceValues_whole_iff (text : List Char) (values : List Secret) :
    ((∀ m ∈ replaceMarked text values, ∀ i ∈ m.origin, ¬IsSecret text values i) ∧
      ∀ values' : List Secret, values'.Perm values →
        replaceValues text (values'.map Secret.value) =
          replaceValues text (values.map Secret.value)) ↔
    MatchesApart text values ∧ MatchesCover text values := by
  have hcover (hapart : (items text).Apart Line.bare values.toFinset) (i : ℕ) :
      i ∈ ((items text).run Line.bare values).covered ↔
        ∃ v ∈ values, ∃ p ∈ matchIndices text v, p ≤ i ∧ i < p + v.value.length := by
    rw [(Items.run_of_apart hapart).1]
    have hbare : i ∉ Line.bare.covered := Finset.notMem_empty i
    simp only [Finset.mem_union, hbare, false_or, Finset.mem_biUnion, List.mem_toFinset, mem_span,
      mem_matchIndices]
    exact Iff.rfl
  rw [leaks_nothing_iff, matchesApart_iff]
  constructor
  · rintro ⟨hwhole, horder⟩
    have hapart := Items.apart_of_sound (sound_of_whole hwhole horder)
    exact ⟨hapart, fun i hi => (hcover hapart i).mp (hwhole i hi)⟩
  · rintro ⟨hapart, hcovers⟩
    refine ⟨fun i hi => (hcover hapart i).mpr (hcovers i hi), fun values' hperm => ?_⟩
    have hset : values'.toFinset = values.toFinset := List.toFinset_eq_of_perm _ _ hperm
    obtain ⟨hcovered, hstarts⟩ := Items.run_of_apart hapart
    have hapart' : (items text).Apart Line.bare values'.toFinset := hset ▸ hapart
    obtain ⟨hcovered', hstarts'⟩ := Items.run_of_apart hapart'
    have hline : (items text).run Line.bare values' = (items text).run Line.bare values := by
      ext1
      · rw [hcovered, hcovered', hset]
      · rw [hstarts, hstarts', hset]
    rw [← map_char_replaceMarked, ← map_char_replaceMarked, replaceMarked_eq, replaceMarked_eq,
      hline]

/-- The value of the characters. -/
def ab : Secret := ⟨"ab".toList, by decide, by decide⟩

/-- A value that starts with `ab`. -/
def abc : Secret := ⟨"abc".toList, by decide, by decide⟩

/-- A value is replaced within a longer one, of which the rest comes out. -/
theorem rest_of_longer_value_leaks :
    ¬∀ (text : List Char) (values : List Secret),
      (∀ m ∈ replaceMarked text values, ∀ i ∈ m.origin, ¬IsSecret text values i) ∧
      ∀ values' : List Secret, values'.Perm values →
        replaceValues text (values'.map Secret.value) =
          replaceValues text (values.map Secret.value) := by
  intro h
  obtain ⟨hwhole, -⟩ := h "abc".toList [ab, abc]
  have hleak : (⟨'c', some 2⟩ : Marked) ∈ replaceMarked "abc".toList [ab, abc] := by decide
  exact hwhole _ hleak 2 rfl ⟨abc, by decide, 0, by decide, by decide, by decide⟩

end Orca.Scrub
