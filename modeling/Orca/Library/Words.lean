import Mathlib.Data.List.Chain
import Mathlib.Data.List.DropRight
import Mathlib.Data.List.Infix

/-!
# Words

The words of a list are the parts between its breaks, without the empty ones.  A break between two
lists separates their words (`words_append_break`), and words that are put together with breaks are
read back (`words_join`).  To trim a list of the breaks at both ends does not change its words.
-/

namespace Words

variable {α : Type*} {p : α → Bool}

/-! ## Parts -/

/-- A part has elements of the list, and no break. -/
lemma mem_of_mem_splitOnP {l part : List α} (h : part ∈ l.splitOnP p) :
    ∀ c ∈ part, c ∈ l ∧ p c = false := by
  induction l generalizing part with
  | nil =>
    rw [List.splitOnP_nil, List.mem_singleton] at h
    subst h
    exact fun c hc => absurd hc List.not_mem_nil
  | cons a l ih =>
    rw [List.splitOnP_cons_eq_if_modifyHead] at h
    split at h
    · rcases List.mem_cons.mp h with rfl | h
      · exact fun c hc => absurd hc List.not_mem_nil
      · exact fun c hc => (ih h c hc).imp_left (List.mem_cons_of_mem a)
    · rename_i ha
      obtain ⟨first, rest, hparts⟩ := List.exists_cons_of_ne_nil (List.splitOnP_ne_nil p l)
      rw [hparts, List.modifyHead_cons] at h
      rw [hparts] at ih
      rcases List.mem_cons.mp h with rfl | h
      · intro c hc
        rcases List.mem_cons.mp hc with rfl | hc
        · exact ⟨List.mem_cons_self, Bool.eq_false_iff.mpr ha⟩
        · exact (ih List.mem_cons_self c hc).imp_left (List.mem_cons_of_mem a)
      · exact fun c hc => (ih (List.mem_cons_of_mem _ h) c hc).imp_left (List.mem_cons_of_mem a)

/-- What is left after the breaks at the start does not start with a break. -/
lemma not_break_of_dropWhile {l r : List α} {a : α} (h : l.dropWhile p = a :: r) :
    p a = false := by
  induction l with
  | nil => exact nomatch h
  | cons b l ih =>
    by_cases hb : p b = true
    · rw [List.dropWhile_cons_of_pos hb] at h
      exact ih h
    · rw [List.dropWhile_cons_of_neg hb] at h
      exact (List.cons.inj h).1 ▸ Bool.eq_false_iff.mpr hb

lemma takeWhile_append_stop {l r : List α} (hl : ∀ a ∈ l, p a = true)
    (hr : ∀ a ∈ r.head?, p a = false) : (l ++ r).takeWhile p = l := by
  rw [List.takeWhile_append_of_pos hl]
  cases r with
  | nil => rw [List.takeWhile_nil, List.append_nil]
  | cons a r =>
    rw [List.takeWhile_cons_of_neg (Bool.not_eq_true _ ▸ hr a rfl), List.append_nil]

lemma dropWhile_append_stop {l r : List α} (hl : ∀ a ∈ l, p a = true)
    (hr : ∀ a ∈ r.head?, p a = false) : (l ++ r).dropWhile p = r := by
  rw [List.dropWhile_append_of_pos hl]
  cases r with
  | nil => rw [List.dropWhile_nil]
  | cons a r => rw [List.dropWhile_cons_of_neg (Bool.not_eq_true _ ▸ hr a rfl)]

/-! ## Words -/

/-- The parts that are not empty. -/
def words (p : α → Bool) (l : List α) : List (List α) := (l.splitOnP p).filter (!·.isEmpty)

/-- It is a word: it is not empty, and there is no break in it. -/
def IsWord (p : α → Bool) (w : List α) : Prop := w ≠ [] ∧ ∀ c ∈ w, p c = false

lemma isWord_of_mem_words {l w : List α} (h : w ∈ words p l) : IsWord p w := by
  obtain ⟨hpart, hne⟩ := List.mem_filter.mp h
  refine ⟨fun hnil => ?_, fun c hc => (mem_of_mem_splitOnP hpart c hc).2⟩
  rw [hnil] at hne
  exact nomatch hne

@[simp] lemma words_nil : words p ([] : List α) = [] := by
  rw [words, List.splitOnP_nil]
  rfl

lemma words_append_break {c : α} (hc : p c = true) (l r : List α) :
    words p (l ++ c :: r) = words p l ++ words p r := by
  rw [words, List.splitOnP_append_cons l r hc, List.filter_append]
  rfl

lemma words_cons_break {c : α} (hc : p c = true) (r : List α) : words p (c :: r) = words p r := by
  have hsplit := words_append_break hc [] r
  rwa [List.nil_append, words_nil, List.nil_append] at hsplit

lemma words_of_isWord {w : List α} (h : IsWord p w) : words p w = [w] := by
  rw [words, List.splitOnP_eq_singleton h.2]
  refine List.filter_cons_of_pos ?_
  rw [Bool.not_eq_true', List.isEmpty_eq_false_iff]
  exact h.1

/-- A word, and the words after a break. -/
lemma words_append_of_isWord {w : List α} (h : IsWord p w) {c : α} (hc : p c = true)
    (r : List α) : words p (w ++ c :: r) = w :: words p r := by
  rw [words_append_break hc, words_of_isWord h, List.singleton_append]

lemma exists_words_cons {a : α} (ha : p a = false) (r : List α) :
    ∃ w ws, words p (a :: r) = (a :: w) :: ws := by
  obtain ⟨first, rest, hparts⟩ := List.exists_cons_of_ne_nil (List.splitOnP_ne_nil p r)
  refine ⟨first, rest.filter (!·.isEmpty), ?_⟩
  rw [words, List.splitOnP_cons_eq_if_modifyHead, if_neg (Bool.eq_false_iff.mp ha), hparts,
    List.modifyHead_cons, List.filter_cons_of_pos (by rfl)]

lemma words_dropWhile (l : List α) : words p (l.dropWhile p) = words p l := by
  induction l with
  | nil => rfl
  | cons c l ih =>
    by_cases hc : p c = true
    · rw [List.dropWhile_cons_of_pos hc, words_cons_break hc, ih]
    · rw [List.dropWhile_cons_of_neg hc]

lemma words_rdropWhile (l : List α) : words p (l.rdropWhile p) = words p l := by
  induction l using List.reverseRecOn with
  | nil => rw [List.rdropWhile_nil]
  | append_singleton l c ih =>
    by_cases hc : p c = true
    · rw [List.rdropWhile_concat_pos p l c hc, ih, words_append_break hc, words_nil,
        List.append_nil]
    · rw [List.rdropWhile_concat_neg p l c hc]

/-- There is no word in a list if and only if it has breaks only. -/
lemma words_eq_nil_iff {l : List α} : words p l = [] ↔ ∀ c ∈ l, p c = true := by
  constructor
  · intro h
    by_contra hnot
    push Not at hnot
    obtain ⟨c, hc, hbreak⟩ := hnot
    -- the list starts with a word after its breaks
    have hne : l.dropWhile p ≠ [] := fun hnil =>
      hbreak (List.dropWhile_eq_nil_iff.mp hnil c hc)
    rw [← words_dropWhile] at h
    obtain ⟨a, r, hstart⟩ := List.exists_cons_of_ne_nil hne
    obtain ⟨w, ws, hwords⟩ := exists_words_cons (not_break_of_dropWhile hstart) r
    rw [hstart, hwords] at h
    exact List.cons_ne_nil _ _ h
  · intro h
    rw [← words_dropWhile, List.dropWhile_eq_nil_iff.mpr h, words_nil]

/-- A list that does not start with a break starts with a word, up to a break or to its end. -/
lemma exists_word_append {l : List α} (hne : l ≠ []) (hstart : l.dropWhile p = l) :
    ∃ w rest, l = w ++ rest ∧ IsWord p w ∧ (rest = [] ∨ ∃ c r, rest = c :: r ∧ p c = true) := by
  refine ⟨l.takeWhile (!p ·), l.dropWhile (!p ·), List.takeWhile_append_dropWhile.symm,
    ⟨?_, fun c hc => ?_⟩, ?_⟩
  · obtain ⟨a, r, rfl⟩ := List.exists_cons_of_ne_nil hne
    have ha : p a = false := not_break_of_dropWhile hstart
    rw [List.takeWhile_cons_of_pos (by rw [ha]; rfl)]
    exact List.cons_ne_nil _ _
  · have hnot := List.mem_takeWhile_imp (p := (!p ·)) hc
    rwa [Bool.not_eq_true'] at hnot
  · cases hrest : l.dropWhile (!p ·) with
    | nil => exact Or.inl rfl
    | cons c r =>
      have hnot := not_break_of_dropWhile hrest
      rw [Bool.not_eq_false'] at hnot
      exact Or.inr ⟨c, r, rfl, hnot⟩

lemma words_append_of_breaks {l r : List α} (h : ∀ c ∈ l, p c = true) :
    words p (l ++ r) = words p r := by
  rw [← words_dropWhile, List.dropWhile_append_of_pos h, words_dropWhile]

/-- A list that is cut off after its first words, at an element that is no break, keeps them. -/
lemma exists_words_takeWhile {q : α → Bool} (hbreak : ∀ c, p c = true → q c = true) {l : List α}
    {fields rest : List (List α)} (h : words p l = fields ++ rest)
    (hfields : ∀ f ∈ fields, ∀ c ∈ f, q c = true) :
    ∃ rest', words p (l.takeWhile q) = fields ++ rest' := by
  induction fields generalizing l with
  | nil => exact ⟨_, (List.nil_append _).symm⟩
  | cons f fields ih =>
    obtain ⟨hf, htail⟩ := List.forall_mem_cons.mp hfields
    have hkept : words p (l.takeWhile q) = words p ((l.dropWhile p).takeWhile q) := by
      have hbreaks : ∀ c ∈ l.takeWhile p, q c = true := fun c hc =>
        hbreak c (List.mem_takeWhile_imp hc)
      conv_lhs => rw [← List.takeWhile_append_dropWhile (p := p) (l := l)]
      rw [List.takeWhile_append_of_pos hbreaks,
        words_append_of_breaks fun c hc => List.mem_takeWhile_imp hc]
    rw [← words_dropWhile] at h
    have hne : l.dropWhile p ≠ [] := by
      intro hnil
      rw [hnil, words_nil] at h
      exact List.cons_ne_nil _ _ h.symm
    obtain ⟨w, tail, hl, hw, hcases⟩ := exists_word_append hne (List.dropWhile_idempotent p l)
    rw [hkept, hl]
    rw [hl] at h
    rcases hcases with rfl | ⟨c, r, rfl, hc⟩
    · rw [List.append_nil] at h ⊢
      rw [words_of_isWord hw] at h
      obtain ⟨rfl, hnil⟩ := List.cons.inj h
      obtain ⟨rfl, rfl⟩ := List.append_eq_nil_iff.mp hnil.symm
      rw [List.takeWhile_eq_self_iff.mpr hf, words_of_isWord hw]
      exact ⟨[], rfl⟩
    · rw [words_append_of_isWord hw hc] at h
      obtain ⟨rfl, hrest⟩ := List.cons.inj h
      obtain ⟨rest', hrest'⟩ := ih hrest htail
      refine ⟨rest', ?_⟩
      rw [List.takeWhile_append_of_pos hf, List.takeWhile_cons_of_pos (hbreak c hc),
        words_append_of_isWord hw hc, hrest', List.cons_append]

/-- Words with a break between each two are read back. -/
theorem words_join {c : α} (hc : p c = true) {ws : List (List α)}
    (hwords : ∀ w ∈ ws, IsWord p w) : words p ([c].intercalate ws) = ws := by
  induction ws with
  | nil => exact words_nil
  | cons w ws ih =>
    obtain ⟨hw, hrest⟩ := List.forall_mem_cons.mp hwords
    cases ws with
    | nil => rw [List.intercalate_singleton, words_of_isWord hw]
    | cons v ws =>
      rw [List.intercalate_cons_cons, List.append_assoc, List.singleton_append,
        words_append_of_isWord hw hc, ih hrest]

/-! ## Induction on words -/

/-- Induction on a list, break by break and word by word. -/
theorem wordInduction {motive : List α → Prop} (nil : motive [])
    (brk : ∀ c r, p c = true → motive r → motive (c :: r))
    (word : ∀ w, IsWord p w → motive w)
    (step : ∀ w c r, IsWord p w → p c = true → motive r → motive (w ++ c :: r)) (l : List α) :
    motive l := by
  induction hlength : l.length using Nat.strong_induction_on generalizing l with
  | _ n ih =>
    cases l with
    | nil => exact nil
    | cons a rest =>
      by_cases ha : p a = true
      · refine brk a rest ha (ih rest.length ?_ rest rfl)
        rw [List.length_cons] at hlength
        omega
      · have hstart : (a :: rest).dropWhile p = a :: rest := List.dropWhile_cons_of_neg ha
        obtain ⟨w, rest', hl, hw, hcases⟩ := exists_word_append (List.cons_ne_nil _ _) hstart
        rw [hl]
        rcases hcases with rfl | ⟨c, r, rfl, hc⟩
        · rw [List.append_nil]
          exact word w hw
        · refine step w c r hw hc (ih r.length ?_ r rfl)
          rw [hl, List.length_append, List.length_cons] at hlength
          omega

/-- A map that keeps breaks and words apart, and the words as they are, changes no word. -/
lemma words_map {q : α → Bool} {f : α → α} (hbreak : ∀ a, p a = true → q (f a) = true)
    (hword : ∀ a, p a = false → f a = a ∧ q a = false) (l : List α) :
    words q (l.map f) = words p l := by
  have hkept : ∀ w, IsWord p w → w.map f = w ∧ IsWord q w := by
    intro w hw
    refine ⟨?_, hw.1, fun c hc => (hword c (hw.2 c hc)).2⟩
    rw [List.map_congr_left fun c hc => (hword c (hw.2 c hc)).1, List.map_id']
  induction l using wordInduction (p := p) with
  | nil => rw [List.map_nil, words_nil, words_nil]
  | brk c r hc ih => rw [List.map_cons, words_cons_break (hbreak c hc), words_cons_break hc, ih]
  | word w hw =>
    obtain ⟨hmap, hw'⟩ := hkept w hw
    rw [hmap, words_of_isWord hw', words_of_isWord hw]
  | step w c r hw hc ih =>
    obtain ⟨hmap, hw'⟩ := hkept w hw
    rw [List.map_append, List.map_cons, hmap, words_append_of_isWord hw' (hbreak c hc),
      words_append_of_isWord hw hc, ih]

/-- A list without breaks at its ends and without two breaks in a row is its words, put together
with breaks. -/
theorem join_words {c : α} (hc : ∀ a, p a = true → a = c) {l : List α}
    (hstart : l.dropWhile p = l) (hend : l.rdropWhile p = l)
    (hchain : l.IsChain fun a b => p a = true → p b = false) :
    [c].intercalate (words p l) = l := by
  induction l using wordInduction (p := p) with
  | nil => rw [words_nil, List.intercalate_nil]
  | brk b r hb _ =>
    rw [List.dropWhile_cons_of_pos hb] at hstart
    have hlength := List.length_dropWhile_le p r
    rw [hstart, List.length_cons] at hlength
    omega
  | word w hw => rw [words_of_isWord hw, List.intercalate_singleton]
  | step w b r hw hb ih =>
    obtain rfl := hc b hb
    rw [words_append_of_isWord hw hb]
    cases r with
    | nil =>
      rw [List.rdropWhile_concat_pos p w b hb] at hend
      have hlength := (List.rdropWhile_prefix p w).length_le
      rw [hend, List.length_append, List.length_singleton] at hlength
      omega
    | cons a r =>
      obtain ⟨-, htail⟩ := List.isChain_append_cons_cons.mp hchain
      obtain ⟨hba, htail⟩ := htail
      have ha := Bool.eq_false_iff.mp (hba hb)
      have hjoin := ih (List.dropWhile_cons_of_neg ha) ?_ htail
      · obtain ⟨w', ws, hwords⟩ := exists_words_cons (hba hb) r
        rw [hwords] at hjoin ⊢
        rw [List.intercalate_cons_cons, hjoin, List.append_assoc, List.singleton_append]
      · rw [List.rdropWhile_eq_self_iff] at hend ⊢
        intro hne
        have hlast := hend (by simp)
        rwa [List.getLast_append_of_ne_nil _ (List.cons_ne_nil _ _), List.getLast_cons hne] at hlast

/-! ## Trimming -/

/-- A list without the breaks at both ends. -/
def trim (p : α → Bool) (l : List α) : List α := (l.dropWhile p).rdropWhile p

/-- To trim does not change the words. -/
@[simp] lemma words_trim (l : List α) : words p (trim p l) = words p l := by
  rw [trim, words_rdropWhile, words_dropWhile]

/-- The breaks at the start make no difference. -/
@[simp] lemma trim_dropWhile (l : List α) : trim p (l.dropWhile p) = trim p l := by
  rw [trim, List.dropWhile_idempotent, ← trim]

lemma trim_cons {c : α} (hc : p c = true) (l : List α) : trim p (c :: l) = trim p l := by
  rw [trim, List.dropWhile_cons_of_pos hc, ← trim]

/-- A trimmed list has no breaks at the start. -/
@[simp] lemma dropWhile_trim (l : List α) : (trim p l).dropWhile p = trim p l := by
  have hbegins : trim p l <+: l.dropWhile p := List.rdropWhile_prefix p _
  cases htrim : trim p l with
  | nil => rfl
  | cons a r =>
    rw [htrim] at hbegins
    obtain ⟨r', hr'⟩ := hbegins
    have ha : p a = false := not_break_of_dropWhile hr'.symm
    rw [List.dropWhile_cons_of_neg (Bool.eq_false_iff.mp ha)]

/-- A trimmed list starts with the first element that is not a break. -/
lemma exists_trim_cons {l r : List α} {a : α} (h : l.dropWhile p = a :: r) :
    ∃ r', trim p l = a :: r' := by
  have hbegins : trim p l <+: a :: r := h ▸ List.rdropWhile_prefix p _
  cases htrim : trim p l with
  | nil =>
    rw [trim, h, List.rdropWhile_eq_nil_iff] at htrim
    have ha := htrim a List.mem_cons_self
    rw [not_break_of_dropWhile h] at ha
    exact nomatch ha
  | cons b r' =>
    rw [htrim] at hbegins
    obtain ⟨t, ht⟩ := hbegins
    exact ⟨r', by rw [(List.cons.inj ht).1]⟩

/-- A trimmed list starts as the first word does. -/
lemma head?_trim (l : List α) : (trim p l).head? = (words p l).head?.bind List.head? := by
  rw [← words_dropWhile]
  cases h : l.dropWhile p with
  | nil =>
    rw [trim, h, List.rdropWhile_nil, words_nil]
    rfl
  | cons a r =>
    obtain ⟨r', htrim⟩ := exists_trim_cons h
    obtain ⟨w, ws, hwords⟩ := exists_words_cons (not_break_of_dropWhile h) r
    rw [htrim, hwords]
    rfl

/-- A trimmed list is its own trimmed form. -/
@[simp] lemma trim_trim (l : List α) : trim p (trim p l) = trim p l := by
  rw [trim, dropWhile_trim, trim, List.rdropWhile_idempotent]

lemma trim_eq_nil_iff {l : List α} : trim p l = [] ↔ words p l = [] := by
  constructor
  · intro h
    rw [← words_trim, h, words_nil]
  · intro h
    rw [trim, List.dropWhile_eq_nil_iff.mpr (words_eq_nil_iff.mp h), List.rdropWhile_nil]

/-- Trimmed lists with a break between them are trimmed, if neither is empty. -/
lemma trim_append_break {c : α} {l r : List α} (hl : trim p l ≠ []) (hr : trim p r ≠ []) :
    trim p (trim p l ++ c :: trim p r) = trim p l ++ c :: trim p r := by
  have hstart : (trim p l ++ c :: trim p r).dropWhile p = trim p l ++ c :: trim p r := by
    obtain ⟨a, t, ht⟩ := List.exists_cons_of_ne_nil hl
    have ha : p a = false := not_break_of_dropWhile ((dropWhile_trim l).trans ht)
    rw [ht, List.cons_append, List.dropWhile_cons_of_neg (Bool.eq_false_iff.mp ha)]
  rw [trim, hstart, List.rdropWhile_eq_self_iff]
  intro hne
  -- the last element is that of the second list
  have hlast : (trim p l ++ c :: trim p r).getLast hne = (trim p r).getLast hr := by
    rw [List.getLast_append_of_ne_nil hne (List.cons_ne_nil _ _), List.getLast_cons hr]
  rw [hlast]
  exact List.rdropWhile_last_not p _ hr

end Words
