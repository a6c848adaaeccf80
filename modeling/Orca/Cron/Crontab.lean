import Orca.Data.Text
import Orca.Library.Words

/-!
# Crontabs

A crontab is a text, and its entries are found by a look at each of its lines: a line is a job if it
has five time fields or a keyword and then a command, and it is a disabled job if that follows a
`#`. Comments, assignments and blank lines are no entries.

A line is the list of its characters here.  What a line is depends on its trimmed form only
(`parseJob_congr`); the schedule of a job has the fields that were split off (`exists_jobParts`);
and a job is never taken for an assignment (`isEnvLine_eq_false`), so that a line that is a job
becomes a disabled job with a `#` before it (`parseLine_comment`), and the other way round
(`parseLine_uncomment`).
-/

namespace Orca.Cron

open Words

/-! ## Lines -/

/-- A line of a crontab, or a part of one. -/
abbrev Line := List Char

/-- The lines of a crontab. -/
def crontabLines (text : String) : List Line := (lines text).map String.toList

/-- `str::trim_start`. -/
def trimStart (l : Line) : Line := l.dropWhile isWhitespace

/-- `str::trim_end`. -/
def trimEnd (l : Line) : Line := l.rdropWhile isWhitespace

/-- `str::trim`. -/
def trimLine (l : Line) : Line := Words.trim isWhitespace l

/-! ## Jobs -/

/-- `SCHEDULE_KEYWORDS`. -/
def scheduleKeywords : List String :=
  ["@reboot", "@yearly", "@annually", "@monthly", "@weekly", "@daily", "@midnight", "@hourly"]

/-- Fields are split off, one after the other, of a line without white space at its start. -/
def splitOff : Nat → Line → Option (List Line × Line)
  | 0, rest => some ([], rest)
  | n + 1, rest =>
    match rest.dropWhile (!isWhitespace ·) with
    | [] => none
    | c :: tail =>
      (splitOff n (trimStart (c :: tail))).map fun (fields, left) =>
        (rest.takeWhile (!isWhitespace ·) :: fields, left)

/-- `split_fields`. -/
def splitFields (s : Line) (n : Nat) : Option (List Line × Line) := splitOff n (trimStart s)

/-- `is_time_field`. -/
def isTimeField (f : Line) (numericLead : Bool) : Bool :=
  (!numericLead || f.head?.any fun c => c.isDigit || c == '*') &&
    f.all fun c => c.isAlphanum || c == '*' || c == ',' || c == '/' || c == '-'

/-- Each field is a time field, and the first three start with a digit or a star. -/
def areTimeFields (fields : List Line) : Bool :=
  fields.zipIdx.all fun (f, i) => isTimeField f (i < 3)

/-- `parse_job`: the schedule and the command. -/
def parseJob (body : Line) : Option (Line × Line) :=
  let body := trimLine body
  if body.head? = some '@' then
    match splitFields body 1 with
    | none => none
    | some (fields, cmd) =>
      let kw := fields.headD []
      if String.ofList kw ∉ scheduleKeywords ∨ trimLine cmd = [] then none
      else some (kw, trimEnd cmd)
  else
    match splitFields body 5 with
    | none => none
    | some (fields, cmd) =>
      if areTimeFields fields = false ∨ trimLine cmd = [] then none
      else some ([' '].intercalate fields, trimEnd cmd)

/-- `is_env_line`. -/
def isEnvLine (line : Line) : Bool :=
  let key := trimLine (line.takeWhile (· ≠ '='))
  '=' ∈ line && key ≠ [] && key.all fun c => c.isAlphanum || c == '_'

/-! ## Entries -/

/-- `CronEntry`. -/
structure CronEntry where
  /-- The number of the line, from one. -/
  lineNo : Nat
  /-- Five time fields or a keyword, with single spaces in between. -/
  schedule : Line
  command : Line
  /-- The line is not commented out. -/
  enabled : Bool
  raw : Line
deriving DecidableEq

/-- What a line says: its schedule, its command, and that it is not commented out. -/
def parseLine (raw : Line) : Option (Line × Line × Bool) :=
  let trimmed := trimStart raw
  let (body, enabled) :=
    match trimmed with
    | '#' :: rest => (rest, false)
    | _ => (trimmed, true)
  if trimLine body = [] ∨ (enabled = true ∧ isEnvLine body = true) then none
  else (parseJob body).map fun (schedule, command) => (schedule, command, enabled)

/-- The entry of a line with its number, if it has one. -/
def entryAt (numbered : Line × Nat) : Option CronEntry :=
  (parseLine numbered.1).map fun (schedule, command, enabled) =>
    ⟨numbered.2, schedule, command, enabled, numbered.1⟩

/-- The entries of some lines, of which the first has the given number. -/
def entriesFrom (n : Nat) (ls : List Line) : List CronEntry := (ls.zipIdx n).filterMap entryAt

/-- `parse_entries`. -/
def parseEntries (text : String) : List CronEntry := entriesFrom 1 (crontabLines text)

/-! ## Splitting off fields -/

/-- A word before white space is split off. -/
lemma splitOff_append_cons {n : Nat} {w r : Line} {c : Char} (hw : IsWord isWhitespace w)
    (hc : isWhitespace c = true) :
    splitOff (n + 1) (w ++ c :: r) =
      (splitOff n (trimStart r)).map fun (fields, left) => (w :: fields, left) := by
  have hword : ∀ x ∈ w, (!isWhitespace x) = true := fun x hx => by rw [hw.2 x hx]; rfl
  have hstop : ¬(!isWhitespace c) = true := by rw [hc]; decide
  have htail : (w ++ c :: r).dropWhile (!isWhitespace ·) = c :: r := by
    rw [List.dropWhile_append_of_pos hword,
      List.dropWhile_cons_of_neg (p := (!isWhitespace ·)) hstop]
  have hfield : (w ++ c :: r).takeWhile (!isWhitespace ·) = w := by
    rw [List.takeWhile_append_of_pos hword,
      List.takeWhile_cons_of_neg (p := (!isWhitespace ·)) hstop, List.append_nil]
  rw [splitOff, htail, hfield]
  dsimp only
  rw [trimStart, List.dropWhile_cons_of_pos hc, ← trimStart]

lemma splitOff_word {n : Nat} {w : Line} (hw : ∀ x ∈ w, isWhitespace x = false) :
    splitOff (n + 1) w = none := by
  have hnil : w.dropWhile (!isWhitespace ·) = [] :=
    List.dropWhile_eq_nil_iff.mpr fun x hx => by rw [hw x hx]; rfl
  rw [splitOff, hnil]

/-- Where a field is split off, the line starts with it. -/
lemma exists_of_splitOff_succ {n : Nat} {rest left : Line} {fields : List Line}
    (h : splitOff (n + 1) rest = some (fields, left)) (hstart : trimStart rest = rest) :
    ∃ w c r fields', rest = w ++ c :: r ∧ IsWord isWhitespace w ∧ isWhitespace c = true ∧
      splitOff n (trimStart r) = some (fields', left) ∧ fields = w :: fields' := by
  by_cases hnil : rest = []
  · rw [hnil, splitOff_word fun _ hx => absurd hx List.not_mem_nil] at h
    exact nomatch h
  · obtain ⟨w, tail, rfl, hw, rfl | ⟨c, r, rfl, hc⟩⟩ := exists_word_append hnil hstart
    · rw [List.append_nil, splitOff_word hw.2] at h
      exact nomatch h
    · rw [splitOff_append_cons hw hc] at h
      obtain ⟨⟨fields', left'⟩, hsplit, heq⟩ := Option.map_eq_some_iff.mp h
      obtain ⟨rfl, rfl⟩ := Prod.mk.inj heq
      exact ⟨w, c, r, fields', rfl, hw, hc, hsplit, rfl⟩

/-- The fields that are split off are the first words. -/
lemma splitOff_spec {n : Nat} {rest left : Line} {fields : List Line}
    (h : splitOff n rest = some (fields, left)) (hstart : trimStart rest = rest) :
    fields.length = n ∧ (∀ f ∈ fields, IsWord isWhitespace f) ∧
      words isWhitespace rest = fields ++ words isWhitespace left := by
  induction n generalizing rest fields with
  | zero =>
    obtain ⟨rfl, rfl⟩ := Prod.mk.inj (Option.some.inj h)
    exact ⟨rfl, fun _ hf => absurd hf List.not_mem_nil, rfl⟩
  | succ n ih =>
    obtain ⟨w, c, r, fields', rfl, hw, hc, hsplit, rfl⟩ := exists_of_splitOff_succ h hstart
    obtain ⟨hlength, hwords, hrest⟩ := ih hsplit (List.dropWhile_idempotent _ _)
    refine ⟨congrArg Nat.succ hlength, List.forall_mem_cons.mpr ⟨hw, hwords⟩, ?_⟩
    rw [words_append_of_isWord hw hc, List.cons_append, ← hrest, trimStart, words_dropWhile]

/-- As many fields are split off as there are words before white space. -/
lemma splitOff_append {n : Nat} {a b : Line} {c : Char} (hc : isWhitespace c = true)
    (hstart : trimStart a = a) (hwords : (words isWhitespace a).length = n + 1) :
    splitOff (n + 1) (a ++ c :: b) = some (words isWhitespace a, trimStart b) := by
  induction n generalizing a with
  | zero =>
    have hne : a ≠ [] := by
      rintro rfl
      exact nomatch hwords
    obtain ⟨w, tail, rfl, hw, rfl | ⟨v, r, rfl, hv⟩⟩ := exists_word_append hne hstart
    · rw [List.append_nil, splitOff_append_cons hw hc, words_of_isWord hw]
      rfl
    · -- only white space follows the one word
      rw [words_append_of_isWord hw hv] at hwords ⊢
      have hblank := List.eq_nil_of_length_eq_zero (Nat.succ.inj hwords)
      have hskip : trimStart (r ++ c :: b) = trimStart b := by
        rw [trimStart, List.dropWhile_append_of_pos (words_eq_nil_iff.mp hblank),
          List.dropWhile_cons_of_pos hc, trimStart]
      rw [List.append_assoc, List.cons_append, splitOff_append_cons hw hv, hskip, hblank]
      rfl
  | succ n ih =>
    have hne : a ≠ [] := by
      rintro rfl
      exact nomatch hwords
    obtain ⟨w, tail, rfl, hw, rfl | ⟨v, r, rfl, hv⟩⟩ := exists_word_append hne hstart
    · rw [List.append_nil, words_of_isWord hw] at hwords
      exact nomatch hwords
    · rw [words_append_of_isWord hw hv] at hwords ⊢
      have hrest : (words isWhitespace (trimStart r)).length = n + 1 := by
        rw [trimStart, words_dropWhile]
        exact Nat.succ.inj hwords
      have hskip : trimStart (r ++ c :: b) = trimStart r ++ c :: b := by
        have hsome : ¬(r.dropWhile isWhitespace).isEmpty = true := by
          intro hempty
          rw [trimStart, List.isEmpty_iff.mp hempty] at hrest
          exact nomatch hrest
        rw [trimStart, List.dropWhile_append, if_neg hsome, trimStart]
      have hnext := ih (a := trimStart r) (List.dropWhile_idempotent _ _) hrest
      rw [List.append_assoc, List.cons_append, splitOff_append_cons hw hv, hskip, hnext, trimStart,
        words_dropWhile]
      rfl

/-! ## The parts of a job -/

lemma isWhitespace_of_nameChar {c : Char} (h : (c.isAlphanum || c == '_') = true) :
    isWhitespace c = false := by
  rw [Bool.or_eq_true, beq_iff_eq] at h
  rcases h with h | rfl
  · exact isWhitespace_of_isAlphanum h
  · decide

lemma parseJob_congr {a b : Line} (h : trimLine a = trimLine b) : parseJob a = parseJob b := by
  rw [parseJob, h, ← parseJob]

/-- A schedule has one field if it starts with `@`, and otherwise five. -/
def HasFieldCount (fields : List Line) : Prop :=
  fields.length = if fields.head?.bind List.head? = some '@' then 1 else 5

instance (fields : List Line) : Decidable (HasFieldCount fields) :=
  inferInstanceAs (Decidable (_ = _))

/-- The fields of a job, and what is left after them. -/
structure JobParts (body schedule command : Line) (fields : List Line) (left : Line) : Prop where
  split : splitFields (trimLine body) fields.length = some (fields, left)
  /-- They are as many as a schedule has. -/
  count : HasFieldCount fields
  areWords : ∀ f ∈ fields, IsWord isWhitespace f
  words_eq : words isWhitespace body = fields ++ words isWhitespace left
  some_left : trimLine left ≠ []
  schedule_eq : schedule = [' '].intercalate fields
  /-- What is left makes the command. -/
  command_eq : command = trimEnd left
  /-- A field that starts with `@` is a keyword. -/
  isKeyword : fields.head?.bind List.head? = some '@' →
    String.ofList (fields.headD []) ∈ scheduleKeywords
  areTimes : fields.head?.bind List.head? ≠ some '@' → areTimeFields fields = true

/-- Where fields are split off a trimmed line, it starts as the first of them does. -/
lemma head?_of_splitFields {n : Nat} {body left : Line} {fields : List Line}
    (h : splitFields (trimLine body) (n + 1) = some (fields, left)) :
    (trimLine body).head? = fields.head?.bind List.head? := by
  obtain ⟨hlength, -, hwords⟩ := splitOff_spec h (List.dropWhile_idempotent _ _)
  obtain ⟨f, fs, rfl⟩ := List.exists_cons_of_length_eq_add_one hlength
  rw [trimLine, head?_trim, ← words_trim, ← trimLine, ← words_dropWhile, ← trimStart, hwords]
  rfl

/-- A job has its parts. -/
lemma exists_jobParts {body schedule command : Line}
    (h : parseJob body = some (schedule, command)) :
    ∃ fields left, JobParts body schedule command fields left := by
  have hbody {n : Nat} {fields : List Line} {left : Line}
      (hsplit : splitFields (trimLine body) n = some (fields, left)) :
      fields.length = n ∧ (∀ f ∈ fields, IsWord isWhitespace f) ∧
        words isWhitespace body = fields ++ words isWhitespace left := by
    obtain ⟨hlength, hareWords, hwords⟩ := splitOff_spec hsplit (List.dropWhile_idempotent _ _)
    refine ⟨hlength, hareWords, ?_⟩
    rw [← hwords, trimStart, words_dropWhile, trimLine, words_trim]
  unfold parseJob at h
  dsimp only at h
  split at h
  · rename_i hat
    split at h
    · exact nomatch h
    · rename_i fields left hsplit
      split at h
      · exact nomatch h
      · rename_i hok
        obtain ⟨hkeyword, hleft⟩ := not_or.mp hok
        obtain ⟨hschedule, hcommand⟩ := Prod.mk.inj (Option.some.inj h)
        obtain ⟨hlength, hareWords, hwords⟩ := hbody hsplit
        have hstart := (head?_of_splitFields hsplit).symm.trans hat
        obtain ⟨f, rfl⟩ := List.length_eq_one_iff.mp hlength
        refine ⟨[f], left, hsplit, ?_, hareWords, hwords, hleft, ?_, hcommand.symm,
          fun _ => not_not.mp hkeyword, fun hnot => absurd hstart hnot⟩
        · rw [HasFieldCount, if_pos hstart]
          rfl
        · rw [List.intercalate_singleton, ← hschedule]
          rfl
  · rename_i hat
    split at h
    · exact nomatch h
    · rename_i fields left hsplit
      split at h
      · exact nomatch h
      · rename_i hok
        obtain ⟨htimes, hleft⟩ := not_or.mp hok
        obtain ⟨hschedule, hcommand⟩ := Prod.mk.inj (Option.some.inj h)
        obtain ⟨hlength, hareWords, hwords⟩ := hbody hsplit
        have hstart : ¬fields.head?.bind List.head? = some '@' := by
          rwa [← head?_of_splitFields hsplit]
        refine ⟨fields, left, hlength ▸ hsplit, ?_, hareWords, hwords, hleft, hschedule.symm,
          hcommand.symm, fun hat => absurd hat hstart, fun _ => Bool.eq_true_of_not_eq_false htimes⟩
        rw [HasFieldCount, if_neg hstart, hlength]

section Parts

variable {body schedule command left : Line} {fields : List Line}

lemma JobParts.exists_cons (h : JobParts body schedule command fields left) :
    ∃ f fs, fields = f :: fs := by
  refine List.exists_cons_of_ne_nil fun hnil => ?_
  have hcount := h.count
  rw [hnil] at hcount
  exact nomatch hcount

lemma JobParts.words_schedule (h : JobParts body schedule command fields left) :
    words isWhitespace schedule = fields := by
  rw [h.schedule_eq]
  exact words_join (by decide) h.areWords

lemma hasFieldCount_of_parseJob (h : parseJob body = some (schedule, command)) :
    HasFieldCount (words isWhitespace schedule) := by
  obtain ⟨fields, left, hparts⟩ := exists_jobParts h
  rw [hparts.words_schedule]
  exact hparts.count

lemma JobParts.head?_eq (h : JobParts body schedule command fields left) :
    (trimLine body).head? = fields.head?.bind List.head? := by
  obtain ⟨f, fs, rfl⟩ := h.exists_cons
  exact head?_of_splitFields h.split

/-- A job does not start with a `#`. -/
lemma head?_ne_hash (h : parseJob body = some (schedule, command)) :
    (trimLine body).head? ≠ some '#' := by
  obtain ⟨fields, left, hparts⟩ := exists_jobParts h
  intro hhash
  rw [hparts.head?_eq] at hhash
  obtain ⟨f, fs, rfl⟩ := hparts.exists_cons
  have htimes := hparts.areTimes (by rw [hhash]; decide)
  -- the first field starts with a digit or a star
  have hfirst : isTimeField f true = true := by
    unfold areTimeFields at htimes
    rw [List.zipIdx_cons, List.all_cons, Bool.and_eq_true] at htimes
    exact htimes.1
  have hhead : f.head? = some '#' := hhash
  unfold isTimeField at hfirst
  rw [hhead] at hfirst
  exact absurd (Bool.and_eq_true_iff.mp hfirst).1 (by decide)

/-- There is no `=` in the fields of a job. -/
lemma JobParts.forall_ne (h : JobParts body schedule command fields left) :
    ∀ f ∈ fields, ∀ c ∈ f, decide (c ≠ '=') = true := by
  intro f hf c hc
  refine decide_eq_true ?_
  rintro rfl
  by_cases hat : fields.head?.bind List.head? = some '@'
  · have hcount := h.count
    rw [HasFieldCount, if_pos hat] at hcount
    obtain ⟨kw, rfl⟩ := List.length_eq_one_iff.mp hcount
    obtain rfl := List.mem_singleton.mp hf
    have hnone : ∀ k ∈ scheduleKeywords, '=' ∉ k.toList := by decide
    exact hnone _ (h.isKeyword hat) (by rwa [List.headD_cons, String.toList_ofList])
  · obtain ⟨i, hi, rfl⟩ := List.mem_iff_getElem.mp hf
    have htime := List.all_eq_true.mp (h.areTimes hat) (fields[i], i)
      (List.mk_mem_zipIdx_iff_getElem?.mpr (List.getElem?_eq_getElem hi))
    exact absurd (List.all_eq_true.mp (Bool.and_eq_true_iff.mp htime).2 '=' hc) (by decide)

/-- A job is no assignment: what is before a `=` in it has white space or starts with `@`. -/
lemma isEnvLine_eq_false (h : parseJob body = some (schedule, command)) :
    isEnvLine body = false := by
  obtain ⟨fields, left, hparts⟩ := exists_jobParts h
  by_contra henv
  rw [Bool.not_eq_false, isEnvLine, Bool.and_eq_true, Bool.and_eq_true] at henv
  obtain ⟨⟨-, hne⟩, hname⟩ := henv
  have hchars := List.all_eq_true.mp hname
  have hword : IsWord isWhitespace (trimLine (body.takeWhile (· ≠ '='))) :=
    ⟨of_decide_eq_true hne, fun c hc => isWhitespace_of_nameChar (hchars c hc)⟩
  have hbreak : ∀ c, isWhitespace c = true → decide (c ≠ '=') = true := by
    intro c hc
    refine decide_eq_true ?_
    rintro rfl
    exact absurd hc (by decide)
  -- what is before the `=` has the fields of the job, and it is one word
  obtain ⟨rest, hrest⟩ := exists_words_takeWhile hbreak hparts.words_eq hparts.forall_ne
  have hone := words_of_isWord hword
  rw [trimLine, words_trim, hrest] at hone
  obtain ⟨f, fs, rfl⟩ := hparts.exists_cons
  obtain ⟨hf, htail⟩ := List.cons.inj hone
  obtain ⟨rfl, -⟩ := List.append_eq_nil_iff.mp htail
  have hcount := hparts.count
  unfold HasFieldCount at hcount
  split at hcount
  · rename_i hat
    have hmem : '@' ∈ f := List.mem_of_mem_head? hat
    rw [hf] at hmem
    exact absurd (hchars '@' hmem) (by decide)
  · exact nomatch hcount

lemma trimLine_ne_nil (h : parseJob body = some (schedule, command)) : trimLine body ≠ [] := by
  obtain ⟨fields, left, hparts⟩ := exists_jobParts h
  obtain ⟨f, fs, rfl⟩ := hparts.exists_cons
  intro hnil
  have hwords := hparts.words_eq
  rw [trim_eq_nil_iff.mp hnil] at hwords
  exact nomatch hwords

end Parts

/-! ## What a line says -/

/-- A line after its `#` says what it is. -/
lemma parseLine_of_hash {raw rest : Line} (h : trimStart raw = '#' :: rest) :
    parseLine raw = (parseJob rest).map fun (s, c) => (s, c, false) := by
  cases hjob : parseJob rest with
  | none => simp [parseLine, h, hjob]
  | some job => simp [parseLine, h, hjob, trimLine_ne_nil hjob]

/-- A line without a `#` says what it is. -/
lemma parseLine_of_not_hash {raw : Line} (h : (trimStart raw).head? ≠ some '#') :
    parseLine raw = (parseJob raw).map fun (s, c) => (s, c, true) := by
  have hcongr : parseJob raw = parseJob (trimStart raw) :=
    parseJob_congr (trim_dropWhile raw).symm
  rw [hcongr]
  unfold parseLine
  dsimp only
  split
  · rename_i rest hrest
    exact absurd (congrArg List.head? hrest) h
  · cases hjob : parseJob (trimStart raw) with
    | none => simp
    | some job => simp [trimLine_ne_nil hjob, isEnvLine_eq_false hjob]

/-- A trimmed line with a `#` at its start is a line with a `#` at the start. -/
lemma head?_trimLine_of_hash {l rest : Line} (h : trimStart l = '#' :: rest) :
    (trimLine l).head? = some '#' := by
  obtain ⟨rest', htrim⟩ := exists_trim_cons h
  rw [trimLine, htrim]
  rfl

lemma map_flag_eq_some {job : Option (Line × Line)} {s c : Line} {b b' : Bool} :
    (job.map fun (s, c) => (s, c, b)) = some (s, c, b') ↔ job = some (s, c) ∧ b = b' := by
  rcases job with _ | ⟨s', c'⟩
  · simp
  · simp [and_assoc]

/-- A line is an enabled job if it is a job. -/
lemma parseLine_eq_true_iff {raw s c : Line} :
    parseLine raw = some (s, c, true) ↔ parseJob raw = some (s, c) := by
  constructor
  · intro h
    by_cases hhash : (trimStart raw).head? = some '#'
    · obtain ⟨rest, hrest⟩ := List.head?_eq_some_iff.mp hhash
      rw [parseLine_of_hash hrest, map_flag_eq_some] at h
      exact nomatch h.2
    · rw [parseLine_of_not_hash hhash, map_flag_eq_some] at h
      exact h.1
  · intro h
    have hhash : (trimStart raw).head? ≠ some '#' := by
      intro hhash
      obtain ⟨rest, hrest⟩ := List.head?_eq_some_iff.mp hhash
      exact head?_ne_hash h (head?_trimLine_of_hash hrest)
    rw [parseLine_of_not_hash hhash, map_flag_eq_some]
    exact ⟨h, rfl⟩

/-- A line is a disabled job if a job follows its `#`. -/
lemma parseLine_eq_false_iff {raw s c : Line} :
    parseLine raw = some (s, c, false) ↔
      ∃ rest, trimStart raw = '#' :: rest ∧ parseJob rest = some (s, c) := by
  constructor
  · intro h
    by_cases hhash : (trimStart raw).head? = some '#'
    · obtain ⟨rest, hrest⟩ := List.head?_eq_some_iff.mp hhash
      rw [parseLine_of_hash hrest, map_flag_eq_some] at h
      exact ⟨rest, hrest, h.1⟩
    · rw [parseLine_of_not_hash hhash, map_flag_eq_some] at h
      exact nomatch h.2
  · rintro ⟨rest, hrest, hjob⟩
    rw [parseLine_of_hash hrest, map_flag_eq_some]
    exact ⟨hjob, rfl⟩

/-- A line becomes a disabled job with a `#` at its start if it is a job. -/
lemma parseLine_comment (raw : Line) :
    parseLine ('#' :: raw) = (parseJob raw).map fun (s, c) => (s, c, false) :=
  parseLine_of_hash (List.dropWhile_cons_of_neg (by decide))

lemma parseLine_note (m : Line) :
    parseLine ('#' :: ' ' :: trimLine m) = (parseJob m).map fun (s, c) => (s, c, false) := by
  rw [parseLine_comment, parseJob_congr (a := ' ' :: trimLine m) (b := m)]
  rw [trimLine, trim_cons (by decide), trimLine, trim_trim]

/-- A disabled job without its `#` is the job. -/
lemma parseLine_uncomment {raw s c : Line} (h : parseLine raw = some (s, c, false)) :
    parseLine (trimStart ((trimStart raw).dropWhile (· == '#'))) = some (s, c, true) := by
  obtain ⟨rest, hrest, hjob⟩ := parseLine_eq_false_iff.mp h
  have hhash : rest.dropWhile (· == '#') = rest := by
    cases rest with
    | nil => rfl
    | cons d rest =>
      refine List.dropWhile_cons_of_neg fun hd => ?_
      obtain rfl := beq_iff_eq.mp hd
      exact head?_ne_hash hjob (head?_trimLine_of_hash (List.dropWhile_cons_of_neg (by decide)))
  rw [hrest, List.dropWhile_cons_of_pos (by decide), hhash, parseLine_eq_true_iff, ← hjob]
  exact parseJob_congr (trim_dropWhile rest)

/-! ## A schedule and a command on one line -/

/-- A schedule with as many fields as a schedule has, and a command after it, are read back. -/
lemma parseJob_append {schedule command s c : Line}
    (h : parseJob (trimLine schedule ++ ' ' :: trimLine command) = some (s, c))
    (hcount : HasFieldCount (words isWhitespace schedule)) :
    s = [' '].intercalate (words isWhitespace schedule) ∧ c = trimLine command := by
  obtain ⟨fields, left, hparts⟩ := exists_jobParts h
  have hspace : isWhitespace ' ' = true := by decide
  have hwords := hparts.words_eq
  rw [words_append_break hspace, trimLine, words_trim, trimLine, words_trim] at hwords
  obtain ⟨f, fs, rfl⟩ := hparts.exists_cons
  obtain ⟨w, ws, hw⟩ : ∃ w ws, words isWhitespace schedule = w :: ws := by
    refine List.exists_cons_of_ne_nil fun hnil => ?_
    rw [hnil] at hcount
    exact nomatch hcount
  -- both start with the same field, so they have the same number of fields
  have hlength : (words isWhitespace schedule).length = fs.length + 1 := by
    have hfirst : w = f := by
      rw [hw] at hwords
      exact (List.cons.inj hwords).1
    have hfields := hparts.count
    rw [HasFieldCount, hw, hfirst] at hcount
    rw [HasFieldCount] at hfields
    rw [hw, hfirst, hcount]
    exact hfields.symm
  have hschedule : trimLine schedule ≠ [] := by
    rw [trimLine, ne_eq, trim_eq_nil_iff, hw]
    exact List.cons_ne_nil _ _
  have hcommand : trimLine command ≠ [] := by
    intro hnil
    have hleft := hparts.some_left
    rw [trim_eq_nil_iff.mp hnil, List.append_nil] at hwords
    rw [hwords, List.length_append, List.length_cons] at hlength
    refine hleft (trim_eq_nil_iff.mpr (List.eq_nil_of_length_eq_zero (by omega)))
  have hstart : trimStart (trimLine (trimLine schedule ++ ' ' :: trimLine command)) =
      trimLine schedule ++ ' ' :: trimLine command := by
    rw [trimStart, trimLine, dropWhile_trim]
    exact trim_append_break hschedule hcommand
  have hwordsTrim : words isWhitespace (trimLine schedule) = words isWhitespace schedule :=
    words_trim schedule
  have hread := splitOff_append (n := fs.length) (b := trimLine command) hspace
    (show trimStart (trimLine schedule) = trimLine schedule from dropWhile_trim schedule)
    (by rw [hwordsTrim, hlength])
  have hsplit := hparts.split
  rw [splitFields, hstart, List.length_cons, hread, hwordsTrim] at hsplit
  obtain ⟨hfields, hleft⟩ := Prod.mk.inj (Option.some.inj hsplit)
  refine ⟨by rw [hparts.schedule_eq, hfields], ?_⟩
  rw [hparts.command_eq, ← hleft, trimStart, trimLine, dropWhile_trim]
  exact List.rdropWhile_idempotent _ _

end Orca.Cron
