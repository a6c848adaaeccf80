import Orca.Cron.Crontab
import Orca.Library.Check
import Orca.Library.Numbered

/-!
# Edits of a crontab

An edit works on the lines of a crontab, and what it means is what the entries of the new text are.
`EditExact` states what an edit asks for; `applyEdit` does what it asks for on a text without
carriage returns if and only if no new line is read as something else (`edit_exact_iff`): a marker
must not be a job itself, for it is then a disabled job, and the schedule of a new job must have the
fields of a schedule, for the line may take a missing one from the command.
-/

namespace Orca.Cron

open Check Words Numbered

/-! ## The edits -/

/-- `Selector`. -/
inductive Selector
  | line (n : Nat)
  /-- The job with exactly this command. -/
  | command (c : Line)

/-- `CronEdit`. -/
inductive CronEdit
  | enable (sel : Selector)
  /-- Comment a job out, with a comment line written above it. -/
  | disable (sel : Selector) (marker : Option Line)
  | add (schedule command : Line)
  | remove (sel : Selector)

/-- The errors of an edit. -/
inductive CronError
  /-- `{label} must be a single line with no NUL bytes`. -/
  | notSingleLine (label : String)
  /-- The command has an unescaped `%`, which cron reads as a newline. -/
  | barePercent
  /-- `not a valid cron job line: {line}`. -/
  | notAJob (line : Line)
  /-- `no cron job matches {sel:?}`. -/
  | noMatch (sel : Selector)
  /-- Several jobs match, on the given lines; `select by line instead`. -/
  | ambiguous (sel : Selector) (lineNos : List Nat)

/-- `reject_newlines`. -/
def rejectNewlines (label : String) (s : Line) : Except CronError Unit :=
  if '\n' ∈ s ∨ '\r' ∈ s ∨ '\x00' ∈ s then .error (.notSingleLine label) else .ok ()

/-- `has_bare_percent`: a character after a backslash is skipped. -/
def hasBarePercent : Line → Bool
  | [] => false
  | '\\' :: [] => false
  | '\\' :: _ :: rest => hasBarePercent rest
  | '%' :: _ => true
  | _ :: rest => hasBarePercent rest

/-- The entry is the one that is meant. -/
def Selector.matches (sel : Selector) (e : CronEntry) : Bool :=
  match sel with
  | .line n => e.lineNo == n
  | .command c => e.command == c

/-- `select`. -/
def select (entries : List CronEntry) (sel : Selector) : Except CronError CronEntry :=
  match entries.filter sel.matches with
  | [one] => .ok one
  | [] => .error (.noMatch sel)
  | many => .error (.ambiguous sel (many.map (·.lineNo)))

/-- The text of some lines. -/
def writeLines (ls : List Line) : String :=
  if ls = [] then "" else unlines (ls.map String.ofList)

/-- A line without what makes it a comment. -/
def uncomment (raw : Line) : Line := trimStart ((trimStart raw).dropWhile (· == '#'))

/-- `apply_edit`. -/
def applyEdit (current : String) (edit : CronEdit) : Except CronError String :=
  let entries := parseEntries current
  let lines := crontabLines current
  match edit with
  | .enable sel => do
    let e ← select entries sel
    if e.enabled then .ok current
    else .ok (writeLines (lines.set (e.lineNo - 1) (uncomment e.raw)))
  | .disable sel marker => do
    let e ← select entries sel
    if e.enabled then
      let lines := lines.set (e.lineNo - 1) ('#' :: e.raw)
      match marker.filter (trimLine · ≠ []) with
      | some m => do
        rejectNewlines "marker" m
        .ok (writeLines (lines.insertIdx (e.lineNo - 1) ('#' :: ' ' :: trimLine m)))
      | none => .ok (writeLines lines)
    else .ok current
  | .add schedule command => do
    rejectNewlines "schedule" schedule
    rejectNewlines "command" command
    if hasBarePercent command then .error .barePercent
    else
      let line := trimLine schedule ++ ' ' :: trimLine command
      match parseJob line with
      | none => .error (.notAJob line)
      | some (s, c) =>
        if entries.any fun e => e.enabled && e.schedule == s && e.command == c then .ok current
        else .ok (writeLines (lines ++ [line]))
  | .remove sel => do
    let e ← select entries sel
    .ok (writeLines (lines.eraseIdx (e.lineNo - 1)))

/-! ## What an edit asks for -/

/-- What an entry says. -/
structure CronJob where
  schedule : Line
  command : Line
  enabled : Bool
deriving DecidableEq

/-- What an entry says. -/
def CronEntry.job (e : CronEntry) : CronJob := ⟨e.schedule, e.command, e.enabled⟩

/-- The jobs of a crontab, with the numbers of their lines. -/
def jobs (text : String) : List (Nat × CronJob) :=
  (parseEntries text).map fun e => (e.lineNo, e.job)

/-- The schedule, with its fields separated by single spaces. -/
def normalSchedule (schedule : Line) : Line := [' '].intercalate (words isWhitespace schedule)

/-- The line that is written above a disabled job. -/
def noteLine (marker : Option Line) : Option Line :=
  (marker.filter (trimLine · ≠ [])).map fun m => '#' :: ' ' :: trimLine m

/-- The line with the given number, if there is one, is replaced by some lines, and all the others
are kept. -/
def LineReplaced (before after : List Line) (n : Nat) (new : List Line) : Prop :=
  ∃ a l r, before = a ++ l :: r ∧ n = 1 + a.length ∧ after = a ++ new ++ r

/-- The job on a line can be enabled, and is then an enabled job with the given schedule and
command, however it is selected. -/
def Restores (text : String) (n : Nat) (schedule command : Line) : Prop :=
  (∃ e, select (parseEntries text) (.line n) = .ok e) ∧
    ∀ sel e, select (parseEntries text) sel = .ok e → e.lineNo = n →
      ∃ text', applyEdit text (.enable sel) = .ok text' ∧
        (n, ⟨schedule, command, true⟩) ∈ jobs text'

/-- The edit does exactly what it says. -/
def EditExact (text : String) (edit : CronEdit) (text' : String) : Prop :=
  match edit with
  | .enable sel => ∃ e, select (parseEntries text) sel = .ok e ∧
      jobs text' = modifyAt e.lineNo (fun j => { j with enabled := true }) (jobs text) ∧
      ∃ l, LineReplaced (crontabLines text) (crontabLines text') e.lineNo [l]
  | .disable sel marker => ∃ e, select (parseEntries text) sel = .ok e ∧
      let disabled := modifyAt e.lineNo (fun j => { j with enabled := false }) (jobs text)
      let note := if e.enabled then noteLine marker else none
      jobs text' = (if note.isSome then shiftFrom e.lineNo disabled else disabled) ∧
      (∃ l, LineReplaced (crontabLines text) (crontabLines text') e.lineNo (note.toList ++ [l])) ∧
      Restores text' (if note.isSome then e.lineNo + 1 else e.lineNo) e.schedule e.command
  | .add schedule command =>
      let wanted : CronJob := ⟨normalSchedule schedule, trimLine command, true⟩
      (jobs text' = if wanted ∈ (jobs text).map Prod.snd then jobs text
        else jobs text ++ [((crontabLines text).length + 1, wanted)]) ∧
      (∃ added, crontabLines text' = crontabLines text ++ added) ∧
      applyEdit text' (.add schedule command) = .ok text'
  | .remove sel => ∃ e, select (parseEntries text) sel = .ok e ∧
      jobs text' = dropAt e.lineNo (jobs text) ∧
      LineReplaced (crontabLines text) (crontabLines text') e.lineNo []

/-- No line that the edit writes is read as something else. -/
def EditSafe (text : String) (edit : CronEdit) : Prop :=
  match edit with
  | .disable sel (some marker) => ∀ e, select (parseEntries text) sel = .ok e →
      e.enabled = true → parseJob marker = none
  | .add schedule _ => HasFieldCount (words isWhitespace schedule)
  | _ => True

/-! ## The entries of the lines -/

/-- What a line says as a job. -/
def readJob (l : Line) : Option CronJob := (parseLine l).map fun (s, c, enabled) => ⟨s, c, enabled⟩

/-- What a line says as a job, with the line. -/
def readRaw (l : Line) : Option (CronJob × Line) := (readJob l).map (·, l)

/-- An entry is a number, a job and a line. -/
def toEntry (x : Nat × CronJob × Line) : CronEntry :=
  ⟨x.1, x.2.1.schedule, x.2.1.command, x.2.1.enabled, x.2.2⟩

lemma parseEntries_eq (text : String) :
    parseEntries text = (readFrom readRaw 1 (crontabLines text)).map toEntry := by
  rw [parseEntries, entriesFrom, readFrom, List.map_filterMap]
  refine List.filterMap_congr ?_
  rintro ⟨l, i⟩ -
  unfold entryAt readRaw readJob
  dsimp only
  cases parseLine l <;> rfl

lemma jobs_eq (text : String) : jobs text = readFrom readJob 1 (crontabLines text) := by
  rw [jobs, parseEntries, entriesFrom, readFrom, List.map_filterMap]
  refine List.filterMap_congr ?_
  rintro ⟨l, i⟩ -
  unfold entryAt readJob
  dsimp only
  cases parseLine l <;> rfl

/-- What is selected is the only entry that matches. -/
lemma select_eq_ok_iff {entries : List CronEntry} {sel : Selector} {e : CronEntry} :
    select entries sel = .ok e ↔ entries.filter sel.matches = [e] := by
  unfold select
  split
  · rename_i one hone
    rw [hone, Except.ok.injEq, List.cons.injEq, and_iff_left rfl]
  · rename_i hnone
    rw [hnone]
    exact ⟨nofun, nofun⟩
  · rename_i hmany _
    exact ⟨nofun, fun heq => absurd heq (hmany e)⟩

/-- What is selected is read from a line. -/
lemma exists_of_select {text : String} {sel : Selector} {e : CronEntry}
    (h : select (parseEntries text) sel = .ok e) :
    ∃ a r, crontabLines text = a ++ e.raw :: r ∧ e.lineNo = 1 + a.length ∧
      readJob e.raw = some e.job := by
  have hmem : e ∈ (parseEntries text).filter sel.matches := by
    rw [select_eq_ok_iff.mp h]
    exact List.mem_singleton_self e
  have hentry := (List.mem_filter.mp hmem).1
  rw [parseEntries_eq] at hentry
  obtain ⟨⟨i, job, raw⟩, hread, rfl⟩ := List.mem_map.mp hentry
  obtain ⟨a, l, r, hlines, hi, hraw⟩ := exists_of_mem_readFrom hread
  obtain ⟨job', hjob, heq⟩ := Option.map_eq_some_iff.mp hraw
  obtain ⟨rfl, rfl⟩ := Prod.mk.inj heq
  exact ⟨a, r, hlines, hi, hjob⟩

/-- The job of a line is selected by its number. -/
lemma select_line {text : String} {a r : List Line} {l : Line} {job : CronJob}
    (hlines : crontabLines text = a ++ l :: r) (hjob : readJob l = some job) :
    select (parseEntries text) (.line (1 + a.length)) =
      .ok (toEntry (1 + a.length, job, l)) := by
  have hread : readRaw l = some (job, l) := by rw [readRaw, hjob, Option.map_some]
  rw [select_eq_ok_iff, parseEntries_eq, List.filter_map, hlines]
  have hone : (readFrom readRaw 1 (a ++ l :: r)).filter (·.1 = 1 + a.length) =
      ((readRaw l).map (1 + a.length, ·)).toList := filter_readFrom rfl
  rw [hread] at hone
  have hmatch : (Selector.line (1 + a.length)).matches ∘ toEntry =
      fun x => decide (x.1 = 1 + a.length) := rfl
  rw [hmatch, hone]
  rfl

/-! ## What the new lines say -/

lemma readJob_eq_enabled_iff {l s c : Line} :
    readJob l = some ⟨s, c, true⟩ ↔ parseJob l = some (s, c) := by
  rw [← parseLine_eq_true_iff, readJob]
  rcases parseLine l with _ | ⟨s', c', enabled⟩
  · exact ⟨nofun, nofun⟩
  · simp

/-- A line with a `#` at its start says a disabled job if it was a job. -/
lemma readJob_comment {l s c : Line} (h : readJob l = some ⟨s, c, true⟩) :
    readJob ('#' :: l) = some ⟨s, c, false⟩ := by
  rw [readJob, parseLine_comment, readJob_eq_enabled_iff.mp h]
  rfl

/-- A disabled job without its `#` is enabled. -/
lemma readJob_uncomment {l s c : Line} (h : readJob l = some ⟨s, c, false⟩) :
    readJob (uncomment l) = some ⟨s, c, true⟩ := by
  obtain ⟨⟨s', c', enabled⟩, hparse, heq⟩ := Option.map_eq_some_iff.mp h
  obtain ⟨rfl, rfl, rfl⟩ := CronJob.mk.inj heq
  rw [readJob, uncomment, parseLine_uncomment hparse]
  rfl

lemma readJob_note (m : Line) :
    readJob ('#' :: ' ' :: trimLine m) = (parseJob m).map fun (s, c) => ⟨s, c, false⟩ := by
  rw [readJob, parseLine_note, Option.map_map]
  rfl

/-! ## Writing lines -/

/-- It is read back as one line. -/
def SingleLine (l : Line) : Prop := '\n' ∉ l ∧ '\r' ∉ l

lemma singleLine_of_mem {text : String} (hcr : '\r' ∉ text.toList) {l : Line}
    (hl : l ∈ crontabLines text) : SingleLine l := by
  obtain ⟨s, hs, rfl⟩ := List.mem_map.mp hl
  exact ⟨fun hmem => (mem_of_mem_lines hs _ hmem).2 rfl,
    fun hmem => hcr (mem_of_mem_lines hs _ hmem).1⟩

lemma SingleLine.sublist {l l' : Line} (h : SingleLine l) (hsub : l'.Sublist l) : SingleLine l' :=
  ⟨fun hmem => h.1 (hsub.mem hmem), fun hmem => h.2 (hsub.mem hmem)⟩

lemma SingleLine.cons {l : Line} {c : Char} (h : SingleLine l) (hn : c ≠ '\n') (hr : c ≠ '\r') :
    SingleLine (c :: l) :=
  ⟨List.not_mem_cons_of_ne_of_not_mem hn.symm h.1, List.not_mem_cons_of_ne_of_not_mem hr.symm h.2⟩

lemma singleLine_of_rejectNewlines {label : String} {l : Line}
    (h : rejectNewlines label l = .ok ()) : SingleLine l := by
  unfold rejectNewlines at h
  split at h
  · exact nomatch h
  · rename_i hnone
    rw [not_or, not_or] at hnone
    exact ⟨hnone.1, hnone.2.1⟩

lemma SingleLine.trimLine {l : Line} (h : SingleLine l) : SingleLine (trimLine l) :=
  h.sublist ((List.rdropWhile_prefix _ _).sublist.trans (List.dropWhile_sublist _))

lemma SingleLine.uncomment {l : Line} (h : SingleLine l) : SingleLine (uncomment l) :=
  h.sublist ((List.dropWhile_sublist _).trans
    ((List.dropWhile_sublist _).trans (List.dropWhile_sublist _)))

/-- Single lines are read back as they were written. -/
lemma crontabLines_writeLines {ls : List Line} (h : ∀ l ∈ ls, SingleLine l) :
    crontabLines (writeLines ls) = ls := by
  have hlist : (ls.map String.ofList).map String.toList = ls := by
    rw [List.map_map]
    refine (List.map_congr_left fun l _ => ?_).trans ls.map_id
    exact String.toList_ofList
  unfold writeLines crontabLines
  split
  · rename_i hnil
    rw [hnil]
    rfl
  · rename_i hne
    rw [lines_unlines (by simpa using hne), hlist]
    · intro s hs
      obtain ⟨l, hl, rfl⟩ := List.mem_map.mp hs
      rw [String.toList_ofList]
      exact (h l hl).1
    · intro s hs hlast
      obtain ⟨l, hl, rfl⟩ := List.mem_map.mp hs
      rw [String.toList_ofList] at hlast
      exact (h l hl).2 (List.mem_of_getLast? hlast)

section Replace

variable {text : String} {a r new : List Line} {l : Line}

/-- A line of single lines is replaced by single lines. -/
lemma singleLine_replace (hsingle : ∀ x ∈ crontabLines text, SingleLine x)
    (hlines : crontabLines text = a ++ l :: r) (hnew : ∀ x ∈ new, SingleLine x) :
    ∀ x ∈ a ++ new ++ r, SingleLine x := by
  rw [hlines] at hsingle
  intro x hx
  rcases List.mem_append.mp hx with hx | hx
  · rcases List.mem_append.mp hx with hx | hx
    · exact hsingle x (List.mem_append_left _ hx)
    · exact hnew x hx
  · exact hsingle x (List.mem_append_right _ (List.mem_cons_of_mem _ hx))

lemma singleLine_raw (hsingle : ∀ x ∈ crontabLines text, SingleLine x)
    (hlines : crontabLines text = a ++ l :: r) : SingleLine l :=
  hsingle l (hlines ▸ List.mem_append_right a List.mem_cons_self)

lemma insertIdx_append (a r : List Line) (m : Line) :
    (a ++ r).insertIdx a.length m = a ++ m :: r := by
  induction a with
  | nil => rfl
  | cons x a ih => rw [List.cons_append, List.length_cons, List.insertIdx_succ_cons, ih]; rfl

lemma set_lineNo {n : Nat} (hlines : crontabLines text = a ++ l :: r) (hn : n = 1 + a.length)
    (m : Line) : (crontabLines text).set (n - 1) m = a ++ [m] ++ r := by
  rw [hlines, List.set_append_right (n - 1) m (by omega), hn, Nat.add_sub_cancel_left,
    Nat.sub_self, List.set_cons_zero, List.append_assoc, List.singleton_append]

lemma insertIdx_lineNo {n : Nat} (hn : n = 1 + a.length) (m : Line) :
    (a ++ [l] ++ r).insertIdx (n - 1) m = a ++ [m, l] ++ r := by
  rw [hn, Nat.add_sub_cancel_left, List.append_assoc, insertIdx_append, List.append_assoc]
  rfl

lemma eraseIdx_lineNo {n : Nat} (hlines : crontabLines text = a ++ l :: r)
    (hn : n = 1 + a.length) : (crontabLines text).eraseIdx (n - 1) = a ++ [] ++ r := by
  rw [hlines, List.eraseIdx_append_of_length_le (by omega), hn, Nat.add_sub_cancel_left,
    Nat.sub_self, List.eraseIdx_cons_zero, List.append_nil]

lemma jobs_replace {text' : String} {m : Line} {f : CronJob → CronJob}
    (hlines : crontabLines text = a ++ l :: r) (hlines' : crontabLines text' = a ++ [m] ++ r)
    (h : readJob m = (readJob l).map f) : jobs text' = modifyAt (1 + a.length) f (jobs text) := by
  rw [jobs_eq, jobs_eq, hlines, hlines', List.append_assoc, List.singleton_append]
  exact readFrom_replace h

end Replace

/-! ## Enabling -/

lemma readJob_eq_map {l : Line} {job : CronJob} {f : CronJob → CronJob}
    (h : readJob l = some job) (hf : f job = job) : readJob l = (readJob l).map f := by
  rw [h, Option.map_some, hf]

section Enable

variable {text text' : String} {sel : Selector}

/-- To enable a job does exactly that. -/
lemma enable_exact (hsingle : ∀ x ∈ crontabLines text, SingleLine x)
    (h : applyEdit text (.enable sel) = .ok text') : EditExact text (.enable sel) text' := by
  obtain ⟨e, hsel, hrun⟩ := chain_ok_iff.mp h
  obtain ⟨a, r, hlines, hn, hread⟩ := exists_of_select hsel
  refine ⟨e, hsel, ?_⟩
  split at hrun
  · rename_i henabled
    obtain rfl := Except.ok.inj hrun
    have hlines' : crontabLines text = a ++ [e.raw] ++ r := by
      rw [hlines, List.append_assoc, List.singleton_append]
    refine ⟨?_, e.raw, a, e.raw, r, hlines, hn, hlines'⟩
    rw [hn]
    refine jobs_replace hlines hlines' (readJob_eq_map hread ?_)
    rw [CronEntry.job, henabled]
  · rename_i hdisabled
    obtain rfl := Except.ok.inj hrun
    have hnew : ∀ x ∈ [uncomment e.raw], SingleLine x := by
      intro x hx
      obtain rfl := List.mem_singleton.mp hx
      exact (singleLine_raw hsingle hlines).uncomment
    rw [set_lineNo hlines hn]
    have hlines' := crontabLines_writeLines (singleLine_replace hsingle hlines hnew)
    refine ⟨?_, uncomment e.raw, a, e.raw, r, hlines, hn, hlines'⟩
    rw [hn]
    refine jobs_replace hlines hlines' ?_
    rw [CronEntry.job, Bool.eq_false_iff.mpr hdisabled] at hread
    rw [readJob_uncomment hread, hread]
    rfl

lemma exists_enable {e : CronEntry} (h : select (parseEntries text) sel = .ok e) :
    ∃ text', applyEdit text (.enable sel) = .ok text' := by
  unfold applyEdit
  dsimp only
  rw [h]
  by_cases henabled : e.enabled = true
  · exact ⟨_, if_pos henabled⟩
  · exact ⟨_, if_neg henabled⟩

/-- The job on a line can be enabled. -/
lemma restores {a r : List Line} {l : Line} {job : CronJob}
    (hsingle : ∀ x ∈ crontabLines text, SingleLine x) (hlines : crontabLines text = a ++ l :: r)
    (hread : readJob l = some job) : Restores text (1 + a.length) job.schedule job.command := by
  refine ⟨⟨_, select_line hlines hread⟩, fun sel e hsel hn => ?_⟩
  obtain ⟨text', happly⟩ := exists_enable hsel
  obtain ⟨e', hsel', hjobs, -⟩ := enable_exact hsingle happly
  obtain rfl := Except.ok.inj (hsel.symm.trans hsel')
  refine ⟨text', happly, ?_⟩
  rw [hjobs, hn]
  have hmem : (1 + a.length, job) ∈ jobs text := by
    rw [jobs_eq, hlines]
    exact mem_readFrom hread
  exact mem_modifyAt hmem

end Enable

/-! ## Disabling -/

section Disable

variable {text text' : String} {sel : Selector} {marker : Option Line}

lemma singleLine_note {m : Line} (h : SingleLine m) : SingleLine ('#' :: ' ' :: trimLine m) :=
  (h.trimLine.cons (by decide) (by decide)).cons (by decide) (by decide)

/-- To disable a job puts a `#` before its line, and the marker on a line above it. -/
lemma disable_cases (hsingle : ∀ x ∈ crontabLines text, SingleLine x)
    (h : applyEdit text (.disable sel marker) = .ok text') :
    ∃ e a r l, select (parseEntries text) sel = .ok e ∧ crontabLines text = a ++ e.raw :: r ∧
      e.lineNo = 1 + a.length ∧ readJob e.raw = some e.job ∧
      readJob l = some { e.job with enabled := false } ∧
      crontabLines text' =
        a ++ ((if e.enabled then noteLine marker else none).toList ++ [l]) ++ r ∧
      ∀ x ∈ crontabLines text', SingleLine x := by
  obtain ⟨e, hsel, hrun⟩ := chain_ok_iff.mp h
  obtain ⟨a, r, hlines, hn, hread⟩ := exists_of_select hsel
  dsimp only at hrun
  split at hrun
  · rename_i henabled
    have hjob : readJob ('#' :: e.raw) = some { e.job with enabled := false } := by
      refine readJob_comment ?_
      rw [hread, CronEntry.job, henabled]
    have hraw : SingleLine ('#' :: e.raw) :=
      (singleLine_raw hsingle hlines).cons (by decide) (by decide)
    refine ⟨e, a, r, '#' :: e.raw, hsel, hlines, hn, hread, hjob, ?_⟩
    rw [if_pos henabled]
    rw [set_lineNo hlines hn] at hrun
    split at hrun
    · rename_i m hm
      obtain ⟨hreject, hwrite⟩ := then_ok_iff.mp hrun
      obtain rfl := Except.ok.inj hwrite
      have hnew : ∀ x ∈ ['#' :: ' ' :: trimLine m, '#' :: e.raw], SingleLine x := by
        rintro x (_ | ⟨_, _ | ⟨_, ⟨⟩⟩⟩)
        · exact singleLine_note (singleLine_of_rejectNewlines hreject)
        · exact hraw
      have hkept := singleLine_replace hsingle hlines hnew
      rw [insertIdx_lineNo hn, crontabLines_writeLines hkept, noteLine, hm]
      exact ⟨rfl, hkept⟩
    · rename_i hm
      obtain rfl := Except.ok.inj hrun
      have hnew : ∀ x ∈ ['#' :: e.raw], SingleLine x := by
        rintro x (_ | ⟨_, ⟨⟩⟩)
        exact hraw
      have hkept := singleLine_replace hsingle hlines hnew
      rw [crontabLines_writeLines hkept, noteLine, hm]
      exact ⟨rfl, hkept⟩
  · rename_i hdisabled
    obtain rfl := Except.ok.inj hrun
    have hjob : readJob e.raw = some { e.job with enabled := false } := by
      rw [hread, CronEntry.job, Bool.eq_false_iff.mpr hdisabled]
    refine ⟨e, a, r, e.raw, hsel, hlines, hn, hread, hjob, ?_, hsingle⟩
    rw [if_neg hdisabled, hlines, List.append_assoc]
    rfl

/-- A marker is safe if and only if the line that is written of it says nothing. -/
lemma disable_safe_iff {e : CronEntry} (hsel : select (parseEntries text) sel = .ok e) :
    EditSafe text (.disable sel marker) ↔
      ∀ x ∈ (if e.enabled then noteLine marker else none), readJob x = none := by
  cases marker with
  | none =>
    have hnone : (if e.enabled then noteLine none else none) = none := ite_self _
    rw [hnone]
    exact ⟨fun _ => nofun, fun _ => trivial⟩
  | some m =>
    have hsafe : EditSafe text (.disable sel (some m)) ↔
        (e.enabled = true → parseJob m = none) := by
      refine ⟨fun h => h e hsel, fun h e' hsel' => ?_⟩
      obtain rfl := Except.ok.inj (hsel.symm.trans hsel')
      exact h
    rw [hsafe]
    by_cases henabled : e.enabled = true
    · rw [if_pos henabled]
      by_cases hblank : trimLine m = []
      · -- a blank marker is no job, and nothing is written of it
        have hnote : noteLine (some m) = none := by
          rw [noteLine, Option.filter_some, if_neg (by simpa using hblank), Option.map_none]
        have hjob : parseJob m = none := by
          by_contra hsome
          obtain ⟨⟨s, c⟩, hjob⟩ := Option.ne_none_iff_exists'.mp hsome
          exact trimLine_ne_nil hjob hblank
        rw [hnote]
        exact ⟨fun _ => nofun, fun _ _ => hjob⟩
      · have hnote : noteLine (some m) = some ('#' :: ' ' :: trimLine m) := by
          rw [noteLine, Option.filter_some, if_pos (by simpa using hblank), Option.map_some]
        rw [hnote]
        constructor
        · rintro h x ⟨⟩
          rw [readJob_note, h henabled, Option.map_none]
        · intro h _
          have hnone := h _ rfl
          rwa [readJob_note, Option.map_eq_none_iff] at hnone
    · rw [if_neg henabled]
      exact ⟨fun _ => nofun, fun _ h => absurd h henabled⟩

/-- To disable a job does exactly that if and only if the marker is safe. -/
lemma disable_exact_iff (hsingle : ∀ x ∈ crontabLines text, SingleLine x)
    (h : applyEdit text (.disable sel marker) = .ok text') :
    EditExact text (.disable sel marker) text' ↔ EditSafe text (.disable sel marker) := by
  obtain ⟨e, a, r, l, hsel, hlines, hn, hread, hjob, hlines', hsingle'⟩ := disable_cases hsingle h
  rw [disable_safe_iff hsel]
  have hdisabled : readFrom readJob 1 (a ++ l :: r) =
      modifyAt e.lineNo (fun j => { j with enabled := false }) (jobs text) := by
    rw [jobs_eq, hlines, hn]
    refine readFrom_replace ?_
    rw [hjob, hread, Option.map_some]
  generalize hnote : (if e.enabled then noteLine marker else none) = note at hlines'
  cases note with
  | none =>
    have hplain : crontabLines text' = a ++ l :: r := by
      rw [hlines', List.append_assoc]
      rfl
    refine ⟨fun _ => nofun, fun _ => ⟨e, hsel, ?_⟩⟩
    rw [hnote]
    refine ⟨?_, ⟨l, a, e.raw, r, hlines, hn, hlines'⟩, ?_⟩
    · rw [jobs_eq text', hplain, hdisabled]
      rfl
    · rw [hn]
      exact restores hsingle' hplain hjob
  | some m =>
    have hplain : crontabLines text' = a ++ m :: l :: r := by
      rw [hlines', List.append_assoc]
      rfl
    constructor
    · rintro ⟨e', hsel', hjobs, -⟩
      obtain rfl := Except.ok.inj (hsel.symm.trans hsel')
      rw [hnote, if_pos Option.isSome_some] at hjobs
      rintro x ⟨⟩
      -- a marker that is a job would be one entry more
      by_contra hsome
      obtain ⟨job, hm⟩ := Option.ne_none_iff_exists'.mp hsome
      have hlength := congrArg List.length hjobs
      rw [jobs_eq text', hplain, length_readFrom_insert hm, hdisabled, length_shiftFrom] at hlength
      exact absurd hlength (Nat.succ_ne_self _)
    · intro hsafe
      refine ⟨e, hsel, ?_⟩
      rw [hnote]
      refine ⟨?_, ⟨l, a, e.raw, r, hlines, hn, hlines'⟩, ?_⟩
      · rw [jobs_eq text', hplain, readFrom_insert (hsafe m rfl), hdisabled, hn]
        rfl
      · have hbelow : crontabLines text' = (a ++ [m]) ++ l :: r := by
          rw [hplain, List.append_assoc, List.singleton_append]
        have hrestores := restores hsingle' hbelow hjob
        rw [List.length_append, List.length_singleton, ← Nat.add_assoc, ← hn] at hrestores
        exact hrestores

end Disable

/-! ## Adding -/

section Add

variable {text text' : String} {schedule command : Line}

/-- A job has a schedule with as many fields as a schedule has. -/
lemma hasFieldCount_of_mem_jobs {job : CronJob} (h : job ∈ (jobs text).map Prod.snd) :
    HasFieldCount (words isWhitespace job.schedule) := by
  obtain ⟨⟨i, job⟩, hmem, rfl⟩ := List.mem_map.mp h
  rw [jobs_eq] at hmem
  obtain ⟨a, l, r, -, -, hread⟩ := exists_of_mem_readFrom hmem
  obtain ⟨⟨s, c, enabled⟩, hparse, rfl⟩ := Option.map_eq_some_iff.mp hread
  cases enabled with
  | true => exact hasFieldCount_of_parseJob (parseLine_eq_true_iff.mp hparse)
  | false =>
    obtain ⟨rest, -, hjob⟩ := parseLine_eq_false_iff.mp hparse
    exact hasFieldCount_of_parseJob hjob

/-- There is an enabled entry with a schedule and a command if there is such a job. -/
lemma any_enabled_iff {s c : Line} :
    ((parseEntries text).any fun e => e.enabled && e.schedule == s && e.command == c) = true ↔
      ⟨s, c, true⟩ ∈ (jobs text).map Prod.snd := by
  rw [List.any_eq_true, jobs, List.map_map, List.mem_map]
  refine exists_congr fun e => and_congr_right fun _ => ?_
  rw [Bool.and_eq_true, Bool.and_eq_true, beq_iff_eq, beq_iff_eq]
  constructor
  · rintro ⟨⟨henabled, rfl⟩, rfl⟩
    rw [Function.comp_apply, CronEntry.job, henabled]
  · intro heq
    obtain ⟨rfl, rfl, henabled⟩ := CronJob.mk.inj heq
    exact ⟨⟨henabled, rfl⟩, rfl⟩

/-- What is added if the line is accepted. -/
lemma applyEdit_add {s c : Line} (hschedule : rejectNewlines "schedule" schedule = .ok ())
    (hcommand : rejectNewlines "command" command = .ok ())
    (hpercent : ¬hasBarePercent command = true)
    (hjob : parseJob (trimLine schedule ++ ' ' :: trimLine command) = some (s, c))
    (text : String) :
    applyEdit text (.add schedule command) =
      if ⟨s, c, true⟩ ∈ (jobs text).map Prod.snd then .ok text
      else .ok (writeLines (crontabLines text ++
        [trimLine schedule ++ ' ' :: trimLine command])) := by
  unfold applyEdit
  dsimp only
  rw [hschedule, hcommand]
  simp only [bind, Except.bind]
  rw [if_neg hpercent, hjob]
  exact if_congr any_enabled_iff rfl rfl

/-- What is added is accepted, and it is a line that says an enabled job. -/
lemma exists_of_add (h : applyEdit text (.add schedule command) = .ok text') :
    ∃ s c, parseJob (trimLine schedule ++ ' ' :: trimLine command) = some (s, c) ∧
      SingleLine (trimLine schedule ++ ' ' :: trimLine command) ∧
      ∀ text, applyEdit text (.add schedule command) =
        if ⟨s, c, true⟩ ∈ (jobs text).map Prod.snd then .ok text
        else .ok (writeLines (crontabLines text ++
          [trimLine schedule ++ ' ' :: trimLine command])) := by
  obtain ⟨hschedule, h⟩ := then_ok_iff.mp h
  obtain ⟨hcommand, h⟩ := then_ok_iff.mp h
  dsimp only at h
  split at h
  · exact nomatch h
  rename_i hpercent
  split at h
  · exact nomatch h
  rename_i s c hjob
  refine ⟨s, c, hjob, ?_, applyEdit_add hschedule hcommand hpercent hjob⟩
  have hfirst := (singleLine_of_rejectNewlines hschedule).trimLine
  have hlast := (singleLine_of_rejectNewlines hcommand).trimLine
  have hrest := hlast.cons (c := ' ') (by decide) (by decide)
  exact ⟨fun hmem => (List.mem_append.mp hmem).elim hfirst.1 hrest.1,
    fun hmem => (List.mem_append.mp hmem).elim hfirst.2 hrest.2⟩

/-- To add a job does exactly that if and only if its schedule has the fields of a schedule. -/
lemma add_exact_iff (hsingle : ∀ x ∈ crontabLines text, SingleLine x)
    (h : applyEdit text (.add schedule command) = .ok text') :
    EditExact text (.add schedule command) text' ↔
      EditSafe text (.add schedule command) := by
  obtain ⟨s, c, hjob, hline, happly⟩ := exists_of_add h
  have hread : readJob (trimLine schedule ++ ' ' :: trimLine command) = some ⟨s, c, true⟩ :=
    readJob_eq_enabled_iff.mpr hjob
  constructor
  · rintro ⟨hjobs, -⟩
    -- the requested job is a job of the new text
    have hmem : ⟨normalSchedule schedule, trimLine command, true⟩ ∈
        (jobs text').map Prod.snd := by
      rw [hjobs]
      split
      · assumption
      · rw [List.map_append]
        exact List.mem_append_right _ List.mem_cons_self
    have hcount := hasFieldCount_of_mem_jobs hmem
    have hwords : words isWhitespace (normalSchedule schedule) = words isWhitespace schedule :=
      words_join (by decide) fun w hw => isWord_of_mem_words hw
    rwa [hwords] at hcount
  · intro hcount
    obtain ⟨hs, hc⟩ := parseJob_append hjob hcount
    rw [happly] at h
    have hwanted :
        (⟨normalSchedule schedule, trimLine command, true⟩ : CronJob) = ⟨s, c, true⟩ := by
      rw [hs, hc, normalSchedule]
    unfold EditExact
    dsimp only
    rw [hwanted]
    split at h
    · rename_i hthere
      obtain rfl := Except.ok.inj h
      refine ⟨(if_pos hthere).symm, ⟨[], (List.append_nil _).symm⟩, ?_⟩
      rw [happly, if_pos hthere]
    · rename_i hnot
      obtain rfl := Except.ok.inj h
      have hall : ∀ x ∈ crontabLines text ++ [trimLine schedule ++ ' ' :: trimLine command],
          SingleLine x := by
        intro x hx
        rcases List.mem_append.mp hx with hx | hx
        · exact hsingle x hx
        · exact List.mem_singleton.mp hx ▸ hline
      have hlines' := crontabLines_writeLines hall
      have hjobs : jobs (writeLines (crontabLines text ++
          [trimLine schedule ++ ' ' :: trimLine command])) =
          jobs text ++ [((crontabLines text).length + 1, ⟨s, c, true⟩)] := by
        rw [jobs_eq, hlines', readFrom_append, ← jobs_eq, readFrom_cons, hread, Nat.add_comm]
        rfl
      refine ⟨hjobs.trans (if_neg hnot).symm, ⟨_, hlines'⟩, ?_⟩
      rw [happly, if_pos]
      rw [hjobs, List.map_append]
      exact List.mem_append_right _ List.mem_cons_self

-- the fifth field is taken from the command
example : applyEdit "" (.add "0 3 * *".toList "* /bin/x".toList) = .ok "0 3 * * * /bin/x\n" := by
  rfl

end Add

/-! ## Removing -/

/-- To remove a job does exactly that. -/
lemma remove_exact {text text' : String} {sel : Selector}
    (hsingle : ∀ x ∈ crontabLines text, SingleLine x)
    (h : applyEdit text (.remove sel) = .ok text') : EditExact text (.remove sel) text' := by
  obtain ⟨e, hsel, hrun⟩ := chain_ok_iff.mp h
  obtain ⟨a, r, hlines, hn, -⟩ := exists_of_select hsel
  obtain rfl := Except.ok.inj hrun
  have hkept : ∀ x ∈ a ++ [] ++ r, SingleLine x :=
    singleLine_replace hsingle hlines fun _ hx => absurd hx List.not_mem_nil
  have hlines' := crontabLines_writeLines hkept
  rw [eraseIdx_lineNo hlines hn]
  refine ⟨e, hsel, ?_, a, e.raw, r, hlines, hn, hlines'⟩
  rw [jobs_eq, jobs_eq, hlines', hlines, hn, List.append_nil]
  exact readFrom_remove

/-! ## Edits -/

/-- **Crontab edits.**  On a text without carriage returns an edit does exactly what it says if and
only if no line that it writes is read as something else. -/
theorem edit_exact_iff {text text' : String} {edit : CronEdit} (hcr : '\r' ∉ text.toList)
    (h : applyEdit text edit = .ok text') : EditExact text edit text' ↔ EditSafe text edit := by
  have hsingle : ∀ x ∈ crontabLines text, SingleLine x := fun x hx => singleLine_of_mem hcr hx
  cases edit with
  | enable sel => exact iff_of_true (enable_exact hsingle h) trivial
  | disable sel marker => exact disable_exact_iff hsingle h
  | add schedule command => exact add_exact_iff hsingle h
  | remove sel => exact iff_of_true (remove_exact hsingle h) trivial

/-- A job is disabled below a marker. -/
theorem edit_exact_paused :
    EditExact "* * * * * /x\n" (.disable (.line 1) (some "orca: paused".toList))
      "# orca: paused\n#* * * * * /x\n" :=
  (edit_exact_iff (by decide) rfl).mpr fun _ _ _ => by decide

/-- A marker that is a job is a disabled job of the new text, which is one more than there was. -/
theorem edit_not_exact : ¬∀ (text : String) (edit : CronEdit) (text' : String),
    '\r' ∉ text.toList → applyEdit text edit = .ok text' → EditExact text edit text' := by
  intro h
  obtain ⟨e, -, hjobs, -⟩ := h "* * * * * /x\n"
    (.disable (.line 1) (some "0 3 * * * /bin/true".toList))
    "# 0 3 * * * /bin/true\n#* * * * * /x\n" (by decide) rfl
  have htwo : (jobs "# 0 3 * * * /bin/true\n#* * * * * /x\n").length = 2 := rfl
  have hone : (jobs "* * * * * /x\n").length = 1 := rfl
  rw [hjobs, apply_ite List.length, length_shiftFrom, length_modifyAt, hone, ite_self] at htwo
  exact nomatch htwo

end Orca.Cron
