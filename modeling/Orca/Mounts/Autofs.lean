import Orca.Data.Text
import Orca.Library.MarkedBlocks
import Orca.Library.Words

/-!
# The master file of autofs

`merge_master` takes the master file of a host over: it drops the old block of orca, the
registrations of orca's map and the entries that would shadow a managed target, and appends a new
block.  `retire_master` drops the block and the registrations.  Both go through the lines with a
flag that a begin marker sets and an end marker clears.

A line is foreign if it is no marker, is not enclosed in a block and is not dropped for what it says
(`foreignPlaces`).  The flag takes a begin marker whose end marker is lost for a block that reaches
to the next end marker or to the end of the file, and a line that ends in a carriage return loses
one each time it is read back.  Apart from such lines all foreign lines are kept, and the two
functions are idempotent and undo each other (`master_preserved_iff`).
-/

namespace Orca.Mounts

open MarkedBlocks

/-! ## Lines -/

/-- A line of the master file. -/
abbrev Line := List Char

/-- `MAP_FILE`. -/
def mapFile : Line := "/etc/auto.orca".toList

/-- `TIMEOUT_SECS`. -/
def timeoutSecs : ℕ := 0

/-- `BLOCK_BEGIN`. -/
def blockBegin : Line := "# >>> orca managed (autofs) >>>".toList

/-- `BLOCK_END`. -/
def blockEnd : Line := "# <<< orca managed (autofs) <<<".toList

/-- `master_line`. -/
def masterLine : Line :=
  "/-  ".toList ++ mapFile ++ " --timeout=".toList ++ (toString timeoutSecs).toList

/-- `str::trim`. -/
def trimmed (line : Line) : Line := Words.trim isWhitespace line

/-- The line is blank: there is nothing left of it. -/
def isBlank (line : Line) : Bool := (trimmed line).isEmpty

/-- The line is a comment. -/
def isComment (line : Line) : Bool := (trimmed line).head? == some '#'

/-- `is_ancestor_or_equal`. -/
def isAncestorOrEqual (mountpoint target : List Char) : Bool :=
  let a := mountpoint.rdropWhile (· == '/')
  let t := target.rdropWhile (· == '/')
  a == t || (a.isPrefixOf t && t[a.length]? == some '/')

/-- `master_mountpoint`. -/
def masterMountpoint (line : Line) : Option (List Char) :=
  if isBlank line || isComment line then none else (Words.words isWhitespace (trimmed line)).head?

/-- `registers_our_map`. -/
def registersOurMap (line : Line) : Bool :=
  if isBlank line || isComment line then false
  else (Words.words isWhitespace (trimmed line)).any (· == mapFile)

/-- The line is an entry that would shadow a managed target. -/
def shadows (managedTargets : List String) (line : Line) : Bool :=
  (masterMountpoint line).any fun mountpoint =>
    managedTargets.any fun target => isAncestorOrEqual mountpoint target.toList

/-- The line is a begin marker. -/
def isBegin (line : Line) : Bool := trimmed line == blockBegin

/-- The line is an end marker. -/
def isEnd (line : Line) : Bool := trimmed line == blockEnd

/-! ## The two functions -/

/-- The loop over the lines, with its flag. -/
def keepLines (drops : Line → Bool) : (inBlock : Bool) → List Line → List Line
  | _, [] => []
  | inBlock, line :: rest =>
    if isBegin line then keepLines drops true rest
    else if isEnd line then keepLines drops false rest
    -- The old block, which is written anew.
    else if inBlock then keepLines drops inBlock rest
    else if drops line then keepLines drops inBlock rest
    else line :: keepLines drops inBlock rest

/-- The lines of a master file. -/
def masterLines (text : String) : List Line := (lines text).map String.toList

/-- The lines that are kept, without the blank ones at the end. -/
def keptLines (drops : Line → Bool) (existing : String) : List Line :=
  (keepLines drops false (masterLines existing)).rdropWhile isBlank

/-- The lines that `merge_master` drops for what they say. -/
def mergeDrops (managedTargets : List String) (line : Line) : Bool :=
  shadows managedTargets line || registersOurMap line

/-- The block of orca. -/
def orcaBlock : List Line := [blockBegin, masterLine, blockEnd]

/-- `merge_master`. -/
def mergeMaster (existing : String) (managedTargets : List String) : String :=
  endLines (keptLines (mergeDrops managedTargets) existing ++ orcaBlock)

/-- `retire_master`. -/
def retireMaster (existing : String) : String := endLines (keptLines registersOurMap existing)

/-! ## What is foreign -/

/-- The places of the foreign lines: no marker, not enclosed in a block, and not dropped for what
the line says. -/
def foreignPlaces (drops : Line → Bool) (ls : List Line) : List (Place Line) :=
  (places [] ls).filter fun place => !isBegin place.line && !isEnd place.line &&
    !enclosed isBegin isEnd place && !drops place.line

/-- The foreign lines, without the blank ones at the end. -/
def foreignLines (drops : Line → Bool) (text : String) : List Line :=
  ((foreignPlaces drops (masterLines text)).map Place.line).rdropWhile isBlank

/-- What is promised of a master file and the managed targets. -/
structure Preserved (existing : String) (managedTargets : List String) : Prop where
  merge_keeps : (foreignLines (mergeDrops managedTargets) existing).Sublist
    (masterLines (mergeMaster existing managedTargets))
  merge_one_block : ∃ front,
    masterLines (mergeMaster existing managedTargets) = front ++ orcaBlock ∧
      ∀ line ∈ front, isBegin line = false ∧ isEnd line = false ∧ registersOurMap line = false
  retire_keeps : (foreignLines registersOurMap existing).Sublist
    (masterLines (retireMaster existing))
  merge_idempotent : mergeMaster (mergeMaster existing managedTargets) managedTargets =
    mergeMaster existing managedTargets
  retire_idempotent : retireMaster (retireMaster existing) = retireMaster existing
  retire_merge : retireMaster (mergeMaster existing []) = retireMaster existing

/-! ## The loop and the foreign lines -/

/-- The place is behind a begin marker with no end marker since. -/
def behindBegin (place : Place Line) : Bool := opened isBegin isEnd place.front

/-- The lines that are kept are the foreign ones that are not behind a begin marker. -/
theorem keepLines_eq (drops : Line → Bool) (ls : List Line) :
    keepLines drops false ls =
      ((foreignPlaces drops ls).filter (!behindBegin ·)).map Place.line := by
  have hloop : ∀ front, keepLines drops (opened isBegin isEnd front) ls =
      ((places front ls).filter fun place => !isBegin place.line && !isEnd place.line &&
        !behindBegin place && !drops place.line).map Place.line := by
    induction ls with
    | nil => exact fun _ => rfl
    | cons line rest ih =>
      intro front
      have hnext := ih (front ++ [line])
      rw [opened_concat] at hnext
      cases hb : isBegin line with
      | true =>
        rw [hb, Bool.true_or] at hnext
        simpa [keepLines, places, hb] using hnext
      | false =>
        cases he : isEnd line with
        | true =>
          rw [hb, he, Bool.false_or, Bool.not_true, Bool.false_and] at hnext
          simpa [keepLines, places, hb, he] using hnext
        | false =>
          rw [hb, he, Bool.false_or, Bool.not_false, Bool.true_and] at hnext
          cases ho : opened isBegin isEnd front with
          | true =>
            rw [ho] at hnext
            simpa [keepLines, places, behindBegin, hb, he, ho] using hnext
          | false =>
            rw [ho] at hnext
            cases hd : drops line with
            | true => simpa [keepLines, places, behindBegin, hb, he, ho, hd] using hnext
            | false => simpa [keepLines, places, behindBegin, hb, he, ho, hd] using hnext
  refine (hloop []).trans (congrArg _ ?_)
  unfold foreignPlaces
  rw [List.filter_filter]
  refine List.filter_congr fun place _ => ?_
  -- What is enclosed in a block is behind a begin marker, and skipped with it.
  have henclosed := @opened_of_enclosed _ isBegin isEnd place
  cases hopen : behindBegin place with
  | true => simp
  | false =>
    have hfree : enclosed isBegin isEnd place = false :=
      Bool.eq_false_iff.mpr fun h => Bool.false_ne_true (hopen.symm.trans (henclosed h))
    simp [hfree]

/-- A foreign line, with what it is not. -/
lemma of_mem_foreignPlaces {drops : Line → Bool} {ls : List Line} {place : Place Line}
    (h : place ∈ foreignPlaces drops ls) :
    isBegin place.line = false ∧ isEnd place.line = false ∧ drops place.line = false := by
  have hplace := (List.mem_filter.mp h).2
  simp only [Bool.and_eq_true, Bool.not_eq_true'] at hplace
  exact ⟨hplace.1.1.1, hplace.1.1.2, hplace.2⟩

/-- Fewer lines are foreign to `merge_master`: the entries that shadow a target are not. -/
lemma foreignPlaces_mergeDrops (managedTargets : List String) (ls : List Line) :
    foreignPlaces (mergeDrops managedTargets) ls =
      (foreignPlaces registersOurMap ls).filter (!shadows managedTargets ·.line) := by
  unfold foreignPlaces
  rw [List.filter_filter]
  refine List.filter_congr fun place _ => ?_
  unfold mergeDrops
  cases shadows managedTargets place.line with
  | true => simp
  | false => simp

/-- Without targets `merge_master` drops what `retire_master` drops. -/
lemma mergeDrops_nil : mergeDrops [] = registersOurMap := by
  funext line
  have hnone : shadows [] line = false := by
    unfold shadows
    cases masterMountpoint line <;> rfl
  rw [mergeDrops, hnone, Bool.false_or]

/-- The foreign places up to the last one whose line is not blank. -/
def lastingPlaces (drops : Line → Bool) (text : String) : List (Place Line) :=
  (foreignPlaces drops (masterLines text)).rdropWhile fun place => isBlank place.line

lemma foreignLines_eq (drops : Line → Bool) (text : String) :
    foreignLines drops text = (lastingPlaces drops text).map Place.line :=
  rdropWhile_map _ _

lemma keptLines_eq (drops : Line → Bool) (text : String) :
    keptLines drops text = (((foreignPlaces drops (masterLines text)).filter
      (!behindBegin ·)).rdropWhile fun place => isBlank place.line).map Place.line := by
  unfold keptLines
  rw [keepLines_eq, rdropWhile_map]

lemma newline_notMem_masterLines {text : String} {line : Line} (h : line ∈ masterLines text) :
    '\n' ∉ line := by
  obtain ⟨s, hs, rfl⟩ := List.mem_map.mp h
  exact fun hn => (mem_of_mem_lines hs '\n' hn).2 rfl

lemma mem_masterLines_of_mem {drops : Line → Bool} {text : String} {place : Place Line}
    (h : place ∈ foreignPlaces drops (masterLines text)) : place.line ∈ masterLines text := by
  have hline := List.mem_map_of_mem (f := Place.line) (List.mem_filter.mp h).1
  rwa [map_line_places] at hline

lemma masterLines_endLines {ls : List Line} (h : ∀ line ∈ ls, '\n' ∉ line) :
    masterLines (endLines ls) = ls.map stripReturn := by
  unfold masterLines
  rw [lines_endLines h, List.map_map]
  exact List.map_congr_left fun line _ => String.toList_ofList

/-! ## Reading back -/

/-- Foreign lines that are read back as they were written and kept again. -/
structure Settled (drops : Line → Bool) (ls : List Line) : Prop where
  not_begin : ∀ line ∈ ls, isBegin line = false
  not_end : ∀ line ∈ ls, isEnd line = false
  not_dropped : ∀ line ∈ ls, drops line = false
  no_newline : ∀ line ∈ ls, '\n' ∉ line
  no_return : ∀ line ∈ ls, line.getLast? ≠ some '\r'
  not_blank : ls.rdropWhile isBlank = ls

/-- Foreign lines are kept in front of others. -/
lemma Settled.keepLines_append {drops : Line → Bool} {ls : List Line} (h : Settled drops ls)
    (rest : List Line) :
    keepLines drops false (ls ++ rest) = ls ++ keepLines drops false rest := by
  have hb := h.not_begin
  have he := h.not_end
  have hd := h.not_dropped
  clear h
  induction ls with
  | nil => rfl
  | cons line ls ih =>
    rw [List.forall_mem_cons] at hb he hd
    rw [List.cons_append, keepLines, hb.1, he.1, hd.1, ih hb.2 he.2 hd.2]
    rfl

lemma keepLines_orcaBlock (drops : Line → Bool) : keepLines drops false orcaBlock = [] := by
  have hbegin : isBegin blockBegin = true := by decide
  have hmaster : isBegin masterLine = false ∧ isEnd masterLine = false := by decide
  have hend : isBegin blockEnd = false ∧ isEnd blockEnd = true := by decide
  simp [orcaBlock, keepLines, hbegin, hmaster, hend]

lemma orcaBlock_plain : ∀ line ∈ orcaBlock, '\n' ∉ line ∧ line.getLast? ≠ some '\r' := by
  have hall : orcaBlock.all (fun line => line.all (· != '\n') && line.getLast? != some '\r') =
      true := by decide
  intro line hline
  have h := List.all_eq_true.mp hall line hline
  rw [Bool.and_eq_true, List.all_eq_true, bne_iff_ne] at h
  exact ⟨fun hn => bne_iff_ne.mp (h.1 _ hn) rfl, h.2⟩

/-- Foreign lines are read back, alone or in front of the block. -/
lemma Settled.masterLines_append {drops : Line → Bool} {ls tail : List Line}
    (h : Settled drops ls) (htail : ∀ line ∈ tail, '\n' ∉ line ∧ line.getLast? ≠ some '\r') :
    masterLines (endLines (ls ++ tail)) = ls ++ tail := by
  have hplain : ∀ line ∈ ls ++ tail, '\n' ∉ line ∧ line.getLast? ≠ some '\r' := by
    intro line hline
    rcases List.mem_append.mp hline with hline | hline
    · exact ⟨h.no_newline line hline, h.no_return line hline⟩
    · exact htail line hline
  rw [masterLines_endLines fun line hline => (hplain line hline).1]
  exact (List.map_congr_left (g := id) fun line hline =>
    stripReturn_eq_self (hplain line hline).2).trans (List.map_id _)

/-- Settled lines are kept as they are. -/
lemma Settled.keptLines_append {drops : Line → Bool} {ls tail : List Line}
    (h : Settled drops ls) (htail : tail = [] ∨ tail = orcaBlock) :
    keptLines drops (endLines (ls ++ tail)) = ls := by
  have hplain : ∀ line ∈ tail, '\n' ∉ line ∧ line.getLast? ≠ some '\r' := by
    rcases htail with rfl | rfl
    · exact fun line hline => absurd hline List.not_mem_nil
    · exact orcaBlock_plain
  have hskip : keepLines drops false tail = [] := by
    rcases htail with rfl | rfl
    · rfl
    · exact keepLines_orcaBlock drops
  unfold keptLines
  rw [h.masterLines_append hplain, h.keepLines_append, hskip, List.append_nil, h.not_blank]

/-! ## What is kept -/

/-- No foreign line, except for blank ones at the end, is behind a begin marker without an end
marker since, and none ends in a carriage return. -/
def Sound (drops : Line → Bool) (text : String) : Prop :=
  ∀ place ∈ lastingPlaces drops text,
    behindBegin place = false ∧ place.line.getLast? ≠ some '\r'

/-- What is sound for `retire_master` is so for `merge_master`. -/
lemma Sound.merge {text : String} (h : Sound registersOurMap text)
    (managedTargets : List String) : Sound (mergeDrops managedTargets) text := by
  intro place hplace
  unfold lastingPlaces at hplace
  rw [foreignPlaces_mergeDrops] at hplace
  exact h place (mem_rdropWhile_of_filter hplace)

variable {drops : Line → Bool} {text : String}

lemma Sound.keptLines_eq (h : Sound drops text) :
    keptLines drops text = foreignLines drops text := by
  have hfree : ∀ place ∈ lastingPlaces drops text, (!behindBegin place) = true := by
    intro place hplace
    rw [(h place hplace).1]
    rfl
  rw [Mounts.keptLines_eq, rdropWhile_filter_of_forall hfree, foreignLines_eq]
  rfl

/-- The foreign lines are read back. -/
lemma Sound.settled (h : Sound drops text) : Settled drops (foreignLines drops text) := by
  have hplaces : ∀ line ∈ foreignLines drops text, ∃ place ∈ lastingPlaces drops text,
      place ∈ foreignPlaces drops (masterLines text) ∧ place.line = line := by
    intro line hline
    rw [foreignLines_eq] at hline
    obtain ⟨place, hplace, rfl⟩ := List.mem_map.mp hline
    exact ⟨place, hplace, (List.rdropWhile_prefix _ _).subset hplace, rfl⟩
  constructor
  case not_blank => exact List.rdropWhile_idempotent _ _
  all_goals
    intro line hline
    obtain ⟨place, hlasting, hforeign, rfl⟩ := hplaces line hline
  case not_begin => exact (of_mem_foreignPlaces hforeign).1
  case not_end => exact (of_mem_foreignPlaces hforeign).2.1
  case not_dropped => exact (of_mem_foreignPlaces hforeign).2.2
  case no_newline => exact newline_notMem_masterLines (mem_masterLines_of_mem hforeign)
  case no_return => exact (h place hlasting).2

/-- If the foreign lines are in what is read back of the kept ones, the text is sound. -/
lemma sound_of_sublist
    (h : (foreignLines drops text).Sublist (masterLines (endLines (keptLines drops text)))) :
    Sound drops text := by
  have hnewline : ∀ line ∈ keptLines drops text, '\n' ∉ line := by
    intro line hline
    rw [keptLines_eq] at hline
    obtain ⟨place, hplace, rfl⟩ := List.mem_map.mp hline
    have hforeign := (List.mem_filter.mp ((List.rdropWhile_prefix _ _).subset hplace)).1
    exact newline_notMem_masterLines (mem_masterLines_of_mem hforeign)
  rw [masterLines_endLines hnewline, foreignLines_eq] at h
  -- The kept lines are not more than the foreign ones, so they are the same.
  have hlength := h.length_le
  rw [keptLines_eq] at hlength h
  simp only [List.length_map] at hlength
  have hfree := rdropWhile_filter_length_iff.mp hlength
  rw [rdropWhile_filter_of_forall hfree] at h
  have hsame := h.eq_of_length (List.length_map _).symm
  rw [List.map_map] at hsame
  intro place hplace
  refine ⟨by simpa using hfree place hplace, fun hreturn => ?_⟩
  have hline : place.line = stripReturn place.line := List.map_inj_left.mp hsame place hplace
  rw [stripReturn, if_pos hreturn] at hline
  have hne : place.line ≠ [] := fun hnil => by
    rw [hnil] at hreturn
    exact nomatch hreturn
  have hlength := congrArg List.length hline
  have hpos := List.length_pos_iff.mpr hne
  rw [List.length_dropLast] at hlength
  omega

/-- Foreign lines are preserved, and the two functions are idempotent and undo each other, if and
only if no foreign line, except for blank ones at the end, is behind a begin marker without an end
marker since or ends in a carriage return. -/
theorem master_preserved_iff (existing : String) (managedTargets : List String) :
    Preserved existing managedTargets ↔ Sound registersOurMap existing := by
  constructor
  · exact fun h => sound_of_sublist h.retire_keeps
  · intro h
    have hmerge := h.merge managedTargets
    have hnone : ∀ line ∈ ([] : List Line), '\n' ∉ line ∧ line.getLast? ≠ some '\r' :=
      fun line hline => absurd hline List.not_mem_nil
    have hmerged : masterLines (mergeMaster existing managedTargets) =
        foreignLines (mergeDrops managedTargets) existing ++ orcaBlock := by
      rw [mergeMaster, hmerge.keptLines_eq, hmerge.settled.masterLines_append orcaBlock_plain]
    have hretired :
        masterLines (retireMaster existing) = foreignLines registersOurMap existing := by
      have hread := h.settled.masterLines_append hnone
      rw [List.append_nil] at hread
      rw [retireMaster, h.keptLines_eq, hread]
    constructor
    case merge_keeps =>
      rw [hmerged]
      exact List.sublist_append_left _ _
    case merge_one_block =>
      refine ⟨_, hmerged, fun line hline => ⟨hmerge.settled.not_begin line hline,
        hmerge.settled.not_end line hline, ?_⟩⟩
      exact (Bool.or_eq_false_iff.mp (hmerge.settled.not_dropped line hline)).2
    case retire_keeps =>
      rw [hretired]
    case merge_idempotent =>
      unfold mergeMaster
      rw [hmerge.keptLines_eq, hmerge.settled.keptLines_append (Or.inr rfl)]
    case retire_idempotent =>
      have hkept := h.settled.keptLines_append (Or.inl rfl)
      rw [List.append_nil] at hkept
      unfold retireMaster
      rw [h.keptLines_eq, hkept]
    case retire_merge =>
      unfold retireMaster mergeMaster
      rw [mergeDrops_nil, h.keptLines_eq, h.settled.keptLines_append (Or.inr rfl)]

/-- An entry of the host. -/
def netEntry : Line := "/net -hosts".toList

/-- A begin marker without an end marker, and an entry of the host behind it. -/
def unendedMaster : String := endLines [blockBegin, netEntry]

/-- The entry behind the begin marker is foreign, and both functions drop it. -/
theorem unendedMaster_loses_entry :
    netEntry ∈ foreignLines registersOurMap unendedMaster ∧
      netEntry ∈ foreignLines (mergeDrops []) unendedMaster ∧
      netEntry ∉ masterLines (retireMaster unendedMaster) ∧
      netEntry ∉ masterLines (mergeMaster unendedMaster []) := by
  have hread : masterLines unendedMaster = [blockBegin, netEntry] :=
    (masterLines_endLines (by decide)).trans (by decide)
  have hentry : isBegin netEntry = false ∧ isEnd netEntry = false := by decide
  have hkept : ∀ drops, keptLines drops unendedMaster = [] := by
    intro drops
    unfold keptLines
    rw [hread]
    simp [keepLines, hentry, show isBegin blockBegin = true by decide]
  refine ⟨?_, ?_, ?_, ?_⟩
  · unfold foreignLines
    rw [hread]
    decide
  · unfold foreignLines
    rw [hread, mergeDrops_nil]
    decide
  · unfold retireMaster
    rw [hkept, masterLines_endLines (by simp)]
    exact List.not_mem_nil
  · unfold mergeMaster
    rw [hkept, List.nil_append,
      masterLines_endLines fun line hline => (orcaBlock_plain line hline).1]
    decide

end Orca.Mounts
