import Orca.Backup.StoreTree
import Orca.Contract.Paging
import Orca.Library.Check
import Orca.Library.Cut
import Orca.Library.Utf8

/-!
# The date of a backup

`load_manifest` reads a record from a pool, where another host may have written it, and
`BackupRecord::date` takes the date out of the record's id.  The id is checked for its length and
for characters that would reshape a path; the date is cut out of it at fixed bytes.

A date is cut out if and only if no character lies across one of these bytes (`date_isSome_iff`).
There it is the date that eight digits in front of a hyphen spell, and empty where the id has
another shape (`date_of_boundaries`).
-/

namespace Orca.Backup

open Check Contract Utf8

/-! ## A manifest on disk -/

/-- A file name, as the system keeps it. -/
abbrev OsName := List UInt8

/-- `Path::parent`. -/
def parent (path : List OsName) : Option (List OsName) :=
  if path = [] then none else some path.dropLast

/-- `Path::file_name`. -/
def fileName (path : List OsName) : Option OsName :=
  path.getLast?.filter (· ≠ asBytes "..")

/-- `validate_id`, with its messages. -/
def checkId (id : String) : Except String Unit := do
  ensure (id ≠ "" && id.utf8ByteSize ≤ 255) "invalid backup id length"
  ensure (id.toList.head? ≠ some '.' && '/' ∉ id.toList && '\x00' ∉ id.toList)
    ("invalid backup id " ++ id)

/-- `Located`. -/
structure LoadedManifest where
  record : Manifest
  /-- The path of the payload, which takes the place of the record's own. -/
  path : String
  slot : List OsName

/-- `load_manifest`, where the file at the path was read or not.  How a path is written and how a
record is read from JSON are parameters. -/
def loadManifest (lossy : List OsName → String) (parse : String → Except String Manifest)
    (path : List OsName) (file : Except String String) : Except String LoadedManifest := do
  let slot ← required (parent path) "manifest has no parent dir"
  let slotName ← required ((fileName slot).bind fromUtf8) "slot dir name is not UTF-8"
  let raw ← withContext file "read manifest"
  let record ← withContext (parse raw) "parse manifest"
  checkId record.id
  ensure (record.id = slotName)
    ("manifest id " ++ record.id ++ " does not match its slot " ++ slotName)
  .ok ⟨record, lossy (slot ++ [asBytes payloadName]), slot⟩

lemma checkId_eq_ok {id : String} : checkId id = .ok () ↔ validateId id = true := by
  unfold checkId validateId
  rw [then_ok_iff, ensure_eq_ok, ensure_eq_ok]
  simp only [Bool.and_eq_true]
  tauto

/-- A manifest is loaded if and only if it can be read and its id is accepted and names its
directory. -/
theorem loadManifest_eq_ok {lossy : List OsName → String}
    {parse : String → Except String Manifest} {path : List OsName} {file : Except String String}
    {loaded : LoadedManifest} :
    loadManifest lossy parse path file = .ok loaded ↔
      ∃ slot name raw record, parent path = some slot ∧ (fileName slot).bind fromUtf8 = some name ∧
        file = .ok raw ∧ parse raw = .ok record ∧ validateId record.id = true ∧ record.id = name ∧
        loaded = ⟨record, lossy (slot ++ [asBytes payloadName]), slot⟩ := by
  unfold loadManifest
  simp only [chain_ok_iff, required_eq_ok, withContext_eq_ok, ensure_eq_ok, decide_eq_true_eq,
    Except.ok.injEq]
  constructor
  · rintro ⟨slot, hslot, name, hname, raw, hraw, record, hrecord, _, hid, _, heq, hloaded⟩
    exact ⟨slot, name, raw, record, hslot, hname, hraw, hrecord, checkId_eq_ok.mp hid, heq,
      hloaded.symm⟩
  · rintro ⟨slot, name, raw, record, hslot, hname, hraw, hrecord, hid, heq, hloaded⟩
    exact ⟨slot, hslot, name, hname, raw, hraw, record, hrecord, (), checkId_eq_ok.mpr hid, (), heq,
      hloaded.symm⟩

/-! ## The date -/

/-- `format!("{}-{}-{}")`. -/
def spellDate (year month day : List Char) : String :=
  String.ofList (year ++ '-' :: month ++ '-' :: day)

/-- `BackupRecord::date`, by the record's id.  There is no result if a slice panics. -/
def date (id : String) : Option String :=
  match Cut.once (· == '-') id.toList with
  | none => some ""
  | some (ymd, _) =>
    if byteLength ymd = 8 then do
      let year ← slice? 0 4 ymd
      let month ← slice? 4 6 ymd
      let day ← slice? 6 8 ymd
      some (spellDate year month day)
    else some ""

/-- No character of the part before the first hyphen lies across one of the bytes where a part of
eight bytes is cut. -/
def CutsBetweenChars (id : String) : Prop :=
  ∀ ymd rest, Cut.once (· == '-') id.toList = some (ymd, rest) → byteLength ymd = 8 →
    IsBoundary 4 ymd ∧ IsBoundary 6 ymd

lemma isBoundary_zero (s : List Char) : IsBoundary 0 s := ⟨[], s, rfl, rfl⟩

lemma isBoundary_byteLength (s : List Char) : IsBoundary (byteLength s) s :=
  ⟨s, [], (List.append_nil s).symm, rfl⟩

/-- A date is there if and only if it is not cut out of the middle of a character. -/
theorem date_isSome_iff {id : String} : (∃ d, date id = some d) ↔ CutsBetweenChars id := by
  unfold date CutsBetweenChars
  cases h : Cut.once (· == '-') id.toList with
  | none => exact iff_of_true ⟨"", rfl⟩ nofun
  | some parts =>
    obtain ⟨ymd, rest⟩ := parts
    simp only [Option.some.injEq, Prod.mk.injEq, and_imp]
    by_cases hlength : byteLength ymd = 8
    · have hend : IsBoundary 8 ymd := hlength ▸ isBoundary_byteLength ymd
      have hyear := slice?_isSome_iff (show 0 ≤ 4 by decide) (s := ymd)
      have hmonth := slice?_isSome_iff (show 4 ≤ 6 by decide) (s := ymd)
      have hday := slice?_isSome_iff (show 6 ≤ 8 by decide) (s := ymd)
      rw [if_pos hlength]
      constructor
      · rintro ⟨d, hd⟩ ymd' rest' rfl rfl -
        obtain ⟨year, hy, hd⟩ := Option.bind_eq_some_iff.mp hd
        obtain ⟨month, hm, -⟩ := Option.bind_eq_some_iff.mp hd
        exact hmonth.mp ⟨month, hm⟩
      · intro hcut
        obtain ⟨hfour, hsix⟩ := hcut ymd rest rfl rfl hlength
        obtain ⟨year, hy⟩ := hyear.mpr ⟨isBoundary_zero ymd, hfour⟩
        obtain ⟨month, hm⟩ := hmonth.mpr ⟨hfour, hsix⟩
        obtain ⟨day, hd⟩ := hday.mpr ⟨hsix, hend⟩
        exact ⟨spellDate year month day, by rw [hy, hm, hd]; rfl⟩
    · rw [if_neg hlength]
      exact iff_of_true ⟨"", rfl⟩ fun ymd' _ heq _ hlength' => absurd (heq ▸ hlength') hlength

lemma utf8Size_of_isDigit {c : Char} (h : c.isDigit = true) : c.utf8Size = 1 := by
  rw [Char.utf8Size_eq_one_iff]
  simp only [Char.isDigit, Bool.and_eq_true, decide_eq_true_eq] at h
  exact UInt32.le_trans h.2 (by decide)

lemma hyphen_of_isDigit {s : List Char} (h : ∀ c ∈ s, c.isDigit = true) :
    ∀ c ∈ s, (c == '-') = false := by
  intro c hc
  refine beq_eq_false_iff_ne.mpr ?_
  rintro rfl
  exact absurd (h '-' hc) (by decide)

/-- Eight digits before a hyphen spell a date. -/
lemma date_of_digits {id : String} {year month day rest : List Char} (hyear : year.length = 4)
    (hmonth : month.length = 2) (hday : day.length = 2)
    (hdigits : ∀ c ∈ year ++ month ++ day, c.isDigit = true)
    (hid : id.toList = year ++ month ++ day ++ '-' :: rest) :
    date id = some (spellDate year month day) := by
  have hcut : Cut.once (· == '-') id.toList = some (year ++ month ++ day, rest) := by
    rw [hid]
    exact Cut.once_append (hyphen_of_isDigit hdigits) rfl
  have hbytes : ∀ s : List Char, (∀ c ∈ s, c ∈ year ++ month ++ day) → byteLength s = s.length :=
    fun s hs => byteLength_of_ascii fun c hc => utf8Size_of_isDigit (hdigits c (hs c hc))
  have hy : byteLength year = 4 := by rw [hbytes year (by simp +contextual), hyear]
  have hm : byteLength month = 2 := by rw [hbytes month (by simp +contextual), hmonth]
  have hd : byteLength day = 2 := by rw [hbytes day (by simp +contextual), hday]
  have hys : slice? 0 4 (year ++ month ++ day) = some year :=
    slice?_eq_some_iff.mpr ⟨[], month ++ day, by simp, rfl, by simpa using hy⟩
  have hms : slice? 4 6 (year ++ month ++ day) = some month :=
    slice?_eq_some_iff.mpr ⟨year, day, rfl, hy, by rw [byteLength_append, hy, hm]⟩
  have hds : slice? 6 8 (year ++ month ++ day) = some day :=
    slice?_eq_some_iff.mpr ⟨year ++ month, [], by simp, by rw [byteLength_append, hy, hm],
      by rw [byteLength_append, byteLength_append, hy, hm, hd]⟩
  unfold date
  rw [hcut]
  simp only [byteLength_append, hy, hm, hd, Nat.reduceAdd, if_true, hys, hms, hds]
  rfl

/-- The date of a record is there if no character lies across a place where it is cut.  It is the
date that eight digits before a hyphen spell, and empty if the part before the first hyphen has not
eight bytes, or if there is no hyphen. -/
theorem date_of_boundaries {id : String} (hcut : CutsBetweenChars id) :
    ∃ d, date id = some d ∧
      (∀ year month day rest, year.length = 4 → month.length = 2 → day.length = 2 →
        (∀ c ∈ year ++ month ++ day, c.isDigit = true) →
        id.toList = year ++ month ++ day ++ '-' :: rest → d = spellDate year month day) ∧
      ((∀ ymd rest, Cut.once (· == '-') id.toList = some (ymd, rest) → byteLength ymd ≠ 8) →
        d = "") := by
  obtain ⟨d, hd⟩ := date_isSome_iff.mpr hcut
  refine ⟨d, hd, fun year month day rest hyear hmonth hday hdigits hid => ?_, fun hother => ?_⟩
  · have hspelled := date_of_digits hyear hmonth hday hdigits hid
    exact Option.some.inj (hd.symm.trans hspelled)
  · unfold date at hd
    cases h : Cut.once (· == '-') id.toList with
    | none =>
      rw [h] at hd
      exact (Option.some.inj hd).symm
    | some parts =>
      rw [h] at hd
      simp only [if_neg (hother parts.1 parts.2 h)] at hd
      exact (Option.some.inj hd).symm

/-! ## Three ids -/

/-- The record of a shared slot. -/
theorem date_of_shared_slot : date "20260731-041500-thor" = some "2026-07-31" := by
  have hcut : CutsBetweenChars "20260731-041500-thor" := by
    intro ymd rest h _
    obtain ⟨rfl, -⟩ := Prod.mk.inj (Option.some.inj h)
    have hsizes : "20260731".toList.all (·.utf8Size == 1) = true := by decide
    have hascii : ∀ c ∈ "20260731".toList, c.utf8Size = 1 :=
      fun c hc => eq_of_beq (List.all_eq_true.mp hsizes c hc)
    exact ⟨isBoundary_of_ascii (by decide) hascii, isBoundary_of_ascii (by decide) hascii⟩
  obtain ⟨d, hd, hdigits, -⟩ := @date_of_boundaries "20260731-041500-thor" hcut
  rw [hd, hdigits "2026".toList "07".toList "31".toList "041500-thor".toList rfl rfl rfl
    (List.all_eq_true.mp (by decide)) rfl]
  rfl

/-- A manifest that says nothing but its id. -/
def manifestOf (id : String) : Manifest := ⟨id, "service", "web", 0, 0, none⟩

/-- A manifest with an id in a slot of the same name. -/
def loadSlot (id : String) : Except String LoadedManifest :=
  loadManifest (fun _ => "") (fun _ => .ok (manifestOf id))
    [asBytes "pool", asBytes id, asBytes manifestName] (.ok "{}")

/-- A slot is loaded under its own name. -/
lemma loadSlot_eq_ok (id : String) (hid : validateId id = true) (hname : id ≠ "..") :
    ∃ loaded, loadSlot id = .ok loaded ∧ loaded.record.id = id := by
  have hslot : (fileName [asBytes "pool", asBytes id]).bind fromUtf8 = some id := by
    have hne : asBytes id ≠ asBytes ".." := fun h =>
      hname (Option.some.inj ((fromUtf8_asBytes id).symm.trans (h ▸ fromUtf8_asBytes "..")))
    have hkept : fileName [asBytes "pool", asBytes id] = some (asBytes id) :=
      Option.filter_eq_some_iff.mpr ⟨rfl, decide_eq_true hne⟩
    rw [hkept]
    exact fromUtf8_asBytes id
  exact ⟨_, loadManifest_eq_ok.mpr ⟨_, id, "{}", manifestOf id, rfl, hslot, rfl, rfl, hid,
    rfl, rfl⟩,
    rfl⟩

/-- A manifest is listed whose id is cut in the middle of a character, which panics, and one whose
id is eight digits and no hyphen, which has no date. -/
theorem listed_without_date :
    (∃ loaded, loadSlot "aaaéaaa-1" = .ok loaded ∧ date loaded.record.id = none) ∧
      ∃ loaded, loadSlot "20260731" = .ok loaded ∧ date loaded.record.id = some "" := by
  obtain ⟨across, hacross, hid⟩ := loadSlot_eq_ok "aaaéaaa-1" (by decide) (by decide)
  obtain ⟨digits, hdigits, hid'⟩ := loadSlot_eq_ok "20260731" (by decide) (by decide)
  exact ⟨⟨across, hacross, by rw [hid]; decide⟩, ⟨digits, hdigits, by rw [hid']; decide⟩⟩

end Orca.Backup
