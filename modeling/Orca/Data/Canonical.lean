import Mathlib.Data.List.Sort
import Mathlib.Data.String.Basic
import Orca.Data.Value

/-!
# Canonical JSON

The model of `canonicalize` of `system/src/mesh/caller_token.rs`, which sorts the keys of every
object in a value, so that a digest of the value does not depend on the order they came in.

A `serde_json::Value` has one entry for each key of an object, and only negative numbers are kept as
`NegInt`; `Json.isProper` says so, and `JsonValue` is the type of such values.  The result is
`canonicalize_eq_iff`: on these values, equal canonical forms and equality as JSON values are the
same.
-/

namespace Orca

namespace Json

/-! ## Values as the library keeps them -/

mutual

/-- The value is one the library can hold: an object has one entry for each of its keys, and only
negative numbers are `NegInt`. -/
def isProper : Json → Bool
  | number (.negInt i) => decide (i < 0)
  | array elems => isProperItems elems
  | object entries => decide (entries.map Prod.fst).Nodup && isProperEntries entries
  | _ => true

/-- The elements of an array are such values. -/
def isProperItems : List Json → Bool
  | [] => true
  | v :: vs => isProper v && isProperItems vs

/-- The values in an object are such values. -/
def isProperEntries : List (String × Json) → Bool
  | [] => true
  | (_, v) :: rest => isProper v && isProperEntries rest

end

/-! ## Sorting the keys -/

/-- The order of the entries of a canonical object. -/
def keyLe (a b : String × Json) : Prop := a.1 ≤ b.1

instance : DecidableRel keyLe := fun a b => inferInstanceAs (Decidable (a.1 ≤ b.1))

instance : Std.Total keyLe := ⟨fun a b => le_total a.1 b.1⟩

instance : IsTrans (String × Json) keyLe := ⟨fun _ _ _ => le_trans⟩

mutual

/-- `canonicalize`. -/
def canonicalize : Json → Json
  | object entries => object ((canonicalizeEntries entries).insertionSort keyLe)
  | array items => array (canonicalizeItems items)
  | other => other

/-- The elements of an array, each canonicalized. -/
def canonicalizeItems : List Json → List Json
  | [] => []
  | v :: vs => canonicalize v :: canonicalizeItems vs

/-- The entries of an object, each value canonicalized. -/
def canonicalizeEntries : List (String × Json) → List (String × Json)
  | [] => []
  | (k, v) :: rest => (k, canonicalize v) :: canonicalizeEntries rest

end

lemma canonicalizeEntries_eq_map (entries : List (String × Json)) :
    canonicalizeEntries entries = entries.map fun e => (e.1, canonicalize e.2) := by
  induction entries with
  | nil => rfl
  | cons e rest ih =>
    obtain ⟨k, v⟩ := e
    rw [canonicalizeEntries, ih, List.map_cons]

lemma isProperEntries_iff {entries : List (String × Json)} :
    isProperEntries entries = true ↔ ∀ e ∈ entries, isProper e.2 = true := by
  induction entries with
  | nil => simp [isProperEntries]
  | cons e rest ih =>
    obtain ⟨k, v⟩ := e
    simp [isProperEntries, ih]

/-- What is found under a key of an object is its entry. -/
lemma lookup_eq_some_iff_mem {entries : List (String × Json)}
    (hnodup : (entries.map Prod.fst).Nodup) {k : String} {v : Json} :
    entries.lookup k = some v ↔ (k, v) ∈ entries := by
  rw [List.lookup_eq_some_iff]
  constructor
  · rintro ⟨before, after, rfl, -⟩
    simp
  · intro hmem
    obtain ⟨before, after, rfl⟩ := List.append_of_mem hmem
    rw [List.map_append, List.map_cons, List.nodup_append] at hnodup
    refine ⟨before, after, rfl, fun e he => bne_iff_ne.mpr fun heq => ?_⟩
    exact hnodup.2.2 e.1 (List.mem_map_of_mem he) k List.mem_cons_self heq.symm

/-- Every entry of the first object is found in the second, with an equal value. -/
lemma eqvEntries_iff {as bs : List (String × Json)} :
    eqvEntries as bs = true ↔
      ∀ e ∈ as, ∃ w, bs.lookup e.1 = some w ∧ eqv e.2 w = true := by
  induction as with
  | nil => simp [eqvEntries]
  | cons e rest ih =>
    obtain ⟨k, v⟩ := e
    rw [eqvEntries, Bool.and_eq_true, ih, List.forall_mem_cons]
    refine and_congr_left fun _ => ?_
    cases bs.lookup k with
    | none => simp
    | some w => simp

mutual

/-- The canonical form is again a value the library can hold. -/
theorem isProper_canonicalize : ∀ {v : Json}, isProper v = true → isProper (canonicalize v) = true
  | .null, _ => rfl
  | .bool _, _ => rfl
  | .number _, h => h
  | .string _, _ => rfl
  | .array items, h => by
    rw [isProper] at h
    rw [canonicalize, isProper]
    exact isProperItems_canonicalizeItems h
  | .object entries, h => by
    rw [isProper, Bool.and_eq_true, decide_eq_true_eq] at h
    rw [canonicalize, isProper, Bool.and_eq_true, decide_eq_true_eq]
    have hperm := List.perm_insertionSort keyLe (canonicalizeEntries entries)
    constructor
    · rw [(hperm.map Prod.fst).nodup_iff, canonicalizeEntries_eq_map, List.map_map]
      exact h.1
    · rw [isProperEntries_iff]
      intro e he
      exact isProperEntries_iff.mp (isProperEntries_canonicalizeEntries h.2) e
        (hperm.mem_iff.mp he)

/-- So are the elements of a canonical array. -/
theorem isProperItems_canonicalizeItems : ∀ {items : List Json}, isProperItems items = true →
    isProperItems (canonicalizeItems items) = true
  | [], _ => rfl
  | v :: vs, h => by
    rw [isProperItems, Bool.and_eq_true] at h
    rw [canonicalizeItems, isProperItems, Bool.and_eq_true]
    exact ⟨isProper_canonicalize h.1, isProperItems_canonicalizeItems h.2⟩

/-- So are the values in a canonical object. -/
theorem isProperEntries_canonicalizeEntries : ∀ {entries : List (String × Json)},
    isProperEntries entries = true → isProperEntries (canonicalizeEntries entries) = true
  | [], _ => rfl
  | (k, v) :: rest, h => by
    rw [isProperEntries, Bool.and_eq_true] at h
    rw [canonicalizeEntries, isProperEntries, Bool.and_eq_true]
    exact ⟨isProper_canonicalize h.1, isProperEntries_canonicalizeEntries h.2⟩

end

/-! ## Equal canonical forms -/

/-- Objects with distinct keys are sorted alike exactly if they have the same entries. -/
lemma insertionSort_eq_iff_perm {as bs : List (String × Json)} (has : (as.map Prod.fst).Nodup) :
    as.insertionSort keyLe = bs.insertionSort keyLe ↔ as.Perm bs := by
  constructor
  · intro h
    exact (List.perm_insertionSort keyLe as).symm.trans (h ▸ List.perm_insertionSort keyLe bs)
  · intro hperm
    refine List.Perm.eq_of_pairwise (fun a b ha hb (hab : keyLe a b) (hba : keyLe b a) => ?_)
      (List.pairwise_insertionSort keyLe as) (List.pairwise_insertionSort keyLe bs)
      ((List.perm_insertionSort keyLe as).trans
        (hperm.trans (List.perm_insertionSort keyLe bs).symm))
    -- two entries that come before each other have one key, and so are one entry
    have hkey : a.1 = b.1 := le_antisymm hab hba
    have hb' : b ∈ as := hperm.mem_iff.mpr ((List.mem_insertionSort keyLe).mp hb)
    exact List.inj_on_of_nodup_map has ((List.mem_insertionSort keyLe).mp ha) hb' hkey

/-- Two objects have the same canonical entries exactly if they have as many, and each entry of the
first is found in the second with the same canonical form. -/
lemma canonicalizeEntries_perm_iff {as bs : List (String × Json)}
    (has : (as.map Prod.fst).Nodup) (hbs : (bs.map Prod.fst).Nodup) :
    (canonicalizeEntries as).Perm (canonicalizeEntries bs) ↔
      as.length = bs.length ∧
        ∀ e ∈ as, ∃ w, bs.lookup e.1 = some w ∧ canonicalize e.2 = canonicalize w := by
  rw [canonicalizeEntries_eq_map, canonicalizeEntries_eq_map]
  constructor
  · intro hperm
    refine ⟨by simpa using hperm.length_eq, fun e he => ?_⟩
    obtain ⟨e', he', heq⟩ := List.mem_map.mp (hperm.mem_iff.mp (List.mem_map_of_mem he))
    rw [Prod.mk.injEq] at heq
    refine ⟨e'.2, (lookup_eq_some_iff_mem hbs).mpr ?_, heq.2.symm⟩
    rw [← heq.1]
    exact he'
  · rintro ⟨hlength, hfound⟩
    have hnodup : (as.map fun e => (e.1, canonicalize e.2)).Nodup := by
      refine List.Nodup.of_map Prod.fst ?_
      rw [List.map_map]
      exact has
    refine (List.subperm_of_subset hnodup fun x hx => ?_).perm_of_length_le (by simp [hlength])
    obtain ⟨e, he, rfl⟩ := List.mem_map.mp hx
    obtain ⟨w, hw, heq⟩ := hfound e he
    exact List.mem_map.mpr ⟨(e.1, w), (lookup_eq_some_iff_mem hbs).mp hw, by rw [heq]⟩

mutual

/-- **Canonical forms decide equality.**  Two values have one canonical form exactly if they are
equal as JSON values. -/
theorem canonicalize_eq_iff : ∀ {v w : Json}, isProper v = true → isProper w = true →
    (canonicalize v = canonicalize w ↔ eqv v w = true)
  | .null, w, _, _ => by cases w <;> simp [canonicalize, eqv]
  | .bool _, w, _, _ => by cases w <;> simp [canonicalize, eqv]
  | .number _, w, _, _ => by cases w <;> simp [canonicalize, eqv]
  | .string _, w, _, _ => by cases w <;> simp [canonicalize, eqv]
  | .array as, w, hv, hw => by
    cases w with
    | array bs =>
      rw [isProper] at hv hw
      rw [canonicalize, canonicalize, array.injEq, eqv]
      exact canonicalizeItems_eq_iff hv hw
    | _ => simp [canonicalize, eqv]
  | .object as, w, hv, hw => by
    cases w with
    | object bs =>
      rw [isProper, Bool.and_eq_true, decide_eq_true_eq] at hv hw
      have hkeys : ((canonicalizeEntries as).map Prod.fst).Nodup := by
        rw [canonicalizeEntries_eq_map, List.map_map]
        exact hv.1
      rw [canonicalize, canonicalize, object.injEq, insertionSort_eq_iff_perm hkeys,
        canonicalizeEntries_perm_iff hv.1 hw.1, eqv, Bool.and_eq_true, beq_iff_eq, eqvEntries_iff]
      refine and_congr_right fun _ => forall₂_congr fun e he => exists_congr fun w =>
        and_congr_right fun hlookup => ?_
      have hproper := isProperEntries_iff.mp hw.2 _ ((lookup_eq_some_iff_mem hw.1).mp hlookup)
      exact canonicalizeEntries_eq_iff as hv.2 e he hproper
    | _ => simp [canonicalize, eqv]

/-- Two arrays have one canonical form exactly if their elements are equal one by one. -/
theorem canonicalizeItems_eq_iff : ∀ {as bs : List Json}, isProperItems as = true →
    isProperItems bs = true → (canonicalizeItems as = canonicalizeItems bs ↔ eqvList as bs = true)
  | [], bs, _, _ => by cases bs <;> simp [canonicalizeItems, eqvList]
  | _ :: _, [], _, _ => by simp [canonicalizeItems, eqvList]
  | a :: as, b :: bs, has, hbs => by
    rw [isProperItems, Bool.and_eq_true] at has hbs
    rw [canonicalizeItems, canonicalizeItems, List.cons.injEq, eqvList, Bool.and_eq_true,
      canonicalize_eq_iff has.1 hbs.1, canonicalizeItems_eq_iff has.2 hbs.2]

/-- The value of an entry and another value have one canonical form exactly if they are equal. -/
theorem canonicalizeEntries_eq_iff : ∀ (as : List (String × Json)), isProperEntries as = true →
    ∀ e ∈ as, ∀ {w : Json}, isProper w = true →
      (canonicalize e.2 = canonicalize w ↔ eqv e.2 w = true)
  | [], _ => fun _ he => absurd he List.not_mem_nil
  | (k, v) :: rest, hentries => fun e he w hw => by
    rw [isProperEntries, Bool.and_eq_true] at hentries
    by_cases heq : e = (k, v)
    · rw [heq]
      exact canonicalize_eq_iff hentries.1 hw
    · have hrest : e ∈ rest := (List.mem_cons.mp he).resolve_left heq
      exact canonicalizeEntries_eq_iff rest hentries.2 e hrest hw

end

end Json

/-- A `serde_json::Value`. -/
abbrev JsonValue := {v : Json // v.isProper = true}

end Orca
