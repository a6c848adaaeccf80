import Mathlib.Tactic.NormNum
import Orca.OpenApi.Readings

/-!
# Where lowering changes what a schema accepts

Each rule of the lowering is right for its own keyword, but some of them overwrite a keyword that
another one needs: a `const` overwrites the `enum`, a numeric exclusive bound the inclusive one, and
`nullable` says nothing in 3.1 and adds null in 3.0.  In the other direction, 3.0 has no null type,
and a boolean exclusive bound says nothing in 3.1.

`NoGap` says of a schema that none of these differences lets an instance in or out, and
`lowering_preserves_iff` that this is exactly when the schema accepts the same before and after.
-/

namespace Orca.OpenApi

/-! ## What the keywords accept once they are lowered -/

/-- `type` has a null among its names. -/
def NullListed (m : JsonMap) : Prop :=
  ∃ types, m.lookup "type" = some (.array types) ∧ types.any isNullName = true

/-- What the lowered `type` accepts. -/
def typeKeeps (m : JsonMap) (i : Instance) : Prop :=
  i ≠ .null ∧ typeAccepts31 m i ∨
    i = .null ∧ (m.lookup "type" = none ∨ Nullable m ∨ NullListed m)

/-- What the lowered keywords of one side accept. -/
def rangeKeeps (side : Side) (m : JsonMap) (i : Instance) : Prop :=
  ∀ q, i = .number q →
    match m.lookup side.exclusive with
    | some (.number e) => side.Beyond e q
    | excl => ∀ n, m.lookup side.bound = some (.number n) →
        side.Within n q ∧ (excl = some (.bool true) → q ≠ numberToRat n)

/-- What the lowered `enum` accepts. -/
def enumKeeps (m : JsonMap) (i : Instance) : Prop :=
  match m.lookup "const" with
  | some c => toInstance c = i
  | none => enumAccepts m i

/-- The other side of a range. -/
def Side.other : Side → Side
  | .lower => .upper
  | .upper => .lower

/-- No instance is let in or out by the lowering. -/
structure NoGap (m : JsonMap) : Prop where
  /-- A null that only `nullable` lets in is none of the listed values. -/
  nullable : Nullable m → m.lookup "type" ≠ none → ¬typeAccepts31 m .null → ¬enumKeeps m .null
  /-- Where null is the only type and is not let in by `nullable`, it is no listed value. -/
  nullType : m.lookup "type" = some (.string "null") → ¬Nullable m →
    ¬(enumAccepts m .null ∧ constAccepts m .null)
  /-- A constant that is not one of the listed values is out of range or of another type. -/
  const : ∀ c, m.lookup "const" = some c → ¬enumAccepts m (toInstance c) →
    ¬(typeKeeps m (toInstance c) ∧ ∀ side, rangeKeeps side m (toInstance c))
  /-- A number between an exclusive bound and an inclusive one is kept out by another keyword. -/
  between : ∀ (side : Side) e n q, m.lookup side.exclusive = some (.number e) →
    m.lookup side.bound = some (.number n) → side.Beyond e q → ¬side.Within n q →
    ¬(typeAccepts31 m (.number q) ∧ rangeKeeps side.other m (.number q) ∧
      enumKeeps m (.number q))
  /-- A bound with a flag is kept out by another keyword. -/
  flag : ∀ (side : Side) n, m.lookup side.exclusive = some (.bool true) →
    m.lookup side.bound = some (.number n) →
    ¬(typeAccepts31 m (.number (numberToRat n)) ∧
      rangeAccepts31 side.other m (.number (numberToRat n)) ∧
      enumAccepts m (.number (numberToRat n)) ∧ constAccepts m (.number (numberToRat n)))

variable {m m' : JsonMap} {i : Instance} {side : Side}

/-! ## The gaps of each keyword -/

/-- The null type accepts null only. -/
lemma names_of_isNullName {t : Json} (ht : isNullName t = true) : Names t i ↔ i = .null := by
  have hname : t = .string "null" := by
    unfold isNullName at ht
    split at ht
    · rfl
    · cases ht
  constructor
  · rintro ⟨name, hstring, htype⟩
    rw [hname] at hstring
    obtain rfl := Json.string.inj hstring
    cases i <;> simp_all [hasType]
  · rintro rfl
    exact ⟨"null", hname, rfl⟩

lemma isNullName_of_names {t : Json} (h : Names t .null) : isNullName t = true := by
  obtain ⟨name, rfl, htype⟩ := h
  obtain rfl : name = "null" := htype
  rfl

/-- Null is accepted by no type, the null type, or an array that lists it. -/
lemma typeAccepts31_null_iff : typeAccepts31 m .null ↔
    m.lookup "type" = none ∨ m.lookup "type" = some (.string "null") ∨ NullListed m := by
  unfold typeAccepts31 NullListed
  split
  · rename_i hnone
    exact iff_of_true trivial (Or.inl hnone)
  · rename_i types htypes
    rw [htypes]
    constructor
    · rintro ⟨t, ht, hnames⟩
      exact Or.inr (Or.inr ⟨types, rfl, List.any_eq_true.mpr ⟨t, ht, isNullName_of_names hnames⟩⟩)
    · rintro (hnone | hstring | ⟨types', harray, hany⟩)
      · cases hnone
      · cases hstring
      · obtain rfl := Json.array.inj (Option.some.inj harray)
        obtain ⟨t, ht, hnull⟩ := List.any_eq_true.mp hany
        exact ⟨t, ht, (names_of_isNullName hnull).mpr rfl⟩
  · rename_i t hnot ht
    rw [ht]
    constructor
    · rintro ⟨name, rfl, htype⟩
      obtain rfl : name = "null" := htype
      exact Or.inr (Or.inl rfl)
    · rintro (hnone | hstring | ⟨types, harray, -⟩)
      · cases hnone
      · obtain rfl := Option.some.inj hstring
        exact ⟨"null", rfl, rfl⟩
      · exact absurd (Option.some.inj harray) (hnot types)

lemma typeKeeps_of_ne (h : i ≠ .null) : typeKeeps m i ↔ typeAccepts31 m i := by
  unfold typeKeeps
  constructor
  · rintro (⟨-, htype⟩ | ⟨hnull, -⟩)
    · exact htype
    · exact absurd hnull h
  · exact fun htype => Or.inl ⟨h, htype⟩

/-- Whether the lowered `type` accepts null. -/
lemma typeKeeps_null_iff :
    typeKeeps m .null ↔ m.lookup "type" = none ∨ Nullable m ∨ NullListed m := by
  unfold typeKeeps
  constructor
  · rintro (⟨hne, -⟩ | ⟨-, h⟩)
    · exact absurd rfl hne
    · exact h
  · exact fun h => Or.inr ⟨rfl, h⟩

lemma range_null (side : Side) : rangeAccepts31 side m .null ∧ rangeKeeps side m .null := by
  constructor
  · intro q hq
    cases hq
  · intro q hq
    cases hq

/-- What a side lets out by the lowering is a bound with a flag. -/
lemma flag_of_range (h31 : rangeAccepts31 side m i) (hkeeps : ¬rangeKeeps side m i) :
    ∃ n, m.lookup side.exclusive = some (.bool true) ∧ m.lookup side.bound = some (.number n) ∧
      i = .number (numberToRat n) := by
  unfold rangeKeeps at hkeeps
  push Not at hkeeps
  obtain ⟨q, rfl, hkeeps⟩ := hkeeps
  obtain ⟨hbound, hexcl⟩ := h31 q rfl
  split at hkeeps
  · rename_i e he
    exact absurd (hexcl e he) hkeeps
  · by_contra hnone
    refine hkeeps fun n hn => ⟨hbound n hn, fun hflag hq => ?_⟩
    exact hnone ⟨n, hflag, hn, by rw [hq]⟩

/-- What a side lets in by the lowering is a number between the two bounds. -/
lemma between_of_range (hkeeps : rangeKeeps side m i) (h31 : ¬rangeAccepts31 side m i) :
    ∃ e n q, m.lookup side.exclusive = some (.number e) ∧
      m.lookup side.bound = some (.number n) ∧ i = .number q ∧ side.Beyond e q ∧
        ¬side.Within n q := by
  unfold rangeAccepts31 at h31
  push Not at h31
  obtain ⟨q, rfl, h31⟩ := h31
  have hkeeps := hkeeps q rfl
  split at hkeeps
  · rename_i e he
    by_contra hnone
    obtain ⟨e', he', hnot⟩ := h31 fun n hn => by
      by_contra hwithin
      exact hnone ⟨e, n, q, he, hn, rfl, hkeeps, hwithin⟩
    rw [he] at he'
    obtain rfl := Json.number.inj (Option.some.inj he')
    exact hnot hkeeps
  · rename_i hnot
    obtain ⟨e, he, -⟩ := h31 fun n hn => (hkeeps n hn).1
    exact absurd he (hnot e)

/-- What the listed values and the constant accept, the lowered values do. -/
lemma enumKeeps_of_accepts (henum : enumAccepts m i) (hconst : constAccepts m i) :
    enumKeeps m i := by
  unfold enumKeeps
  split
  · rename_i c hc
    exact hconst c hc
  · exact henum

/-- What the lowered values let in is a constant that is not one of the listed values. -/
lemma const_of_enum (hkeeps : enumKeeps m i) (h31 : ¬(enumAccepts m i ∧ constAccepts m i)) :
    ∃ c, m.lookup "const" = some c ∧ i = toInstance c ∧ ¬enumAccepts m (toInstance c) := by
  unfold enumKeeps at hkeeps
  split at hkeeps
  · rename_i c hc
    refine ⟨c, hc, hkeeps.symm, fun henum => h31 ⟨hkeeps ▸ henum, fun c' hc' => ?_⟩⟩
    rw [hc] at hc'
    rw [← Option.some.inj hc']
    exact hkeeps
  · rename_i hnone
    refine absurd ⟨hkeeps, fun c hc => ?_⟩ h31
    rw [hnone] at hc
    cases hc

/-! ## All keywords together -/

lemma Side.forall_iff {P : Side → Prop} (side : Side) : (∀ s, P s) ↔ P side ∧ P side.other := by
  constructor
  · exact fun h => ⟨h side, h side.other⟩
  · rintro ⟨hside, hother⟩ s
    cases side <;> cases s <;> assumption

/-- What the lowered keywords accept together. -/
structure Keeps (m : JsonMap) (i : Instance) : Prop where
  type : typeKeeps m i
  range : ∀ side, rangeKeeps side m i
  /-- It is one of the listed values. -/
  enum : enumKeeps m i

/-- Without a gap, what is accepted before is accepted after. -/
lemma NoGap.keeps (hgap : NoGap m) (h : Accepts31 m i) : Keeps m i := by
  refine ⟨?_, fun side => ?_, enumKeeps_of_accepts h.enum h.const⟩
  · by_cases hnull : i = .null
    · subst hnull
      rw [typeKeeps_null_iff]
      rcases typeAccepts31_null_iff.mp h.type with hnone | hstring | hlisted
      · exact Or.inl hnone
      · by_contra hnot
        exact hgap.nullType hstring (fun hset => hnot (Or.inr (Or.inl hset))) ⟨h.enum, h.const⟩
      · exact Or.inr (Or.inr hlisted)
    · exact (typeKeeps_of_ne hnull).mpr h.type
  · by_contra hnot
    obtain ⟨n, hexcl, hbound, rfl⟩ := flag_of_range (h.range side) hnot
    exact hgap.flag side n hexcl hbound ⟨h.type, h.range side.other, h.enum, h.const⟩

/-- Without a gap, what is accepted after is accepted before. -/
lemma NoGap.accepts (hgap : NoGap m) (h : Keeps m i) : Accepts31 m i := by
  have hvalues : enumAccepts m i ∧ constAccepts m i := by
    by_contra hnot
    obtain ⟨c, hc, rfl, houtside⟩ := const_of_enum h.enum hnot
    exact hgap.const c hc houtside ⟨h.type, h.range⟩
  refine ⟨?_, fun side => ?_, hvalues.1, hvalues.2⟩
  · by_cases hnull : i = .null
    · subst hnull
      by_contra hnot
      rcases typeKeeps_null_iff.mp h.type with hnone | hset | hlisted
      · exact hnot (typeAccepts31_null_iff.mpr (Or.inl hnone))
      · refine hgap.nullable hset (fun hnone => ?_) hnot h.enum
        exact hnot (typeAccepts31_null_iff.mpr (Or.inl hnone))
      · exact hnot (typeAccepts31_null_iff.mpr (Or.inr (Or.inr hlisted)))
    · exact (typeKeeps_of_ne hnull).mp h.type
  · by_contra hnot
    obtain ⟨e, n, q, hexcl, hbound, rfl, hbeyond, houtside⟩ := between_of_range (h.range side) hnot
    have htype : typeAccepts31 m (.number q) := (typeKeeps_of_ne (by simp)).mp h.type
    exact hgap.between side e n q hexcl hbound hbeyond houtside
      ⟨htype, h.range side.other, h.enum⟩

/-- Where the same is accepted before and after, there is no gap. -/
lemma noGap_of_same (h : ∀ i, Accepts31 m i ↔ Keeps m i) : NoGap m := by
  constructor
  · intro hset _ hnot henum
    have hkeeps : Keeps m .null :=
      ⟨typeKeeps_null_iff.mpr (Or.inr (Or.inl hset)), fun side => (range_null side).2, henum⟩
    exact hnot ((h .null).mpr hkeeps).type
  · rintro hstring hunset ⟨henum, hconst⟩
    have haccepts : Accepts31 m .null :=
      ⟨typeAccepts31_null_iff.mpr (Or.inr (Or.inl hstring)), fun side => (range_null side).1, henum,
        hconst⟩
    rcases typeKeeps_null_iff.mp ((h .null).mp haccepts).type with hnone | hset | ⟨types, harray, -⟩
    · rw [hstring] at hnone
      cases hnone
    · exact hunset hset
    · rw [hstring] at harray
      cases harray
  · rintro c hc houtside ⟨htype, hrange⟩
    have henum : enumKeeps m (toInstance c) := by
      unfold enumKeeps
      rw [hc]
    exact houtside ((h _).mpr ⟨htype, hrange, henum⟩).enum
  · rintro side e n q hexcl hbound hbeyond houtside ⟨htype, hother, henum⟩
    have hside : rangeKeeps side m (.number q) := by
      intro q' hq
      rw [hexcl, ← Instance.number.inj hq]
      exact hbeyond
    have hkeeps : Keeps m (.number q) :=
      ⟨(typeKeeps_of_ne (by simp)).mpr htype, (Side.forall_iff side).mpr ⟨hside, hother⟩, henum⟩
    exact houtside ((((h _).mpr hkeeps).range side q rfl).1 n hbound)
  · rintro side n hexcl hbound ⟨htype, hother, henum, hconst⟩
    have hside : rangeAccepts31 side m (.number (numberToRat n)) := by
      intro q hq
      rw [← Instance.number.inj hq]
      refine ⟨fun n' hn' => ?_, fun e he => ?_⟩
      · rw [hbound] at hn'
        rw [← Json.number.inj (Option.some.inj hn')]
        cases side <;> exact le_refl _
      · rw [hexcl] at he
        cases he
    have haccepts : Accepts31 m (.number (numberToRat n)) :=
      ⟨htype, (Side.forall_iff side).mpr ⟨hside, hother⟩, henum, hconst⟩
    have hkeeps := ((h _).mp haccepts).range side _ rfl
    rw [hexcl] at hkeeps
    exact (hkeeps n hbound).2 rfl rfl

/-! ## The rules, keyword by keyword -/

variable {pointer : String} {s s' : JsonMap × Lowering}

/-- Whether a type of 3.0 accepts null. -/
lemma typeAccepts30_null_iff :
    typeAccepts30 m .null ↔ m.lookup "type" = none ∨ Nullable m := by
  unfold typeAccepts30
  split
  · rename_i hnone
    exact iff_of_true trivial (Or.inl hnone)
  · rename_i t ht
    rw [ht]
    constructor
    · rintro (⟨-, hne⟩ | ⟨hset, -⟩)
      · exact absurd rfl hne
      · exact Or.inr hset
    · rintro (hnone | hset)
      · cases hnone
      · exact Or.inr ⟨hset, rfl⟩

/-- What a type of 3.0 accepts besides null. -/
lemma typeAccepts30_of_ne (h : i ≠ .null) :
    typeAccepts30 m i ↔ ∀ t, m.lookup "type" = some t → Names t i := by
  unfold typeAccepts30
  split
  · rename_i hnone
    refine iff_of_true trivial fun t ht => ?_
    rw [hnone] at ht
    cases ht
  · rename_i t ht
    rw [ht]
    constructor
    · rintro (⟨hnames, -⟩ | ⟨-, hnull⟩) t' ht'
      · rw [← Option.some.inj ht']
        exact hnames
      · exact absurd hnull h
    · exact fun hnames => Or.inl ⟨hnames t rfl, h⟩

/-- Whether the lowered type accepts null. -/
lemma null_lowerType_iff (h : lowerType pointer s = .ok s') :
    typeAccepts30 s'.1 .null ↔ typeKeeps s.1 .null := by
  rw [typeAccepts30_null_iff, typeKeeps_null_iff]
  rcases lowerType_eq_ok h with ⟨hsame, hempty⟩ | ⟨kept, htype, hkept, hmap⟩ |
    ⟨types, kept, htype, hany, -, hmap⟩
  · have hnot : ¬NullListed s.1 := by
      rintro ⟨types, htypes, hany⟩
      rw [hempty types htypes] at hany
      cases hany
    rw [hsame, or_iff_left hnot]
  · have hnot : ¬NullListed s.1 := by
      rintro ⟨types, htypes, hany⟩
      rw [htype] at htypes
      rw [← Json.array.inj (Option.some.inj htypes), List.any_cons, hkept] at hany
      cases hany
    have hset : Nullable s'.1 ↔ Nullable s.1 := by
      unfold Nullable
      rw [hmap, lookup_insertEntry, if_neg (by decide)]
    rw [or_iff_left hnot, hset, hmap, lookup_insertEntry, if_pos rfl, htype]
    simp
  · have hset : Nullable s'.1 := by
      unfold Nullable
      rw [hmap, lookup_insertEntry, if_pos rfl]
    exact iff_of_true (Or.inr hset) (Or.inr (Or.inr ⟨types, htype, hany⟩))

/-- What the lowered type accepts besides null. -/
lemma lowerType_iff_of_ne (h : lowerType pointer s = .ok s') (hne : i ≠ .null) :
    typeAccepts30 s'.1 i ↔ typeAccepts31 s.1 i := by
  rw [typeAccepts30_of_ne hne]
  unfold typeAccepts31
  rcases lowerType_eq_ok h with ⟨hsame, hempty⟩ | ⟨kept, htype, -, hmap⟩ |
    ⟨types, kept, htype, -, hkept, hmap⟩
  · rw [hsame]
    split
    · rename_i hnone
      rw [hnone]
      simp
    · rename_i types htypes
      rw [htypes, hempty types htypes]
      refine iff_of_false (fun hall => ?_) (by simp)
      obtain ⟨name, hname, -⟩ := hall _ rfl
      cases hname
    · rename_i t _ ht
      rw [ht]
      simp
  · rw [hmap, lookup_insertEntry, if_pos rfl, htype]
    simp
  · have hkind : s'.1.lookup "type" = some kept := by
      rw [hmap, lookup_insertEntry, if_neg (by decide), lookup_insertEntry, if_pos rfl]
    rw [hkind, htype]
    have hin : kept ∈ types.filter fun t => !isNullName t := by
      rw [hkept]
      exact List.mem_cons_self
    constructor
    · exact fun hall => ⟨kept, (List.mem_filter.mp hin).1, hall kept rfl⟩
    · rintro ⟨t, ht, hnames⟩ t' ht'
      rw [← Option.some.inj ht']
      cases hnull : isNullName t with
      | true => exact absurd ((names_of_isNullName hnull).mp hnames) hne
      | false =>
        have hrest : t ∈ types.filter fun t => !isNullName t := by
          refine List.mem_filter.mpr ⟨ht, ?_⟩
          rw [hnull]
          rfl
        rw [hkept] at hrest
        rw [← List.mem_singleton.mp hrest]
        exact hnames

/-- What the lowered `type` accepts is what `typeKeeps` says. -/
lemma typeAccepts30_lowerType (h : lowerType pointer s = .ok s') (i : Instance) :
    typeAccepts30 s'.1 i ↔ typeKeeps s.1 i := by
  by_cases hnull : i = .null
  · rw [hnull]
    exact null_lowerType_iff h
  · rw [lowerType_iff_of_ne h hnull, typeKeeps_of_ne hnull]

/-- Under a numeric exclusive bound, the range is what is beyond it. -/
lemma rangeKeeps_of_number {e : JsonNumber} (he : m.lookup side.exclusive = some (.number e)) :
    rangeKeeps side m i ↔ ∀ q, i = .number q → side.Beyond e q := by
  unfold rangeKeeps
  rw [he]

lemma rangeKeeps_of_ne (hnot : ∀ e, m.lookup side.exclusive ≠ some (.number e)) :
    rangeKeeps side m i ↔ rangeAccepts30 side m i := by
  unfold rangeKeeps rangeAccepts30
  refine forall₂_congr fun q _ => ?_
  split
  · rename_i e he
    exact absurd he (hnot e)
  · exact Iff.rfl

/-- What the lowered bounds of a side accept is what `rangeKeeps` says. -/
lemma rangeAccepts30_lowerExclusive (pointer : String) (s : JsonMap × Lowering) (side : Side)
    (i : Instance) :
    rangeAccepts30 side (lowerExclusive pointer side.exclusive side.bound s).1 i ↔
      rangeKeeps side s.1 i := by
  have hne : side.bound ≠ side.exclusive := by cases side <;> decide
  by_cases hnumber : ∃ e, s.1.lookup side.exclusive = some (.number e)
  · obtain ⟨e, he⟩ := hnumber
    rw [lowerExclusive_of_number he, rangeKeeps_of_number he]
    unfold rangeAccepts30
    rw [lookup_insertEntry, if_neg hne, lookup_insertEntry, if_pos rfl, lookup_insertEntry,
      if_pos rfl]
    refine forall₂_congr fun q _ => ?_
    constructor
    · intro hall
      obtain ⟨hwithin, hstrict⟩ := hall e rfl
      exact ⟨hwithin, hstrict rfl⟩
    · rintro ⟨hwithin, hstrict⟩ n hn
      rw [← Json.number.inj (Option.some.inj hn)]
      exact ⟨hwithin, fun _ => hstrict⟩
  · have hnot : ∀ e, s.1.lookup side.exclusive ≠ some (.number e) := fun e he =>
      hnumber ⟨e, he⟩
    rw [lowerExclusive_eq_self hnot, rangeKeeps_of_ne hnot]

lemma rangeAccepts30_congr (hbound : m.lookup side.bound = m'.lookup side.bound)
    (hexcl : m.lookup side.exclusive = m'.lookup side.exclusive) (i : Instance) :
    rangeAccepts30 side m i ↔ rangeAccepts30 side m' i := by
  unfold rangeAccepts30
  rw [hbound, hexcl]

lemma rangeKeeps_congr (hbound : m.lookup side.bound = m'.lookup side.bound)
    (hexcl : m.lookup side.exclusive = m'.lookup side.exclusive) (i : Instance) :
    rangeKeeps side m i ↔ rangeKeeps side m' i := by
  unfold rangeKeeps
  rw [hbound, hexcl]

/-- What the lowered values accept is what `enumKeeps` says. -/
lemma enumAccepts_lowerConst (pointer : String) (s : JsonMap × Lowering) (i : Instance) :
    enumAccepts (lowerConst pointer s).1 i ↔ enumKeeps s.1 i := by
  unfold lowerConst enumKeeps
  cases hconst : s.1.lookup "const" with
  | none => exact Iff.rfl
  | some c =>
    unfold enumAccepts
    rw [lookup_insertEntry, if_pos rfl]
    simp

lemma typeAccepts30_congr (htype : m.lookup "type" = m'.lookup "type")
    (hnullable : m.lookup "nullable" = m'.lookup "nullable") (i : Instance) :
    typeAccepts30 m i ↔ typeAccepts30 m' i := by
  unfold typeAccepts30 Nullable
  rw [htype, hnullable]

lemma typeKeeps_congr (htype : m.lookup "type" = m'.lookup "type")
    (hnullable : m.lookup "nullable" = m'.lookup "nullable") (i : Instance) :
    typeKeeps m i ↔ typeKeeps m' i := by
  unfold typeKeeps typeAccepts31 Nullable NullListed
  rw [htype, hnullable]

lemma enumKeeps_congr (hconst : m.lookup "const" = m'.lookup "const")
    (henum : m.lookup "enum" = m'.lookup "enum") (i : Instance) :
    enumKeeps m i ↔ enumKeeps m' i := by
  unfold enumKeeps enumAccepts
  rw [hconst, henum]

/-- The rules behind that for types leave the types. -/
lemma type_of_lowered (h : lowerType pointer s = .ok s') (i : Instance) :
    typeAccepts30 (lowerExamples pointer (lowerConst pointer
      (lowerExclusive pointer "exclusiveMaximum" "maximum"
        (lowerExclusive pointer "exclusiveMinimum" "minimum" s')))).1 i ↔ typeKeeps s.1 i := by
  rw [← typeAccepts30_lowerType h]
  refine typeAccepts30_congr ?_ ?_ i
  all_goals rw [lookup_lowerExamples (by decide) (by decide),
    lookup_lowerConst (by decide) (by decide), lookup_lowerExclusive (by decide) (by decide),
    lookup_lowerExclusive (by decide) (by decide)]

/-- The rules around those for bounds leave the bounds. -/
lemma range_of_lowered (h : lowerType pointer s = .ok s') (side : Side) (i : Instance) :
    rangeAccepts30 side (lowerExamples pointer (lowerConst pointer
      (lowerExclusive pointer "exclusiveMaximum" "maximum"
        (lowerExclusive pointer "exclusiveMinimum" "minimum" s')))).1 i ↔
      rangeKeeps side s.1 i := by
  cases side with
  | lower =>
    have hlast := rangeAccepts30_lowerExclusive pointer s' .lower i
    rw [rangeKeeps_congr (lookup_lowerType h (by decide) (by decide))
      (lookup_lowerType h (by decide) (by decide))] at hlast
    rw [← hlast]
    refine rangeAccepts30_congr ?_ ?_ i
    all_goals rw [lookup_lowerExamples (by decide) (by decide),
      lookup_lowerConst (by decide) (by decide), lookup_lowerExclusive (by decide) (by decide)]
    all_goals rfl
  | upper =>
    have hlast := rangeAccepts30_lowerExclusive pointer
      (lowerExclusive pointer "exclusiveMinimum" "minimum" s') .upper i
    have hfirst : ∀ k, k ≠ "exclusiveMinimum" → k ≠ "minimum" → k ≠ "type" → k ≠ "nullable" →
        (lowerExclusive pointer "exclusiveMinimum" "minimum" s').1.lookup k = s.1.lookup k := by
      intro k hexcl hbound htype hnullable
      rw [lookup_lowerExclusive hexcl hbound, lookup_lowerType h htype hnullable]
    rw [rangeKeeps_congr (hfirst _ (by decide) (by decide) (by decide) (by decide))
      (hfirst _ (by decide) (by decide) (by decide) (by decide))] at hlast
    rw [← hlast]
    refine rangeAccepts30_congr ?_ ?_ i
    all_goals rw [lookup_lowerExamples (by decide) (by decide),
      lookup_lowerConst (by decide) (by decide)]
    all_goals rfl

/-- The rules around that for constants leave the values. -/
lemma enum_of_lowered (h : lowerType pointer s = .ok s') (i : Instance) :
    enumAccepts (lowerExamples pointer (lowerConst pointer
      (lowerExclusive pointer "exclusiveMaximum" "maximum"
        (lowerExclusive pointer "exclusiveMinimum" "minimum" s')))).1 i ↔ enumKeeps s.1 i := by
  have hfirst : ∀ k, k = "const" ∨ k = "enum" →
      (lowerExclusive pointer "exclusiveMaximum" "maximum"
        (lowerExclusive pointer "exclusiveMinimum" "minimum" s')).1.lookup k = s.1.lookup k := by
    rintro k (rfl | rfl)
    all_goals rw [lookup_lowerExclusive (by decide) (by decide),
      lookup_lowerExclusive (by decide) (by decide), lookup_lowerType h (by decide) (by decide)]
  rw [← enumKeeps_congr (hfirst _ (Or.inl rfl)) (hfirst _ (Or.inr rfl)),
    ← enumAccepts_lowerConst pointer]
  unfold enumAccepts
  rw [lookup_lowerExamples (by decide) (by decide)]

/-- The lowered object accepts in 3.0 what the lowered keywords accept. -/
lemma accepts30_iff_keeps {r : Lowering} (h : lowerSchemaObject pointer m = .ok (m', r))
    (i : Instance) : Accepts30 m' i ↔ Keeps m i := by
  obtain ⟨s₀, s₁, hdropped, hs₁, rfl⟩ := lowerSchemaObject_eq_ok h
  have hkept : ∀ k, k ≠ "$schema" ∧ k ≠ "contentMediaType" ∧ k ≠ "contentEncoding" →
      s₀.1.lookup k = m.lookup k := fun k hk => hdropped k hk.1 hk.2.1 hk.2.2
  have htype := (type_of_lowered hs₁ i).trans
    (typeKeeps_congr (hkept _ (by decide)) (hkept _ (by decide)) i)
  have hrange := fun side => (range_of_lowered hs₁ side i).trans
    (rangeKeeps_congr (hkept _ (by cases side <;> decide)) (hkept _ (by cases side <;> decide)) i)
  have henum := (enum_of_lowered hs₁ i).trans
    (enumKeeps_congr (hkept _ (by decide)) (hkept _ (by decide)) i)
  constructor
  · exact fun haccepts => ⟨htype.mp haccepts.type,
      fun side => (hrange side).mp (haccepts.range side), henum.mp haccepts.enum⟩
  · exact fun hkeeps => ⟨htype.mpr hkeeps.type,
      fun side => (hrange side).mpr (hkeeps.range side), henum.mpr hkeeps.enum⟩

/-! ## What the lowering preserves -/

/-- A schema that is lowered accepts the same instances before and after if and only if none of the
overwritten keywords leaves a gap. -/
theorem lowering_preserves_iff {pointer : String} {m m' : JsonMap} {r : Lowering}
    (h : lowerSchemaObject pointer m = .ok (m', r)) :
    (∀ i, Accepts31 m i ↔ Accepts30 m' i) ↔ NoGap m := by
  constructor
  · exact fun hsame => noGap_of_same fun i => (hsame i).trans (accepts30_iff_keeps h i)
  · intro hgap i
    rw [accepts30_iff_keeps h i]
    exact ⟨hgap.keeps, hgap.accepts⟩

/-- A type array with a null is lowered without a gap. -/
theorem lowering_preserves_nullable_string :
    (∀ i, Accepts31 [("type", .array [.string "string", .string "null"])] i ↔
        Accepts30 [("nullable", .bool true), ("type", .string "string")] i) ↔
      NoGap [("type", .array [.string "string", .string "null"])] :=
  lowering_preserves_iff
    (show lowerSchemaObject "/components/schemas/A"
        [("type", .array [.string "string", .string "null"])] =
      .ok ([("nullable", .bool true), ("type", .string "string")],
        { nullableTypeArrays := ["/components/schemas/A"] }) from rfl)

/-- A bound of 10 with an exclusive bound of 3. -/
def twoBounds : JsonMap :=
  [("minimum", .number (.posInt 10)), ("exclusiveMinimum", .number (.posInt 3))]

/-- The lower one of two bounds replaces the higher one, and lets 5 in. -/
theorem two_bounds_let_five_in : ∃ m' r,
    lowerSchemaObject "/components/schemas/A" twoBounds = .ok (m', r) ∧
      ¬∀ i, Accepts31 twoBounds i ↔ Accepts30 m' i := by
  refine ⟨[("exclusiveMinimum", .bool true), ("minimum", .number (.posInt 3))], _, rfl, ?_⟩
  intro hsame
  have hin : Accepts30 [("exclusiveMinimum", .bool true), ("minimum", .number (.posInt 3))]
      (.number 5) := by
    refine ⟨trivial, fun side q hq n hn => ?_, fun values hvalues => ?_⟩
    · rw [← Instance.number.inj hq]
      cases side with
      | lower =>
        rw [← Json.number.inj (Option.some.inj hn)]
        have hthree : numberToRat (.posInt 3) = 3 := rfl
        constructor
        · change numberToRat (.posInt 3) ≤ 5
          rw [hthree]
          norm_num
        · intro _
          rw [hthree]
          norm_num
      | upper => cases hn
    · cases hvalues
  have hten : numberToRat (.posInt 10) ≤ 5 :=
    (((hsame _).mpr hin).range .lower 5 rfl).1 (.posInt 10) rfl
  have hvalue : numberToRat (.posInt 10) = 10 := rfl
  rw [hvalue] at hten
  norm_num at hten

end Orca.OpenApi
