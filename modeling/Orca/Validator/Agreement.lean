import Mathlib.Order.Filter.AtTopBot.Basic
import Mathlib.Order.Filter.Finite
import Orca.Validator.Check

/-!
# What the validator says and what a schema means

`Reads` is the usual reading of the keywords at one value and one schema, where it is given which
values satisfy which schemas one level below; `satisfies` reads so many levels deep, and a value
satisfies a schema if all deep enough readings accept it (`Satisfies`).

The validator leaves out a part of the reading: what is deeper than `MAX_DEPTH`,
`additionalProperties` where there are no `properties` or where it is a schema, and it takes a
number of JSON that is stored in another way for another number.  `NoGap` follows the validator down
and says that this makes no difference where it comes to such a place.  Then the validator says what
the schema means (`validate_iff`).
-/

namespace Orca.Validator

open Filter Orca.OpenApi

/-! ## The reading of a schema -/

/-- The names of the types. -/
def typeNames : List String :=
  ["object", "array", "string", "boolean", "null", "integer", "number"]

/-- The value is of the type with the name; a name that is no type says nothing. -/
def HasType (value : Json) (name : String) : Prop :=
  name ∈ typeNames → hasType name (toInstance value)

/-- The value is of a type that `type` names: one type, or one of several. -/
def TypeAllows (value : Json) : Json → Prop
  | .string name => HasType value name
  | .array types => ∃ name, .string name ∈ types ∧ HasType value name
  | _ => True

/-- One of the schemas accepts, and the others do not. -/
def ExactlyOne (accepts : Json → Prop) (schemas : List Json) : Prop :=
  ∃ before schema after, schemas = before ++ schema :: after ∧ accepts schema ∧
    ∀ other ∈ before ++ after, ¬accepts other

/-- The keys that `properties` does not list. -/
def IsExtra (obj : JsonMap) (key : String) : Prop :=
  ∀ props, propertiesOf obj = some props → props.lookup key = none

/-- The keywords for what is in a value accept it, where it is given which values satisfy which
schemas. -/
structure ReadsChildren (satisfies : Json → Json → Prop) (obj : JsonMap) (value : Json) : Prop where
  /-- An object has the required keys. -/
  required : ∀ vmap, value = .object vmap → ∀ req, arrayAt obj "required" = some req →
    ∀ name, .string name ∈ req → ∃ child, vmap.lookup name = some child
  /-- What an object has at a listed key satisfies the schema of the key. -/
  properties : ∀ vmap, value = .object vmap → ∀ props, propertiesOf obj = some props →
    ∀ prop ∈ props, ∀ child, vmap.lookup prop.1 = some child → satisfies child prop.2
  /-- An object has no other keys where they are forbidden. -/
  closed : ∀ vmap, value = .object vmap →
    obj.lookup "additionalProperties" = some (.bool false) → ∀ member ∈ vmap, ¬IsExtra obj member.1
  /-- What it has at other keys satisfies the schema for them. -/
  additional : ∀ vmap, value = .object vmap → ∀ sub, sub ≠ .bool false →
    obj.lookup "additionalProperties" = some sub →
    ∀ member ∈ vmap, IsExtra obj member.1 → satisfies member.2 sub
  /-- The elements of an array satisfy `items`. -/
  items : ∀ elems, value = .array elems → ∀ item, obj.lookup "items" = some item →
    ∀ elem ∈ elems, satisfies elem item

/-- The keywords of a schema object accept a value, where it is given which values satisfy which
schemas. -/
structure ReadsKeywords (satisfies : Json → Json → Prop) (obj : JsonMap) (value : Json) : Prop where
  allOf : ∀ all, arrayAt obj "allOf" = some all → ∀ sub ∈ all, satisfies value sub
  anyOf : ∀ any, arrayAt obj "anyOf" = some any → ∃ sub ∈ any, satisfies value sub
  oneOf : ∀ one, arrayAt obj "oneOf" = some one → ExactlyOne (satisfies value) one
  /-- It is one of the listed values. -/
  enum : ∀ allowed, arrayAt obj "enum" = some allowed →
    ∃ a ∈ allowed, toInstance a = toInstance value
  const : ∀ c, obj.lookup "const" = some c → toInstance c = toInstance value
  /-- It is of the type, or null where `nullable` adds it to the type. -/
  type : value = .null ∧ Nullable obj ∨ ∀ t, obj.lookup "type" = some t → TypeAllows value t
  children : ReadsChildren satisfies obj value

/-- A schema accepts a value, where it is given which values satisfy which schemas.  A reference
stands for its definition alone, and what is no schema says nothing. -/
def Reads (defs : Json) (satisfies : Json → Json → Prop) (value schema : Json) : Prop :=
  match schema with
  | .bool b => b = true
  | .object obj =>
    match refOf obj with
    | some r => ∃ target, resolveRef r defs = some target ∧ satisfies value target
    | none => ReadsKeywords satisfies obj value
  | _ => True

/-- A reading that looks at so many levels. -/
def satisfies (defs : Json) : (levels : ℕ) → Json → Json → Prop
  | 0 => fun _ _ => True
  | levels + 1 => Reads defs (satisfies defs levels)

/-- The value satisfies the schema: all deep enough readings accept it. -/
def Satisfies (defs value schema : Json) : Prop :=
  ∃ least, ∀ levels ≥ least, satisfies defs levels value schema

/-! ## Where the validator reads otherwise -/

/-- It makes no difference which keywords for what is in a value the validator looks at, where it is
given for which values and schemas one level below this is so, and which values satisfy which
schemas. -/
structure PlainChildren (plain satisfies : Json → Json → Prop) (obj : JsonMap) (value : Json) :
    Prop where
  /-- What an object has at the listed keys. -/
  properties : ∀ vmap, value = .object vmap → ∀ props, propertiesOf obj = some props →
    ∀ prop ∈ props, ∀ child, vmap.lookup prop.1 = some child → plain child prop.2
  /-- Where an object has other keys and they are forbidden, there are `properties`. -/
  closed : ∀ vmap, value = .object vmap →
    obj.lookup "additionalProperties" = some (.bool false) → ∀ member ∈ vmap,
      IsExtra obj member.1 → (propertiesOf obj).isSome = true
  /-- What it has at other keys satisfies a schema for them, at which the validator never looks. -/
  additional : ∀ vmap, value = .object vmap → ∀ sub, sub ≠ .bool false →
    obj.lookup "additionalProperties" = some sub →
    ∀ member ∈ vmap, IsExtra obj member.1 → satisfies member.2 sub
  items : ∀ elems, value = .array elems → ∀ item, obj.lookup "items" = some item →
    ∀ elem ∈ elems, plain elem item

/-- It makes no difference what the validator leaves out of a schema object. -/
structure PlainAt (plain satisfies : Json → Json → Prop) (obj : JsonMap) (value : Json) : Prop where
  allOf : ∀ all, arrayAt obj "allOf" = some all → ∀ sub ∈ all, plain value sub
  /-- One of `anyOf` that accepts the value, or all of them. -/
  anyOf : ∀ any, arrayAt obj "anyOf" = some any →
    (∃ sub ∈ any, plain value sub ∧ satisfies value sub) ∨ ∀ sub ∈ any, plain value sub
  oneOf : ∀ one, arrayAt obj "oneOf" = some one → ∀ sub ∈ one, plain value sub
  /-- One of the listed values is equal to the value for the validator if one is the same. -/
  enum : ∀ allowed, arrayAt obj "enum" = some allowed →
    ((∃ a ∈ allowed, a.eqv value = true) ↔ ∃ a ∈ allowed, toInstance a = toInstance value)
  /-- The constant is equal to the value for the validator if it is the same. -/
  const : ∀ c, obj.lookup "const" = some c →
    (c.eqv value = true ↔ toInstance c = toInstance value)
  /-- What is in a value of the type. -/
  children : mismatch obj value = none → PlainChildren plain satisfies obj value

/-- It makes no difference what the validator leaves out of a schema.  Next to a reference it looks
at nothing. -/
def Plain (defs : Json) (plain satisfies : Json → Json → Prop) (value schema : Json) : Prop :=
  match schema with
  | .object obj =>
    match refOf obj with
    | some r => ∀ target, resolveRef r defs = some target → plain value target
    | none => PlainAt plain satisfies obj value
  | _ => True

/-- The validator with so many levels left comes to nothing where it makes a difference what it
leaves out.  Below its levels it looks at nothing, and values have to satisfy their schemas. -/
def NoGap (defs : Json) : (left : ℕ) → Json → Json → Prop
  | 0 => Satisfies defs
  | left + 1 => Plain defs (NoGap defs left) (Satisfies defs)

/-! ## Messages -/

variable {defs : Json}

lemma ifSome_eq_nil {α : Type*} {found : Option α} {errors : α → List String} :
    ifSome found errors = [] ↔ ∀ a, found = some a → errors a = [] := by
  cases found with
  | none => exact ⟨fun _ => nofun, fun _ => rfl⟩
  | some a =>
    constructor
    · rintro h b hb
      rw [← Option.some.inj hb]
      exact h
    · exact fun h => h a rfl

lemma pushUnless_eq_nil {test : Bool} {message : String} :
    pushUnless test message = [] ↔ test = true := by
  cases test with
  | false => exact ⟨nofun, fun h => absurd h Bool.false_ne_true⟩
  | true => exact ⟨fun _ => rfl, fun _ => rfl⟩

/-! ## Types -/

/-- A number that is stored as an integer is one. -/
lemma isInt_of_isSome {n : JsonNumber} (h : (n.asI64.isSome || n.asU64.isSome) = true) :
    (numberToRat n).isInt = true := by
  cases n with
  | posInt n =>
    change ((n.toNat : ℚ).den == 1) = true
    rw [Rat.den_natCast]
    rfl
  | negInt i =>
    change ((i.toInt : ℚ).den == 1) = true
    rw [Rat.den_intCast]
    rfl
  | float d => exact absurd h Bool.false_ne_true

/-- The test of one type. -/
lemma singleTypeMatches_iff {value : Json} {name : String} :
    singleTypeMatches value name = true ↔ HasType value name := by
  by_cases hname : name ∈ typeNames
  · rw [HasType, forall_prop_of_true hname]
    simp only [typeNames, List.mem_cons, List.not_mem_nil, or_false] at hname
    rcases hname with rfl | rfl | rfl | rfl | rfl | rfl | rfl
    case inr.inr.inr.inr.inr.inl =>
      cases value with
      | number n =>
        change (n.asI64.isSome || n.asU64.isSome || (numberToRat n).isInt) = true ↔ _
        rw [Bool.or_eq_true, or_iff_right_of_imp isInt_of_isSome]
        simp [hasType, toInstance]
      | _ => simp [singleTypeMatches, hasType, toInstance, hasZeroFraction, Json.asI64, Json.asU64]
    all_goals
      cases value <;>
        simp [singleTypeMatches, hasType, toInstance, isNull, Json.asObject, Json.asArray,
          Json.asStr]
  · simp only [typeNames, List.mem_cons, List.not_mem_nil, or_false, not_or] at hname
    obtain ⟨h1, h2, h3, h4, h5, h6, h7⟩ := hname
    unfold singleTypeMatches HasType
    simp only [h1, h2, h3, h4, h5, h6, h7, if_false, true_iff]
    exact fun h => absurd h (by simp [typeNames, h1, h2, h3, h4, h5, h6, h7])

/-- The strings of an array. -/
lemma mem_filterMap_asStr {elems : List Json} {s : String} :
    s ∈ elems.filterMap Json.asStr ↔ .string s ∈ elems := by
  rw [List.mem_filterMap]
  constructor
  · rintro ⟨elem, helem, hs⟩
    cases elem with
    | string t => rwa [← Option.some.inj hs]
    | _ => cases hs
  · exact fun h => ⟨.string s, h, rfl⟩

/-- The test of `type`. -/
lemma typeMatches_iff {value t : Json} : typeMatches value t = true ↔ TypeAllows value t := by
  cases t with
  | string name => exact singleTypeMatches_iff
  | array types =>
    change (types.filterMap Json.asStr).any (singleTypeMatches value) = true ↔ _
    rw [List.any_eq_true]
    simp only [mem_filterMap_asStr, singleTypeMatches_iff]
    exact Iff.rfl
  | _ => exact ⟨fun _ => trivial, fun _ => rfl⟩

lemma mismatch_eq_none {obj : JsonMap} {value : Json} :
    mismatch obj value = none ↔ ∀ t, obj.lookup "type" = some t → TypeAllows value t := by
  unfold mismatch
  rw [Option.filter_eq_none_iff]
  simp only [Bool.not_eq_true', Bool.not_eq_false, typeMatches_iff]

/-- Null is added to the type. -/
lemma isNull_and_nullable {obj : JsonMap} {value : Json} :
    (isNull value && nullable obj) = true ↔ value = .null ∧ Nullable obj := by
  have hnull : isNull value = true ↔ value = .null := by
    cases value <;> simp [isNull]
  have hnullable : nullable obj = true ↔ Nullable obj := by
    unfold nullable Nullable
    cases obj.lookup "nullable" with
    | none => simp
    | some b => cases b <;> simp
  rw [Bool.and_eq_true, hnull, hnullable]

/-! ## One level -/

/-- One of the schemas passes, and the others do not. -/
lemma length_filter_eq_one {test : Json → Bool} {schemas : List Json} :
    (schemas.filter test).length = 1 ↔ ExactlyOne (test · = true) schemas := by
  rw [List.length_eq_one_iff]
  constructor
  · rintro ⟨schema, hfilter⟩
    obtain ⟨before, after, rfl, hbefore, htest, hafter⟩ := List.filter_eq_cons_iff.mp hfilter
    refine ⟨before, schema, after, rfl, htest, fun other hother => ?_⟩
    rcases List.mem_append.mp hother with hother | hother
    · exact hbefore other hother
    · exact List.filter_eq_nil_iff.mp hafter other hother
  · rintro ⟨before, schema, after, rfl, htest, hothers⟩
    refine ⟨schema, List.filter_eq_cons_iff.mpr
      ⟨before, after, rfl, fun other hother => ?_, htest, ?_⟩⟩
    · exact hothers other (List.mem_append_left _ hother)
    · exact List.filter_eq_nil_iff.mpr fun other hother =>
        hothers other (List.mem_append_right _ hother)

/-- Exactly one schema is accepted by tests that accept the same of them. -/
lemma ExactlyOne.congr {accepts accepts' : Json → Prop} {schemas : List Json}
    (h : ∀ schema ∈ schemas, (accepts schema ↔ accepts' schema)) :
    ExactlyOne accepts schemas ↔ ExactlyOne accepts' schemas := by
  refine exists_congr fun before => exists_congr fun schema => exists_congr fun after => ?_
  refine and_congr_right ?_
  rintro rfl
  refine and_congr (h schema (by simp)) (forall_congr' fun other => ?_)
  refine imp_congr_right fun hother => not_congr (h other ?_)
  rcases List.mem_append.mp hother with hother | hother
  · exact List.mem_append_left _ hother
  · exact List.mem_append_right _ (List.mem_cons_of_mem _ hother)

variable {next : Checker} {satisfied : Json → Json → Prop} {obj : JsonMap} {value : Json}
  {path : String}

/-- There are no messages of the combinators if they accept the value. -/
lemma combinatorErrors_eq_nil
    (hplain : PlainAt (fun v s => ∀ path, next v s path = [] ↔ satisfied v s) satisfied obj value) :
    combinatorErrors next obj value path = [] ↔
      (∀ all, arrayAt obj "allOf" = some all → ∀ sub ∈ all, satisfied value sub) ∧
      (∀ any, arrayAt obj "anyOf" = some any → ∃ sub ∈ any, satisfied value sub) ∧
      ∀ one, arrayAt obj "oneOf" = some one → ExactlyOne (satisfied value) one := by
  unfold combinatorErrors
  rw [List.append_eq_nil_iff, List.append_eq_nil_iff, and_assoc]
  simp only [ifSome_eq_nil, pushUnless_eq_nil, List.flatMap_eq_nil_iff, List.any_eq_true,
    beq_iff_eq, length_filter_eq_one]
  have hsub {sub : Json} (h : ∀ path, next value sub path = [] ↔ satisfied value sub) :
      validateSub next value sub = true ↔ satisfied value sub := List.isEmpty_iff.trans (h "$")
  refine and_congr (forall₂_congr fun all hall => ?_)
    (and_congr (forall₂_congr fun any hany => ?_) (forall₂_congr fun one hone => ?_))
  · exact forall₂_congr fun sub hmem => hplain.allOf all hall sub hmem path
  · rcases hplain.anyOf any hany with ⟨sub, hmem, hone, haccepts⟩ | hall
    · -- a schema that accepts the value is enough for both
      exact iff_of_true ⟨sub, hmem, (hsub hone).mpr haccepts⟩ ⟨sub, hmem, haccepts⟩
    · exact exists_congr fun sub => and_congr_right fun hmem => hsub (hall sub hmem)
  · exact ExactlyOne.congr fun sub hmem => hsub (hplain.oneOf one hone sub hmem)

/-- There are no messages of `enum` and `const` if they accept the value. -/
lemma constantErrors_eq_nil {plain : Json → Json → Prop}
    (hplain : PlainAt plain satisfied obj value) :
    constantErrors obj value path = [] ↔
      (∀ allowed, arrayAt obj "enum" = some allowed →
        ∃ a ∈ allowed, toInstance a = toInstance value) ∧
      ∀ c, obj.lookup "const" = some c → toInstance c = toInstance value := by
  unfold constantErrors
  rw [List.append_eq_nil_iff]
  simp only [ifSome_eq_nil, pushUnless_eq_nil, List.any_eq_true]
  exact and_congr (forall₂_congr hplain.enum) (forall₂_congr hplain.const)

/-- The keys that are rejected are those that `properties` does not list. -/
lemma closedTo_eq_some {props : JsonMap} : closedTo obj = some props ↔
    obj.lookup "additionalProperties" = some (.bool false) ∧ propertiesOf obj = some props := by
  unfold closedTo
  cases obj.lookup "additionalProperties" with
  | none => simp
  | some sub =>
    cases sub with
    | bool b => cases b <;> simp
    | _ => simp

/-- There are no messages for the keys of an object if they are accepted. -/
lemma memberErrors_eq_nil {vmap : JsonMap}
    (hplain : PlainChildren (fun v s => ∀ path, next v s path = [] ↔ satisfied v s) satisfied obj
      (.object vmap)) :
    memberErrors next obj vmap path = [] ↔ ReadsChildren satisfied obj (.object vmap) := by
  unfold memberErrors
  rw [List.append_eq_nil_iff, List.append_eq_nil_iff, and_assoc]
  simp only [ifSome_eq_nil, pushUnless_eq_nil, List.flatMap_eq_nil_iff, mem_filterMap_asStr,
    closedTo_eq_some, containsKey, Option.isSome_iff_exists]
  constructor
  · rintro ⟨hrequired, hproperties, hclosed⟩
    constructor
    case required =>
      intro vmap' hvalue req hreq name hname
      obtain rfl : vmap = vmap' := Json.object.inj hvalue
      exact hrequired req hreq name hname
    case properties =>
      intro vmap' hvalue props hprops prop hprop child hchild
      obtain rfl : vmap = vmap' := Json.object.inj hvalue
      exact (hplain.properties vmap rfl props hprops prop hprop child hchild _).mp
        (hproperties props hprops prop hprop child hchild)
    case closed =>
      intro vmap' hvalue hfalse member hmember hextra
      obtain rfl : vmap = vmap' := Json.object.inj hvalue
      obtain ⟨props, hprops⟩ := Option.isSome_iff_exists.mp
        (hplain.closed vmap rfl hfalse member hmember hextra)
      obtain ⟨sub, hsub⟩ := hclosed props ⟨hfalse, hprops⟩ member hmember
      rw [hextra props hprops] at hsub
      cases hsub
    case additional => exact hplain.additional
    case items => exact nofun
  · intro h
    refine ⟨h.required vmap rfl, fun props hprops prop hprop child hchild => ?_, ?_⟩
    · exact (hplain.properties vmap rfl props hprops prop hprop child hchild _).mpr
        (h.properties vmap rfl props hprops prop hprop child hchild)
    · rintro props ⟨hfalse, hprops⟩ member hmember
      by_contra hnone
      refine h.closed vmap rfl hfalse member hmember fun props' hprops' => ?_
      obtain rfl : props = props' := Option.some.inj (hprops.symm.trans hprops')
      exact Option.eq_none_iff_forall_ne_some.mpr fun sub hsub => hnone ⟨sub, hsub⟩

/-- There are no messages for what is in a value if it is accepted. -/
lemma childErrors_eq_nil
    (hplain : PlainChildren (fun v s => ∀ path, next v s path = [] ↔ satisfied v s) satisfied obj
      value) :
    childErrors next obj value path = [] ↔ ReadsChildren satisfied obj value := by
  cases value with
  | object vmap => exact memberErrors_eq_nil hplain
  | array elems =>
    change (ifSome (obj.lookup "items") fun item => elems.zipIdx.flatMap fun it =>
      next it.1 item (path ++ "[" ++ toString it.2 ++ "]")) = [] ↔ _
    simp only [ifSome_eq_nil, List.flatMap_eq_nil_iff]
    constructor
    · intro h
      constructor
      case items =>
        intro elems' hvalue item hitem elem helem
        obtain rfl : elems = elems' := Json.array.inj hvalue
        obtain ⟨i, hi, rfl⟩ := List.getElem_of_mem helem
        have hmem : (elems[i], i) ∈ elems.zipIdx := List.mem_zipIdx_iff_getElem?.mpr
          (List.getElem?_eq_getElem hi)
        exact (hplain.items elems rfl item hitem _ helem _).mp (h item hitem _ hmem)
      all_goals exact nofun
    · intro h item hitem it hit
      have helem : it.1 ∈ elems := List.mem_of_getElem? (List.mem_zipIdx_iff_getElem?.mp hit)
      exact (hplain.items elems rfl item hitem _ helem _).mpr
        (h.items elems rfl item hitem _ helem)
  | _ => exact ⟨fun _ => ⟨nofun, nofun, nofun, nofun, nofun⟩, fun _ => rfl⟩

/-- There are no messages of `type` and of what is in the value if they accept it. -/
lemma typeErrors_eq_nil (display : Json → String)
    (hplain : PlainAt (fun v s => ∀ path, next v s path = [] ↔ satisfied v s) satisfied obj value) :
    typeErrors display next obj value path = [] ↔
      (value = .null ∧ Nullable obj ∨ ∀ t, obj.lookup "type" = some t → TypeAllows value t) ∧
        ReadsChildren satisfied obj value := by
  unfold typeErrors
  cases hnull : isNull value && nullable obj with
  | true =>
    -- nothing is in a null value, so that the early return leaves out no check
    have hnull := isNull_and_nullable.mp hnull
    obtain rfl := hnull.1
    exact ⟨fun _ => ⟨Or.inl hnull, nofun, nofun, nofun, nofun, nofun⟩, fun _ => rfl⟩
  | false =>
    have hnull : ¬(value = .null ∧ Nullable obj) := fun h => by
      rw [isNull_and_nullable.mpr h] at hnull
      cases hnull
    rw [or_iff_right hnull, ← mismatch_eq_none]
    cases htype : mismatch obj value with
    | none =>
      rw [and_iff_right rfl]
      exact childErrors_eq_nil (hplain.children htype)
    | some t => exact ⟨nofun, fun h => nomatch h.1⟩

/-- There are no messages of one level if it is read alike. -/
lemma checkOnce_eq_nil (display : Json → String) {schema : Json}
    (hplain : Plain defs (fun v s => ∀ path, next v s path = [] ↔ satisfied v s) satisfied value
      schema) :
    checkOnce display defs next value schema path = [] ↔ Reads defs satisfied value schema := by
  cases schema with
  | bool b => cases b with
    | false => exact ⟨nofun, nofun⟩
    | true => exact ⟨fun _ => rfl, fun _ => rfl⟩
  | object obj =>
    unfold Plain at hplain
    unfold checkOnce Reads
    cases href : refOf obj with
    | some r =>
      simp only [href] at hplain ⊢
      cases htarget : resolveRef r defs with
      | none => exact ⟨nofun, fun ⟨_, h, _⟩ => nomatch h⟩
      | some target =>
        have hiff := hplain target htarget path
        exact ⟨fun h => ⟨target, rfl, hiff.mp h⟩, fun ⟨_, h, hs⟩ =>
          hiff.mpr (Option.some.inj h ▸ hs)⟩
    | none =>
      simp only [href] at hplain ⊢
      rw [List.append_eq_nil_iff, List.append_eq_nil_iff, combinatorErrors_eq_nil hplain,
        constantErrors_eq_nil hplain, typeErrors_eq_nil display hplain]
      constructor
      · rintro ⟨⟨⟨hall, hany, hone⟩, henum, hconst⟩, htype, hchildren⟩
        exact ⟨hall, hany, hone, henum, hconst, htype, hchildren⟩
      · rintro ⟨hall, hany, hone, henum, hconst, htype, hchildren⟩
        exact ⟨⟨⟨hall, hany, hone⟩, henum, hconst⟩, htype, hchildren⟩
  | _ => exact ⟨fun _ => trivial, fun _ => rfl⟩

/-! ## Deep enough readings -/

section Eventually

variable {plain : Json → Json → Prop} {agrees accepts : ℕ → Json → Json → Prop}

lemma eventually_forall_mem {α : Type*} {found : Option (List α)} {holds : ℕ → α → Prop}
    (h : ∀ xs, found = some xs → ∀ x ∈ xs, ∀ᶠ levels in atTop, holds levels x) :
    ∀ᶠ levels in atTop, ∀ xs, found = some xs → ∀ x ∈ xs, holds levels x := by
  cases found with
  | none => exact Eventually.of_forall fun _ => nofun
  | some xs =>
    have hall := (eventually_all_finite (List.finite_toSet xs)).mpr (h xs rfl)
    exact hall.mono fun levels hlevels ys hys => Option.some.inj hys ▸ hlevels

/-- What is in a value, for deep enough readings. -/
lemma PlainChildren.eventually (hplain : PlainChildren plain satisfied obj value)
    (hagrees : ∀ v s, plain v s → ∀ᶠ levels in atTop, agrees levels v s)
    (haccepts : ∀ v s, satisfied v s → ∀ᶠ levels in atTop, accepts levels v s) :
    ∀ᶠ levels in atTop, PlainChildren (agrees levels) (accepts levels) obj value := by
  cases value with
  | object vmap =>
    have hproperties : ∀ᶠ levels in atTop, ∀ props, propertiesOf obj = some props →
        ∀ prop ∈ props, ∀ child, vmap.lookup prop.1 = some child →
          agrees levels child prop.2 := by
      refine eventually_forall_mem fun props hprops prop hprop => ?_
      cases hchild : vmap.lookup prop.1 with
      | none => exact Eventually.of_forall fun _ => nofun
      | some child =>
        exact (hagrees _ _ (hplain.properties vmap rfl props hprops prop hprop child hchild)).mono
          fun levels hlevels child' h => Option.some.inj h ▸ hlevels
    have hadditional : ∀ᶠ levels in atTop, ∀ members, some vmap = some members →
        ∀ member ∈ members, ∀ sub, sub ≠ .bool false →
          obj.lookup "additionalProperties" = some sub → IsExtra obj member.1 →
            accepts levels member.2 sub := by
      refine eventually_forall_mem fun members hmembers member hmember => ?_
      obtain rfl : vmap = members := Option.some.inj hmembers
      cases hsub : obj.lookup "additionalProperties" with
      | none => exact Eventually.of_forall fun _ _ _ => nofun
      | some sub =>
        by_cases hextra : sub ≠ .bool false ∧ IsExtra obj member.1
        · exact (haccepts _ _
            (hplain.additional vmap rfl sub hextra.1 hsub member hmember hextra.2)).mono
              fun levels hlevels sub' _ h _ => Option.some.inj h ▸ hlevels
        · refine Eventually.of_forall fun levels sub' hne h hmem => absurd ?_ hextra
          exact Option.some.inj h ▸ ⟨hne, hmem⟩
    filter_upwards [hproperties, hadditional] with levels hprops hextras
    refine ⟨?_, hplain.closed, ?_, nofun⟩
    · intro vmap' hvalue
      obtain rfl : vmap = vmap' := Json.object.inj hvalue
      exact hprops
    · intro vmap' hvalue sub hne hsub member hmember hextra
      obtain rfl : vmap = vmap' := Json.object.inj hvalue
      exact hextras vmap rfl member hmember sub hne hsub hextra
  | array elems =>
    have hitems : ∀ᶠ levels in atTop, ∀ members, some elems = some members → ∀ elem ∈ members,
        ∀ item, obj.lookup "items" = some item → agrees levels elem item := by
      refine eventually_forall_mem fun members hmembers elem helem => ?_
      obtain rfl : elems = members := Option.some.inj hmembers
      cases hitem : obj.lookup "items" with
      | none => exact Eventually.of_forall fun _ _ => nofun
      | some item =>
        exact (hagrees _ _ (hplain.items elems rfl item hitem elem helem)).mono
          fun levels hlevels item' h => Option.some.inj h ▸ hlevels
    filter_upwards [hitems] with levels hlevels
    refine ⟨nofun, nofun, nofun, fun elems' hvalue item hitem elem helem => ?_⟩
    obtain rfl : elems = elems' := Json.array.inj hvalue
    exact hlevels elems rfl elem helem item hitem
  | _ => exact Eventually.of_forall fun _ => ⟨nofun, nofun, nofun, nofun⟩

/-- A schema object, for deep enough readings. -/
lemma PlainAt.eventually (hplain : PlainAt plain satisfied obj value)
    (hagrees : ∀ v s, plain v s → ∀ᶠ levels in atTop, agrees levels v s)
    (haccepts : ∀ v s, satisfied v s → ∀ᶠ levels in atTop, accepts levels v s) :
    ∀ᶠ levels in atTop, PlainAt (agrees levels) (accepts levels) obj value := by
  have hallOf := eventually_forall_mem fun all hall sub hsub =>
    hagrees _ _ (hplain.allOf all hall sub hsub)
  have honeOf := eventually_forall_mem fun one hone sub hsub =>
    hagrees _ _ (hplain.oneOf one hone sub hsub)
  have hanyOf : ∀ᶠ levels in atTop, ∀ any, arrayAt obj "anyOf" = some any →
      (∃ sub ∈ any, agrees levels value sub ∧ accepts levels value sub) ∨
        ∀ sub ∈ any, agrees levels value sub := by
    cases hany : arrayAt obj "anyOf" with
    | none => exact Eventually.of_forall fun _ _ => nofun
    | some any =>
      rcases hplain.anyOf any hany with ⟨sub, hsub, hone, hsat⟩ | hall
      · filter_upwards [hagrees _ _ hone, haccepts _ _ hsat] with levels hlevels hlevels' any' h
        exact Or.inl (Option.some.inj h ▸ ⟨sub, hsub, hlevels, hlevels'⟩)
      · filter_upwards [(eventually_all_finite (List.finite_toSet any)).mpr fun sub hsub =>
          hagrees _ _ (hall sub hsub)] with levels hlevels any' h
        exact Or.inr (Option.some.inj h ▸ hlevels)
  have hchildren : ∀ᶠ levels in atTop, mismatch obj value = none →
      PlainChildren (agrees levels) (accepts levels) obj value := by
    by_cases htype : mismatch obj value = none
    · exact ((hplain.children htype).eventually hagrees haccepts).mono fun _ h _ => h
    · exact Eventually.of_forall fun _ h => absurd h htype
  filter_upwards [hallOf, hanyOf, honeOf, hchildren] with levels hall hany hone hchild
  exact ⟨hall, hany, hone, hplain.enum, hplain.const, hchild⟩

/-- A schema, for deep enough readings. -/
lemma Plain.eventually {schema : Json} (hplain : Plain defs plain satisfied value schema)
    (hagrees : ∀ v s, plain v s → ∀ᶠ levels in atTop, agrees levels v s)
    (haccepts : ∀ v s, satisfied v s → ∀ᶠ levels in atTop, accepts levels v s) :
    ∀ᶠ levels in atTop, Plain defs (agrees levels) (accepts levels) value schema := by
  unfold Plain at hplain ⊢
  cases schema with
  | object obj =>
    dsimp only at hplain ⊢
    cases href : refOf obj with
    | none =>
      rw [href] at hplain
      exact hplain.eventually hagrees haccepts
    | some r =>
      rw [href] at hplain
      dsimp only at hplain ⊢
      cases htarget : resolveRef r defs with
      | none => exact Eventually.of_forall fun _ _ => nofun
      | some target =>
        exact (hagrees _ _ (hplain target htarget)).mono fun levels hlevels target' h =>
          Option.some.inj h ▸ hlevels
  | _ => exact Eventually.of_forall fun _ => trivial

end Eventually

/-! ## All levels -/

/-- Where nothing is left out that makes a difference, the check of so many levels has no messages
if and only if a reading accepts the value, for all deep enough readings. -/
theorem check_eq_nil (display : Json → String) (left : ℕ) {value schema : Json}
    (h : NoGap defs left value schema) :
    ∀ᶠ levels in atTop, ∀ path,
      check display defs left value schema path = [] ↔ satisfies defs levels value schema := by
  induction left generalizing value schema with
  | zero =>
    obtain ⟨least, hleast⟩ := h
    exact eventually_atTop.mpr
      ⟨least, fun levels hle path => iff_of_true rfl (hleast levels hle)⟩
  | succ left ih =>
    have hbelow : ∀ᶠ levels in atTop, Plain defs
        (fun v s => ∀ path, check display defs left v s path = [] ↔ satisfies defs levels v s)
        (satisfies defs levels) value schema :=
      Plain.eventually h (fun v s => ih) fun v s => eventually_atTop.mpr
    obtain ⟨least, hleast⟩ := eventually_atTop.mp hbelow
    refine eventually_atTop.mpr ⟨least + 1, fun levels hle path => ?_⟩
    cases levels with
    | zero => exact absurd hle (Nat.not_succ_le_zero least)
    | succ levels => exact checkOnce_eq_nil display (hleast levels (Nat.le_of_succ_le_succ hle))

/-- The validator accepts a value if and only if the value satisfies the schema, where it makes no
difference what it leaves out. -/
theorem validate_iff (display : Json → String) {value schema defs : Json}
    (h : NoGap defs (maxDepth + 1) value schema) :
    validate display value schema defs = .ok () ↔ Satisfies defs value schema := by
  have hvalidate : validate display value schema defs = .ok () ↔
      check display defs (maxDepth + 1) value schema "$" = [] := by
    unfold validate
    cases check display defs (maxDepth + 1) value schema "$" with
    | nil => exact ⟨fun _ => rfl, fun _ => rfl⟩
    | cons e errs => exact ⟨nofun, nofun⟩
  have hcheck := check_eq_nil display (maxDepth + 1) h
  rw [hvalidate]
  constructor
  · intro hnil
    exact eventually_atTop.mp (hcheck.mono fun levels hlevels => (hlevels "$").mp hnil)
  · intro hsat
    obtain ⟨levels, hlevels, haccepts⟩ := (hcheck.and (eventually_atTop.mpr hsat)).exists
    exact (hlevels "$").mpr haccepts

/-! ## An object with one key -/

/-- An object with one key. -/
def oneKey : Json := .object [("a", .string "x")]

/-- The schema of the key. -/
def keySchema : Json := .object [("type", .string "string")]

/-- The schema of an object that has at most that key. -/
def closedSchema : Json := .object
  [("type", .string "object"), ("properties", .object [("a", keySchema)]),
    ("additionalProperties", .bool false)]

/-- The validator leaves nothing out of it. -/
lemma noGap_closedSchema (defs : Json) : NoGap defs (maxDepth + 1) oneKey closedSchema := by
  have hkey : NoGap defs maxDepth (.string "x") keySchema :=
    ⟨nofun, nofun, nofun, nofun, nofun, fun _ => ⟨nofun, nofun, nofun, nofun⟩⟩
  refine ⟨nofun, nofun, nofun, nofun, nofun, fun _ => ⟨?_, fun _ _ _ _ _ _ => rfl, ?_, nofun⟩⟩
  · intro vmap hvalue props hprops prop hprop child hchild
    cases hvalue
    obtain rfl := Option.some.inj hprops
    obtain rfl := List.mem_singleton.mp hprop
    obtain rfl := Option.some.inj hchild
    exact hkey
  · intro vmap hvalue sub hne hsub
    exact absurd (Option.some.inj hsub).symm hne

/-- The object satisfies the schema, as the validator accepts it. -/
theorem oneKey_satisfies_closedSchema : Satisfies (.object []) oneKey closedSchema :=
  (validate_iff (fun _ => "") (noGap_closedSchema (.object []))).mp rfl

/-- Without `properties` a key is accepted that `additionalProperties` forbids. -/
theorem forbidden_key_is_accepted :
    validate (fun _ => "") oneKey (.object [("additionalProperties", .bool false)]) (.object []) =
        .ok () ∧
      ¬Satisfies (.object []) oneKey (.object [("additionalProperties", .bool false)]) := by
  refine ⟨rfl, ?_⟩
  rintro ⟨least, hsat⟩
  have hreads := hsat (least + 1) (Nat.le_succ least)
  exact ReadsChildren.closed (ReadsKeywords.children hreads) _ rfl rfl ("a", .string "x")
    List.mem_cons_self nofun

end Orca.Validator
