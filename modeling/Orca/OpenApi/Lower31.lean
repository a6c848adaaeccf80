import Orca.Data.Value
import Mathlib.Order.Lattice

/-!
# Lowering OpenAPI 3.1 to 3.0

The code generator reads OpenAPI 3.0 only, so a document of version 3.1 is rewritten first: the
model of `openapi/src/lower_31.rs`.  `lowerSchemaObject` rewrites the keywords of one object, and
`walk` applies it to every object of the document, schemas or not, and then to what it has left of
the object.

The report of a subtree is what the subtree adds to the report of the document.  The recursion of
`walk` is bounded by the depth of the value, which is deep enough (`walk_depth`).
-/

namespace Orca.OpenApi

/-- A JSON object. -/
abbrev JsonMap := List (String × Json)

/-- `Lowering`. -/
structure Lowering where
  /-- Type arrays with a null that became one type and `nullable`. -/
  nullableTypeArrays : List String := []
  /-- `examples` that became an `example`, with the number of dropped ones. -/
  examplesToExample : List (String × Nat) := []
  /-- Numeric exclusive bounds that became a bound and a flag. -/
  numericExclusive : List (String × String) := []
  /-- `const` keywords that became an `enum`. -/
  constToEnum : List String := []
  droppedSchemaKeyword : List String := []
  droppedContentKeywords : List (String × String) := []

/-- The reports of two parts of a document, one after the other. -/
def Lowering.append (r r' : Lowering) : Lowering where
  nullableTypeArrays := r.nullableTypeArrays ++ r'.nullableTypeArrays
  examplesToExample := r.examplesToExample ++ r'.examplesToExample
  numericExclusive := r.numericExclusive ++ r'.numericExclusive
  constToEnum := r.constToEnum ++ r'.constToEnum
  droppedSchemaKeyword := r.droppedSchemaKeyword ++ r'.droppedSchemaKeyword
  droppedContentKeywords := r.droppedContentKeywords ++ r'.droppedContentKeywords

/-- `ptr_or_root`. -/
def ptrOrRoot (pointer : String) : String := if pointer = "" then "/" else pointer

/-- `escape_token`. -/
def escapeToken (token : String) : String :=
  String.ofList (token.toList.flatMap fun c =>
    if c = '~' then ['~', '0'] else if c = '/' then ['~', '1'] else [c])

/-- `is_31`. -/
def is31 (spec : Json) : Bool :=
  match spec.get? "openapi" with
  | some (.string version) => "3.1".toList.isPrefixOf version.toList
  | _ => false

/-! ## One object -/

/-- The keywords without an equivalent in 3.0. -/
def unsupportedKeywords : List String :=
  ["prefixItems", "if", "then", "else", "unevaluatedProperties", "unevaluatedItems"]

/-- The first rule: a keyword without an equivalent is an error. -/
def checkKeywords (pointer : String) (map : JsonMap) : Except String Unit :=
  match unsupportedKeywords.find? fun kw => (map.lookup kw).isSome with
  | some kw =>
      .error ("openapi: cannot lower 3.1 -> 3.0: `" ++ kw ++ "` at " ++ pointer ++
        " has no 3.0 equivalent (failing loudly rather than dropping it)")
  | none => .ok ()

/-- A keyword is dropped. -/
def dropKeyword (kw : String) (entry : Lowering) (s : JsonMap × Lowering) : JsonMap × Lowering :=
  if (s.1.lookup kw).isSome then (removeEntry s.1 kw, s.2.append entry) else s

/-- The name of the null type. -/
def isNullName (t : Json) : Bool :=
  match t with
  | .string "null" => true
  | _ => false

/-- Type arrays: one type is kept, with `nullable` when the other one is null. -/
def lowerType (pointer : String) (s : JsonMap × Lowering) : Except String (JsonMap × Lowering) :=
  match s.1.lookup "type" with
  | some (.array types) =>
      let hasNull := types.any isNullName
      match hasNull, types.filter fun t => !isNullName t, types with
      | true, [kept], _ =>
          .ok (insertEntry (insertEntry s.1 "type" kept) "nullable" (.bool true),
            s.2.append { nullableTypeArrays := [ptrOrRoot pointer] })
      | true, nonNull, _ =>
          .error ("openapi: cannot lower 3.1 -> 3.0: multi-type union `type` array at " ++
            pointer ++ " (3.0 cannot express a union of " ++ toString nonNull.length ++
              " non-null types)")
      | false, _, _ :: _ :: _ =>
          .error ("openapi: cannot lower 3.1 -> 3.0: multi-type `type` array at " ++ pointer ++
            " (3.0 allows only a single type)")
      | false, _, [kept] => .ok (insertEntry s.1 "type" kept, s.2)
      | false, _, [] => .ok s
  | _ => .ok s

/-- Exclusive bounds: a number becomes the bound and a flag. -/
def lowerExclusive (pointer excl bound : String) (s : JsonMap × Lowering) : JsonMap × Lowering :=
  match s.1.lookup excl with
  | some (.number n) =>
      (insertEntry (insertEntry s.1 bound (.number n)) excl (.bool true),
        s.2.append { numericExclusive := [(ptrOrRoot pointer, excl)] })
  | _ => s

/-- `const` becomes an `enum` of one value. -/
def lowerConst (pointer : String) (s : JsonMap × Lowering) : JsonMap × Lowering :=
  match s.1.lookup "const" with
  | some c =>
      (insertEntry (removeEntry s.1 "const") "enum" (.array [c]),
        s.2.append { constToEnum := [ptrOrRoot pointer] })
  | none => s

/-- An array of examples becomes the first of them. -/
def lowerExamples (pointer : String) (s : JsonMap × Lowering) : JsonMap × Lowering :=
  match s.1.lookup "examples" with
  | some (.array (first :: rest)) =>
      (insertEntry (removeEntry s.1 "examples") "example" first,
        s.2.append { examplesToExample := [(ptrOrRoot pointer, rest.length)] })
  | some (.array []) =>
      (removeEntry s.1 "examples", s.2.append { examplesToExample := [(ptrOrRoot pointer, 0)] })
  | _ => s

/-- `lower_schema_object`. -/
def lowerSchemaObject (pointer : String) (map : JsonMap) : Except String (JsonMap × Lowering) := do
  checkKeywords pointer map
  let at_ := ptrOrRoot pointer
  let s := dropKeyword "$schema" { droppedSchemaKeyword := [at_] } (map, {})
  let s := dropKeyword "contentMediaType"
    { droppedContentKeywords := [(at_, "contentMediaType")] } s
  let s := dropKeyword "contentEncoding" { droppedContentKeywords := [(at_, "contentEncoding")] } s
  let s ← lowerType pointer s
  let s := lowerExclusive pointer "exclusiveMinimum" "minimum" s
  let s := lowerExclusive pointer "exclusiveMaximum" "maximum" s
  let s := lowerConst pointer s
  return lowerExamples pointer s

/-! ## The rules, keyword by keyword -/

variable {pointer : String} {m m' : JsonMap} {s s' : JsonMap × Lowering} {k : String}

lemma lookup_dropKeyword {kw : String} (hk : k ≠ kw) (entry : Lowering) :
    (dropKeyword kw entry s).1.lookup k = s.1.lookup k := by
  unfold dropKeyword
  split
  · rw [lookup_removeEntry, if_neg hk]
  · rfl

/-- A numeric exclusive bound becomes the bound, with a flag. -/
lemma lowerExclusive_of_number {excl bound : String} {x : JsonNumber}
    (h : s.1.lookup excl = some (.number x)) :
    (lowerExclusive pointer excl bound s).1 =
      insertEntry (insertEntry s.1 bound (.number x)) excl (.bool true) := by
  unfold lowerExclusive
  rw [h]

lemma lowerExclusive_eq_self {excl bound : String}
    (h : ∀ x, s.1.lookup excl ≠ some (.number x)) : lowerExclusive pointer excl bound s = s := by
  unfold lowerExclusive
  split
  · rename_i x hx
    exact absurd hx (h x)
  · rfl

lemma lookup_lowerExclusive {excl bound : String} (hexcl : k ≠ excl) (hbound : k ≠ bound) :
    (lowerExclusive pointer excl bound s).1.lookup k = s.1.lookup k := by
  unfold lowerExclusive
  split
  · rw [lookup_insertEntry, if_neg hexcl, lookup_insertEntry, if_neg hbound]
  · rfl

lemma lookup_lowerConst (hconst : k ≠ "const") (henum : k ≠ "enum") :
    (lowerConst pointer s).1.lookup k = s.1.lookup k := by
  unfold lowerConst
  split
  · rw [lookup_insertEntry, if_neg henum, lookup_removeEntry, if_neg hconst]
  · rfl

lemma lookup_lowerExamples (hexamples : k ≠ "examples") (hexample : k ≠ "example") :
    (lowerExamples pointer s).1.lookup k = s.1.lookup k := by
  unfold lowerExamples
  split
  · rw [lookup_insertEntry, if_neg hexample, lookup_removeEntry, if_neg hexamples]
  · rw [lookup_removeEntry, if_neg hexamples]
  · rfl

/-- What a type array has to be for the rule to succeed. -/
lemma lowerType_eq_ok (h : lowerType pointer s = .ok s') :
    (s'.1 = s.1 ∧ ∀ types, s.1.lookup "type" = some (.array types) → types = []) ∨
      (∃ kept, s.1.lookup "type" = some (.array [kept]) ∧ isNullName kept = false ∧
        s'.1 = insertEntry s.1 "type" kept) ∨
      ∃ types kept, s.1.lookup "type" = some (.array types) ∧ types.any isNullName = true ∧
        types.filter (fun t => !isNullName t) = [kept] ∧
        s'.1 = insertEntry (insertEntry s.1 "type" kept) "nullable" (.bool true) := by
  unfold lowerType at h
  split at h
  · rename_i types htypes
    dsimp only at h
    cases hnull : types.any isNullName with
    | true =>
      rw [hnull] at h
      cases hkept : types.filter fun t => !isNullName t with
      | nil =>
        rw [hkept] at h
        cases h
      | cons kept others =>
        rw [hkept] at h
        cases others with
        | nil =>
          rw [← Except.ok.inj h]
          exact Or.inr (Or.inr ⟨types, kept, htypes, hnull, hkept, rfl⟩)
        | cons other rest => cases h
    | false =>
      rw [hnull] at h
      match types with
      | [] =>
        rw [← Except.ok.inj h]
        refine Or.inl ⟨rfl, fun others hothers => ?_⟩
        rw [htypes] at hothers
        exact (Json.array.inj (Option.some.inj hothers)).symm
      | [kept] =>
        rw [← Except.ok.inj h]
        have hkept : isNullName kept = false := by simpa using hnull
        exact Or.inr (Or.inl ⟨kept, htypes, hkept, rfl⟩)
      | _ :: _ :: _ => cases h
  · rename_i hnot
    rw [← Except.ok.inj h]
    exact Or.inl ⟨rfl, fun types htypes => absurd htypes (hnot types)⟩

lemma lookup_lowerType (h : lowerType pointer s = .ok s') (htype : k ≠ "type")
    (hnullable : k ≠ "nullable") : s'.1.lookup k = s.1.lookup k := by
  rcases lowerType_eq_ok h with ⟨hsame, -⟩ | ⟨kept, -, -, hkept⟩ | ⟨types, kept, -, -, -, hkept⟩
  · rw [hsame]
  · rw [hkept, lookup_insertEntry, if_neg htype]
  · rw [hkept, lookup_insertEntry, if_neg hnullable, lookup_insertEntry, if_neg htype]

/-- What a successful lowering does to an object, rule by rule. -/
lemma lowerSchemaObject_eq_ok {r : Lowering} (h : lowerSchemaObject pointer m = .ok (m', r)) :
    ∃ s₀ s₁ : JsonMap × Lowering,
      (∀ k, k ≠ "$schema" → k ≠ "contentMediaType" → k ≠ "contentEncoding" →
        s₀.1.lookup k = m.lookup k) ∧
      lowerType pointer s₀ = .ok s₁ ∧
      m' = (lowerExamples pointer (lowerConst pointer
        (lowerExclusive pointer "exclusiveMaximum" "maximum"
          (lowerExclusive pointer "exclusiveMinimum" "minimum" s₁)))).1 := by
  unfold lowerSchemaObject at h
  dsimp only [bind, Except.bind] at h
  split at h
  · cases h
  split at h
  · cases h
  rename_i s₁ hs₁
  refine ⟨_, s₁, fun k hschema hmedia hencoding => ?_, hs₁, ?_⟩
  · rw [lookup_dropKeyword hencoding, lookup_dropKeyword hmedia, lookup_dropKeyword hschema]
  · exact congrArg Prod.fst (Except.ok.inj h).symm

lemma dropKeyword_congr (kw : String) (e e' : Lowering) (h : s.1 = s'.1) :
    (dropKeyword kw e s).1 = (dropKeyword kw e' s').1 := by
  obtain ⟨m, r⟩ := s
  obtain ⟨m', r'⟩ := s'
  obtain rfl : m = m' := h
  unfold dropKeyword
  dsimp only
  split <;> rfl

/-- What the rule for types leaves depends on the object only. -/
lemma lowerType_congr (p p' : String) (h : s.1 = s'.1) :
    (lowerType p s).toOption.map Prod.fst = (lowerType p' s').toOption.map Prod.fst := by
  obtain ⟨m, r⟩ := s
  obtain ⟨m', r'⟩ := s'
  obtain rfl : m = m' := h
  unfold lowerType
  dsimp only
  split
  · split <;> rfl
  · rfl

lemma lowerExclusive_congr (p p' excl bound : String) (h : s.1 = s'.1) :
    (lowerExclusive p excl bound s).1 = (lowerExclusive p' excl bound s').1 := by
  obtain ⟨m, r⟩ := s
  obtain ⟨m', r'⟩ := s'
  obtain rfl : m = m' := h
  unfold lowerExclusive
  dsimp only
  split <;> rfl

lemma lowerConst_congr (p p' : String) (h : s.1 = s'.1) :
    (lowerConst p s).1 = (lowerConst p' s').1 := by
  obtain ⟨m, r⟩ := s
  obtain ⟨m', r'⟩ := s'
  obtain rfl : m = m' := h
  unfold lowerConst
  dsimp only
  split <;> rfl

lemma lowerExamples_congr (p p' : String) (h : s.1 = s'.1) :
    (lowerExamples p s).1 = (lowerExamples p' s').1 := by
  obtain ⟨m, r⟩ := s
  obtain ⟨m', r'⟩ := s'
  obtain rfl : m = m' := h
  unfold lowerExamples
  dsimp only
  split <;> rfl

/-- What is left of an object does not depend on its pointer. -/
lemma lowerSchemaObject_congr (p p' : String) (m : JsonMap) :
    (lowerSchemaObject p m).toOption.map Prod.fst =
      (lowerSchemaObject p' m).toOption.map Prod.fst := by
  unfold lowerSchemaObject checkKeywords
  cases unsupportedKeywords.find? fun kw => (m.lookup kw).isSome with
  | some kw => rfl
  | none =>
    dsimp only [bind, Except.bind]
    have hdropped := dropKeyword_congr "contentEncoding"
      { droppedContentKeywords := [(ptrOrRoot p, "contentEncoding")] }
      { droppedContentKeywords := [(ptrOrRoot p', "contentEncoding")] }
      (dropKeyword_congr "contentMediaType"
        { droppedContentKeywords := [(ptrOrRoot p, "contentMediaType")] }
        { droppedContentKeywords := [(ptrOrRoot p', "contentMediaType")] }
        (dropKeyword_congr "$schema" { droppedSchemaKeyword := [ptrOrRoot p] }
          { droppedSchemaKeyword := [ptrOrRoot p'] }
          (rfl : ((m, {}) : JsonMap × Lowering).1 = ((m, {}) : JsonMap × Lowering).1)))
    have htype := lowerType_congr p p' hdropped
    split
    · rename_i error herror
      rw [herror] at htype
      split
      · rfl
      · rename_i s' hs'
        rw [hs'] at htype
        cases htype
    · rename_i s hs
      rw [hs] at htype
      split
      · rename_i error herror
        rw [herror] at htype
        cases htype
      · rename_i s' hs'
        rw [hs'] at htype
        have hsame : s.1 = s'.1 := Option.some.inj htype
        exact congrArg some (lowerExamples_congr p p' (lowerConst_congr p p'
          (lowerExclusive_congr p p' _ _ (lowerExclusive_congr p p' _ _ hsame))))

/-! ## The document -/

/-- The children of an object, one after another. -/
def walkEntries (f : String → Json → Except String (Json × Lowering)) :
    JsonMap → Except String (JsonMap × Lowering)
  | [] => .ok ([], {})
  | (k, v) :: rest => do
      let (v, r) ← f k v
      let (rest, r') ← walkEntries f rest
      return ((k, v) :: rest, r.append r')

/-- The elements of an array, one after another, from the `i`-th on. -/
def walkItems (f : Nat → Json → Except String (Json × Lowering)) (i : Nat) :
    List Json → Except String (List Json × Lowering)
  | [] => .ok ([], {})
  | v :: rest => do
      let (v, r) ← f i v
      let (rest, r') ← walkItems f (i + 1) rest
      return (v :: rest, r.append r')

mutual

/-- How deep a value is.  An object counts twice, since a `const` is one deeper as an `enum`. -/
def depth : Json → Nat
  | .array elems => depthItems elems + 1
  | .object entries => depthEntries entries + 2
  | _ => 0

/-- How deep the deepest element is. -/
def depthItems : List Json → Nat
  | [] => 0
  | v :: rest => max (depth v) (depthItems rest)

/-- How deep the deepest child is. -/
def depthEntries : List (String × Json) → Nat
  | [] => 0
  | (_, v) :: rest => max (depth v) (depthEntries rest)

end

/-- `walk`, to a given depth. -/
def walkTo : Nat → String → Json → Except String (Json × Lowering)
  | 0, _, v => .ok (v, {})
  | fuel + 1, pointer, v =>
      match v with
      | .object map => do
          let (map, r) ← lowerSchemaObject pointer map
          let (map, r') ← walkEntries
            (fun k w => walkTo fuel (pointer ++ "/" ++ escapeToken k) w) map
          return (.object map, r.append r')
      | .array elems => do
          let (elems, r) ← walkItems
            (fun i w => walkTo fuel (pointer ++ "/" ++ toString i) w) 0 elems
          return (.array elems, r)
      | _ => .ok (v, {})

/-- `walk`. -/
def walk (pointer : String) (v : Json) : Except String (Json × Lowering) :=
  walkTo (depth v) pointer v

/-- `lower_to_30`. -/
def lowerTo30 (spec : Json) : Except String (Json × Lowering) :=
  if (spec.get? "webhooks").isSome then
    .error ("openapi: cannot lower 3.1 -> 3.0: top-level `webhooks` (at /webhooks) has no 3.0 " ++
      "equivalent")
  else do
    let (spec, r) ← walk "" spec
    match spec with
    | .object map => return (.object (insertEntry map "openapi" (.string "3.0.3")), r)
    | other => return (other, r)

/-! ## The depth of what is left -/

/-- The keys under which the rules put something. -/
def changedKeys : List String :=
  ["type", "nullable", "minimum", "exclusiveMinimum", "maximum", "exclusiveMaximum", "enum",
    "example"]

/-- What is left has entries of the object and, under the changed keys, others that are at most one
deeper. -/
def Derived (m m' : JsonMap) : Prop :=
  ∀ e ∈ m', e ∈ m ∨ e.1 ∈ changedKeys ∧ depth e.2 ≤ depthEntries m + 1

/-- A child is no deeper than the deepest one. -/
lemma depth_le_of_mem {e : String × Json} (h : e ∈ m) : depth e.2 ≤ depthEntries m := by
  induction m with
  | nil => cases h
  | cons e' rest ih =>
    obtain ⟨k', v'⟩ := e'
    unfold depthEntries
    rcases List.mem_cons.mp h with rfl | h
    · exact le_max_left _ _
    · exact le_trans (ih h) (le_max_right _ _)

/-- An element is no deeper than the deepest one. -/
lemma depth_le_of_mem_items {v : Json} {elems : List Json} (h : v ∈ elems) :
    depth v ≤ depthItems elems := by
  induction elems with
  | nil => cases h
  | cons w rest ih =>
    unfold depthItems
    rcases List.mem_cons.mp h with rfl | h
    · exact le_max_left _ _
    · exact le_trans (ih h) (le_max_right _ _)

lemma mem_of_lookup {v : Json} (h : m.lookup k = some v) : (k, v) ∈ m := by
  obtain ⟨before, after, rfl, -⟩ := List.lookup_eq_some_iff.mp h
  exact List.mem_append_right _ List.mem_cons_self

lemma Derived.remove (h : Derived m m') (k : String) : Derived m (removeEntry m' k) :=
  fun e he => h e (List.mem_filter.mp he).1

lemma Derived.insert (h : Derived m m') (hk : k ∈ changedKeys) {v : Json}
    (hv : depth v ≤ depthEntries m + 1) : Derived m (insertEntry m' k v) := by
  intro e he
  rcases List.mem_cons.mp he with rfl | he
  · exact Or.inr ⟨hk, hv⟩
  · exact h.remove k e he

lemma Derived.depth_le (h : Derived m m') {v : Json} (hv : m'.lookup k = some v) :
    depth v ≤ depthEntries m + 1 := by
  rcases h (k, v) (mem_of_lookup hv) with hmem | ⟨-, hdepth⟩
  · exact le_trans (depth_le_of_mem hmem) (Nat.le_succ _)
  · exact hdepth

lemma Derived.depth_item_le (h : Derived m m') {elems : List Json}
    (helems : m'.lookup k = some (.array elems)) {v : Json} (hv : v ∈ elems) :
    depth v ≤ depthEntries m + 1 := by
  have harray := h.depth_le helems
  have hitem := depth_le_of_mem_items hv
  rw [depth] at harray
  omega

lemma Derived.dropKeyword (h : Derived m s.1) (kw : String) (entry : Lowering) :
    Derived m (dropKeyword kw entry s).1 := by
  unfold OpenApi.dropKeyword
  split
  · exact h.remove kw
  · exact h

/-- The type that is kept was listed. -/
lemma Derived.lowerType (h : Derived m s.1) (hs : lowerType pointer s = .ok s') :
    Derived m s'.1 := by
  rcases lowerType_eq_ok hs with ⟨hsame, -⟩ | ⟨kept, htype, -, hmap⟩ |
    ⟨types, kept, htype, -, hkept, hmap⟩
  · rw [hsame]
    exact h
  · rw [hmap]
    exact h.insert (by decide) (h.depth_item_le htype List.mem_cons_self)
  · have hin : kept ∈ types.filter fun t => !isNullName t := by
      rw [hkept]
      exact List.mem_cons_self
    rw [hmap]
    refine (h.insert (by decide) (h.depth_item_le htype (List.mem_filter.mp hin).1)).insert
      (by decide) ?_
    exact Nat.zero_le _

lemma Derived.lowerExclusive (h : Derived m s.1) {excl bound : String} (hexcl : excl ∈ changedKeys)
    (hbound : bound ∈ changedKeys) : Derived m (lowerExclusive pointer excl bound s).1 := by
  unfold OpenApi.lowerExclusive
  split
  · exact (h.insert hbound (Nat.zero_le _)).insert hexcl (Nat.zero_le _)
  · exact h

/-- A constant is one deeper as an `enum`. -/
lemma Derived.lowerConst (h : Derived m s.1) : Derived m (lowerConst pointer s).1 := by
  unfold OpenApi.lowerConst
  split
  · rename_i c hc
    refine (h.remove "const").insert (by decide) ?_
    have hmem : ("const", c) ∈ m := by
      rcases h ("const", c) (mem_of_lookup hc) with hmem | ⟨hkey, -⟩
      · exact hmem
      · have hconst : ("const" : String) ∉ changedKeys := by decide
        exact absurd hkey hconst
    have hdepth := depth_le_of_mem hmem
    rw [depth, depthItems, depthItems]
    simpa using hdepth
  · exact h

lemma Derived.lowerExamples (h : Derived m s.1) : Derived m (lowerExamples pointer s).1 := by
  unfold OpenApi.lowerExamples
  split
  · rename_i first rest hexamples
    exact (h.remove "examples").insert (by decide) (h.depth_item_le hexamples List.mem_cons_self)
  · exact h.remove "examples"
  · exact h

/-- What the lowering leaves of an object. -/
lemma derived_lowerSchemaObject {r : Lowering} (h : lowerSchemaObject pointer m = .ok (m', r)) :
    Derived m m' := by
  unfold lowerSchemaObject at h
  dsimp only [bind, Except.bind] at h
  split at h
  · cases h
  split at h
  · cases h
  rename_i s₁ hs₁
  have hmap : (lowerExamples pointer (lowerConst pointer
      (lowerExclusive pointer "exclusiveMaximum" "maximum"
        (lowerExclusive pointer "exclusiveMinimum" "minimum" s₁)))).1 = m' :=
    congrArg Prod.fst (Except.ok.inj h)
  rw [← hmap]
  have hself : Derived m ((m, {}) : JsonMap × Lowering).1 := fun e he => Or.inl he
  have htype := (((hself.dropKeyword "$schema" _).dropKeyword "contentMediaType" _).dropKeyword
    "contentEncoding" _).lowerType hs₁
  exact ((htype.lowerExclusive (by decide) (by decide)).lowerExclusive (by decide)
    (by decide)).lowerConst.lowerExamples

/-- What is left of an object is at most one deeper. -/
lemma depthEntries_of_derived (h : Derived m m') : depthEntries m' ≤ depthEntries m + 1 := by
  have hall : ∀ es : JsonMap, (∀ e ∈ es, depth e.2 ≤ depthEntries m + 1) →
      depthEntries es ≤ depthEntries m + 1 := by
    intro es
    induction es with
    | nil => exact fun _ => Nat.zero_le _
    | cons e rest ih =>
      intro hdepth
      obtain ⟨k, v⟩ := e
      rw [depthEntries]
      exact max_le (hdepth (k, v) List.mem_cons_self)
        (ih fun e he => hdepth e (List.mem_cons_of_mem _ he))
  refine hall m' fun e he => ?_
  rcases h e he with hmem | ⟨-, hdepth⟩
  · exact le_trans (depth_le_of_mem hmem) (Nat.le_succ _)
  · exact hdepth

/-- The children of an object are walked alike by two functions that agree on them. -/
lemma walkEntries_congr {f g : String → Json → Except String (Json × Lowering)} {es : JsonMap}
    (h : ∀ e ∈ es, f e.1 e.2 = g e.1 e.2) : walkEntries f es = walkEntries g es := by
  induction es with
  | nil => rfl
  | cons e rest ih =>
    obtain ⟨k, v⟩ := e
    have hhead : f k v = g k v := h (k, v) List.mem_cons_self
    unfold walkEntries
    rw [hhead, ih fun e he => h e (List.mem_cons_of_mem _ he)]

lemma walkItems_congr {f g : Nat → Json → Except String (Json × Lowering)} {elems : List Json}
    (h : ∀ i, ∀ v ∈ elems, f i v = g i v) (i : Nat) :
      walkItems f i elems = walkItems g i elems := by
  induction elems generalizing i with
  | nil => rfl
  | cons v rest ih =>
    unfold walkItems
    rw [h i v List.mem_cons_self, ih fun i w hw => h i w (List.mem_cons_of_mem _ hw)]

/-- The depth of a value bounds the recursion of `walk`: going deeper changes nothing. -/
theorem walk_depth (pointer : String) (v : Json) (n : Nat) (h : depth v ≤ n) :
    walkTo n pointer v = walk pointer v := by
  have hstep : ∀ n n' v pointer, depth v ≤ n → depth v ≤ n' →
      walkTo n pointer v = walkTo n' pointer v := by
    intro n
    induction n with
    | zero =>
      intro n' v pointer hn hn'
      cases v with
      | array elems => simp [depth] at hn
      | object m => simp [depth] at hn
      | null => cases n' <;> rfl
      | bool b => cases n' <;> rfl
      | number x => cases n' <;> rfl
      | string x => cases n' <;> rfl
    | succ n ih =>
      intro n' v pointer hn hn'
      cases v with
      | array elems =>
        rw [depth] at hn hn'
        obtain ⟨n', rfl⟩ : ∃ j, n' = j + 1 := ⟨n' - 1, by omega⟩
        unfold walkTo
        have hitems : ∀ (i : Nat), ∀ w ∈ elems, walkTo n (pointer ++ "/" ++ toString i) w =
            walkTo n' (pointer ++ "/" ++ toString i) w := by
          intro i w hw
          have hdepth := depth_le_of_mem_items hw
          exact ih n' w _ (by omega) (by omega)
        dsimp only
        rw [walkItems_congr hitems]
      | object m =>
        rw [depth] at hn hn'
        obtain ⟨n', rfl⟩ : ∃ j, n' = j + 1 := ⟨n' - 1, by omega⟩
        unfold walkTo
        dsimp only
        cases hlower : lowerSchemaObject pointer m with
        | error e => rfl
        | ok out =>
          obtain ⟨m', r⟩ := out
          have hleft := depthEntries_of_derived (derived_lowerSchemaObject hlower)
          have hentries : ∀ e ∈ m', walkTo n (pointer ++ "/" ++ escapeToken e.1) e.2 =
              walkTo n' (pointer ++ "/" ++ escapeToken e.1) e.2 := by
            intro e he
            have hdepth := depth_le_of_mem he
            exact ih n' e.2 _ (by omega) (by omega)
          dsimp only [bind, Except.bind]
          rw [walkEntries_congr (f := fun k w => walkTo n (pointer ++ "/" ++ escapeToken k) w)
            (g := fun k w => walkTo n' (pointer ++ "/" ++ escapeToken k) w) hentries]
      | null => cases n' <;> rfl
      | bool b => cases n' <;> rfl
      | number x => cases n' <;> rfl
      | string x => cases n' <;> rfl
  exact hstep n (depth v) v pointer h (Nat.le_refl _)

end Orca.OpenApi
