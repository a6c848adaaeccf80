import Orca.OpenApi.Lower31

/-!
# Where schemas stand in a document

What an object of an OpenAPI document is depends on where it stands: a schema, a map of names that
the author of the document chooses, a literal value, or an object of the specification with its own
fields.  `Place` says which, and `lowerSchemas` is the lowering that looks at it: it applies the
rules for schema objects to schema objects and leaves everything else with its keys.

Both this lowering and `walk` are a `traverse`, with what is done to an object as a parameter.  An
array stands where its elements stand.
-/

namespace Orca.OpenApi

/-! ## Places -/

/-- What a value of the document is. -/
inductive Place where
  | document
  | components
  | pathItem
  | operation
  | parameter
  | requestBody
  /-- The body in one media type. -/
  | mediaType
  /-- How a part of a body is encoded. -/
  | encoding
  | response
  | schema
  /-- A literal value, or an object with no schema beneath. -/
  | literal
  /-- A map whose keys are names of the author's choice. -/
  | names (place : Place)
  /-- A map whose keys are names, save for extensions. -/
  | patterned (place : Place)
  deriving DecidableEq, Repr

/-- Whether a field is an extension. -/
def isExtension (key : String) : Bool := "x-".toList.isPrefixOf key.toList

/-- The fields of an object beneath which there can be schemas. -/
def Place.fields : Place → List (String × Place)
  | .document => [("components", .components), ("paths", .patterned .pathItem)]
  | .components =>
      [("schemas", .names .schema), ("responses", .names .response),
        ("parameters", .names .parameter), ("requestBodies", .names .requestBody),
        ("headers", .names .parameter), ("callbacks", .names (.patterned .pathItem)),
        ("pathItems", .names .pathItem)]
  | .pathItem =>
      [("get", .operation), ("put", .operation), ("post", .operation), ("delete", .operation),
        ("options", .operation), ("head", .operation), ("patch", .operation),
        ("trace", .operation), ("parameters", .parameter)]
  | .operation =>
      [("parameters", .parameter), ("requestBody", .requestBody),
        ("responses", .patterned .response), ("callbacks", .names (.patterned .pathItem))]
  | .parameter => [("schema", .schema), ("content", .names .mediaType)]
  | .requestBody => [("content", .names .mediaType)]
  | .mediaType => [("schema", .schema), ("encoding", .names .encoding)]
  | .encoding => [("headers", .names .parameter)]
  | .response => [("headers", .names .parameter), ("content", .names .mediaType)]
  | .schema =>
      [("properties", .names .schema), ("patternProperties", .names .schema),
        ("dependentSchemas", .names .schema), ("$defs", .names .schema),
        ("definitions", .names .schema), ("items", .schema), ("additionalProperties", .schema),
        ("contains", .schema), ("propertyNames", .schema), ("contentSchema", .schema),
        ("not", .schema), ("allOf", .schema), ("anyOf", .schema), ("oneOf", .schema)]
  | .literal | .names _ | .patterned _ => []

/-- What the value of a key is.  A field that is not listed has no schema beneath. -/
def Place.child (place : Place) (key : String) : Place :=
  match place with
  | .names inner => inner
  | .patterned inner => if isExtension key then .literal else inner
  | other => (other.fields.lookup key).getD .literal

/-! ## Traversals -/

/-- The children of an object, each by its key. -/
def traverseEntries (f : String → Json → Option Json) : JsonMap → Option JsonMap
  | [] => some []
  | (k, v) :: rest =>
      (f k v).bind fun w => (traverseEntries f rest).map fun others => (k, w) :: others

/-- The elements of an array. -/
def traverseItems (f : Json → Option Json) : List Json → Option (List Json)
  | [] => some []
  | v :: rest => (f v).bind fun w => (traverseItems f rest).map fun others => w :: others

/-- Something is done to every object of a value, from the outside in, to a given depth. -/
def traverse (change : Place → JsonMap → Option JsonMap) : Nat → Place → Json → Option Json
  | 0, _, v => some v
  | fuel + 1, place, v =>
      match v with
      | .object map => (change place map).bind fun map =>
          (traverseEntries (fun k w => traverse change fuel (place.child k) w) map).map .object
      | .array elems => (traverseItems (fun w => traverse change fuel place w) elems).map .array
      | _ => some v

/-- What the lowering of a schema object leaves of it. -/
def lowered (map : JsonMap) : Option JsonMap := (lowerSchemaObject "" map).toOption.map Prod.fst

/-- Every object is lowered. -/
def lowerAll (_ : Place) (map : JsonMap) : Option JsonMap := lowered map

/-- Schema objects are lowered. -/
def lowerSchema (place : Place) (map : JsonMap) : Option JsonMap :=
  if place = .schema then lowered map else some map

/-- The lowering of the schemas of a document, and of nothing else. -/
def lowerSchemas (spec : Json) : Option Json := traverse lowerSchema (depth spec) .document spec

/-! ## What a traversal leaves -/

variable {change : Place → JsonMap → Option JsonMap} {f : String → Json → Option Json}
  {g : Json → Option Json} {map : JsonMap} {es ws : JsonMap} {k : String}

/-- The children of an object one by one. -/
lemma traverseEntries_eq_some_iff : traverseEntries f es = some ws ↔
    List.Forall₂ (fun e w => e.1 = w.1 ∧ f e.1 e.2 = some w.2) es ws := by
  induction es generalizing ws with
  | nil =>
    cases ws with
    | nil => exact iff_of_true rfl List.Forall₂.nil
    | cons w rest =>
      refine iff_of_false (fun h => ?_) (fun h => ?_)
      · cases h
      · cases h
  | cons e rest ih =>
    obtain ⟨k, v⟩ := e
    unfold traverseEntries
    rw [Option.bind_eq_some_iff]
    constructor
    · rintro ⟨w, hw, hrest⟩
      obtain ⟨others, hothers, rfl⟩ := Option.map_eq_some_iff.mp hrest
      exact List.Forall₂.cons ⟨rfl, hw⟩ (ih.mp hothers)
    · intro h
      cases h with
      | cons hhead htail =>
        obtain ⟨rfl, hw⟩ := hhead
        exact ⟨_, hw, Option.map_eq_some_iff.mpr ⟨_, ih.mpr htail, rfl⟩⟩

/-- The elements of an array one by one. -/
lemma traverseItems_eq_some_iff {elems ws : List Json} : traverseItems g elems = some ws ↔
    List.Forall₂ (fun v w => g v = some w) elems ws := by
  induction elems generalizing ws with
  | nil =>
    cases ws with
    | nil => exact iff_of_true rfl List.Forall₂.nil
    | cons w rest =>
      refine iff_of_false (fun h => ?_) (fun h => ?_)
      · cases h
      · cases h
  | cons v rest ih =>
    unfold traverseItems
    rw [Option.bind_eq_some_iff]
    constructor
    · rintro ⟨w, hw, hrest⟩
      obtain ⟨others, hothers, rfl⟩ := Option.map_eq_some_iff.mp hrest
      exact List.Forall₂.cons hw (ih.mp hothers)
    · intro h
      cases h with
      | cons hhead htail =>
        exact ⟨_, hhead, Option.map_eq_some_iff.mpr ⟨_, ih.mpr htail, rfl⟩⟩

/-- A child that cannot be traversed stops the traversal, and nothing else does. -/
lemma traverseEntries_eq_none_iff :
    traverseEntries f es = none ↔ ∃ e ∈ es, f e.1 e.2 = none := by
  induction es with
  | nil => simp [traverseEntries]
  | cons e rest ih =>
    obtain ⟨k, v⟩ := e
    unfold traverseEntries
    rw [List.exists_mem_cons_iff, ← ih]
    cases f k v with
    | none => simp
    | some w => simp

/-- An element that cannot be traversed stops the traversal, and nothing else does. -/
lemma traverseItems_eq_none_iff {elems : List Json} :
    traverseItems g elems = none ↔ ∃ v ∈ elems, g v = none := by
  induction elems with
  | nil => simp [traverseItems]
  | cons v rest ih =>
    unfold traverseItems
    rw [List.exists_mem_cons_iff, ← ih]
    cases g v with
    | none => simp
    | some w => simp

/-- The value of a key after a traversal is the traversed one. -/
lemma lookup_traverseEntries (h : traverseEntries f es = some ws) (k : String) :
    ws.lookup k = (es.lookup k).bind (f k) := by
  have hall := traverseEntries_eq_some_iff.mp h
  clear h
  induction hall with
  | nil => rfl
  | cons hhead _ ih =>
    rename_i e w _ _ _
    obtain ⟨hkey, hvalue⟩ := hhead
    rw [List.lookup_cons, List.lookup_cons, ← hkey]
    by_cases hk : (k == e.1) = true
    · rw [hk, eq_of_beq hk]
      exact hvalue.symm
    · rw [eq_false_of_ne_true hk]
      exact ih

/-- A key is there after a traversal if and only if it was there before. -/
lemma isSome_lookup_traverseEntries (h : traverseEntries f es = some ws) (k : String) :
    (ws.lookup k).isSome = (es.lookup k).isSome := by
  have hall := traverseEntries_eq_some_iff.mp h
  clear h
  induction hall with
  | nil => rfl
  | cons hhead _ ih =>
    rename_i e w _ _ _
    rw [List.lookup_cons, List.lookup_cons, ← hhead.1]
    by_cases hk : (k == e.1) = true
    · rw [hk]
      rfl
    · rw [eq_false_of_ne_true hk]
      exact ih

/-- Two traversals of the same children with the same outcome agree on each child. -/
lemma traverseEntries_agree {f' : String → Json → Option Json} (h : traverseEntries f es = some ws)
    (h' : traverseEntries f' es = some ws) {e : String × Json} (he : e ∈ es) :
    ∃ w, f e.1 e.2 = some w ∧ f' e.1 e.2 = some w := by
  have hall := traverseEntries_eq_some_iff.mp h
  have hall' := traverseEntries_eq_some_iff.mp h'
  clear h h'
  induction hall with
  | nil => cases he
  | cons hhead _ ih =>
    cases hall' with
    | cons hhead' htail' =>
      rcases List.mem_cons.mp he with rfl | he
      · exact ⟨_, hhead.2, hhead'.2⟩
      · exact ih he htail'

/-- Two traversals of the same elements with the same outcome agree on each element. -/
lemma traverseItems_agree {g' : Json → Option Json} {elems ws : List Json}
    (h : traverseItems g elems = some ws) (h' : traverseItems g' elems = some ws) {v : Json}
    (hv : v ∈ elems) : ∃ w, g v = some w ∧ g' v = some w := by
  have hall := traverseItems_eq_some_iff.mp h
  have hall' := traverseItems_eq_some_iff.mp h'
  clear h h'
  induction hall with
  | nil => cases hv
  | cons hhead _ ih =>
    cases hall' with
    | cons hhead' htail' =>
      rcases List.mem_cons.mp hv with rfl | hv
      · exact ⟨_, hhead, hhead'⟩
      · exact ih hv htail'

/-- Two functions that agree on the children traverse them alike. -/
lemma traverseEntries_congr {f' : String → Json → Option Json}
    (h : ∀ e ∈ es, f e.1 e.2 = f' e.1 e.2) : traverseEntries f es = traverseEntries f' es := by
  induction es with
  | nil => rfl
  | cons e rest ih =>
    obtain ⟨k, v⟩ := e
    have hhead : f k v = f' k v := h (k, v) List.mem_cons_self
    unfold traverseEntries
    rw [hhead, ih fun e he => h e (List.mem_cons_of_mem _ he)]

lemma traverseItems_congr {g' : Json → Option Json} {elems : List Json}
    (h : ∀ v ∈ elems, g v = g' v) : traverseItems g elems = traverseItems g' elems := by
  induction elems with
  | nil => rfl
  | cons v rest ih =>
    unfold traverseItems
    rw [h v List.mem_cons_self, ih fun w hw => h w (List.mem_cons_of_mem _ hw)]

/-! ## The objects that a traversal meets -/

/-- A traversal of a value that stands at a place meets an object at another. -/
inductive Meets (change : Place → JsonMap → Option JsonMap) :
    Place → Json → Place → JsonMap → Prop
  | here (place : Place) (map : JsonMap) : Meets change place (.object map) place map
  /-- What is met in a child of what is left of the value. -/
  | entry {place place' : Place} {map map' map'' : JsonMap} {e : String × Json} :
      change place map = some map' → e ∈ map' → Meets change (place.child e.1) e.2 place' map'' →
      Meets change place (.object map) place' map''
  /-- What is met in an element of the value. -/
  | item {place place' : Place} {elems : List Json} {v : Json} {map : JsonMap} :
      v ∈ elems → Meets change place v place' map → Meets change place (.array elems) place' map

/-- An object stands at a place of a value. -/
def Occurs (place : Place) (v : Json) (place' : Place) (map : JsonMap) : Prop :=
  Meets (fun _ map => some map) place v place' map

/-- What is done to an object leaves it at most one deeper. -/
def Shallow (change : Place → JsonMap → Option JsonMap) : Prop :=
  ∀ place map map', change place map = some map' → depthEntries map' ≤ depthEntries map + 1

/-- Beneath a literal there are literals. -/
lemma Meets.literal {place : Place} {v : Json} (h : Meets change .literal v place map) :
    place = .literal := by
  generalize hstart : Place.literal = start at h
  induction h with
  | here place map => rfl
  | entry _ _ _ ih =>
    subst hstart
    exact ih rfl
  | item _ _ ih => exact ih hstart

/-- A traversal that is deep enough stops at an object it meets, or not at all. -/
theorem traverse_eq_none_iff (hshallow : Shallow change) {n : Nat} {place : Place} {v : Json}
    (hdepth : depth v ≤ n) : traverse change n place v = none ↔
      ∃ place' map, Meets change place v place' map ∧ change place' map = none := by
  induction n generalizing place v with
  | zero =>
    cases v with
    | array elems => simp [depth] at hdepth
    | object m => simp [depth] at hdepth
    | _ =>
      refine iff_of_false (fun h => ?_) ?_
      · cases h
      · rintro ⟨place', map, hmeets, -⟩
        cases hmeets
  | succ n ih =>
    cases v with
    | array elems =>
      rw [depth] at hdepth
      unfold traverse
      dsimp only
      rw [Option.map_eq_none_iff, traverseItems_eq_none_iff]
      constructor
      · rintro ⟨w, hw, hnone⟩
        have hbelow := depth_le_of_mem_items hw
        obtain ⟨place', map, hmeets, hstop⟩ := (ih (by omega)).mp hnone
        exact ⟨place', map, Meets.item hw hmeets, hstop⟩
      · rintro ⟨place', map, hmeets, hstop⟩
        cases hmeets with
        | item hw hmeets =>
          have hbelow := depth_le_of_mem_items hw
          exact ⟨_, hw, (ih (by omega)).mpr ⟨place', map, hmeets, hstop⟩⟩
    | object m =>
      rw [depth] at hdepth
      unfold traverse
      dsimp only
      cases hchange : change place m with
      | none => exact iff_of_true rfl ⟨place, m, Meets.here place m, hchange⟩
      | some m' =>
        have hleft := hshallow place m m' hchange
        rw [Option.bind_some, Option.map_eq_none_iff, traverseEntries_eq_none_iff]
        constructor
        · rintro ⟨e, he, hnone⟩
          have hbelow := depth_le_of_mem he
          obtain ⟨place', map, hmeets, hstop⟩ := (ih (by omega)).mp hnone
          exact ⟨place', map, Meets.entry hchange he hmeets, hstop⟩
        · rintro ⟨place', map, hmeets, hstop⟩
          cases hmeets with
          | here =>
            rw [hchange] at hstop
            cases hstop
          | entry hchange' he hmeets =>
            rw [hchange] at hchange'
            obtain rfl := Option.some.inj hchange'
            have hbelow := depth_le_of_mem he
            exact ⟨_, he, (ih (by omega)).mpr ⟨place', map, hmeets, hstop⟩⟩
    | _ =>
      refine iff_of_false (fun h => ?_) ?_
      · cases h
      · rintro ⟨place', map, hmeets, -⟩
        cases hmeets

end Orca.OpenApi
