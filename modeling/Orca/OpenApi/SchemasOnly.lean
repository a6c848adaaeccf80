import Orca.OpenApi.LiveKeywords
import Mathlib.Data.List.Forall2

/-!
# When the lowering touches schemas only

`walk` applies the rules for schema objects to every object of a document.  What it should do is
`lowerSchemas`: apply them where a schema stands, and leave literal values and the keys of name
maps alone.  The two agree as long as no other object has a keyword that the rules act on, so a
property that is called `const` is lost.

What the rules do to an object can be seen from the outside, so equal outcomes leave no such object
(`agreement_spares`), and without such an object the outcomes are equal
(`traverse_lowerSchema_eq`).
-/

namespace Orca.OpenApi

variable {m m' : JsonMap} {k : String} {n : Nat}

/-! ## Two traversals -/

/-- A lowered object has entries of the object and, under the changed keys, others. -/
lemma derived_of_lowered (h : lowered m = some m') : Derived m m' := by
  unfold lowered at h
  cases hlower : lowerSchemaObject "" m with
  | error e =>
    rw [hlower] at h
    cases h
  | ok out =>
    obtain ⟨map, r⟩ := out
    rw [hlower] at h
    obtain rfl : map = m' := Option.some.inj h
    exact derived_lowerSchemaObject hlower

lemma shallow_lowerAll : Shallow lowerAll :=
  fun _ _ _ h => depthEntries_of_derived (derived_of_lowered h)

lemma shallow_lowerSchema : Shallow lowerSchema := by
  intro place map map' h
  unfold lowerSchema at h
  split at h
  · exact depthEntries_of_derived (derived_of_lowered h)
  · obtain rfl := Option.some.inj h
    exact Nat.le_succ _

/-- A schema that the lowering of the schemas meets is one of the document: what the rules put
somewhere is a literal. -/
theorem occurs_of_meets {place place' : Place} {v : Json} (h : Meets lowerSchema place v place' m)
    (hschema : place' = .schema) : Occurs place v .schema m := by
  induction h with
  | here place map =>
    subst hschema
    exact Meets.here _ _
  | @entry place place' map map' map'' e hchange he hmeets ih =>
    unfold lowerSchema at hchange
    by_cases hplace : place = .schema
    · rw [if_pos hplace] at hchange
      rcases derived_of_lowered hchange e he with hmem | ⟨hkey, -⟩
      · exact Meets.entry rfl hmem (ih hschema)
      · have hliteral : ∀ key ∈ changedKeys, Place.schema.child key = .literal := by decide
        subst hplace
        rw [hliteral e.1 hkey] at hmeets
        rw [hmeets.literal] at hschema
        cases hschema
    · rw [if_neg hplace] at hchange
      obtain rfl := Option.some.inj hchange
      exact Meets.entry rfl he (ih hschema)
  | item hv _ ih => exact Meets.item hv (ih hschema)

/-- Where no object but the schemas has a keyword that the rules act on, it makes no difference
whether the others are lowered. -/
theorem traverse_lowerSchema_eq {place : Place} {v : Json} (hdepth : depth v ≤ n)
    (h : ∀ place' map, Meets lowerSchema place v place' map → place' ≠ .schema → ¬ Live map) :
    traverse lowerAll n place v = traverse lowerSchema n place v := by
  induction n generalizing place v with
  | zero => rfl
  | succ n ih =>
    cases v with
    | array elems =>
      rw [depth] at hdepth
      unfold traverse
      dsimp only
      refine congrArg _ (traverseItems_congr fun w hw => ih ?_ fun place' map hmeets =>
        h place' map (Meets.item hw hmeets))
      have hbelow := depth_le_of_mem_items hw
      omega
    | object m =>
      rw [depth] at hdepth
      have hsame : lowerAll place m = lowerSchema place m := by
        unfold lowerAll lowerSchema
        by_cases hplace : place = .schema
        · rw [if_pos hplace]
        · rw [if_neg hplace]
          exact lowered_eq_self (h place m (Meets.here place m) hplace)
      unfold traverse
      dsimp only
      rw [hsame]
      cases hchange : lowerSchema place m with
      | none => rfl
      | some m' =>
        have hleft := shallow_lowerSchema place m m' hchange
        rw [Option.bind_some, Option.bind_some]
        refine congrArg _ (traverseEntries_congr fun e he => ih ?_ fun place' map hmeets =>
          h place' map (Meets.entry hchange he hmeets))
        have hbelow := depth_le_of_mem he
        omega
    | _ => rfl

/-- An array and one of its elements are not traversed to the same value. -/
lemma traverse_item_ne {place place' : Place} {elems : List Json} {v w : Json}
    (hv : traverse lowerAll n place v = some w)
    (harray : traverse lowerSchema n place' (.array elems) = some w) : v ∉ elems := by
  induction n generalizing v w elems with
  | zero =>
    intro hmem
    have hsize := List.sizeOf_lt_of_mem hmem
    obtain rfl : v = w := Option.some.inj hv
    obtain rfl : Json.array elems = v := Option.some.inj harray
    rw [Json.array.sizeOf_spec] at hsize
    omega
  | succ n ih =>
    intro hmem
    unfold traverse at hv harray
    dsimp only at hv harray
    obtain ⟨ws, hws, rfl⟩ := Option.map_eq_some_iff.mp harray
    cases v with
    | array inner =>
      dsimp only at hv
      obtain ⟨ws', hws', heq⟩ := Option.map_eq_some_iff.mp hv
      obtain rfl := Json.array.inj heq
      -- the element at the same index as the inner array is one level further in
      obtain ⟨i, hi, hget⟩ := List.getElem_of_mem hmem
      have houter := traverseItems_eq_some_iff.mp hws
      have hinner := traverseItems_eq_some_iff.mp hws'
      have hlength := houter.length_eq
      have hlength' := hinner.length_eq
      have hat := (List.forall₂_iff_get.mp houter).2 i hi (by omega)
      have hat' := (List.forall₂_iff_get.mp hinner).2 i (by omega) (by omega)
      simp only [List.get_eq_getElem] at hat hat'
      rw [hget] at hat
      exact ih hat' hat (List.getElem_mem _)
    | object map =>
      dsimp only at hv
      obtain ⟨left, -, hleft⟩ := Option.bind_eq_some_iff.mp hv
      obtain ⟨map', -, heq⟩ := Option.map_eq_some_iff.mp hleft
      cases heq
    | _ => cases hv

/-- An object that is lowered and then traversed with the same outcome as without has no keyword
that the rules act on. -/
lemma not_live_of_same_outcome {place : Place} {ws : JsonMap} (hlowered : lowered m = some m')
    (hall : traverseEntries (fun k w => traverse lowerAll n (place.child k) w) m' = some ws)
    (hschemas : traverseEntries (fun k w => traverse lowerSchema n (place.child k) w) m = some ws) :
    ¬ Live m := by
  intro hlive
  have hscalar : ∀ (change : Place → JsonMap → Option JsonMap) (place : Place),
      (∀ x, traverse change n place (.number x) = some (.number x)) ∧
      ∀ b, traverse change n place (.bool b) = some (.bool b) := by
    intro change place
    cases n with
    | zero => exact ⟨fun _ => rfl, fun _ => rfl⟩
    | succ n => exact ⟨fun _ => rfl, fun _ => rfl⟩
  rcases lowered_differs hlowered hlive with ⟨k, hsome, hnone⟩ | ⟨k, x, hx, htrue⟩ |
    ⟨types, kept, htypes, hkept, htype⟩
  · have hgone := isSome_lookup_traverseEntries hall k
    rw [hnone, isSome_lookup_traverseEntries hschemas k, hsome] at hgone
    cases hgone
  · have hflag := lookup_traverseEntries hall k
    have hnumber := lookup_traverseEntries hschemas k
    rw [htrue, Option.bind_some, (hscalar _ _).2] at hflag
    rw [hx, Option.bind_some, (hscalar _ _).1, hflag] at hnumber
    cases hnumber
  · have hone := lookup_traverseEntries hall "type"
    have hmany := lookup_traverseEntries hschemas "type"
    rw [htype, Option.bind_some] at hone
    rw [htypes, Option.bind_some] at hmany
    have hfound : (ws.lookup "type").isSome := by
      rw [isSome_lookup_traverseEntries hschemas "type", htypes]
      rfl
    obtain ⟨w, hw⟩ := Option.isSome_iff_exists.mp hfound
    rw [hw] at hone hmany
    exact traverse_item_ne hone.symm hmany.symm hkept

/-- If it makes no difference whether the objects other than schemas are lowered, then none of them
has a keyword that the rules act on. -/
theorem agreement_spares {place place' : Place} {v w : Json} (hdepth : depth v ≤ n)
    (hall : traverse lowerAll n place v = some w)
    (hschemas : traverse lowerSchema n place v = some w)
    (hmeets : Meets lowerSchema place v place' m) (hplace : place' ≠ .schema) : ¬ Live m := by
  induction n generalizing place v w with
  | zero =>
    cases v with
    | array elems => simp [depth] at hdepth
    | object m => simp [depth] at hdepth
    | _ => cases hmeets
  | succ n ih =>
    cases v with
    | array elems =>
      rw [depth] at hdepth
      unfold traverse at hall hschemas
      dsimp only at hall hschemas
      obtain ⟨ws, hws, rfl⟩ := Option.map_eq_some_iff.mp hall
      obtain ⟨ws', hws', heq⟩ := Option.map_eq_some_iff.mp hschemas
      obtain rfl := Json.array.inj heq
      cases hmeets with
      | item hv hmeets =>
        obtain ⟨w, hw, hw'⟩ := traverseItems_agree hws hws' hv
        have hbelow := depth_le_of_mem_items hv
        exact ih (by omega) hw hw' hmeets
    | object top =>
      rw [depth] at hdepth
      unfold traverse at hall hschemas
      dsimp only at hall hschemas
      obtain ⟨left, hleft, hmap⟩ := Option.bind_eq_some_iff.mp hall
      obtain ⟨ws, hws, rfl⟩ := Option.map_eq_some_iff.mp hmap
      obtain ⟨left', hleft', hmap'⟩ := Option.bind_eq_some_iff.mp hschemas
      obtain ⟨ws', hws', heq⟩ := Option.map_eq_some_iff.mp hmap'
      obtain rfl := Json.object.inj heq
      -- an object that is no schema is spared, so both traversals go on with the same children
      have hspared : place ≠ .schema → ¬ Live top := by
        intro hplace
        unfold lowerSchema at hleft'
        rw [if_neg hplace] at hleft'
        obtain rfl := Option.some.inj hleft'
        exact not_live_of_same_outcome hleft hws hws'
      have hsame : left' = left := by
        unfold lowerAll at hleft
        unfold lowerSchema at hleft'
        by_cases hplace : place = .schema
        · rw [if_pos hplace, hleft] at hleft'
          exact (Option.some.inj hleft').symm
        · rw [if_neg hplace] at hleft'
          rw [lowered_eq_self (hspared hplace), hleft'] at hleft
          exact Option.some.inj hleft
      subst hsame
      cases hmeets with
      | here => exact hspared hplace
      | entry hchange he hmeets =>
        rw [hleft'] at hchange
        obtain rfl := Option.some.inj hchange
        obtain ⟨w, hw, hw'⟩ := traverseEntries_agree hws hws' he
        have hbelow := depth_le_of_mem he
        have hshallow := shallow_lowerSchema _ _ _ hleft'
        exact ih (by omega) hw hw' hmeets
    | _ => cases hmeets

/-! ## The walk as a traversal -/

/-- The walk of the children, without its report. -/
lemma walkEntries_erase {f : String → Json → Except String (Json × Lowering)}
    {g : String → Json → Option Json} {es : JsonMap}
    (h : ∀ e ∈ es, (f e.1 e.2).toOption.map Prod.fst = g e.1 e.2) :
    (walkEntries f es).toOption.map Prod.fst = traverseEntries g es := by
  induction es with
  | nil => rfl
  | cons e rest ih =>
    obtain ⟨k, v⟩ := e
    have hhead : (f k v).toOption.map Prod.fst = g k v := h (k, v) List.mem_cons_self
    have htail := ih fun e he => h e (List.mem_cons_of_mem _ he)
    unfold walkEntries traverseEntries
    rw [← hhead, ← htail]
    cases f k v with
    | error e => rfl
    | ok out =>
      cases walkEntries f rest with
      | error e => rfl
      | ok out' => rfl

/-- The walk of the elements, without its report. -/
lemma walkItems_erase {f : Nat → Json → Except String (Json × Lowering)} {g : Json → Option Json}
    {elems : List Json} (h : ∀ i, ∀ v ∈ elems, (f i v).toOption.map Prod.fst = g v) (i : Nat) :
    (walkItems f i elems).toOption.map Prod.fst = traverseItems g elems := by
  induction elems generalizing i with
  | nil => rfl
  | cons v rest ih =>
    have htail := ih (fun i w hw => h i w (List.mem_cons_of_mem _ hw)) (i + 1)
    unfold walkItems traverseItems
    rw [← h i v List.mem_cons_self, ← htail]
    cases f i v with
    | error e => rfl
    | ok out =>
      cases walkItems f (i + 1) rest with
      | error e => rfl
      | ok out' => rfl

/-- The walk, without its report, lowers every object wherever it stands. -/
theorem walkTo_erase (n : Nat) (pointer : String) (place : Place) (v : Json) :
    (walkTo n pointer v).toOption.map Prod.fst = traverse lowerAll n place v := by
  induction n generalizing pointer place v with
  | zero => rfl
  | succ n ih =>
    cases v with
    | array elems =>
      have hitems : (walkItems (fun i w => walkTo n (pointer ++ "/" ++ toString i) w) 0
          elems).toOption.map Prod.fst = traverseItems (traverse lowerAll n place) elems :=
        walkItems_erase (fun i v _ => ih (pointer ++ "/" ++ toString i) place v) 0
      unfold walkTo traverse
      dsimp only
      rw [← hitems]
      cases walkItems (fun i w => walkTo n (pointer ++ "/" ++ toString i) w) 0 elems with
      | error e => rfl
      | ok out => rfl
    | object map =>
      unfold walkTo traverse
      dsimp only
      have hhere : (lowerSchemaObject pointer map).toOption.map Prod.fst = lowerAll place map :=
        lowerSchemaObject_congr pointer "" map
      rw [← hhere]
      cases lowerSchemaObject pointer map with
      | error e => rfl
      | ok out =>
        obtain ⟨map', r⟩ := out
        have hentries : (walkEntries (fun k w => walkTo n (pointer ++ "/" ++ escapeToken k) w)
            map').toOption.map Prod.fst =
              traverseEntries (fun k w => traverse lowerAll n (place.child k) w) map' :=
          walkEntries_erase fun e _ => ih (pointer ++ "/" ++ escapeToken e.1) (place.child e.1) e.2
        change ((walkEntries (fun k w => walkTo n (pointer ++ "/" ++ escapeToken k) w) map').bind
          fun out => Except.ok (Json.object out.1, r.append out.2)).toOption.map Prod.fst =
            (traverseEntries (fun k w => traverse lowerAll n (place.child k) w) map').map
              Json.object
        rw [← hentries]
        cases walkEntries (fun k w => walkTo n (pointer ++ "/" ++ escapeToken k) w) map' with
        | error e => rfl
        | ok out => rfl
    | _ => rfl

/-- The walk of a document, without its report. -/
lemma walk_erase (spec : Json) : (walk "" spec).toOption.map Prod.fst =
    traverse lowerAll (depth spec) .document spec :=
  walkTo_erase (depth spec) "" .document spec

/-! ## The document -/

/-- The version is written into a document. -/
def withVersion (spec : Json) : Json :=
  match spec with
  | .object map => .object (insertEntry map "openapi" (.string "3.0.3"))
  | other => other

/-- What `lower_to_30` does is to walk the document, unless it has webhooks, and to write the
version. -/
lemma lowerTo30_eq (spec : Json) : lowerTo30 spec =
    if (spec.get? "webhooks").isSome then
      .error ("openapi: cannot lower 3.1 -> 3.0: top-level `webhooks` (at /webhooks) has no 3.0 " ++
        "equivalent")
    else (walk "" spec).map fun out => (withVersion out.1, out.2) := by
  unfold lowerTo30
  split
  · rfl
  · cases walk "" spec with
    | error e => rfl
    | ok out =>
      obtain ⟨w, r⟩ := out
      cases w <;> rfl

/-- Lowering a document touches schemas only: if it fails then a schema of the document has an
unsupported keyword, and if it succeeds then what it leaves, save for the version that it writes, is
what the lowering of the schemas leaves. -/
def TouchesSchemasOnly (spec : Json) : Prop :=
  match lowerTo30 spec with
  | .error _ => ∃ m, Occurs .document spec .schema m ∧ UsesUnsupported m
  | .ok (out, r) =>
      ∃ w, walk "" spec = .ok (w, r) ∧ out = withVersion w ∧ lowerSchemas spec = some w

/-- No object of a document but the schemas has a keyword that the rules act on, and no schema has a
type union.  The objects are those of the document as far as the schemas above them are lowered. -/
def SparesTheRest (spec : Json) : Prop :=
  ∀ place m, Meets lowerSchema .document spec place m →
    (place ≠ .schema → ¬ Live m) ∧ ¬ HasTypeUnion m

/-- Where the rest is spared, a failing walk has met a schema with an unsupported keyword. -/
lemma exists_unsupported_schema {spec : Json} (hspares : SparesTheRest spec)
    (hfails : traverse lowerAll (depth spec) .document spec = none) :
    ∃ m, Occurs .document spec .schema m ∧ UsesUnsupported m := by
  rw [traverse_lowerSchema_eq (Nat.le_refl _) fun place map hmeets =>
    (hspares place map hmeets).1] at hfails
  obtain ⟨place, map, hmeets, hstop⟩ :=
    (traverse_eq_none_iff shallow_lowerSchema (Nat.le_refl _)).mp hfails
  unfold lowerSchema at hstop
  by_cases hplace : place = .schema
  · rw [if_pos hplace] at hstop
    rcases lowered_eq_none_iff.mp hstop with hkeyword | hunion
    · exact ⟨map, occurs_of_meets hmeets hplace, hkeyword⟩
    · exact absurd hunion (hspares place map hmeets).2
  · rw [if_neg hplace] at hstop
    cases hstop

/-- Where both lowerings succeed with the same outcome, the rest is spared. -/
lemma sparesTheRest_of_agreement {spec w : Json}
    (hall : traverse lowerAll (depth spec) .document spec = some w)
    (hschemas : lowerSchemas spec = some w) : SparesTheRest spec := by
  intro place m hmeets
  refine ⟨agreement_spares (Nat.le_refl _) hall hschemas hmeets, fun hunion => ?_⟩
  by_cases hplace : place = .schema
  · have hstop : lowerSchema place m = none := by
      unfold lowerSchema
      rw [if_pos hplace]
      exact lowered_eq_none_iff.mpr (Or.inr hunion)
    have hnone := (traverse_eq_none_iff shallow_lowerSchema (Nat.le_refl _)).mpr
      ⟨place, m, hmeets, hstop⟩
    unfold lowerSchemas at hschemas
    rw [hschemas] at hnone
    cases hnone
  · exact not_hasTypeUnion_of_not_live
      (agreement_spares (Nat.le_refl _) hall hschemas hmeets hplace) hunion

/-- Lowering touches schemas only if and only if there are no webhooks, no object but the schemas
has a keyword that the rules act on and no schema has a type union, or a schema has an unsupported
keyword and there are webhooks or the walk meets an object that it cannot lower. -/
theorem lowering_touches_schemas_only_iff (spec : Json) : TouchesSchemasOnly spec ↔
    ((spec.get? "webhooks").isSome = false ∧ SparesTheRest spec) ∨
      (∃ m, Occurs .document spec .schema m ∧ UsesUnsupported m) ∧
        ((spec.get? "webhooks").isSome ∨ ∃ place m, Meets lowerAll .document spec place m ∧
          (UsesUnsupported m ∨ HasTypeUnion m)) := by
  have hwalk := walk_erase spec
  unfold TouchesSchemasOnly
  rw [lowerTo30_eq]
  cases hwebhooks : (spec.get? "webhooks").isSome with
  | true => simp
  | false =>
    rw [if_neg (by simp)]
    cases hresult : walk "" spec with
    | error e =>
      rw [hresult] at hwalk
      have hnone : traverse lowerAll (depth spec) .document spec = none := hwalk.symm
      obtain ⟨place, m, hmeets, hstop⟩ :=
        (traverse_eq_none_iff shallow_lowerAll (Nat.le_refl _)).mp hnone
      constructor
      · intro h
        exact Or.inr ⟨h, Or.inr ⟨place, m, hmeets, lowered_eq_none_iff.mp hstop⟩⟩
      · rintro (⟨-, hspares⟩ | ⟨h, -⟩)
        · exact exists_unsupported_schema hspares hnone
        · exact h
    | ok out =>
      obtain ⟨w, r⟩ := out
      rw [hresult] at hwalk
      have hall : traverse lowerAll (depth spec) .document spec = some w := hwalk.symm
      constructor
      · rintro ⟨w', hw', -, hschemas⟩
        obtain ⟨rfl, -⟩ := Prod.mk.inj (Except.ok.inj hw')
        exact Or.inl ⟨rfl, sparesTheRest_of_agreement hall hschemas⟩
      · rintro (⟨-, hspares⟩ | ⟨-, hfails⟩)
        · refine ⟨w, rfl, rfl, ?_⟩
          unfold lowerSchemas
          rw [← traverse_lowerSchema_eq (Nat.le_refl _) fun place map hmeets =>
            (hspares place map hmeets).1]
          exact hall
        · rcases hfails with hfails | ⟨place, m, hmeets, hstop⟩
          · cases hfails
          · have hnone := (traverse_eq_none_iff shallow_lowerAll (Nat.le_refl _)).mpr
              ⟨place, m, hmeets, lowered_eq_none_iff.mpr hstop⟩
            rw [hall] at hnone
            cases hnone

/-- A map of the properties of an object, with one that is called `const`. -/
def constProperties : JsonMap := [("const", .object [("type", .string "string")])]

/-- A document with one schema, of an object with given properties. -/
def oneSchema (version : String) (properties : JsonMap) : Json :=
  .object [("openapi", .string version), ("components", .object [("schemas", .object [("A",
      .object [("type", .string "object"), ("properties", .object properties)])])]),
    ("info", .object [("title", .string "t"), ("version", .string "1")]), ("paths", .object [])]

/-- A property called `const` is lost: in its stead there is one called `enum`, whose schema is an
array. -/
theorem property_called_const_is_lost :
    (∃ r, lowerTo30 (oneSchema "3.1.0" constProperties) = .ok (oneSchema "3.0.3"
      [("enum", .array [.object [("type", .string "string")]])], r)) ∧
      ¬ TouchesSchemasOnly (oneSchema "3.1.0" constProperties) := by
  have hresult : ∃ w r, walk "" (oneSchema "3.1.0" constProperties) = .ok (w, r) ∧
      withVersion w = oneSchema "3.0.3"
        [("enum", .array [.object [("type", .string "string")]])] := ⟨_, _, rfl, rfl⟩
  obtain ⟨w, r, hwalk, hversion⟩ := hresult
  have hlowered : lowerTo30 (oneSchema "3.1.0" constProperties) = .ok (withVersion w, r) := by
    rw [lowerTo30_eq, if_neg (by decide), hwalk]
    rfl
  refine ⟨⟨r, ?_⟩, fun h => ?_⟩
  · rw [hlowered, hversion]
  · unfold TouchesSchemasOnly at h
    rw [hlowered] at h
    obtain ⟨w', hw', -, hschemas⟩ := h
    have hall := walk_erase (oneSchema "3.1.0" constProperties)
    rw [hw'] at hall
    have hspares := sparesTheRest_of_agreement hall.symm hschemas
    have hmeets : Meets lowerSchema .document (oneSchema "3.1.0" constProperties) (.names .schema)
        constProperties :=
      Meets.entry rfl (List.mem_cons_of_mem _ List.mem_cons_self)
        (Meets.entry rfl List.mem_cons_self (Meets.entry rfl List.mem_cons_self
          (Meets.entry rfl (List.mem_cons_of_mem _ List.mem_cons_self) (Meets.here _ _))))
    have hlive : Live constProperties := Or.inr (Or.inl ⟨"const", by decide, rfl⟩)
    exact (hspares _ _ hmeets).1 (by decide) hlive

end Orca.OpenApi
