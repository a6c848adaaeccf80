import Orca.OpenApi.SchemasOnly

/-!
# Lowering a lowered document

What the lowering leaves of a document whose type arrays list strings only has no keyword that the
rules act on, in any of its objects (`not_live_of_lowered`, `not_live_of_traverse`).  The rules move
values to other keys before the walk descends, a constant into `enum` and the first of the examples
into `example`; every object that they move is still one of the document (`StringTypes.lowered`),
and the walk meets it under its new key.

A document without such keywords is walked without a change and without a report
(`walkTo_eq_self`), so a second lowering does nothing.
-/

namespace Orca.OpenApi

variable {m m' ws : JsonMap} {k : String} {v w : Json} {n : Nat}

/-! ## The objects of a value -/

/-- An object stands anywhere in a value. -/
inductive Contains : Json → JsonMap → Prop
  | self (m : JsonMap) : Contains (.object m) m
  | entry {m m' : JsonMap} {e : String × Json} :
      e ∈ m → Contains e.2 m' → Contains (.object m) m'
  | item {elems : List Json} {v : Json} {m : JsonMap} :
      v ∈ elems → Contains v m → Contains (.array elems) m

/-- If the type of an object is an array, it lists strings. -/
def ListsStrings (m : JsonMap) : Prop :=
  ∀ types, m.lookup "type" = some (.array types) → ∀ t ∈ types, ∃ name, t = .string name

/-- The type arrays of all objects of a value list strings. -/
def StringTypes (v : Json) : Prop := ∀ m, Contains v m → ListsStrings m

lemma stringTypes_null : StringTypes .null := by
  intro m hm
  cases hm

lemma stringTypes_bool (b : Bool) : StringTypes (.bool b) := by
  intro m hm
  cases hm

lemma stringTypes_string (name : String) : StringTypes (.string name) := by
  intro m hm
  cases hm

lemma stringTypes_array {elems : List Json} (h : ∀ v ∈ elems, StringTypes v) :
    StringTypes (.array elems) := by
  intro m hm
  cases hm with
  | item hv hm => exact h _ hv m hm

lemma StringTypes.item {elems : List Json} (h : StringTypes (.array elems)) (hv : v ∈ elems) :
    StringTypes v := fun m hm => h m (Contains.item hv hm)

lemma StringTypes.singleton (h : StringTypes v) : StringTypes (.array [v]) := by
  refine stringTypes_array fun w hw => ?_
  obtain rfl := List.mem_singleton.mp hw
  exact h

/-! ## What the rules move -/

/-- The type arrays beneath an object list strings. -/
def ChildTypes (m : JsonMap) : Prop := ∀ e ∈ m, StringTypes e.2

lemma StringTypes.children (h : StringTypes (.object m)) : ChildTypes m :=
  fun _ he m' hm' => h m' (Contains.entry he hm')

lemma stringTypes_object (h : ListsStrings m) (hchildren : ChildTypes m) :
    StringTypes (.object m) := by
  intro m' hm'
  cases hm' with
  | self => exact h
  | entry he hm' => exact hchildren _ he m' hm'

lemma ChildTypes.remove (h : ChildTypes m) (k : String) : ChildTypes (removeEntry m k) :=
  fun e he => h e (List.mem_filter.mp he).1

lemma ChildTypes.insert (h : ChildTypes m) (k : String) (hv : StringTypes v) :
    ChildTypes (insertEntry m k v) := by
  intro e he
  rcases List.mem_cons.mp he with rfl | he
  · exact hv
  · exact h.remove k e he

lemma ChildTypes.lookup (h : ChildTypes m) (hv : m.lookup k = some v) : StringTypes v :=
  h (k, v) (mem_of_lookup hv)

variable {pointer : String} {s s' : JsonMap × Lowering}

lemma ChildTypes.dropKeyword (h : ChildTypes s.1) (kw : String) (entry : Lowering) :
    ChildTypes (dropKeyword kw entry s).1 := by
  unfold OpenApi.dropKeyword
  split
  · exact h.remove kw
  · exact h

/-- The type that is kept was listed. -/
lemma ChildTypes.lowerType (h : ChildTypes s.1) (hs : lowerType pointer s = .ok s') :
    ChildTypes s'.1 := by
  rcases lowerType_eq_ok hs with ⟨hsame, -⟩ | ⟨kept, htype, -, hmap⟩ |
    ⟨types, kept, htype, -, hkept, hmap⟩
  · rw [hsame]
    exact h
  · rw [hmap]
    exact h.insert _ ((h.lookup htype).item List.mem_cons_self)
  · have hin : kept ∈ types.filter fun t => !isNullName t := by
      rw [hkept]
      exact List.mem_cons_self
    rw [hmap]
    exact (h.insert _ ((h.lookup htype).item (List.mem_filter.mp hin).1)).insert _
      (stringTypes_bool true)

/-- A bound is moved, and a flag is put in its place. -/
lemma ChildTypes.lowerExclusive (h : ChildTypes s.1) (excl bound : String) :
    ChildTypes (lowerExclusive pointer excl bound s).1 := by
  unfold OpenApi.lowerExclusive
  split
  · rename_i x hx
    exact (h.insert _ (h.lookup hx)).insert _ (stringTypes_bool true)
  · exact h

lemma ChildTypes.lowerConst (h : ChildTypes s.1) : ChildTypes (lowerConst pointer s).1 := by
  unfold OpenApi.lowerConst
  split
  · rename_i c hc
    exact (h.remove _).insert _ (h.lookup hc).singleton
  · exact h

lemma ChildTypes.lowerExamples (h : ChildTypes s.1) : ChildTypes (lowerExamples pointer s).1 := by
  unfold OpenApi.lowerExamples
  split
  · rename_i first rest hexamples
    exact (h.remove _).insert _ ((h.lookup hexamples).item List.mem_cons_self)
  · exact h.remove _
  · exact h

lemma StringTypes.lowered (h : StringTypes (.object m)) (hm' : lowered m = some m') :
    ChildTypes m' := by
  obtain ⟨-, s, hs, rfl⟩ := lowered_eq_some_iff.mp hm'
  have hself : ChildTypes ((m, {}) : JsonMap × Lowering).1 := h.children
  have htype := (((hself.dropKeyword "$schema" _).dropKeyword "contentMediaType" _).dropKeyword
    "contentEncoding" _).lowerType hs
  exact ((htype.lowerExclusive _ _).lowerExclusive _ _).lowerConst.lowerExamples

/-! ## What the rules leave -/

/-- After its rule, an exclusive bound is no number. -/
lemma lookup_lowerExclusive_ne_number (excl bound : String) (x : JsonNumber) :
    (lowerExclusive pointer excl bound s).1.lookup excl ≠ some (.number x) := by
  by_cases hnumber : ∃ y, s.1.lookup excl = some (.number y)
  · obtain ⟨y, hy⟩ := hnumber
    rw [lookup_lowerExclusive_self hy]
    intro h
    cases h
  · rw [not_exists] at hnumber
    rw [lowerExclusive_eq_self hnumber]
    exact hnumber x

/-- After their rule, the examples are no array. -/
lemma lookup_lowerExamples_ne_array (elems : List Json) :
    (lowerExamples pointer s).1.lookup "examples" ≠ some (.array elems) := by
  by_cases harray : ∃ others, s.1.lookup "examples" = some (.array others)
  · obtain ⟨others, hothers⟩ := harray
    rw [lookup_lowerExamples_self others hothers]
    intro h
    cases h
  · rw [not_exists] at harray
    rw [lowerExamples_eq_self harray]
    exact harray elems

/-- After its rule, a type that listed strings is no array with an element. -/
lemma lookup_lowerType_ne_cons (hstrings : ListsStrings s.1) (hs : lowerType pointer s = .ok s')
    (t : Json) (rest : List Json) : s'.1.lookup "type" ≠ some (.array (t :: rest)) := by
  intro h
  rcases lowerType_eq_ok hs with ⟨hsame, hnil⟩ | ⟨kept, htype, -, hmap⟩ |
    ⟨types, kept, htype, -, hkept, hmap⟩
  · rw [hsame] at h
    cases hnil _ h
  · obtain ⟨name, rfl⟩ := hstrings _ htype kept List.mem_cons_self
    rw [hmap, lookup_insertEntry, if_pos rfl] at h
    cases h
  · have hin : kept ∈ types.filter fun t => !isNullName t := by
      rw [hkept]
      exact List.mem_cons_self
    obtain ⟨name, rfl⟩ := hstrings _ htype kept (List.mem_filter.mp hin).1
    rw [hmap, lookup_insertEntry, if_neg (by decide), lookup_insertEntry, if_pos rfl] at h
    cases h

/-- The rules leave nothing that they act on: none of them creates work for another. -/
theorem not_live_of_lowered (hstrings : ListsStrings m) (h : lowered m = some m') : ¬ Live m' := by
  have hgone : ∀ kw ∈ droppedKeywords, m'.lookup kw = none :=
    fun _ hkw => lookup_lowered_of_dropped h hkw
  obtain ⟨hkeyword, s, hs, rfl⟩ := lowered_eq_some_iff.mp h
  rintro (⟨kw, hkw, hsome⟩ | ⟨kw, hkw, hsome⟩ | ⟨t, rest, htype⟩ | ⟨kw, hkw, x, hx⟩ |
    ⟨elems, helems⟩)
  · -- no rule writes a keyword that has no equivalent
    have hother : ∀ kw ∈ unsupportedKeywords, kw ∉ ["exclusiveMinimum", "minimum",
        "exclusiveMaximum", "maximum", "const", "enum", "examples", "example"] ∧ kw ≠ "type" ∧
        kw ≠ "nullable" ∧ kw ≠ "$schema" ∧ kw ≠ "contentMediaType" ∧ kw ≠ "contentEncoding" := by
      decide
    obtain ⟨hvalue, htype, hnullable, hschema, hmedia, hencoding⟩ := hother kw hkw
    rw [lookup_valueRules hvalue, lookup_lowerType hs htype hnullable,
      lookup_dropped hschema hmedia hencoding] at hsome
    exact hkeyword ⟨kw, hkw, hsome⟩
  · rw [hgone kw hkw] at hsome
    cases hsome
  · rw [lookup_valueRules (by decide)] at htype
    refine lookup_lowerType_ne_cons ?_ hs t rest htype
    intro types htypes
    rw [lookup_dropped (by decide) (by decide) (by decide)] at htypes
    exact hstrings types htypes
  · simp only [List.mem_cons, List.not_mem_nil, or_false] at hkw
    unfold valueRules at hx
    rw [lookup_lowerExamples (by rcases hkw with rfl | rfl <;> decide)
      (by rcases hkw with rfl | rfl <;> decide),
      lookup_lowerConst (by rcases hkw with rfl | rfl <;> decide)
        (by rcases hkw with rfl | rfl <;> decide)] at hx
    rcases hkw with rfl | rfl
    · rw [lookup_lowerExclusive (by decide) (by decide)] at hx
      exact lookup_lowerExclusive_ne_number _ _ x hx
    · exact lookup_lowerExclusive_ne_number _ _ x hx
  · exact lookup_lowerExamples_ne_array elems helems

/-! ## The whole document -/

/-- The traversed value is an array only if the value is one, with as many elements. -/
lemma traverse_eq_array {change : Place → JsonMap → Option JsonMap} {place : Place}
    {elems : List Json} (h : traverse change n place v = some (.array elems)) :
    ∃ elems', v = .array elems' ∧ elems'.length = elems.length := by
  cases n with
  | zero => exact ⟨elems, Option.some.inj h, rfl⟩
  | succ n =>
    unfold traverse at h
    cases v with
    | array elems' =>
      obtain ⟨ws, hws, heq⟩ := Option.map_eq_some_iff.mp h
      obtain rfl := Json.array.inj heq
      exact ⟨elems', rfl, (traverseItems_eq_some_iff.mp hws).length_eq⟩
    | object map =>
      obtain ⟨left, -, hleft⟩ := Option.bind_eq_some_iff.mp h
      obtain ⟨map', -, heq⟩ := Option.map_eq_some_iff.mp hleft
      cases heq
    | _ => cases h

/-- The traversed value is a number only if the value is that number. -/
lemma traverse_eq_number {change : Place → JsonMap → Option JsonMap} {place : Place}
    {x : JsonNumber} (h : traverse change n place v = some (.number x)) : v = .number x := by
  cases n with
  | zero => exact Option.some.inj h
  | succ n =>
    unfold traverse at h
    cases v with
    | array elems =>
      obtain ⟨ws, -, heq⟩ := Option.map_eq_some_iff.mp h
      cases heq
    | object map =>
      obtain ⟨left, -, hleft⟩ := Option.bind_eq_some_iff.mp h
      obtain ⟨map', -, heq⟩ := Option.map_eq_some_iff.mp hleft
      cases heq
    | _ => exact Option.some.inj h

/-- The walk of the children of an object gives the rules nothing new to act on. -/
lemma live_of_traverseEntries {place : Place}
    (h : traverseEntries (fun k w => traverse lowerAll n (place.child k) w) m = some ws)
    (hlive : Live ws) : Live m := by
  have hsome := isSome_lookup_traverseEntries h
  -- a value that is found afterwards is the walked one
  have hfound : ∀ k w, ws.lookup k = some w →
      ∃ v, m.lookup k = some v ∧ traverse lowerAll n (place.child k) v = some w := by
    intro k w hw
    rw [lookup_traverseEntries h] at hw
    exact Option.bind_eq_some_iff.mp hw
  rcases hlive with ⟨kw, hkw, hkey⟩ | ⟨kw, hkw, hkey⟩ | ⟨t, rest, htype⟩ | ⟨kw, hkw, x, hx⟩ |
    ⟨elems, helems⟩
  · rw [hsome] at hkey
    exact Or.inl ⟨kw, hkw, hkey⟩
  · rw [hsome] at hkey
    exact Or.inr (Or.inl ⟨kw, hkw, hkey⟩)
  · obtain ⟨v, hv, hwalked⟩ := hfound _ _ htype
    obtain ⟨elems, rfl, hlength⟩ := traverse_eq_array hwalked
    cases elems with
    | nil => cases hlength
    | cons t' rest' => exact Or.inr (Or.inr (Or.inl ⟨t', rest', hv⟩))
  · obtain ⟨v, hv, hwalked⟩ := hfound _ _ hx
    obtain rfl := traverse_eq_number hwalked
    exact Or.inr (Or.inr (Or.inr (Or.inl ⟨kw, hkw, x, hv⟩)))
  · obtain ⟨v, hv, hwalked⟩ := hfound _ _ helems
    obtain ⟨elems', rfl, -⟩ := traverse_eq_array hwalked
    exact Or.inr (Or.inr (Or.inr (Or.inr ⟨elems', hv⟩)))

/-- No object of the walked value has a keyword that the rules act on. -/
theorem not_live_of_traverse {place : Place} (hdepth : depth v ≤ n) (htypes : StringTypes v)
    (h : traverse lowerAll n place v = some w) : ∀ m, Contains w m → ¬ Live m := by
  induction n generalizing place v w with
  | zero =>
    obtain rfl := Option.some.inj h
    intro m hm
    cases v with
    | array elems => simp [depth] at hdepth
    | object map => simp [depth] at hdepth
    | _ => cases hm
  | succ n ih =>
    unfold traverse at h
    cases v with
    | array elems =>
      rw [depth] at hdepth
      obtain ⟨ws, hws, rfl⟩ := Option.map_eq_some_iff.mp h
      have hall := traverseItems_eq_some_iff.mp hws
      intro m hm
      cases hm with
      | item hmem hm =>
        obtain ⟨i, hi, rfl⟩ := List.getElem_of_mem hmem
        have hi' : i < elems.length := by
          rw [hall.length_eq]
          exact hi
        have hat := (List.forall₂_iff_get.mp hall).2 i hi' hi
        have hbelow := depth_le_of_mem_items (List.getElem_mem hi')
        exact ih (by omega) (htypes.item (List.getElem_mem hi')) hat m hm
    | object map =>
      rw [depth] at hdepth
      obtain ⟨map', hlowered, hrest⟩ := Option.bind_eq_some_iff.mp h
      obtain ⟨ws, hws, rfl⟩ := Option.map_eq_some_iff.mp hrest
      have hall := traverseEntries_eq_some_iff.mp hws
      have hleft := depthEntries_of_derived (derived_of_lowered hlowered)
      intro m hm
      cases hm with
      | self =>
        intro hlive
        exact not_live_of_lowered (htypes map (Contains.self map)) hlowered
          (live_of_traverseEntries hws hlive)
      | entry hmem hm =>
        obtain ⟨i, hi, rfl⟩ := List.getElem_of_mem hmem
        have hi' : i < map'.length := by
          rw [hall.length_eq]
          exact hi
        have hat := (List.forall₂_iff_get.mp hall).2 i hi' hi
        have hbelow := depth_le_of_mem (List.getElem_mem hi')
        exact ih (by omega) (htypes.lowered hlowered _ (List.getElem_mem hi')) hat.2 m hm
    | _ =>
      obtain rfl := Option.some.inj h
      intro m hm
      cases hm

/-! ## The second time -/

/-- Children that are walked without a change and without a report. -/
lemma walkEntries_eq_self {f : String → Json → Except String (Json × Lowering)}
    (h : ∀ e ∈ m, f e.1 e.2 = .ok (e.2, {})) : walkEntries f m = .ok (m, {}) := by
  induction m with
  | nil => rfl
  | cons e rest ih =>
    obtain ⟨k, v⟩ := e
    have hhead : f k v = .ok (v, {}) := h (k, v) List.mem_cons_self
    unfold walkEntries
    rw [hhead, ih fun e he => h e (List.mem_cons_of_mem _ he)]
    rfl

/-- Elements that are walked without a change and without a report. -/
lemma walkItems_eq_self {f : Nat → Json → Except String (Json × Lowering)} {elems : List Json}
    (h : ∀ i, ∀ v ∈ elems, f i v = .ok (v, {})) (i : Nat) :
    walkItems f i elems = .ok (elems, {}) := by
  induction elems generalizing i with
  | nil => rfl
  | cons v rest ih =>
    unfold walkItems
    rw [h i v List.mem_cons_self, ih fun i w hw => h i w (List.mem_cons_of_mem _ hw)]
    rfl

/-- A value whose objects have no keyword that the rules act on is walked without a change and
without a report. -/
theorem walkTo_eq_self (n : Nat) (pointer : String) (h : ∀ m, Contains v m → ¬ Live m) :
    walkTo n pointer v = .ok (v, {}) := by
  induction n generalizing pointer v with
  | zero => rfl
  | succ n ih =>
    unfold walkTo
    cases v with
    | array elems =>
      dsimp only
      rw [walkItems_eq_self fun i w hw => ih _ fun m hm => h m (Contains.item hw hm)]
      rfl
    | object map =>
      dsimp only
      rw [lowerSchemaObject_eq_self pointer (h map (Contains.self map))]
      dsimp only [bind, Except.bind]
      rw [walkEntries_eq_self (f := fun k w => walkTo n (pointer ++ "/" ++ escapeToken k) w)
        fun e he => ih _ fun m hm => h m (Contains.entry he hm)]
      rfl
    | _ => rfl

/-- The version is no keyword that the rules act on. -/
lemma not_live_withVersion (h : ∀ m, Contains v m → ¬ Live m) :
    ∀ m, Contains (withVersion v) m → ¬ Live m := by
  cases v with
  | object map =>
    unfold withVersion
    intro m hm
    cases hm with
    | self =>
      intro hlive
      refine h map (Contains.self map) ?_
      have hlookup : ∀ k, k ≠ "openapi" →
          (insertEntry map "openapi" (.string "3.0.3")).lookup k = map.lookup k := by
        intro k hk
        rw [lookup_insertEntry, if_neg hk]
      have hother : ∀ kw ∈ unsupportedKeywords ++ droppedKeywords ++
          ["exclusiveMinimum", "exclusiveMaximum"], kw ≠ "openapi" := by decide
      rcases hlive with ⟨kw, hkw, hkey⟩ | ⟨kw, hkw, hkey⟩ | ⟨t, rest, htype⟩ | ⟨kw, hkw, x, hx⟩ |
        ⟨elems, helems⟩
      · rw [hlookup kw (hother kw (by simp [hkw]))] at hkey
        exact Or.inl ⟨kw, hkw, hkey⟩
      · rw [hlookup kw (hother kw (by simp [hkw]))] at hkey
        exact Or.inr (Or.inl ⟨kw, hkw, hkey⟩)
      · rw [hlookup "type" (by decide)] at htype
        exact Or.inr (Or.inr (Or.inl ⟨t, rest, htype⟩))
      · rw [hlookup kw (hother kw (List.mem_append_right _ hkw))] at hx
        exact Or.inr (Or.inr (Or.inr (Or.inl ⟨kw, hkw, x, hx⟩)))
      · rw [hlookup "examples" (by decide)] at helems
        exact Or.inr (Or.inr (Or.inr (Or.inr ⟨elems, helems⟩)))
    | entry he hm =>
      rcases List.mem_cons.mp he with rfl | he
      · cases hm
      · exact h m (Contains.entry (List.mem_filter.mp he).1 hm)
  | _ => exact h

/-- No rule is about webhooks, and the version neither. -/
lemma webhooks_withVersion (v : Json) :
    (withVersion v).get? "webhooks" = v.get? "webhooks" := by
  cases v with
  | object map =>
    unfold withVersion Json.get?
    dsimp only
    rw [lookup_insertEntry, if_neg (by decide)]
  | _ => rfl

/-- A document has webhooks after the walk if and only if it had some before. -/
lemma webhooks_of_traverse {place : Place} (h : traverse lowerAll n place v = some w) :
    (w.get? "webhooks").isSome = (v.get? "webhooks").isSome := by
  cases n with
  | zero =>
    obtain rfl := Option.some.inj h
    rfl
  | succ n =>
    unfold traverse at h
    cases v with
    | array elems =>
      obtain ⟨ws, -, rfl⟩ := Option.map_eq_some_iff.mp h
      rfl
    | object map =>
      obtain ⟨map', hlowered, hrest⟩ := Option.bind_eq_some_iff.mp h
      obtain ⟨ws, hws, rfl⟩ := Option.map_eq_some_iff.mp hrest
      obtain ⟨-, s, hs, rfl⟩ := lowered_eq_some_iff.mp hlowered
      unfold Json.get?
      dsimp only
      rw [isSome_lookup_traverseEntries hws, lookup_valueRules (by decide),
        lookup_lowerType hs (by decide) (by decide),
        lookup_dropped (by decide) (by decide) (by decide)]
    | _ =>
      obtain rfl := Option.some.inj h
      rfl

lemma withVersion_withVersion (v : Json) : withVersion (withVersion v) = withVersion v := by
  cases v with
  | object map =>
    unfold withVersion insertEntry removeEntry
    dsimp only
    rw [List.filter_cons_of_neg (by simp), List.filter_filter]
    simp only [Bool.and_self]
  | _ => rfl

/-- Lowering is complete and idempotent: if the type arrays of a document list strings only, then
no object of the lowered document has a keyword that the rules act on, and lowering it once more
succeeds, reports nothing and changes nothing. -/
theorem lowering_is_complete_and_idempotent {spec out : Json} {r : Lowering}
    (htypes : StringTypes spec) (h : lowerTo30 spec = .ok (out, r)) :
    (∀ m, Contains out m → ¬ Live m) ∧ lowerTo30 out = .ok (out, {}) := by
  rw [lowerTo30_eq] at h
  by_cases hwebhooks : (spec.get? "webhooks").isSome
  · rw [if_pos hwebhooks] at h
    cases h
  · rw [if_neg hwebhooks] at h
    cases hwalk : walk "" spec with
    | error e =>
      rw [hwalk] at h
      cases h
    | ok result =>
      obtain ⟨w, r'⟩ := result
      rw [hwalk] at h
      obtain ⟨rfl, rfl⟩ := Prod.mk.inj (Except.ok.inj h)
      have herase := walk_erase spec
      rw [hwalk] at herase
      have hclean := not_live_withVersion
        (not_live_of_traverse (Nat.le_refl _) htypes herase.symm)
      refine ⟨hclean, ?_⟩
      rw [lowerTo30_eq, webhooks_withVersion, webhooks_of_traverse herase.symm, if_neg hwebhooks]
      unfold walk
      rw [walkTo_eq_self _ "" hclean]
      change Except.ok (withVersion (withVersion w), ({} : Lowering)) = _
      rw [withVersion_withVersion]

/-- A document with one schema, with a constant that is a schema itself and with a list of
examples. -/
def movedValues : Json :=
  .object [("openapi", .string "3.1.0"), ("components", .object [("schemas", .object [("A",
    .object [("type", .array [.string "string", .string "null"]),
      ("const", .object [("const", .bool true)]),
      ("examples", .array [.object [("$schema", .null)]])])])])]

/-- What is left of it. -/
def loweredValues : Json :=
  .object [("openapi", .string "3.0.3"), ("components", .object [("schemas", .object [("A",
    .object [("example", .object []),
      ("enum", .array [.object [("enum", .array [.bool true])]]),
      ("nullable", .bool true), ("type", .string "string")])])])]

/-- The values that the rules move are lowered too, and lowering the outcome does nothing. -/
theorem moved_values_are_lowered : lowerTo30 loweredValues = .ok (loweredValues, {}) := by
  have hlowered : ∃ r, lowerTo30 movedValues = .ok (loweredValues, r) := ⟨_, rfl⟩
  obtain ⟨r, hr⟩ := hlowered
  have hnotype : ∀ {m : JsonMap}, m.lookup "type" = none → ListsStrings m := by
    intro m hnone types htypes
    rw [hnone] at htypes
    cases htypes
  have hconst : StringTypes (.object [("const", .bool true)]) :=
    stringTypes_object (hnotype rfl) (by simpa [ChildTypes] using stringTypes_bool true)
  have hexample : StringTypes (.object [("$schema", .null)]) :=
    stringTypes_object (hnotype rfl) (by simpa [ChildTypes] using stringTypes_null)
  have hschema : StringTypes (.object [("type", .array [.string "string", .string "null"]),
      ("const", .object [("const", .bool true)]),
      ("examples", .array [.object [("$schema", .null)]])]) := by
    refine stringTypes_object ?_ ?_
    · intro types htypes t ht
      obtain rfl := Json.array.inj (Option.some.inj htypes)
      simp only [List.mem_cons, List.not_mem_nil, or_false] at ht
      rcases ht with rfl | rfl
      · exact ⟨_, rfl⟩
      · exact ⟨_, rfl⟩
    · have hnames : StringTypes (.array [.string "string", .string "null"]) :=
        stringTypes_array (by simp [stringTypes_string])
      simpa [ChildTypes] using ⟨hnames, hconst, hexample.singleton⟩
  have hschemas := stringTypes_object (m := [("A", _)]) (hnotype rfl)
    (by simpa [ChildTypes] using hschema)
  have hcomponents := stringTypes_object (m := [("schemas", _)]) (hnotype rfl)
    (by simpa [ChildTypes] using hschemas)
  have hdocument : StringTypes movedValues := stringTypes_object (hnotype rfl)
    (by simpa [ChildTypes] using ⟨stringTypes_string _, hcomponents⟩)
  exact (lowering_is_complete_and_idempotent hdocument hr).2

end Orca.OpenApi
