import Orca.Library.Words
import Orca.OpenApi.Normalize

/-!
# Unique operation ids

The id that is made up for an operation is what is left of its method and its path when everything
but ASCII letters and digits becomes an underscore, underscores in a row become one, and those at
the end are dropped.  So it is the words of the method and the path with an underscore between each
two (`toList_synthId`): two operations get the same id exactly if they have the same words, and a
declared id is hit exactly if it is such words put together (`ids_unique_iff`).
-/

namespace Orca.OpenApi.Normalize

variable {spec : OpenAPI} {l : List Char}

/-! ## The words of an operation -/

/-- It is no ASCII letter and no digit. -/
def isSeparator (c : Char) : Bool :=
  !decide (('a' ≤ c ∧ c ≤ 'z') ∨ ('A' ≤ c ∧ c ≤ 'Z') ∨ ('0' ≤ c ∧ c ≤ '9'))

/-- It is an underscore. -/
def isUnderscore (c : Char) : Bool := c == '_'

/-- The longest runs of ASCII letters and digits in the method followed by the path. -/
def idWords (method : Method) (path : String) : List (List Char) :=
  Words.words isSeparator (method.name.toList ++ path.toList)

/-- Words with an underscore between each two. -/
def joinWords (ws : List (List Char)) : String := String.ofList (['_'].intercalate ws)

lemma isSeparator_of_isUnderscore {c : Char} (h : isUnderscore c = true) :
    isSeparator c = true := by
  obtain rfl := eq_of_beq h
  rfl

/-- Underscores in a row separate what a single one does. -/
lemma words_append_replaceDouble (w l : List Char) :
    Words.words isUnderscore (w ++ replaceDouble l) = Words.words isUnderscore (w ++ l) := by
  have hbreak : isUnderscore '_' = true := rfl
  fun_induction replaceDouble l generalizing w with
  | case1 rest ih =>
    have hrest := ih []
    rw [List.nil_append, List.nil_append] at hrest
    rw [Words.words_append_break hbreak, Words.words_append_break hbreak,
      Words.words_cons_break hbreak, hrest]
  | case2 c rest _ ih =>
    have hrest := ih (w ++ [c])
    rwa [List.append_assoc, List.append_assoc, List.singleton_append, List.singleton_append]
      at hrest
  | case3 => rfl

lemma head?_replaceDouble (l : List Char) : (replaceDouble l).head? = l.head? := by
  fun_induction replaceDouble l with
  | case1 rest ih => rfl
  | case2 c rest _ ih => rfl
  | case3 => rfl

lemma words_collapseDouble (l : List Char) :
    Words.words isUnderscore (collapseDouble l) = Words.words isUnderscore l := by
  fun_induction collapseDouble l with
  | case1 l h _ ih =>
    have hwords := words_append_replaceDouble [] l
    rw [List.nil_append, List.nil_append] at hwords
    rw [ih, hwords]
  | case2 l h => rfl

lemma head?_collapseDouble (l : List Char) : (collapseDouble l).head? = l.head? := by
  fun_induction collapseDouble l with
  | case1 l h _ ih => rw [ih, head?_replaceDouble]
  | case2 l h => rfl

/-- Without two underscores in a row, what follows an underscore is none. -/
lemma isChain_of_hasDouble (h : hasDouble l = false) :
    l.IsChain fun a b => isUnderscore a = true → isUnderscore b = false := by
  fun_induction hasDouble l with
  | case1 rest => cases h
  | case2 c rest hne ih =>
    cases rest with
    | nil => exact List.isChain_singleton c
    | cons d rest =>
      refine List.isChain_cons_cons.mpr ⟨fun hc => Bool.eq_false_iff.mpr fun hd => ?_, ih h⟩
      exact hne rest (eq_of_beq hc) (congrArg (· :: rest) (eq_of_beq hd))
  | case3 => exact List.isChain_nil

/-- After the replacements, what follows an underscore is none. -/
lemma isChain_collapseDouble (l : List Char) :
    (collapseDouble l).IsChain fun a b => isUnderscore a = true → isUnderscore b = false := by
  fun_induction collapseDouble l with
  | case1 l h _ ih => exact ih
  | case2 l h => exact isChain_of_hasDouble (Bool.eq_false_iff.mpr h)

lemma isSeparator_of_mem_name (method : Method) :
    ∀ c ∈ method.name.toList, isSeparator c = false := by
  have hall : (method.name.toList.all fun c => !isSeparator c) = true := by
    cases method <;> decide
  intro c hc
  exact (Bool.not_eq_true' _).mp (List.all_eq_true.mp hall c hc)

/-- The id that is made up for an operation is its words with an underscore between each two. -/
theorem synthId_eq (method : Method) (path : String) :
    synthId method.name path = joinWords (idWords method path) := by
  let slug : Char → Char := fun c =>
    if ('a' ≤ c ∧ c ≤ 'z') ∨ ('A' ≤ c ∧ c ≤ 'Z') ∨ ('0' ≤ c ∧ c ≤ '9') then c else '_'
  have hslug : ∀ c, isSeparator c = false → slug c = c := by
    intro c hc
    unfold isSeparator at hc
    rw [Bool.not_eq_false'] at hc
    exact if_pos (of_decide_eq_true hc)
  have hseparator : ∀ c, isSeparator c = true → slug c = '_' := by
    intro c hc
    unfold isSeparator at hc
    rw [Bool.not_eq_true'] at hc
    exact if_neg (of_decide_eq_false hc)
  -- the slug of the method is the method
  have hmap : method.name.toList ++ path.toList.map slug =
      (method.name.toList ++ path.toList).map slug := by
    rw [List.map_append, List.map_congr_left fun c hc =>
      hslug c (isSeparator_of_mem_name method c hc),
      List.map_id']
  let collapsed := collapseDouble (method.name.toList ++ path.toList.map slug)
  have hwords : Words.words isUnderscore (Words.trim isUnderscore collapsed) =
      idWords method path := by
    rw [Words.words_trim, words_collapseDouble, hmap]
    refine Words.words_map (fun c hc => ?_) (fun c hc => ⟨hslug c hc, ?_⟩) _
    · rw [hseparator c hc]
      rfl
    · rw [Bool.eq_false_iff]
      intro hunderscore
      rw [isSeparator_of_isUnderscore hunderscore] at hc
      cases hc
  have hstart : collapsed.dropWhile isUnderscore = collapsed := by
    have hhead : collapsed.head? = (method.name.toList ++ path.toList.map slug).head? :=
      head?_collapseDouble _
    cases hcollapsed : collapsed with
    | nil => rfl
    | cons a r =>
      rw [hcollapsed] at hhead
      refine List.dropWhile_cons_of_neg ?_
      have hfirst : ∀ method : Method, ∃ a r, method.name.toList = a :: r := by
        intro method
        cases method <;> exact ⟨_, _, rfl⟩
      obtain ⟨b, t, hname⟩ := hfirst method
      have hletter := isSeparator_of_mem_name method b (by rw [hname]; exact List.mem_cons_self)
      rw [hname, List.cons_append, List.head?_cons, List.head?_cons] at hhead
      obtain rfl := Option.some.inj hhead
      intro hunderscore
      rw [isSeparator_of_isUnderscore hunderscore] at hletter
      cases hletter
  have htrim : Words.trim isUnderscore collapsed = collapsed.rdropWhile isUnderscore := by
    rw [Words.trim, hstart]
  have hjoin := Words.join_words (p := isUnderscore) (c := '_')
    (l := Words.trim isUnderscore collapsed) (fun a ha => eq_of_beq ha)
      (Words.dropWhile_trim collapsed)
    (by rw [htrim, List.rdropWhile_idempotent])
    (by
      rw [htrim]
      exact List.IsChain.prefix (isChain_collapseDouble _) (List.rdropWhile_prefix _ _))
  unfold joinWords
  rw [← hwords, hjoin, htrim]
  rfl

/-- Two operations get the same id exactly if they have the same words. -/
theorem joinWords_inj {method method' : Method} {path path' : String} :
    joinWords (idWords method path) = joinWords (idWords method' path') ↔
      idWords method path = idWords method' path' := by
  constructor
  · intro h
    have hread : ∀ method path, Words.words isUnderscore (joinWords (idWords method path)).toList =
        idWords method path := by
      intro method path
      unfold joinWords
      rw [String.toList_ofList]
      refine Words.words_join rfl fun w hw => ?_
      obtain ⟨hne, hletters⟩ := Words.isWord_of_mem_words hw
      refine ⟨hne, fun c hc => Bool.eq_false_iff.mpr fun hunderscore => ?_⟩
      have hletter := hletters c hc
      rw [isSeparator_of_isUnderscore hunderscore] at hletter
      cases hletter
    rw [← hread method path, h, hread]
  · intro h
    rw [h]

/-! ## The operations of a document -/

/-- An operation with its method and its path. -/
structure OperationAt where
  method : Method
  path : String
  op : Operation

/-- The operations of a document, in the order of the passes. -/
def operations (spec : OpenAPI) : List OperationAt :=
  flatMapOperations (fun method path op => [⟨method, path, op⟩]) spec

/-- The ids that a document declares. -/
def declaredIds (spec : OpenAPI) : List String :=
  (operations spec).filterMap fun o => o.op.operationId

/-- The operations without an id. -/
def unnamed (spec : OpenAPI) : List OperationAt :=
  (operations spec).filter fun o => o.op.operationId.isNone

/-- Every operation has an id, and no two have the same. -/
def UniqueIds (spec : OpenAPI) : Prop :=
  (∀ o ∈ operations spec, o.op.operationId.isSome) ∧
    ((operations spec).map fun o => o.op.operationId).Nodup

/-- The operations of a rewritten document are the rewritten ones. -/
lemma operations_mapOperations (f : Method → String → Operation → Operation) (spec : OpenAPI) :
    operations (mapOperations f spec) =
      (operations spec).map fun o => { o with op := f o.method o.path o.op } := by
  unfold operations flatMapOperations mapOperations
  rw [List.flatMap_map, List.map_flatMap]
  refine List.flatMap_congr fun entry _ => ?_
  obtain ⟨path, item⟩ := entry
  cases item with
  | reference name => rfl
  | item item =>
    dsimp only [ReferenceOr.map]
    rw [List.map_flatMap]
    refine List.flatMap_congr fun method _ => ?_
    cases item.operation method with
    | none => rfl
    | some op => rfl

/-- The id of an operation after the pass. -/
def idAfter (o : OperationAt) : String :=
  o.op.operationId.getD (joinWords (idWords o.method o.path))

/-- Every operation has an id after the pass: its own, or its words. -/
lemma ids_synthesized (spec : OpenAPI) :
    (operations (forEachOp synthesizeOperationId spec).1).map (fun o => o.op.operationId) =
      (operations spec).map fun o => some (idAfter o) := by
  unfold forEachOp
  rw [operations_mapOperations, List.map_map]
  refine List.map_congr_left fun o _ => ?_
  dsimp only [Function.comp]
  unfold synthesizeOperationId idAfter
  cases hid : o.op.operationId with
  | none =>
    dsimp only
    rw [synthId_eq]
    rfl
  | some id =>
    dsimp only
    rw [hid]
    rfl

/-- The ids after the pass are the declared ones and those that are made up. -/
lemma ids_perm (spec : OpenAPI) : ((operations spec).map idAfter).Perm
    (declaredIds spec ++ (unnamed spec).map fun o => joinWords (idWords o.method o.path)) := by
  unfold declaredIds unnamed
  induction operations spec with
  | nil => exact List.Perm.nil
  | cons o rest ih =>
    cases hid : o.op.operationId with
    | none =>
      have hafter : idAfter o = joinWords (idWords o.method o.path) := by
        unfold idAfter
        rw [hid]
        rfl
      rw [List.map_cons, List.filterMap_cons_none (f := fun o : OperationAt => o.op.operationId)
        hid, List.filter_cons_of_pos (by rw [hid]; rfl), List.map_cons, hafter]
      exact (ih.cons _).trans List.perm_middle.symm
    | some id =>
      have hafter : idAfter o = id := by
        unfold idAfter
        rw [hid]
        rfl
      rw [List.map_cons, List.filterMap_cons_some (f := fun o : OperationAt => o.op.operationId)
        hid, List.filter_cons_of_neg (by rw [hid]; exact Bool.false_ne_true), hafter]
      exact ih.cons _

/-- The ids are unique after the pass if and only if no two operations without an id have the same
words, and the words of none of them, put together with underscores, are a declared id. -/
theorem ids_unique_iff (hdeclared : (declaredIds spec).Nodup) :
    UniqueIds (forEachOp synthesizeOperationId spec).1 ↔
      ((unnamed spec).map fun o => idWords o.method o.path).Nodup ∧
        ∀ o ∈ unnamed spec, joinWords (idWords o.method o.path) ∉ declaredIds spec := by
  have hall : ∀ o ∈ operations (forEachOp synthesizeOperationId spec).1,
      o.op.operationId.isSome := by
    intro o ho
    have hid := List.mem_map_of_mem (f := fun o : OperationAt => o.op.operationId) ho
    rw [ids_synthesized] at hid
    obtain ⟨o', -, ho'⟩ := List.mem_map.mp hid
    rw [← ho']
    rfl
  -- the words of an operation are read back from its id
  have hwords : ((unnamed spec).map fun o => joinWords (idWords o.method o.path)).Nodup ↔
      ((unnamed spec).map fun o => idWords o.method o.path).Nodup := by
    unfold List.Nodup
    rw [List.pairwise_map, List.pairwise_map]
    simp only [ne_eq, joinWords_inj]
  have hsome : ((operations spec).map fun o => some (idAfter o)).Nodup ↔
      ((operations spec).map idAfter).Nodup := by
    rw [← List.nodup_map_iff (Option.some_injective String), List.map_map]
    rfl
  unfold UniqueIds
  rw [and_iff_right hall, ids_synthesized, hsome, (ids_perm spec).nodup_iff, List.nodup_append,
    hwords]
  constructor
  · rintro ⟨-, hdistinct, hapart⟩
    refine ⟨hdistinct, fun o ho hid => ?_⟩
    exact hapart _ hid _ (List.mem_map_of_mem ho) rfl
  · rintro ⟨hdistinct, hapart⟩
    refine ⟨hdeclared, hdistinct, fun id hid id' hid' => ?_⟩
    obtain ⟨o, ho, rfl⟩ := List.mem_map.mp hid'
    intro heq
    rw [heq] at hid
    exact hapart o ho hid

/-- An operation without an id. -/
def unnamedOperation : Operation where
  operationId := none
  parameters := []
  requestBody := none
  responses := .empty
  default := none

/-- A path with a `GET` operation without an id. -/
def unnamedGet (path : String) : String × ReferenceOr PathItem :=
  (path, .item {
    parameters := []
    operation := fun method => if method = .get then some unnamedOperation else none })

/-- Two paths with other words get two ids. -/
theorem ids_unique_two_paths :
    UniqueIds (forEachOp synthesizeOperationId ⟨[unnamedGet "/a-b", unnamedGet "/a/{id}"]⟩).1 :=
  (ids_unique_iff (by decide)).mpr ⟨by decide, by decide⟩

/-- Two paths that differ in a separator get one id. -/
theorem ids_not_unique :
    ([unnamedGet "/a-b", unnamedGet "/a_b"].map Prod.fst).Nodup ∧
      (declaredIds ⟨[unnamedGet "/a-b", unnamedGet "/a_b"]⟩).Nodup ∧
      ¬ UniqueIds (forEachOp synthesizeOperationId
        ⟨[unnamedGet "/a-b", unnamedGet "/a_b"]⟩).1 := by
  refine ⟨by decide, by decide, fun h => ?_⟩
  have hids := h.2
  rw [ids_synthesized] at hids
  revert hids
  decide

end Orca.OpenApi.Normalize
