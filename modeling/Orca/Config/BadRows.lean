import Orca.Config.Merge

/-!
# A bad config row and the rows around it

What a row that fails does to the rest of its bundle.  `replicate_merge` ends at the first such row,
so that a bundle should be compared with what its valid rows alone would do: `mergeValid` merges
them, each one valid or not at its turn.

The merge moves the row of a key in one direction only: to a newer payload, or to a smaller id under
the same payload (`Above`).  Hence what the valid rows after the failing one do can be told from the
state at its turn.  They must do nothing, or, when the failing row wrote its payload before its id
was refused, no more than write that same payload (`replicateMerge_not_blocked_iff`).
-/

namespace Orca

namespace ConfigStore

variable {env : ConfigEnv} {turn : Turn} {s s' : ConfigStore} {w w' : ConfigWire}
  {cur : ConfigRow}

/-! ## The valid rows of a bundle -/

/-- The rows of a bundle that are valid when their turn comes. -/
def validRows (env : ConfigEnv) : List (Json × Turn) → ConfigStore → List (Json × Turn)
  | [], _ => []
  | (row, turn) :: rest, s =>
      if s.Valid env turn (.ofJson row) then
        (row, turn) :: validRows env rest (mergeRow env turn s row).1
      else validRows env rest s

/-- A call of `replicate_merge` has the effect of merging the valid rows only, on every natural
key. -/
def NotBlocked (env : ConfigEnv) (turns : Nat → Turn) (s : ConfigStore) (rows : Json) : Prop :=
  ∀ k, (replicateMerge env turns s rows).1.rows.find k =
    (mergeLoop env (validRows env (arrivals rows turns) s) s 0).1.rows.find k

/-- The store after the valid rows of a bundle. -/
def mergeValid (env : ConfigEnv) : List (Json × Turn) → ConfigStore → ConfigStore
  | [], s => s
  | (row, turn) :: rest, s =>
      if s.Valid env turn (.ofJson row) then mergeValid env rest (mergeRow env turn s row).1
      else mergeValid env rest s

/-- The loop over the valid rows leaves the store after them. -/
lemma mergeLoop_validRows (bundle : List (Json × Turn)) (s : ConfigStore) (merged : Nat) :
    (mergeLoop env (validRows env bundle s) s merged).1 = mergeValid env bundle s := by
  induction bundle generalizing s merged with
  | nil => rfl
  | cons a rest ih =>
    obtain ⟨row, turn⟩ := a
    unfold validRows mergeValid
    by_cases hvalid : s.Valid env turn (.ofJson row)
    · obtain ⟨s', wrote, hrow, -, -⟩ := mergeRow_of_valid hvalid
      rw [if_pos hvalid, if_pos hvalid, mergeLoop, hrow]
      exact ih s' _
    · rw [if_neg hvalid, if_neg hvalid]
      exact ih s merged

/-! ## The direction of a merge -/

/-- `r'` is a later state of the row `r`: its payload is newer, or the same under a smaller id. -/
def Above (env : ConfigEnv) (r r' : ConfigRow) : Prop :=
  r'.id ≤ r.id ∧
    ((∃ l i, stampMillis env r = some l ∧ stampMillis env r' = some i ∧ l < i) ∨
      (r' = r.withId r'.id ∧ r'.id < r.id))

lemma stampMillis_of_withId {r r' : ConfigRow} (h : r' = r.withId r'.id) :
    stampMillis env r' = stampMillis env r := by
  rw [h]
  rfl

lemma not_above_self (r : ConfigRow) : ¬Above env r r := by
  rintro ⟨-, ⟨l, i, hl, hi, hlt⟩ | ⟨-, hlt⟩⟩
  · rw [hl, Option.some.injEq] at hi
    omega
  · exact lt_irrefl _ hlt

/-- A later state of a later state is a later state. -/
lemma Above.trans {a b c : ConfigRow} (hab : Above env a b) (hbc : Above env b c) :
    Above env a c := by
  refine ⟨hbc.1.trans hab.1, ?_⟩
  obtain ⟨-, ⟨l, i, hl, hi, hlt⟩ | ⟨hpay, hid⟩⟩ := hab
  · obtain ⟨-, ⟨l', i', hl', hi', hlt'⟩ | ⟨hpay', -⟩⟩ := hbc
    · rw [hi, Option.some.injEq] at hl'
      exact Or.inl ⟨l, i', hl, hi', by omega⟩
    · exact Or.inl ⟨l, i, hl, (stampMillis_of_withId hpay').trans hi, hlt⟩
  · obtain ⟨-, ⟨l', i', hl', hi', hlt'⟩ | ⟨hpay', hid'⟩⟩ := hbc
    · exact Or.inl ⟨l', i', (stampMillis_of_withId hpay).symm.trans hl', hi', hlt'⟩
    · refine Or.inr ⟨?_, hid'.trans hid⟩
      rw [hpay', hpay]
      rfl

/-- Every row of `s` is in `s'`, as it is or in a later state. -/
def Rises (env : ConfigEnv) (s s' : ConfigStore) : Prop :=
  ∀ k r, s.rows.find k = some r → ∃ r', s'.rows.find k = some r' ∧ (r' = r ∨ Above env r r')

lemma Rises.refl (s : ConfigStore) : Rises env s s := fun _ r hr => ⟨r, hr, Or.inl rfl⟩

lemma Rises.trans {a b c : ConfigStore} (hab : Rises env a b) (hbc : Rises env b c) :
    Rises env a c := by
  intro k r hr
  obtain ⟨r', hr', hrr'⟩ := hab k r hr
  obtain ⟨r'', hr'', hr'r''⟩ := hbc k r' hr'
  refine ⟨r'', hr'', ?_⟩
  rcases hrr' with rfl | hrr'
  · exact hr'r''
  · rcases hr'r'' with rfl | hr'r''
    · exact Or.inr hrr'
    · exact Or.inr (hrr'.trans hr'r'')

/-! ## A row that is merged -/

/-- The row is valid and changes the table. -/
def Merges (env : ConfigEnv) (turn : Turn) (s : ConfigStore) (w : ConfigWire) : Prop :=
  s.Valid env turn w ∧ s.Changes env w

instance (env : ConfigEnv) (s : ConfigStore) (w : ConfigWire) : Decidable (s.Changes env w) :=
  match h : s.rows.find w.key with
  | none => isTrue fun _ hc => by cases h.symm.trans hc
  | some cur =>
      if hch : env.newer w cur = true ∨ w.lowersId cur then
        isTrue fun c hc => by
          obtain rfl := Option.some.inj (h.symm.trans hc)
          exact hch
      else isFalse fun hall => hch (hall cur h)

instance (env : ConfigEnv) (turn : Turn) (s : ConfigStore) (w : ConfigWire) :
    Decidable (s.Merges env turn w) :=
  inferInstanceAs (Decidable (_ ∧ _))

/-- A row that changes the table puts the row of its key in a later state. -/
lemma above_rowAfter (turn : Turn) (hch : s.Changes env w) (hcur : s.rows.find w.key = some cur) :
    Above env cur (s.rowAfter env turn w) := by
  have hkey := KeyedTable.key_of_find hcur
  unfold rowAfter idAfter
  rw [hcur]
  dsimp only
  have hle : (if w.lowersId cur then w.uuidv7 else cur.id) ≤ cur.id := by
    split
    · rename_i hlow
      exact hlow.2.le
    · exact le_rfl
  refine ⟨hle, ?_⟩
  by_cases hnewer : env.newer w cur = true
  · obtain ⟨i, l, hi, hl, hlt⟩ := newer_iff.mp hnewer
    refine Or.inl ⟨l, i, hl, stampMillis_of_canonical ?_, hlt⟩
    rw [payloadAfter, if_pos hnewer]
    exact hi
  · have hlow : w.lowersId cur := (hch cur hcur).resolve_left hnewer
    refine Or.inr ⟨?_, ?_⟩
    · rw [payloadAfter, if_neg hnewer]
      rfl
    · rw [if_pos hlow]
      exact hlow.2

/-- A row that is not merged leaves the store after the valid rows. -/
lemma mergeValid_cons_of_not_merges {row : Json} {rest : List (Json × Turn)}
    (h : ¬s.Merges env turn (.ofJson row)) :
    mergeValid env ((row, turn) :: rest) s = mergeValid env rest s := by
  rw [mergeValid]
  split
  · rename_i hvalid
    obtain ⟨s', wrote, hrow, -, hsame⟩ := mergeRow_of_valid hvalid
    rw [hrow, (hsame fun hch => h ⟨hvalid, hch⟩).1]
  · rfl

lemma mergeValid_cons_of_merges {row : Json} (rest : List (Json × Turn))
    (h : s.Merges env turn (.ofJson row)) :
    ∃ s', mergeValid env ((row, turn) :: rest) s = mergeValid env rest s' ∧
      s'.rows.find = Function.update s.rows.find (ConfigWire.ofJson row).key
        (some (s.rowAfter env turn (.ofJson row))) := by
  obtain ⟨s', wrote, hrow, hfind, -⟩ := mergeRow_of_valid h.1
  refine ⟨s', ?_, hfind⟩
  rw [mergeValid, if_pos h.1, hrow]

lemma rises_of_update (hch : s.Changes env w)
    (hfind : s'.rows.find = Function.update s.rows.find w.key (some (s.rowAfter env turn w))) :
    Rises env s s' := by
  intro k r hr
  by_cases hk : k = w.key
  · subst hk
    refine ⟨_, by rw [hfind, Function.update_self], Or.inr (above_rowAfter _ hch hr)⟩
  · exact ⟨r, by rw [hfind, Function.update_of_ne hk, hr], Or.inl rfl⟩

/-- The valid rows let the store rise. -/
lemma rises_mergeValid (rest : List (Json × Turn)) (s : ConfigStore) :
    Rises env s (mergeValid env rest s) := by
  induction rest generalizing s with
  | nil => exact Rises.refl s
  | cons a rest ih =>
    obtain ⟨row, turn⟩ := a
    by_cases hm : s.Merges env turn (.ofJson row)
    · obtain ⟨s', heq, hfind⟩ := mergeValid_cons_of_merges rest hm
      rw [heq]
      exact (rises_of_update hm.2 hfind).trans (ih s')
    · rw [mergeValid_cons_of_not_merges hm]
      exact ih s

/-- The row of a key that a merged row has changed does not come back. -/
lemma find_ne_of_rises {t : ConfigStore} (hch : s.Changes env w)
    (hfind : s'.rows.find = Function.update s.rows.find w.key (some (s.rowAfter env turn w)))
    (hrise : Rises env s' t) : t.rows.find w.key ≠ s.rows.find w.key := by
  intro heq
  obtain ⟨r', hr', hr⟩ := hrise w.key (s.rowAfter env turn w) (by rw [hfind, Function.update_self])
  rw [heq] at hr'
  have habove := above_rowAfter turn hch hr'
  rcases hr with rfl | hr
  · exact not_above_self _ habove
  · exact not_above_self _ (habove.trans hr)

/-- The valid rows change nothing exactly when none of them would be merged. -/
lemma mergeValid_same_iff (rest : List (Json × Turn)) (s : ConfigStore) :
    (mergeValid env rest s).rows.find = s.rows.find ↔
      ∀ a ∈ rest, ¬s.Merges env a.2 (.ofJson a.1) := by
  induction rest with
  | nil => simp [mergeValid]
  | cons a rest ih =>
    obtain ⟨row, turn⟩ := a
    rw [List.forall_mem_cons]
    by_cases hm : s.Merges env turn (.ofJson row)
    · obtain ⟨s', heq, hfind⟩ := mergeValid_cons_of_merges rest hm
      rw [heq]
      have hne := find_ne_of_rises hm.2 hfind (rises_mergeValid rest s')
      exact ⟨fun h => absurd (congrFun h _) hne, fun h => absurd hm h.1⟩
    · rw [mergeValid_cons_of_not_merges hm, ih]
      exact ⟨fun h => ⟨hm, h⟩, And.right⟩

/-! ## A payload written before its id was refused -/

/-- The keys have rows of the same ids. -/
def SameIds (s s' : ConfigStore) : Prop :=
  ∀ k, (s'.rows.find k).map ConfigRow.id = (s.rows.find k).map ConfigRow.id

/-- Whether an id is in use is a matter of the ids by key. -/
lemma idInUse_iff : s.IdInUse turn w ↔
    ∃ k, k ≠ w.key ∧ (s.rows.find k).map ConfigRow.id = some (s.idAfter turn w) := by
  constructor
  · rintro ⟨r, hr, hne, hid⟩
    refine ⟨r.key, hne, ?_⟩
    rw [KeyedTable.mem_rows_iff.mp hr, Option.map_some, hid]
  · rintro ⟨k, hne, hid⟩
    obtain ⟨r, hr, hrid⟩ := Option.map_eq_some_iff.mp hid
    obtain ⟨hmem, hkey⟩ := KeyedTable.find_eq_some_iff.mp hr
    exact ⟨r, hmem, hkey ▸ hne, hrid⟩

/-- The id a key has after a merge is a matter of the ids by key. -/
lemma idAfter_congr (h : SameIds s s') : s'.idAfter turn w = s.idAfter turn w := by
  have hid := h w.key
  unfold idAfter
  cases hs : s.rows.find w.key with
  | none =>
    rw [hs, Option.map_none, Option.map_eq_none_iff] at hid
    rw [hid]
  | some c =>
    rw [hs, Option.map_some, Option.map_eq_some_iff] at hid
    obtain ⟨c', hc', hcid⟩ := hid
    rw [hc']
    exact if_congr (by rw [ConfigWire.lowersId, ConfigWire.lowersId, hcid]) rfl hcid

lemma valid_congr (h : SameIds s s') : s'.Valid env turn w ↔ s.Valid env turn w := by
  unfold Valid
  rw [idInUse_iff, idInUse_iff, idAfter_congr h]
  simp only [h _]

/-- A row that would be merged writes the payload of the key of `w` under its id `cur.id`, and is
not newer than `w`. -/
def AtMost (env : ConfigEnv) (w : ConfigWire) (cur : ConfigRow) (w' : ConfigWire) : Prop :=
  w'.key = w.key ∧ ¬w'.lowersId cur ∧ lwwStrIsNewer env.lib w'.updatedAt w.updatedAt = false

instance (env : ConfigEnv) (w w' : ConfigWire) (cur : ConfigRow) :
    Decidable (AtMost env w cur w') :=
  inferInstanceAs (Decidable (_ ∧ _ ∧ _))

/-- A valid row of the key of `w` that is not older than `w`. -/
def Reaches (env : ConfigEnv) (s : ConfigStore) (w : ConfigWire) (a : Json × Turn) : Prop :=
  s.Valid env a.2 (.ofJson a.1) ∧ (ConfigWire.ofJson a.1).key = w.key ∧
    lwwStrIsNewer env.lib w.updatedAt (ConfigWire.ofJson a.1).updatedAt = false

instance (env : ConfigEnv) (s : ConfigStore) (w : ConfigWire) (a : Json × Turn) :
    Decidable (Reaches env s w a) :=
  inferInstanceAs (Decidable (_ ∧ _ ∧ _))

/-- The two rows carry one payload. -/
def SamePayload (w w' : ConfigWire) : Prop := { w' with uuidv7 := w.uuidv7 } = w

instance (w w' : ConfigWire) : Decidable (SamePayload w w') :=
  inferInstanceAs (Decidable (_ = _))

/-- The rows write the payload of `w` and no more: those that would be merged are of its key, leave
the id and are not newer, and the first that is not older carries its payload. -/
def Repeats (env : ConfigEnv) (s : ConfigStore) (w : ConfigWire) (cur : ConfigRow)
    (rest : List (Json × Turn)) : Prop :=
  (∀ a ∈ rest, s.Merges env a.2 (.ofJson a.1) → AtMost env w cur (.ofJson a.1)) ∧
    ((rest.find? fun a => Reaches env s w a).any fun a => SamePayload w (.ofJson a.1)) = true

instance (env : ConfigEnv) (s : ConfigStore) (w : ConfigWire) (cur : ConfigRow)
    (rest : List (Json × Turn)) : Decidable (Repeats env s w cur rest) :=
  inferInstanceAs (Decidable (_ ∧ _))

lemma isReplica_congr (h : w'.key = w.key) : env.isReplica w' = env.isReplica w := by
  have howner : w'.hostOwner = w.hostOwner := congrArg (fun k => k.2.2) h
  unfold ConfigEnv.isReplica
  rw [howner]

lemma row_eq_iff (env : ConfigEnv) (id : String) (h : w'.key = w.key) :
    w'.row id (env.isReplica w') = w.row id (env.isReplica w) ↔ SamePayload w w' := by
  rw [isReplica_congr h]
  obtain ⟨hostOwner, noun, name, json, updatedAt, updatedBy, uuidv7⟩ := w
  obtain ⟨hostOwner', noun', name', json', updatedAt', updatedBy', uuidv7'⟩ := w'
  obtain ⟨rfl, rfl, rfl⟩ : noun' = noun ∧ name' = name ∧ hostOwner' = hostOwner := by
    simpa [ConfigWire.key] using h
  simp [ConfigWire.row, SamePayload]

section Rewrite

variable {k : String × String × String} {next : ConfigRow}

lemma sameIds_of_update (hcur : s.rows.find k = some cur) (hid : next.id = cur.id)
    (hfind : s'.rows.find = Function.update s.rows.find k (some next)) : SameIds s s' := by
  intro k'
  rw [hfind]
  by_cases hk : k' = k
  · rw [hk, Function.update_self, hcur, Option.map_some, Option.map_some, hid]
  · rw [Function.update_of_ne hk]

lemma newer_of_newer {l i : Int} (hl : stampMillis env cur = some l)
    (hi : stampMillis env next = some i) (hlt : l < i) (h : env.newer w' next = true) :
    env.newer w' cur = true := by
  obtain ⟨j, m, hj, hm, hmj⟩ := newer_iff.mp h
  rw [hi, Option.some.injEq] at hm
  exact newer_iff.mpr ⟨j, l, hj, hl, by omega⟩

/-- A row that would be merged after the row of a key got a newer payload would be merged before. -/
lemma Merges.of_update (hcur : s.rows.find k = some cur) (hid : next.id = cur.id)
    {l i : Int} (hl : stampMillis env cur = some l) (hi : stampMillis env next = some i)
    (hlt : l < i) (hfind : s'.rows.find = Function.update s.rows.find k (some next))
    (h : s'.Merges env turn w') : s.Merges env turn w' := by
  refine ⟨(valid_congr (sameIds_of_update hcur hid hfind)).mp h.1, ?_⟩
  intro c hc
  by_cases hk : w'.key = k
  · obtain rfl : cur = c := by
      rw [hk, hcur, Option.some.injEq] at hc
      exact hc
    rcases h.2 next (by rw [hfind, hk, Function.update_self]) with hnewer | hlow
    · exact Or.inl (newer_of_newer hl hi hlt hnewer)
    · exact Or.inr (by rwa [ConfigWire.lowersId, ← hid])
  · exact h.2 c (by rw [hfind, Function.update_of_ne hk, hc])

/-- A row that would be merged before the row of a key got a newer payload, and would not after, is
of that key, leaves its id and is not newer. -/
lemma Merges.lost (hcur : s.rows.find k = some cur) (hid : next.id = cur.id)
    (hfind : s'.rows.find = Function.update s.rows.find k (some next))
    (h : s.Merges env turn w') (hnot : ¬s'.Merges env turn w') :
    w'.key = k ∧ ¬w'.lowersId cur ∧ env.newer w' next = false := by
  have hvalid : s'.Valid env turn w' := (valid_congr (sameIds_of_update hcur hid hfind)).mpr h.1
  by_cases hk : w'.key = k
  · have hnot' : ¬(env.newer w' next = true ∨ w'.lowersId next) := by
      intro hor
      refine hnot ⟨hvalid, fun c hc => ?_⟩
      obtain rfl : next = c := by
        rw [hfind, hk, Function.update_self, Option.some.injEq] at hc
        exact hc
      exact hor
    rw [not_or] at hnot'
    refine ⟨hk, ?_, by simpa using hnot'.1⟩
    rw [ConfigWire.lowersId, ← hid]
    exact hnot'.2
  · refine absurd ⟨hvalid, fun c hc => ?_⟩ hnot
    rw [hfind, Function.update_of_ne hk] at hc
    exact h.2 c hc

end Rewrite

/-- The row a merged row leaves, when it is of the key of `w` and within its bounds. -/
lemma rowAfter_of_atMost (turn : Turn) (hcur : s.rows.find w.key = some cur)
    (hch : s.Changes env w')
    (h : AtMost env w cur w') :
    env.newer w' cur = true ∧ s.rowAfter env turn w' = w'.row cur.id (env.isReplica w') := by
  obtain ⟨hkey, hlow, -⟩ := h
  have hcur' : s.rows.find w'.key = some cur := hkey ▸ hcur
  have hnewer := (hch cur hcur').resolve_right hlow
  refine ⟨hnewer, ?_⟩
  unfold rowAfter idAfter payloadAfter
  rw [hcur']
  dsimp only
  rw [if_neg hlow, if_pos hnewer]
  rfl

/-- Past the payload of `w`, the rows that are bounded by it change nothing more. -/
lemma atMost_iff_not_merges {rest : List (Json × Turn)} (hcur : s.rows.find w.key = some cur)
    (hnewer : env.newer w cur = true)
    (hfind : s'.rows.find = Function.update s.rows.find w.key
      (some (w.row cur.id (env.isReplica w)))) :
    (∀ a ∈ rest, s.Merges env a.2 (.ofJson a.1) → AtMost env w cur (.ofJson a.1)) ↔
      ∀ a ∈ rest, ¬s'.Merges env a.2 (.ofJson a.1) := by
  obtain ⟨i, l, hi, hl, hlt⟩ := newer_iff.mp hnewer
  have hnext : stampMillis env (w.row cur.id (env.isReplica w)) = some i :=
    stampMillis_of_canonical hi
  constructor
  · intro h a ha hm
    obtain ⟨hkey, hlow, hold⟩ := h a ha
      (hm.of_update hcur (ConfigWire.row_id _ _ _) hl hnext hlt hfind)
    rcases hm.2 (w.row cur.id (env.isReplica w)) (by rw [hfind, hkey, Function.update_self]) with
      hnew | hlow'
    · exact Bool.false_ne_true (hold.symm.trans hnew)
    · exact hlow hlow'
  · intro h a ha hm
    exact hm.lost hcur (ConfigWire.row_id _ _ _) hfind (h a ha)

/-- A row with an older payload of the key in between makes no difference to the bounds. -/
lemma atMost_iff_of_between {rest : List (Json × Turn)} {next : ConfigRow}
    (hcur : s.rows.find w.key = some cur) (hid : next.id = cur.id) {l i : Int}
    (hl : stampMillis env cur = some l) (hi : stampMillis env next = some i) (hlt : l < i)
    (hbelow : env.newer w next = true)
    (hfind : s'.rows.find = Function.update s.rows.find w.key (some next)) :
    (∀ a ∈ rest, s.Merges env a.2 (.ofJson a.1) → AtMost env w cur (.ofJson a.1)) ↔
      ∀ a ∈ rest, s'.Merges env a.2 (.ofJson a.1) → AtMost env w next (.ofJson a.1) := by
  have hbounds : ∀ w', AtMost env w next w' ↔ AtMost env w cur w' := by
    intro w'
    rw [AtMost, AtMost, ConfigWire.lowersId, ConfigWire.lowersId, hid]
  constructor
  · intro h a ha hm
    exact (hbounds _).mpr (h a ha (hm.of_update hcur hid hl hi hlt hfind))
  · intro h a ha hm
    by_cases hm' : s'.Merges env a.2 (.ofJson a.1)
    · exact (hbounds _).mp (h a ha hm')
    · obtain ⟨hkey, hlow, hold⟩ := hm.lost hcur hid hfind hm'
      refine ⟨hkey, hlow, ?_⟩
      by_contra hnew
      -- what is newer than `w` is newer than the row in between
      obtain ⟨j, m, hj, hm, hlt'⟩ := newer_iff.mp hbelow
      have hwrow : stampMillis env (w.row cur.id (env.isReplica w)) = some j :=
        stampMillis_of_canonical hj
      have hnew' : env.newer (.ofJson a.1) (w.row cur.id (env.isReplica w)) = true :=
        Bool.eq_true_of_not_eq_false hnew
      rw [newer_of_newer hm hwrow hlt' hnew'] at hold
      cases hold

/-- The rows that reach the payload of `w` are a matter of the ids by key. -/
lemma reaches_congr (h : SameIds s s') (a : Json × Turn) :
    Reaches env s' w a ↔ Reaches env s w a := by
  unfold Reaches
  rw [valid_congr h]

/-- A merged row that does not prevent the payload of `w` from being the last one of its key, and
the only change, is bounded by it. -/
lemma Merges.atMost {t : ConfigStore} (hcur : s.rows.find w.key = some cur)
    (h : s.Merges env turn w')
    (hfind : s'.rows.find = Function.update s.rows.find w'.key (some (s.rowAfter env turn w')))
    (hrise : Rises env s' t)
    (ht : t.rows.find = Function.update s.rows.find w.key
      (some (w.row cur.id (env.isReplica w)))) : AtMost env w cur w' := by
  have hkey : w'.key = w.key := by
    by_contra hne
    refine find_ne_of_rises h.2 hfind hrise ?_
    rw [ht, Function.update_of_ne hne]
  have hcur' : s.rows.find w'.key = some cur := hkey ▸ hcur
  obtain ⟨r', hr', hor⟩ := hrise w.key _ (by rw [hfind, hkey, Function.update_self])
  rw [ht, Function.update_self, Option.some.injEq] at hr'
  subst hr'
  have hle : cur.id ≤ (s.rowAfter env turn w').id := by
    rcases hor with hor | habove
    · rw [← hor]
      exact le_rfl
    · exact habove.1
  have hid : (s.rowAfter env turn w').id = s.idAfter turn w' := by
    rw [rowAfter, hcur']
    rfl
  have hlow : ¬w'.lowersId cur := by
    intro hlow
    rw [hid, idAfter, hcur'] at hle
    dsimp only at hle
    rw [if_pos hlow] at hle
    exact absurd hlow.2 (not_lt.mpr hle)
  refine ⟨hkey, hlow, ?_⟩
  by_contra hnew
  have hnew : env.newer w' (w.row cur.id (env.isReplica w)) = true :=
    Bool.eq_true_of_not_eq_false hnew
  obtain ⟨i', m, hi', hm', hlt'⟩ := newer_iff.mp hnew
  have hnewer' := (h.2 cur hcur').resolve_right hlow
  have hrow : stampMillis env (s.rowAfter env turn w') = some i' := by
    rw [rowAfter, hcur']
    dsimp only
    rw [payloadAfter, if_pos hnewer']
    exact stampMillis_of_canonical hi'
  -- the last row of the key would be older than the one in between
  rcases hor with hor | ⟨-, ⟨m', j, hm'', hj, hlt''⟩ | ⟨hpay, -⟩⟩
  · rw [← hor, hm', Option.some.injEq] at hrow
    omega
  · rw [hrow, Option.some.injEq] at hm''
    rw [hm', Option.some.injEq] at hj
    omega
  · rw [stampMillis_of_withId hpay, hrow, Option.some.injEq] at hm'
    omega

/-- A payload of the stamp of `w` gives way to no other one of that stamp. -/
lemma samePayload_of_rises {t : ConfigStore} {i i' : Int}
    (hi : canonicalRfc3339Millis env.lib w.updatedAt = some i)
    (hi' : stampMillis env (w'.row cur.id (env.isReplica w')) = some i')
    (hnot : lwwStrIsNewer env.lib w.updatedAt w'.updatedAt = false)
    (hs' : s'.rows.find w.key = some (w'.row cur.id (env.isReplica w'))) (hrise : Rises env s' t)
    (ht : t.rows.find w.key = some (w.row cur.id (env.isReplica w))) :
    w'.row cur.id (env.isReplica w') = w.row cur.id (env.isReplica w) := by
  obtain ⟨r', hr', hor⟩ := hrise w.key _ hs'
  rw [ht, Option.some.injEq] at hr'
  subst hr'
  rcases hor with hor | ⟨-, ⟨m, j, hm, hj, hlt⟩ | ⟨-, hlt⟩⟩
  · exact hor.symm
  · rw [hi', Option.some.injEq] at hm
    rw [stampMillis_of_canonical (r := w.row cur.id (env.isReplica w)) hi,
      Option.some.injEq] at hj
    have hnew : env.newer w (w'.row cur.id (env.isReplica w')) = true :=
      newer_iff.mpr ⟨i, i', hi, hi', by omega⟩
    exact absurd (hnot.symm.trans hnew) Bool.false_ne_true
  · exact absurd hlt (lt_irrefl _)

/-- A row that is not merged reaches no payload that is newer than the present one. -/
lemma not_reaches_of_not_merges {a : Json × Turn} (hcur : s.rows.find w.key = some cur)
    (hnewer : env.newer w cur = true) (h : ¬s.Merges env a.2 (.ofJson a.1)) :
    ¬Reaches env s w a := by
  obtain ⟨i, l, hi, hl, hlt⟩ := newer_iff.mp hnewer
  rintro ⟨hvalid, hkey, hold⟩
  refine h ⟨hvalid, fun c hc => Or.inl ?_⟩
  rw [hkey, hcur, Option.some.injEq] at hc
  subst hc
  -- a canonical stamp that is not older than `w` is newer than the present one
  obtain ⟨j, hj⟩ := StampOk.canonical hvalid.2.2.1
  refine newer_iff.mpr ⟨j, l, hj, hl, ?_⟩
  by_contra hle
  have hnew : env.newer w ((ConfigWire.ofJson a.1).row cur.id (env.isReplica w)) = true :=
    newer_iff.mpr ⟨i, j, hi, stampMillis_of_canonical hj, by omega⟩
  exact Bool.false_ne_true (hold.symm.trans hnew)

/-- The valid rows write the payload of `w` over an older one, and no more, exactly when they are
bounded by `w` and the first that is not older carries its payload. -/
lemma mergeValid_repeats_iff (rest : List (Json × Turn)) :
    ∀ {s : ConfigStore} {cur : ConfigRow}, s.rows.find w.key = some cur →
      env.newer w cur = true →
      ((mergeValid env rest s).rows.find =
          Function.update s.rows.find w.key (some (w.row cur.id (env.isReplica w))) ↔
        Repeats env s w cur rest) := by
  induction rest with
  | nil =>
    intro s cur hcur hnewer
    refine ⟨fun h => ?_, fun h => by cases h.2⟩
    have hsame := congrFun h w.key
    rw [mergeValid, Function.update_self, hcur, Option.some.injEq] at hsame
    -- the row would be newer than itself
    obtain ⟨i, l, hi, hl, hlt⟩ := newer_iff.mp hnewer
    rw [hsame, stampMillis_of_canonical (r := w.row cur.id (env.isReplica w)) hi,
      Option.some.injEq] at hl
    omega
  | cons a rest ih =>
    intro s cur hcur hnewer
    obtain ⟨row, turn⟩ := a
    by_cases hm : s.Merges env turn (.ofJson row)
    · obtain ⟨s', heq, hfind⟩ := mergeValid_cons_of_merges rest hm
      have hrise : Rises env s' (mergeValid env rest s') := rises_mergeValid rest s'
      rw [heq]
      by_cases hmost : AtMost env w cur (.ofJson row)
      · obtain ⟨hnewer', hrow⟩ := rowAfter_of_atMost turn hcur hm.2 hmost
        rw [hrow, hmost.1] at hfind
        obtain ⟨i', l, hi', hl, hlt⟩ := newer_iff.mp hnewer'
        have hmid : stampMillis env ((ConfigWire.ofJson row).row cur.id
            (env.isReplica (.ofJson row))) = some i' := stampMillis_of_canonical hi'
        have hcur' : s'.rows.find w.key = some ((ConfigWire.ofJson row).row cur.id
            (env.isReplica (.ofJson row))) := by rw [hfind, Function.update_self]
        have hid : ((ConfigWire.ofJson row).row cur.id (env.isReplica (.ofJson row))).id =
            cur.id := ConfigWire.row_id _ _ _
        cases hbelow : lwwStrIsNewer env.lib w.updatedAt (ConfigWire.ofJson row).updatedAt with
        | true =>
          -- an older payload of the key: the others are left to reach `w`
          have hstep := ih hcur' hbelow
          rw [hfind, Function.update_idem] at hstep
          have hreach : ¬Reaches env s w (row, turn) := fun h => by
            rw [h.2.2] at hbelow
            cases hbelow
          refine hstep.trans ?_
          unfold Repeats
          rw [List.forall_mem_cons, List.find?_cons_of_neg (by simpa using hreach),
            atMost_iff_of_between hcur hid hl hmid hlt hbelow hfind]
          simp only [reaches_congr (sameIds_of_update hcur hid hfind)]
          exact and_congr_left fun _ => ⟨fun h => ⟨fun _ => hmost, h⟩, And.right⟩
        | false =>
          have hreach : Reaches env s w (row, turn) := ⟨hm.1, hmost.1, hbelow⟩
          unfold Repeats
          rw [List.forall_mem_cons, List.find?_cons_of_pos (by simpa using hreach), Option.any_some,
            decide_eq_true_eq, ← row_eq_iff env cur.id hmost.1]
          by_cases hpay : (ConfigWire.ofJson row).row cur.id (env.isReplica (.ofJson row)) =
              w.row cur.id (env.isReplica w)
          · -- the payload of `w` is there, and must stay
            rw [hpay] at hfind
            rw [← hfind, mergeValid_same_iff, ← atMost_iff_not_merges hcur hnewer hfind]
            exact ⟨fun h => ⟨⟨fun _ => hmost, h⟩, hpay⟩, fun h => h.1.2⟩
          · -- another payload of the same stamp stays for good
            refine ⟨fun h => absurd ?_ hpay, fun h => absurd h.2 hpay⟩
            obtain ⟨i, -, hi, -, -⟩ := newer_iff.mp hnewer
            exact samePayload_of_rises hi hmid hbelow hcur' hrise
              (by rw [h, Function.update_self])
      · -- a row out of bounds leaves a trace
        exact ⟨fun h => absurd (hm.atMost hcur hfind hrise h) hmost,
          fun h => absurd (h.1 _ List.mem_cons_self hm) hmost⟩
    · have hreach := not_reaches_of_not_merges (a := (row, turn)) hcur hnewer hm
      rw [mergeValid_cons_of_not_merges hm, ih hcur hnewer]
      unfold Repeats
      rw [List.forall_mem_cons, List.find?_cons_of_neg (by simpa using hreach)]
      exact and_congr_left fun _ => ⟨fun h => ⟨fun h' => absurd h' hm, h⟩, And.right⟩

/-! ## The whole bundle -/

/-- The row ends the merge: its payload does not parse, or its id is in use. -/
def Fails (env : ConfigEnv) (turn : Turn) (s : ConfigStore) (w : ConfigWire) : Prop :=
  env.Admitted w ∧ (env.isJson w.json = false ∨ (env.StampOk turn w ∧ s.IdInUse turn w))

instance (env : ConfigEnv) (turn : Turn) (s : ConfigStore) (w : ConfigWire) :
    Decidable (s.Fails env turn w) :=
  inferInstanceAs (Decidable (_ ∧ (_ ∨ _)))

/-- A failing row does no harm to the rows after it: none of them would be merged, or, when its own
payload was written over the row `cur`, they write no more than that payload. -/
def Harmless (env : ConfigEnv) (s : ConfigStore) (w : ConfigWire) (rest : List (Json × Turn)) :
    Prop :=
  match s.rows.find w.key with
  | some cur =>
      if env.isJson w.json = true ∧ env.newer w cur = true then Repeats env s w cur rest
      else ∀ a ∈ rest, ¬s.Merges env a.2 (.ofJson a.1)
  | none => ∀ a ∈ rest, ¬s.Merges env a.2 (.ofJson a.1)

instance (env : ConfigEnv) (s : ConfigStore) (w : ConfigWire) (rest : List (Json × Turn)) :
    Decidable (s.Harmless env w rest) := by
  unfold Harmless
  split <;> infer_instance

/-- No row of the bundle fails when its turn comes, or the first that does is harmless. -/
def FailsHarmlessly (env : ConfigEnv) : List (Json × Turn) → ConfigStore → Prop
  | [], _ => True
  | (row, turn) :: rest, s =>
      if s.Fails env turn (.ofJson row) then s.Harmless env (.ofJson row) rest
      else FailsHarmlessly env rest (mergeRow env turn s row).1

/-- A failing row ends the merge.  The rows after it are as good as merged exactly when it is
harmless. -/
lemma harmless_iff {row : Json} (rest : List (Json × Turn)) (h : s.Fails env turn (.ofJson row)) :
    ∃ s' e, mergeRow env turn s row = (s', .error e) ∧
      (s'.rows.find = (mergeValid env rest s).rows.find ↔ s.Harmless env (.ofJson row) rest) := by
  obtain ⟨hadm, hor⟩ := h
  by_cases hjson : env.isJson (ConfigWire.ofJson row).json = true
  · obtain ⟨hstamp, huse⟩ := hor.resolve_left (by rw [hjson]; exact Bool.true_eq_false.mp)
    obtain ⟨s', hs', hfind⟩ := mergeRow_of_refused hadm hjson hstamp huse
    refine ⟨s', _, hs', ?_⟩
    rw [hfind, Harmless]
    cases hcur : s.rows.find (ConfigWire.ofJson row).key with
    | none =>
      rw [Option.map_none, ← hcur, Function.update_eq_self, eq_comm, mergeValid_same_iff, hcur]
    | some cur =>
      dsimp only
      rw [Option.map_some, payloadAfter]
      by_cases hnewer : env.newer (.ofJson row) cur = true
      · rw [if_pos hnewer, if_pos ⟨hjson, hnewer⟩, eq_comm, mergeValid_repeats_iff rest hcur hnewer]
      · rw [if_neg hnewer, if_neg fun h => hnewer h.2, ← hcur, Function.update_eq_self, eq_comm,
          mergeValid_same_iff]
  · refine ⟨s, _, mergeRow_of_not_json hadm (Bool.eq_false_of_not_eq_true hjson), ?_⟩
    rw [eq_comm, mergeValid_same_iff, Harmless]
    cases s.rows.find (ConfigWire.ofJson row).key with
    | none => rfl
    | some cur =>
      dsimp only
      rw [if_neg fun h => hjson h.1]

/-- A row that does not fail is valid or skipped. -/
lemma valid_or_skipped {row : Json} (h : ¬s.Fails env turn (.ofJson row)) :
    s.Valid env turn (.ofJson row) ∨
      (¬s.Valid env turn (.ofJson row) ∧ mergeRow env turn s row = (s, .ok false)) := by
  by_cases hvalid : s.Valid env turn (.ofJson row)
  · exact Or.inl hvalid
  · refine Or.inr ⟨hvalid, mergeRow_of_skipped fun hadm => ?_⟩
    have hjson : env.isJson (ConfigWire.ofJson row).json = true := by
      by_contra hjson
      exact h ⟨hadm, Or.inl (Bool.eq_false_of_not_eq_true hjson)⟩
    refine ⟨hjson, fun hstamp => ?_⟩
    by_cases huse : s.IdInUse turn (.ofJson row)
    · exact h ⟨hadm, Or.inr ⟨hstamp, huse⟩⟩
    · exact hvalid ⟨hadm, hjson, hstamp, huse⟩

/-- The loop has the effect of the valid rows exactly when it fails harmlessly or not at all. -/
lemma mergeLoop_eq_mergeValid_iff (bundle : List (Json × Turn)) (s : ConfigStore) (merged : Nat) :
    (mergeLoop env bundle s merged).1.rows.find = (mergeValid env bundle s).rows.find ↔
      FailsHarmlessly env bundle s := by
  induction bundle generalizing s merged with
  | nil => simp [mergeLoop, mergeValid, FailsHarmlessly]
  | cons a rest ih =>
    obtain ⟨row, turn⟩ := a
    unfold mergeLoop FailsHarmlessly
    by_cases hfails : s.Fails env turn (.ofJson row)
    · obtain ⟨s', e, hrow, hiff⟩ := harmless_iff rest hfails
      have hnot : ¬s.Valid env turn (.ofJson row) := fun hvalid => by
        rcases hfails.2 with hjson | ⟨-, huse⟩
        · rw [hvalid.2.1] at hjson
          cases hjson
        · exact hvalid.2.2.2 huse
      rw [if_pos hfails, hrow, mergeValid, if_neg hnot]
      exact hiff
    · rw [if_neg hfails]
      rcases valid_or_skipped hfails with hvalid | ⟨hnot, hrow⟩
      · obtain ⟨s', wrote, hrow, -, -⟩ := mergeRow_of_valid hvalid
        rw [mergeValid, if_pos hvalid, hrow]
        exact ih s' _
      · rw [mergeValid, if_neg hnot, hrow]
        exact ih s _

instance decidableFailsHarmlessly (env : ConfigEnv) :
    (bundle : List (Json × Turn)) → (s : ConfigStore) →
    Decidable (FailsHarmlessly env bundle s)
  | [], _ => isTrue trivial
  | (row, turn) :: rest, s =>
      if h : s.Fails env turn (.ofJson row) then
        decidable_of_iff (s.Harmless env (.ofJson row) rest) (by rw [FailsHarmlessly, if_pos h])
      else
        have := decidableFailsHarmlessly env rest (mergeRow env turn s row).1
        decidable_of_iff (FailsHarmlessly env rest (mergeRow env turn s row).1)
          (by rw [FailsHarmlessly, if_neg h])

lemma notBlocked_iff {turns : Nat → Turn} {rows : Json} :
    NotBlocked env turns s rows ↔ FailsHarmlessly env (arrivals rows turns) s := by
  rw [← mergeLoop_eq_mergeValid_iff (arrivals rows turns) s 0,
    ← mergeLoop_validRows (arrivals rows turns) s 0]
  exact funext_iff.symm

/-- **Bad rows.**  A call of `replicate_merge` has the effect of merging the valid rows of its
bundle only if and only if no row fails when its turn comes, or the first that does is harmless to
the rows after it. -/
theorem replicateMerge_not_blocked_iff (env : ConfigEnv) (turns : Nat → Turn) (s : ConfigStore)
    (rows : Json) :
    NotBlocked env turns s rows ↔ FailsHarmlessly env (arrivals rows turns) s :=
  notBlocked_iff

/-- A host that merges rows of `host-b`, with one timestamp and two JSON texts that are looked
at. -/
def envOfHostB : ConfigEnv where
  lib :=
    { json := ⟨fun _ => none, fun _ => ""⟩
      parseRfc3339 := fun s =>
        if s = "2026-07-05T10:00:00Z" then some 1783245600000000000 else none
      toRfc3339 := fun _ => "2026-07-05T10:00:00Z" }
  isJson := fun s => s = "{}"
  localId := "host-a"
  peer := some "host-b"

/-- A row whose payload is not JSON, followed by a row that is fine. -/
def badRowFirst : Json :=
  .array
    [ConfigWire.toJson
        ⟨"host-b", "display", "target", "\x7b", "2026-07-05T10:00:00Z", "local", "id1"⟩,
      ConfigWire.toJson
        ⟨"host-b", "graphics", "prefs", "{}", "2026-07-05T10:00:00Z", "local", "id2"⟩]

/-- The row that is fine is not merged. -/
theorem bad_row_blocks_the_next :
    ¬NotBlocked envOfHostB (fun _ => ⟨1783245600000, "id3"⟩) .empty badRowFirst := by
  rw [notBlocked_iff]
  decide

end ConfigStore

end Orca
