import Orca.Config.Rows

/-!
# One config row from the mesh

What one iteration of `replicate_merge` does to `config_rows`, seen through the natural keys.  A row
is `Admitted` past the guards of the loop, and `Valid` when its payload parses, its stamp is
accepted and the id its key would have is not in use.  A valid row sets the row of its key to
`rowAfter` and touches no other (`mergeRow_of_valid`).  A row that is not admitted, or whose stamp
is rejected, is skipped.  All other rows end the merge: one whose id is in use after its payload was
written, where its key has a row (`mergeRow_of_refused`).
-/

namespace Orca

namespace ConfigEnv

/-- The guards of the loop. -/
def Admitted (env : ConfigEnv) (w : ConfigWire) : Prop :=
  ¬(w.hostOwner = "" ∨ w.noun = "" ∨ w.name = "") ∧ w.noun ∈ peerWritableNouns ∧
    env.peer = some w.hostOwner

instance (env : ConfigEnv) (w : ConfigWire) : Decidable (env.Admitted w) :=
  inferInstanceAs (Decidable (_ ∧ _ ∧ _))

/-- `is_replica`, from ownership. -/
def isReplica (env : ConfigEnv) (w : ConfigWire) : Bool :=
  env.localId = "" || w.hostOwner ≠ env.localId

/-- The stamp is accepted. -/
def StampOk (env : ConfigEnv) (turn : Turn) (w : ConfigWire) : Prop :=
  (checkIncomingLww env.lib turn.now w.updatedAt).isOk = true

instance (env : ConfigEnv) (turn : Turn) (w : ConfigWire) : Decidable (env.StampOk turn w) :=
  inferInstanceAs (Decidable (_ = true))

/-- The payload of `w` is newer than the one of `cur`. -/
def newer (env : ConfigEnv) (w : ConfigWire) (cur : ConfigRow) : Bool :=
  lwwStrIsNewer env.lib w.updatedAt cur.updatedAt

end ConfigEnv

/-- The incoming id takes the place of the one of `cur`. -/
def ConfigWire.lowersId (w : ConfigWire) (cur : ConfigRow) : Prop :=
  w.uuidv7 ≠ "" ∧ w.uuidv7 < cur.id

instance (w : ConfigWire) (cur : ConfigRow) : Decidable (w.lowersId cur) :=
  inferInstanceAs (Decidable (_ ∧ _))

namespace ConfigStore

variable {env : ConfigEnv} {turn : Turn} {s : ConfigStore} {w : ConfigWire} {cur : ConfigRow}

/-- The id the key of `w` has after the merge. -/
def idAfter (turn : Turn) (s : ConfigStore) (w : ConfigWire) : String :=
  match s.rows.find w.key with
  | none => if w.uuidv7 = "" then turn.minted else w.uuidv7
  | some cur => if w.lowersId cur then w.uuidv7 else cur.id

/-- That id belongs to a row of another key. -/
def IdInUse (turn : Turn) (s : ConfigStore) (w : ConfigWire) : Prop :=
  ∃ r ∈ s.rows.rows, r.key ≠ w.key ∧ r.id = s.idAfter turn w

instance (turn : Turn) (s : ConfigStore) (w : ConfigWire) : Decidable (s.IdInUse turn w) :=
  inferInstanceAs (Decidable (∃ r ∈ s.rows.rows, _ ∧ _))

/-- The payload the key of `w` has after the merge, under the id of a present row. -/
def payloadAfter (env : ConfigEnv) (w : ConfigWire) (cur : ConfigRow) : ConfigRow :=
  if env.newer w cur then w.row cur.id (env.isReplica w) else cur

/-- The row the key of `w` has after the merge. -/
def rowAfter (env : ConfigEnv) (turn : Turn) (s : ConfigStore) (w : ConfigWire) : ConfigRow :=
  match s.rows.find w.key with
  | none => w.row (s.idAfter turn w) (env.isReplica w)
  | some cur => (payloadAfter env w cur).withId (s.idAfter turn w)

/-- The row is merged without an error. -/
def Valid (env : ConfigEnv) (turn : Turn) (s : ConfigStore) (w : ConfigWire) : Prop :=
  env.Admitted w ∧ env.isJson w.json = true ∧ env.StampOk turn w ∧ ¬s.IdInUse turn w

instance (env : ConfigEnv) (turn : Turn) (s : ConfigStore) (w : ConfigWire) :
    Decidable (s.Valid env turn w) :=
  inferInstanceAs (Decidable (_ ∧ _ ∧ _ ∧ _))

/-- The row changes the table: its key is new, its payload is newer or its id is less. -/
def Changes (env : ConfigEnv) (s : ConfigStore) (w : ConfigWire) : Prop :=
  ∀ cur, s.rows.find w.key = some cur → env.newer w cur = true ∨ w.lowersId cur

/-! ## Stamps -/

/-- The stamp of a stored row, in milliseconds. -/
def stampMillis (env : ConfigEnv) (r : ConfigRow) : Option Int :=
  (env.lib.parseRfc3339 r.updatedAt).map Timestamp.unixMillis

lemma stampMillis_of_canonical {r : ConfigRow} {i : Int}
    (h : canonicalRfc3339Millis env.lib r.updatedAt = some i) : stampMillis env r = some i := by
  obtain ⟨ts, hparse, hts⟩ := Option.bind_eq_some_iff.mp h
  split at hts
  · rw [stampMillis, hparse]
    exact hts
  · cases hts

/-- Newer is a canonical stamp above a stamp that parses. -/
lemma newer_iff : env.newer w cur = true ↔ ∃ i l, canonicalRfc3339Millis env.lib w.updatedAt =
    some i ∧ stampMillis env cur = some l ∧ l < i := by
  unfold ConfigEnv.newer lwwStrIsNewer stampMillis
  dsimp only
  cases canonicalRfc3339Millis env.lib w.updatedAt with
  | none => simp
  | some i =>
    cases (env.lib.parseRfc3339 cur.updatedAt).map Timestamp.unixMillis with
    | none => simp
    | some l => simp

lemma StampOk.canonical (h : env.StampOk turn w) :
    ∃ i, canonicalRfc3339Millis env.lib w.updatedAt = some i := by
  unfold ConfigEnv.StampOk checkIncomingLww at h
  cases hmillis : canonicalRfc3339Millis env.lib w.updatedAt with
  | none =>
    rw [hmillis] at h
    cases h
  | some i => exact ⟨i, rfl⟩

/-! ## The statements -/

@[simp] lemma payloadAfter_id : (payloadAfter env w cur).id = cur.id := by
  unfold payloadAfter
  split <;> rfl

/-- The upsert on a key without a row inserts one. -/
lemma upsert_of_none (hnone : s.rows.find w.key = none) {id : String} (rep : Bool)
    (f : ConfigRow → ConfigRow) (hfree : ∀ r ∈ s.rows.rows, r.id ≠ id) :
    ∃ rows, s.rows.upsert (w.row id rep) f = some rows ∧
      rows.find = Function.update s.rows.find w.key (some (w.row id rep)) := by
  have hkey := KeyedTable.find_eq_none_iff.mp hnone
  obtain ⟨rows, hrows, hmem⟩ : ∃ rows, s.rows.insert (w.row id rep) = some rows ∧
      ∀ x, x ∈ rows.rows ↔ x = w.row id rep ∨ x ∈ s.rows.rows :=
    UniqueTable.insert_of_free hkey hfree
  refine ⟨rows, ?_, UniqueTable.find_of_mem_iff (r := w.row id rep) ?_⟩
  · unfold UniqueTable.upsert
    rw [ConfigWire.row_key, hnone, Option.isSome_none, if_neg Bool.false_ne_true, hrows]
  · intro x
    rw [hmem]
    exact or_congr_right ⟨fun hx => ⟨hx, hkey x hx⟩, And.left⟩

lemma upsert_of_none_taken (hnone : s.rows.find w.key = none) {id : String} {rep : Bool}
    {f : ConfigRow → ConfigRow} {r : ConfigRow} (hr : r ∈ s.rows.rows) (hid : r.id = id) :
    s.rows.upsert (w.row id rep) f = none := by
  unfold UniqueTable.upsert
  rw [ConfigWire.row_key, hnone, Option.isSome_none, if_neg Bool.false_ne_true]
  exact UniqueTable.insert_eq_none_of_taken hr hid

/-- The upsert on a key with a row rewrites the payload and keeps the id. -/
lemma upsert_of_some (hcur : s.rows.find w.key = some cur) (id : String) (rep : Bool) :
    ∃ rows, s.rows.upsert (w.row id rep) (w.row id rep).takePayload = some rows ∧
      rows.find = Function.update s.rows.find w.key (some (w.row cur.id rep)) := by
  obtain ⟨hmemcur, hkey⟩ := KeyedTable.find_eq_some_iff.mp hcur
  have hrow : (w.row id rep).takePayload cur = w.row cur.id rep := ConfigRow.takePayload_row hkey
  have honly : ∀ r ∈ s.rows.rows, decide (r.key = (w.row id rep).key) = true ↔ r = cur := by
    intro r hr
    rw [decide_eq_true_eq, ConfigWire.row_key, ← hkey]
    exact ⟨fun h => s.rows.eq_of_key hr hmemcur h, fun h => h ▸ rfl⟩
  obtain ⟨rows, hrows, hmem⟩ := UniqueTable.updateWhere_of_free (t := s.rows)
    (f := (w.row id rep).takePayload) hmemcur honly
    (fun r hr hne heq => hne (s.rows.eq_of_key hr hmemcur heq))
    (fun r hr hne heq => hne (s.rows.eq_of_uid hr hmemcur heq))
  refine ⟨rows, ?_, UniqueTable.find_of_mem_iff (r := w.row cur.id rep) ?_⟩
  · unfold UniqueTable.upsert
    rw [ConfigWire.row_key, hcur, Option.isSome_some, if_pos rfl]
    exact hrows
  · intro x
    rw [hmem, hrow]
    refine or_congr_right (and_congr_right fun hx => not_congr ?_)
    rw [ConfigWire.row_key, ← hkey]
    exact ⟨fun h => h ▸ rfl, fun h => s.rows.eq_of_key hx hmemcur h⟩

lemma decide_id_eq_iff (hcur : cur ∈ s.rows.rows) :
    ∀ r ∈ s.rows.rows, decide (r.id = cur.id) = true ↔ r = cur := by
  intro r hr
  rw [decide_eq_true_eq]
  exact ⟨fun h => s.rows.eq_of_uid hr hcur h, fun h => h ▸ rfl⟩

/-- An id that is not less is left alone. -/
lemma convergeId_of_not_lowers (hcur : s.rows.find w.key = some cur) (h : ¬w.lowersId cur)
    (wrote : Bool) : s.convergeId w wrote = (s, .ok wrote) := by
  unfold convergeId
  split
  · rfl
  · rename_i hid
    have hget : s.getOwned w.hostOwner w.noun w.name = some cur := hcur
    rw [hget]
    exact if_neg fun hlt => h ⟨hid, hlt⟩

/-- A smaller id that is free takes the place of the present one. -/
lemma convergeId_of_free (hcur : s.rows.find w.key = some cur) (h : w.lowersId cur)
    (hfree : ∀ r ∈ s.rows.rows, r.key ≠ w.key → r.id ≠ w.uuidv7) (wrote : Bool) :
    ∃ s', s.convergeId w wrote = (s', .ok true) ∧
      s'.rows.find = Function.update s.rows.find w.key (some (cur.withId w.uuidv7)) := by
  obtain ⟨hmemcur, hkey⟩ := KeyedTable.find_eq_some_iff.mp hcur
  have hother : ∀ r ∈ s.rows.rows, r ≠ cur → r.key ≠ w.key := fun r hr hne heq =>
    hne (s.rows.eq_of_key hr hmemcur (heq.trans hkey.symm))
  obtain ⟨rows, hrows, hmem⟩ := UniqueTable.updateWhere_of_free (t := s.rows)
    (f := fun r : ConfigRow => r.withId w.uuidv7) hmemcur (decide_id_eq_iff hmemcur)
    (fun r hr hne heq => hother r hr hne (Eq.trans heq hkey))
    (fun r hr hne => hfree r hr (hother r hr hne))
  have hfind : rows.find = Function.update s.rows.find (cur.withId w.uuidv7).key
      (some (cur.withId w.uuidv7)) := UniqueTable.find_of_mem_iff fun x =>
        (hmem x).trans (or_congr_right (and_congr_right fun hx => not_congr
      ⟨fun h => h ▸ rfl, fun h => s.rows.eq_of_key hx hmemcur h⟩))
  rw [ConfigRow.withId_key, hkey] at hfind
  refine ⟨⟨rows, moveHistory s.history cur.id w.uuidv7⟩, ?_, hfind⟩
  unfold convergeId
  have hget : s.getOwned w.hostOwner w.noun w.name = some cur := hcur
  rw [if_neg h.1, hget]
  dsimp only
  rw [if_pos h.2, hrows]

/-- A smaller id that is in use is refused. -/
lemma convergeId_of_taken (hcur : s.rows.find w.key = some cur) (h : w.lowersId cur)
    {r : ConfigRow} (hr : r ∈ s.rows.rows) (hne : r.key ≠ w.key) (hid : r.id = w.uuidv7)
    (wrote : Bool) :
    s.convergeId w wrote =
      (⟨s.rows, moveHistory s.history cur.id w.uuidv7⟩, .error configIdTaken) := by
  obtain ⟨hmemcur, hkey⟩ := KeyedTable.find_eq_some_iff.mp hcur
  have hfail := UniqueTable.updateWhere_eq_none_of_taken (t := s.rows)
    (f := fun r : ConfigRow => r.withId w.uuidv7) hmemcur (decide_id_eq_iff hmemcur) hr
    (fun heq => hne (heq ▸ hkey)) hid
  unfold convergeId
  have hget : s.getOwned w.hostOwner w.noun w.name = some cur := hcur
  rw [if_neg h.1, hget]
  dsimp only
  rw [if_pos h.2, hfail]

/-! ## One row -/

lemma mergeRow_of_admitted {row : Json} (h : env.Admitted (.ofJson row)) :
    mergeRow env turn s row =
      upsertMeshRow env turn s (.ofJson row) (env.isReplica (.ofJson row)) := by
  unfold mergeRow
  dsimp only
  rw [if_neg h.1, if_neg (not_not.mpr h.2.1), if_neg (not_not.mpr h.2.2)]
  rfl

/-- A row that the guards turn down, or whose stamp is rejected, is skipped. -/
lemma mergeRow_of_skipped {row : Json}
    (h : env.Admitted (.ofJson row) →
      env.isJson (ConfigWire.ofJson row).json = true ∧ ¬env.StampOk turn (.ofJson row)) :
    mergeRow env turn s row = (s, .ok false) := by
  by_cases hadm : env.Admitted (.ofJson row)
  · obtain ⟨hjson, hstamp⟩ := h hadm
    rw [mergeRow_of_admitted hadm, upsertMeshRow, if_pos hjson]
    cases hcheck : checkIncomingLww env.lib turn.now (ConfigWire.ofJson row).updatedAt with
    | error e => rfl
    | ok m => exact absurd (by rw [ConfigEnv.StampOk, hcheck]; rfl) hstamp
  · unfold mergeRow
    dsimp only
    split
    · rfl
    · rename_i hempty
      split
      · rfl
      · rename_i hnoun
        refine if_pos fun hpeer => hadm ⟨hempty, not_not.mp hnoun, hpeer⟩

/-- A payload that does not parse ends the merge, with nothing written. -/
lemma mergeRow_of_not_json {row : Json} (h : env.Admitted (.ofJson row))
    (hjson : env.isJson (ConfigWire.ofJson row).json = false) :
    mergeRow env turn s row = (s, .error (configNotJson (.ofJson row))) := by
  rw [mergeRow_of_admitted h, upsertMeshRow, hjson, if_neg Bool.false_ne_true]

/-- The rest of `upsert_mesh_row`, once the payload parsed and the stamp was accepted, on a key
without a row. -/
lemma upsertMeshRow_of_none (hjson : env.isJson w.json = true) (hstamp : env.StampOk turn w)
    (hnone : s.rows.find w.key = none) (rep : Bool) :
    upsertMeshRow env turn s w rep =
      match s.rows.upsert (w.row (s.idAfter turn w) rep)
        (w.row (s.idAfter turn w) rep).takePayload with
      | none => (s, .error configIdTaken)
      | some rows => convergeId ⟨rows, s.history⟩ w true := by
  have hget : s.getOwned w.hostOwner w.noun w.name = none := hnone
  rw [upsertMeshRow, if_pos hjson]
  cases hcheck : checkIncomingLww env.lib turn.now w.updatedAt with
  | error e =>
    rw [ConfigEnv.StampOk, hcheck] at hstamp
    cases hstamp
  | ok m =>
    dsimp only
    rw [hget, idAfter, hnone]
    rfl

/-- The rest of `upsert_mesh_row`, once the payload parsed and the stamp was accepted, on a key with
a row: the payload is written when it is newer, and the id comes after. -/
lemma upsertMeshRow_of_present (hjson : env.isJson w.json = true) (hstamp : env.StampOk turn w)
    (hcur : s.rows.find w.key = some cur) (rep : Bool) :
    ∃ mid, upsertMeshRow env turn s w rep = convergeId mid w (env.newer w cur) ∧
      mid.history = s.history ∧
      mid.rows.find = Function.update s.rows.find w.key
        (some (if env.newer w cur then w.row cur.id rep else cur)) ∧
      (env.newer w cur = false → mid = s) := by
  have hget : s.getOwned w.hostOwner w.noun w.name = some cur := hcur
  rw [upsertMeshRow, if_pos hjson]
  cases hcheck : checkIncomingLww env.lib turn.now w.updatedAt with
  | error e =>
    rw [ConfigEnv.StampOk, hcheck] at hstamp
    cases hstamp
  | ok m =>
    dsimp only
    rw [hget]
    cases hnewer : env.newer w cur with
    | true =>
      obtain ⟨rows, hrows, hfind⟩ := upsert_of_some hcur
        (if w.uuidv7 = "" then cur.id else w.uuidv7) rep
      refine ⟨⟨rows, s.history⟩, ?_, rfl, ?_, fun h => by cases h⟩
      · have hall :
            (some cur).all (fun c => lwwStrIsNewer env.lib w.updatedAt c.updatedAt) = true :=
          hnewer
        rw [if_pos hall]
        dsimp only [Option.map_some, Option.getD_some]
        rw [hrows]
      · rw [hfind, if_pos rfl]
    | false =>
      refine ⟨s, ?_, rfl, ?_, fun _ => rfl⟩
      · have hall : ¬(some cur).all
            (fun c => lwwStrIsNewer env.lib w.updatedAt c.updatedAt) = true := by
          rw [Option.all_some, show lwwStrIsNewer env.lib w.updatedAt cur.updatedAt =
            false from hnewer]
          exact Bool.false_ne_true
        rw [if_neg hall]
      · rw [if_neg Bool.false_ne_true, ← hcur, Function.update_eq_self]

/-- The same of a row whose `is_replica` is taken from ownership. -/
lemma upsertMeshRow_of_some (hjson : env.isJson w.json = true) (hstamp : env.StampOk turn w)
    (hcur : s.rows.find w.key = some cur) :
    ∃ mid, upsertMeshRow env turn s w (env.isReplica w) = convergeId mid w (env.newer w cur) ∧
      mid.rows.find = Function.update s.rows.find w.key (some (payloadAfter env w cur)) ∧
      (env.newer w cur = false → mid = s) := by
  obtain ⟨mid, hmid, -, hfind, hsame⟩ :=
    upsertMeshRow_of_present hjson hstamp hcur (env.isReplica w)
  exact ⟨mid, hmid, hfind, hsame⟩

/-- The ids of a table in which one key's row was replaced, apart from that row. -/
lemma mem_of_find_update {s mid : ConfigStore} {k : String × String × String} {o : Option ConfigRow}
    (h : mid.rows.find = Function.update s.rows.find k o) {r : ConfigRow} (hne : r.key ≠ k) :
    r ∈ mid.rows.rows ↔ r ∈ s.rows.rows := by
  rw [KeyedTable.mem_rows_iff, KeyedTable.mem_rows_iff, h, Function.update_of_ne hne]

/-- A valid row becomes the row of its key; when it changes nothing, nothing is written. -/
lemma mergeRow_of_valid {row : Json} (h : s.Valid env turn (.ofJson row)) :
    ∃ s' wrote, mergeRow env turn s row = (s', .ok wrote) ∧
      s'.rows.find = Function.update s.rows.find (ConfigWire.ofJson row).key
        (some (s.rowAfter env turn (.ofJson row))) ∧
      (¬s.Changes env (.ofJson row) → s' = s ∧ wrote = false) := by
  obtain ⟨hadm, hjson, hstamp, hfree⟩ := h
  rw [mergeRow_of_admitted hadm]
  generalize ConfigWire.ofJson row = w at *
  cases hfind : s.rows.find w.key with
  | none =>
    have hids : ∀ r ∈ s.rows.rows, r.id ≠ s.idAfter turn w := fun r hr hid =>
      hfree ⟨r, hr, KeyedTable.find_eq_none_iff.mp hfind r hr, hid⟩
    obtain ⟨rows, hrows, hnew⟩ := upsert_of_none hfind (env.isReplica w)
      (w.row (s.idAfter turn w) (env.isReplica w)).takePayload hids
    rw [upsertMeshRow_of_none hjson hstamp hfind, hrows]
    have hcur : (⟨rows, s.history⟩ : ConfigStore).rows.find w.key =
        some (w.row (s.idAfter turn w) (env.isReplica w)) := by
      rw [hnew, Function.update_self]
    have hnot : ¬w.lowersId (w.row (s.idAfter turn w) (env.isReplica w)) := by
      rintro ⟨hid, hlt⟩
      rw [ConfigWire.row_id, idAfter, hfind] at hlt
      dsimp only at hlt
      rw [if_neg hid] at hlt
      exact lt_irrefl _ hlt
    refine ⟨_, _, convergeId_of_not_lowers hcur hnot true, ?_, fun hch => ?_⟩
    · rw [rowAfter, hfind]
      exact hnew
    · exact absurd (fun c hc => by rw [hfind] at hc; cases hc) hch
  | some cur =>
    obtain ⟨mid, hmid, hmidfind, hsame⟩ := upsertMeshRow_of_some hjson hstamp hfind
    have hcur : mid.rows.find w.key = some (payloadAfter env w cur) := by
      rw [hmidfind, Function.update_self]
    rw [hmid]
    by_cases hlow : w.lowersId cur
    · have hidAfter : s.idAfter turn w = w.uuidv7 := by
        rw [idAfter, hfind]
        exact if_pos hlow
      have hids : ∀ r ∈ mid.rows.rows, r.key ≠ w.key → r.id ≠ w.uuidv7 := fun r hr hne hid =>
        hfree ⟨r, (mem_of_find_update hmidfind hne).mp hr, hne, hid.trans hidAfter.symm⟩
      have hlow' : w.lowersId (payloadAfter env w cur) := by
        rw [ConfigWire.lowersId, payloadAfter_id]
        exact hlow
      obtain ⟨s', hs', hnew⟩ := convergeId_of_free hcur hlow' hids (env.newer w cur)
      refine ⟨s', _, hs', ?_, fun hch => ?_⟩
      · rw [hnew, hmidfind, Function.update_idem, rowAfter, hfind, hidAfter]
      · refine absurd (fun c hc => ?_) hch
        rw [hfind, Option.some.injEq] at hc
        exact Or.inr (hc ▸ hlow)
    · have hidAfter : s.idAfter turn w = cur.id := by
        rw [idAfter, hfind]
        exact if_neg hlow
      have hlow' : ¬w.lowersId (payloadAfter env w cur) := by
        rw [ConfigWire.lowersId, payloadAfter_id]
        exact hlow
      refine ⟨mid, _, convergeId_of_not_lowers hcur hlow' _, ?_, fun hch => ?_⟩
      · rw [hmidfind, rowAfter, hfind, hidAfter]
        dsimp only
        have hid : (payloadAfter env w cur).id = cur.id := payloadAfter_id
        rw [← hid]
        rfl
      · have hold : env.newer w cur = false := by
          by_contra hnewer
          refine hch fun c hc => ?_
          rw [hfind, Option.some.injEq] at hc
          exact Or.inl (hc ▸ by simpa using hnewer)
        exact ⟨hsame hold, hold⟩

/-- A row whose id is in use ends the merge, after the payload of a present row was rewritten. -/
lemma mergeRow_of_refused {row : Json} (hadm : env.Admitted (.ofJson row))
    (hjson : env.isJson (ConfigWire.ofJson row).json = true)
    (hstamp : env.StampOk turn (.ofJson row)) (huse : s.IdInUse turn (.ofJson row)) :
    ∃ s', mergeRow env turn s row = (s', .error configIdTaken) ∧
      s'.rows.find = Function.update s.rows.find (ConfigWire.ofJson row).key
        ((s.rows.find (ConfigWire.ofJson row).key).map (payloadAfter env (.ofJson row))) := by
  rw [mergeRow_of_admitted hadm]
  generalize ConfigWire.ofJson row = w at *
  obtain ⟨r, hr, hne, hid⟩ := huse
  cases hfind : s.rows.find w.key with
  | none =>
    refine ⟨s, ?_, ?_⟩
    · rw [upsertMeshRow_of_none hjson hstamp hfind, upsert_of_none_taken hfind hr hid]
    · rw [Option.map_none, ← hfind, Function.update_eq_self]
  | some cur =>
    obtain ⟨mid, hmid, hmidfind, -⟩ := upsertMeshRow_of_some hjson hstamp hfind
    have hcur : mid.rows.find w.key = some (payloadAfter env w cur) := by
      rw [hmidfind, Function.update_self]
    have hlow : w.lowersId cur := by
      by_contra hlow
      rw [idAfter, hfind] at hid
      dsimp only at hid
      rw [if_neg hlow] at hid
      obtain ⟨hmemcur, hkey⟩ := KeyedTable.find_eq_some_iff.mp hfind
      exact hne (s.rows.eq_of_uid hr hmemcur hid ▸ hkey)
    have hlow' : w.lowersId (payloadAfter env w cur) := by
      rw [ConfigWire.lowersId, payloadAfter_id]
      exact hlow
    have hidAfter : s.idAfter turn w = w.uuidv7 := by
      rw [idAfter, hfind]
      exact if_pos hlow
    have htaken := convergeId_of_taken hcur hlow'
      ((mem_of_find_update hmidfind hne).mpr hr) hne (hid.trans hidAfter) (env.newer w cur)
    refine ⟨_, hmid.trans htaken, ?_⟩
    rw [hmidfind, Option.map_some]

end ConfigStore

end Orca
