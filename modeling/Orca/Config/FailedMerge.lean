import Orca.Config.Merge

/-!
# A config row that cannot be merged

`upsert_mesh_row` writes the payload of a row first and its id afterwards, and it moves the history
of the row before it rewrites the id.  None of this is undone when the id turns out to belong to
another row, so that an error can leave a new payload behind, and a history that belongs to the
other row.

`upsertMeshRow_unchanged_iff` says when an error changes nothing: the only one that does not is that
of an id which is refused after there was something to write.
-/

namespace Orca.ConfigStore

variable {env : ConfigEnv} {turn : Turn} {s : ConfigStore} {w : ConfigWire} {cur : ConfigRow}
  {rep : Bool}

/-- The row of the key is to take an id that belongs to a row of another key. -/
def TakesForeignId (s : ConfigStore) (w : ConfigWire) (cur : ConfigRow) : Prop :=
  w.lowersId cur ∧ ∃ r ∈ s.rows.rows, r.key ≠ w.key ∧ r.id = w.uuidv7

instance (s : ConfigStore) (w : ConfigWire) (cur : ConfigRow) :
    Decidable (s.TakesForeignId w cur) :=
  inferInstanceAs (Decidable (_ ∧ ∃ r ∈ s.rows.rows, _ ∧ _))

/-- Something is written before the id is: a newer payload, or the history of the row. -/
def WritesFirst (env : ConfigEnv) (s : ConfigStore) (w : ConfigWire) (cur : ConfigRow) : Prop :=
  env.newer w cur = true ∨ ∃ h ∈ s.history, h.rowId = cur.id

instance (env : ConfigEnv) (s : ConfigStore) (w : ConfigWire) (cur : ConfigRow) :
    Decidable (s.WritesFirst env w cur) :=
  inferInstanceAs (Decidable (_ ∨ ∃ h ∈ s.history, _))

/-- The row is merged in part. -/
def HalfMerged (env : ConfigEnv) (turn : Turn) (s : ConfigStore) (w : ConfigWire) : Prop :=
  env.isJson w.json = true ∧ env.StampOk turn w ∧
    ∃ cur ∈ s.rows.find w.key, s.TakesForeignId w cur ∧ s.WritesFirst env w cur

instance (env : ConfigEnv) (turn : Turn) (s : ConfigStore) (w : ConfigWire) :
    Decidable (s.HalfMerged env turn w) :=
  inferInstanceAs (Decidable (_ ∧ _ ∧ ∃ cur ∈ s.rows.find w.key, _))

/-! ## What is written before the id -/

/-- A history moves to another id unless there is none. -/
lemma moveHistory_eq_self_iff (history : List ConfigHistoryEntry) {old new : String}
    (hne : new ≠ old) :
    moveHistory history old new = history ↔ ¬∃ h ∈ history, h.rowId = old := by
  unfold moveHistory
  constructor
  · rintro hsame ⟨h, hmem, rfl⟩
    have hmoved := List.map_inj_left.mp (hsame.trans (List.map_id history).symm) h hmem
    rw [if_pos rfl] at hmoved
    exact hne (congrArg ConfigHistoryEntry.rowId hmoved)
  · intro hnone
    have hkept := List.map_congr_left (f := fun h : ConfigHistoryEntry =>
      if h.rowId = old then { h with rowId := new } else h) (g := id)
      fun h hmem => if_neg fun heq => hnone ⟨h, hmem, heq⟩
    exact hkept.trans (List.map_id history)

lemma updatedAt_ne_of_newer (h : env.newer w cur = true) : w.updatedAt ≠ cur.updatedAt := by
  obtain ⟨i, l, hincoming, hlocal, hlt⟩ := newer_iff.mp h
  intro heq
  rw [heq] at hincoming
  rw [stampMillis_of_canonical hincoming] at hlocal
  exact absurd (Option.some.inj hlocal) (ne_of_gt hlt)

/-- An id that is refused ends the merge in an error. -/
lemma upsertMeshRow_of_taken (hjson : env.isJson w.json = true) (hstamp : env.StampOk turn w)
    (hcur : s.rows.find w.key = some cur) (htaken : s.TakesForeignId w cur) (rep : Bool) :
    ∃ s', upsertMeshRow env turn s w rep = (s', .error configIdTaken) ∧
      (s' = s ↔ ¬s.WritesFirst env w cur) := by
  obtain ⟨hlow, r, hr, hne, hid⟩ := htaken
  obtain ⟨mid, hmid, hhistory, hfind, hsame⟩ := upsertMeshRow_of_present hjson hstamp hcur rep
  have hnow : mid.rows.find w.key = some (if env.newer w cur then w.row cur.id rep else cur) := by
    rw [hfind, Function.update_self]
  have hkept : (if env.newer w cur then w.row cur.id rep else cur).id = cur.id := by
    split <;> rfl
  have hlow' : w.lowersId (if env.newer w cur then w.row cur.id rep else cur) := by
    rw [ConfigWire.lowersId, hkept]
    exact hlow
  have hrefused := convergeId_of_taken hnow hlow' ((mem_of_find_update hfind hne).mpr hr) hne hid
    (env.newer w cur)
  refine ⟨_, hmid.trans hrefused, ?_⟩
  rw [hkept, hhistory]
  have hmoved := moveHistory_eq_self_iff s.history (ne_of_lt hlow.2)
  unfold WritesFirst
  rw [not_or, ← hmoved]
  constructor
  · intro heq
    have hrows : mid.rows = s.rows := by
      rw [← heq]
    have hhist : moveHistory s.history cur.id w.uuidv7 = s.history :=
      congrArg (fun s : ConfigStore => s.history) heq
    refine ⟨fun hnewer => ?_, hhist⟩
    -- the stamp of the payload has changed
    rw [hrows, hcur, if_pos hnewer] at hnow
    have hstamps := congrArg ConfigRow.updatedAt (Option.some.inj hnow)
    exact updatedAt_ne_of_newer hnewer hstamps.symm
  · rintro ⟨hold, hhist⟩
    rw [hsame (Bool.eq_false_of_not_eq_true hold), hhist]

/-- An id that is not refused ends the merge without an error. -/
lemma upsertMeshRow_of_not_taken (hjson : env.isJson w.json = true) (hstamp : env.StampOk turn w)
    (hcur : s.rows.find w.key = some cur) (htaken : ¬s.TakesForeignId w cur) (rep : Bool) :
    ∃ s' wrote, upsertMeshRow env turn s w rep = (s', .ok wrote) := by
  obtain ⟨mid, hmid, -, hfind, -⟩ := upsertMeshRow_of_present hjson hstamp hcur rep
  have hnow : mid.rows.find w.key = some (if env.newer w cur then w.row cur.id rep else cur) := by
    rw [hfind, Function.update_self]
  have hkept : (if env.newer w cur then w.row cur.id rep else cur).id = cur.id := by
    split <;> rfl
  rw [hmid]
  by_cases hlow : w.lowersId (if env.newer w cur then w.row cur.id rep else cur)
  · have hfree : ∀ r ∈ mid.rows.rows, r.key ≠ w.key → r.id ≠ w.uuidv7 := by
      intro r hr hne hid
      rw [ConfigWire.lowersId, hkept] at hlow
      exact htaken ⟨hlow, r, (mem_of_find_update hfind hne).mp hr, hne, hid⟩
    obtain ⟨s', hs', -⟩ := convergeId_of_free hnow hlow hfree (env.newer w cur)
    exact ⟨s', true, hs'⟩
  · exact ⟨mid, _, convergeId_of_not_lowers hnow hlow _⟩

/-- On a key without a row an error changes nothing. -/
lemma upsertMeshRow_of_absent (hjson : env.isJson w.json = true) (hstamp : env.StampOk turn w)
    (hnone : s.rows.find w.key = none) (rep : Bool) :
    upsertMeshRow env turn s w rep = (s, .error configIdTaken) ∨
      ∃ s' wrote, upsertMeshRow env turn s w rep = (s', .ok wrote) := by
  rw [upsertMeshRow_of_none hjson hstamp hnone]
  by_cases huse : ∃ r ∈ s.rows.rows, r.id = s.idAfter turn w
  · obtain ⟨r, hr, hid⟩ := huse
    rw [upsert_of_none_taken hnone hr hid]
    exact Or.inl rfl
  · obtain ⟨rows, hrows, hfind⟩ := upsert_of_none hnone rep
      (w.row (s.idAfter turn w) rep).takePayload fun r hr hid => huse ⟨r, hr, hid⟩
    have hnew : (⟨rows, s.history⟩ : ConfigStore).rows.find w.key =
        some (w.row (s.idAfter turn w) rep) := by
      rw [hfind, Function.update_self]
    have hnot : ¬w.lowersId (w.row (s.idAfter turn w) rep) := by
      rintro ⟨hid, hlt⟩
      rw [ConfigWire.row_id, idAfter, hnone] at hlt
      dsimp only at hlt
      rw [if_neg hid] at hlt
      exact lt_irrefl _ hlt
    rw [hrows]
    exact Or.inr ⟨_, _, convergeId_of_not_lowers hnew hnot true⟩

/-! ## Errors that change nothing -/

/-- A call of `upsert_mesh_row` that ends in an error leaves `config_rows` and `config_history` as
they were. -/
def FailsCleanly (env : ConfigEnv) (turn : Turn) (s : ConfigStore) (w : ConfigWire) (rep : Bool) :
    Prop :=
  ∀ e, (upsertMeshRow env turn s w rep).2 = .error e → (upsertMeshRow env turn s w rep).1 = s

/-- An error of `upsert_mesh_row` changes nothing if and only if it is not that of an id of another
row which the row of the key is to take after something was written. -/
theorem upsertMeshRow_unchanged_iff (env : ConfigEnv) (turn : Turn) (s : ConfigStore)
    (w : ConfigWire) (rep : Bool) :
    s.FailsCleanly env turn w rep ↔ ¬s.HalfMerged env turn w := by
  have hclean : ∀ s' wrote, upsertMeshRow env turn s w rep = (s', .ok wrote) →
      s.FailsCleanly env turn w rep := by
    intro s' wrote hok e he
    rw [hok] at he
    cases he
  by_cases hjson : env.isJson w.json = true
  · by_cases hstamp : env.StampOk turn w
    · cases hcur : s.rows.find w.key with
      | none =>
        refine iff_of_true ?_ ?_
        · rcases upsertMeshRow_of_absent hjson hstamp hcur rep with herr | ⟨s', wrote, hok⟩
          · intro e _
            rw [herr]
          · exact hclean s' wrote hok
        · rintro ⟨-, -, cur, hmem, -⟩
          rw [hcur] at hmem
          cases hmem
      | some cur =>
        by_cases htaken : s.TakesForeignId w cur
        · obtain ⟨s', herr, hiff⟩ := upsertMeshRow_of_taken hjson hstamp hcur htaken rep
          have hhalf : s.HalfMerged env turn w ↔ s.WritesFirst env w cur := by
            unfold HalfMerged
            rw [hcur]
            simp [hjson, hstamp, htaken]
          rw [hhalf, ← hiff]
          unfold FailsCleanly
          rw [herr]
          exact ⟨fun h => h _ rfl, fun h e _ => h⟩
        · obtain ⟨s', wrote, hok⟩ := upsertMeshRow_of_not_taken hjson hstamp hcur htaken rep
          refine iff_of_true (hclean s' wrote hok) ?_
          rintro ⟨-, -, cur', hmem, htaken', -⟩
          rw [hcur] at hmem
          obtain rfl := Option.some.inj hmem
          exact htaken htaken'
    · -- a stamp that is rejected ends the call without an error
      refine iff_of_true (fun e he => ?_) fun hhalf => hstamp hhalf.2.1
      rw [upsertMeshRow, if_pos hjson] at he ⊢
      cases hcheck : checkIncomingLww env.lib turn.now w.updatedAt with
      | error reason => rfl
      | ok m =>
        rw [ConfigEnv.StampOk, hcheck] at hstamp
        exact absurd rfl hstamp
  · refine iff_of_true (fun e _ => ?_) fun hhalf => hjson hhalf.1
    rw [upsertMeshRow, if_neg hjson]

/-! ## A row that is merged in part -/

/-- A host with two timestamps and one JSON text. -/
def envOfTwoTimes : ConfigEnv where
  lib :=
    { json := ⟨fun _ => none, fun _ => ""⟩
      parseRfc3339 := fun s =>
        if s = "2026-07-05T10:00:00Z" then some 1783245600000000000
        else if s = "2026-07-05T09:00:00Z" then some 1783242000000000000 else none
      toRfc3339 := fun ts =>
        if ts = 1783245600000000000 then "2026-07-05T10:00:00Z" else "2026-07-05T09:00:00Z" }
  isJson := fun s => s = "{}"
  localId := "host-a"
  peer := some "host-b"

/-- A row of `host-b` with its history, and another one with a smaller id. -/
def storeWithHistory : ConfigStore where
  rows :=
    { rows := [⟨"id2", "host-b", "display", "target", "[]", true, "2026-07-05T09:00:00Z", "mesh"⟩,
        ⟨"id1", "host-b", "graphics", "prefs", "[]", true, "2026-07-05T09:00:00Z", "mesh"⟩]
      nodup := by decide
      uid_nodup := by decide }
  history := [⟨1, "id2", "null", "2026-07-05T09:00:00Z", "mesh"⟩]

/-- A newer payload for the first row, under the id of the second one. -/
def foreignId : ConfigWire :=
  ⟨"host-b", "display", "target", "{}", "2026-07-05T10:00:00Z", "local", "id1"⟩

/-- The merge fails, the payload is written all the same, and the history belongs to the second
row. -/
theorem payload_written_by_failed_merge :
    (upsertMeshRow envOfTwoTimes ⟨1783245600000, "id3"⟩ storeWithHistory foreignId true).2 =
        .error configIdTaken ∧
      ¬storeWithHistory.FailsCleanly envOfTwoTimes ⟨1783245600000, "id3"⟩ foreignId true := by
  have hresult : (upsertMeshRow envOfTwoTimes ⟨1783245600000, "id3"⟩ storeWithHistory foreignId
      true).2 = .error configIdTaken := by decide
  have hhistory : (upsertMeshRow envOfTwoTimes ⟨1783245600000, "id3"⟩ storeWithHistory foreignId
      true).1.history.map ConfigHistoryEntry.rowId = ["id1"] := by decide
  refine ⟨hresult, fun hclean => ?_⟩
  rw [hclean _ hresult] at hhistory
  exact absurd hhistory (by decide)

end Orca.ConfigStore
