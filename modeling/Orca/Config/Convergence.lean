import Mathlib.Data.Finset.Basic
import Mathlib.Data.String.Basic
import Mathlib.Order.Basic
import Orca.Config.Merge
import Orca.Library.LastWriterWins

/-!
# Convergence of config rows

Hosts that were sent the same config rows hold the same `config_rows`, whatever the order of the
rows, the bundles they came in and how often each of them came.

The row of a key is a join of two registers, both of them last-writer-wins maps: the payload with
the greatest stamp, and the least id.  `Tracks` says that a table is the join of the two registers
after a list of rows.  Every merge of a valid row keeps it (`Tracks.merge`), and what the registers
hold at the end depends on the set of the rows alone.
-/

namespace Orca

/-- A bundle on its way: the system that sends it, its rows, and the readings at their turns. -/
structure ConfigDelivery where
  peer : String
  rows : Json
  /-- The readings when the turn of each row comes. -/
  turns : Nat → Turn

namespace ConfigStore

/-- The rows of a delivery, each with its turn. -/
def arrived (d : ConfigDelivery) : List (Json × Turn) := arrivals d.rows d.turns

/-- The merge of a delivery. -/
def deliver (env : ConfigEnv) (s : ConfigStore) (d : ConfigDelivery) : ConfigStore :=
  (replicateMerge { env with peer := some d.peer } d.turns s d.rows).1

/-- A canonical RFC 3339 stamp of whole seconds. -/
def IsSecondStamp (lib : Libs) (stamp : String) : Prop :=
  ∃ ts, lib.parseRfc3339 stamp = some ts ∧ lib.toRfc3339 ts = stamp ∧ ts % 1000000000 = 0

/-- A finite set of config rows that peers may send. -/
structure ConfigSet (env : ConfigEnv) (rows : Finset ConfigWire) : Prop where
  /-- The nouns are open to peers. -/
  noun_mem : ∀ w ∈ rows, w.noun ∈ peerWritableNouns
  isJson : ∀ w ∈ rows, env.isJson w.json = true
  /-- The stamps are canonical, of whole seconds. -/
  stamp : ∀ w ∈ rows, IsSecondStamp env.lib w.updatedAt
  id_ne : ∀ w ∈ rows, w.uuidv7 ≠ ""
  stamps_distinct : ∀ a ∈ rows, ∀ b ∈ rows, a.key = b.key → a.updatedAt = b.updatedAt → a = b
  /-- No id is used for two keys. -/
  ids_apart : ∀ a ∈ rows, ∀ b ∈ rows, a.uuidv7 = b.uuidv7 → a.key = b.key

/-- The stamp of a row is within the skew bound when its turn comes. -/
def WithinSkew (env : ConfigEnv) (a : Json × Turn) : Prop :=
  ∀ m ∈ canonicalRfc3339Millis env.lib (ConfigWire.ofJson a.1).updatedAt,
    m ≤ a.2.now + maxLwwSkewMillis

instance (env : ConfigEnv) (a : Json × Turn) : Decidable (WithinSkew env a) :=
  inferInstanceAs (Decidable (∀ m ∈ canonicalRfc3339Millis _ _, _))

/-- The deliveries bring the rows of a set, all of them and no others, each sent by its owner. -/
structure Delivers (env : ConfigEnv) (rows : Finset ConfigWire) (ds : List ConfigDelivery) :
    Prop where
  /-- A delivered row is in the set. -/
  mem : ∀ d ∈ ds, ∀ a ∈ arrived d, ConfigWire.ofJson a.1 ∈ rows
  /-- The owner of a row sends it. -/
  own : ∀ d ∈ ds, ∀ a ∈ arrived d, (ConfigWire.ofJson a.1).hostOwner = d.peer
  /-- Its stamp is within the skew bound. -/
  in_time : ∀ d ∈ ds, ∀ a ∈ arrived d, WithinSkew env a
  /-- Every row of the set is delivered. -/
  complete : ∀ w ∈ rows, ∃ d ∈ ds, ∃ a ∈ arrived d, ConfigWire.ofJson a.1 = w

/-- The stamp of an incoming row, in milliseconds. -/
def wireMillis (env : ConfigEnv) (w : ConfigWire) : Int :=
  (canonicalRfc3339Millis env.lib w.updatedAt).getD 0

/-- The row of a key that a set of rows should end in: the payload of the greatest stamp, under the
least id. -/
def IsMerged (env : ConfigEnv) (rows : Finset ConfigWire) (k : String × String × String)
    (r : ConfigRow) : Prop :=
  ∃ latest ∈ rows, ∃ first ∈ rows, latest.key = k ∧ first.key = k ∧
    (∀ w ∈ rows, w.key = k → wireMillis env w ≤ wireMillis env latest) ∧
    (∀ w ∈ rows, w.key = k → first.uuidv7 ≤ w.uuidv7) ∧
    r = latest.row first.uuidv7 (env.isReplica latest)

/-- The table has one row for each key of the set, the one the set should end in. -/
def Converged (env : ConfigEnv) (rows : Finset ConfigWire) (s : ConfigStore) : Prop :=
  ∀ k r, s.rows.find k = some r ↔ IsMerged env rows k r

/-! ## Rows of the set -/

section Rows

variable {env : ConfigEnv} {rows : Finset ConfigWire} {turn : Turn}

lemma ConfigSet.canonical (h : ConfigSet env rows) {w : ConfigWire} (hw : w ∈ rows) :
    canonicalRfc3339Millis env.lib w.updatedAt = some (wireMillis env w) := by
  obtain ⟨ts, hparse, hprint, -⟩ := h.stamp w hw
  have hmillis : canonicalRfc3339Millis env.lib w.updatedAt = some ts.unixMillis := by
    rw [canonicalRfc3339Millis, hparse, Option.bind_some, if_pos hprint]
  rw [wireMillis, hmillis]
  rfl

/-- Rows of one key are told apart by their milliseconds. -/
lemma ConfigSet.millis_injective (h : ConfigSet env rows) {a b : ConfigWire} (ha : a ∈ rows)
    (hb : b ∈ rows) (hkey : a.key = b.key) (hmillis : wireMillis env a = wireMillis env b) :
    a = b := by
  obtain ⟨ts, hparse, hprint, hsec⟩ := h.stamp a ha
  obtain ⟨ts', hparse', hprint', hsec'⟩ := h.stamp b hb
  have hts : wireMillis env a = ts.unixMillis := by
    rw [wireMillis, canonicalRfc3339Millis, hparse, Option.bind_some, if_pos hprint]
    rfl
  have hts' : wireMillis env b = ts'.unixMillis := by
    rw [wireMillis, canonicalRfc3339Millis, hparse', Option.bind_some, if_pos hprint']
    rfl
  rw [hts, hts', Timestamp.unixMillis, Timestamp.unixMillis] at hmillis
  have hwhole : ∀ i j : Int, i % 1000000000 = 0 → j % 1000000000 = 0 →
      i / 1000000 = j / 1000000 → i = j := by
    intro i j hi hj hij
    omega
  have heq : ts = ts' := hwhole ts ts' hsec hsec' hmillis
  refine h.stamps_distinct a ha b hb hkey ?_
  rw [← hprint, ← hprint', heq]

end Rows

/-! ## The two registers -/

/-- The register of the payload: the rows with the greatest stamps. -/
def latestOf (env : ConfigEnv) (seen : List ConfigWire) :
    String × String × String → Option ConfigWire :=
  seen.foldl (LastWriterWins.put ConfigWire.key (wireMillis env)) fun _ => none

/-- The register of the id: the rows with the least ids. -/
def firstOf (seen : List ConfigWire) : String × String × String → Option ConfigWire :=
  seen.foldl (LastWriterWins.put ConfigWire.key fun w => OrderDual.toDual w.uuidv7) fun _ => none

/-- The row the two registers stand for. -/
def joined (env : ConfigEnv) (latest first : Option ConfigWire) : Option ConfigRow :=
  match latest, first with
  | some latest, some first => some (latest.row first.uuidv7 (env.isReplica latest))
  | _, _ => none

/-- The table is the join of the two registers after the rows seen so far. -/
def Tracks (env : ConfigEnv) (seen : List ConfigWire) (s : ConfigStore) : Prop :=
  ∀ k, s.rows.find k = joined env (latestOf env seen k) (firstOf seen k)

section Registers

variable {env : ConfigEnv} {rows : Finset ConfigWire} {seen : List ConfigWire} {s : ConfigStore}
  {turn : Turn} {w : ConfigWire}

lemma latestOf_spec {k : String × String × String} {a : ConfigWire}
    (h : latestOf env seen k = some a) :
    a ∈ seen ∧ a.key = k ∧ ∀ w ∈ seen, w.key = k → wireMillis env w ≤ wireMillis env a :=
  (LastWriterWins.represents_foldl_put ConfigWire.key (wireMillis env) seen).latest h

lemma firstOf_spec {k : String × String × String} {b : ConfigWire} (h : firstOf seen k = some b) :
    b ∈ seen ∧ b.key = k ∧ ∀ w ∈ seen, w.key = k → b.uuidv7 ≤ w.uuidv7 :=
  (LastWriterWins.represents_foldl_put ConfigWire.key
    (fun w => OrderDual.toDual w.uuidv7) seen).latest h

/-- The registers of a key are filled together. -/
lemma latestOf_eq_none_iff {k : String × String × String} :
    latestOf env seen k = none ↔ firstOf seen k = none := by
  have hlatest := LastWriterWins.represents_foldl_put ConfigWire.key (wireMillis env) seen
  have hfirst := LastWriterWins.represents_foldl_put ConfigWire.key
    (fun w => OrderDual.toDual w.uuidv7) seen
  constructor
  · intro h
    cases hf : firstOf seen k with
    | none => rfl
    | some b =>
      obtain ⟨hb, hkey, -⟩ := firstOf_spec hf
      exact absurd hkey (hlatest.occupied h b hb)
  · intro h
    cases hl : latestOf env seen k with
    | none => rfl
    | some a =>
      obtain ⟨ha, hkey, -⟩ := latestOf_spec hl
      exact absurd hkey (hfirst.occupied h a ha)

lemma joined_eq_some_iff {latest first : Option ConfigWire} {r : ConfigRow} :
    joined env latest first = some r ↔ ∃ a b, latest = some a ∧ first = some b ∧
      r = a.row b.uuidv7 (env.isReplica a) := by
  cases latest with
  | none => simp [joined]
  | some a =>
    cases first with
    | none => simp [joined]
    | some b => simp [joined, eq_comm]

lemma Tracks.find_some (h : Tracks env seen s) {k : String × String × String} {r : ConfigRow}
    (hr : s.rows.find k = some r) :
    ∃ a b, latestOf env seen k = some a ∧ firstOf seen k = some b ∧
      r = a.row b.uuidv7 (env.isReplica a) := by
  rw [h k] at hr
  exact joined_eq_some_iff.mp hr

/-- A key without a row has empty registers. -/
lemma Tracks.find_none (h : Tracks env seen s) {k : String × String × String}
    (hr : s.rows.find k = none) : latestOf env seen k = none ∧ firstOf seen k = none := by
  rw [h k] at hr
  cases hl : latestOf env seen k with
  | none => exact ⟨rfl, latestOf_eq_none_iff.mp hl⟩
  | some a =>
    cases hf : firstOf seen k with
    | none =>
      rw [latestOf_eq_none_iff.mpr hf] at hl
      cases hl
    | some b =>
      rw [hl, hf] at hr
      cases hr

lemma Tracks.id_seen (h : Tracks env seen s) {r : ConfigRow} (hr : r ∈ s.rows.rows) :
    ∃ b ∈ seen, b.key = r.key ∧ b.uuidv7 = r.id := by
  obtain ⟨a, b, -, hb, hrow⟩ := h.find_some (KeyedTable.mem_rows_iff.mp hr)
  obtain ⟨hmem, hkey, -⟩ := firstOf_spec hb
  exact ⟨b, hmem, hkey, by rw [hrow]; rfl⟩

/-- A row of the set that its owner sends in time is valid when its turn comes. -/
lemma Tracks.valid (h : Tracks env seen s) (hset : ConfigSet env rows)
    (hseen : ∀ b ∈ seen, b ∈ rows)
    (hw : w ∈ rows) (hnamed : w.hostOwner ≠ "" ∧ w.name ≠ "") (hpeer : env.peer = some w.hostOwner)
    (hskew : wireMillis env w ≤ turn.now + maxLwwSkewMillis) : s.Valid env turn w := by
  have hnoun := hset.noun_mem w hw
  refine ⟨⟨?_, hnoun, hpeer⟩, hset.isJson w hw, ?_, ?_⟩
  · rintro (hempty | hempty | hempty)
    · exact hnamed.1 hempty
    · rw [hempty] at hnoun
      exact absurd hnoun (by decide)
    · exact hnamed.2 hempty
  · rw [ConfigEnv.StampOk, checkIncomingLww, hset.canonical hw, checkLwwMillis,
      if_neg (not_lt.mpr hskew)]
    rfl
  · rintro ⟨r, hr, hne, hid⟩
    obtain ⟨b, hb, hbkey, hbid⟩ := h.id_seen hr
    -- the id after the merge was seen with the key of the row, or comes with it
    have hown : ∃ x ∈ rows, x.key = w.key ∧ x.uuidv7 = s.idAfter turn w := by
      unfold idAfter
      cases hcur : s.rows.find w.key with
      | none => exact ⟨w, hw, rfl, by rw [if_neg (hset.id_ne w hw)]⟩
      | some cur =>
        dsimp only
        split
        · exact ⟨w, hw, rfl, rfl⟩
        · obtain ⟨hmem, hkey⟩ := KeyedTable.find_eq_some_iff.mp hcur
          obtain ⟨c, hc, hckey, hcid⟩ := h.id_seen hmem
          exact ⟨c, hseen c hc, hckey.trans hkey, hcid⟩
    obtain ⟨x, hx, hxkey, hxid⟩ := hown
    have hkeys := hset.ids_apart b (hseen b hb) x hx (hbid.trans (hid.trans hxid.symm))
    exact hne (hbkey.symm.trans (hkeys.trans hxkey))

/-- The row a valid row of the set leaves is the join of the two registers after it. -/
lemma Tracks.rowAfter_eq (h : Tracks env seen s) (hset : ConfigSet env rows)
    (hseen : ∀ b ∈ seen, b ∈ rows) (hw : w ∈ rows) :
    joined env (latestOf env (seen ++ [w]) w.key) (firstOf (seen ++ [w]) w.key) =
      some (s.rowAfter env turn w) := by
  unfold latestOf firstOf
  rw [List.foldl_append, List.foldl_append, List.foldl_cons, List.foldl_cons, List.foldl_nil,
    List.foldl_nil, LastWriterWins.put, LastWriterWins.put, Function.update_self,
    Function.update_self, ← latestOf, ← firstOf]
  unfold rowAfter idAfter
  cases hcur : s.rows.find w.key with
  | none =>
    obtain ⟨hl, hf⟩ := h.find_none hcur
    rw [hl, hf, if_neg (hset.id_ne w hw)]
    rfl
  | some cur =>
    obtain ⟨a, b, ha, hb, rfl⟩ := h.find_some hcur
    obtain ⟨haseen, hakey, -⟩ := latestOf_spec ha
    have hstamp : stampMillis env (a.row b.uuidv7 (env.isReplica a)) = some (wireMillis env a) :=
      stampMillis_of_canonical (hset.canonical (hseen a haseen))
    have hnewer : env.newer w (a.row b.uuidv7 (env.isReplica a)) = true ↔
        wireMillis env a < wireMillis env w := by
      rw [newer_iff]
      simp [hset.canonical hw, hstamp]
    have hlow : w.lowersId (a.row b.uuidv7 (env.isReplica a)) ↔ w.uuidv7 < b.uuidv7 :=
      ⟨And.right, fun hlt => ⟨hset.id_ne w hw, hlt⟩⟩
    rw [ha, hb]
    dsimp only
    unfold LastWriterWins.join payloadAfter
    dsimp only
    have hdual : OrderDual.toDual b.uuidv7 < OrderDual.toDual w.uuidv7 ↔ w.uuidv7 < b.uuidv7 :=
      OrderDual.toDual_lt_toDual
    by_cases hup : wireMillis env a < wireMillis env w
    · rw [if_pos hup, if_pos (hnewer.mpr hup)]
      by_cases hdown : w.uuidv7 < b.uuidv7
      · rw [if_pos (hdual.mpr hdown), if_pos (hlow.mpr hdown)]
        rfl
      · rw [if_neg (mt hdual.mp hdown), if_neg (mt hlow.mp hdown)]
        rfl
    · rw [if_neg hup, if_neg (mt hnewer.mp hup)]
      by_cases hdown : w.uuidv7 < b.uuidv7
      · rw [if_pos (hdual.mpr hdown), if_pos (hlow.mpr hdown)]
        rfl
      · rw [if_neg (mt hdual.mp hdown), if_neg (mt hlow.mp hdown)]
        rfl

lemma joined_append_of_ne {k : String × String × String} (hk : k ≠ w.key) :
    joined env (latestOf env (seen ++ [w]) k) (firstOf (seen ++ [w]) k) =
      joined env (latestOf env seen k) (firstOf seen k) := by
  unfold latestOf firstOf
  rw [List.foldl_append, List.foldl_append, List.foldl_cons, List.foldl_cons, List.foldl_nil,
    List.foldl_nil, LastWriterWins.put, LastWriterWins.put, Function.update_of_ne hk,
    Function.update_of_ne hk]

/-- The merge of a row of the set, sent by its owner in time. -/
lemma Tracks.merge (h : Tracks env seen s) (hset : ConfigSet env rows)
    (hseen : ∀ b ∈ seen, b ∈ rows) {row : Json} (hw : ConfigWire.ofJson row ∈ rows)
    (hnamed : (ConfigWire.ofJson row).hostOwner ≠ "" ∧ (ConfigWire.ofJson row).name ≠ "")
    (hpeer : env.peer = some (ConfigWire.ofJson row).hostOwner)
    (hskew : WithinSkew env (row, turn)) :
    ∃ s' wrote, mergeRow env turn s row = (s', .ok wrote) ∧
      Tracks env (seen ++ [.ofJson row]) s' := by
  have hmillis := hskew _ (hset.canonical hw)
  have hvalid : s.Valid env turn (.ofJson row) := h.valid hset hseen hw hnamed hpeer hmillis
  obtain ⟨s', wrote, hrow, hfind, -⟩ := mergeRow_of_valid hvalid
  refine ⟨s', wrote, hrow, ?_⟩
  intro k
  rw [hfind]
  by_cases hk : k = (ConfigWire.ofJson row).key
  · rw [hk, Function.update_self, h.rowAfter_eq hset hseen hw]
  · rw [Function.update_of_ne hk, joined_append_of_ne hk]
    exact h k

/-- The merge of a bundle of the set. -/
lemma Tracks.mergeLoop (hset : ConfigSet env rows)
    (hnamed : ∀ w ∈ rows, w.hostOwner ≠ "" ∧ w.name ≠ "") (bundle : List (Json × Turn))
    (hmem : ∀ a ∈ bundle, ConfigWire.ofJson a.1 ∈ rows)
    (hpeer : ∀ a ∈ bundle, env.peer = some (ConfigWire.ofJson a.1).hostOwner)
    (hskew : ∀ a ∈ bundle, WithinSkew env a) (h : Tracks env seen s)
    (hseen : ∀ b ∈ seen, b ∈ rows) (merged : Nat) :
    Tracks env (seen ++ bundle.map fun a => .ofJson a.1)
      (ConfigStore.mergeLoop env bundle s merged).1 := by
  induction bundle generalizing s seen merged with
  | nil => simpa [ConfigStore.mergeLoop] using h
  | cons a rest ih =>
    obtain ⟨row, turn⟩ := a
    rw [List.forall_mem_cons] at hmem hpeer hskew
    obtain ⟨s', wrote, hrow, hnext⟩ :=
      h.merge hset hseen hmem.1 (hnamed _ hmem.1) hpeer.1 hskew.1
    have hseen' : ∀ b ∈ seen ++ [ConfigWire.ofJson row], b ∈ rows := by
      intro b hb
      rcases List.mem_append.mp hb with hb | hb
      · exact hseen b hb
      · exact List.mem_singleton.mp hb ▸ hmem.1
    rw [ConfigStore.mergeLoop, hrow]
    have hrest := ih hmem.2 hpeer.2 hskew.2 hnext hseen' (if wrote then merged + 1 else merged)
    rw [List.append_assoc] at hrest
    exact hrest

end Registers

/-! ## All deliveries -/

section Deliveries

variable {env : ConfigEnv} {rows : Finset ConfigWire} {ds : List ConfigDelivery}

/-- The rows that deliveries bring. -/
def delivered (ds : List ConfigDelivery) : List ConfigWire :=
  ds.flatMap fun d => (arrived d).map fun a => .ofJson a.1

/-- Deliveries of rows of a set leave the join of the registers after them. -/
lemma tracks_deliver (hset : ConfigSet env rows)
    (hnamed : ∀ w ∈ rows, w.hostOwner ≠ "" ∧ w.name ≠ "")
    (hmem : ∀ d ∈ ds, ∀ a ∈ arrived d, ConfigWire.ofJson a.1 ∈ rows)
    (hown : ∀ d ∈ ds, ∀ a ∈ arrived d, (ConfigWire.ofJson a.1).hostOwner = d.peer)
    (hskew : ∀ d ∈ ds, ∀ a ∈ arrived d, WithinSkew env a) {seen : List ConfigWire}
    {s : ConfigStore} (h : Tracks env seen s) (hseen : ∀ b ∈ seen, b ∈ rows) :
    Tracks env (seen ++ delivered ds) (ds.foldl (deliver env) s) := by
  induction ds generalizing s seen with
  | nil => simpa [delivered] using h
  | cons d ds ih =>
    rw [List.forall_mem_cons] at hmem hown hskew
    -- neither the rows nor what is replicated depend on the sending peer
    have hset' : ConfigSet { env with peer := some d.peer } rows :=
      ⟨hset.noun_mem, hset.isJson, hset.stamp, hset.id_ne, hset.stamps_distinct, hset.ids_apart⟩
    have hfirst := Tracks.mergeLoop hset' hnamed
      (arrived d) hmem.1 (fun a ha => congrArg some (hown.1 a ha).symm) hskew.1 h hseen 0
    have hseen' : ∀ b ∈ seen ++ (arrived d).map fun a => .ofJson a.1, b ∈ rows := by
      intro b hb
      rcases List.mem_append.mp hb with hb | hb
      · exact hseen b hb
      · obtain ⟨a, ha, rfl⟩ := List.mem_map.mp hb
        exact hmem.1 a ha
    have hrest := ih hmem.2 hown.2 hskew.2 (s := deliver env s d) hfirst hseen'
    rw [List.append_assoc] at hrest
    exact hrest

/-- The rows of a set that were delivered are the set. -/
lemma Delivers.mem_delivered (h : Delivers env rows ds) {w : ConfigWire} :
    w ∈ delivered ds ↔ w ∈ rows := by
  unfold delivered
  rw [List.mem_flatMap]
  constructor
  · rintro ⟨d, hd, hw⟩
    obtain ⟨a, ha, rfl⟩ := List.mem_map.mp hw
    exact h.mem d hd a ha
  · intro hw
    obtain ⟨d, hd, a, ha, rfl⟩ := h.complete w hw
    exact ⟨d, hd, List.mem_map_of_mem ha⟩

/-- The join of the registers after all rows of a set is what the set should end in. -/
lemma Tracks.converged {s : ConfigStore} {seen : List ConfigWire} (h : Tracks env seen s)
    (hset : ConfigSet env rows) (hseen : ∀ w, w ∈ seen ↔ w ∈ rows) : Converged env rows s := by
  intro k r
  constructor
  · intro hr
    obtain ⟨a, b, ha, hb, hrow⟩ := h.find_some hr
    obtain ⟨hamem, hakey, hamax⟩ := latestOf_spec ha
    obtain ⟨hbmem, hbkey, hbmin⟩ := firstOf_spec hb
    exact ⟨a, (hseen a).mp hamem, b, (hseen b).mp hbmem, hakey, hbkey,
      fun w hw => hamax w ((hseen w).mpr hw), fun w hw => hbmin w ((hseen w).mpr hw), hrow⟩
  · rintro ⟨a, ha, b, hb, hakey, hbkey, hamax, hbmin, rfl⟩
    cases hcur : s.rows.find k with
    | none =>
      obtain ⟨hlatest, -⟩ := h.find_none hcur
      have hreg := LastWriterWins.represents_foldl_put ConfigWire.key (wireMillis env) seen
      exact absurd hakey (hreg.occupied hlatest a ((hseen a).mpr ha))
    | some r =>
      obtain ⟨a', b', ha', hb', hrow⟩ := h.find_some hcur
      obtain ⟨hamem, hakey', hamax'⟩ := latestOf_spec ha'
      obtain ⟨hbmem, hbkey', hbmin'⟩ := firstOf_spec hb'
      have hmillis : wireMillis env a = wireMillis env a' := by
        refine le_antisymm (hamax' a ((hseen a).mpr ha) hakey) ?_
        exact hamax a' ((hseen a').mp hamem) hakey'
      have hsame : a = a' := hset.millis_injective ha ((hseen a').mp hamem)
        (hakey.trans hakey'.symm) hmillis
      have hid : b.uuidv7 = b'.uuidv7 := by
        refine le_antisymm (hbmin b' ((hseen b').mp hbmem) hbkey') ?_
        exact hbmin' b ((hseen b).mpr hb) hbkey
      rw [hrow, hsame, hid]

/-- **Config rows converge.**  Deliveries of a set of config rows, in whatever order and bundles and
however often, leave the row of the greatest stamp under the least id for every key, and nothing
else, provided that the rows have owners and names; and so any two of them leave the same table. -/
theorem config_rows_converge (hset : ConfigSet env rows)
    (hnamed : ∀ w ∈ rows, w.hostOwner ≠ "" ∧ w.name ≠ "") (h : Delivers env rows ds) :
    Converged env rows (ds.foldl (deliver env) .empty) ∧
      ∀ ds', Delivers env rows ds' → ∀ k,
        (ds'.foldl (deliver env) .empty).rows.find k =
          (ds.foldl (deliver env) .empty).rows.find k := by
  have hconv : ∀ ds', Delivers env rows ds' →
      Converged env rows (ds'.foldl (deliver env) .empty) := by
    intro ds' h'
    have hempty : Tracks env [] .empty := fun _ => rfl
    have htracks := tracks_deliver hset hnamed h'.mem h'.own h'.in_time hempty
      fun b hb => absurd hb List.not_mem_nil
    rw [List.nil_append] at htracks
    exact htracks.converged hset fun w => h'.mem_delivered
  refine ⟨hconv ds h, fun ds' h' k => ?_⟩
  ext r
  exact (hconv ds' h' k r).trans (hconv ds h k r).symm

end Deliveries

/-! ### Two rows of one key, and a row without a name -/

/-- A host that reads two timestamps and one JSON text. -/
def twoStampEnv : ConfigEnv where
  lib :=
    { json := ⟨fun _ => none, fun _ => ""⟩
      parseRfc3339 := fun s =>
        if s = "2026-07-05T10:00:00Z" then some 1783245600000000000
        else if s = "2026-07-05T10:00:01Z" then some 1783245601000000000 else none
      toRfc3339 := fun ts =>
        if ts = 1783245600000000000 then "2026-07-05T10:00:00Z" else "2026-07-05T10:00:01Z" }
  isJson := fun s => s = "{}"
  localId := "host-a"
  peer := none

/-- The target of `host-b`, as it was first. -/
def targetBefore : ConfigWire :=
  ⟨"host-b", "display", "target", "{}", "2026-07-05T10:00:00Z", "local", "id1"⟩

/-- The target of `host-b`, written again a second later under another id. -/
def targetAfter : ConfigWire :=
  ⟨"host-b", "display", "target", "{}", "2026-07-05T10:00:01Z", "local", "id2"⟩

/-- A row without a name. -/
def unnamedTarget : ConfigWire :=
  ⟨"host-b", "display", "", "{}", "2026-07-05T10:00:00Z", "local", "id1"⟩

/-- A bundle of `host-b`. -/
def bundleOfHostB (rows : List ConfigWire) : ConfigDelivery :=
  ⟨"host-b", .array (rows.map ConfigWire.toJson), fun _ => ⟨1783245601000, "id3"⟩⟩

lemma isSecondStamp_twoStampEnv {stamp : String}
    (h : stamp = "2026-07-05T10:00:00Z" ∨ stamp = "2026-07-05T10:00:01Z") :
    IsSecondStamp twoStampEnv.lib stamp := by
  rcases h with rfl | rfl
  · exact ⟨1783245600000000000, by decide, by decide, by decide⟩
  · exact ⟨1783245601000000000, by decide, by decide, by decide⟩

/-- The two rows arrive in either order, one of them twice. -/
theorem config_rows_converge_sample :
    Converged twoStampEnv {targetBefore, targetAfter}
        ([bundleOfHostB [targetAfter], bundleOfHostB [targetBefore, targetAfter]].foldl
          (deliver twoStampEnv) .empty) ∧
      ∀ ds', Delivers twoStampEnv {targetBefore, targetAfter} ds' → ∀ k,
        (ds'.foldl (deliver twoStampEnv) .empty).rows.find k =
          ([bundleOfHostB [targetAfter], bundleOfHostB [targetBefore, targetAfter]].foldl
            (deliver twoStampEnv) .empty).rows.find k := by
  have hstamp : ∀ w ∈ ({targetBefore, targetAfter} : Finset ConfigWire),
      w.updatedAt = "2026-07-05T10:00:00Z" ∨ w.updatedAt = "2026-07-05T10:00:01Z" := by decide
  exact config_rows_converge
    { noun_mem := by decide
      isJson := by decide
      stamp := fun w hw => isSecondStamp_twoStampEnv (hstamp w hw)
      id_ne := by decide
      stamps_distinct := by decide
      ids_apart := by decide }
    (by decide)
    { mem := by decide
      own := by decide
      in_time := by decide
      complete := by decide }

/-- A row without a name is a row of a set that converges, and it is never merged. -/
theorem unnamed_row_is_skipped :
    ConfigSet twoStampEnv {unnamedTarget} ∧
      Delivers twoStampEnv {unnamedTarget} [bundleOfHostB [unnamedTarget]] ∧
      ¬Converged twoStampEnv {unnamedTarget}
        ([bundleOfHostB [unnamedTarget]].foldl (deliver twoStampEnv) .empty) := by
  have hstamp : ∀ w ∈ ({unnamedTarget} : Finset ConfigWire),
      w.updatedAt = "2026-07-05T10:00:00Z" ∨ w.updatedAt = "2026-07-05T10:00:01Z" := by decide
  refine ⟨⟨by decide, by decide, fun w hw => isSecondStamp_twoStampEnv (hstamp w hw), by decide,
    by decide, by decide⟩, ⟨by decide, by decide, by decide, by decide⟩, fun hconv => ?_⟩
  have hmerged : IsMerged twoStampEnv {unnamedTarget} unnamedTarget.key
      (unnamedTarget.row "id1" true) :=
    ⟨unnamedTarget, by decide, unnamedTarget, by decide, rfl, rfl, by decide, by decide, by decide⟩
  have hfind := (hconv unnamedTarget.key (unnamedTarget.row "id1" true)).mpr hmerged
  have hnone : ([bundleOfHostB [unnamedTarget]].foldl (deliver twoStampEnv) .empty).rows.find
      unnamedTarget.key = none := by decide
  rw [hnone] at hfind
  cases hfind

end ConfigStore

end Orca
