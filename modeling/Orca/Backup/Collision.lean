import Mathlib.Data.List.Infix
import Mathlib.Data.String.Basic
import Mathlib.Order.Basic
import Orca.Data.Text

/-!
# Backup collisions

The model of `system/src/backup/collision.rs`, set against `collection_dir` of `store.rs`: which two
backups are reported as written to one folder, and which of them are.

A backup is placed by the segments of its layout.  The store makes one directory name of each
segment (`sanitizeSegment`), while the detector reads components off the joined segments
(`components`).  The two agree on plain layouts (`overlap_of_plain`).  The result says for which
lists of backups every pair that shares a folder is reported (`detectCollisions_complete_iff`); that
the reported keys do not depend on the order of the list holds for all of them.

The separator of paths is the one of Unix.
-/

namespace Orca.Backup

/-! ## The detector -/

/-- `Destination`. -/
structure Destination where
  kind : String
  instanceName : String
  backingKey : String
  /-- The path beneath the root of the storage. -/
  subpath : String
  /-- The target this was resolved from. -/
  target : String
  /-- Whether several hosts write the target on purpose. -/
  shared : Bool
deriving DecidableEq

/-- `OwnedDestination`. -/
structure OwnedDestination where
  owner : String
  dest : Destination
deriving DecidableEq

namespace OwnedDestination

/-- `OwnedDestination::identity`. -/
def identity (o : OwnedDestination) : String × String × String :=
  (o.owner, o.dest.kind, o.dest.instanceName)

/-- `OwnedDestination::party`. -/
def party (o : OwnedDestination) : String :=
  o.owner ++ ":" ++ o.dest.kind ++ "/" ++ o.dest.instanceName ++ " (" ++ o.dest.target ++ ")"

end OwnedDestination

/-- `Collision`. -/
structure Collision where
  backingKey : String
  partyA : String
  partyB : String
  pathA : String
  pathB : String
  /-- Whether one path is under the other. -/
  nested : Bool
deriving DecidableEq

/-- `ends.sort()`, joined by the separator of the key. -/
def sortedEnds (x y : String) : String := if x ≤ y then x ++ "::" ++ y else y ++ "::" ++ x

/-- `Collision::key`. -/
def Collision.key (c : Collision) : String :=
  "backup-collision:" ++ c.backingKey ++ ":" ++
    sortedEnds (c.partyA ++ "|" ++ c.pathA) (c.partyB ++ "|" ++ c.pathB)

/-- `components`. -/
def components (subpath : String) : List String :=
  ((subpath.toList.splitOn '/').map fun part => trim (String.ofList part)).filter
    fun part => part ≠ "" && part ≠ "."

/-- `overlap`. -/
def overlap (a b : String) : Option Bool :=
  let ca := components a
  let cb := components b
  let shorter := min ca.length cb.length
  if ca.take shorter ≠ cb.take shorter then none else some (ca.length ≠ cb.length)

/-- What the loop of `detect_collisions` does with a pair. -/
def pairCollision (a b : OwnedDestination) : Option Collision :=
  if a.dest.backingKey ≠ b.dest.backingKey then none
  else if a.identity = b.identity ∧ a.dest.subpath = b.dest.subpath then none
  else if a.dest.shared ∧ b.dest.shared ∧ a.dest.kind = b.dest.kind then none
  else
    (overlap a.dest.subpath b.dest.subpath).map fun nested =>
      ⟨a.dest.backingKey, a.party, b.party, a.dest.subpath, b.dest.subpath, nested⟩

/-- `detect_collisions`. -/
def detectCollisions : List OwnedDestination → List Collision
  | [] => []
  | a :: rest => rest.filterMap (pairCollision a) ++ detectCollisions rest

/-! ## The store -/

/-- `sanitize_segment`. -/
def sanitizeSegment (seg : String) : String :=
  let cleaned := String.ofList ((trim seg).toList.map fun c => if c = '/' then '_' else c)
  if cleaned = "" ∨ cleaned = "." ∨ cleaned = ".." then "_" else cleaned

/-- `collection_dir`: the names of the directories beneath the root. -/
def collectionDir (collection : List String) : List String := collection.map sanitizeSegment

/-- A backup as `resolve_local_destinations` finds it: a workload on a target, with the layout its
provider gives. -/
structure Placement where
  owner : String
  kind : String
  instanceName : String
  /-- The identity of the storage of the target. -/
  backingKey : String
  layout : List String
  target : String
  /-- Whether several hosts write the target on purpose. -/
  shared : Bool
deriving DecidableEq

namespace Placement

/-- `join("/")` of the segments. -/
def subpath (p : Placement) : String :=
  String.ofList (['/'].intercalate (p.layout.map String.toList))

/-- The destination that is resolved. -/
def owned (p : Placement) : OwnedDestination :=
  ⟨p.owner, p.kind, p.instanceName, p.backingKey, p.subpath, p.target, p.shared⟩

/-- The store directories are equal, or one contains the other. -/
def SharesDir (a b : Placement) : Prop :=
  collectionDir a.layout <+: collectionDir b.layout ∨
    collectionDir b.layout <+: collectionDir a.layout

instance (a b : Placement) : Decidable (a.SharesDir b) :=
  inferInstanceAs (Decidable (_ ∨ _))

/-- Both are on shared targets, and of one kind. -/
def Pooled (a b : Placement) : Prop := a.shared = true ∧ b.shared = true ∧ a.kind = b.kind

instance (a b : Placement) : Decidable (a.Pooled b) := inferInstanceAs (Decidable (_ ∧ _ ∧ _))

/-- The workload is the same. -/
def SameWorkload (a b : Placement) : Prop :=
  a.owner = b.owner ∧ a.kind = b.kind ∧ a.instanceName = b.instanceName

instance (a b : Placement) : Decidable (a.SameWorkload b) :=
  inferInstanceAs (Decidable (_ ∧ _ ∧ _))

/-- One report, echoed: the workload and the target are the same. -/
def Echo (a b : Placement) : Prop := a.SameWorkload b ∧ a.target = b.target

instance (a b : Placement) : Decidable (a.Echo b) := inferInstanceAs (Decidable (_ ∧ _))

/-- Two backups that have to be reported: they share a folder on one storage, not in a pool, and are
not one report echoed. -/
def Conflicts (a b : Placement) : Prop :=
  a.backingKey = b.backingKey ∧ a.SharesDir b ∧ ¬a.Pooled b ∧ ¬a.Echo b

instance (a b : Placement) : Decidable (a.Conflicts b) :=
  inferInstanceAs (Decidable (_ ∧ _ ∧ _ ∧ _))

/-- A layout of directory names: no segment is blank, a dot or two dots, or has a separator. -/
def Plain (p : Placement) : Prop :=
  ∀ seg ∈ p.layout, '/' ∉ seg.toList ∧ trim seg ≠ "" ∧ trim seg ≠ "." ∧ trim seg ≠ ".."

instance (p : Placement) : Decidable p.Plain :=
  inferInstanceAs (Decidable (∀ seg ∈ p.layout, _))

/-- The detector sees that two backups share a folder: they are not one workload with one path on
two targets, and their layouts are plain or their components overlap nevertheless. -/
def Seen (a b : Placement) : Prop :=
  ¬(a.SameWorkload b ∧ a.subpath = b.subpath) ∧
    ((a.Plain ∧ b.Plain) ∨ (overlap a.subpath b.subpath).isSome = true)

instance (a b : Placement) : Decidable (a.Seen b) := inferInstanceAs (Decidable (_ ∧ (_ ∨ _)))

end Placement

/-- The keys of the reported collisions. -/
def reportedKeys (ps : List Placement) : List String :=
  (detectCollisions (ps.map Placement.owned)).map Collision.key

/-- Every pair that has to be reported is, and the keys do not depend on the order. -/
structure Complete (ps : List Placement) : Prop where
  /-- Two entries of the list that conflict are reported. -/
  reported : ps.Pairwise fun a b => a.Conflicts b →
    ∃ c ∈ detectCollisions (ps.map Placement.owned), pairCollision a.owned b.owned = some c
  /-- The keys are those of the list in any other order. -/
  ordered : ∀ ps', ps'.Perm ps → ∀ key, key ∈ reportedKeys ps' ↔ key ∈ reportedKeys ps

/-! ## Components of plain layouts -/

/-- A segment without separators is one part. -/
lemma sanitizeSegment_of_plain {seg : String} (hsep : '/' ∉ seg.toList) (hne : trim seg ≠ "")
    (hdot : trim seg ≠ ".") (hdots : trim seg ≠ "..") : sanitizeSegment seg = trim seg := by
  have hmem : '/' ∉ (trim seg).toList := by
    unfold trim
    rw [String.toList_ofList, List.mem_reverse]
    intro h
    have hfirst := (List.dropWhile_sublist _).mem h
    rw [List.mem_reverse] at hfirst
    exact hsep ((List.dropWhile_sublist _).mem hfirst)
  have hmap : (trim seg).toList.map (fun c => if c = '/' then '_' else c) = (trim seg).toList := by
    conv_rhs => rw [← List.map_id (trim seg).toList]
    refine List.map_congr_left fun c hc => ?_
    refine if_neg fun h => ?_
    rw [h] at hc
    exact hmem hc
  unfold sanitizeSegment
  rw [hmap, String.ofList_toList]
  exact if_neg fun h => by
    rcases h with h | h | h
    · exact hne h
    · exact hdot h
    · exact hdots h

/-- The components of a plain layout are its directory names. -/
lemma components_of_plain {p : Placement} (h : p.Plain) :
    components p.subpath = collectionDir p.layout := by
  unfold components Placement.subpath collectionDir
  rw [String.toList_ofList]
  cases hlayout : p.layout with
  | nil => decide
  | cons first rest =>
    rw [← hlayout, List.splitOn_intercalate '/' ?_ (by simp [hlayout]), List.map_map,
      List.filter_eq_self.mpr ?_]
    · refine List.map_congr_left fun seg hseg => ?_
      obtain ⟨hsep, hne, hdot, hdots⟩ := h seg hseg
      rw [Function.comp_apply, String.ofList_toList, sanitizeSegment_of_plain hsep hne hdot hdots]
    · intro part hpart
      obtain ⟨seg, hseg, rfl⟩ := List.mem_map.mp hpart
      obtain ⟨-, hne, hdot, -⟩ := h seg hseg
      simp [String.ofList_toList, hne, hdot]
    · intro l hl
      obtain ⟨seg, hseg, rfl⟩ := List.mem_map.mp hl
      exact (h seg hseg).1

/-- Paths overlap when the components of one start the other's. -/
lemma overlap_isSome_iff {a b : String} : (overlap a b).isSome = true ↔
    components a <+: components b ∨ components b <+: components a := by
  unfold overlap
  dsimp only
  generalize components a = ca
  generalize components b = cb
  have htake : ca.take (min ca.length cb.length) = cb.take (min ca.length cb.length) ↔
      ca <+: cb ∨ cb <+: ca := by
    rcases Nat.le_total ca.length cb.length with hle | hle
    · rw [Nat.min_eq_left hle, List.take_length]
      constructor
      · intro h
        exact Or.inl (h ▸ List.take_prefix _ cb)
      · rintro (h | h)
        · exact List.prefix_iff_eq_take.mp h
        · rw [h.eq_of_length_le hle, List.take_length]
    · rw [Nat.min_eq_right hle, List.take_length]
      constructor
      · intro h
        exact Or.inr (h ▸ List.take_prefix _ ca)
      · rintro (h | h)
        · rw [h.eq_of_length_le hle, List.take_length]
        · exact (List.prefix_iff_eq_take.mp h).symm
  rw [← htake]
  split
  · rename_i hne
    exact iff_of_false Bool.false_ne_true hne
  · rename_i heq
    exact iff_of_true rfl (not_not.mp heq)

lemma overlap_of_plain {a b : Placement} (ha : a.Plain) (hb : b.Plain) (h : a.SharesDir b) :
    (overlap a.subpath b.subpath).isSome = true := by
  rw [overlap_isSome_iff, components_of_plain ha, components_of_plain hb]
  exact h

/-! ## Pairs -/

/-- A pair is reported when it passes the exemptions and its paths overlap. -/
lemma pairCollision_isSome_iff {a b : OwnedDestination} : (pairCollision a b).isSome = true ↔
    a.dest.backingKey = b.dest.backingKey ∧
      ¬(a.identity = b.identity ∧ a.dest.subpath = b.dest.subpath) ∧
      ¬(a.dest.shared = true ∧ b.dest.shared = true ∧ a.dest.kind = b.dest.kind) ∧
      (overlap a.dest.subpath b.dest.subpath).isSome = true := by
  unfold pairCollision
  split
  · rename_i h
    exact iff_of_false Bool.false_ne_true fun h' => h h'.1
  · rename_i hbacking
    split
    · rename_i h
      exact iff_of_false Bool.false_ne_true fun h' => h'.2.1 h
    · rename_i hecho
      split
      · rename_i h
        exact iff_of_false Bool.false_ne_true fun h' => h'.2.2.1 h
      · rename_i hpool
        rw [Option.isSome_map]
        exact ⟨fun h => ⟨not_not.mp hbacking, hecho, hpool, h⟩, fun h => h.2.2.2⟩

/-- A conflict is reported exactly when the detector sees it. -/
lemma pairCollision_of_conflicts_iff {a b : Placement} (h : a.Conflicts b) :
    (pairCollision a.owned b.owned).isSome = true ↔ a.Seen b := by
  obtain ⟨hbacking, hdir, hpool, -⟩ := h
  have hidentity : a.owned.identity = b.owned.identity ↔ a.SameWorkload b := by
    unfold OwnedDestination.identity Placement.SameWorkload
    rw [Prod.mk.injEq, Prod.mk.injEq]
    rfl
  rw [pairCollision_isSome_iff, hidentity]
  constructor
  · rintro ⟨-, hecho, -, hover⟩
    exact ⟨hecho, Or.inr hover⟩
  · rintro ⟨hecho, hseen⟩
    refine ⟨hbacking, hecho, hpool, ?_⟩
    rcases hseen with ⟨ha, hb⟩ | hover
    · exact overlap_of_plain ha hb hdir
    · exact hover

/-- The reports are those of the pairs of the list. -/
lemma pairwise_detectCollisions (ps : List OwnedDestination) {all : List OwnedDestination}
    (hsub : ∀ c ∈ detectCollisions ps, c ∈ detectCollisions all) :
    ps.Pairwise fun a b => ∀ c, pairCollision a b = some c → c ∈ detectCollisions all := by
  induction ps with
  | nil => exact List.Pairwise.nil
  | cons a rest ih =>
    refine List.Pairwise.cons ?_ (ih fun c hc => hsub c (List.mem_append_right _ hc))
    intro b hb c hc
    exact hsub c (List.mem_append_left _ (List.mem_filterMap.mpr ⟨b, hb, hc⟩))

/-! ## The order of the list -/

lemma sortedEnds_comm (x y : String) : sortedEnds x y = sortedEnds y x := by
  unfold sortedEnds
  by_cases hxy : x ≤ y
  · by_cases hyx : y ≤ x
    · rw [le_antisymm hxy hyx]
    · rw [if_pos hxy, if_neg hyx]
  · rw [if_neg hxy, if_pos (le_of_not_ge hxy)]

lemma overlap_comm (a b : String) : overlap a b = overlap b a := by
  unfold overlap
  simp only [min_comm (components b).length, ne_comm (a := (components b).take _),
    ne_comm (a := (components b).length)]

lemma Collision.key_swap (backingKey partyA partyB pathA pathB : String) (nested : Bool) :
    (⟨backingKey, partyA, partyB, pathA, pathB, nested⟩ : Collision).key =
      (⟨backingKey, partyB, partyA, pathB, pathA, nested⟩ : Collision).key := by
  unfold Collision.key
  rw [sortedEnds_comm]

/-- The key of a reported pair is the one of the pair the other way round. -/
lemma key_pairCollision_comm (a b : OwnedDestination) :
    (pairCollision a b).map Collision.key = (pairCollision b a).map Collision.key := by
  by_cases hbacking : a.dest.backingKey = b.dest.backingKey
  · unfold pairCollision
    rw [if_neg (not_not.mpr hbacking), if_neg (not_not.mpr hbacking.symm)]
    by_cases hecho : a.identity = b.identity ∧ a.dest.subpath = b.dest.subpath
    · rw [if_pos hecho, if_pos ⟨hecho.1.symm, hecho.2.symm⟩]
    · have hecho' : ¬(b.identity = a.identity ∧ b.dest.subpath = a.dest.subpath) :=
        fun h => hecho ⟨h.1.symm, h.2.symm⟩
      rw [if_neg hecho, if_neg hecho']
      by_cases hpool : a.dest.shared ∧ b.dest.shared ∧ a.dest.kind = b.dest.kind
      · rw [if_pos hpool, if_pos ⟨hpool.2.1, hpool.1, hpool.2.2.symm⟩]
      · have hpool' : ¬(b.dest.shared ∧ a.dest.shared ∧ b.dest.kind = a.dest.kind) :=
          fun h => hpool ⟨h.2.1, h.1, h.2.2.symm⟩
        rw [if_neg hpool, if_neg hpool', overlap_comm b.dest.subpath, hbacking]
        cases overlap a.dest.subpath b.dest.subpath with
        | none => rfl
        | some nested =>
          rw [Option.map_some, Option.map_some, Option.map_some, Option.map_some,
            Collision.key_swap]
  · unfold pairCollision
    rw [if_pos hbacking, if_pos (Ne.symm hbacking)]

/-- The keys with one more entry: those of its pairs, and those there were. -/
lemma mem_keys_cons {a : OwnedDestination} {rest : List OwnedDestination} {key : String} :
    key ∈ (detectCollisions (a :: rest)).map Collision.key ↔
      (∃ b ∈ rest, (pairCollision a b).map Collision.key = some key) ∨
        key ∈ (detectCollisions rest).map Collision.key := by
  rw [detectCollisions, List.map_append, List.mem_append]
  refine or_congr_left ?_
  rw [List.mem_map]
  constructor
  · rintro ⟨c, hc, rfl⟩
    obtain ⟨b, hb, hbc⟩ := List.mem_filterMap.mp hc
    exact ⟨b, hb, by rw [hbc, Option.map_some]⟩
  · rintro ⟨b, hb, hkey⟩
    obtain ⟨c, hc, hck⟩ := Option.map_eq_some_iff.mp hkey
    exact ⟨c, List.mem_filterMap.mpr ⟨b, hb, hc⟩, hck⟩

/-- The keys do not depend on the order of the list. -/
lemma mem_keys_of_perm {ds ds' : List OwnedDestination} (h : ds.Perm ds') (key : String) :
    key ∈ (detectCollisions ds).map Collision.key ↔
      key ∈ (detectCollisions ds').map Collision.key := by
  induction h with
  | nil => rfl
  | cons a hperm ih =>
    rw [mem_keys_cons, mem_keys_cons, ih]
    exact or_congr_left ⟨fun ⟨b, hb, hk⟩ => ⟨b, hperm.mem_iff.mp hb, hk⟩,
      fun ⟨b, hb, hk⟩ => ⟨b, hperm.mem_iff.mpr hb, hk⟩⟩
  | swap a b rest =>
    rw [mem_keys_cons, mem_keys_cons, mem_keys_cons, mem_keys_cons]
    simp only [List.mem_cons, exists_eq_or_imp]
    rw [key_pairCollision_comm b a]
    exact or_or_or_comm
  | trans _ _ ih ih' => exact ih.trans ih'

/-- **Collisions.**  Every two backups of a list that share a folder on one storage are reported,
pools and echoes apart, if and only if the detector sees each such pair: no workload has one path on
two targets, and layouts that are not plain have overlapping components whenever their directories
overlap. -/
theorem detectCollisions_complete_iff (ps : List Placement) :
    Complete ps ↔ ps.Pairwise fun a b => a.Conflicts b → a.Seen b := by
  have hreported := pairwise_detectCollisions (ps.map Placement.owned) fun c hc => hc
  rw [List.pairwise_map] at hreported
  constructor
  · intro h
    refine h.reported.imp fun hrep hconf => ?_
    obtain ⟨c, -, hc⟩ := hrep hconf
    exact (pairCollision_of_conflicts_iff hconf).mp (by rw [hc]; rfl)
  · intro h
    refine ⟨?_, ?_⟩
    · refine (h.and hreported).imp ?_
      rintro a b ⟨hseen, hmem⟩ hconf
      obtain ⟨c, hc⟩ := Option.isSome_iff_exists.mp
        ((pairCollision_of_conflicts_iff hconf).mpr (hseen hconf))
      exact ⟨c, hmem c hc, hc⟩
    · intro ps' hperm key
      exact mem_keys_of_perm (hperm.map Placement.owned) key

/-- One workload that two targets of one storage take to the same folder. -/
def onTwoTargets : List Placement :=
  [⟨"thor", "host", "default", "nfs://nas/backup", ["hosts", "thor"], "nfs/a", false⟩,
    ⟨"thor", "host", "default", "nfs://nas/backup", ["hosts", "thor"], "nfs/b", false⟩]

/-- The workload on two targets is taken for an echo. -/
theorem two_targets_go_unreported : ¬Complete onTwoTargets := by
  intro h
  have hpair := List.pairwise_cons.mp h.reported
  have hconf : (⟨"thor", "host", "default", "nfs://nas/backup", ["hosts", "thor"], "nfs/a", false⟩ :
      Placement).Conflicts
      ⟨"thor", "host", "default", "nfs://nas/backup", ["hosts", "thor"], "nfs/b", false⟩ := by
    decide
  obtain ⟨c, -, hc⟩ := hpair.1 _ List.mem_cons_self hconf
  have hseen := (pairCollision_of_conflicts_iff hconf).mp (by rw [hc]; rfl)
  exact hseen.1 ⟨⟨rfl, rfl, rfl⟩, rfl⟩

end Orca.Backup
