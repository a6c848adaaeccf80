import Orca.Storage.RemoveTree

/-!
# Removing a tree exactly

What a removal is to come to (`Outcome`): names below the item are unlinked and nothing else is
changed, what is not unlinked is still in its place, and the bytes that are reported are those of
what was unlinked.  When no call fails everything goes, and when unlinking the `k`-th name fails the
names before it are gone and no others.

`remove_tree` does this for every finite tree on one device in which at most `MAX_DEPTH` directories
are within each other, as long as the bytes can be counted (`removes_exactly_iff`): they are added
up in 64 bits without a check, while a file with several names counts once for each of them.
-/

namespace Orca.Storage.FdRemove

open Check Inodes

/-! ## What is removed and reported -/

section Exact

variable {Handle : Type} {fs : FileSystem Handle} {unit : Handle} {stat : Stat}
  {entries : List (String × FileTree Handle)} {dev freed : Nat}

/-- A tree that `remove_tree` accepts: it is on one device, and at most `MAX_DEPTH` directories are
within each other. -/
structure Removable (fs : FileSystem Handle) (unit : Handle) (stat : Stat)
    (entries : List (String × FileTree Handle)) (dev : Nat) : Prop
    extends TreeBelow fs unit stat entries where
  within : ∀ s ∈ entriesSpots unit entries, (treeStat s.tree).dev = dev
  /-- The directories below the item are not too deep. -/
  shallow : entriesNesting entries ≤ maxDepth

/-- The bytes that are freed with a name: those of what is no directory. -/
def spotBytes (s : FileSpot Handle) : Nat :=
  match s.tree with
  | .leaf _ info => diskBytes info.stat
  | .dir _ _ _ => 0

/-- The bytes that are reported after some names were unlinked. -/
lemma foldl_addFreed (hfreed : freed < 2 ^ 64) (gone : List (FileSpot Handle)) :
    gone.foldl addFreed freed = (freed + (gone.map spotBytes).sum) % 2 ^ 64 := by
  induction gone generalizing freed with
  | nil => exact (Nat.mod_eq_of_lt hfreed).symm
  | cons s gone ih =>
    obtain ⟨dir, name, t⟩ := s
    rw [List.foldl_cons, List.map_cons, List.sum_cons]
    cases t with
    | leaf h info =>
      have hrest := ih (Nat.mod_lt (freed + diskBytes info.stat) (Nat.two_pow_pos 64))
      rw [Nat.mod_add_mod, Nat.add_assoc] at hrest
      exact hrest
    | dir h stat entries => simpa only [addFreed, spotBytes, Nat.zero_add] using ih hfreed

lemma deletes_below (fails : Faults Handle) (dev : Nat) (unit : Handle)
    (entries : List (String × FileTree Handle)) :
    Deletes fails (Clean dev 0 (entriesSpots unit entries) (entriesNesting entries)) []
      (entriesSpots unit entries) (deleteBelow fails dev unit entries) :=
  deletes_after_calls (fun _ _ h => faulty_of_fault h) (deletes_entries fails dev 0 unit entries [])

lemma Removable.clean (h : Removable fs unit stat entries dev) :
    Clean dev 0 (entriesSpots unit entries) (entriesNesting entries) :=
  ⟨h.within, (Nat.zero_add _).symm ▸ h.shallow⟩

lemma TreeBelow.linked (h : TreeBelow fs unit stat entries) :
    ∀ s ∈ entriesSpots unit entries, s.Linked fs := by
  obtain ⟨parent, ⟨es, hdir, hperm⟩, -, hbelow⟩ := h.holds
  exact linked_of_mem_entriesSpots entries hbelow hdir fun e he => hperm.mem_iff.mpr he

lemma TreeBelow.nodup (h : TreeBelow fs unit stat entries) :
    ((entriesSpots unit entries).map Spot.place).Nodup := by
  obtain ⟨parent, -, hsorted, hbelow⟩ := h.holds
  exact nodup_entriesSpots entries (nodup_of_pairwise_lt hsorted) hbelow h.apart

lemma TreeBelow.entriesIn (h : TreeBelow fs unit stat entries) :
    ∀ d ∈ unit :: entriesDirs entries,
      EntriesIn fs ((entriesSpots unit entries).map Spot.place) d := by
  obtain ⟨parent, ⟨es, hdir, hperm⟩, -, hbelow⟩ := h.holds
  intro d hd
  rcases List.mem_cons.mp hd with rfl | hd
  · exact entriesIn_of_perm hdir hperm
  · exact entriesIn_entriesSpots unit entries hbelow d hd

variable [DecidableEq Handle]

/-- What a removal of everything below a directory is to come to: `removed` are the names it
unlinked, and `kept` those it did not. -/
structure Outcome (fs : FileSystem Handle) (unit : Handle)
    (entries : List (String × FileTree Handle)) (freed : Nat) (fails : Faults Handle)
    (removed kept : List (FileSpot Handle)) (out : Disk Handle × Nat × Except Refusal Unit) :
    Prop where
  /-- They are the names below the directory, and what is below a directory goes first. -/
  split : entriesSpots unit entries = removed ++ kept
  /-- The file system is without the removed names, and otherwise as it was. -/
  inodes : out.1.inodes = without fs (removed.map Spot.place)
  /-- The removed names are in their directories no more. -/
  absent : ∀ s ∈ removed, ∀ stat parent es, out.1.inodes s.dir = some (.dir stat parent es) →
    s.name ∉ es.map Prod.fst
  /-- The other names are in their places. -/
  present : ∀ s ∈ kept, s.Linked out.1.inodes
  /-- The bytes of the removed names are reported, and no others. -/
  reported : out.2.1 = freed + (removed.map spotBytes).sum
  /-- When no call fails every name is removed, and no directory has an entry left. -/
  complete : (∀ k c, fails k c = none) → out.2.2 = .ok () ∧ kept = [] ∧
    ∀ h ∈ unit :: entriesDirs entries, ∃ stat parent, out.1.inodes h = some (.dir stat parent [])
  /-- When unlinking the `k`-th name fails the removal does; and when no other call fails, it has
  removed the names before it. -/
  stopped : ∀ k e, k < (entriesSpots unit entries).length →
    (∀ dir name, fails k (.unlinkAt dir name) = some e) →
    out.2.2 ≠ .ok () ∧ removed.length ≤ k ∧
      ((∀ i c, fails i c = none ∨ i = k ∧ ∃ dir name, c = .unlinkAt dir name) →
        removed.length = k ∧ out.2.2 = .error (io e))

/-- Whatever call fails, `remove_tree` ends and its outcome is what it is to be. -/
def RemovesExactly (fs : FileSystem Handle) (unit : Handle) (stat : Stat)
    (entries : List (String × FileTree Handle)) (dev freed : Nat) : Prop :=
  ∀ fails : Faults Handle, ∃ removed kept out,
    (∃ n, ∀ fuel, n ≤ fuel →
      removeTree fails fuel ⟨fs, 0⟩ unit (dirId stat) dev freed = some out) ∧
    Outcome fs unit entries freed fails removed kept out

/-- **What the recursion comes to.**  Without an overflow the recursive removal has the outcome that
it is to have. -/
lemma outcome_of_recursion (h : Removable fs unit stat entries dev)
    (hfits : freed + ((entriesSpots unit entries).map spotBytes).sum < 2 ^ 64)
    (fails : Faults Handle) : ∃ removed kept, Outcome fs unit entries freed fails removed kept
      (diskAfter fs (deleteBelow fails dev unit entries).1,
        (deleteBelow fails dev unit entries).1.foldl addFreed freed,
        (deleteBelow fails dev unit entries).2) := by
  have hdeletes := deletes_below fails dev unit entries
  obtain ⟨removed, kept, hsplit, hgone, hkept⟩ := hdeletes.part
  have hpassed := hdeletes.passed
  have hstopped := hdeletes.stopped h.clean
  generalize deleteBelow fails dev unit entries = r at *
  obtain ⟨gone, result⟩ := r
  have hgone : gone = removed := hgone
  subst hgone
  have hfull : result = .ok () → entriesSpots unit entries = gone := fun hok => by
    rw [hsplit, hkept hok, List.append_nil]
  refine ⟨gone, kept, ⟨hsplit, rfl, fun s hs stat parent es hdir => ?_, fun s hs => ?_, ?_,
    fun hnone => ?_, fun k e hk hfail => ?_⟩⟩
  · have hplace : s.place ∈ gone.map Spot.place := List.mem_map_of_mem hs
    exact name_notMem_without hplace hdir
  · -- a kept name is no removed one, as no name is listed twice
    have hnodup := h.nodup
    rw [hsplit, List.map_append] at hnodup
    refine (h.linked s (hsplit ▸ List.mem_append_right _ hs)).without fun hmem => ?_
    exact (List.nodup_append.mp hnodup).2.2 _ hmem _ (List.mem_map_of_mem hs) rfl
  · rw [hsplit, List.map_append, List.sum_append] at hfits
    change gone.foldl addFreed freed = _
    rw [foldl_addFreed (by omega), Nat.mod_eq_of_lt (by omega)]
  · have hok : result = .ok () := by
      cases result with
      | ok u => rfl
      | error e =>
        obtain ⟨c, msg, hc, -⟩ := hstopped e rfl
        exact nomatch (hnone _ _).symm.trans hc
    refine ⟨hok, hkept hok, fun d hd => ?_⟩
    have hin := h.entriesIn d hd
    rw [hfull hok] at hin
    exact hin.emptied
  · have hle : gone.length ≤ k := by
      refine Nat.le_of_not_lt fun hlt => ?_
      have hnone := hpassed k gone[k] (Nat.zero_le _) (List.getElem?_eq_getElem hlt)
      exact nomatch hnone.symm.trans (hfail _ _)
    have herror : result ≠ .ok () := fun hok => by
      rw [hfull hok] at hk
      exact absurd hk (Nat.not_lt.mpr hle)
    refine ⟨herror, hle, fun hothers => ?_⟩
    cases result with
    | ok u => exact absurd rfl herror
    | error e' =>
      obtain ⟨c, msg, hc, rfl⟩ := hstopped e' rfl
      rcases hothers gone.length c with hnone | ⟨hlength, dir, name, rfl⟩
      · exact nomatch hnone.symm.trans hc
      · refine ⟨hlength, ?_⟩
        change fails gone.length _ = _ at hc
        rw [hlength, hfail] at hc
        cases hc
        rfl

/-- A removal that reports the bytes of all names does so in 64 bits. -/
lemma fits_of_removesExactly (h : Removable fs unit stat entries dev) (hfreed : freed < 2 ^ 64)
    (hexact : RemovesExactly fs unit stat entries dev freed) :
    freed + ((entriesSpots unit entries).map spotBytes).sum < 2 ^ 64 := by
  obtain ⟨removed, kept, out, ⟨n, hrun⟩, hout⟩ := hexact fun _ _ => none
  obtain ⟨n', hrun'⟩ := removeTree_ends h.toTreeBelow (fun _ _ => none) dev freed
  have hsame := (hrun' _ (Nat.le_max_right n n')).symm.trans (hrun _ (Nat.le_max_left n n'))
  obtain rfl := Option.some.inj hsame
  obtain ⟨hok, hkept, -⟩ := hout.complete fun _ _ => rfl
  have hsplit := hout.split
  rw [hkept, List.append_nil] at hsplit
  have hreported := hout.reported
  rw [← hsplit, foldl_addFreed hfreed] at hreported
  rw [← hreported]
  exact Nat.mod_lt _ (Nat.two_pow_pos 64)

/-- **The removal is exact.**  For a finite tree on one device that is not too deep, `remove_tree`
ends whatever call fails, it removes every name below the item and nothing else unless it is
stopped, leaves in place what it has not removed, and reports the bytes of what it has removed, if
and only if these bytes can be counted in 64 bits. -/
theorem removes_exactly_iff (h : Removable fs unit stat entries dev) (hfreed : freed < 2 ^ 64) :
    RemovesExactly fs unit stat entries dev freed ↔
      freed + ((entriesSpots unit entries).map spotBytes).sum < 2 ^ 64 := by
  refine ⟨fits_of_removesExactly h hfreed, fun hfits fails => ?_⟩
  obtain ⟨removed, kept, hout⟩ := outcome_of_recursion h hfits fails
  exact ⟨removed, kept, _, removeTree_ends h.toTreeBelow fails dev freed, hout⟩

end Exact

/-- A directory. -/
def someDir (ino : Nat) : Stat := ⟨1, ino, 0, 8, 0⟩

/-- A file that takes a number of blocks. -/
def someFile (ino blocks : Nat) : LeafInfo := ⟨⟨1, ino, 0, blocks, 0⟩, .file, file_ne_dir⟩

/-- An item with a file in it, in a directory `d` that is in it and under the name `z`. -/
def nested : FileSystem Nat := fun
  | 0 => some (.dir (someDir 10) 7 [("z", 2), ("d", 1)])
  | 1 => some (.dir (someDir 11) 0 [("f", 2)])
  | 2 => some (.leaf (someFile 12 16))
  | _ => none

/-- The item is removed exactly. -/
theorem nested_removed_exactly : RemovesExactly nested 0 (someDir 10)
    [("d", .dir 1 (someDir 11) [("f", .leaf 2 (someFile 12 16))]), ("z", .leaf 2 (someFile 12 16))]
    1 0 := by
  have h : Removable nested 0 (someDir 10)
      [("d", .dir 1 (someDir 11) [("f", .leaf 2 (someFile 12 16))]),
        ("z", .leaf 2 (someFile 12 16))] 1 :=
    { holds := ⟨7, ⟨_, rfl, List.Perm.swap _ _ _⟩, by decide,
        ⟨⟨_, rfl, List.Perm.refl _⟩, by decide, rfl, trivial⟩, rfl, trivial⟩
      apart := by decide
      proper := by decide
      within := by decide
      shallow := by decide }
  exact (removes_exactly_iff h (by decide)).mpr (by decide)

/-- An item with a file of `2 ^ 63` bytes that has two names in it. -/
def linkedTwice : FileSystem Nat := fun
  | 0 => some (.dir (someDir 10) 7 [("a", 1), ("b", 1)])
  | 1 => some (.leaf (someFile 11 (2 ^ 54)))
  | _ => none

/-- **The bytes are not counted right.**  The tree of the item is accepted, and its removal does not
report the bytes of the two names. -/
theorem linkedTwice_not_exact : Removable linkedTwice 0 (someDir 10)
      [("a", .leaf 1 (someFile 11 (2 ^ 54))), ("b", .leaf 1 (someFile 11 (2 ^ 54)))] 1 ∧
    ¬RemovesExactly linkedTwice 0 (someDir 10)
      [("a", .leaf 1 (someFile 11 (2 ^ 54))), ("b", .leaf 1 (someFile 11 (2 ^ 54)))] 1 0 := by
  have h : Removable linkedTwice 0 (someDir 10)
      [("a", .leaf 1 (someFile 11 (2 ^ 54))), ("b", .leaf 1 (someFile 11 (2 ^ 54)))] 1 :=
    { holds := ⟨7, ⟨_, rfl, List.Perm.refl _⟩, by decide, rfl, rfl, trivial⟩
      apart := by decide
      proper := by decide
      within := by decide
      shallow := by decide }
  refine ⟨h, fun hexact => ?_⟩
  exact absurd (fits_of_removesExactly h (by decide) hexact) (by decide)

end Orca.Storage.FdRemove
