import Mathlib.Data.List.Nodup
import Mathlib.Data.List.Sort

/-!
# Directory trees over inodes

A file system is a table of inodes under the handles that open them.  A directory has the handle of
the directory above it and gives names to inodes; an inode that is no directory can have several
names.  `Tree` is what is found below a name, with the handle of every inode in it, and `Tree.Holds`
says that the file system has this tree.

To unlink is to take a name out of its directory (`without`).  `Tree.spots` lists the names of a
tree in the order in which a recursive removal unlinks them: what is below a directory comes before
the directory.  No name is listed twice (`nodup_entriesSpots`), a name that is not unlinked yet is
still in its place (`Spot.Linked.without`), a directory outside the tree is never changed
(`without_of_outside`), and no directory has an entry left when all names are unlinked
(`EntriesIn.emptied`).
-/

namespace Inodes

/-- What a handle opens. -/
inductive Inode (ι ν α β : Type*) where
  | leaf (info : α)
  /-- A directory, with the directory above it and its entries in any order. -/
  | dir (info : β) (parent : ι) (entries : List (ν × ι))

/-- The inodes of a file system. -/
abbrev Table (ι ν α β : Type*) := ι → Option (Inode ι ν α β)

/-- What is below a name. -/
inductive Tree (ι ν α β : Type*) where
  | leaf (handle : ι) (info : α)
  /-- A directory with its entries, in the order of their names. -/
  | dir (handle : ι) (info : β) (entries : List (ν × Tree ι ν α β))

/-- A name in a directory, with what is below it. -/
structure Spot (ι ν α β : Type*) where
  dir : ι
  name : ν
  tree : Tree ι ν α β

variable {ι ν α β : Type*}

/-- The directory and the name of a spot. -/
def Spot.place (s : Spot ι ν α β) : ι × ν := (s.dir, s.name)

/-- The inode at the top of a tree. -/
def Tree.handle : Tree ι ν α β → ι
  | .leaf h _ => h
  | .dir h _ _ => h

/-- The entries that a directory has for trees. -/
def links (entries : List (ν × Tree ι ν α β)) : List (ν × ι) :=
  entries.map fun e => (e.1, e.2.handle)

mutual

/-- The names in a tree that is found under a name, in the order of a recursive removal. -/
def Tree.spots (dir : ι) (name : ν) : Tree ι ν α β → List (Spot ι ν α β)
  | .leaf h a => [⟨dir, name, .leaf h a⟩]
  | .dir h b entries => entriesSpots h entries ++ [⟨dir, name, .dir h b entries⟩]

/-- The names below a directory, in the order of a recursive removal. -/
def entriesSpots (dir : ι) : List (ν × Tree ι ν α β) → List (Spot ι ν α β)
  | [] => []
  | (name, t) :: entries => t.spots dir name ++ entriesSpots dir entries

end

mutual

/-- The directories of a tree. -/
def Tree.dirs : Tree ι ν α β → List ι
  | .leaf _ _ => []
  | .dir h _ entries => h :: entriesDirs entries

/-- The directories below a directory. -/
def entriesDirs : List (ν × Tree ι ν α β) → List ι
  | [] => []
  | (_, t) :: entries => t.dirs ++ entriesDirs entries

end

mutual

/-- How many directories of a tree are within each other. -/
def Tree.nesting : Tree ι ν α β → ℕ
  | .leaf _ _ => 0
  | .dir _ _ entries => entriesNesting entries + 1

/-- How many directories below a directory are within each other. -/
def entriesNesting : List (ν × Tree ι ν α β) → ℕ
  | [] => 0
  | (_, t) :: entries => max t.nesting (entriesNesting entries)

end

mutual

/-- The file system has a tree, in the directory `parent`. -/
def Tree.Holds [LT ν] (fs : Table ι ν α β) (parent : ι) : Tree ι ν α β → Prop
  | .leaf h a => fs h = some (.leaf a)
  | .dir h b entries =>
    (∃ es, fs h = some (.dir b parent es) ∧ es.Perm (links entries)) ∧
      (entries.map Prod.fst).Pairwise (· < ·) ∧ EntriesHold fs h entries

/-- The file system has the trees of the entries of a directory. -/
def EntriesHold [LT ν] (fs : Table ι ν α β) (dir : ι) : List (ν × Tree ι ν α β) → Prop
  | [] => True
  | (_, t) :: entries => t.Holds fs dir ∧ EntriesHold fs dir entries

end

/-! ## Unlinking -/

lemma lookup_of_mem [DecidableEq ν] {es : List (ν × ι)} {name : ν} {c : ι}
    (hnodup : (es.map Prod.fst).Nodup) (hmem : (name, c) ∈ es) : es.lookup name = some c := by
  obtain ⟨front, rest, rfl⟩ := List.append_of_mem hmem
  rw [List.map_append, List.map_cons] at hnodup
  have hfront : name ∉ front.map Prod.fst := fun hin =>
    (List.nodup_append.mp hnodup).2.2 name hin name List.mem_cons_self rfl
  refine List.lookup_eq_some_iff.mpr ⟨front, rest, rfl, fun e he => bne_iff_ne.mpr fun heq => ?_⟩
  exact hfront (List.mem_map.mpr ⟨e, he, heq.symm⟩)

section Without

variable [DecidableEq ι] [DecidableEq ν] {fs : Table ι ν α β} {places : List (ι × ν)} {h c : ι}
  {name : ν} {b : β} {parent : ι} {es : List (ν × ι)}

/-- What is left of the entries of a directory without the names in some places. -/
def remaining (places : List (ι × ν)) (h : ι) (es : List (ν × ι)) : List (ν × ι) :=
  es.filter fun e => decide ((h, e.1) ∉ places)

/-- The file system without the names in some places. -/
def without (fs : Table ι ν α β) (places : List (ι × ν)) : Table ι ν α β := fun h =>
  (fs h).map fun
    | .leaf a => .leaf a
    | .dir b parent es => .dir b parent (remaining places h es)

lemma remaining_eq_self (hfresh : ∀ e ∈ es, (h, e.1) ∉ places) : remaining places h es = es :=
  List.filter_eq_self.mpr fun e he => decide_eq_true (hfresh e he)

lemma remaining_remaining (places' : List (ι × ν)) :
    remaining places' h (remaining places h es) = remaining (places ++ places') h es := by
  unfold remaining
  rw [List.filter_filter]
  refine List.filter_congr fun e _ => ?_
  rw [← Bool.decide_and, decide_eq_decide, List.mem_append, not_or, and_comm]

lemma without_leaf {a : α} (hh : fs h = some (.leaf a)) : without fs places h = some (.leaf a) := by
  simp only [without, hh, Option.map_some]

lemma without_dir (hh : fs h = some (.dir b parent es)) :
    without fs places h = some (.dir b parent (remaining places h es)) := by
  simp only [without, hh, Option.map_some]

lemma without_of_outside (hout : ∀ p ∈ places, p.1 ≠ h) : without fs places h = fs h := by
  cases hh : fs h with
  | none => simp only [without, hh, Option.map_none]
  | some inode =>
    cases inode with
    | leaf a => exact without_leaf hh
    | dir b parent es => rw [without_dir hh, remaining_eq_self fun e _ hmem => hout _ hmem rfl]

@[simp] lemma without_nil : without fs [] = fs :=
  funext fun _ => without_of_outside fun _ hp => absurd hp List.not_mem_nil

/-- What is unlinked in two portions is unlinked. -/
lemma without_without (places' : List (ι × ν)) :
    without (without fs places) places' = without fs (places ++ places') := by
  funext h
  cases hh : fs h with
  | none => simp only [without, hh, Option.map_none]
  | some inode =>
    cases inode with
    | leaf a => rw [without_leaf hh, without_leaf (without_leaf hh)]
    | dir b parent es =>
      rw [without_dir hh, without_dir (without_dir hh), remaining_remaining]

lemma mem_remaining (hmem : (name, c) ∈ es) (hfresh : (h, name) ∉ places) :
    (name, c) ∈ remaining places h es :=
  List.mem_filter.mpr ⟨hmem, decide_eq_true hfresh⟩

lemma lookup_remaining (hnodup : (es.map Prod.fst).Nodup) (hmem : (name, c) ∈ es)
    (hfresh : (h, name) ∉ places) : (remaining places h es).lookup name = some c := by
  refine lookup_of_mem ?_ (mem_remaining hmem hfresh)
  exact hnodup.sublist (List.filter_sublist.map Prod.fst)

lemma remaining_eq_nil (hall : ∀ e ∈ es, (h, e.1) ∈ places) : remaining places h es = [] :=
  List.filter_eq_nil_iff.mpr fun e he => by simpa using hall e he

/-- The name of a spot is in its directory. -/
def Spot.Linked (fs : Table ι ν α β) (s : Spot ι ν α β) : Prop :=
  ∃ b parent es, fs s.dir = some (.dir b parent es) ∧ (s.name, s.tree.handle) ∈ es

lemma Spot.Linked.without {s : Spot ι ν α β} (hs : s.Linked fs) (hfresh : s.place ∉ places) :
    s.Linked (without fs places) := by
  obtain ⟨b, parent, es, hdir, hmem⟩ := hs
  exact ⟨b, parent, _, without_dir hdir, mem_remaining hmem hfresh⟩

/-- A name that is unlinked is in its directory no more. -/
lemma name_notMem_without (hmem : (h, name) ∈ places)
    (hh : without fs places h = some (.dir b parent es)) : name ∉ es.map Prod.fst := by
  intro hname
  obtain ⟨e, he, rfl⟩ := List.mem_map.mp hname
  unfold Inodes.without at hh
  obtain ⟨inode, -, hinode⟩ := Option.map_eq_some_iff.mp hh
  cases inode with
  | leaf a => cases hinode
  | dir b' parent' es' =>
    cases hinode
    exact of_decide_eq_true (List.mem_filter.mp he).2 hmem

end Without

/-! ## The names of a tree -/

lemma entriesSpots_singleton (dir : ι) (name : ν) (t : Tree ι ν α β) :
    entriesSpots dir [(name, t)] = t.spots dir name :=
  List.append_nil _

/-- An entry of a directory is one of the names below it. -/
lemma mem_entriesSpots {entries : List (ν × Tree ι ν α β)} {name : ν} {t : Tree ι ν α β}
    (hmem : (name, t) ∈ entries) (dir : ι) : ⟨dir, name, t⟩ ∈ entriesSpots dir entries := by
  induction entries with
  | nil => cases hmem
  | cons e entries ih =>
    rcases List.mem_cons.mp hmem with rfl | hmem
    · refine List.mem_append_left _ ?_
      cases t with
      | leaf h a => exact List.mem_singleton_self _
      | dir h b entries => exact List.mem_append_right _ (List.mem_singleton_self _)
    · exact List.mem_append_right _ (ih hmem)

mutual

/-- A name in a tree is the one of the tree or in a directory of the tree. -/
theorem Tree.place_of_mem_spots (dir : ι) (name : ν) (t : Tree ι ν α β) :
    ∀ s ∈ t.spots dir name, s.place = (dir, name) ∨ s.dir ∈ t.dirs := by
  intro s hs
  cases t with
  | leaf h a =>
    rw [List.mem_singleton.mp hs]
    exact Or.inl rfl
  | dir h b entries =>
    rcases List.mem_append.mp hs with hs | hs
    · refine Or.inr ?_
      rcases place_of_mem_entriesSpots h entries s hs with ⟨hdir, -⟩ | hdir
      · exact hdir ▸ List.mem_cons_self
      · exact List.mem_cons_of_mem _ hdir
    · rw [List.mem_singleton.mp hs]
      exact Or.inl rfl

/-- A name below a directory is one of its entries or in a directory below. -/
theorem place_of_mem_entriesSpots (dir : ι) (entries : List (ν × Tree ι ν α β)) :
    ∀ s ∈ entriesSpots dir entries,
      s.dir = dir ∧ s.name ∈ entries.map Prod.fst ∨ s.dir ∈ entriesDirs entries := by
  intro s hs
  cases entries with
  | nil => cases hs
  | cons e entries =>
    obtain ⟨name, t⟩ := e
    rcases List.mem_append.mp hs with hs | hs
    · rcases t.place_of_mem_spots dir name s hs with hplace | hdir
      · obtain ⟨hdir, hname⟩ := Prod.mk.inj hplace
        exact Or.inl ⟨hdir, hname ▸ List.mem_cons_self⟩
      · exact Or.inr (List.mem_append_left _ hdir)
    · rcases place_of_mem_entriesSpots dir entries s hs with ⟨hdir, hname⟩ | hdir
      · exact Or.inl ⟨hdir, List.mem_cons_of_mem _ hname⟩
      · exact Or.inr (List.mem_append_right _ hdir)

end

lemma nodup_of_pairwise_lt [Preorder ν] {names : List ν} (h : names.Pairwise (· < ·)) :
    names.Nodup :=
  h.imp fun hlt => ne_of_lt hlt

mutual

/-- No name in a tree is listed twice. -/
theorem Tree.nodup_spots [Preorder ν] {fs : Table ι ν α β} {parent dir : ι} (name : ν)
    (t : Tree ι ν α β) (hholds : t.Holds fs parent) (hdirs : (dir :: t.dirs).Nodup) :
    ((t.spots dir name).map Spot.place).Nodup := by
  cases t with
  | leaf h a => exact List.nodup_singleton _
  | dir h b entries =>
    obtain ⟨hout, hdirs⟩ := List.nodup_cons.mp hdirs
    have hbelow := nodup_entriesSpots entries (nodup_of_pairwise_lt hholds.2.1) hholds.2.2 hdirs
    rw [Tree.spots, List.map_append]
    refine List.Nodup.append hbelow (List.nodup_singleton _) ?_
    rintro p hp hp'
    obtain ⟨s, hs, rfl⟩ := List.mem_map.mp hp
    have hdir : s.dir = dir := (Prod.mk.inj (List.mem_singleton.mp hp')).1
    rcases place_of_mem_entriesSpots h entries s hs with ⟨hh, -⟩ | hmem
    · exact hout (hdir ▸ hh ▸ List.mem_cons_self)
    · exact hout (hdir ▸ List.mem_cons_of_mem _ hmem)

/-- No name below a directory is listed twice. -/
theorem nodup_entriesSpots [Preorder ν] {fs : Table ι ν α β} {dir : ι}
    (entries : List (ν × Tree ι ν α β)) (hnames : (entries.map Prod.fst).Nodup)
    (hholds : EntriesHold fs dir entries) (hdirs : (dir :: entriesDirs entries).Nodup) :
    ((entriesSpots dir entries).map Spot.place).Nodup := by
  cases entries with
  | nil => exact List.nodup_nil
  | cons e entries =>
    obtain ⟨name, t⟩ := e
    obtain ⟨hout, hdirs⟩ := List.nodup_cons.mp hdirs
    obtain ⟨hname, hnames⟩ := List.nodup_cons.mp hnames
    rw [entriesDirs, List.mem_append, not_or] at hout
    obtain ⟨hfirst, hrest, hapart⟩ := List.nodup_append.mp hdirs
    rw [entriesSpots, List.map_append]
    refine List.Nodup.append
      (t.nodup_spots name hholds.1 (List.nodup_cons.mpr ⟨hout.1, hfirst⟩))
      (nodup_entriesSpots entries hnames hholds.2 (List.nodup_cons.mpr ⟨hout.2, hrest⟩)) ?_
    rintro p hp hp'
    obtain ⟨s, hs, rfl⟩ := List.mem_map.mp hp
    obtain ⟨s', hs', hplace⟩ := List.mem_map.mp hp'
    obtain ⟨hdir, hsame⟩ := Prod.mk.inj hplace
    rcases t.place_of_mem_spots dir name s hs with htop | hin <;>
      rcases place_of_mem_entriesSpots dir entries s' hs' with ⟨hdir', hname'⟩ | hin'
    · -- both are entries of the directory: their names differ
      exact hname ((Prod.mk.inj htop).2 ▸ hsame ▸ hname')
    · exact hout.2 ((Prod.mk.inj htop).1 ▸ hdir ▸ hin')
    · exact hout.1 (hdir' ▸ hdir ▸ hin)
    · exact hapart _ hin _ hin' hdir.symm

end

mutual

/-- In a file system that has a tree the names in it are in their directories, the one of the tree
if it is. -/
theorem Tree.linked_of_mem_spots [LT ν] {fs : Table ι ν α β} {dir : ι} {name : ν}
    (t : Tree ι ν α β) (hholds : t.Holds fs dir) (htop : Spot.Linked fs ⟨dir, name, t⟩) :
    ∀ s ∈ t.spots dir name, s.Linked fs := by
  intro s hs
  cases t with
  | leaf h a => exact (List.mem_singleton.mp hs).symm ▸ htop
  | dir h b entries =>
    rcases List.mem_append.mp hs with hs | hs
    · obtain ⟨⟨es, hdir, hperm⟩, -, hbelow⟩ := hholds
      exact linked_of_mem_entriesSpots entries hbelow hdir (fun e he => hperm.mem_iff.mpr he) s hs
    · exact (List.mem_singleton.mp hs).symm ▸ htop

/-- In a file system that has the trees of the entries of a directory, and the entries in it, the
names below it are in their directories. -/
theorem linked_of_mem_entriesSpots [LT ν] {fs : Table ι ν α β} {dir parent : ι} {b : β}
    {es : List (ν × ι)} (entries : List (ν × Tree ι ν α β)) (hholds : EntriesHold fs dir entries)
    (hdir : fs dir = some (.dir b parent es)) (hlinks : ∀ e ∈ links entries, e ∈ es) :
    ∀ s ∈ entriesSpots dir entries, s.Linked fs := by
  intro s hs
  cases entries with
  | nil => cases hs
  | cons e entries =>
    obtain ⟨name, t⟩ := e
    rcases List.mem_append.mp hs with hs | hs
    · exact t.linked_of_mem_spots hholds.1
        ⟨b, parent, es, hdir, hlinks _ List.mem_cons_self⟩ s hs
    · exact linked_of_mem_entriesSpots entries hholds.2 hdir
        (fun e he => hlinks e (List.mem_cons_of_mem _ he)) s hs

end

/-- The directory has no entries but those in some places. -/
def EntriesIn (fs : Table ι ν α β) (places : List (ι × ν)) (h : ι) : Prop :=
  ∃ b parent es, fs h = some (.dir b parent es) ∧ ∀ e ∈ es, (h, e.1) ∈ places

lemma EntriesIn.mono {fs : Table ι ν α β} {places places' : List (ι × ν)} {h : ι}
    (hin : EntriesIn fs places h) (hsub : places ⊆ places') : EntriesIn fs places' h := by
  obtain ⟨b, parent, es, hh, hall⟩ := hin
  exact ⟨b, parent, es, hh, fun e he => hsub (hall e he)⟩

lemma entriesIn_of_perm {fs : Table ι ν α β} {h parent : ι} {b : β} {es : List (ν × ι)}
    {entries : List (ν × Tree ι ν α β)} (hh : fs h = some (.dir b parent es))
    (hperm : es.Perm (links entries)) :
    EntriesIn fs ((entriesSpots h entries).map Spot.place) h := by
  refine ⟨b, parent, es, hh, fun e he => ?_⟩
  obtain ⟨⟨name, t⟩, hmem, rfl⟩ := List.mem_map.mp (hperm.mem_iff.mp he)
  exact List.mem_map.mpr ⟨_, mem_entriesSpots hmem h, rfl⟩

mutual

/-- All entries of the directories of a tree are names in the tree. -/
theorem Tree.entriesIn_spots [LT ν] {fs : Table ι ν α β} {parent : ι} (dir : ι) (name : ν)
    (t : Tree ι ν α β) (hholds : t.Holds fs parent) :
    ∀ d ∈ t.dirs, EntriesIn fs ((t.spots dir name).map Spot.place) d := by
  intro d hd
  cases t with
  | leaf h a => cases hd
  | dir h b entries =>
    obtain ⟨⟨es, hh, hperm⟩, -, hbelow⟩ := hholds
    have hin : EntriesIn fs ((entriesSpots h entries).map Spot.place) d := by
      rcases List.mem_cons.mp hd with rfl | hd
      · exact entriesIn_of_perm hh hperm
      · exact entriesIn_entriesSpots h entries hbelow d hd
    refine hin.mono ?_
    rw [Tree.spots, List.map_append]
    exact List.subset_append_left _ _

/-- All entries of the directories below a directory are names below it. -/
theorem entriesIn_entriesSpots [LT ν] {fs : Table ι ν α β} (dir : ι)
    (entries : List (ν × Tree ι ν α β)) (hholds : EntriesHold fs dir entries) :
    ∀ d ∈ entriesDirs entries, EntriesIn fs ((entriesSpots dir entries).map Spot.place) d := by
  intro d hd
  cases entries with
  | nil => cases hd
  | cons e entries =>
    obtain ⟨name, t⟩ := e
    rw [entriesSpots, List.map_append]
    rcases List.mem_append.mp hd with hd | hd
    · exact (t.entriesIn_spots dir name hholds.1 d hd).mono (List.subset_append_left _ _)
    · exact (entriesIn_entriesSpots dir entries hholds.2 d hd).mono (List.subset_append_right _ _)

end

lemma EntriesIn.emptied [DecidableEq ι] [DecidableEq ν] {fs : Table ι ν α β}
    {places : List (ι × ν)} {h : ι} (hin : EntriesIn fs places h) :
    ∃ b parent, without fs places h = some (.dir b parent []) := by
  obtain ⟨b, parent, es, hh, hall⟩ := hin
  exact ⟨b, parent, by rw [without_dir hh, remaining_eq_nil hall]⟩

end Inodes
