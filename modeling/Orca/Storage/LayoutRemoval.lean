import Orca.Storage.RemovalExact

/-!
# The removal on a layout

The janitor is modelled on a layout, a tree whose deleted paths are listed, and `removeEntries` is
the removal there.  Here a layout is read as a file system of inodes, in which a path is the handle
of what is there, and the closed directories and failing removals of the layout are the faults of
the system.  On this file system the recursion over the tree is `removeEntries`
(`removeEntries_layout`), so that `removeEntries` is what the loop of `remove_tree` does
(`removeTree_layout`).
-/

namespace Orca.Storage.FdRemove

open Check Inodes

mutual

/-- The entries of the directories in a layout are in the order of their names, and none is called
`.` or `..`. -/
def Ordered : Node → Prop
  | .dir _ entries => (entries.map Prod.fst).Pairwise (· < ·) ∧
      (∀ e ∈ entries, e.1 ≠ "." ∧ e.1 ≠ "..") ∧ EntriesOrdered entries
  | _ => True

/-- This is so for all entries of a directory. -/
def EntriesOrdered : List (String × Node) → Prop
  | [] => True
  | (_, n) :: entries => Ordered n ∧ EntriesOrdered entries

end

/-! ## The layout as a file system -/

section Layout

variable (tree : Node) (o : Observation) (gone : List Path)

/-- The entries of the directory at a path that are not deleted. -/
def presentLinks (p : Path) (entries : List (String × Node)) : List (String × Path) :=
  (entries.filter fun e => decide (p ++ [e.1] ∉ gone)).map fun e => (e.1, p ++ [e.1])

/-- The inode of what is at a path. -/
def inodeAt (p : Path) (n : Node) : Inode Path String LeafInfo Stat :=
  match n with
  | .file => .leaf ⟨o.stat p, .file, file_ne_dir⟩
  | .symlink => .leaf ⟨o.stat p, .symlink, symlink_ne_dir⟩
  | .other => .leaf ⟨o.stat p, .other, other_ne_dir⟩
  | .dir _ _ => .dir (o.stat p) p.dropLast (presentLinks gone p n.readDir)

/-- The file system of a layout. -/
def fileSystemOf : FileSystem Path := fun p => (present tree gone p).map (inodeAt o gone p)

/-- The faults of a layout: closed directories cannot be opened, and some removals fail. -/
def faultsOf : Faults Path := fun _ c =>
  match c with
  | .openDir dir name =>
    if name = ".." then none
    else
      match tree.find (dir ++ [name]) with
      | some (.dir false _) => some "Permission denied (os error 13)"
      | _ => none
  | .unlinkAt dir name => o.fails (dir ++ [name])
  | _ => none

mutual

/-- What is at a path, as a tree. -/
def treeAt (p : Path) : Node → FileTree Path
  | .file => .leaf p ⟨o.stat p, .file, file_ne_dir⟩
  | .symlink => .leaf p ⟨o.stat p, .symlink, symlink_ne_dir⟩
  | .other => .leaf p ⟨o.stat p, .other, other_ne_dir⟩
  | .dir true entries => .dir p (o.stat p) (entriesAt p entries)
  | .dir false _ => .dir p (o.stat p) []

/-- The entries of the directory at a path that are not deleted, as trees. -/
def entriesAt (p : Path) : List (String × Node) → List (String × FileTree Path)
  | [] => []
  | (name, n) :: entries =>
    if p ++ [name] ∈ gone then entriesAt p entries
    else (name, treeAt (p ++ [name]) n) :: entriesAt p entries

end

end Layout

section Holds

variable {tree : Node} {o : Observation} {gone : List Path}

lemma handle_treeAt (p : Path) (n : Node) : (treeAt o gone p n).handle = p := by
  cases n with
  | dir readable entries => cases readable <;> rfl
  | file => rfl
  | symlink => rfl
  | other => rfl

/-- The entries of a directory lead to their trees. -/
lemma links_entriesAt (p : Path) (entries : List (String × Node)) :
    links (entriesAt o gone p entries) = presentLinks gone p entries := by
  induction entries with
  | nil => rfl
  | cons e entries ih =>
    obtain ⟨name, n⟩ := e
    by_cases hgone : p ++ [name] ∈ gone
    · rw [entriesAt, if_pos hgone, ih]
      exact congrArg (List.map _) (List.filter_cons_of_neg (by simpa using hgone)).symm
    · have hlinks : presentLinks gone p ((name, n) :: entries) =
          (name, p ++ [name]) :: presentLinks gone p entries :=
        congrArg (List.map _) (List.filter_cons_of_pos (by simpa using hgone))
      rw [entriesAt, if_neg hgone, hlinks, ← ih]
      exact congrArg (fun h => (name, h) :: links _) (handle_treeAt _ n)

/-- The names of a directory stay in their order. -/
lemma names_entriesAt (p : Path) (entries : List (String × Node)) :
    List.Sublist ((entriesAt o gone p entries).map Prod.fst) (entries.map Prod.fst) := by
  induction entries with
  | nil => exact List.Sublist.refl _
  | cons e entries ih =>
    obtain ⟨name, n⟩ := e
    by_cases hgone : p ++ [name] ∈ gone
    · rw [entriesAt, if_pos hgone]
      exact ih.cons _
    · rw [entriesAt, if_neg hgone]
      exact ih.cons_cons _

lemma find_of_mem {p : Path} {entries : List (String × Node)}
    (hfind : tree.find p = some (.dir true entries)) (hordered : Ordered (.dir true entries)) :
    ∀ e ∈ entries, tree.find (p ++ [e.1]) = some e.2 := fun _ he =>
  find_entry hfind (lookup_of_mem (nodup_of_pairwise_lt hordered.1) he)

mutual

/-- The file system of a layout has the tree of what is at a path. -/
theorem holds_treeAt (p : Path) (n : Node) (hn : present tree gone p = some n)
    (hordered : Ordered n) :
    (treeAt o gone p n).Holds (fileSystemOf tree o gone) p.dropLast := by
  have hinode : fileSystemOf tree o gone p = some (inodeAt o gone p n) := by
    rw [fileSystemOf, hn]
    rfl
  cases n with
  | dir readable entries =>
    cases readable with
    | true =>
      refine ⟨⟨_, hinode, ?_⟩, hordered.1.sublist (names_entriesAt p entries), ?_⟩
      · rw [links_entriesAt]
        exact List.Perm.refl _
      · exact holds_entriesAt p entries (find_of_mem (present_eq_some.mp hn).2 hordered)
          hordered.2.2
    | false => exact ⟨⟨_, hinode, List.Perm.refl _⟩, List.Pairwise.nil, trivial⟩
  | file => exact hinode
  | symlink => exact hinode
  | other => exact hinode

/-- It has the trees of the entries of a directory. -/
theorem holds_entriesAt (p : Path) (entries : List (String × Node))
    (hfind : ∀ e ∈ entries, tree.find (p ++ [e.1]) = some e.2) (hordered : EntriesOrdered entries) :
    EntriesHold (fileSystemOf tree o gone) p (entriesAt o gone p entries) := by
  cases entries with
  | nil => exact trivial
  | cons e entries =>
    obtain ⟨name, n⟩ := e
    have hrest := holds_entriesAt p entries (fun e he => hfind e (List.mem_cons_of_mem _ he))
      hordered.2
    by_cases hgone : p ++ [name] ∈ gone
    · rw [entriesAt, if_pos hgone]
      exact hrest
    · rw [entriesAt, if_neg hgone]
      have htop := holds_treeAt (p ++ [name]) n
        (present_eq_some.mpr ⟨hgone, hfind _ List.mem_cons_self⟩) hordered.1
      rw [List.dropLast_concat] at htop
      exact ⟨htop, hrest⟩

end

mutual

/-- The directories of the tree at a path are at or below it. -/
theorem prefix_of_mem_dirs (p : Path) (n : Node) : ∀ d ∈ (treeAt o gone p n).dirs, p <+: d := by
  intro d hd
  cases n with
  | dir readable entries =>
    cases readable with
    | true =>
      rcases List.mem_cons.mp hd with rfl | hd
      · exact List.prefix_rfl
      · obtain ⟨name, -, hbelow⟩ := prefix_of_mem_entriesDirs p entries d hd
        exact (List.prefix_append p [name]).trans hbelow
    | false => exact (List.mem_singleton.mp hd) ▸ List.prefix_rfl
  | file => cases hd
  | symlink => cases hd
  | other => cases hd

/-- The directories below a directory are at or below one of its entries. -/
theorem prefix_of_mem_entriesDirs (p : Path) (entries : List (String × Node)) :
    ∀ d ∈ entriesDirs (entriesAt o gone p entries),
      ∃ name ∈ entries.map Prod.fst, p ++ [name] <+: d := by
  intro d hd
  cases entries with
  | nil => cases hd
  | cons e entries =>
    obtain ⟨name, n⟩ := e
    have hrest : d ∈ entriesDirs (entriesAt o gone p entries) →
        ∃ name' ∈ ((name, n) :: entries).map Prod.fst, p ++ [name'] <+: d := fun hd => by
      obtain ⟨name', hname, hbelow⟩ := prefix_of_mem_entriesDirs p entries d hd
      exact ⟨name', List.mem_cons_of_mem _ hname, hbelow⟩
    by_cases hgone : p ++ [name] ∈ gone
    · rw [entriesAt, if_pos hgone] at hd
      exact hrest hd
    · rw [entriesAt, if_neg hgone] at hd
      rcases List.mem_append.mp hd with hd | hd
      · exact ⟨name, List.mem_cons_self, prefix_of_mem_dirs (p ++ [name]) n d hd⟩
      · exact hrest hd

end

lemma name_eq_of_prefix {p d : Path} {a b : String} (ha : p ++ [a] <+: d) (hb : p ++ [b] <+: d) :
    a = b := by
  have hlength : (p ++ [a]).length = (p ++ [b]).length := by
    rw [List.length_append, List.length_append]
    rfl
  have heq := (List.prefix_of_prefix_length_le ha hb hlength.le).eq_of_length hlength
  exact List.singleton_inj.mp (List.append_cancel_left heq)

lemma notMem_entriesDirs (p : Path) (entries : List (String × Node)) :
    p ∉ entriesDirs (entriesAt o gone p entries) := by
  intro hp
  obtain ⟨name, -, hbelow⟩ := prefix_of_mem_entriesDirs p entries p hp
  exact (below_of_entry hbelow).2 rfl

mutual

/-- No directory is found twice in the tree at a path. -/
theorem nodup_dirs_treeAt (p : Path) (n : Node) (hordered : Ordered n) :
    (treeAt o gone p n).dirs.Nodup := by
  cases n with
  | dir readable entries =>
    cases readable with
    | true =>
      exact List.nodup_cons.mpr ⟨notMem_entriesDirs p entries,
        nodup_entriesDirs p entries (nodup_of_pairwise_lt hordered.1) hordered.2.2⟩
    | false => exact List.nodup_singleton _
  | file => exact List.nodup_nil
  | symlink => exact List.nodup_nil
  | other => exact List.nodup_nil

/-- No directory is found twice below a directory. -/
theorem nodup_entriesDirs (p : Path) (entries : List (String × Node))
    (hnames : (entries.map Prod.fst).Nodup) (hordered : EntriesOrdered entries) :
    (entriesDirs (entriesAt o gone p entries)).Nodup := by
  cases entries with
  | nil => exact List.nodup_nil
  | cons e entries =>
    obtain ⟨name, n⟩ := e
    obtain ⟨hname, hnames⟩ := List.nodup_cons.mp hnames
    have hrest := nodup_entriesDirs p entries hnames hordered.2
    by_cases hgone : p ++ [name] ∈ gone
    · rw [entriesAt, if_pos hgone]
      exact hrest
    · rw [entriesAt, if_neg hgone]
      refine List.Nodup.append (nodup_dirs_treeAt (p ++ [name]) n hordered.1) hrest ?_
      intro d hd hd'
      obtain ⟨name', hname', hbelow⟩ := prefix_of_mem_entriesDirs p entries d hd'
      have hsame := name_eq_of_prefix (prefix_of_mem_dirs (p ++ [name]) n d hd) hbelow
      exact hname (hsame ▸ hname')

end

mutual

/-- No name in the tree at a path is `.` or `..`. -/
theorem proper_treeAt (dir p : Path) (name : String) (n : Node) (hordered : Ordered n)
    (hname : name ≠ "." ∧ name ≠ "..") :
    ∀ s ∈ (treeAt o gone p n).spots dir name, s.name ≠ "." ∧ s.name ≠ ".." := by
  intro s hs
  cases n with
  | dir readable entries =>
    cases readable with
    | true =>
      rcases List.mem_append.mp hs with hs | hs
      · exact proper_entriesAt p entries hordered.2.2 hordered.2.1 s hs
      · exact (List.mem_singleton.mp hs) ▸ hname
    | false => exact (List.mem_singleton.mp hs) ▸ hname
  | file => exact (List.mem_singleton.mp hs) ▸ hname
  | symlink => exact (List.mem_singleton.mp hs) ▸ hname
  | other => exact (List.mem_singleton.mp hs) ▸ hname

/-- No name below a directory is `.` or `..`. -/
theorem proper_entriesAt (p : Path) (entries : List (String × Node))
    (hordered : EntriesOrdered entries) (hnames : ∀ e ∈ entries, e.1 ≠ "." ∧ e.1 ≠ "..") :
    ∀ s ∈ entriesSpots p (entriesAt o gone p entries), s.name ≠ "." ∧ s.name ≠ ".." := by
  intro s hs
  cases entries with
  | nil => cases hs
  | cons e entries =>
    obtain ⟨name, n⟩ := e
    have hrest := proper_entriesAt p entries hordered.2 fun e he =>
      hnames e (List.mem_cons_of_mem _ he)
    by_cases hgone : p ++ [name] ∈ gone
    · rw [entriesAt, if_pos hgone] at hs
      exact hrest s hs
    · rw [entriesAt, if_neg hgone] at hs
      rcases List.mem_append.mp hs with hs | hs
      · exact proper_treeAt p (p ++ [name]) name n hordered.1 (hnames _ List.mem_cons_self) s hs
      · exact hrest s hs

end

lemma treeBelow_layout {p : Path} {entries : List (String × Node)}
    (hp : present tree gone p = some (.dir true entries)) (hordered : Ordered (.dir true entries)) :
    TreeBelow (fileSystemOf tree o gone) p (o.stat p) (entriesAt o gone p entries) where
  holds := ⟨p.dropLast, holds_treeAt p _ hp hordered⟩
  apart := nodup_dirs_treeAt p (.dir true entries) hordered
  proper := proper_entriesAt p entries hordered.2.2 hordered.2.1

end Holds

/-! ## The recursion on a layout -/

section Agreement

variable {tree : Node} {o : Observation} {gone : List Path} {dev depth freed : Nat}
  {g : List (FileSpot Path)}

/-- The path of a name. -/
def spotPath (s : FileSpot Path) : Path := s.dir ++ [s.name]

/-- What a removal on a layout has done after some names were unlinked. -/
def progressOf (gone : List Path) (freed : Nat) (g : List (FileSpot Path)) : Progress :=
  ⟨(g.map spotPath).reverse ++ gone, g.foldl addFreed freed⟩

/-- What it has done and what stopped it. -/
def resultOf (gone : List Path) (freed : Nat) (r : Deletion Path) : Progress × Option Refusal :=
  (progressOf gone freed r.1,
    match r.2 with
    | .ok _ => none
    | .error e => some e)

lemma progressOf_append (s : FileSpot Path) : progressOf gone freed (g ++ [s]) =
    ⟨spotPath s :: (progressOf gone freed g).gone, addFreed (progressOf gone freed g).freed s⟩ := by
  simp only [progressOf, List.map_append, List.map_singleton, List.reverse_append,
    List.reverse_singleton, List.cons_append, List.nil_append, List.foldl_append,
    List.foldl_cons, List.foldl_nil]

/-- The path of a name that is neither unlinked nor deleted is not among the deleted ones. -/
lemma notMem_progressOf {s : FileSpot Path} (hout : spotPath s ∉ gone)
    (hfresh : s.place ∉ g.map Spot.place) : spotPath s ∉ (progressOf gone freed g).gone := by
  intro hmem
  rcases List.mem_append.mp hmem with hmem | hmem
  · obtain ⟨s', hs', hpath⟩ := List.mem_map.mp (List.mem_reverse.mp hmem)
    obtain ⟨hdir, hname⟩ := List.append_inj' hpath rfl
    refine hfresh (List.mem_map.mpr ⟨s', hs', ?_⟩)
    rw [Spot.place, Spot.place, hdir, List.singleton_inj.mp hname]
  · exact hout hmem

/-- A name is unlinked on the layout as in the file system. -/
lemma unlinkAt_layout {s : FileSpot Path} {bytes : Nat}
    (hbytes : ((progressOf gone freed g).freed + bytes) % 2 ^ 64 =
      addFreed (progressOf gone freed g).freed s) :
    Storage.unlinkAt o (spotPath s) bytes (progressOf gone freed g) =
      resultOf gone freed (andThen
        (g, fault (faultsOf tree o) g.length (.unlinkAt s.dir s.name)) fun g =>
          (g ++ [s], .ok ())) := by
  have hfails : faultsOf tree o g.length (.unlinkAt s.dir s.name) = o.fails (spotPath s) := rfl
  unfold Storage.unlinkAt fault
  rw [hfails]
  cases o.fails (spotPath s) with
  | some e => rfl
  | none =>
    dsimp only [andThen]
    rw [resultOf, progressOf_append, ← hbytes]

lemma leaveCalls_layout (k : Nat) (dir : Path) (name : String) (h : Path) :
    leaveCalls (faultsOf tree o) k dir name h =
      fault (faultsOf tree o) k (.unlinkAt dir name) := by
  simp only [leaveCalls, fault, faultsOf, if_true, ok_bind]

/-- A directory is left on the layout as in the file system. -/
lemma thenUnlink_layout {s : FileSpot Path} {r : Deletion Path} (h : Path)
    (hdir : ∀ x, addFreed x s = x) (hfreed : freed < 2 ^ 64) :
    thenUnlink o (spotPath s) (resultOf gone freed r) =
      resultOf gone freed (andThen r fun g =>
        andThen (g, leaveCalls (faultsOf tree o) g.length s.dir s.name h) fun g =>
          (g ++ [s], .ok ())) := by
  obtain ⟨g, result⟩ := r
  cases result with
  | error e => rfl
  | ok u =>
    have hlt : (progressOf gone freed g).freed < 2 ^ 64 := by
      rw [progressOf, foldl_addFreed hfreed]
      exact Nat.mod_lt _ (Nat.two_pow_pos 64)
    change Storage.unlinkAt o (spotPath s) 0 (progressOf gone freed g) = resultOf gone freed
      (andThen (g, leaveCalls (faultsOf tree o) g.length s.dir s.name h) _)
    rw [leaveCalls_layout]
    exact unlinkAt_layout ((Nat.mod_eq_of_lt hlt).trans (hdir _).symm)

/-- The removal of an entry that is no directory is the one of its tree. -/
lemma leaf_layout {dir : Path} {name : String} {info : LeafInfo}
    (hstat : info.stat = o.stat (dir ++ [name])) :
    (if (o.stat (dir ++ [name])).dev ≠ dev then
        (progressOf gone freed g, some (refuse "crosses onto another filesystem"))
      else
        Storage.unlinkAt o (dir ++ [name]) (diskBytes (o.stat (dir ++ [name])))
          (progressOf gone freed g)) =
      resultOf gone freed (deleteEntry (faultsOf tree o) dev depth dir name
        (.leaf (dir ++ [name]) info) g) := by
  rw [deleteEntry, ← hstat]
  by_cases hdev : info.stat.dev = dev
  · have hcalls : unlinkCalls (faultsOf tree o) dev g.length dir name info =
        fault (faultsOf tree o) g.length (.unlinkAt dir name) := by
      simp only [unlinkCalls, ensure_of_true (decide_eq_true hdev), ok_bind]
      rfl
    have hbytes : ((progressOf gone freed g).freed + diskBytes info.stat) % 2 ^ 64 =
        addFreed (progressOf gone freed g).freed ⟨dir, name, .leaf (dir ++ [name]) info⟩ := rfl
    rw [if_neg (not_not.mpr hdev), hcalls]
    exact unlinkAt_layout hbytes
  · have hcalls : unlinkCalls (faultsOf tree o) dev g.length dir name info =
        .error (refuse "crosses onto another filesystem") := by
      simp only [unlinkCalls, ensure, decide_eq_false hdev]
      rfl
    rw [if_pos hdev, hcalls]
    rfl

/-- The calls before the entries of a directory are removed: it can be refused, and only opening it
can fail. -/
lemma enterCalls_layout (k : Nat) (dir : Path) (name : String) (h : Path) (stat : Stat) :
    enterCalls (faultsOf tree o) dev depth k dir name h stat = (do
      ensure (stat.dev = dev) (refuse "crosses onto another filesystem")
      ensure (depth < maxDepth) (refuse "directory tree is too deep")
      fault (faultsOf tree o) k (.openDir dir name)) := by
  have hstat : fault (faultsOf tree o) k (.statAt dir name) = .ok () := rfl
  have hid : fault (faultsOf tree o) k (.idFd h) = .ok () := rfl
  have hlist : fault (faultsOf tree o) k (.list h) = .ok () := rfl
  have hlast (x : Except Refusal Unit) : (do x; .ok ()) = x := by cases x <;> rfl
  simp only [enterCalls, hstat, hid, hlist, ok_bind, hlast]

/-- The removal of a directory is the one of its tree, when that of its entries is. -/
lemma dir_layout {dir : Path} {name : String} {readable : Bool} {entries : List (String × Node)}
    {below : List (String × FileTree Path)} {removed : Progress × Option Refusal}
    (hfind : tree.find (dir ++ [name]) = some (.dir readable entries)) (hname : name ≠ "..")
    (hfreed : freed < 2 ^ 64)
    (hbelow : readable = true → removed = resultOf gone freed
      (deleteEntries (faultsOf tree o) dev (depth + 1) (dir ++ [name]) below g)) :
    (if (o.stat (dir ++ [name])).dev ≠ dev then
        (progressOf gone freed g, some (refuse "crosses onto another filesystem"))
      else if maxDepth ≤ depth then
        (progressOf gone freed g, some (refuse "directory tree is too deep"))
      else if !readable then
        (progressOf gone freed g, some (.failed, "Permission denied (os error 13)"))
      else thenUnlink o (dir ++ [name]) removed) =
      resultOf gone freed (deleteEntry (faultsOf tree o) dev depth dir name
        (.dir (dir ++ [name]) (o.stat (dir ++ [name])) below) g) := by
  rw [deleteEntry, enterCalls_layout]
  by_cases hdev : (o.stat (dir ++ [name])).dev = dev
  · rw [if_neg (not_not.mpr hdev), ensure_of_true (decide_eq_true hdev), ok_bind]
    rcases Nat.lt_or_ge depth maxDepth with hdepth | hdepth
    · rw [if_neg (Nat.not_le.mpr hdepth), ensure_of_true (decide_eq_true hdepth), ok_bind]
      cases readable with
      | true =>
        have hopen : fault (faultsOf tree o) g.length (.openDir dir name) = .ok () := by
          simp only [fault, faultsOf, hfind, ite_self]
        have hkeeps : ∀ x, addFreed x
            ⟨dir, name, .dir (dir ++ [name]) (o.stat (dir ++ [name])) below⟩ = x := fun _ => rfl
        rw [hopen, if_neg (by decide), hbelow rfl]
        exact thenUnlink_layout (dir ++ [name]) hkeeps hfreed
      | false =>
        have hclosed : fault (faultsOf tree o) g.length (.openDir dir name) =
            .error (io "Permission denied (os error 13)") := by
          simp only [fault, faultsOf, hfind, if_neg hname]
        rw [hclosed, if_pos (by decide)]
        rfl
    · rw [if_pos hdepth, ensure, if_neg (by simpa using hdepth)]
      rfl
  · rw [if_pos hdev, ensure, if_neg (by simpa using hdev)]
    rfl

mutual

/-- **One entry.**  Its removal on the layout is the one of its tree. -/
theorem removeEntry_layout (dev depth : Nat) {dir : Path} {name : String} (n : Node)
    {g : List (FileSpot Path)} (hfreed : freed < 2 ^ 64)
    (hfind : tree.find (dir ++ [name]) = some n) (hout : dir ++ [name] ∉ gone)
    (hname : name ≠ "..") (hordered : Ordered n)
    (hdistinct : ((g ++ (treeAt o gone (dir ++ [name]) n).spots dir name).map Spot.place).Nodup) :
    removeEntry o dev depth (dir ++ [name]) n (progressOf gone freed g) =
      resultOf gone freed (deleteEntry (faultsOf tree o) dev depth dir name
        (treeAt o gone (dir ++ [name]) n) g) := by
  have hown : ⟨dir, name, treeAt o gone (dir ++ [name]) n⟩ ∈
      (treeAt o gone (dir ++ [name]) n).spots dir name :=
    entriesSpots_singleton dir name _ ▸ mem_entriesSpots (List.mem_singleton_self _) dir
  have hfresh : dir ++ [name] ∉ (progressOf gone freed g).gone := by
    rw [List.map_append] at hdistinct
    exact notMem_progressOf hout fun hmem =>
      (List.nodup_append.mp hdistinct).2.2 _ hmem _ (List.mem_map_of_mem hown) rfl
  rw [removeEntry.eq_def, if_neg hfresh]
  cases n with
  | dir readable entries =>
    cases readable with
    | true =>
      refine dir_layout hfind hname hfreed fun _ => ?_
      refine removeEntries_layout dev (depth + 1) entries hfreed (find_of_mem hfind hordered)
        hordered.2.1 hordered.2.2 (hdistinct.sublist ?_)
      exact ((List.sublist_append_left _ _).append_left g).map Spot.place
    | false => exact dir_layout hfind hname hfreed nofun
  | file => exact leaf_layout rfl
  | symlink => exact leaf_layout rfl
  | other => exact leaf_layout rfl

/-- **The entries of a directory.**  Their removal on the layout is the one of their trees. -/
theorem removeEntries_layout (dev depth : Nat) {p : Path} (entries : List (String × Node))
    {g : List (FileSpot Path)} (hfreed : freed < 2 ^ 64)
    (hfind : ∀ e ∈ entries, tree.find (p ++ [e.1]) = some e.2)
    (hnames : ∀ e ∈ entries, e.1 ≠ "." ∧ e.1 ≠ "..") (hordered : EntriesOrdered entries)
    (hdistinct : ((g ++ entriesSpots p (entriesAt o gone p entries)).map Spot.place).Nodup) :
    removeEntries o dev depth p entries (progressOf gone freed g) =
      resultOf gone freed (deleteEntries (faultsOf tree o) dev depth p
        (entriesAt o gone p entries) g) := by
  cases entries with
  | nil => rfl
  | cons e entries =>
    obtain ⟨name, n⟩ := e
    have hrest {g : List (FileSpot Path)} := removeEntries_layout dev depth entries (g := g) hfreed
      (fun e he => hfind e (List.mem_cons_of_mem _ he))
      (fun e he => hnames e (List.mem_cons_of_mem _ he)) hordered.2
    rw [removeEntries]
    by_cases hgone : p ++ [name] ∈ gone
    · have hskip : removeEntry o dev depth (p ++ [name]) n (progressOf gone freed g) =
          (progressOf gone freed g, none) := by
        have hmem : p ++ [name] ∈ (progressOf gone freed g).gone := List.mem_append_right _ hgone
        rw [removeEntry.eq_def, if_pos hmem]
      rw [entriesAt, if_pos hgone] at hdistinct ⊢
      rw [hskip]
      exact hrest hdistinct
    · rw [entriesAt, if_neg hgone] at hdistinct ⊢
      rw [entriesSpots, ← List.append_assoc] at hdistinct
      have hfirst := removeEntry_layout dev depth n hfreed (hfind _ List.mem_cons_self) hgone
        (hnames _ List.mem_cons_self).2 hordered.1
        (hdistinct.sublist ((List.sublist_append_left _ _).map Spot.place))
      have hall := (deletes_entry (faultsOf tree o) dev depth p name
        (treeAt o gone (p ++ [name]) n) g).all
      rw [hfirst, deleteEntries]
      generalize deleteEntry (faultsOf tree o) dev depth p name (treeAt o gone (p ++ [name]) n) g =
        r at hall
      obtain ⟨g', result⟩ := r
      cases result with
      | error e => rfl
      | ok u =>
        have hg' : g' = g ++ (treeAt o gone (p ++ [name]) n).spots p name := hall rfl
        subst hg'
        exact hrest hdistinct

end

/-- **The removal on the layout is the loop.**  For an open directory of a layout `remove_tree`
ends, it unlinks the names that `removeEntries` deletes the paths of, reports the bytes that it
counts, and is stopped by what stops it. -/
theorem removeTree_layout {p : Path} {entries : List (String × Node)}
    (hp : present tree gone p = some (.dir true entries)) (hordered : Ordered (.dir true entries))
    (hfreed : freed < 2 ^ 64) (dev : Nat) :
    ∃ r : Deletion Path, removeEntries o dev 0 p entries ⟨gone, freed⟩ = resultOf gone freed r ∧
      ∃ n, ∀ fuel, n ≤ fuel →
        removeTree (faultsOf tree o) fuel ⟨fileSystemOf tree o gone, 0⟩ p
            (idOf o p (.dir true entries)) dev freed =
          some (diskAfter (fileSystemOf tree o gone) r.1, (resultOf gone freed r).1.freed,
            r.2) := by
  have hbelow : TreeBelow (fileSystemOf tree o gone) p (o.stat p) (entriesAt o gone p entries) :=
    treeBelow_layout hp hordered
  have hdistinct : (([] ++ entriesSpots p (entriesAt o gone p entries)).map Spot.place).Nodup :=
    hbelow.nodup
  refine ⟨deleteBelow (faultsOf tree o) dev p (entriesAt o gone p entries), ?_,
    removeTree_ends hbelow (faultsOf tree o) dev freed⟩
  exact removeEntries_layout dev 0 entries hfreed
    (find_of_mem (present_eq_some.mp hp).2 hordered) hordered.2.1 hordered.2.2 hdistinct

/-- Every file takes a block, on one device. -/
def oneDevice : Observation := ⟨fun _ => ⟨1, 0, 0, 1, 0⟩, fun _ => false, fun _ => none⟩

/-- The removal of a directory with a file. -/
theorem removeTree_layout_of_file :
    let tree : Node := .dir true [("a", .file)]
    ∃ r : Deletion Path,
      removeEntries oneDevice 1 0 [] [("a", .file)] ⟨[], 0⟩ = resultOf [] 0 r ∧
        ∃ n, ∀ fuel, n ≤ fuel →
          removeTree (faultsOf tree oneDevice) fuel ⟨fileSystemOf tree oneDevice [], 0⟩ []
              (idOf oneDevice [] tree) 1 0 =
            some (diskAfter (fileSystemOf tree oneDevice []) r.1, (resultOf [] 0 r).1.freed, r.2) :=
  removeTree_layout rfl (by simp [Ordered, EntriesOrdered]) (by decide) 1

end Agreement

end Orca.Storage.FdRemove
