import Mathlib.Data.String.Basic
import Orca.Library.Check
import Orca.Library.Inodes
import Orca.Library.Loop
import Orca.Storage.Eviction

/-!
# Removing a tree with a stack

`remove_tree` empties a directory with one loop: it holds a single directory handle, keeps the names
that are still to be removed in the directories above on a stack, and goes back up through `..` with
a check of the identity of what it finds there.  Here the loop runs on a file system of inodes,
where any system call may fail (`Faults`).

Beside it stands the removal as a recursion over the tree (`deleteEntries`), which makes the same
calls and refuses the same things.  The loop does what the recursion does (`removeTree_ends`), and
the recursion unlinks a beginning of the names of the tree, all of them unless something stops it
(`deletes_entries`).
-/

namespace Orca.Storage.FdRemove

open Check Inodes

/-! ## The file system -/

/-- What `stat` reports of an inode that is no directory. -/
structure LeafInfo where
  stat : Stat
  fileType : FileType
  notDir : fileType ≠ .dir

lemma file_ne_dir : FileType.file ≠ .dir := nofun

lemma symlink_ne_dir : FileType.symlink ≠ .dir := nofun

lemma other_ne_dir : FileType.other ≠ .dir := nofun

/-- A file system.  The names of a directory do not include `.` and `..`. -/
abbrev FileSystem (Handle : Type) := Inodes.Table Handle String LeafInfo Stat

/-- A tree in a file system. -/
abbrev FileTree (Handle : Type) := Inodes.Tree Handle String LeafInfo Stat

/-- A name in a file system. -/
abbrev FileSpot (Handle : Type) := Inodes.Spot Handle String LeafInfo Stat

/-- A call of the system on an open directory. -/
inductive Call (Handle : Type) where
  | list (dir : Handle)
  | statAt (dir : Handle) (name : String)
  | openDir (dir : Handle) (name : String)
  | idFd (dir : Handle)
  | unlinkAt (dir : Handle) (name : String)

/-- The errors of the system: for a call after so many names were unlinked. -/
abbrev Faults (Handle : Type) := Nat → Call Handle → Option String

/-- The file system in the course of a removal. -/
structure Disk (Handle : Type) where
  inodes : FileSystem Handle
  unlinks : Nat

section Calls

variable {Handle : Type} {α : Type}

/-- The status of an inode. -/
def inodeStat : Inode Handle String LeafInfo Stat → Stat
  | .leaf info => info.stat
  | .dir stat _ _ => stat

/-- The identity of a directory. -/
def dirId (stat : Stat) : FileId := ⟨stat.dev, stat.ino, .dir, stat.birth⟩

/-- `id`: the identity of an inode. -/
def inodeId : Inode Handle String LeafInfo Stat → FileId
  | .leaf info => ⟨info.stat.dev, info.stat.ino, info.fileType, info.stat.birth⟩
  | .dir stat _ _ => dirId stat

/-- `io`: a removal that the system stops. -/
def io (e : String) : Refusal := (.failed, e)

/-- `ENOENT`. -/
def noEntry : String := "No such file or directory (os error 2)"

/-- `ENOTDIR`. -/
def notDirectory : String := "Not a directory (os error 20)"

/-- `EISDIR`. -/
def isDirectory : String := "Is a directory (os error 21)"

/-- `ENOTEMPTY`. -/
def notEmpty : String := "Directory not empty (os error 39)"

/-- The error of a call, if it fails. -/
def fault (fails : Faults Handle) (unlinks : Nat) (c : Call Handle) : Except Refusal Unit :=
  match fails unlinks c with
  | some e => .error (io e)
  | none => .ok ()

/-- A call has its result unless it fails. -/
def attempt (fails : Faults Handle) (d : Disk Handle) (c : Call Handle) (x : Except String α) :
    Except Refusal α := do
  fault fails d.unlinks c
  x.mapError io

/-- What a name in an open directory stands for. -/
def resolve (d : Disk Handle) (dir : Handle) (name : String) : Except String Handle :=
  match d.inodes dir with
  | some (.dir _ parent entries) =>
    if name = ".." then .ok parent else required (entries.lookup name) noEntry
  | _ => .error notDirectory

/-- The inode of a handle. -/
def inodeOf (d : Disk Handle) (h : Handle) : Except String (Inode Handle String LeafInfo Stat) :=
  required (d.inodes h) noEntry

/-- `list`: the names in a directory, in order.  The code keeps them in reverse and takes the next
one from the end. -/
def list (fails : Faults Handle) (d : Disk Handle) (dir : Handle) :
    Except Refusal (List String) :=
  attempt fails d (.list dir) <|
    match d.inodes dir with
    | some (.dir _ _ entries) =>
      .ok ((("." :: ".." :: entries.map Prod.fst).filter fun n =>
        n != "." && n != "..").insertionSort (· ≤ ·))
    | _ => .error notDirectory

/-- `stat_at`: the status and the identity of what a name stands for. -/
def statAt (fails : Faults Handle) (d : Disk Handle) (dir : Handle) (name : String) :
    Except Refusal (Stat × FileId) :=
  attempt fails d (.statAt dir name) do
    let inode ← inodeOf d (← resolve d dir name)
    .ok (inodeStat inode, inodeId inode)

/-- `open_dir`: the directory that a name stands for. -/
def openDir (fails : Faults Handle) (d : Disk Handle) (dir : Handle) (name : String) :
    Except Refusal Handle :=
  attempt fails d (.openDir dir name) do
    let h ← resolve d dir name
    match ← inodeOf d h with
    | .dir _ _ _ => .ok h
    | .leaf _ => .error notDirectory

/-- `id_fd`: the identity of an open directory. -/
def idFd (fails : Faults Handle) (d : Disk Handle) (dir : Handle) : Except Refusal FileId :=
  attempt fails d (.idFd dir) do
    .ok (inodeId (← inodeOf d dir))

/-- `unlinkat`: a name is unlinked.  With `REMOVEDIR` it must be one of an empty directory,
otherwise of anything but a directory. -/
def unlinkAt [DecidableEq Handle] (fails : Faults Handle) (d : Disk Handle) (dir : Handle)
    (name : String) (removeDir : Bool) : Except Refusal (Disk Handle) :=
  attempt fails d (.unlinkAt dir name) do
    match ← inodeOf d (← resolve d dir name), removeDir with
    | .leaf _, false | .dir _ _ [], true =>
      .ok ⟨without d.inodes [(dir, name)], d.unlinks + 1⟩
    | .leaf _, true => .error notDirectory
    | .dir _ _ _, false => .error isDirectory
    | .dir _ _ (_ :: _), true => .error notEmpty

end Calls

/-! ## The loop -/

/-- `Frame`: a directory on the way down. -/
structure Frame where
  /-- Its name in the directory above. -/
  name : String
  id : FileId
  /-- The names in it that are still to be removed. -/
  pending : List String

/-- Where the loop is. -/
structure Position (Handle : Type) where
  cur : Handle
  /-- The directories on the way down to it, the deepest one first. -/
  stack : List Frame
  /-- The names that are still to be removed in the directory of the item. -/
  top : List String

/-- The state of the loop. -/
structure State (Handle : Type) where
  disk : Disk Handle
  freed : Nat
  pos : Position Handle

section Turns

variable {Handle : Type}

namespace Position

/-- The names that are still to be removed in the open directory. -/
def pending (pos : Position Handle) : List String :=
  match pos.stack with
  | f :: _ => f.pending
  | [] => pos.top

/-- In the open directory other names are still to be removed. -/
def setPending (pos : Position Handle) (names : List String) : Position Handle :=
  match pos.stack with
  | f :: stack => { pos with stack := { f with pending := names } :: stack }
  | [] => { pos with top := names }

/-- One directory further down. -/
def enter (pos : Position Handle) (child : Handle) (f : Frame) : Position Handle :=
  ⟨child, f :: pos.stack, pos.top⟩

end Position

/-- The identity that the open directory must have. -/
def expectedId (unitId : FileId) (stack : List Frame) : FileId :=
  (stack.head?.map Frame.id).getD unitId

variable [DecidableEq Handle]

/-- A turn of the loop in `remove_tree`. -/
def turn (fails : Faults Handle) (unitId : FileId) (dev : Nat) (s : State Handle) :
    Except Refusal (Option (State Handle)) :=
  match s.pos.pending with
  | [] =>
    match s.pos.stack with
    | [] => .ok none
    | done :: stack => do
      let parent ← openDir fails s.disk s.pos.cur ".."
      let id ← idFd fails s.disk parent
      ensure (id = expectedId unitId stack) (refuse "parent changed during removal")
      let disk ← unlinkAt fails s.disk parent done.name true
      .ok (some { s with disk := disk, pos := ⟨parent, stack, s.pos.top⟩ })
  | name :: rest => do
    let pos := s.pos.setPending rest
    let (st, id) ← statAt fails s.disk pos.cur name
    ensure (id.dev = dev) (refuse "crosses onto another filesystem")
    if id.fileType ≠ .dir then do
      let disk ← unlinkAt fails s.disk pos.cur name false
      .ok (some ⟨disk, (s.freed + diskBytes st) % 2 ^ 64, pos⟩)
    else do
      ensure (pos.stack.length < maxDepth) (refuse "directory tree is too deep")
      let child ← openDir fails s.disk pos.cur name
      let childId ← idFd fails s.disk child
      ensure (childId = id) (refuse "directory changed during removal")
      let pending ← list fails s.disk child
      .ok (some { s with pos := pos.enter child ⟨name, id, pending⟩ })

/-- `remove_tree` with at most so many turns: what it leaves of the file system, the bytes it
reports and what stopped it. -/
def removeTree (fails : Faults Handle) (fuel : Nat) (d : Disk Handle) (unit : Handle)
    (unitId : FileId) (dev freed : Nat) : Option (Disk Handle × Nat × Except Refusal Unit) :=
  match list fails d unit with
  | .error e => some (d, freed, .error e)
  | .ok top =>
    (Loop.run (turn fails unitId dev) fuel ⟨d, freed, ⟨unit, [], top⟩⟩).map fun r =>
      (r.1.disk, r.1.freed, r.2)

end Turns

/-! ## The recursion -/

section Recursion

variable {Handle : Type}

/-- What a removal has unlinked and what stopped it. -/
abbrev Deletion (Handle : Type) := List (FileSpot Handle) × Except Refusal Unit

/-- A removal goes on when nothing stopped it. -/
def andThen (r : Deletion Handle) (next : List (FileSpot Handle) → Deletion Handle) :
    Deletion Handle :=
  match r with
  | (gone, .error e) => (gone, .error e)
  | (gone, .ok ()) => next gone

/-- The calls for an entry that is no directory. -/
def unlinkCalls (fails : Faults Handle) (dev unlinks : Nat) (dir : Handle) (name : String)
    (info : LeafInfo) : Except Refusal Unit := do
  fault fails unlinks (.statAt dir name)
  ensure (info.stat.dev = dev) (refuse "crosses onto another filesystem")
  fault fails unlinks (.unlinkAt dir name)

/-- The calls before the entries of a directory are removed. -/
def enterCalls (fails : Faults Handle) (dev depth unlinks : Nat) (dir : Handle) (name : String)
    (h : Handle) (stat : Stat) : Except Refusal Unit := do
  fault fails unlinks (.statAt dir name)
  ensure (stat.dev = dev) (refuse "crosses onto another filesystem")
  ensure (depth < maxDepth) (refuse "directory tree is too deep")
  fault fails unlinks (.openDir dir name)
  fault fails unlinks (.idFd h)
  fault fails unlinks (.list h)

/-- The calls after the entries of a directory were removed. -/
def leaveCalls (fails : Faults Handle) (unlinks : Nat) (dir : Handle) (name : String)
    (h : Handle) : Except Refusal Unit := do
  fault fails unlinks (.openDir h "..")
  fault fails unlinks (.idFd dir)
  fault fails unlinks (.unlinkAt dir name)

mutual

/-- An entry is removed, with what is below it. -/
def deleteEntry (fails : Faults Handle) (dev depth : Nat) (dir : Handle) (name : String) :
    FileTree Handle → List (FileSpot Handle) → Deletion Handle
  | .leaf h info, gone =>
    andThen (gone, unlinkCalls fails dev gone.length dir name info) fun gone =>
      (gone ++ [⟨dir, name, .leaf h info⟩], .ok ())
  | .dir h stat entries, gone =>
    andThen (gone, enterCalls fails dev depth gone.length dir name h stat) fun gone =>
      andThen (deleteEntries fails dev (depth + 1) h entries gone) fun gone =>
        andThen (gone, leaveCalls fails gone.length dir name h) fun gone =>
          (gone ++ [⟨dir, name, .dir h stat entries⟩], .ok ())

/-- The entries of a directory are removed, one after the other. -/
def deleteEntries (fails : Faults Handle) (dev depth : Nat) (dir : Handle) :
    List (String × FileTree Handle) → List (FileSpot Handle) → Deletion Handle
  | [], gone => (gone, .ok ())
  | (name, t) :: entries, gone =>
    andThen (deleteEntry fails dev depth dir name t gone) fun gone =>
      deleteEntries fails dev depth dir entries gone

end

/-- Everything below a directory is removed. -/
def deleteBelow (fails : Faults Handle) (dev : Nat) (unit : Handle)
    (entries : List (String × FileTree Handle)) : Deletion Handle :=
  andThen ([], fault fails 0 (.list unit)) fun gone => deleteEntries fails dev 0 unit entries gone

end Recursion

/-! ## What the calls report -/

section Reports

variable {Handle : Type} {fails : Faults Handle} {d : Disk Handle} {dir c : Handle} {name : String}
  {stat : Stat} {parent : Handle} {es : List (String × Handle)}

lemma inodeOf_eq {inode : Inode Handle String LeafInfo Stat} (hc : d.inodes c = some inode) :
    inodeOf d c = .ok inode := by
  rw [inodeOf, hc]
  rfl

lemma resolve_entry (hdir : d.inodes dir = some (.dir stat parent es))
    (hname : es.lookup name = some c) (hproper : name ≠ "..") : resolve d dir name = .ok c := by
  simp only [resolve, hdir, if_neg hproper, hname]
  rfl

/-- The name `..` stands for the directory above. -/
lemma resolve_parent (hdir : d.inodes dir = some (.dir stat parent es)) :
    resolve d dir ".." = .ok parent := by
  simp only [resolve, hdir]
  rfl

lemma statAt_eq {inode : Inode Handle String LeafInfo Stat} (hname : resolve d dir name = .ok c)
    (hc : d.inodes c = some inode) : statAt fails d dir name =
      (do fault fails d.unlinks (.statAt dir name); .ok (inodeStat inode, inodeId inode)) := by
  simp only [statAt, attempt, hname, inodeOf_eq hc, bind, Except.bind]
  rfl

lemma openDir_eq (hname : resolve d dir name = .ok c)
    (hc : d.inodes c = some (.dir stat parent es)) :
    openDir fails d dir name = (do fault fails d.unlinks (.openDir dir name); .ok c) := by
  simp only [openDir, attempt, hname, inodeOf_eq hc, bind, Except.bind]
  rfl

lemma idFd_eq (hc : d.inodes c = some (.dir stat parent es)) :
    idFd fails d c = (do fault fails d.unlinks (.idFd c); .ok (dirId stat)) := by
  simp only [idFd, attempt, inodeOf_eq hc, bind, Except.bind]
  rfl

/-- The names in a directory are listed in order. -/
lemma list_eq {names : List String} (hc : d.inodes c = some (.dir stat parent es))
    (hperm : (es.map Prod.fst).Perm names) (hsorted : names.Pairwise (· < ·))
    (hproper : ∀ n ∈ names, n ≠ "." ∧ n ≠ "..") :
    list fails d c = (do fault fails d.unlinks (.list c); .ok names) := by
  have hfilter : (("." :: ".." :: es.map Prod.fst).filter fun n => n != "." && n != "..") =
      es.map Prod.fst := by
    refine (List.filter_cons_of_neg (by decide)).trans
      ((List.filter_cons_of_neg (by decide)).trans (List.filter_eq_self.mpr fun n hn => ?_))
    obtain ⟨hdot, hdots⟩ := hproper n (hperm.mem_iff.mp hn)
    rw [bne_iff_ne.mpr hdot, bne_iff_ne.mpr hdots, Bool.and_true]
  have hlist : (es.map Prod.fst).insertionSort (· ≤ ·) = names :=
    ((List.perm_insertionSort _ _).trans hperm).eq_of_pairwise' (List.pairwise_insertionSort _ _)
      (hsorted.imp fun h => le_of_lt h)
  simp only [list, attempt, hc, hfilter, hlist]
  rfl

variable [DecidableEq Handle]

lemma unlinkAt_leaf {info : LeafInfo} (hname : resolve d dir name = .ok c)
    (hc : d.inodes c = some (.leaf info)) : unlinkAt fails d dir name false =
      (do fault fails d.unlinks (.unlinkAt dir name)
          .ok ⟨without d.inodes [(dir, name)], d.unlinks + 1⟩) := by
  simp only [unlinkAt, attempt, hname, inodeOf_eq hc, bind, Except.bind]
  rfl

lemma unlinkAt_dir (hname : resolve d dir name = .ok c)
    (hc : d.inodes c = some (.dir stat parent [])) : unlinkAt fails d dir name true =
      (do fault fails d.unlinks (.unlinkAt dir name)
          .ok ⟨without d.inodes [(dir, name)], d.unlinks + 1⟩) := by
  simp only [unlinkAt, attempt, hname, inodeOf_eq hc, bind, Except.bind]
  rfl

end Reports

/-! ## Where the loop is -/

namespace Position

variable {Handle : Type} (pos : Position Handle) (names names' : List String)

/-- The names that were set are the ones to be removed. -/
@[simp] lemma pending_setPending : (pos.setPending names).pending = names := by
  obtain ⟨cur, stack, top⟩ := pos
  cases stack <;> rfl

/-- Only the names that were set last count. -/
@[simp] lemma setPending_setPending :
    (pos.setPending names).setPending names' = pos.setPending names' := by
  obtain ⟨cur, stack, top⟩ := pos
  cases stack <;> rfl

/-- The open directory is the same. -/
@[simp] lemma cur_setPending : (pos.setPending names).cur = pos.cur := by
  obtain ⟨cur, stack, top⟩ := pos
  cases stack <;> rfl

/-- The depth is the same. -/
@[simp] lemma length_setPending : (pos.setPending names).stack.length = pos.stack.length := by
  obtain ⟨cur, stack, top⟩ := pos
  cases stack <;> rfl

/-- The identity that is expected is the same. -/
@[simp] lemma expectedId_setPending (unitId : FileId) :
    expectedId unitId (pos.setPending names).stack = expectedId unitId pos.stack := by
  obtain ⟨cur, stack, top⟩ := pos
  cases stack <;> rfl

end Position

/-! ## What the recursion unlinks -/

section Deletes

variable {Handle : Type} {fails : Faults Handle} {dev depth unlinks : Nat} {dir h : Handle}
  {name : String}

/-- The error is the one of a call that failed when so many names were unlinked. -/
def Faulty (fails : Faults Handle) (unlinks : Nat) (e : Refusal) : Prop :=
  ∃ c msg, fails unlinks c = some msg ∧ e = io msg

lemma fault_eq_ok {c : Call Handle} {u : Unit} :
    fault fails unlinks c = .ok u ↔ fails unlinks c = none := by
  unfold fault
  cases fails unlinks c <;> simp

lemma faulty_of_fault {c : Call Handle} {e : Refusal} (h : fault fails unlinks c = .error e) :
    Faulty fails unlinks e := by
  unfold fault at h
  split at h
  · rename_i msg hmsg
    cases h
    exact ⟨c, msg, hmsg, rfl⟩
  · cases h

lemma faulty_of_unlinkCalls {info : LeafInfo} {e : Refusal} (hdev : info.stat.dev = dev)
    (h : unlinkCalls fails dev unlinks dir name info = .error e) : Faulty fails unlinks e := by
  rcases then_error_iff.mp h with h | ⟨-, h⟩
  · exact faulty_of_fault h
  rcases then_error_iff.mp h with h | ⟨-, h⟩
  · exact nomatch (ensure_of_true (decide_eq_true hdev) _).symm.trans h
  · exact faulty_of_fault h

/-- On the device, and where the tree is not too deep, only a fault stops the calls before the
entries of a directory are removed. -/
lemma faulty_of_enterCalls {stat : Stat} {e : Refusal} (hdev : stat.dev = dev)
    (hdepth : depth < maxDepth)
    (hcalls : enterCalls fails dev depth unlinks dir name h stat = .error e) :
    Faulty fails unlinks e := by
  rcases then_error_iff.mp hcalls with hcalls | ⟨-, hcalls⟩
  · exact faulty_of_fault hcalls
  rcases then_error_iff.mp hcalls with hcalls | ⟨-, hcalls⟩
  · exact nomatch (ensure_of_true (decide_eq_true hdev) _).symm.trans hcalls
  rcases then_error_iff.mp hcalls with hcalls | ⟨-, hcalls⟩
  · exact nomatch (ensure_of_true (decide_eq_true hdepth) _).symm.trans hcalls
  rcases then_error_iff.mp hcalls with hcalls | ⟨-, hcalls⟩
  · exact faulty_of_fault hcalls
  rcases then_error_iff.mp hcalls with hcalls | ⟨-, hcalls⟩
  · exact faulty_of_fault hcalls
  · exact faulty_of_fault hcalls

lemma faulty_of_leaveCalls {e : Refusal}
    (hcalls : leaveCalls fails unlinks dir name h = .error e) : Faulty fails unlinks e := by
  rcases then_error_iff.mp hcalls with hcalls | ⟨-, hcalls⟩
  · exact faulty_of_fault hcalls
  rcases then_error_iff.mp hcalls with hcalls | ⟨-, hcalls⟩
  · exact faulty_of_fault hcalls
  · exact faulty_of_fault hcalls

/-- What a removal does to some names that it is to unlink, after those in `gone`. -/
structure Deletes (fails : Faults Handle) (clean : Prop) (gone spots : List (FileSpot Handle))
    (r : Deletion Handle) : Prop where
  /-- It unlinks a beginning of them, and all of them unless it is stopped. -/
  part : ∃ done left, spots = done ++ left ∧ r.1 = gone ++ done ∧ (r.2 = .ok () → left = [])
  /-- It unlinks none where this fails. -/
  passed : ∀ i s, gone.length ≤ i → r.1[i]? = some s → fails i (.unlinkAt s.dir s.name) = none
  /-- When nothing in the tree stops it, a fault does. -/
  stopped : clean → ∀ e, r.2 = .error e → Faulty fails r.1.length e

variable {clean clean' : Prop} {gone spots spots' : List (FileSpot Handle)} {r : Deletion Handle}

lemma Deletes.all (hr : Deletes fails clean gone spots r) (hok : r.2 = .ok ()) :
    r.1 = gone ++ spots := by
  obtain ⟨done, left, rfl, hgone, hleft⟩ := hr.part
  rw [hgone, hleft hok, List.append_nil]

lemma Deletes.mono (hr : Deletes fails clean gone spots r) (himp : clean' → clean) :
    Deletes fails clean' gone spots r :=
  ⟨hr.part, hr.passed, fun h => hr.stopped (himp h)⟩

/-- A removal that goes on with another one. -/
lemma Deletes.andThen {next : List (FileSpot Handle) → Deletion Handle}
    (hr : Deletes fails clean gone spots r)
    (hnext : Deletes fails clean (gone ++ spots) spots' (next (gone ++ spots))) :
    Deletes fails clean gone (spots ++ spots') (andThen r next) := by
  obtain ⟨gone', result⟩ := r
  cases result with
  | error e =>
    obtain ⟨done, left, rfl, hgone, -⟩ := hr.part
    exact ⟨⟨done, left ++ spots', List.append_assoc _ _ _, hgone, nofun⟩, hr.passed, hr.stopped⟩
  | ok u =>
    have hgone : gone' = gone ++ spots := hr.all rfl
    subst hgone
    obtain ⟨done, left, rfl, hdone, hleft⟩ := hnext.part
    refine ⟨⟨spots ++ done, left, (List.append_assoc _ _ _).symm, ?_, hleft⟩, fun i s hi hs => ?_,
      hnext.stopped⟩
    · exact hdone.trans (List.append_assoc _ _ _)
    · by_cases hfirst : i < (gone ++ spots).length
      · refine hr.passed i s hi ?_
        have hs : (next (gone ++ spots)).1[i]? = some s := hs
        rwa [hdone, List.getElem?_append_left hfirst] at hs
      · exact hnext.passed i s (Nat.not_lt.mp hfirst) hs

lemma deletes_calls {calls : Except Refusal Unit}
    (hstopped : clean → ∀ e, calls = .error e → Faulty fails gone.length e) :
    Deletes fails clean gone [] (gone, calls) := by
  refine ⟨⟨[], [], rfl, (List.append_nil _).symm, fun _ => rfl⟩, fun i s hi hs => ?_, hstopped⟩
  rw [List.getElem?_eq_none hi] at hs
  cases hs

lemma deletes_after_calls {calls : Except Refusal Unit}
    {next : List (FileSpot Handle) → Deletion Handle}
    (hstopped : clean → ∀ e, calls = .error e → Faulty fails gone.length e)
    (hnext : Deletes fails clean gone spots (next gone)) :
    Deletes fails clean gone spots (andThen (gone, calls) next) := by
  have hcalls := deletes_calls hstopped
  rw [← List.append_nil gone] at hnext
  exact hcalls.andThen hnext

/-- Calls of which the last one unlinks a name. -/
lemma deletes_unlink {calls : Except Refusal Unit} {s : FileSpot Handle}
    (hstopped : clean → ∀ e, calls = .error e → Faulty fails gone.length e)
    (hok : calls = .ok () → fails gone.length (.unlinkAt s.dir s.name) = none) :
    Deletes fails clean gone [s] (andThen (gone, calls) fun gone => (gone ++ [s], .ok ())) := by
  cases calls with
  | error e =>
    refine ⟨⟨[], [s], rfl, (List.append_nil _).symm, nofun⟩, fun i s hi hs => ?_, hstopped⟩
    have hs : gone[i]? = some s := hs
    rw [List.getElem?_eq_none hi] at hs
    cases hs
  | ok u =>
    refine ⟨⟨[s], [], rfl, rfl, fun _ => rfl⟩, fun i s' hi hs => ?_, fun _ _ h => nomatch h⟩
    have hs : (gone ++ [s])[i]? = some s' := hs
    rw [List.getElem?_append_right hi, List.getElem?_singleton] at hs
    split at hs
    · rename_i hlast
      cases hs
      have hi' : i = gone.length := Nat.le_antisymm (Nat.sub_eq_zero_iff_le.mp hlast) hi
      exact hi' ▸ hok rfl
    · cases hs

/-- The status of what is below a name. -/
def treeStat : FileTree Handle → Stat
  | .leaf _ info => info.stat
  | .dir _ stat _ => stat

/-- Nothing in a tree stops its removal: it is on one device and not too deep. -/
def Clean (dev depth : Nat) (spots : List (FileSpot Handle)) (nesting : Nat) : Prop :=
  (∀ s ∈ spots, (treeStat s.tree).dev = dev) ∧ depth + nesting ≤ maxDepth

mutual

/-- **One entry.**  The removal of an entry unlinks a beginning of the names in it. -/
theorem deletes_entry (fails : Faults Handle) (dev depth : Nat) (dir : Handle) (name : String)
    (t : FileTree Handle) (gone : List (FileSpot Handle)) :
    Deletes fails (Clean dev depth (t.spots dir name) t.nesting) gone (t.spots dir name)
      (deleteEntry fails dev depth dir name t gone) := by
  cases t with
  | leaf h info =>
    refine deletes_unlink (fun hclean e => ?_) fun hok => ?_
    · exact faulty_of_unlinkCalls (hclean.1 _ (List.mem_singleton_self _))
    · obtain ⟨-, hok⟩ := then_ok_iff.mp hok
      exact fault_eq_ok.mp (then_ok_iff.mp hok).2
  | dir h stat entries =>
    refine deletes_after_calls (fun hclean e => ?_) ?_
    · refine faulty_of_enterCalls
        (hclean.1 _ (List.mem_append_right _ (List.mem_singleton_self _))) ?_
      have hdepth := hclean.2
      rw [Tree.nesting] at hdepth
      omega
    · have hbelow := deletes_entries fails dev (depth + 1) h entries gone
      refine (hbelow.mono fun hclean => ⟨fun s hs => ?_, ?_⟩).andThen
        (deletes_unlink (fun _ e => faulty_of_leaveCalls) fun hok => ?_)
      · exact hclean.1 s (List.mem_append_left _ hs)
      · have hdepth := hclean.2
        rw [Tree.nesting] at hdepth
        omega
      · obtain ⟨-, hok⟩ := then_ok_iff.mp hok
        exact fault_eq_ok.mp (then_ok_iff.mp hok).2

/-- **The entries of a directory.**  Their removal unlinks a beginning of the names below it. -/
theorem deletes_entries (fails : Faults Handle) (dev depth : Nat) (dir : Handle)
    (entries : List (String × FileTree Handle)) (gone : List (FileSpot Handle)) :
    Deletes fails (Clean dev depth (entriesSpots dir entries) (entriesNesting entries)) gone
      (entriesSpots dir entries) (deleteEntries fails dev depth dir entries gone) := by
  cases entries with
  | nil => exact deletes_calls fun _ _ h => nomatch h
  | cons e entries =>
    obtain ⟨name, t⟩ := e
    have hfirst := deletes_entry fails dev depth dir name t gone
    have hrest := deletes_entries fails dev depth dir entries (gone ++ t.spots dir name)
    refine (hfirst.mono fun hclean => ?_).andThen (hrest.mono fun hclean => ?_)
    · refine ⟨fun s hs => hclean.1 s (List.mem_append_left _ hs), ?_⟩
      exact Nat.le_trans (Nat.add_le_add_left (Nat.le_max_left _ _) depth) hclean.2
    · refine ⟨fun s hs => hclean.1 s (List.mem_append_right _ hs), ?_⟩
      exact Nat.le_trans (Nat.add_le_add_left (Nat.le_max_right _ _) depth) hclean.2

end

end Deletes

/-! ## The loop follows the recursion -/

section Follows

variable {Handle : Type} {fails : Faults Handle} {unitId : FileId} {dev : Nat}
  {fs : FileSystem Handle} {freed : Nat} {gone gone' : List (FileSpot Handle)}
  {pos pos' : Position Handle} {name : String} {rest : List String}

/-- What a removal has to do at the open directory is there to be done. -/
structure Ready (fs : FileSystem Handle) (unitId : FileId) (pos : Position Handle)
    (gone : List (FileSpot Handle)) (entries : List (String × FileTree Handle)) : Prop where
  /-- The open directory has the entries, and the identity that is expected of it. -/
  dir : ∃ stat parent es, fs pos.cur = some (.dir stat parent es) ∧ (es.map Prod.fst).Nodup ∧
    (∀ e ∈ links entries, e ∈ es) ∧ dirId stat = expectedId unitId pos.stack
  holds : EntriesHold fs pos.cur entries
  proper : ∀ s ∈ entriesSpots pos.cur entries, s.name ≠ "." ∧ s.name ≠ ".."
  distinct : ((gone ++ entriesSpots pos.cur entries).map Spot.place).Nodup

lemma Ready.fresh {entries : List (String × FileTree Handle)} (h : Ready fs unitId pos gone entries)
    {s : FileSpot Handle} (hs : s ∈ entriesSpots pos.cur entries) :
    s.place ∉ gone.map Spot.place := by
  have hdistinct := h.distinct
  rw [List.map_append] at hdistinct
  intro hgone
  exact (List.nodup_append.mp hdistinct).2.2 _ hgone _ (List.mem_map_of_mem hs) rfl

lemma Ready.own_fresh {t : FileTree Handle} (h : Ready fs unitId pos gone [(name, t)]) :
    (pos.cur, name) ∉ gone.map Spot.place :=
  h.fresh (mem_entriesSpots (List.mem_singleton_self (name, t)) pos.cur)

/-- The first of the entries that are to be removed. -/
lemma Ready.head {t : FileTree Handle} {entries : List (String × FileTree Handle)}
    (h : Ready fs unitId pos gone ((name, t) :: entries)) :
    Ready fs unitId pos gone [(name, t)] := by
  have hsub : List.Sublist (entriesSpots pos.cur [(name, t)])
      (entriesSpots pos.cur ((name, t) :: entries)) := by
    rw [entriesSpots_singleton]
    exact List.sublist_append_left _ _
  obtain ⟨stat, parent, es, hdir, hnodup, hlinks, hid⟩ := h.dir
  refine ⟨⟨stat, parent, es, hdir, hnodup, fun e he => ?_, hid⟩, ⟨h.holds.1, trivial⟩,
    fun s hs => h.proper s (hsub.subset hs), ?_⟩
  · exact hlinks e ((List.mem_singleton.mp he).symm ▸ List.mem_cons_self)
  · exact h.distinct.sublist ((hsub.append_left gone).map Spot.place)

/-- The other ones, when the first one is unlinked. -/
lemma Ready.tail {t : FileTree Handle} {entries : List (String × FileTree Handle)}
    (h : Ready fs unitId pos gone ((name, t) :: entries)) :
    Ready fs unitId pos (gone ++ t.spots pos.cur name) entries := by
  obtain ⟨stat, parent, es, hdir, hnodup, hlinks, hid⟩ := h.dir
  refine ⟨⟨stat, parent, es, hdir, hnodup, fun e he => hlinks e (List.mem_cons_of_mem _ he), hid⟩,
    h.holds.2, fun s hs => h.proper s (List.mem_append_right _ hs), ?_⟩
  rw [List.append_assoc]
  exact h.distinct

/-- The entries of a directory that was entered. -/
lemma Ready.below {c : Handle} {stat : Stat} {entries : List (String × FileTree Handle)}
    (h : Ready fs unitId pos gone [(name, .dir c stat entries)]) (rest : List String) :
    Ready fs unitId ((pos.setPending rest).enter c ⟨name, dirId stat, []⟩) gone entries := by
  have hsub : List.Sublist (entriesSpots c entries)
      (entriesSpots pos.cur [(name, .dir c stat entries)]) :=
    (List.sublist_append_left _ _).trans (List.sublist_append_left _ _)
  obtain ⟨⟨es, hdir, hperm⟩, hsorted, hbelow⟩ := h.holds.1
  refine ⟨⟨stat, pos.cur, es, hdir, ?_, fun e he => hperm.mem_iff.mpr he, rfl⟩, hbelow,
    fun s hs => h.proper s (hsub.subset hs),
    h.distinct.sublist ((hsub.append_left gone).map Spot.place)⟩
  have hnames := hperm.map Prod.fst
  rw [links, List.map_map] at hnames
  exact hnames.nodup_iff.mpr (nodup_of_pairwise_lt hsorted)

variable [DecidableEq Handle]

/-- The file system after some names were unlinked. -/
def diskAfter (fs : FileSystem Handle) (gone : List (FileSpot Handle)) : Disk Handle :=
  ⟨without fs (gone.map Spot.place), gone.length⟩

/-- The bytes that are reported after a name was unlinked. -/
def addFreed (freed : Nat) (s : FileSpot Handle) : Nat :=
  match s.tree with
  | .leaf _ info => (freed + diskBytes info.stat) % 2 ^ 64
  | .dir _ _ _ => freed

/-- The state of the loop after some names were unlinked. -/
def shown (fs : FileSystem Handle) (freed : Nat) (gone : List (FileSpot Handle))
    (pos : Position Handle) : State Handle :=
  ⟨diskAfter fs gone, gone.foldl addFreed freed, pos⟩

lemma diskAfter_append (s : FileSpot Handle) : diskAfter fs (gone ++ [s]) =
    ⟨without (diskAfter fs gone).inodes [s.place], (diskAfter fs gone).unlinks + 1⟩ := by
  simp only [diskAfter, List.map_append, List.map_singleton, List.length_append,
    List.length_singleton, without_without]

lemma unlinks_diskAfter : (diskAfter fs gone).unlinks = gone.length := rfl

lemma Ready.resolve {t : FileTree Handle} (h : Ready fs unitId pos gone [(name, t)])
    (hfresh : (pos.cur, name) ∉ gone'.map Spot.place) :
    resolve (diskAfter fs gone') pos.cur name = .ok t.handle := by
  obtain ⟨stat, parent, es, hdir, hnodup, hlinks, -⟩ := h.dir
  have hs := mem_entriesSpots (List.mem_singleton_self (name, t)) pos.cur
  exact resolve_entry (without_dir hdir)
    (lookup_remaining hnodup (hlinks _ (List.mem_singleton_self _)) hfresh) (h.proper _ hs).2

/-- A turn for an entry that is no directory. -/
lemma turn_leaf {c : Handle} {info : LeafInfo}
    (h : Ready fs unitId pos gone [(name, .leaf c info)]) :
    turn fails unitId dev (shown fs freed gone (pos.setPending (name :: rest))) =
      (fun _ => some (shown fs freed (gone ++ [⟨pos.cur, name, .leaf c info⟩])
        (pos.setPending rest))) <$> unlinkCalls fails dev gone.length pos.cur name info := by
  have hname := h.resolve h.own_fresh
  have hc : (diskAfter fs gone).inodes c = some (.leaf info) := without_leaf h.holds.1
  simp only [turn, shown, Position.pending_setPending, Position.setPending_setPending,
    Position.cur_setPending, statAt_eq hname hc, unlinkAt_leaf hname hc, unlinkCalls, inodeId,
    inodeStat, ne_eq, info.notDir, not_false_eq_true, if_true, diskAfter_append, unlinks_diskAfter,
    List.foldl_append, bind_assoc, ok_bind, map_eq_pure_bind]
  rfl

/-- A turn that enters a directory. -/
lemma turn_enter {c : Handle} {stat : Stat} {entries : List (String × FileTree Handle)}
    (h : Ready fs unitId pos gone [(name, .dir c stat entries)]) :
    turn fails unitId dev (shown fs freed gone (pos.setPending (name :: rest))) =
      (fun _ => some (shown fs freed gone (((pos.setPending rest).enter c
        ⟨name, dirId stat, []⟩).setPending (entries.map Prod.fst)))) <$>
        enterCalls fails dev pos.stack.length gone.length pos.cur name c stat := by
  have hname := h.resolve h.own_fresh
  obtain ⟨⟨es, hdir, hperm⟩, hsorted, -⟩ := h.holds.1
  have hspots : ∀ s ∈ entriesSpots c entries,
      s ∈ entriesSpots pos.cur [(name, .dir c stat entries)] := fun s hs =>
    List.mem_append_left _ (List.mem_append_left _ hs)
  -- no name in the directory is unlinked yet, so that all of them are listed
  have hc : (diskAfter fs gone).inodes c = some (.dir stat pos.cur es) := by
    refine (without_dir hdir).trans ?_
    rw [remaining_eq_self fun e he => ?_]
    obtain ⟨⟨n, t⟩, hmem, rfl⟩ := List.mem_map.mp (hperm.mem_iff.mp he)
    exact h.fresh (hspots _ (mem_entriesSpots hmem c))
  have hnames : (es.map Prod.fst).Perm (entries.map Prod.fst) := by
    have hperm := hperm.map Prod.fst
    rwa [links, List.map_map] at hperm
  have hproper : ∀ n ∈ entries.map Prod.fst, n ≠ "." ∧ n ≠ ".." := by
    intro n hn
    obtain ⟨⟨n, t⟩, hmem, rfl⟩ := List.mem_map.mp hn
    exact h.proper _ (hspots _ (mem_entriesSpots hmem c))
  simp only [turn, shown, Position.pending_setPending, Position.setPending_setPending,
    Position.cur_setPending, Position.length_setPending, statAt_eq hname hc, openDir_eq hname hc,
    Tree.handle, idFd_eq hc, list_eq hc hnames hsorted hproper, enterCalls, inodeId, dirId, ne_eq,
    not_true_eq_false, if_false, unlinks_diskAfter, bind_assoc, ok_bind, map_eq_pure_bind]
  rfl

/-- A turn that goes back up, from a directory whose entries are all unlinked. -/
lemma turn_leave {c : Handle} {stat : Stat} {entries : List (String × FileTree Handle)}
    (h : Ready fs unitId pos gone [(name, .dir c stat entries)])
    (hgone : gone' = gone ++ entriesSpots c entries) :
    turn fails unitId dev (shown fs freed gone' (((pos.setPending rest).enter c
        ⟨name, dirId stat, []⟩).setPending [])) =
      (fun _ => some (shown fs freed (gone' ++ [⟨pos.cur, name, .dir c stat entries⟩])
        (pos.setPending rest))) <$> leaveCalls fails gone'.length pos.cur name c := by
  have hfresh : (pos.cur, name) ∉ gone'.map Spot.place := by
    have hdistinct := h.distinct
    rw [entriesSpots_singleton, Tree.spots, ← List.append_assoc, ← hgone, List.map_append]
      at hdistinct
    intro hmem
    exact (List.nodup_append.mp hdistinct).2.2 _ hmem _ (List.mem_singleton_self _) rfl
  obtain ⟨⟨es, hdir, hperm⟩, -⟩ := h.holds.1
  have hempty : (diskAfter fs gone').inodes c = some (.dir stat pos.cur []) := by
    refine (without_dir hdir).trans ?_
    rw [remaining_eq_nil fun e he => ?_]
    obtain ⟨⟨n, t⟩, hmem, rfl⟩ := List.mem_map.mp (hperm.mem_iff.mp he)
    rw [hgone, List.map_append]
    exact List.mem_append_right _ (List.mem_map_of_mem (mem_entriesSpots hmem c))
  obtain ⟨stat', parent, es', hcur, -, -, hid⟩ := h.dir
  have hcur' : (diskAfter fs gone').inodes pos.cur = some (.dir stat' parent _) := without_dir hcur
  have hup : resolve (diskAfter fs gone') c ".." = .ok pos.cur := resolve_parent hempty
  have hname : resolve (diskAfter fs gone') pos.cur name = .ok c := h.resolve hfresh
  have hstack : expectedId unitId (pos.setPending rest).stack = dirId stat' :=
    (pos.expectedId_setPending rest unitId).trans hid.symm
  have hback : (⟨pos.cur, (pos.setPending rest).stack, (pos.setPending rest).top⟩ :
      Position Handle) = pos.setPending rest := by
    conv_lhs => rw [← pos.cur_setPending rest]
  change turn fails unitId dev (shown fs freed gone' ((pos.setPending rest).enter c
    ⟨name, dirId stat, []⟩)) = _
  simp only [turn, shown, Position.enter, Position.pending, openDir_eq hup hcur', idFd_eq hcur',
    unlinkAt_dir hname hempty, hstack, hback, leaveCalls, diskAfter_append, unlinks_diskAfter,
    List.foldl_append, bind_assoc, ok_bind, map_eq_pure_bind]
  rfl

/-- What the loop does from a state on is what a removal does: it goes on at the position, or it is
left with the error. -/
def Follows (fails : Faults Handle) (unitId : FileId) (dev : Nat) (fs : FileSystem Handle)
    (freed : Nat) (s : State Handle) (pos : Position Handle) (r : Deletion Handle) : Prop :=
  match r with
  | (gone, .ok ()) => Loop.Leads (turn fails unitId dev) s (shown fs freed gone pos)
  | (gone, .error e) =>
    ∃ pos', Loop.Ends (turn fails unitId dev) s (shown fs freed gone pos', .error e)

/-- What follows from a state that the turns lead to. -/
lemma Follows.of_leads {s s' : State Handle} {r : Deletion Handle}
    (hleads : Loop.Leads (turn fails unitId dev) s s')
    (hr : Follows fails unitId dev fs freed s' pos r) :
    Follows fails unitId dev fs freed s pos r := by
  obtain ⟨gone, result⟩ := r
  cases result with
  | error e =>
    obtain ⟨pos', hends⟩ := hr
    exact ⟨pos', hends.of_leads hleads⟩
  | ok u => exact Relation.ReflTransGen.trans hleads hr

/-- A removal that goes on with another one. -/
lemma Follows.andThen {s : State Handle} {r : Deletion Handle}
    {next : List (FileSpot Handle) → Deletion Handle}
    (hr : Follows fails unitId dev fs freed s pos r)
    (hnext : r.2 = .ok () →
      Follows fails unitId dev fs freed (shown fs freed r.1 pos) pos' (next r.1)) :
    Follows fails unitId dev fs freed s pos' (andThen r next) := by
  obtain ⟨gone, result⟩ := r
  cases result with
  | error e => exact hr
  | ok u => exact (hnext rfl).of_leads hr

/-- A turn that makes some calls. -/
lemma follows_calls {calls : Except Refusal Unit} {s' : State Handle}
    {next : List (FileSpot Handle) → Deletion Handle}
    (hturn : turn fails unitId dev (shown fs freed gone pos) = (fun _ => some s') <$> calls)
    (hnext : Follows fails unitId dev fs freed s' pos' (next gone)) :
    Follows fails unitId dev fs freed (shown fs freed gone pos) pos'
      (FdRemove.andThen (gone, calls) next) := by
  cases calls with
  | error e => exact ⟨pos, Loop.ends_of_error hturn⟩
  | ok u => exact hnext.of_leads (Loop.leads_of_turn hturn)

mutual

/-- **One entry.**  The loop removes an entry as the recursion does, whatever is still to be removed
after it. -/
theorem follows_entry (fails : Faults Handle) (dev freed : Nat) {pos : Position Handle}
    {gone : List (FileSpot Handle)} {name : String} (rest : List String) (t : FileTree Handle)
    (h : Ready fs unitId pos gone [(name, t)]) :
    Follows fails unitId dev fs freed (shown fs freed gone (pos.setPending (name :: rest)))
      (pos.setPending rest) (deleteEntry fails dev pos.stack.length pos.cur name t gone) := by
  cases t with
  | leaf c info => exact follows_calls (turn_leaf h) Relation.ReflTransGen.refl
  | dir c stat entries =>
    have hbelow := follows_entries fails dev freed entries (h.below rest)
    have hdepth : ((pos.setPending rest).enter c ⟨name, dirId stat, []⟩).stack.length =
        pos.stack.length + 1 := congrArg (· + 1) (pos.length_setPending rest)
    rw [hdepth] at hbelow
    refine follows_calls (turn_enter h) (hbelow.andThen fun hok => ?_)
    have hgone := (deletes_entries fails dev (pos.stack.length + 1) c entries gone).all hok
    exact follows_calls (turn_leave h hgone) Relation.ReflTransGen.refl

/-- **The entries of a directory.**  The loop removes them as the recursion does. -/
theorem follows_entries (fails : Faults Handle) (dev freed : Nat) {pos : Position Handle}
    {gone : List (FileSpot Handle)} (entries : List (String × FileTree Handle))
    (h : Ready fs unitId pos gone entries) :
    Follows fails unitId dev fs freed
      (shown fs freed gone (pos.setPending (entries.map Prod.fst))) (pos.setPending [])
      (deleteEntries fails dev pos.stack.length pos.cur entries gone) := by
  cases entries with
  | nil => exact Relation.ReflTransGen.refl
  | cons e entries =>
    obtain ⟨name, t⟩ := e
    refine (follows_entry fails dev freed (entries.map Prod.fst) t h.head).andThen fun hok => ?_
    have hgone := (deletes_entry fails dev pos.stack.length pos.cur name t gone).all hok
    rw [hgone]
    exact follows_entries fails dev freed entries h.tail

end

end Follows

/-! ## The loop as a whole -/

section Whole

variable {Handle : Type} {fs : FileSystem Handle} {unit : Handle} {stat : Stat}
  {entries : List (String × FileTree Handle)}

/-- The tree below a directory: it is finite, no directory is found twice in it, and no name is `.`
or `..`. -/
structure TreeBelow (fs : FileSystem Handle) (unit : Handle) (stat : Stat)
    (entries : List (String × FileTree Handle)) : Prop where
  /-- The file system has the tree. -/
  holds : ∃ parent, Tree.Holds fs parent (.dir unit stat entries)
  apart : (unit :: entriesDirs entries).Nodup
  /-- The names are those that `list` does not drop. -/
  proper : ∀ s ∈ entriesSpots unit entries, s.name ≠ "." ∧ s.name ≠ ".."

variable [DecidableEq Handle]

/-- **The loop is the recursion.**  On a finite tree `remove_tree` ends, whatever call fails and
whatever is refused, and it leaves and reports what the recursive removal does. -/
theorem removeTree_ends (h : TreeBelow fs unit stat entries) (fails : Faults Handle)
    (dev freed : Nat) : ∃ n, ∀ fuel, n ≤ fuel →
      removeTree fails fuel ⟨fs, 0⟩ unit (dirId stat) dev freed =
        some (diskAfter fs (deleteBelow fails dev unit entries).1,
          (deleteBelow fails dev unit entries).1.foldl addFreed freed,
          (deleteBelow fails dev unit entries).2) := by
  obtain ⟨parent, ⟨es, hdir, hperm⟩, hsorted, hbelow⟩ := h.holds
  have hnames : (es.map Prod.fst).Perm (entries.map Prod.fst) := by
    have hperm := hperm.map Prod.fst
    rwa [links, List.map_map] at hperm
  have hproper : ∀ n ∈ entries.map Prod.fst, n ≠ "." ∧ n ≠ ".." := by
    intro n hn
    obtain ⟨⟨n, t⟩, hmem, rfl⟩ := List.mem_map.mp hn
    exact h.proper _ (mem_entriesSpots hmem unit)
  have hlist : list fails ⟨fs, 0⟩ unit =
      (do fault fails 0 (.list unit); .ok (entries.map Prod.fst)) :=
    list_eq hdir hnames hsorted hproper
  have hready : Ready fs (dirId stat) ⟨unit, [], []⟩ [] entries := by
    have hnodup := nodup_of_pairwise_lt hsorted
    exact ⟨⟨stat, parent, es, hdir, hnames.nodup_iff.mpr hnodup,
      fun e he => hperm.mem_iff.mpr he, rfl⟩, hbelow, h.proper,
      nodup_entriesSpots entries hnodup hbelow h.apart⟩
  have hfollows := follows_entries fails dev freed entries hready
  have hstart : shown fs freed [] ((⟨unit, [], []⟩ : Position Handle).setPending
      (entries.map Prod.fst)) = ⟨⟨fs, 0⟩, freed, ⟨unit, [], entries.map Prod.fst⟩⟩ := by
    simp only [shown, diskAfter, List.map_nil, without_nil]
    rfl
  rw [hstart] at hfollows
  unfold removeTree deleteBelow
  rw [hlist]
  cases fault fails 0 (.list unit) with
  | error e =>
    refine ⟨0, fun fuel _ => ?_⟩
    simp only [andThen, diskAfter, List.map_nil, without_nil]
    rfl
  | ok _ =>
    change Follows fails (dirId stat) dev fs freed _ _ (deleteEntries fails dev 0 unit entries [])
      at hfollows
    simp only [andThen, ok_bind]
    cases hr : deleteEntries fails dev 0 unit entries [] with
    | mk gone result =>
      rw [hr] at hfollows
      cases result with
      | error e =>
        obtain ⟨pos', n, hrun⟩ := hfollows
        exact ⟨n, fun fuel hfuel => by rw [hrun fuel hfuel]; rfl⟩
      | ok u =>
        have hend : Loop.Ends (turn fails (dirId stat) dev) (shown fs freed gone ⟨unit, [], []⟩)
            (shown fs freed gone ⟨unit, [], []⟩, .ok ()) := Loop.ends_of_return rfl
        obtain ⟨n, hrun⟩ := hend.of_leads hfollows
        exact ⟨n, fun fuel hfuel => by rw [hrun fuel hfuel]; rfl⟩

end Whole

end Orca.Storage.FdRemove
