import Mathlib.Algebra.BigOperators.Group.List.Lemmas
import Mathlib.Algebra.Ring.Nat
import Mathlib.Data.List.Sort

/-!
# File trees

The directory tree that the storage janitor reads and deletes from.  `Node` is the layout of the
tree: names, kinds and which directories can be read.  What the system calls report beyond that is
an `Observation`: the `Stat` of every path, the lock files that another process holds and the
removals that fail.  The layout is followed exactly through a run, the observations are arbitrary.

Nothing is erased from a tree; the paths that were deleted are listed (`gone`) and a path is present
while it is not among them.
-/

namespace Orca.Storage

/-- An absolute path, as its components below the root directory. -/
abbrev Path := List String

instance : LawfulBEq Path := List.instLawfulBEq

/-- Of two paths one is at or above the other. -/
def Overlaps (p q : Path) : Prop :=
  p <+: q ∨ q <+: p

instance (p q : Path) : Decidable (Overlaps p q) :=
  inferInstanceAs (Decidable (_ ∨ _))

lemma overlaps_of_below {u p v : Path} (hup : u <+: p) (h : Overlaps p v) : Overlaps u v := by
  rcases h with hpv | hvp
  · exact Or.inl (hup.trans hpv)
  · rcases Nat.le_total u.length v.length with hle | hle
    · exact Or.inl (List.prefix_of_prefix_length_le hup hvp hle)
    · exact Or.inr (List.prefix_of_prefix_length_le hvp hup hle)

/-! ## Layout -/

/-- An entry of a directory.  A directory that cannot be read is closed altogether: it can neither
be listed nor opened, and nothing below it can be reached. -/
inductive Node where
  | file
  | symlink
  /-- A socket, a pipe or a device. -/
  | other
  /-- A directory with its entries, in the order of their names. -/
  | dir (readable : Bool) (entries : List (String × Node))

/-- The type of an entry, as `st_mode` has it. -/
inductive FileType where
  | file
  | symlink
  | other
  | dir
  deriving DecidableEq

namespace Node

/-- The type of an entry. -/
def fileType : Node → FileType
  | file => .file
  | symlink => .symlink
  | other => .other
  | dir _ _ => .dir

/-- What `read_dir` lists; nothing where it fails. -/
def readDir : Node → List (String × Node)
  | dir true entries => entries
  | _ => []

/-- The entry at a path. -/
def find (n : Node) : Path → Option Node
  | [] => some n
  | name :: p => (n.readDir.lookup name).bind fun entry => entry.find p

@[simp] lemma find_nil (n : Node) : n.find [] = some n := rfl

/-- Looking up a longer path goes on from the entry at the shorter one. -/
lemma find_append (n : Node) (p q : Path) :
    n.find (p ++ q) = (n.find p).bind fun m => m.find q := by
  induction p generalizing n with
  | nil => rfl
  | cons name p ih =>
    simp only [List.cons_append, find]
    cases n.readDir.lookup name with
    | none => rfl
    | some entry => exact ih entry

/-- Only an open directory has something below it. -/
lemma find_cons_isSome {n : Node} {name : String} {q : Path}
    (h : (n.find (name :: q)).isSome = true) :
    ∃ entries entry, n = .dir true entries ∧ entries.lookup name = some entry ∧
      (entry.find q).isSome = true := by
  cases n with
  | dir readable entries =>
    cases readable with
    | true =>
      cases hentry : entries.lookup name with
      | none => simp [find, readDir, hentry] at h
      | some entry =>
        refine ⟨entries, entry, rfl, hentry, ?_⟩
        simpa [find, readDir, hentry] using h
    | false => cases h
  | file => cases h
  | symlink => cases h
  | other => cases h

end Node

/-! ## Observations -/

/-- What `stat` reports of a path beyond its type. -/
structure Stat where
  dev : Nat
  ino : Nat
  /-- The time of birth in nanoseconds, zero where it is not known. -/
  birth : Nat
  /-- The blocks of 512 bytes it takes on the disk. -/
  blocks : Nat
  /-- The time of the last change in seconds, zero before the epoch. -/
  mtime : Nat

/-- What the system calls report at some moment. -/
structure Observation where
  /-- The result of `stat`. -/
  stat : Path → Stat
  /-- The lock files whose lock another process holds. -/
  held : Path → Bool
  /-- The error of the system for a path whose removal fails. -/
  fails : Path → Option String

/-- `FileId`: the identity of a file. -/
structure FileId where
  dev : Nat
  ino : Nat
  /-- The type bits of the mode. -/
  fileType : FileType
  birth : Nat
  deriving DecidableEq

/-- The identity of the entry `n` at the path `p`. -/
def idOf (o : Observation) (p : Path) (n : Node) : FileId :=
  ⟨(o.stat p).dev, (o.stat p).ino, n.fileType, (o.stat p).birth⟩

/-- The largest `u64`. -/
def u64Max : Nat := 2 ^ 64 - 1

/-- `u64::saturating_add`. -/
def saturatingAdd (a b : Nat) : Nat := min (a + b) u64Max

/-- `disk_bytes`: the bytes that a file takes on the disk. -/
def diskBytes (s : Stat) : Nat := min (s.blocks * 512) u64Max

/-- The entry at a path while it is not deleted. -/
def present (tree : Node) (gone : List Path) (p : Path) : Option Node :=
  if p ∈ gone then none else tree.find p

/-! ## Measuring -/

/-- `Measured`: the size of an item. -/
structure Measured where
  /-- The identity of the item, if there is one. -/
  id : Option FileId
  /-- The bytes it takes on the disk. -/
  bytes : Nat
  /-- The time of the last change in it. -/
  newest : Nat
  /-- Whether a part of it is on another device. -/
  crosses : Bool
  deriving DecidableEq

mutual

/-- The entry `n` at `p` is added to a measure, with what is below it. -/
def measureEntry (o : Observation) (gone : List Path) (dev : Option Nat) (p : Path) (n : Node)
    (m : Measured) : Measured :=
  if p ∈ gone then m
  else if dev.isSome && some (o.stat p).dev != dev then { m with crosses := true }
  else
    let m := { m with
      bytes := saturatingAdd m.bytes (diskBytes (o.stat p))
      newest := max m.newest (o.stat p).mtime }
    match n with
    | .dir true entries => measureEntries o gone dev p entries m
    | _ => m

/-- The entries of the directory at `p` are added to a measure. -/
def measureEntries (o : Observation) (gone : List Path) (dev : Option Nat) (p : Path) :
    List (String × Node) → Measured → Measured
  | [], m => m
  | (name, n) :: entries, m =>
    measureEntries o gone dev p entries (measureEntry o gone dev (p ++ [name]) n m)

end

/-- `measure`: the size of the item at `p`, within the device `dev`. -/
def measure (tree : Node) (o : Observation) (gone : List Path) (p : Path) (dev : Option Nat) :
    Measured :=
  match present tree gone p with
  | none => ⟨none, 0, 0, false⟩
  | some n =>
    let out : Measured := ⟨some (idOf o p n), diskBytes (o.stat p), (o.stat p).mtime,
      dev.isSome && some (o.stat p).dev != dev⟩
    if out.crosses then out
    else
      match n with
      | .dir true entries => measureEntries o gone dev p entries out
      | _ => out

/-! ## What a measure has -/

lemma saturatingAdd_zero {a : Nat} (h : a ≤ u64Max) : saturatingAdd a 0 = a :=
  min_eq_left h

/-- What a walk over the paths in `S`, within the device `dev`, makes of a measure. -/
structure Walked (o : Observation) (dev : Nat) (S : Path → Prop) (m m' : Measured) : Prop where
  /-- The identity is the one of the item. -/
  id : m'.id = m.id
  /-- What takes no blocks adds no bytes. -/
  bytes : (∀ q, S q → (o.stat q).blocks = 0) → m.bytes ≤ u64Max → m'.bytes = m.bytes
  /-- What never changed adds no time. -/
  newest : (∀ q, S q → (o.stat q).mtime = 0) → m'.newest = m.newest
  /-- What is all on the device does not cross. -/
  within : (∀ q, S q → (o.stat q).dev = dev) → m'.crosses = m.crosses
  crossed : m.crosses = true → m'.crosses = true

section Walk

variable {o : Observation} {dev : Nat} {S : Path → Prop} {m m₁ m₂ : Measured}

lemma Walked.refl (m : Measured) : Walked o dev S m m :=
  ⟨rfl, fun _ _ => rfl, fun _ => rfl, fun _ => rfl, fun h => h⟩

lemma Walked.trans (h₁ : Walked o dev S m m₁) (h₂ : Walked o dev S m₁ m₂) :
    Walked o dev S m m₂ where
  id := h₂.id.trans h₁.id
  bytes hzero hle := by
    have hfirst := h₁.bytes hzero hle
    exact (h₂.bytes hzero (hfirst ▸ hle)).trans hfirst
  newest hzero := (h₂.newest hzero).trans (h₁.newest hzero)
  within hdev := (h₂.within hdev).trans (h₁.within hdev)
  crossed h := h₂.crossed (h₁.crossed h)

lemma Walked.mono {S' : Path → Prop} (h : Walked o dev S' m m₁) (hsub : ∀ q, S' q → S q) :
    Walked o dev S m m₁ :=
  ⟨h.id, fun hzero => h.bytes fun q hq => hzero q (hsub q hq),
    fun hzero => h.newest fun q hq => hzero q (hsub q hq),
    fun hdev => h.within fun q hq => hdev q (hsub q hq), h.crossed⟩

lemma walked_own {p : Path} (hp : S p) : Walked o dev S m { m with
    bytes := saturatingAdd m.bytes (diskBytes (o.stat p))
    newest := max m.newest (o.stat p).mtime } := by
  refine ⟨rfl, fun hzero hle => ?_, fun hzero => ?_, fun _ => rfl, fun h => h⟩
  · have hown : diskBytes (o.stat p) = 0 := by simp [diskBytes, hzero p hp]
    simp only [hown, saturatingAdd_zero hle]
  · simp [hzero p hp]

end Walk

/-- The paths strictly below a path. -/
def Below (p q : Path) : Prop :=
  p <+: q ∧ p ≠ q

lemma below_of_entry {p q : Path} {name : String} (h : p ++ [name] <+: q) : Below p q := by
  refine ⟨(List.prefix_append p [name]).trans h, ?_⟩
  rintro rfl
  have hlength := h.length_le
  rw [List.length_append, List.length_singleton] at hlength
  omega

mutual

/-- The walk over an entry. -/
theorem walked_measureEntry (o : Observation) (gone : List Path) (dev : Nat) (p : Path) (n : Node)
    (m : Measured) : Walked o dev (p <+: ·) m (measureEntry o gone (some dev) p n m) := by
  rw [measureEntry.eq_def]
  split
  · exact Walked.refl m
  · split
    · rename_i hdev
      refine ⟨rfl, fun _ _ => rfl, fun _ => rfl, fun hwithin => ?_, fun _ => rfl⟩
      simp [hwithin p List.prefix_rfl] at hdev
    · have hown : Walked o dev (p <+: ·) m { m with
          bytes := saturatingAdd m.bytes (diskBytes (o.stat p))
          newest := max m.newest (o.stat p).mtime } := walked_own (List.prefix_refl p)
      cases n with
      | dir readable entries =>
        cases readable with
        | true =>
          have hentries := walked_measureEntries o gone dev p entries
          exact hown.trans ((hentries _).mono fun q hq => hq.1)
        | false => exact hown
      | file => exact hown
      | symlink => exact hown
      | other => exact hown

/-- The walk over the entries of a directory. -/
theorem walked_measureEntries (o : Observation) (gone : List Path) (dev : Nat) (p : Path)
    (entries : List (String × Node)) (m : Measured) :
    Walked o dev (Below p) m (measureEntries o gone (some dev) p entries m) := by
  cases entries with
  | nil => exact Walked.refl m
  | cons e entries =>
    obtain ⟨name, n⟩ := e
    have hentry := walked_measureEntry o gone dev (p ++ [name]) n m
    exact (hentry.mono fun q hq => below_of_entry hq).trans
      (walked_measureEntries o gone dev p entries _)

end

/-- The walk over an item: it starts from the measure of the item alone. -/
lemma walked_measure {tree : Node} (o : Observation) {gone : List Path} (dev : Nat) {p : Path}
    {n : Node} (hn : present tree gone p = some n) :
    Walked o dev (Below p) ⟨some (idOf o p n), diskBytes (o.stat p), (o.stat p).mtime,
      decide ((o.stat p).dev ≠ dev)⟩ (measure tree o gone p (some dev)) := by
  unfold measure
  rw [hn]
  have hcrosses : ((some dev).isSome && some (o.stat p).dev != some dev) =
      decide ((o.stat p).dev ≠ dev) := by
    simp [bne, Bool.beq_eq_decide_eq]
  simp only [hcrosses]
  split
  · exact Walked.refl _
  · cases n with
    | dir readable entries =>
      cases readable with
      | true => exact walked_measureEntries o gone dev p entries _
      | false => exact Walked.refl _
    | file => exact Walked.refl _
    | symlink => exact Walked.refl _
    | other => exact Walked.refl _

/-- The entries of a directory cross when one of them does. -/
lemma crosses_measureEntries {o : Observation} {dev : Nat} {p : Path} {name : String} {n : Node}
    {entries : List (String × Node)} (hn : entries.lookup name = some n)
    (hcrosses : ∀ m, (measureEntry o [] (some dev) (p ++ [name]) n m).crosses = true)
    (m : Measured) : (measureEntries o [] (some dev) p entries m).crosses = true := by
  induction entries generalizing m with
  | nil => cases hn
  | cons e entries ih =>
    obtain ⟨name', n'⟩ := e
    by_cases hname : name = name'
    · subst hname
      rw [List.lookup_cons, beq_self_eq_true] at hn
      cases hn
      exact (walked_measureEntries o [] dev p entries _).crossed (hcrosses m)
    · rw [List.lookup_cons, beq_false_of_ne hname] at hn
      exact ih hn _

/-- An entry with a path on another device in it crosses. -/
lemma crosses_measureEntry {o : Observation} {dev : Nat} {p q : Path} {n : Node}
    (hq : (n.find q).isSome = true) (hdev : (o.stat (p ++ q)).dev ≠ dev) (m : Measured) :
    (measureEntry o [] (some dev) p n m).crosses = true := by
  induction q generalizing p n m with
  | nil =>
    rw [List.append_nil] at hdev
    rw [measureEntry.eq_def, if_neg List.not_mem_nil, if_pos (by simpa using hdev)]
  | cons name q ih =>
    obtain ⟨entries, c, rfl, hentry, hc⟩ := Node.find_cons_isSome hq
    rw [measureEntry.eq_def, if_neg List.not_mem_nil]
    split
    · rfl
    · refine crosses_measureEntries hentry (fun m => ih hc ?_ m) _
      rwa [List.append_assoc, List.singleton_append]

/-- An item with a path on another device in it crosses. -/
lemma crosses_measure {tree : Node} {o : Observation} {dev : Nat} {p q : Path}
    (hq : (tree.find (p ++ q)).isSome = true) (hdev : (o.stat (p ++ q)).dev ≠ dev) :
    (measure tree o [] p (some dev)).crosses = true := by
  rw [Node.find_append] at hq
  cases hn : tree.find p with
  | none =>
    rw [hn] at hq
    cases hq
  | some n =>
    rw [hn, Option.bind_some] at hq
    have hpresent : present tree [] p = some n := (if_neg List.not_mem_nil).trans hn
    by_cases hown : (o.stat p).dev = dev
    · -- the other device is further down, so the item is an open directory
      cases q with
      | nil => exact absurd hown (by rwa [List.append_nil] at hdev)
      | cons name q =>
        obtain ⟨entries, c, rfl, hentry, hc⟩ := Node.find_cons_isSome hq
        have hsame : ((some dev).isSome && some dev != some dev) = false := by simp
        simp only [measure, hpresent, hown, hsame, Bool.false_eq_true, if_false]
        refine crosses_measureEntries hentry (fun m => crosses_measureEntry hc ?_ m) _
        rwa [List.append_assoc, List.singleton_append]
    · exact (walked_measure o dev hpresent).crossed (decide_eq_true hown)

end Orca.Storage
