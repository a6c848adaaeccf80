import Orca.Storage.FileTree

/-!
# The storage janitor

`storage.quota` keeps declared directories within budgets.  A run of `enforceWith` resolves the
declared bases and roots (`resolveBases`, `resolveRoots`), lists and measures the items below the
roots (`scan`), picks the items to evict (`planEvictions`) and removes them (`apply`).

The system outside the janitor is a `Host`: the directory tree, the `glob` crate, the resolution of
symbolic links and the table of the mounted volumes.
-/

namespace Orca.Storage

/-! ## Configuration -/

/-- `PathClass`: the kind of data below a root. -/
inductive PathClass where
  /-- A build directory of `cargo`. -/
  | cargoTarget
  /-- A cache of a CI runner. -/
  | ciCache
  | tmp
  | vmDisk
  deriving DecidableEq

/-- `PathClass::rebuildable`: whether the data can be made again. -/
def PathClass.rebuildable : PathClass → Bool
  | .vmDisk => false
  | _ => true

/-- `ClassBudget`: a budget and the roots it is for. -/
structure ClassBudget where
  pathClass : PathClass
  /-- The bytes the items may take. -/
  budgetBytes : Nat
  roots : List String
  /-- The member it applies to, or every member. -/
  member : Option String

/-- `QuotaConfig`, without the switch of the scheduler. -/
structure QuotaConfig where
  /-- The directories every root must resolve strictly inside. -/
  bases : List String
  /-- The minimum of free space per volume, in percent. -/
  floorPct : Option Nat
  /-- The age from which floor eviction takes items. -/
  floorMinAgeSecs : Option Nat
  /-- The bytes floor eviction may delete per run. -/
  floorMaxBytes : Option Nat
  /-- The items floor eviction may delete per run. -/
  floorMaxUnits : Option Nat
  budgets : List ClassBudget

/-- `FloorLimits`: the settings of floor eviction with their defaults. -/
structure FloorLimits where
  floorPct : Nat
  minAgeSecs : Nat
  maxBytes : Nat
  maxUnits : Nat

/-- `QuotaConfig::floor_limits`. -/
def QuotaConfig.floorLimits (cfg : QuotaConfig) : FloorLimits where
  floorPct := min (cfg.floorPct.getD 15) 90
  minAgeSecs := cfg.floorMinAgeSecs.getD (6 * 3600)
  maxBytes := cfg.floorMaxBytes.getD (50 * 1024 * 1024 * 1024)
  maxUnits := cfg.floorMaxUnits.getD 20

/-- `Volume`: the space of a volume. -/
structure Volume where
  total : Nat
  avail : Nat

/-- The system around the janitor. -/
structure Host where
  /-- The layout of the directory tree. -/
  tree : Node
  /-- The environment variable `HOME`, empty when it is not set. -/
  homeVar : String
  /-- `home_dir`: the home directory, resolved. -/
  home : Option Path
  /-- `temp_roots`: the directories for temporary files, resolved. -/
  temps : List Path
  /-- `std::fs::canonicalize`: the path with its symbolic links resolved, if it exists. -/
  canonicalize : String → Option Path
  /-- `glob::glob`: the paths that match a pattern, or why it is not one. -/
  glob : String → Except String (List String)
  /-- `volume_table`: the mount points. -/
  volumeTable : List (Path × Volume)

/-- `expand_tilde`: a leading `~/` stands for the home directory. -/
def expandTilde (homeVar path : String) : String :=
  match path.toList with
  | '~' :: '/' :: rest => homeVar ++ "/" ++ String.ofList rest
  | _ => path

/-! ## Bases and roots -/

/-- `RefusedRoot`: a base or a root that is not used. -/
structure RefusedRoot where
  /-- The path as it was declared or found. -/
  path : String
  reason : String
  deriving DecidableEq

/-- `SYSTEM_DIRS`. -/
def systemDirs : List Path :=
  [["Applications"], ["Library"], ["System"], ["bin"], ["boot"], ["cores"], ["dev"], ["etc"],
    ["lib"], ["lib64"], ["opt", "homebrew"], ["private", "etc"], ["private", "var"], ["proc"],
    ["sbin"], ["sys"], ["usr"], ["var"]]

/-- `check_base`: whether a directory may be a base. -/
def checkBase (base : Path) (home : Option Path) (temps : List Path) : Except String Unit :=
  if base = [] then .error "is the filesystem root"
  else if home.any (fun home => base.isPrefixOf home) then
    .error "is the home directory or one of its ancestors"
  else if temps.any (fun t => t.isPrefixOf base) then .ok ()
  else if systemDirs.any (fun s => s.isPrefixOf base || base.isPrefixOf s) then
    .error "is or contains a system directory"
  else .ok ()

/-- The verdict on a declared base. -/
def baseVerdict (h : Host) (b : String) : Except String Path :=
  match h.canonicalize (expandTilde h.homeVar b) with
  | none => .error "does not exist"
  | some canon =>
    match checkBase canon h.home h.temps with
    | .ok () => .ok canon
    | .error reason => .error reason

/-- `resolve_bases`: the accepted bases and the refused ones. -/
def resolveBases (h : Host) : List String → List Path × List RefusedRoot
  | [] => ([], [])
  | b :: bases =>
    match baseVerdict h b with
    | .ok canon => (canon :: (resolveBases h bases).1, (resolveBases h bases).2)
    | .error reason => ((resolveBases h bases).1, ⟨b, reason⟩ :: (resolveBases h bases).2)

/-- `check_root`: whether a directory may be a root. -/
def checkRoot (root : Path) (bases : List Path) (home : Option Path) : Except String Unit :=
  if root = [] then .error "resolves to the filesystem root"
  else if home.any (fun home => root.isPrefixOf home) then
    .error "resolves to the home directory or one of its ancestors"
  else if !bases.any (fun b => b.isPrefixOf root && root != b) then
    .error "outside every configured base"
  else .ok ()

/-- `OPT_IN_MARKER`. -/
def optInMarker : String := ".orca-quota-ok"

/-- `LOCK_FILES`. -/
def lockFiles : List String := [".cargo-lock", ".package-cache", ".lock"]

/-- `CARGO_MARKERS`. -/
def cargoMarkers : List String := ["CACHEDIR.TAG", ".rustc_info.json"]

/-- `is_plain_file`: the path is a regular file and no symbolic link. -/
def isPlainFile (tree : Node) (p : Path) : Bool :=
  (tree.find p).any fun n => n.fileType == .file

/-- The names a marker of the class may have. -/
def markerNames : PathClass → List String
  | .cargoTarget => cargoMarkers
  | .ciCache | .tmp => [optInMarker]
  | .vmDisk => []

/-- `has_class_marker`: a root of a rebuildable class must carry a marker. -/
def hasClassMarker (tree : Node) (c : PathClass) (root : Path) : Bool :=
  match c with
  | .vmDisk => true
  | c => (markerNames c).any fun m => isPlainFile tree (root ++ [m])

/-- The verdict on a resolved root. -/
def rootVerdict (h : Host) (c : PathClass) (bases : List Path) (canon : Path) :
    Except String Unit :=
  match checkRoot canon bases h.home with
  | .error reason => .error reason
  | .ok () =>
    if hasClassMarker h.tree c canon then .ok () else .error "missing the class marker file"

/-- One path that a pattern found. -/
def resolveFound (h : Host) (c : PathClass) (bases : List Path)
    (acc : List Path × List RefusedRoot) (found : String) : List Path × List RefusedRoot :=
  match h.canonicalize found with
  | none => acc
  | some canon =>
    match rootVerdict h c bases canon with
    | .ok () => if canon ∈ acc.1 then acc else (acc.1 ++ [canon], acc.2)
    | .error reason => (acc.1, acc.2 ++ [⟨found, reason⟩])

/-- One pattern. -/
def resolvePattern (h : Host) (c : PathClass) (bases : List Path)
    (acc : List Path × List RefusedRoot) (pattern : String) : List Path × List RefusedRoot :=
  match h.glob (expandTilde h.homeVar pattern) with
  | .error e => (acc.1, acc.2 ++ [⟨pattern, "invalid glob: " ++ e⟩])
  | .ok paths => paths.foldl (resolveFound h c bases) acc

/-- `resolve_roots`: the accepted roots and the refused ones. -/
def resolveRoots (h : Host) (c : PathClass) (patterns : List String) (bases : List Path) :
    List Path × List RefusedRoot :=
  patterns.foldl (resolvePattern h c bases) ([], [])

/-! ## Scanning -/

/-- Whether an entry of a root is an item of its own. -/
def isUnit (c : PathClass) (entry : String × Node) : Bool :=
  match c with
  | .cargoTarget => entry.2.fileType == .dir
  | _ => entry.2.fileType != .symlink && entry.1 != optInMarker && !lockFiles.contains entry.1

/-- `units_of`: the items of a root. -/
def unitsOf (tree : Node) (c : PathClass) (root : Path) : List Path :=
  if !c.rebuildable then [root]
  else
    (((tree.find root).elim [] Node.readDir).filter (isUnit c)).map fun entry => root ++ [entry.1]

/-- The text of a path. -/
def pathText (p : Path) : String :=
  match p with
  | [] => "/"
  | p => p.foldl (fun text name => text ++ "/" ++ name) ""

/-- `volume_for`: the volume with the longest mount point above a path. -/
def volumeFor (p : Path) (table : List (Path × Volume)) : Option (String × Volume) :=
  table.foldl (fun best mount =>
    if mount.1.isPrefixOf p then
      match best with
      | none => some (pathText mount.1, mount.2)
      | some (name, v) =>
        if name.utf8ByteSize ≤ (pathText mount.1).utf8ByteSize then
          some (pathText mount.1, mount.2)
        else some (name, v)
    else best) none

/-- `Pending`: an item that is still to be measured. -/
structure Pending where
  path : Path
  /-- The root it was found under. -/
  root : Path
  rootId : Option FileId
  classIdx : Nat
  pathClass : PathClass

/-- `Unit`: an item with its measure. -/
structure QuotaUnit where
  path : Path
  name : String
  id : Option FileId
  /-- The root it was found under. -/
  root : Path
  rootId : Option FileId
  classIdx : Nat
  volume : Option String
  bytes : Nat
  /-- The time of the last change in it. -/
  newestUnix : Nat
  /-- Whether a lock in it is held. -/
  locked : Bool
  /-- Whether a part of it is on another device. -/
  crosses : Bool
  rebuildable : Bool

/-- `Unit::evictable`. -/
def QuotaUnit.evictable (u : QuotaUnit) : Bool :=
  u.rebuildable && !u.locked && !u.crosses

/-- `ClassScan`: what was found for one budget. -/
structure ClassScan where
  pathClass : PathClass
  budgetBytes : Nat
  roots : List Path
  refused : List RefusedRoot

/-- `Scan`: what a run found.  The volumes are keyed by their names. -/
structure Scan where
  refusedBases : List RefusedRoot
  classes : List ClassScan
  units : List QuotaUnit
  volumes : List (String × Volume)

/-- `applies_to`: whether a budget applies to this member. -/
def appliesTo (member : Option String) (here : String) : Bool :=
  member.all fun m => m == here

/-- The budgets that apply to this member. -/
def applicable (cfg : QuotaConfig) (here : String) : List ClassBudget :=
  cfg.budgets.filter fun b => appliesTo b.member here

/-- The first half of `scan`: what the loop over the budgets collects.  An item is `seen` when an
item with its path is pending. -/
structure Collected where
  classes : List ClassScan
  pending : List Pending
  volumes : List (String × Volume)

/-- One item of a root: the first budget that lists a path has it. -/
def collectUnit (root : Path) (rootId : Option FileId) (classIdx : Nat) (c : PathClass)
    (pending : List Pending) (unit : Path) : List Pending :=
  if unit ∈ pending.map Pending.path then pending
  else pending ++ [⟨unit, root, rootId, classIdx, c⟩]

/-- One root of a budget. -/
def collectRoot (h : Host) (o : Observation) (c : PathClass) (acc : Collected) (root : Path) :
    Collected where
  classes := acc.classes
  pending := (unitsOf h.tree c root).foldl
    (collectUnit root ((h.tree.find root).map (idOf o root)) acc.classes.length c) acc.pending
  volumes :=
    match volumeFor root h.volumeTable with
    | some (name, v) => (acc.volumes.filter fun w => w.1 != name) ++ [(name, v)]
    | none => acc.volumes

/-- One budget. -/
def collectBudget (h : Host) (o : Observation) (bases : List Path) (acc : Collected)
    (b : ClassBudget) : Collected :=
  let roots := resolveRoots h b.pathClass b.roots bases
  let found := roots.1.foldl (collectRoot h o b.pathClass) acc
  { found with classes := found.classes ++ [⟨b.pathClass, b.budgetBytes, roots.1, roots.2⟩] }

/-- `lock_files_in`. -/
def lockFilesIn (dir : Path) : List Path :=
  lockFiles.map fun n => dir ++ [n]

/-- The lock files of an item and of its directories. -/
def itemLockFiles (tree : Node) (unit : Path) : List Path :=
  lockFilesIn unit ++
    (((tree.find unit).elim [] Node.readDir).filter fun e => e.2.fileType == .dir).flatMap
      fun e => lockFilesIn (unit ++ [e.1])

/-- `unit_lock_files`: the lock files of the root, of the item and of its directories. -/
def unitLockFiles (tree : Node) (root unit : Path) : List Path :=
  lockFilesIn root ++ itemLockFiles tree unit

/-- `any_lock_held`: a lock of another process on one of the files. -/
def anyLockHeld (tree : Node) (o : Observation) (gone : List Path) (paths : List Path) : Bool :=
  paths.any fun p => (present tree gone p).any (fun n => n.fileType == .file) && o.held p

/-- The measure of one pending item. -/
def measureUnit (h : Host) (o : Observation) (probeLocks : Bool) (p : Pending) : QuotaUnit :=
  let m := measure h.tree o [] p.path (p.rootId.map FileId.dev)
  { path := p.path
    name := p.path.getLast?.getD ""
    id := m.id
    root := p.root
    rootId := p.rootId
    classIdx := p.classIdx
    volume := (volumeFor p.path h.volumeTable).map Prod.fst
    bytes := m.bytes
    newestUnix := m.newest
    locked := probeLocks && p.pathClass.rebuildable &&
      anyLockHeld h.tree o [] (unitLockFiles h.tree p.root p.path)
    crosses := m.crosses
    rebuildable := p.pathClass.rebuildable }

/-- `scan`: the items of this member. -/
def scan (h : Host) (o : Observation) (cfg : QuotaConfig) (here : String) (probeLocks : Bool) :
    Scan :=
  let bases := resolveBases h cfg.bases
  let found := (applicable cfg here).foldl (collectBudget h o bases.1) ⟨[], [], []⟩
  { refusedBases := bases.2
    classes := found.classes
    units := found.pending.map (measureUnit h o probeLocks)
    volumes := found.volumes }

end Orca.Storage
