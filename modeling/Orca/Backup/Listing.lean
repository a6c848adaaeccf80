import Mathlib.Data.String.Basic
import Orca.Library.StablePage

/-!
# The listing of backups

Every system of the fleet has stores with records of backups.  `backup.list` asks all systems,
merges what they answer, sorts it newest first and answers with one page.  What a peer answers is a
page too: `fleetPage_eq` says that the page of the fleet is the first page of all its records all
the same.
-/

namespace Orca.Backup

open StablePage

/-! ## Records -/

/-- `BackupWriter`: the host that produced a backup. -/
structure BackupWriter where
  host : String
  /-- Its machine id, empty when it is not known. -/
  machineId : String
  deriving DecidableEq, Repr

/-- `same_host`: by machine id when both have one, else by host name. -/
def BackupWriter.sameHost (w o : BackupWriter) : Bool :=
  if w.machineId ≠ "" ∧ o.machineId ≠ "" then w.machineId == o.machineId else w.host == o.host

/-- `BackupRecord`, as far as listing and choosing a backup read it. -/
structure BackupRecord where
  /-- The stamp that sorts the backups. -/
  id : String
  kind : String
  inst : String
  /-- The system that holds it, empty for this one. -/
  system : String
  /-- The host that wrote it, when it is recorded. -/
  writer : Option BackupWriter
  deriving DecidableEq, Repr

/-! ## Pages -/

/-- `DEFAULT_LIMIT`. -/
def defaultLimit : Nat := 50

/-- `MAX_LIMIT`. -/
def maxLimit : Nat := 200

/-- `PageParams`; the cursor is the offset it decodes to. -/
structure PageParams where
  /-- The size that is asked for. -/
  limit : Option Nat
  cursor : Option Nat

/-- `effective_limit`. -/
def PageParams.effectiveLimit (p : PageParams) : Nat :=
  max 1 (min (p.limit.getD defaultLimit) maxLimit)

/-- `Page`. -/
structure Page (α : Type) where
  items : List α
  /-- The offset of the next page, if there is one. -/
  nextCursor : Option Nat
  /-- The number of rows on all pages. -/
  total : Nat

/-- `Page::from_slice`. -/
def Page.fromSlice {α : Type} (all : List α) (p : PageParams) : Page α :=
  let start := min (p.cursor.getD 0) all.length
  let stop := min (start + p.effectiveLimit) all.length
  { items := (all.drop start).take p.effectiveLimit
    nextCursor := if stop < all.length then some stop else none
    total := all.length }

/-! ## The listing -/

/-- The order of the listing: newest first, then by system. -/
def NewestFirst (a b : BackupRecord) : Prop := b.id < a.id ∨ (a.id = b.id ∧ a.system ≤ b.system)

instance (a b : BackupRecord) : Decidable (NewestFirst a b) :=
  inferInstanceAs (Decidable (_ ∨ _))

/-- The order of one store: newest first. -/
def NewestId (a b : BackupRecord) : Prop := b.id ≤ a.id

instance (a b : BackupRecord) : Decidable (NewestId a b) := inferInstanceAs (Decidable (_ ≤ _))

/-- The records of a store, as the walk finds them. -/
abbrev BackupStore := List BackupRecord

/-- `BackupStore::list`. -/
def BackupStore.list (kind inst : Option String) (store : BackupStore) : List BackupRecord :=
  (store.filter fun r => (kind.all (· == r.kind)) && inst.all (· == r.inst)).insertionSort NewestId

/-- `BackupListArgs`, without `local_only`. -/
structure BackupListArgs where
  /-- The kind that is asked for. -/
  kind : Option String
  /-- The instance that is asked for. -/
  inst : Option String
  /-- The page that is asked for. -/
  page : PageParams

/-- `list_locally`. -/
def listLocally (args : BackupListArgs) (stores : List BackupStore) : List BackupRecord :=
  stores.flatMap (BackupStore.list args.kind args.inst)

/-- `finish_list`: the page of the sorted records. -/
def finishList (backups : List BackupRecord) (args : BackupListArgs) : Page BackupRecord :=
  Page.fromSlice (backups.insertionSort NewestFirst) args.page

/-- A peer of the fleet. -/
structure Peer where
  id : String
  /-- The name it is displayed by. -/
  name : String
  /-- The stores that its targets open to, or why it could not be asked. -/
  answer : Except String (List BackupStore)

/-- The systems of the fleet, the peers in the order in which they answer. -/
structure Fleet where
  here : List BackupStore
  peers : List Peer
  /-- A system records nothing about who holds its own backups. -/
  hereUnstamped : ∀ store ∈ here, ∀ r ∈ store, r.system = ""
  peersUnstamped : ∀ p ∈ peers, ∀ stores, p.answer = .ok stores →
    ∀ store ∈ stores, ∀ r ∈ store, r.system = ""
  /-- The peers are not this system. -/
  named : ∀ p ∈ peers, p.id ≠ ""

/-- The question that is forwarded to the peers. -/
def BackupListArgs.forwarded (args : BackupListArgs) : BackupListArgs :=
  { args with page := ⟨none, none⟩ }

/-- A record with the system that holds it. -/
def stamp (system : String) (r : BackupRecord) : BackupRecord := { r with system := system }

/-- What a peer contributes to the listing: the page it answers with. -/
def Peer.rows (args : BackupListArgs) (p : Peer) : List BackupRecord :=
  match p.answer with
  | .ok stores => (finishList (listLocally args stores) args.forwarded).items.map (stamp p.id)
  | .error _ => []

/-- What a peer contributes to the errors. -/
def Peer.error (p : Peer) : Option String :=
  match p.answer with
  | .ok _ => none
  | .error e => some (p.name ++ ": " ++ e)

/-- `BackupListOutput`. -/
structure BackupListOutput where
  backups : Page BackupRecord
  /-- The systems that could not be asked. -/
  systemErrors : List String

/-- `backup_list`, without `local_only`. -/
def backupList (args : BackupListArgs) (fleet : Fleet) : BackupListOutput where
  backups := finishList (listLocally args fleet.here ++ fleet.peers.flatMap (Peer.rows args)) args
  systemErrors := (fleet.peers.filterMap Peer.error).insertionSort (· ≤ ·)

/-! ## The page of the fleet -/

/-- All records of a peer. -/
def Peer.records (args : BackupListArgs) (p : Peer) : List BackupRecord :=
  match p.answer with
  | .ok stores => (listLocally args stores).map (stamp p.id)
  | .error _ => []

/-- All records of the fleet, with the systems that hold them. -/
def Fleet.records (args : BackupListArgs) (fleet : Fleet) : List BackupRecord :=
  listLocally args fleet.here ++ fleet.peers.flatMap (Peer.records args)

instance : IsTrans BackupRecord NewestFirst where
  trans a b c hab hbc := by
    unfold NewestFirst at *
    rcases hab with hab | ⟨hab, hsab⟩ <;> rcases hbc with hbc | ⟨hbc, hsbc⟩
    · exact Or.inl (lt_trans hbc hab)
    · exact Or.inl (hbc ▸ hab)
    · exact Or.inl (hab ▸ hbc)
    · exact Or.inr ⟨hab.trans hbc, le_trans hsab hsbc⟩

instance : Std.Total NewestFirst where
  total a b := by
    unfold NewestFirst
    rcases lt_trichotomy a.id b.id with h | h | h
    · exact Or.inr (Or.inl h)
    · rcases le_total a.system b.system with hs | hs
      · exact Or.inl (Or.inr ⟨h, hs⟩)
      · exact Or.inr (Or.inr ⟨h.symm, hs⟩)
    · exact Or.inl (Or.inl h)

lemma items_finishList (backups : List BackupRecord) {args : BackupListArgs}
    (h : args.page = ⟨none, none⟩) :
    (finishList backups args).items = firsts NewestFirst defaultLimit backups := by
  unfold finishList Page.fromSlice firsts
  rw [h]
  rfl

lemma system_of_mem_listLocally {args : BackupListArgs} {stores : List BackupStore}
    (h : ∀ store ∈ stores, ∀ r ∈ store, r.system = "") {r : BackupRecord}
    (hr : r ∈ listLocally args stores) : r.system = "" := by
  obtain ⟨store, hstore, hr⟩ := List.mem_flatMap.mp hr
  unfold BackupStore.list at hr
  rw [List.mem_insertionSort, List.mem_filter] at hr
  exact h store hstore r hr.1

/-- What a peer contributes is the first page of its records. -/
lemma rows_eq_firsts {fleet : Fleet} {p : Peer} (hp : p ∈ fleet.peers) (args : BackupListArgs) :
    p.rows args = firsts NewestFirst defaultLimit (p.records args) := by
  unfold Peer.rows Peer.records
  cases hanswer : p.answer with
  | error e => rfl
  | ok stores =>
    have hunstamped : ∀ r ∈ listLocally args stores, r.system = "" := fun r hr =>
      system_of_mem_listLocally (fleet.peersUnstamped p hp stores hanswer) hr
    dsimp only
    rw [items_finishList _ rfl]
    unfold firsts
    rw [List.map_take, List.map_insertionSort NewestFirst NewestFirst]
    intro a ha b hb
    unfold NewestFirst stamp
    rw [hunstamped a ha, hunstamped b hb]
    simp

/-- The page of the fleet is the first page of all its records. -/
theorem fleetPage_eq (fleet : Fleet) {args : BackupListArgs} (h : args.page = ⟨none, none⟩) :
    (backupList args fleet).backups.items =
      firsts NewestFirst defaultLimit (fleet.records args) := by
  have hrows : fleet.peers.flatMap (Peer.rows args) =
      fleet.peers.flatMap fun p => firsts NewestFirst defaultLimit (p.records args) := by
    refine List.flatMap_congr fun p hp => ?_
    exact rows_eq_firsts hp args
  unfold backupList Fleet.records
  rw [items_finishList _ h, hrows, firsts_append_flatMap]

end Orca.Backup
