import Orca.Backup.Retention
import Orca.Library.Decimal
import Orca.Library.Invariant

/-!
# Syncing a kind between hosts

`backup.sync` shares the state of an instance between hosts: it restores the newest backup of the
targets if another host wrote it, and then backs the instance up to every target.  A backup that
finds the state unchanged commits nothing.

So the backup that was restored can remain the newest one, and the next sync restores it once more
over what was changed meanwhile.  `sync_neverReapplies_iff` says in which runs this cannot happen.
-/

namespace Orca.Backup

open Invariant

/-! ## Hosts and targets -/

/-- What does not change while the host runs. -/
structure Setup (σ : Type) where
  calendar : Calendar
  /-- `local_writer`: the host itself. -/
  me : BackupWriter
  kind : String
  inst : String
  /-- Where the provider files the backups of the instance. -/
  layout : List String
  /-- The size of the payload that the provider writes for a state. -/
  size : σ → Nat

/-- A target and its store. -/
structure Target (σ : Type) where
  /-- The kind and the name of the target. -/
  label : String
  shared : Bool
  /-- The retention that it resolves to. -/
  retention : Retention
  /-- The backups of the instance, as the walk of the tree finds them. -/
  slots : List (Slot σ)
  /-- What else is in the directory that the instance is filed under. -/
  others : List String

/-- The host that syncs. -/
structure Host (σ : Type) where
  /-- The live state of the instance. -/
  live : σ
  /-- The targets that are bound to the kind. -/
  targets : List (Target σ)

/-- What a target and the clock do during a sync. -/
structure TargetEnv where
  /-- The remote copy cannot be pulled. -/
  refresh : Option String
  opens : Option String
  unlisted : Bool
  lock : Option String
  /-- The time at which the slot is allocated. -/
  now : Int
  slot : Option String
  backup : Option String
  /-- The slot cannot be removed after an abort. -/
  abortFails : Bool
  commit : Option String
  /-- What goes wrong in the prune. -/
  prune : PruneFaults
  /-- The remote copy cannot be pushed. -/
  push : Option String

/-- What happens during a sync. -/
structure SyncEnv where
  target : Nat → TargetEnv
  restore : Option String

/-- `SyncInstanceOutcome`. -/
structure SyncInstanceOutcome (σ : Type) where
  /-- The backup of another host that was restored. -/
  restored : Option (Slot σ)
  produced : List (Slot σ)
  /-- The targets where nothing had changed. -/
  unchanged : List String
  errors : List String

/-- `BackupSyncOutput`, for one instance. -/
structure BackupSyncOutput (σ : Type) where
  outcome : SyncInstanceOutcome σ
  errors : List String

section Sync

variable {σ : Type} (S : Setup σ)

/-- The newest backup that a target lists. -/
def Target.newest (t : Target σ) : Option (Slot σ) := (newestFirst t.slots).head?

/-- The backup was written by this host. -/
def Setup.wrote (s : Slot σ) : Bool := s.writer.any fun w => w.sameHost S.me

/-! ## New slots -/

/-- `id_host_segment`. -/
def idHostSegment (host : String) : String :=
  let out := host.toList.foldl (fun out c =>
    if c.isAlphanum then out ++ [c.toLower]
    else if out.getLast? = some '-' then out
    else out ++ ['-']) []
  let trimmed := ((out.dropWhile (· == '-')).reverse.dropWhile (· == '-')).reverse
  if trimmed.isEmpty then "host" else String.ofList trimmed

/-- The `n`-th name that is tried for a slot. -/
def candidateId (base : String) (n : Nat) : String :=
  if n = 0 then base else base ++ "-" ++ toString n

/-- The first name from the `n`-th on that is not taken. -/
def disambiguate (base : String) (taken : List String) : Nat → Nat → String
  | 0, n => candidateId base n
  | fuel + 1, n =>
    if candidateId base n ∈ taken then disambiguate base taken fuel (n + 1) else candidateId base n

/-- The names that exist in the directory of the instance. -/
def Target.taken (t : Target σ) : List String :=
  (t.slots.filter (·.collection == S.layout)).map Slot.id ++ t.others

/-- The stamp of a new slot, with the host where several hosts write. -/
def slotBase (now : Int) (t : Target σ) : String :=
  if t.shared then S.calendar.compact now ++ "-" ++ idHostSegment S.me.host
  else S.calendar.compact now

/-- `new_slot`: the name of the slot. -/
def newSlotId (now : Int) (t : Target σ) : String :=
  disambiguate (slotBase S now t) (t.taken S) (t.taken S).length 0

/-- The names that are tried differ. -/
lemma candidateId_injective (base : String) : Function.Injective (candidateId base) := by
  have hbase (n : Nat) : base ≠ base ++ "-" ++ toString n := by
    intro h
    have hlength := congrArg (fun s => s.toList.length) h
    simp at hlength
  intro m n h
  unfold candidateId at h
  split at h <;> split at h
  · omega
  · exact absurd h (hbase n)
  · exact absurd h.symm (hbase m)
  · exact (Decimal.eq_of_append_hyphen h).2

/-- If the last name tried is taken, so are the names tried before it. -/
lemma candidateId_mem_taken {base : String} {taken : List String} {fuel n : Nat}
    (h : disambiguate base taken fuel n ∈ taken) :
    ∀ k ≤ fuel, candidateId base (n + k) ∈ taken := by
  induction fuel generalizing n with
  | zero =>
    intro k hk
    rwa [Nat.le_zero.mp hk]
  | succ fuel ih =>
    unfold disambiguate at h
    split at h
    · rename_i htaken
      intro k hk
      cases k with
      | zero => exact htaken
      | succ k =>
        have hnext := ih h k (Nat.le_of_succ_le_succ hk)
        rwa [Nat.add_assoc, Nat.add_comm 1 k] at hnext
    · rename_i hfree
      exact absurd h hfree

/-- As many names are taken as are tried before the first one that is free. -/
lemma le_length_of_candidates {base : String} {taken : List String} {m : Nat}
    (htaken : ∀ k < m, candidateId base k ∈ taken) : m ≤ taken.length := by
  have hnodup := (List.nodup_range (n := m)).map (candidateId_injective base)
  have hsubset : (List.range m).map (candidateId base) ⊆ taken := by
    intro name hname
    obtain ⟨k, hk, rfl⟩ := List.mem_map.mp hname
    exact htaken k (List.mem_range.mp hk)
  have hlength := (List.subperm_of_subset hnodup hsubset).length_le
  rwa [List.length_map, List.length_range] at hlength

/-- The name of a new slot is not taken: among more names than there are, one is free. -/
theorem newSlotId_not_mem (now : Int) (t : Target σ) : newSlotId S now t ∉ t.taken S := by
  intro h
  have htried := candidateId_mem_taken h
  have hlength : (t.taken S).length + 1 ≤ (t.taken S).length := by
    exact le_length_of_candidates fun k hk =>
      Nat.zero_add k ▸ htried k (Nat.le_of_lt_succ hk)
  exact Nat.not_succ_le_self _ hlength

/-- The backup that is committed to a new slot. -/
def newSlot (now : Int) (live : σ) (t : Target σ) : Slot σ where
  id := newSlotId S now t
  createdMs := now
  sizeBytes := S.size live
  writer := some S.me
  collection := S.layout
  payload := live

/-! ## The sync of one instance -/

/-- What a run of one backup leaves in its output. -/
structure RunOutput (σ : Type) where
  produced : List (Slot σ)
  unchanged : Bool
  errors : List String

/-- The prune at the end of `run_one`: the target, and what failed. -/
def pruneTarget (env : TargetEnv) (t : Target σ) : Target σ × List String :=
  let (result, left) := prune S.calendar env.prune t.retention t.slots
  let pruned := { t with slots := left }
  match result with
  | .ok report =>
    if report.isComplete then (pruned, [])
    else
      let detail := "; ".intercalate (report.failures.map fun f => f.id ++ ": " ++ f.error)
      (pruned, ["prune incomplete (" ++ report.summary ++ "): " ++ detail])
  | .error e => (pruned, ["prune failed: " ++ e])

/-- A slot that is not committed: its directory remains if it cannot be removed. -/
def Target.aborted (env : TargetEnv) (id : String) (t : Target σ) : Target σ :=
  if env.abortFails then { t with others := id :: t.others } else t

/-- The provider finds the state unchanged when it is what the newest backup holds. -/
def unchanged [DecidableEq σ] (live : σ) (t : Target σ) : Bool :=
  t.newest.map Slot.payload == some live

/-- `run_one`. -/
def runOne [DecidableEq σ] (env : TargetEnv) (live : σ) (t : Target σ) : Target σ × RunOutput σ :=
  match env.slot with
  | some e => (t, ⟨[], false, [e]⟩)
  | none =>
    let slot := newSlot S env.now live t
    match env.backup with
    | some e =>
      let (t', errors) := pruneTarget S env (t.aborted env slot.id)
      (t', ⟨[], false, e :: errors⟩)
    | none =>
      if unchanged live t then (t.aborted env slot.id, ⟨[], true, []⟩)
      else
        match env.commit with
        | some e =>
          let (t', errors) := pruneTarget S env { t with others := slot.id :: t.others }
          (t', ⟨[], false, e :: errors⟩)
        | none =>
          let (t', errors) := pruneTarget S env { t with slots := t.slots ++ [slot] }
          (t', ⟨[slot], false, errors⟩)

/-- The backup of a sync to one target. -/
def syncTarget [DecidableEq σ] (env : TargetEnv) (live : σ) (t : Target σ) :
    Target σ × RunOutput σ :=
  match env.lock with
  | some e => (t, ⟨[], false, [t.label ++ ": " ++ e]⟩)
  | none =>
    let (t', sub) := runOne S env live t
    (t', { sub with errors := sub.errors.map fun e => t.label ++ ": " ++ e })

/-- The newer of two backups, the first of them among equals. -/
def newer (newest : Option (Nat × Slot σ)) (c : Nat × Slot σ) : Option (Nat × Slot σ) :=
  match newest with
  | none => some c
  | some b => if b.2.id < c.2.id then some c else some b

/-- The newest of the backups. -/
def newestOf (listed : List (Nat × Slot σ)) : Option (Nat × Slot σ) := listed.foldl newer none

/-- The newest backups of the targets that are opened and can be listed. -/
def listing (env : SyncEnv) (targets : List (Target σ)) : List (Nat × Slot σ) :=
  targets.zipIdx.filterMap fun (t, i) =>
    if (env.target i).opens.isSome || (env.target i).unlisted then none
    else t.newest.map fun s => (i, s)

/-- The backup to restore: the newest one, if another host wrote it. -/
def toRestore (env : SyncEnv) (targets : List (Target σ)) : Option (Nat × Slot σ) :=
  (newestOf (listing env targets)).filter fun newest => !S.wrote newest.2

/-- `restore_from`: the backup that is restored. -/
def restoreFrom (env : SyncEnv) (id : String) (t : Target σ) : Except String (Slot σ) :=
  match env.restore with
  | some e => .error e
  | none =>
    match (newestFirst t.slots).find? fun s => s.id == id with
    | some s => .ok s
    | none => .error ("no backup " ++ id ++ " for " ++ S.kind ++ "/" ++ S.inst)

/-- The backups of a sync to the targets that are opened. -/
def backUp [DecidableEq σ] (env : SyncEnv) (live : σ) (targets : List (Target σ)) :
    List (Target σ × RunOutput σ) :=
  targets.mapIdx fun i t =>
    if (env.target i).opens.isSome then (t, ⟨[], false, []⟩)
    else syncTarget S (env.target i) live t

/-- The host, the outcome, and the targets that changed, after the backups. -/
def finishSync [DecidableEq σ] (env : SyncEnv) (restored : Option (Slot σ)) (live : σ)
    (h : Host σ) : Host σ × SyncInstanceOutcome σ × List Nat :=
  let runs := backUp S env live h.targets
  (⟨live, runs.map Prod.fst⟩,
    { restored := restored
      produced := runs.flatMap fun r => r.2.produced
      unchanged := runs.filterMap fun r => if r.2.unchanged then some r.1.label else none
      errors := runs.flatMap fun r => r.2.errors },
    runs.zipIdx.filterMap fun r => if r.1.2.produced.isEmpty then none else some r.2)

/-- `sync_instance`. -/
def syncInstance [DecidableEq σ] (env : SyncEnv) (h : Host σ) :
    Host σ × SyncInstanceOutcome σ × List Nat :=
  match toRestore S env h.targets with
  | none => finishSync S env none h.live h
  | some (i, s) =>
    match h.targets[i]? with
    | none => finishSync S env none h.live h
    | some t =>
      match restoreFrom S env s.id t with
      | .ok r => finishSync S env (some r) r.payload h
      | .error e => (h, ⟨none, [], [], ["restore from " ++ t.label ++ ": " ++ e]⟩, [])

/-- What fails when the targets are opened. -/
def openErrors (env : SyncEnv) (targets : List (Target σ)) : List String :=
  targets.zipIdx.flatMap fun (t, i) =>
    ((env.target i).refresh.map fun e =>
        "target " ++ t.label ++ ": refresh failed: " ++ e).toList ++
      ((env.target i).opens.map fun e => "target " ++ t.label ++ ": open failed: " ++ e).toList

/-- What fails when the targets that changed are pushed. -/
def pushErrors (env : SyncEnv) (changed : List Nat) (targets : List (Target σ)) : List String :=
  targets.zipIdx.flatMap fun (t, i) =>
    if i ∈ changed then
      ((env.target i).push.map fun e => "target " ++ t.label ++ ": sync failed: " ++ e).toList
    else []

/-- `backup.sync` of one instance. -/
def backupSync [DecidableEq σ] (env : SyncEnv) (h : Host σ) :
    Host σ × Except String (BackupSyncOutput σ) :=
  if h.targets.isEmpty then (h, .error ("no configured target receives kind " ++ S.kind))
  else if h.targets.zipIdx.all fun (_, i) => (env.target i).opens.isSome then
    (h, .error ("no target bound to kind " ++ S.kind ++ " could be opened: " ++
      "; ".intercalate (openErrors env h.targets)))
  else
    let (h', outcome, changed) := syncInstance S env h
    (h', .ok ⟨outcome, openErrors env h.targets ++ pushErrors env changed h.targets⟩)

/-! ## Runs -/

/-- What happens to the instance and the targets of the host. -/
inductive Event (σ : Type) where
  /-- The state of the instance is changed here. -/
  | edit (live : σ)
  /-- A backup is committed to a target by another host. -/
  | commit (i : Nat) (s : Slot σ)
  | sync (env : SyncEnv)

/-- The host after an event. -/
def step [DecidableEq σ] (h : Host σ) : Event σ → Host σ
  | .edit live => { h with live := live }
  | .commit i s =>
    { h with targets := h.targets.modify i fun t => { t with slots := t.slots ++ [s] } }
  | .sync env => (backupSync S env h).1

/-- The sync ends without error. -/
def Clean (result : Except String (BackupSyncOutput σ)) : Prop :=
  ∃ out, result = .ok out ∧ out.errors = [] ∧ out.outcome.errors = []

/-- The backup that a sync restored. -/
def restored (result : Except String (BackupSyncOutput σ)) : Option (Slot σ) :=
  match result with
  | .ok out => out.outcome.restored
  | .error _ => none

/-- After every sync that ends without error, whatever is changed here before the next sync, the
next sync restores nothing, if no other host commits a backup meanwhile. -/
def NeverReapplies [DecidableEq σ] (start : Host σ) (run : List (Event σ)) : Prop :=
  ∀ before env, before ++ [.sync env] <+: run →
    Clean (backupSync S env (before.foldl (step S) start)).2 →
      ∀ (changes : List σ) (next : SyncEnv),
        restored (backupSync S next ((changes.map Event.edit).foldl (step S)
          ((before ++ [.sync env]).foldl (step S) start))).2 = none

/-- The state that the backups of a sync are taken of. -/
def afterRestore (env : SyncEnv) (h : Host σ) : σ :=
  match toRestore S env h.targets with
  | some (_, s) => s.payload
  | none => h.live

/-- The condition on a target: where the state is what its newest backup holds, this host wrote that
backup; elsewhere, of the backups with the new one, the newest that the retention keeps is from this
host. -/
def LeavesOwn [DecidableEq σ] (now : Int) (live : σ) (t : Target σ) : Prop :=
  if unchanged live t then ∀ s ∈ t.newest, S.wrote s = true
  else ∀ s ∈ (survivors S.calendar t.retention (t.slots ++ [newSlot S now live t])).head?,
    S.wrote s = true

/-- The condition on an event: it is not a sync, or one that fails, or every target meets the
condition. -/
def Safe [DecidableEq σ] (h : Host σ) : Event σ → Prop
  | .sync env => Clean (backupSync S env h).2 →
      ∀ i t, h.targets[i]? = some t →
        LeavesOwn S (env.target i).now (afterRestore S env h) t
  | _ => True

/-! ## What is restored -/

section Restore

variable {S} {env : SyncEnv} {h : Host σ}

/-- The backups from which the newest is chosen. -/
lemma mem_listing {targets : List (Target σ)} {i : Nat} {s : Slot σ} :
    (i, s) ∈ listing env targets ↔ ∃ t, targets[i]? = some t ∧ (env.target i).opens = none ∧
      (env.target i).unlisted = false ∧ t.newest = some s := by
  unfold listing
  rw [List.mem_filterMap]
  constructor
  · rintro ⟨⟨t, j⟩, hmem, hsome⟩
    dsimp only at hsome
    split at hsome
    · exact nomatch hsome
    · rename_i hlisted
      obtain ⟨s', hs', heq⟩ := Option.map_eq_some_iff.mp hsome
      obtain ⟨rfl, rfl⟩ := Prod.mk.inj heq
      simp only [Bool.or_eq_true, not_or, Bool.not_eq_true, Option.isSome_eq_false_iff,
        Option.isNone_iff_eq_none] at hlisted
      exact ⟨t, List.mem_zipIdx_iff_getElem?.mp hmem, hlisted.1, hlisted.2, hs'⟩
  · rintro ⟨t, hget, hopens, hlisted, hnewest⟩
    refine ⟨(t, i), List.mem_zipIdx_iff_getElem?.mpr hget, ?_⟩
    dsimp only
    rw [hopens, hlisted, hnewest]
    rfl

/-- The newest backup is one of the backups. -/
lemma mem_of_newestOf {listed : List (Nat × Slot σ)} {b : Nat × Slot σ}
    (hb : newestOf listed = some b) : b ∈ listed := by
  have hall : ∀ b' ∈ newestOf listed, b' ∈ listed := by
    refine foldl_invariant (I := fun newest => ∀ b' ∈ newest, b' ∈ listed) (fun c hc newest h => ?_)
      (fun b' hb' => nomatch hb')
    intro b' hb'
    cases newest with
    | none => exact Option.some.inj hb' ▸ hc
    | some b =>
      unfold newer at hb'
      dsimp only at hb'
      split at hb'
      · exact Option.some.inj hb' ▸ hc
      · exact Option.some.inj hb' ▸ h b rfl
  exact hall b hb

/-- Where there are backups, there is a newest one. -/
lemma newestOf_isSome {listed : List (Nat × Slot σ)} {b : Nat × Slot σ} (hb : b ∈ listed) :
    (newestOf listed).isSome = true := by
  have hsome (newest : Option (Nat × Slot σ)) (c : Nat × Slot σ) : (newer newest c).isSome := by
    unfold newer
    split
    · rfl
    · split <;> rfl
  exact foldl_establishes (Q := fun newest => newest.isSome = true) hb
    (fun newest => hsome newest b) (fun c _ newest _ => hsome newest c) none

/-- The backup to restore is the newest of a target, and is from another host. -/
lemma of_toRestore {i : Nat} {s : Slot σ} (hrestore : toRestore S env h.targets = some (i, s)) :
    ∃ t, h.targets[i]? = some t ∧ t.newest = some s ∧ S.wrote s = false := by
  obtain ⟨hnewest, hforeign⟩ := Option.filter_eq_some_iff.mp hrestore
  obtain ⟨t, hget, _, _, ht⟩ := mem_listing.mp (mem_of_newestOf hnewest)
  exact ⟨t, hget, ht, by simpa using hforeign⟩

/-- The newest backup of a target is found by its id. -/
lemma restoreFrom_newest {t : Target σ} {s : Slot σ} (hnewest : t.newest = some s) :
    restoreFrom S env s.id t = match env.restore with
      | some e => .error e
      | none => .ok s := by
  unfold restoreFrom
  cases env.restore with
  | some e => rfl
  | none =>
    obtain ⟨rest, hlist⟩ := List.head?_eq_some_iff.mp hnewest
    dsimp only
    rw [hlist, List.find?_cons, beq_self_eq_true]

end Restore

/-! ## What a sync leaves -/

section Leaves

variable {S} {env : SyncEnv} {h : Host σ}

/-- A prune without errors leaves what the retention keeps. -/
lemma pruneTarget_newest {env : TargetEnv} {t : Target σ} (herrors : (pruneTarget S env t).2 = []) :
    (pruneTarget S env t).1.newest = (survivors S.calendar t.retention t.slots).head? := by
  unfold pruneTarget Target.newest at *
  dsimp only at herrors ⊢
  cases hprune : (prune S.calendar env.prune t.retention t.slots).1 with
  | error e =>
    rw [hprune] at herrors
    exact absurd herrors (List.cons_ne_nil _ _)
  | ok report =>
    rw [hprune] at herrors
    dsimp only at herrors ⊢
    split at herrors
    · rename_i hcomplete
      rw [if_pos hcomplete, prune_complete hprune hcomplete]
    · exact absurd herrors (List.cons_ne_nil _ _)

lemma aborted_newest (env : TargetEnv) (id : String) (t : Target σ) :
    (t.aborted env id).newest = t.newest := by
  unfold Target.aborted
  split <;> rfl

/-- Where nothing fails with the targets, all of them are opened. -/
lemma opens_of_noErrors {targets : List (Target σ)} (herrors : openErrors env targets = [])
    {i : Nat} {t : Target σ} (hget : targets[i]? = some t) : (env.target i).opens = none := by
  have hone := List.flatMap_eq_nil_iff.mp herrors (t, i) (List.mem_zipIdx_iff_getElem?.mpr hget)
  have hopens := (List.append_eq_nil_iff.mp hone).2
  rw [Option.toList_eq_nil_iff, Option.map_eq_none_iff] at hopens
  exact hopens

variable [DecidableEq σ]

/-- A run without errors: the newest backup of the target afterwards. -/
lemma runOne_newest {env : TargetEnv} {live : σ} {t : Target σ}
    (herrors : (runOne S env live t).2.errors = []) :
    (runOne S env live t).1.newest = if unchanged live t then t.newest
      else (survivors S.calendar t.retention (t.slots ++ [newSlot S env.now live t])).head? := by
  unfold runOne at *
  cases hslot : env.slot with
  | some e =>
    rw [hslot] at herrors
    exact absurd herrors (List.cons_ne_nil _ _)
  | none =>
    cases hbackup : env.backup with
    | some e =>
      rw [hslot, hbackup] at herrors
      exact absurd herrors (List.cons_ne_nil _ _)
    | none =>
      rw [hslot, hbackup] at herrors
      dsimp only at herrors ⊢
      split
      · exact aborted_newest env _ t
      · rename_i hchanged
        rw [if_neg hchanged] at herrors
        cases hcommit : env.commit with
        | some e =>
          rw [hcommit] at herrors
          exact absurd herrors (List.cons_ne_nil _ _)
        | none =>
          rw [hcommit] at herrors
          exact pruneTarget_newest herrors

/-- A sync of a target without errors leaves a backup of this host as the newest one, exactly if the
target meets the condition. -/
lemma syncTarget_leaves_iff {env : TargetEnv} {live : σ} {t : Target σ}
    (herrors : (syncTarget S env live t).2.errors = []) :
    (∀ s ∈ (syncTarget S env live t).1.newest, S.wrote s = true) ↔ LeavesOwn S env.now live t := by
  unfold syncTarget at *
  cases hlock : env.lock with
  | some e =>
    rw [hlock] at herrors
    exact absurd herrors (List.cons_ne_nil _ _)
  | none =>
    rw [hlock] at herrors
    dsimp only at herrors ⊢
    rw [runOne_newest (List.map_eq_nil_iff.mp herrors)]
    unfold LeavesOwn
    split <;> rfl

/-- The backups of a sync that got so far. -/
lemma syncInstance_of_noErrors (herrors : (syncInstance S env h).2.1.errors = []) :
    (syncInstance S env h).1 =
        ⟨afterRestore S env h, (backUp S env (afterRestore S env h) h.targets).map Prod.fst⟩ ∧
      ∀ run ∈ backUp S env (afterRestore S env h) h.targets, run.2.errors = [] := by
  unfold syncInstance afterRestore at *
  cases hrestore : toRestore S env h.targets with
  | none =>
    rw [hrestore] at herrors
    exact ⟨rfl, List.flatMap_eq_nil_iff.mp herrors⟩
  | some newest =>
    obtain ⟨i, s⟩ := newest
    obtain ⟨t, hget, hnewest, _⟩ := of_toRestore hrestore
    rw [hrestore] at herrors
    dsimp only at herrors ⊢
    rw [hget] at herrors ⊢
    dsimp only at herrors ⊢
    rw [restoreFrom_newest hnewest] at herrors ⊢
    cases hfail : env.restore with
    | some e =>
      rw [hfail] at herrors
      exact absurd herrors (List.cons_ne_nil _ _)
    | none =>
      rw [hfail] at herrors
      exact ⟨rfl, List.flatMap_eq_nil_iff.mp herrors⟩

/-- A sync that ends without error leaves a backup of this host as the newest one of every target,
exactly if every target meets the condition. -/
lemma backupSync_leaves_iff (hclean : Clean (backupSync S env h).2) :
    (∀ t ∈ (backupSync S env h).1.targets, ∀ s ∈ t.newest, S.wrote s = true) ↔
      ∀ i t, h.targets[i]? = some t → LeavesOwn S (env.target i).now (afterRestore S env h) t := by
  obtain ⟨out, hout, htop, hinst⟩ := hclean
  unfold backupSync at *
  split at hout
  · exact nomatch hout
  rename_i hsome
  rw [if_neg hsome]
  split at hout
  · exact nomatch hout
  rename_i hopened
  rw [if_neg hopened]
  dsimp only at hout ⊢
  obtain rfl := Except.ok.inj hout
  obtain ⟨hhost, hruns⟩ := syncInstance_of_noErrors hinst
  have hopens {i : Nat} {t : Target σ} (hget : h.targets[i]? = some t) :
      (env.target i).opens = none :=
    opens_of_noErrors (List.append_eq_nil_iff.mp htop).1 hget
  rw [hhost]
  have hrun {i : Nat} {t : Target σ} (hget : h.targets[i]? = some t) :
      (backUp S env (afterRestore S env h) h.targets)[i]? =
        some (syncTarget S (env.target i) (afterRestore S env h) t) := by
    unfold backUp
    rw [List.getElem?_mapIdx, hget, Option.map_some, hopens hget]
    rfl
  have herrors {i : Nat} {t : Target σ} (hget : h.targets[i]? = some t) :
      (syncTarget S (env.target i) (afterRestore S env h) t).2.errors = [] :=
    hruns _ (List.mem_of_getElem? (hrun hget))
  constructor
  · intro hall i t hget
    refine (syncTarget_leaves_iff (herrors hget)).mp (hall _ ?_)
    exact List.mem_map_of_mem (List.mem_of_getElem? (hrun hget))
  · intro hall t' ht'
    obtain ⟨run, hmem, rfl⟩ := List.mem_map.mp ht'
    obtain ⟨i, hi⟩ := List.getElem?_of_mem hmem
    cases hget : h.targets[i]? with
    | none =>
      unfold backUp at hi
      rw [List.getElem?_mapIdx, hget] at hi
      exact nomatch hi
    | some t =>
      rw [hrun hget] at hi
      obtain rfl := Option.some.inj hi
      exact (syncTarget_leaves_iff (herrors hget)).mpr (hall i t hget)

/-- A sync in which only one target can be opened. -/
def onlyTarget (i : Nat) : SyncEnv where
  target j := ⟨none, if j = i then none else some "unreachable", false, none, 0, none, none, false,
    none, ⟨none, fun _ => none, fun _ => .done⟩, none⟩
  restore := none

/-- No sync restores anything, exactly if the newest backup of every target is from this host. -/
lemma restores_nothing_iff :
    (∀ next, restored (backupSync S next h).2 = none) ↔
      ∀ t ∈ h.targets, ∀ s ∈ t.newest, S.wrote s = true := by
  constructor
  · intro hnext t ht s hs
    by_contra hforeign
    obtain ⟨i, hget⟩ := List.getElem?_of_mem ht
    have hopens : ((onlyTarget i).target i).opens = none := if_pos rfl
    have hlisted : (i, s) ∈ listing (onlyTarget i) h.targets :=
      mem_listing.mpr ⟨t, hget, hopens, rfl, hs⟩
    -- the target is the only one that is opened, so its newest backup is the newest
    obtain ⟨⟨j, s'⟩, hnewest⟩ := Option.isSome_iff_exists.mp (newestOf_isSome hlisted)
    obtain ⟨t', hget', hopens', _, hs'⟩ := mem_listing.mp (mem_of_newestOf hnewest)
    have hji : j = i := by
      by_contra hne
      exact absurd (hopens'.symm.trans (if_neg hne)) (Option.some_ne_none _).symm
    subst hji
    obtain rfl := Option.some.inj (hget.symm.trans hget')
    obtain rfl := Option.some.inj (hs.symm.trans hs')
    have hrestore : toRestore S (onlyTarget j) h.targets = some (j, s) := by
      unfold toRestore
      rw [hnewest, Option.filter_some, if_pos (by simpa using hforeign)]
    have hrestored := hnext (onlyTarget j)
    unfold backupSync at hrestored
    rw [if_neg (by simpa using List.ne_nil_of_mem ht), if_neg ?_] at hrestored
    · unfold syncInstance at hrestored
      rw [hrestore] at hrestored
      dsimp only at hrestored
      rw [hget] at hrestored
      dsimp only at hrestored
      rw [restoreFrom_newest hs] at hrestored
      exact nomatch hrestored
    · intro hall
      have hone := List.all_eq_true.mp hall (t, j) (List.mem_zipIdx_iff_getElem?.mpr hget)
      dsimp only at hone
      rw [hopens] at hone
      exact nomatch hone
  · intro hown next
    have hnone : toRestore S next h.targets = none := by
      refine Option.eq_none_iff_forall_ne_some.mpr fun newest hrestore => ?_
      obtain ⟨t, hget, hnewest, hforeign⟩ := of_toRestore hrestore
      exact absurd (hown t (List.mem_of_getElem? hget) newest.2 hnewest) (by simp [hforeign])
    unfold backupSync
    split
    · rfl
    split
    · rfl
    · unfold syncInstance
      rw [hnone]
      rfl

lemma edits_targets (changes : List σ) (h : Host σ) :
    ((changes.map Event.edit).foldl (step S) h).targets = h.targets := by
  induction changes generalizing h with
  | nil => rfl
  | cons live changes ih => exact ih { h with live := live }

lemma restores_nothing_edits (changes : List σ) (h : Host σ) :
    (∀ next, restored (backupSync S next ((changes.map Event.edit).foldl (step S) h)).2 = none) ↔
      ∀ next, restored (backupSync S next h).2 = none := by
  rw [restores_nothing_iff, restores_nothing_iff, edits_targets]

/-- In a run, no sync applies a backup of another host over what was changed since the last sync,
exactly if every sync that ends without error finds every target as follows: where the state is what
its newest backup holds, this host wrote that backup; elsewhere, with the new backup, the newest one
that the retention keeps is from this host. -/
theorem sync_neverReapplies_iff (S : Setup σ) (start : Host σ) (run : List (Event σ)) :
    NeverReapplies S start run ↔ Along (step S) (Safe S) start run := by
  constructor
  · refine fun hnever => along_of_forall fun before event hinitial => ?_
    cases event with
    | edit => trivial
    | commit => trivial
    | sync env =>
      intro hclean
      refine (backupSync_leaves_iff hclean).mp (restores_nothing_iff.mp fun next => ?_)
      have hnext := hnever before env hinitial hclean [] next
      rw [List.foldl_append] at hnext
      exact hnext
  · intro hsafe before env hinitial hclean changes next
    have hone := (along_of_append (along_of_initial hsafe hinitial)).1 hclean
    refine (restores_nothing_edits changes _).mpr (fun next => ?_) next
    rw [List.foldl_append]
    exact restores_nothing_iff.mpr ((backupSync_leaves_iff hclean).mpr hone) next

end Leaves

end Sync

/-! ## A backup that is restored twice -/

/-- A calendar with one moment. -/
def sampleCalendar : Calendar where
  inRange _ := true
  compact _ := "20260601-120000"
  hourBucket _ := "2026-06-01T12"
  date _ := "2026-06-01"
  isoWeekBucket _ := "2026-W23"
  monthBucket _ := "2026-06"
  yearBucket _ := "2026"

/-- The host that syncs. -/
def sampleSetup : Setup Nat where
  calendar := sampleCalendar
  me := ⟨"thor", "thor-id"⟩
  kind := "saves"
  inst := "world"
  layout := ["saves", "world"]
  size _ := 1

/-- A backup that another host has committed. -/
def foreignSlot : Slot Nat :=
  ⟨"20260101-000000-freyr", 0, 1, some ⟨"freyr", "freyr-id"⟩, ["saves", "world"], 7⟩

/-- A pool with this backup, and a state of the instance that differs from it. -/
def sampleHost : Host Nat := ⟨3, [⟨"smb/pool", true, .default, [foreignSlot], []⟩]⟩

/-- A sync in which nothing fails. -/
def quietSync : SyncEnv where
  target _ := ⟨none, none, false, none, 1780315200000, none, none, false, none,
    ⟨none, fun _ => none, fun _ => .done⟩, none⟩
  restore := none

/-- The first sync restores the backup and commits nothing, since nothing has changed; the next one
restores it again, over the change made between them. -/
theorem restored_again :
    ¬∀ (S : Setup Nat) (start : Host Nat) (run : List (Event Nat)), NeverReapplies S start run := by
  intro hall
  have hnone := hall sampleSetup sampleHost [.sync quietSync] [] quietSync (List.prefix_refl _)
    ⟨⟨⟨some foreignSlot, [], ["smb/pool"], []⟩, []⟩, by rfl, rfl, rfl⟩ [9] quietSync
  have hagain : restored (backupSync sampleSetup quietSync (([9].map Event.edit).foldl
      (step sampleSetup) ([.sync quietSync].foldl (step sampleSetup) sampleHost))).2 =
        some foreignSlot := by rfl
  exact absurd (hagain.symm.trans hnone) (Option.some_ne_none _)

end Orca.Backup
