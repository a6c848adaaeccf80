import Mathlib.Data.List.Nodup
import Orca.Library.Invariant

/-!
# Mounts inside guests

Placements that target a guest are applied inside it by the registered appliers.  A ledger on disk
remembers what has been applied, by guest, target and applier, so that a placement that is gone can
be removed by whoever applied it.  One pass loads the ledger, applies every desired placement with
every applier, asks for the removal of the entries that are no longer desired, and saves.

What must not be forgotten is said by `outstanding`: the entry of the last successful apply, unless
a removal with that very entry has succeeded since.  A pass keeps every outstanding entry in the
ledger exactly if it reads the ledger, or applies again whatever is outstanding (`held_step_iff`): a
ledger that could not be read counts as empty, and the pass saves over it.
-/

namespace Orca.Mounts

/-- A placement rendered for a guest. -/
structure GuestMountSpec where
  guest : String
  target : String
  backend : String
  fstype : String
  sources : List String
  options : String
  credential : Option String
  deriving DecidableEq, Repr

/-- One guest mount that has been applied. -/
structure GuestLedgerEntry where
  guest : String
  target : String
  applier : String
  /-- Bind source, for a source that is a host path. -/
  source : Option String
  deriving DecidableEq, Repr

/-- What an entry is keyed by. -/
structure GuestKey where
  guest : String
  target : String
  applier : String
  deriving DecidableEq, Repr

/-- The key of an entry. -/
def GuestLedgerEntry.key (e : GuestLedgerEntry) : GuestKey := ⟨e.guest, e.target, e.applier⟩

/-- The ledger file. -/
inductive LedgerFile
  | absent
  | corrupt
  | entries (ledger : List GuestLedgerEntry)
  deriving DecidableEq, Repr

/-- The entries a file holds. -/
def LedgerFile.held : LedgerFile → List GuestLedgerEntry
  | .absent | .corrupt => []
  | .entries ledger => ledger

/-- A placement in one pass, with the appliers whose `apply` returns `Ok` for it. -/
structure GuestPlacement where
  spec : GuestMountSpec
  /-- Whose `apply` succeeds. -/
  accepts : String → Bool

/-- What one pass meets. -/
structure Pass where
  appliers : List String
  /-- Registering a name again replaces its applier. -/
  nodup : appliers.Nodup
  /-- The placements desired on this host, unless building them fails. -/
  desired : Option (List GuestPlacement)
  readable : Bool
  /-- Moving a corrupt ledger file aside succeeds. -/
  movesAside : Bool
  /-- `remove` returns `Ok` for the entry. -/
  removes : GuestLedgerEntry → Bool
  saves : Bool
  savesAgain : Bool

/-- What a pass does in the guests. -/
inductive GuestEffect
  /-- `apply` returned `Ok`. -/
  | applied (e : GuestLedgerEntry)
  /-- `remove`, called with the guest, the target and the source, returned `Ok`. -/
  | removed (e : GuestLedgerEntry)
  deriving DecidableEq, Repr

/-- `load_guest_ledger_at`: the entries, and what becomes of the file. -/
def loadGuestLedger (pass : Pass) (file : LedgerFile) : List GuestLedgerEntry × LedgerFile :=
  if pass.readable then
    match file with
    | .absent => ([], .absent)
    | .entries ledger => (ledger, .entries ledger)
    | .corrupt => ([], if pass.movesAside then .absent else .corrupt)
  else ([], file)

/-- The source an entry is recorded with. -/
def bindSource (spec : GuestMountSpec) : Option String :=
  spec.sources.head?.filter fun s => s.toList.head? = some '/'

/-- The entry of a placement and an applier. -/
def ledgerEntry (spec : GuestMountSpec) (applier : String) : GuestLedgerEntry :=
  ⟨spec.guest, spec.target, applier, bindSource spec⟩

/-- The entries whose `apply` returns `Ok` in the pass, in order. -/
def applications (pass : Pass) (desired : List GuestPlacement) : List GuestLedgerEntry :=
  desired.flatMap fun p => (pass.appliers.filter p.accepts).map (ledgerEntry p.spec)

/-- One application: its entry takes the place of the one that has its key. -/
def recordApplied (s : List GuestLedgerEntry × List GuestEffect) (e : GuestLedgerEntry) :
    List GuestLedgerEntry × List GuestEffect :=
  (s.1.filter (fun x => x.key ≠ e.key) ++ [e], .applied e :: s.2)

/-- An entry is still desired here. -/
def stillDesired (desired : List GuestPlacement) (guest target : String) : Bool :=
  desired.any fun p => p.spec.guest = guest ∧ p.spec.target = target

/-- One entry of the ledger: kept while desired, or while its applier is missing or fails to remove
it. -/
def releaseEntry (pass : Pass) (desired : List GuestPlacement)
    (s : List GuestLedgerEntry × List GuestEffect) (e : GuestLedgerEntry) :
    List GuestLedgerEntry × List GuestEffect :=
  if stillDesired desired e.guest e.target then (s.1 ++ [e], s.2)
  else if e.applier ∉ pass.appliers then (s.1 ++ [e], s.2)
  else if pass.removes e then (s.1, .removed e :: s.2)
  else (s.1 ++ [e], s.2)

/-- The ledger file, and what has been done in the guests, newest first. -/
structure GuestWorld where
  file : LedgerFile
  log : List GuestEffect

/-- The pass goes past its early returns, with these placements. -/
def Pass.reconciles (pass : Pass) : Option (List GuestPlacement) :=
  if pass.appliers = [] then none else pass.desired

/-- The pass ends with the ledger saved: the save is repeated only if something was applied. -/
def Pass.completes (pass : Pass) (desired : List GuestPlacement) : Bool :=
  pass.saves || (!(applications pass desired).isEmpty && pass.savesAgain)

/-- `reconcile_guest_mounts_at`. -/
def reconcileGuestMounts (w : GuestWorld) (pass : Pass) : GuestWorld :=
  match pass.reconciles with
  | none => w
  | some desired =>
    let loaded := loadGuestLedger pass w.file
    let applied := (applications pass desired).foldl recordApplied (loaded.1, w.log)
    let kept := applied.1.foldl (releaseEntry pass desired) ([], applied.2)
    { file := if pass.completes desired then .entries kept.1 else loaded.2
      log := kept.2 }

/-! ## What must not be forgotten -/

/-- The entry of the last successful apply of the key, unless `remove` with that very entry has
returned `Ok` since. -/
def outstanding (k : GuestKey) : List GuestEffect → Option GuestLedgerEntry
  | [] => none
  | .applied e :: log => if e.key = k then some e else outstanding k log
  | .removed e :: log => if outstanding k log = some e then none else outstanding k log

/-- Every outstanding entry is in the ledger. -/
def HeldIn (ledger : List GuestLedgerEntry) (log : List GuestEffect) : Prop :=
  ∀ k e, outstanding k log = some e → e ∈ ledger

/-- Every outstanding entry is in the ledger file. -/
def Held (w : GuestWorld) : Prop := HeldIn w.file.held w.log

/-- An outstanding entry is the entry of its key. -/
lemma key_of_outstanding {k : GuestKey} {log : List GuestEffect} {e : GuestLedgerEntry}
    (h : outstanding k log = some e) : e.key = k := by
  induction log with
  | nil => cases h
  | cons effect log ih =>
    cases effect with
    | applied x =>
      rw [outstanding] at h
      split at h
      · rename_i hkey
        cases h
        exact hkey
      · exact ih h
    | removed x =>
      rw [outstanding] at h
      split at h
      · cases h
      · exact ih h

/-! ### Applying -/

/-- Of one key, an application makes its own entry outstanding and puts it into the ledger. -/
lemma outstanding_recordApplied (s : List GuestLedgerEntry × List GuestEffect)
    (e : GuestLedgerEntry) (k : GuestKey) :
    outstanding k (recordApplied s e).2 = if e.key = k then some e else outstanding k s.2 := rfl

/-- The outstanding entry of a key, once in the ledger, stays there while placements are applied. -/
lemma held_recordApplied {s : List GuestLedgerEntry × List GuestEffect} {k : GuestKey}
    (x : GuestLedgerEntry) (h : ∀ e, outstanding k s.2 = some e → e ∈ s.1) :
    ∀ e, outstanding k (recordApplied s x).2 = some e → e ∈ (recordApplied s x).1 := by
  intro e he
  rw [outstanding_recordApplied] at he
  unfold recordApplied
  split at he
  · cases he
    exact List.mem_append_right _ (List.mem_singleton_self x)
  · rename_i hkey
    refine List.mem_append_left _ (List.mem_filter.mpr ⟨h e he, ?_⟩)
    have hek : e.key = k := key_of_outstanding he
    simpa [hek] using fun heq : k = x.key => hkey heq.symm

/-- An application of a key leaves its outstanding entry in the ledger, whatever was there. -/
lemma held_of_applied {s : List GuestLedgerEntry × List GuestEffect} {x : GuestLedgerEntry} :
    ∀ e, outstanding x.key (recordApplied s x).2 = some e → e ∈ (recordApplied s x).1 := by
  intro e he
  rw [outstanding_recordApplied, if_pos rfl] at he
  cases he
  exact List.mem_append_right _ (List.mem_singleton_self x)

/-- After the applications of a pass the outstanding entry of a key is in the ledger, if it was
before or the key was applied. -/
lemma held_applications {xs : List GuestLedgerEntry} {ledger : List GuestLedgerEntry}
    {log : List GuestEffect} {k : GuestKey}
    (h : (∀ e, outstanding k log = some e → e ∈ ledger) ∨ ∃ x ∈ xs, x.key = k) :
    ∀ e, outstanding k (xs.foldl recordApplied (ledger, log)).2 = some e →
      e ∈ (xs.foldl recordApplied (ledger, log)).1 := by
  rcases h with h | ⟨x, hx, rfl⟩
  · exact Invariant.foldl_invariant
      (I := fun s : List GuestLedgerEntry × List GuestEffect =>
        ∀ e, outstanding k s.2 = some e → e ∈ s.1)
      (fun x _ s hs => held_recordApplied x hs) h
  · exact Invariant.foldl_establishes
      (Q := fun s : List GuestLedgerEntry × List GuestEffect =>
        ∀ e, outstanding x.key s.2 = some e → e ∈ s.1)
      hx (fun s => held_of_applied) (fun y _ s hs => held_recordApplied y hs) _

/-! ### Removing -/

/-- An entry is kept, or its removal succeeds. -/
lemma releaseEntry_cases (pass : Pass) (desired : List GuestPlacement)
    (s : List GuestLedgerEntry × List GuestEffect) (e : GuestLedgerEntry) :
    releaseEntry pass desired s e = (s.1 ++ [e], s.2) ∨
      releaseEntry pass desired s e = (s.1, .removed e :: s.2) := by
  unfold releaseEntry
  split
  · exact Or.inl rfl
  · split
    · exact Or.inl rfl
    · split
      · exact Or.inr rfl
      · exact Or.inl rfl

/-- While the entries that are no longer desired are released, an outstanding entry is kept or still
to come. -/
lemma held_release (pass : Pass) (desired : List GuestPlacement) {todo : List GuestLedgerEntry}
    {s : List GuestLedgerEntry × List GuestEffect}
    (h : ∀ k e, outstanding k s.2 = some e → e ∈ s.1 ∨ e ∈ todo) :
    HeldIn (todo.foldl (releaseEntry pass desired) s).1
      (todo.foldl (releaseEntry pass desired) s).2 := by
  induction todo generalizing s with
  | nil =>
    intro k e he
    exact (h k e he).resolve_right List.not_mem_nil
  | cons x todo ih =>
    rw [List.foldl_cons]
    refine ih fun k e he => ?_
    rcases releaseEntry_cases pass desired s x with hkept | hremoved
    · rw [hkept] at he ⊢
      rcases h k e he with hmem | hmem
      · exact Or.inl (List.mem_append_left _ hmem)
      · rcases List.mem_cons.mp hmem with rfl | hmem
        · exact Or.inl (List.mem_append_right _ (List.mem_singleton_self _))
        · exact Or.inr hmem
    · -- the removed entry is no longer outstanding
      rw [hremoved] at he ⊢
      rw [outstanding] at he
      split at he
      · cases he
      · rename_i hne
        rcases h k e he with hmem | hmem
        · exact Or.inl hmem
        · rcases List.mem_cons.mp hmem with rfl | hmem
          · exact absurd he hne
          · exact Or.inr hmem

/-- An entry that is not in the ledger is neither removed nor kept by the release. -/
lemma lost_release (pass : Pass) (desired : List GuestPlacement) {todo : List GuestLedgerEntry}
    {s : List GuestLedgerEntry × List GuestEffect} {k : GuestKey} {e : GuestLedgerEntry}
    (h : outstanding k s.2 = some e) (hkept : e ∉ s.1) (htodo : e ∉ todo) :
    outstanding k (todo.foldl (releaseEntry pass desired) s).2 = some e ∧
      e ∉ (todo.foldl (releaseEntry pass desired) s).1 := by
  induction todo generalizing s with
  | nil => exact ⟨h, hkept⟩
  | cons x todo ih =>
    rw [List.mem_cons, not_or] at htodo
    rw [List.foldl_cons]
    rcases releaseEntry_cases pass desired s x with hx | hx
    · rw [hx]
      refine ih h (fun hmem => ?_) htodo.2
      rcases List.mem_append.mp hmem with hmem | hmem
      · exact hkept hmem
      · exact htodo.1 (List.mem_singleton.mp hmem)
    · rw [hx]
      refine ih ?_ hkept htodo.2
      rw [outstanding, h, if_neg fun heq => htodo.1 (Option.some.inj heq)]

/-- An entry whose key is not applied is neither put into the ledger nor made obsolete. -/
lemma lost_applications {xs : List GuestLedgerEntry} {s : List GuestLedgerEntry × List GuestEffect}
    {k : GuestKey} {e : GuestLedgerEntry} (h : outstanding k s.2 = some e) (hledger : e ∉ s.1)
    (hxs : ∀ x ∈ xs, x.key ≠ k) :
    outstanding k (xs.foldl recordApplied s).2 = some e ∧ e ∉ (xs.foldl recordApplied s).1 := by
  refine Invariant.foldl_invariant
    (I := fun s : List GuestLedgerEntry × List GuestEffect =>
      outstanding k s.2 = some e ∧ e ∉ s.1) (fun x hx s hs => ⟨?_, ?_⟩) ⟨h, hledger⟩
  · rw [outstanding_recordApplied, if_neg (hxs x hx)]
    exact hs.1
  · intro hmem
    rcases List.mem_append.mp hmem with hmem | hmem
    · exact hs.2 (List.mem_of_mem_filter hmem)
    · rw [List.mem_singleton] at hmem
      exact hxs x hx (hmem ▸ key_of_outstanding hs.1)

/-! ## Passes -/

/-- The pass, if it reconciles, ends with the ledger saved. -/
def SaveCompletes (_ : GuestWorld) (pass : Pass) : Prop :=
  ∀ desired, pass.reconciles = some desired → pass.completes desired = true

/-- The pass, if it reconciles, reads the ledger or applies again whatever is outstanding. -/
def ReadsOrReapplies (w : GuestWorld) (pass : Pass) : Prop :=
  ∀ desired, pass.reconciles = some desired →
    pass.readable = true ∨ ∀ k e, outstanding k w.log = some e →
      ∃ x ∈ applications pass desired, x.key = k

lemma loadGuestLedger_of_readable {pass : Pass} (h : pass.readable = true) (file : LedgerFile) :
    (loadGuestLedger pass file).1 = file.held := by
  unfold loadGuestLedger
  rw [if_pos h]
  cases file <;> rfl

/-- From a state in which everything outstanding is in the ledger file, a pass whose save completes
keeps it so exactly if it reads the ledger or applies again whatever is outstanding. -/
lemma held_step_iff {w : GuestWorld} (h : Held w) {pass : Pass} (hsave : SaveCompletes w pass) :
    Held (reconcileGuestMounts w pass) ↔ ReadsOrReapplies w pass := by
  unfold reconcileGuestMounts
  cases hreconciles : pass.reconciles with
  | none =>
    refine iff_of_true h fun desired hsome => ?_
    rw [hreconciles] at hsome
    cases hsome
  | some desired =>
    have hcompletes : pass.completes desired = true := hsave desired hreconciles
    simp only [Held, hcompletes, if_pos, LedgerFile.held]
    constructor
    · intro hheld desired' hsome
      rw [hreconciles, Option.some.injEq] at hsome
      subst hsome
      by_contra hnot
      rw [not_or] at hnot
      obtain ⟨hunreadable, hnot⟩ := hnot
      push Not at hnot
      obtain ⟨k, e, hout, hnone⟩ := hnot
      -- the ledger was taken for empty, so that the entry is lost
      have hempty : (loadGuestLedger pass w.file).1 = [] := by
        unfold loadGuestLedger
        rw [if_neg hunreadable]
      have happlied := lost_applications (s := ((loadGuestLedger pass w.file).1, w.log)) hout
        (by rw [hempty]; exact List.not_mem_nil) hnone
      have hlost := lost_release pass desired
        (s := ([], ((applications pass desired).foldl recordApplied
          ((loadGuestLedger pass w.file).1, w.log)).2)) happlied.1 List.not_mem_nil happlied.2
      exact hlost.2 (hheld k e hlost.1)
    · intro hreads
      refine held_release pass desired fun k e he => Or.inr ?_
      refine held_applications ?_ e he
      rcases hreads desired hreconciles with hreadable | happlies
      · rw [loadGuestLedger_of_readable hreadable]
        exact Or.inl (h k)
      · cases hout : outstanding k w.log with
        | none => exact Or.inl (by simp)
        | some x => exact Or.inr (happlies k x hout)

/-- A run. -/
def runGuest (w : GuestWorld) (passes : List Pass) : GuestWorld :=
  passes.foldl reconcileGuestMounts w

/-- Nothing applied is forgotten by the pass: whatever is outstanding after it is still desired
here, or in the ledger file. -/
def NotForgotten (w : GuestWorld) (pass : Pass) : Prop :=
  ∀ desired, pass.reconciles = some desired → pass.completes desired = true →
    ∀ k e, outstanding k (reconcileGuestMounts w pass).log = some e →
      stillDesired desired k.guest k.target = true ∨
        e ∈ (reconcileGuestMounts w pass).file.held

/-- **No applied guest mount is forgotten** in a run whose saves complete, if each pass that
reconciles reads the ledger or applies again whatever is outstanding; and exactly then the ledger
file holds every outstanding entry in every state of the run. -/
theorem guest_mounts_held (file : LedgerFile) (passes : List Pass)
    (hsave : Invariant.Along reconcileGuestMounts SaveCompletes ⟨file, []⟩ passes) :
    (Invariant.Along reconcileGuestMounts ReadsOrReapplies ⟨file, []⟩ passes →
        Invariant.Along reconcileGuestMounts NotForgotten ⟨file, []⟩ passes) ∧
      ((∀ before, before <+: passes → Held (runGuest ⟨file, []⟩ before)) ↔
        Invariant.Along reconcileGuestMounts ReadsOrReapplies ⟨file, []⟩ passes) := by
  have hstart : Held ⟨file, []⟩ := fun k e he => by cases he
  have hiff : (∀ before, before <+: passes → Held (runGuest ⟨file, []⟩ before)) ↔
      Invariant.Along reconcileGuestMounts ReadsOrReapplies ⟨file, []⟩ passes :=
    Invariant.foldl_holds_iff_along_of (I := Held) (fun w pass h hsave => held_step_iff h hsave)
      hstart hsave
  refine ⟨fun hreads => Invariant.along_of_forall fun before pass hinitial => ?_, hiff⟩
  intro desired _ _ k e he
  have hheld := hiff.mpr hreads (before ++ [pass]) hinitial
  rw [runGuest, List.foldl_append] at hheld
  exact Or.inr (hheld k e he)

/-! ## A ledger that cannot be read once -/

/-- A bind mount for a container. -/
def sampleSpec : GuestMountSpec :=
  ⟨"101", "/mnt/backups", "nfs", "none", ["/srv/backups"], "", none⟩

/-- A pass in which everything succeeds, but for the reading of the ledger. -/
def samplePass (desired : List GuestPlacement) (readable : Bool) : Pass where
  appliers := ["proxmox"]
  nodup := List.nodup_singleton _
  desired := some desired
  readable := readable
  movesAside := true
  removes := fun _ => true
  saves := true
  savesAgain := true

/-- The mount is applied, and the placement is removed while the ledger cannot be read. -/
def unreadPasses : List Pass := [samplePass [⟨sampleSpec, fun _ => true⟩] true, samplePass [] false]

/-- The mount is applied, and the placement is removed. -/
def readPasses : List Pass := [samplePass [⟨sampleSpec, fun _ => true⟩] true, samplePass [] true]

/-- The theorem at the run in which the ledger is read. -/
theorem guest_mounts_held_sample :
    Invariant.Along reconcileGuestMounts NotForgotten ⟨.absent, []⟩ readPasses :=
  (guest_mounts_held .absent readPasses ⟨fun _ _ => rfl, fun _ _ => rfl, trivial⟩).1
    ⟨fun _ _ => Or.inl rfl, fun _ _ => Or.inl rfl, trivial⟩

/-- A mount that was applied is forgotten by a pass that cannot read the ledger: its placement is no
longer desired, it is not in the ledger any more, and nobody was asked to remove it. -/
theorem guest_mount_forgotten :
    ¬(∀ (file : LedgerFile) (passes : List Pass),
        Invariant.Along reconcileGuestMounts SaveCompletes ⟨file, []⟩ passes →
          Invariant.Along reconcileGuestMounts NotForgotten ⟨file, []⟩ passes) ∧
      runGuest ⟨.absent, []⟩ unreadPasses =
        ⟨.entries [], [.applied ⟨"101", "/mnt/backups", "proxmox", some "/srv/backups"⟩]⟩ := by
  refine ⟨fun hall => ?_, rfl⟩
  have hkept := hall .absent unreadPasses ⟨fun _ _ => rfl, fun _ _ => rfl, trivial⟩
  have hlast := hkept.2.1 [] rfl rfl ⟨"101", "/mnt/backups", "proxmox"⟩
    ⟨"101", "/mnt/backups", "proxmox", some "/srv/backups"⟩ (by decide +kernel)
  revert hlast
  decide +kernel

end Orca.Mounts
