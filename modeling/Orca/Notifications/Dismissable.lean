import Orca.Library.Invariant
import Orca.Library.KeyedTable

/-!
# Dismissable notifications

A notification that persists has a lifecycle: it is raised, the user may dismiss it, in which case a
later raise brings it back, or ignore it permanently, which is the state `suppressed`.  Raising a
suppressed key is meant to be without effect.

`raise` reads the row and then upserts it in a statement of its own, so the model has the two as
separate steps of a client; `dismiss` and `suppress` are one statement each.  Any number of clients
run their calls in any order.

The guard of `raise` is evaluated on what was read, the upsert sets the state unconditionally, and
`set_state` looks at no transition.  Hence a suppressed row stays suppressed exactly as long as
nobody dismisses it and no raise that read the row before writes it after
(`suppressed_permanent_iff`).
-/

namespace Orca.Notifications

/-! ## Rows -/

/-- Severity ladder. -/
inductive Severity
  | info
  | warn
  | error
  | critical
  deriving DecidableEq, Repr

/-- The position on the ladder: the derived `Ord`. -/
def Severity.rank : Severity → Nat
  | .info => 0
  | .warn => 1
  | .error => 2
  | .critical => 3

/-- Who a notification is for. -/
inductive Audience
  | user
  | system
  deriving DecidableEq, Repr

/-- Lifecycle state. -/
inductive State
  | active
  | dismissed
  | suppressed
  deriving DecidableEq, Repr

/-- Optional remediation attached to a notification. -/
structure Fix where
  /-- External page that documents or performs the fix. -/
  url : Option String
  /-- Diagnostics provider that owns the repair. -/
  provider : Option String
  repairId : Option String
  unit : Option String
  /-- Action to run against the unit. -/
  action : Option String
  deriving DecidableEq, Repr

/-- `Fix::is_empty`. -/
def Fix.isEmpty (f : Fix) : Bool :=
  f.url.isNone && f.provider.isNone && f.repairId.isNone && f.unit.isNone && f.action.isNone

/-- A persisted notification row. -/
structure Notification where
  /-- Stable id the row is deduplicated by: the primary key. -/
  key : String
  source : String
  /-- The origin's own id for it. -/
  sourceRef : Option String
  severity : Severity
  /-- Whether the user can act on it. -/
  actionable : Bool
  fix : Option Fix
  title : String
  body : Option String
  audience : Audience
  /-- Where it is in its lifecycle. -/
  state : State
  /-- The user it is targeted at. -/
  userId : Option String
  /-- Unix milliseconds of the first raise. -/
  createdAt : Int
  /-- Unix milliseconds of the last write. -/
  updatedAt : Int
  deriving DecidableEq, Repr

/-- Everything a caller supplies to `raise`. -/
structure RaiseInput where
  key : String
  source : String
  sourceRef : Option String
  severity : Severity
  /-- Whether the user can act on it. -/
  actionable : Bool
  fix : Option Fix
  title : String
  body : Option String
  /-- The user it is targeted at. -/
  userId : Option String
  deriving DecidableEq, Repr

/-- `derive_audience`: for the user if it is an error or worse, or actionable. -/
def deriveAudience (severity : Severity) (actionable : Bool) : Audience :=
  if actionable || Severity.error.rank ≤ severity.rank then .user else .system

/-! ## The store -/

/-- The table `dismissable_notifications`. -/
abbrev Store := KeyedTable Notification.key

/-- The row that the statement of `raise` inserts. -/
def raisedRow (input : RaiseInput) (now : Int) : Notification where
  key := input.key
  source := input.source
  sourceRef := input.sourceRef
  severity := input.severity
  actionable := input.actionable
  fix := input.fix.filter fun f => !f.isEmpty
  title := input.title
  body := input.body
  audience := deriveAudience input.severity input.actionable
  state := .active
  userId := input.userId
  createdAt := now
  updatedAt := now

/-- The guard of `raise`, evaluated on the row that was read: whether the call goes on to write. -/
def raiseProceeds (read : Option Notification) : Bool :=
  match read with
  | some existing => existing.state != .suppressed
  | none => true

/-- The statement of `raise`: `INSERT … ON CONFLICT(key) DO UPDATE`, which keeps `created_at`. -/
def upsertRaised (store : Store) (input : RaiseInput) (now : Int) : Store :=
  store.upsert (raisedRow input now)
    (fun existing => { raisedRow input now with createdAt := existing.createdAt }) fun _ _ => rfl

/-- `raise`, when nobody else writes in between.  The second component is the row it returns. -/
def raise (store : Store) (input : RaiseInput) (now : Int) : Store × Option Notification :=
  let read := store.find input.key
  if raiseProceeds read then
    let store := upsertRaised store input now
    (store, store.find input.key)
  else (store, read)

/-- `set_state`: one `UPDATE`, whatever the state of the row is. -/
def setState (store : Store) (key : String) (state : State) (now : Int) : Store :=
  store.modify
    (fun n => if n.key = key then { n with state := state, updatedAt := now } else n) fun n => by
      split <;> rfl

/-- `dismiss`. -/
def dismiss (store : Store) (key : String) (now : Int) : Store := setState store key .dismissed now

/-- `suppress`. -/
def suppress (store : Store) (key : String) (now : Int) : Store :=
  setState store key .suppressed now

/-- What `set_state` does to the row of a key. -/
lemma find_setState (store : Store) (key : String) (state : State) (now : Int) (k : String) :
    (setState store key state now).find k =
      if k = key then (store.find k).map fun n => { n with state := state, updatedAt := now }
      else store.find k := by
  unfold setState
  rw [KeyedTable.find_modify]
  cases hfind : store.find k with
  | none => simp
  | some n =>
    have hkey : n.key = k := KeyedTable.key_of_find hfind
    by_cases hk : k = key
    · simp [hk, hkey.trans hk]
    · simp [hk, hkey]

/-- What the statement of `raise` does to the row of a key. -/
lemma find_upsertRaised (store : Store) (input : RaiseInput) (now : Int) (k : String) :
    (upsertRaised store input now).find k =
      if k = input.key then
        some (((store.find k).map fun n =>
            { raisedRow input now with createdAt := n.createdAt }).getD
          (raisedRow input now))
      else store.find k :=
  KeyedTable.find_upsert _ _ _ _ _

/-! ## Clients -/

section Clients

variable {Client : Type} [DecidableEq Client]

/-- What the clients and the table are at. -/
structure World (Client : Type) where
  store : Store
  /-- The raises that have read their row and go on to write it. -/
  raising : Client → Option (RaiseInput × Int)

/-- One statement of one client. -/
inductive Step (Client : Type)
  /-- A raise reads the row of its key. -/
  | raiseRead (client : Client) (input : RaiseInput) (now : Int)
  | raiseWrite (client : Client)
  | dismiss (key : String) (now : Int)
  | suppress (key : String) (now : Int)

/-- One step.  A client runs one call at a time. -/
def step (w : World Client) : Step Client → World Client
  | .raiseRead client input now =>
    if (w.raising client).isNone && raiseProceeds (w.store.find input.key) then
      { w with raising := Function.update w.raising client (some (input, now)) }
    else w
  | .raiseWrite client =>
    match w.raising client with
    | some (input, now) =>
      { store := upsertRaised w.store input now
        raising := Function.update w.raising client none }
    | none => w
  | .dismiss key now => { w with store := dismiss w.store key now }
  | .suppress key now => { w with store := suppress w.store key now }

/-- A run. -/
def run (w : World Client) (steps : List (Step Client)) : World Client := steps.foldl step w

/-- A raise whose two steps nobody comes between does what `raise` does. -/
theorem run_raise (w : World Client) (client : Client) (input : RaiseInput) (now : Int)
    (hidle : w.raising client = none) :
    (run w [.raiseRead client input now, .raiseWrite client]).store =
      (raise w.store input now).1 := by
  unfold run raise
  simp only [List.foldl_cons, List.foldl_nil, step, hidle, Option.isNone_none, Bool.true_and]
  by_cases h : raiseProceeds (w.store.find input.key) = true
  · simp [h]
  · simp [h, hidle]

/-! ## Ignored permanently -/

/-- The row of the key is suppressed, and all its other fields but the time of its last write are
those of `n`. -/
def Ignored (key : String) (n : Notification) (w : World Client) : Prop :=
  ∃ t, w.store.find key = some { n with state := .suppressed, updatedAt := t }

/-- The step leaves a suppressed key alone: it is not a dismissal of it, and not the write of a
raise of it. -/
def LeavesAlone (key : String) (w : World Client) : Step Client → Prop
  | .raiseWrite client => ∀ input now, w.raising client = some (input, now) → input.key ≠ key
  | .dismiss k _ => k ≠ key
  | .raiseRead .. | .suppress .. => True

lemma ignored_suppress {w : World Client} {key : String} {n : Notification} (now : Int)
    (h : w.store.find key = some n) : Ignored key n (step w (.suppress key now)) := by
  refine ⟨now, ?_⟩
  change (setState w.store key .suppressed now).find key = _
  rw [find_setState, if_pos rfl, h, Option.map_some]

/-- From a state in which the key is ignored, a step keeps it so exactly if it leaves it alone. -/
lemma ignored_step_iff {w : World Client} {key : String} {n : Notification} (h : Ignored key n w)
    (e : Step Client) : Ignored key n (step w e) ↔ LeavesAlone key w e := by
  obtain ⟨t, hrow⟩ := h
  cases e with
  | raiseRead client input now =>
    refine iff_of_true ⟨t, ?_⟩ trivial
    rw [step]
    split <;> exact hrow
  | raiseWrite client =>
    rw [step]
    cases hraising : w.raising client with
    | none =>
      refine iff_of_true ⟨t, hrow⟩ ?_
      intro input now heq
      rw [hraising] at heq
      cases heq
    | some call =>
      obtain ⟨input, now⟩ := call
      by_cases hkey : input.key = key
      · -- the upsert makes the row active again
        refine iff_of_false ?_ fun hleft => hleft input now hraising hkey
        rintro ⟨t', hrow'⟩
        have hactive := find_upsertRaised w.store input now key
        rw [if_pos hkey.symm, hrow] at hactive
        rw [hactive] at hrow'
        simp [raisedRow] at hrow'
      · refine iff_of_true ⟨t, ?_⟩ ?_
        · change (upsertRaised w.store input now).find key = _
          rw [find_upsertRaised, if_neg (Ne.symm hkey), hrow]
        · intro input' now' heq
          rw [hraising] at heq
          cases heq
          exact hkey
  | dismiss k now =>
    by_cases hkey : k = key
    · refine iff_of_false ?_ fun hleft => hleft hkey
      rintro ⟨t', hrow'⟩
      change (setState w.store k .dismissed now).find key = _ at hrow'
      rw [find_setState, if_pos hkey.symm, hrow] at hrow'
      simp at hrow'
    · refine iff_of_true ⟨t, ?_⟩ hkey
      change (setState w.store k .dismissed now).find key = _
      rw [find_setState, if_neg (Ne.symm hkey), hrow]
  | suppress k now =>
    refine iff_of_true ?_ trivial
    by_cases hkey : k = key
    · refine ⟨now, ?_⟩
      change (setState w.store k .suppressed now).find key = _
      rw [find_setState, if_pos hkey.symm, hrow, Option.map_some]
    · refine ⟨t, ?_⟩
      change (setState w.store k .suppressed now).find key = _
      rw [find_setState, if_neg (Ne.symm hkey), hrow]

/-- No step of the run is a dismissal of the key. -/
def NoDismissal (key : String) (steps : List (Step Client)) : Prop :=
  ∀ now, Step.dismiss key now ∉ steps

/-- No raise of the key that has read the row before the run writes it in the run. -/
def NoLateRaise (key : String) (w : World Client) (steps : List (Step Client)) : Prop :=
  ∀ client input now, w.raising client = some (input, now) → input.key = key →
    Step.raiseWrite client ∉ steps

/-- A read changes what its client is at, and nobody else. -/
lemma raising_raiseRead (w : World Client) (client : Client) (input : RaiseInput) (now : Int) :
    (step w (.raiseRead client input now)).raising =
      if (w.raising client).isNone && raiseProceeds (w.store.find input.key) then
        Function.update w.raising client (some (input, now))
      else w.raising := by
  rw [step]
  split <;> rfl

lemma raising_raiseWrite (w : World Client) (client : Client) :
    (step w (.raiseWrite client)).raising = Function.update w.raising client none := by
  rw [step]
  cases hcall : w.raising client with
  | none => exact (Function.update_eq_self_iff.mpr hcall.symm).symm
  | some call => rfl

/-- While the key is ignored, a raise of it that has read is one that had read before. -/
lemma raising_of_raising_step {w : World Client} {key : String} {n : Notification}
    (h : Ignored key n w) {e : Step Client} {client : Client} {input : RaiseInput} {now : Int}
    (hkey : input.key = key) (hraising : (step w e).raising client = some (input, now)) :
    w.raising client = some (input, now) := by
  obtain ⟨t, hrow⟩ := h
  cases e with
  | raiseRead client' input' now' =>
    rw [raising_raiseRead] at hraising
    split at hraising
    · rename_i hproceeds
      by_cases hclient : client = client'
      · -- the raise that reads now does not go on: the row it reads is suppressed
        subst hclient
        rw [Function.update_self, Option.some.injEq, Prod.mk.injEq] at hraising
        obtain ⟨rfl, -⟩ := hraising
        rw [hkey, hrow] at hproceeds
        simp [raiseProceeds] at hproceeds
      · rwa [Function.update_of_ne hclient] at hraising
    · exact hraising
  | raiseWrite client' =>
    rw [raising_raiseWrite] at hraising
    by_cases hclient : client = client'
    · subst hclient
      rw [Function.update_self] at hraising
      cases hraising
    · rwa [Function.update_of_ne hclient] at hraising
  | dismiss => exact hraising
  | suppress => exact hraising

/-- A raise that has read the row goes on to write until it does. -/
lemma raising_step {w : World Client} {client : Client} {call : RaiseInput × Int}
    (h : w.raising client = some call) {e : Step Client} (hne : e ≠ .raiseWrite client) :
    (step w e).raising client = some call := by
  cases e with
  | raiseRead client' input now =>
    rw [raising_raiseRead]
    split
    · rename_i hproceeds
      have hclient : client ≠ client' := by
        rintro rfl
        simp [h] at hproceeds
      rw [Function.update_of_ne hclient, h]
    · exact h
  | raiseWrite client' =>
    have hclient : client ≠ client' := fun heq => hne (heq ▸ rfl)
    rw [raising_raiseWrite, Function.update_of_ne hclient, h]
  | dismiss => exact h
  | suppress => exact h

/-- From a state in which the key is ignored, the steps of a run all leave it alone exactly if the
run neither dismisses it nor finishes a raise that had read it before. -/
lemma along_leavesAlone_iff {w : World Client} {key : String} {n : Notification}
    (h : Ignored key n w) (steps : List (Step Client)) :
    Invariant.Along step (LeavesAlone key) w steps ↔
      NoDismissal key steps ∧ NoLateRaise key w steps := by
  induction steps generalizing w with
  | nil =>
    refine iff_of_true trivial ⟨fun now => List.not_mem_nil, ?_⟩
    exact fun _ _ _ _ _ => List.not_mem_nil
  | cons e steps ih =>
    constructor
    · rintro ⟨hleft, hrest⟩
      obtain ⟨hdismissal, hlate⟩ := (ih ((ignored_step_iff h e).mpr hleft)).mp hrest
      constructor
      · intro now hmem
        rcases List.mem_cons.mp hmem with rfl | hmem
        · exact hleft rfl
        · exact hdismissal now hmem
      · intro client input now hraising hkey hmem
        have hne : e ≠ .raiseWrite client := by
          rintro rfl
          exact hleft input now hraising hkey
        rcases List.mem_cons.mp hmem with heq | hmem
        · exact hne heq.symm
        · exact hlate client input now (raising_step hraising hne) hkey hmem
    · rintro ⟨hdismissal, hlate⟩
      have hleft : LeavesAlone key w e := by
        cases e with
        | raiseRead => trivial
        | raiseWrite client =>
          intro input now hraising hkey
          exact hlate client input now hraising hkey List.mem_cons_self
        | dismiss k now =>
          rintro rfl
          exact hdismissal now List.mem_cons_self
        | suppress => trivial
      refine ⟨hleft, (ih ((ignored_step_iff h e).mpr hleft)).mpr ⟨?_, ?_⟩⟩
      · exact fun now hmem => hdismissal now (List.mem_cons_of_mem e hmem)
      · intro client input now hraising hkey hmem
        have hbefore := raising_of_raising_step h hkey hraising
        exact hlate client input now hbefore hkey (List.mem_cons_of_mem e hmem)

/-- Once a suppression of an existing row has completed, the row stays suppressed and all its other
fields but the time of the last write stay what they were, in every later state of a run, exactly if
the run has no dismissal of the key and no raise of the key that had read the row before the
suppression writes it in the run. -/
theorem suppressed_permanent_iff (w : World Client) (key : String) (n : Notification) (now : Int)
    (h : w.store.find key = some n) (steps : List (Step Client)) :
    (∀ before, before <+: steps → Ignored key n (run (step w (.suppress key now)) before)) ↔
      NoDismissal key steps ∧ NoLateRaise key w steps := by
  have hignored : Ignored key n (step w (.suppress key now)) := ignored_suppress now h
  calc (∀ before, before <+: steps → Ignored key n (run (step w (.suppress key now)) before))
      ↔ Invariant.Along step (LeavesAlone key) (step w (.suppress key now)) steps :=
        Invariant.foldl_holds_iff_along (I := Ignored key n) (fun _ e hs => ignored_step_iff hs e)
          hignored
    _ ↔ NoDismissal key steps ∧ NoLateRaise key w steps := along_leavesAlone_iff hignored steps

end Clients

/-! ## A run that forgets a suppression -/

/-- A warning from the diagnostics. -/
def sampleInput : RaiseInput :=
  ⟨"diag:disk:full", "diagnostics:disk", none, .warn, true, none, "Disk is full", none, none⟩

/-- The warning has been raised once, and client `1` raises it again: it has read the row. -/
def sampleWorld : World Nat where
  store := upsertRaised KeyedTable.empty sampleInput 1
  raising := Function.update (fun _ => none) 1 (some (sampleInput, 2))

lemma find_sampleWorld :
    sampleWorld.store.find sampleInput.key = some (raisedRow sampleInput 1) := by
  unfold sampleWorld
  rw [find_upsertRaised, if_pos rfl]
  rfl

/-- The equivalence at a run in which the raise that had read is never finished. -/
theorem suppressed_permanent_sample :
    sampleWorld.store.find "diag:disk:full" = some (raisedRow sampleInput 1) ∧
      ∀ before, before <+: [Step.suppress "diag:disk:full" 4, .raiseRead 2 sampleInput 5] →
        Ignored "diag:disk:full" (raisedRow sampleInput 1)
          (run (step sampleWorld (.suppress "diag:disk:full" 3)) before) := by
  refine ⟨find_sampleWorld,
    (suppressed_permanent_iff sampleWorld _ _ 3 find_sampleWorld _).mpr ⟨?_, ?_⟩⟩
  · intro now hmem
    simp at hmem
  · intro client input now _ _ hmem
    simp at hmem

/-- A suppression is undone by a dismissal that follows it, and also by a raise that had read the
row before. -/
theorem suppressed_not_permanent :
    ¬(∀ (w : World Nat) (key : String) (n : Notification) (now : Int) (steps : List (Step Nat)),
      w.store.find key = some n →
        ∀ before, before <+: steps → Ignored key n (run (step w (.suppress key now)) before)) ∧
      (run sampleWorld [.suppress "diag:disk:full" 3, .dismiss "diag:disk:full" 4]).store.find
          "diag:disk:full" =
        some { raisedRow sampleInput 1 with state := .dismissed, updatedAt := 4 } ∧
      (run sampleWorld [.suppress "diag:disk:full" 3, .raiseWrite 1]).store.find "diag:disk:full" =
        some { raisedRow sampleInput 1 with state := .active, updatedAt := 2 } := by
  refine ⟨?_, by decide +kernel, by decide +kernel⟩
  intro hall
  have hkept := hall sampleWorld _ _ 3 [.dismiss "diag:disk:full" 4] find_sampleWorld _
    (List.prefix_refl _)
  obtain ⟨t, hrow⟩ := hkept
  have hdismissed : (run (step sampleWorld (.suppress "diag:disk:full" 3))
      [.dismiss "diag:disk:full" 4]).store.find "diag:disk:full" =
        some { raisedRow sampleInput 1 with state := .dismissed, updatedAt := 4 } := by
    decide +kernel
  exact absurd (hdismissed.symm.trans hrow) (by simp)

end Orca.Notifications
