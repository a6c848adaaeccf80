import Mathlib.Logic.Function.Basic
import Orca.Approvals.Store
import Orca.Library.Emission
import Orca.Library.Invariant

/-!
# Clients that race for an approval

Any number of clients run `decide` and `mark_executed`, each with its own clock, while `expire_due`
runs now and then.  The statements of a call are separate steps (`Step`), so that a client may act
on a copy of the request that is out of date by the time it writes.

The guard of `apply` lets a write through only if the stored row still is in the state of the copy,
and the states only move forward (`Moves`).  So each of the two states that a write can start from,
`pending` and `approved`, is left once, and what `Turn` keeps is that a kind of call that starts
from such a state has at most one call that wrote: either one that has returned, or one that is
about to.  The result is `approvals_once`.
-/

namespace Orca.Approvals

open Emission

/-! ## Steps -/

/-- How far a client is with its call. -/
inductive Phase where
  | idle
  | loaded (call : Call) (req : ApprovalRequest)
  | written (call : Call)

/-- The shared table and the clients. -/
structure World (ι : Type*) where
  table : Table
  phase : ι → Phase

/-- A step of some client, or of the task that expires requests. -/
inductive Step (ι : Type*) where
  /-- A client starts a call and loads the request. -/
  | load (client : ι) (call : Call)
  /-- It decides on its copy and runs the guarded statement. -/
  | write (client : ι)
  /-- It loads the request again and returns it. -/
  | read (client : ι)
  /-- The requests that are due are expired. -/
  | expireDue (nowMs : Int)

/-- What can be seen of a step. -/
inductive Event where
  /-- The guarded statement of a call moved the row to a state. -/
  | wrote (call : Call) (next : ApprovalState)
  | returned (call : Call) (result : Except ApprovalError ApprovalRequest)

section Steps

variable {ι : Type*} [DecidableEq ι]

/-- One step.  A step that its client is not ready for does nothing. -/
def advance (w : World ι) : Step ι → World ι × Option Event
  | .load client call =>
      match w.phase client with
      | .idle =>
          match load call.requestId w.table with
          | .ok req => (⟨w.table, Function.update w.phase client (.loaded call req)⟩, none)
          | .error e => (w, some (.returned call (.error e)))
      | _ => (w, none)
  | .write client =>
      match w.phase client with
      | .loaded call req =>
          match call.write req w.table with
          | (t, .ok next) =>
              (⟨t, Function.update w.phase client (.written call)⟩, some (.wrote call next))
          | (t, .error e) =>
              (⟨t, Function.update w.phase client .idle⟩,
                some (.returned call (.error (.transition e))))
      | _ => (w, none)
  | .read client =>
      match w.phase client with
      | .written call =>
          (⟨w.table, Function.update w.phase client .idle⟩,
            some (.returned call (load call.requestId w.table)))
      | _ => (w, none)
  | .expireDue nowMs => (⟨(expireDue nowMs w.table).1, w.phase⟩, none)

/-- The world after a run. -/
def runSteps (w : World ι) (steps : List (Step ι)) : World ι :=
  steps.foldl (fun w s => (advance w s).1) w

lemma runSteps_append (w : World ι) (before after : List (Step ι)) :
    runSteps w (before ++ after) = runSteps (runSteps w before) after := List.foldl_append

/-- What can be seen of a run. -/
def events (w : World ι) (steps : List (Step ι)) : List Event :=
  emitted (fun w s => (advance w s).1) (fun w s => (advance w s).2) w steps

/-- A client that nobody interrupts does what `decide` and `mark_executed` do. -/
theorem uninterrupted {w : World ι} {c : ι} (hidle : w.phase c = .idle) (call : Call) :
    (runSteps w [.load c call, .write c, .read c]).table = (call.perform w.table).1 ∧
    (events w [.load c call, .write c, .read c]).getLast? =
      some (.returned call (call.perform w.table).2) := by
  unfold runSteps events emitted Call.perform
  cases hload : load call.requestId w.table with
  | error e => simp [advance, hidle, hload, emitted]
  | ok req =>
    cases hwrite : call.write req w.table with
    | mk t result => cases result <;> simp [advance, hidle, hload, hwrite, emitted]

end Steps

/-! ## The states move forward -/

/-- The moves of the state machine. -/
def ApprovalState.Legal : ApprovalState → ApprovalState → Prop
  | .pending, .approved | .pending, .denied | .pending, .expired | .approved, .executed => True
  | _, _ => False

/-- No state is left any more. -/
def ApprovalState.Final (s : ApprovalState) : Prop :=
  s = .denied ∨ s = .expired ∨ s = .executed

/-- No move leads back to `pending`. -/
lemma ApprovalState.Legal.ne_pending {a b : ApprovalState} (h : a.Legal b) : b ≠ .pending := by
  rintro rfl
  cases a <;> exact h

/-- What a statement may do to a row: nothing, or a legal move that leaves what was approved. -/
structure Moves (a b : ApprovalRequest) : Prop where
  /-- The hash of the arguments stays. -/
  argsHash : b.argsHash = a.argsHash
  expiresAt : b.expiresAt = a.expiresAt
  change : b = a ∨ a.state.Legal b.state

lemma Moves.refl (a : ApprovalRequest) : Moves a a := ⟨rfl, rfl, Or.inl rfl⟩

lemma Moves.eq_of_final {a b : ApprovalRequest} (h : Moves a b) (hfinal : a.state.Final) :
    b = a := by
  rcases h.change with heq | hlegal
  · exact heq
  · rcases hfinal with hs | hs | hs <;> rw [hs] at hlegal <;> cases hlegal

/-- A statement that does not decide leaves a row or expires it. -/
def Expires (a b : ApprovalRequest) : Prop :=
  b = a ∨ a.state = .pending ∧ b = { a with state := .expired }

lemma Expires.moves {a b : ApprovalRequest} (h : Expires a b) : Moves a b := by
  rcases h with rfl | ⟨hstate, rfl⟩
  · exact Moves.refl b
  · refine ⟨rfl, rfl, Or.inr ?_⟩
    rw [hstate]
    trivial

/-- The statement of `expire_due` expires rows. -/
lemma expireRow_expires (nowMs : Int) (row : ApprovalRequest) :
    Expires row (expireRow nowMs row) := by
  unfold expireRow
  split
  · rename_i hdue
    exact Or.inr ⟨hdue.1, rfl⟩
  · exact Or.inl rfl

/-- The statement by which `decide` records that a decision came too late expires rows. -/
lemma applyRow_expires {req : ApprovalRequest} (hpending : req.state = .pending)
    (row : ApprovalRequest) : Expires row (applyRow req .expired none row) := by
  unfold applyRow
  split
  · rename_i hguard
    exact Or.inr ⟨hguard.2.trans hpending, rfl⟩
  · exact Or.inl rfl

/-- Every row of a table is still there in another one, changed only as the relation allows. -/
def Carries (R : ApprovalRequest → ApprovalRequest → Prop) (t t' : Table) : Prop :=
  ∀ id row, t.find id = some row → ∃ row', t'.find id = some row' ∧ R row row'

lemma carries_modify {R : ApprovalRequest → ApprovalRequest → Prop} {t : Table}
    {f : ApprovalRequest → ApprovalRequest} (hf : ∀ row, (f row).id = row.id)
    (h : ∀ row, R row (f row)) : Carries R t (t.modify f hf) := by
  intro id row hfind
  refine ⟨f row, ?_, h row⟩
  rw [KeyedTable.find_modify, hfind]
  rfl

lemma carries_self {R : ApprovalRequest → ApprovalRequest → Prop} (hR : ∀ a, R a a) (t : Table) :
    Carries R t t :=
  fun _ row hfind => ⟨row, hfind, hR row⟩

lemma Carries.mono {R R' : ApprovalRequest → ApprovalRequest → Prop} {t t' : Table}
    (h : Carries R t t') (hR : ∀ a b, R a b → R' a b) : Carries R' t t' := by
  intro id row hfind
  obtain ⟨row', hfind', hrow⟩ := h id row hfind
  exact ⟨row', hfind', hR row row' hrow⟩

lemma pending_of_expired {req : ApprovalRequest} {v : ApprovalVerdict} {nowMs : Int}
    (h : transition req v.event nowMs = .error .expired) : req.state = .pending := by
  cases v <;> unfold ApprovalVerdict.event transition at h <;> split at h <;> simp_all

/-- If `apply` finds no row to move, it moves none. -/
lemma apply_error {req : ApprovalRequest} {next : ApprovalState}
    {decided : Option (String × Factor × Int)} {t : Table} {e : TransitionError}
    (h : (apply req next decided t).2 = .error e) :
    Carries Expires t (apply req next decided t).1 := by
  intro id row hfind
  refine ⟨row, ?_, Or.inl rfl⟩
  unfold apply at h ⊢
  rw [KeyedTable.find_modify, hfind, Option.map_some]
  unfold applyRow
  split
  · rename_i hguard
    rw [← hguard.1, KeyedTable.key_of_find hfind, hfind] at h
    simp [hguard.2] at h
  · rfl

/-- A call whose write fails has expired the row at most. -/
lemma write_error {call : Call} {req : ApprovalRequest} {t t' : Table} {e : TransitionError}
    (h : call.write req t = (t', .error e)) : Carries Expires t t' := by
  have hnothing : Carries Expires t t := carries_self (fun _ => Or.inl rfl) t
  have happlied : ∀ {next : ApprovalState} {decided : Option (String × Factor × Int)},
      ((apply req next decided t).1, (apply req next decided t).2.map fun _ => next) =
        (t', Except.error e) → Carries Expires t t' := by
    intro next decided heq
    obtain ⟨rfl, hresult⟩ := Prod.mk.inj heq
    cases hok : (apply req next decided t).2 with
    | error e' => exact apply_error hok
    | ok u => rw [hok] at hresult; cases hresult
  cases call with
  | decide d nowMs =>
    cases htransition : transition req d.verdict.event nowMs with
    | ok next =>
      simp only [Call.write, htransition] at h
      exact happlied h
    | error e' =>
      cases e' with
      | expired =>
        simp only [Call.write, htransition, Prod.mk.injEq] at h
        rw [← h.1]
        exact carries_modify (applyRow_id req .expired none)
          (applyRow_expires (pending_of_expired htransition))
      | illegal s =>
        simp only [Call.write, htransition, Prod.mk.injEq] at h
        rwa [← h.1]
      | notYetExpired =>
        simp only [Call.write, htransition, Prod.mk.injEq] at h
        rwa [← h.1]
      | argsHashMismatch =>
        simp only [Call.write, htransition, Prod.mk.injEq] at h
        rwa [← h.1]
  | markExecuted rid argsHash nowMs =>
    cases htransition : transition req (.execute argsHash) nowMs with
    | ok next =>
      simp only [Call.write, htransition] at h
      exact happlied h
    | error e' =>
      simp only [Call.write, htransition, Prod.mk.injEq] at h
      rwa [← h.1]

/-! ## What a call has checked when its write takes effect -/

/-- A call moved its copy `req` to the state `next`: what it checked of the copy. -/
def Call.Allowed (req : ApprovalRequest) (next : ApprovalState) : Call → Prop
  | .decide d _ => req.state = .pending ∧
      (next = .approved ∧ d.verdict = .approve ∨ next = .denied ∧ d.verdict = .deny)
  | .markExecuted _ argsHash nowMs =>
      req.state = .approved ∧ next = .executed ∧ argsHash = req.argsHash ∧ nowMs < req.expiresAt

/-- What is allowed is a legal move. -/
lemma Call.Allowed.legal {call : Call} {req : ApprovalRequest} {next : ApprovalState}
    (h : call.Allowed req next) : req.state.Legal next := by
  cases call with
  | decide d nowMs =>
    obtain ⟨hstate, hnext⟩ := h
    rw [hstate]
    rcases hnext with ⟨rfl, -⟩ | ⟨rfl, -⟩ <;> trivial
  | markExecuted id argsHash nowMs =>
    obtain ⟨hstate, rfl, -⟩ := h
    rw [hstate]
    trivial

/-- The write took the stored row of the copy from the state of the copy to the next one, and left
the other rows. -/
def Moved (req : ApprovalRequest) (next : ApprovalState) (t t' : Table) : Prop :=
  (∃ row row', t.find req.id = some row ∧ row.state = req.state ∧
    t'.find req.id = some row' ∧ row'.state = next ∧ row'.argsHash = row.argsHash ∧
    row'.expiresAt = row.expiresAt) ∧
  ∀ id, id ≠ req.id → t'.find id = t.find id

/-- `apply` reports success if the stored row was in the state of the copy, and then it is moved. -/
lemma apply_ok {req : ApprovalRequest} {next : ApprovalState}
    {decided : Option (String × Factor × Int)} {t : Table} {u : Unit}
    (h : (apply req next decided t).2 = .ok u) : Moved req next t (apply req next decided t).1 := by
  unfold apply at h
  refine ⟨?_, fun id hid => ?_⟩
  · cases hfind : t.find req.id with
    | none => simp [hfind] at h
    | some row =>
      have hstate : row.state = req.state := by
        by_contra hne
        simp [hfind, hne] at h
      have hguard : row.id = req.id ∧ row.state = req.state :=
        ⟨KeyedTable.key_of_find hfind, hstate⟩
      refine ⟨row, applyRow req next decided row, rfl, hstate, ?_, ?_⟩
      · unfold apply
        rw [KeyedTable.find_modify, hfind]
        rfl
      · unfold applyRow
        rw [if_pos hguard]
        exact ⟨rfl, rfl, rfl⟩
  · unfold apply
    rw [KeyedTable.find_modify]
    cases hfind : t.find id with
    | none => rfl
    | some row =>
      have hkey : row.id = id := KeyedTable.key_of_find hfind
      unfold applyRow
      rw [Option.map_some, if_neg fun hguard => hid (hkey.symm.trans hguard.1)]

/-- A decision in time is allowed. -/
lemma allowed_decide {d : ApprovalDecision} {req : ApprovalRequest} {nowMs : Int}
    {next : ApprovalState} (h : transition req d.verdict.event nowMs = .ok next) :
    (Call.decide d nowMs).Allowed req next := by
  unfold transition at h
  cases hverdict : d.verdict <;> cases hstate : req.state <;>
    simp only [hverdict, hstate, ApprovalVerdict.event] at h
  case approve.pending =>
    split at h
    · cases h
    · cases h
      exact ⟨hstate, Or.inl ⟨rfl, hverdict⟩⟩
  case deny.pending =>
    cases h
    exact ⟨hstate, Or.inr ⟨rfl, hverdict⟩⟩
  all_goals cases h

/-- An execution that passes the checks is allowed. -/
lemma allowed_markExecuted {id argsHash : String} {req : ApprovalRequest} {nowMs : Int}
    {next : ApprovalState} (h : transition req (.execute argsHash) nowMs = .ok next) :
    (Call.markExecuted id argsHash nowMs).Allowed req next := by
  unfold transition at h
  cases hstate : req.state <;> simp only [hstate] at h
  case approved =>
    split at h
    · cases h
    rename_i hopen
    split at h
    · rename_i hhash
      cases h
      refine ⟨hstate, rfl, hhash, ?_⟩
      simpa [ApprovalRequest.isExpiredAt] using hopen
    · cases h
  all_goals cases h

/-- A write that takes effect was allowed on the copy and moved the row. -/
lemma write_ok {call : Call} {req : ApprovalRequest} {t t' : Table} {next : ApprovalState}
    (h : call.write req t = (t', .ok next)) : call.Allowed req next ∧ Moved req next t t' := by
  have happlied : ∀ {next' : ApprovalState} {decided : Option (String × Factor × Int)},
      ((apply req next' decided t).1, (apply req next' decided t).2.map fun _ => next') =
        (t', Except.ok next) → next' = next ∧ Moved req next t t' := by
    intro next' decided heq
    obtain ⟨rfl, hresult⟩ := Prod.mk.inj heq
    cases hok : (apply req next' decided t).2 with
    | error e => rw [hok] at hresult; cases hresult
    | ok u =>
      rw [hok] at hresult
      obtain rfl : next' = next := Except.ok.inj hresult
      exact ⟨rfl, apply_ok hok⟩
  cases call with
  | decide d nowMs =>
    cases htransition : transition req d.verdict.event nowMs with
    | ok next' =>
      simp only [Call.write, htransition] at h
      obtain ⟨rfl, hrow⟩ := happlied h
      exact ⟨allowed_decide htransition, hrow⟩
    | error e =>
      cases e with
      | expired =>
        simp only [Call.write, htransition, Prod.mk.injEq] at h
        cases hok : (apply req .expired none t).2 <;> rw [hok] at h <;> cases h.2
      | illegal s => simp [Call.write, htransition] at h
      | notYetExpired => simp [Call.write, htransition] at h
      | argsHashMismatch => simp [Call.write, htransition] at h
  | markExecuted rid argsHash nowMs =>
    cases htransition : transition req (.execute argsHash) nowMs with
    | ok next' =>
      simp only [Call.write, htransition] at h
      obtain ⟨rfl, hrow⟩ := happlied h
      exact ⟨allowed_markExecuted htransition, hrow⟩
    | error e => simp [Call.write, htransition] at h

/-! ## What a step does -/

section Effect

variable {ι : Type*} [DecidableEq ι]

/-- The effects a step can have, on the world and on what is seen. -/
inductive Effect (w w' : World ι) : Option Event → Prop where
  /-- Rows may expire; a client may have loaded its request or gone idle; at most a failure is
  returned. -/
  | quiet (e : Option Event) (hrows : Carries Expires w.table w'.table)
      (hphase : ∀ c, w'.phase c = w.phase c ∨ w'.phase c = .idle ∨
        ∃ call req, w'.phase c = .loaded call req ∧ w.table.find call.requestId = some req)
      (hevent : ∀ call req, e ≠ some (.returned call (.ok req)))
      (hwrote : ∀ call next, e ≠ some (.wrote call next)) : Effect w w' e
  /-- The write of a client takes effect. -/
  | wrote (c : ι) (call : Call) (req : ApprovalRequest) (next : ApprovalState)
      (hloaded : w.phase c = .loaded call req)
      (hwrite : call.write req w.table = (w'.table, .ok next))
      (hphase : w'.phase = Function.update w.phase c (.written call)) :
      Effect w w' (some (.wrote call next))
  /-- A client whose write took effect returns. -/
  | returned (c : ι) (call : Call) (hwritten : w.phase c = .written call)
      (htable : w'.table = w.table) (hphase : w'.phase = Function.update w.phase c .idle) :
      Effect w w' (some (.returned call (load call.requestId w.table)))

/-- Every step has one of the effects. -/
lemma advance_effect (w : World ι) (s : Step ι) :
    Effect w (advance w s).1 (advance w s).2 := by
  have hsame : Carries Expires w.table w.table := carries_self (fun _ => Or.inl rfl) w.table
  have hunseen : (∀ call req, (none : Option Event) ≠ some (.returned call (.ok req))) ∧
      ∀ call next, (none : Option Event) ≠ some (.wrote call next) :=
    ⟨fun _ _ => (Option.some_ne_none _).symm, fun _ _ => (Option.some_ne_none _).symm⟩
  have hfailed (call : Call) (e : ApprovalError) :
      (∀ call' req, some (Event.returned call (.error e)) ≠ some (.returned call' (.ok req))) ∧
        ∀ call' next, some (Event.returned call (.error e)) ≠ some (.wrote call' next) := by
    constructor
    · intro _ _ h
      cases h
    · intro _ _ h
      cases h
  have hnothing : Effect w w none :=
    .quiet none hsame (fun c => Or.inl rfl) hunseen.1 hunseen.2
  cases s with
  | load client call =>
    dsimp only [advance]
    cases hphase : w.phase client with
    | idle =>
      cases hload : load call.requestId w.table with
      | ok req =>
        refine .quiet none hsame (fun c => ?_) hunseen.1 hunseen.2
        by_cases hc : c = client
        · refine Or.inr (Or.inr ⟨call, req, by simp [hc], ?_⟩)
          unfold load at hload
          split at hload
          · rename_i hfind
            cases hload
            exact hfind
          · cases hload
        · exact Or.inl (Function.update_of_ne hc _ _)
      | error e =>
        exact .quiet _ hsame (fun c => Or.inl rfl) (hfailed call e).1 (hfailed call e).2
    | loaded call' req => exact hnothing
    | written call' => exact hnothing
  | write client =>
    dsimp only [advance]
    cases hphase : w.phase client with
    | idle => exact hnothing
    | written call => exact hnothing
    | loaded call req =>
      dsimp only
      cases hwrite : call.write req w.table with
      | mk t result =>
        cases result with
        | ok next => exact .wrote client call req next hphase hwrite rfl
        | error e =>
          refine .quiet _ (write_error hwrite) (fun c => ?_) (hfailed call (.transition e)).1
            (hfailed call (.transition e)).2
          by_cases hc : c = client
          · exact Or.inr (Or.inl (by simp [hc]))
          · exact Or.inl (Function.update_of_ne hc _ _)
  | read client =>
    dsimp only [advance]
    cases hphase : w.phase client with
    | idle => exact hnothing
    | loaded call req => exact hnothing
    | written call => exact .returned client call hphase rfl rfl
  | expireDue nowMs =>
    exact .quiet none (carries_modify (expireRow_id nowMs) (expireRow_expires nowMs))
      (fun c => Or.inl rfl) hunseen.1 hunseen.2

/-- A step moves rows. -/
lemma Effect.moves {w w' : World ι} {e : Option Event} (h : Effect w w' e) :
    Carries Moves w.table w'.table := by
  cases h with
  | quiet _ hrows _ _ _ => exact hrows.mono fun _ _ hrow => hrow.moves
  | wrote c call req next hloaded hwrite hphase =>
    obtain ⟨hallowed, ⟨row, row', hfind, hstate, hfind', hnext, hhash, hexpires⟩, hothers⟩ :=
      write_ok hwrite
    intro id a ha
    by_cases hid : id = req.id
    · subst hid
      obtain rfl : row = a := Option.some.inj (hfind.symm.trans ha)
      refine ⟨row', hfind', hhash, hexpires, Or.inr ?_⟩
      rw [hstate, hnext]
      exact hallowed.legal
    · exact ⟨a, by rw [hothers id hid, ha], Moves.refl a⟩
  | returned c call hwritten htable hphase =>
    rw [htable]
    exact carries_self Moves.refl w.table

end Effect

/-! ## One call of each kind -/

/-- The two kinds of calls. -/
inductive Kind where
  | decision
  | execution
deriving DecidableEq

/-- The kind of a call. -/
def Call.kind : Call → Kind
  | .decide _ _ => .decision
  | .markExecuted _ _ _ => .execution

/-- A call of the kind has no state left to start from: the row is past it. -/
def Kind.Past : Kind → ApprovalState → Prop
  | .decision, s => s ≠ .pending
  | .execution, s => s = .executed

/-- A call of the kind, on the request, returned `Ok`. -/
def Event.succeeded (k : Kind) (id : String) : Event → Bool
  | .returned call (.ok _) => call.kind = k ∧ call.requestId = id
  | _ => false

/-- What is behind the row stays behind it. -/
lemma Kind.past_of_moves {k : Kind} {a b : ApprovalRequest} (h : Moves a b) (hk : k.Past a.state) :
    k.Past b.state := by
  rcases h.change with rfl | hlegal
  · exact hk
  · cases k with
    | decision => exact hlegal.ne_pending
    | execution =>
      rw [show a.state = .executed from hk] at hlegal
      cases hlegal

/-- A write that is allowed starts from a state that is not past, and leaves it past. -/
lemma Call.Allowed.past {call : Call} {req : ApprovalRequest} {next : ApprovalState}
    (h : call.Allowed req next) : ¬call.kind.Past req.state ∧ call.kind.Past next := by
  cases call with
  | decide d nowMs =>
    obtain ⟨hstate, hnext⟩ := h
    refine ⟨fun hpast => hpast hstate, ?_⟩
    rcases hnext with ⟨rfl, -⟩ | ⟨rfl, -⟩ <;> exact nofun
  | markExecuted id argsHash nowMs =>
    obtain ⟨hstate, hnext, -⟩ := h
    refine ⟨?_, hnext⟩
    rw [hstate]
    exact nofun

section Turn

variable {ι : Type*}

/-- The client has a call of the kind, on the request, whose write took effect and that has not
returned. -/
def Holds (k : Kind) (id : String) (phase : ι → Phase) (c : ι) : Prop :=
  ∃ call, phase c = .written call ∧ call.kind = k ∧ call.requestId = id

/-- Of the calls of a kind on the request, at most one wrote: it has returned, or its client holds
it.  There is none as long as the row is not past the state that the kind starts from. -/
structure Turn (k : Kind) (id : String) (state : ApprovalState) (phase : ι → Phase)
    (past : List Event) : Prop where
  /-- At most one call returned `Ok`. -/
  once : past.countP (Event.succeeded k id) ≤ 1
  /-- While a client holds one, none has. -/
  waiting : ∀ c, Holds k id phase c → past.countP (Event.succeeded k id) = 0
  /-- At most one client holds one. -/
  single : ∀ c c', Holds k id phase c → Holds k id phase c' → c = c'
  early : ¬k.Past state → past.countP (Event.succeeded k id) = 0 ∧ ∀ c, ¬Holds k id phase c

variable {k : Kind} {id : String} {state state' : ApprovalState} {phase phase' : ι → Phase}
  {past : List Event} {e : List Event}

/-- The turn is kept by what gives no client a call to hold and returns none of the kind. -/
lemma Turn.keep (h : Turn k id state phase past)
    (hholds : ∀ c, Holds k id phase' c → Holds k id phase c)
    (hcount : e.countP (Event.succeeded k id) = 0) (hpast : k.Past state → k.Past state') :
    Turn k id state' phase' (past ++ e) := by
  have hsame : (past ++ e).countP (Event.succeeded k id) = past.countP (Event.succeeded k id) := by
    rw [List.countP_append, hcount, Nat.add_zero]
  refine ⟨?_, fun c hc => ?_, fun c c' hc hc' => ?_, fun hearly => ?_⟩
  · rw [hsame]
    exact h.once
  · rw [hsame]
    exact h.waiting c (hholds c hc)
  · exact h.single c c' (hholds c hc) (hholds c' hc')
  · obtain ⟨hnone, hfree⟩ := h.early fun hp => hearly (hpast hp)
    rw [hsame]
    exact ⟨hnone, fun c hc => hfree c (hholds c hc)⟩

/-- From a state that is not past, one client may write and make it past. -/
lemma Turn.take (h : Turn k id state phase past) (hearly : ¬k.Past state) {c : ι}
    (hholds : ∀ c', Holds k id phase' c' → c' = c)
    (hcount : e.countP (Event.succeeded k id) = 0) (hpast : k.Past state') :
    Turn k id state' phase' (past ++ e) := by
  have hnone : (past ++ e).countP (Event.succeeded k id) = 0 := by
    rw [List.countP_append, hcount, (h.early hearly).1]
  refine ⟨?_, fun _ _ => hnone, fun c' c'' hc' hc'' => ?_, fun hp => absurd hpast hp⟩
  · rw [hnone]
    exact Nat.zero_le 1
  · rw [hholds c' hc', hholds c'' hc'']

/-- The client that holds the call may return. -/
lemma Turn.finish (h : Turn k id state phase past) {c : ι} (hc : Holds k id phase c)
    (hholds : ∀ c', Holds k id phase' c' → c' ≠ c ∧ Holds k id phase c')
    (hcount : e.countP (Event.succeeded k id) ≤ 1) :
    Turn k id state phase' (past ++ e) := by
  have hfree : ∀ c', ¬Holds k id phase' c' := by
    intro c' hc'
    obtain ⟨hne, hheld⟩ := hholds c' hc'
    exact hne (h.single c' c hheld hc)
  have hpast : k.Past state := by
    by_contra hearly
    exact (h.early hearly).2 c hc
  refine ⟨?_, fun c' hc' => absurd hc' (hfree c'), fun c' _ hc' => absurd hc' (hfree c'),
    fun hearly => absurd hpast hearly⟩
  rw [List.countP_append, h.waiting c hc, Nat.zero_add]
  exact hcount

end Turn

/-! ## Over a run -/

section Run

variable {ι : Type*}

/-- A decision approved the request. -/
def Approves (id : String) : Event → Prop
  | .wrote (.decide d _) next => d.requestId = id ∧ d.verdict = .approve ∧ next = .approved
  | _ => False

/-- What holds in every world that is reached, with the events seen so far, of a request that was
opened as `req`. -/
structure Sound (req : ApprovalRequest) (w : World ι) (past : List Event) : Prop where
  /-- The row is there, with what was approved unchanged; it is approved or executed only after a
  decision approved it. -/
  row : ∃ row, w.table.find req.id = some row ∧ row.argsHash = req.argsHash ∧
    row.expiresAt = req.expiresAt ∧
    (row.state = .approved ∨ row.state = .executed → ∃ e ∈ past, Approves req.id e) ∧
    ∀ k, Turn k req.id row.state w.phase past
  /-- A copy is of the request of its call, with what was approved unchanged. -/
  copies : ∀ c call copy, w.phase c = .loaded call copy → copy.id = call.requestId ∧
    (copy.id = req.id → copy.argsHash = req.argsHash ∧ copy.expiresAt = req.expiresAt)
  /-- An execution that wrote presented the hash of the arguments inside the window. -/
  bound : ∀ c argsHash nowMs, w.phase c = .written (.markExecuted req.id argsHash nowMs) →
    argsHash = req.argsHash ∧ nowMs < req.expiresAt ∧ ∃ e ∈ past, Approves req.id e

variable {req : ApprovalRequest} {w w' : World ι} {past : List Event}

/-- Soundness is kept by a step that returns nothing but a failure. -/
lemma Sound.quiet {e : Option Event} (h : Sound req w past)
    (hrows : Carries Expires w.table w'.table)
    (hphase : ∀ c, w'.phase c = w.phase c ∨ w'.phase c = .idle ∨
      ∃ call copy, w'.phase c = .loaded call copy ∧ w.table.find call.requestId = some copy)
    (hevent : ∀ call r, e ≠ some (.returned call (.ok r)))
    (hwrote : ∀ call next, e ≠ some (.wrote call next)) : Sound req w' (past ++ e.toList) := by
  obtain ⟨row, hfind, hhash, hexpires, happroved, hturn⟩ := h.row
  obtain ⟨row', hfind', hrow⟩ := hrows req.id row hfind
  have hwritten : ∀ c call, w'.phase c = .written call → w.phase c = .written call := by
    intro c call hc
    rcases hphase c with hsame | hidle | ⟨call', copy, hloaded, -⟩
    · rw [← hsame, hc]
    · rw [hc] at hidle
      cases hidle
    · rw [hc] at hloaded
      cases hloaded
  have hnone : ∀ k, e.toList.countP (Event.succeeded k req.id) = 0 := by
    intro k
    cases e with
    | none => rfl
    | some ev =>
      cases ev with
      | wrote call next => exact absurd rfl (hwrote call next)
      | returned call result =>
        cases result with
        | ok r => exact absurd rfl (hevent call r)
        | error er => rfl
  refine ⟨⟨row', hfind', hrow.moves.argsHash.trans hhash, hrow.moves.expiresAt.trans hexpires,
    fun hstate => ?_, fun k => ?_⟩, fun c call copy hc => ?_, fun c argsHash nowMs hc => ?_⟩
  · rcases hrow with rfl | ⟨-, rfl⟩
    · obtain ⟨ev, hev, happroves⟩ := happroved hstate
      exact ⟨ev, List.mem_append_left _ hev, happroves⟩
    · rcases hstate with hs | hs <;> cases hs
  · refine (hturn k).keep (fun c hc => ?_) (hnone k) fun hk => Kind.past_of_moves hrow.moves hk
    obtain ⟨call, hwrote, hcall⟩ := hc
    exact ⟨call, hwritten c call hwrote, hcall⟩
  · rcases hphase c with hsame | hidle | ⟨call', copy', hloaded, hcopy⟩
    · exact h.copies c call copy (hsame ▸ hc)
    · rw [hc] at hidle
      cases hidle
    · rw [hc] at hloaded
      cases hloaded
      have hkey := KeyedTable.key_of_find hcopy
      refine ⟨hkey, fun hid => ?_⟩
      rw [← hkey, hid, hfind] at hcopy
      cases hcopy
      exact ⟨hhash, hexpires⟩
  · obtain ⟨hbound, hopen, ev, hev, happroves⟩ := h.bound c argsHash nowMs (hwritten c _ hc)
    exact ⟨hbound, hopen, ev, List.mem_append_left _ hev, happroves⟩

/-- The world in which nobody has a call. -/
def World.start (t : Table) : World ι := ⟨t, fun _ => .idle⟩

/-- A request that was just opened. -/
lemma sound_start {isUuidv7 : String → Bool} {t t' : Table}
    (h : insert isUuidv7 req t = .ok t') : Sound req (World.start (ι := ι) t') [] := by
  unfold insert at h
  split at h
  · cases h
  split at h
  · cases h
  rename_i hfresh
  split at h
  · cases h
  rename_i hfree
  cases h
  have hfind : (t.insertNew req).find req.id = some req := by
    rw [KeyedTable.find_insertNew, if_pos rfl]
    simp only [Option.not_isSome_iff_eq_none] at hfree
    rw [hfree]
    rfl
  have hpending : req.state = .pending := by
    simp only [Bool.not_eq_true', Bool.not_eq_false, ApprovalRequest.fresh, Bool.and_eq_true,
      decide_eq_true_eq] at hfresh
    exact hfresh.1.1.1
  refine ⟨⟨req, hfind, rfl, rfl, fun hs => ?_, fun k => ?_⟩, fun _ _ _ hidle => ?_,
    fun _ _ _ hidle => ?_⟩
  · rw [hpending] at hs
    rcases hs with hs | hs <;> cases hs
  · have hfree : ∀ c, ¬Holds k req.id (World.start (ι := ι) (t.insertNew req)).phase c := by
      rintro c ⟨_, hwritten, _⟩
      cases hwritten
    exact ⟨Nat.zero_le 1, fun c hc => absurd hc (hfree c), fun c _ hc => absurd hc (hfree c),
      fun _ => ⟨rfl, hfree⟩⟩
  · cases hidle
  · cases hidle

variable [DecidableEq ι]

/-- A call that is held after a client went on with something else was held before. -/
lemma holds_of_update {k : Kind} {id : String} {phase : ι → Phase} {c c' : ι} {p : Phase}
    (h : Holds k id (Function.update phase c p) c') (hp : ∀ call, p ≠ .written call) :
    c' ≠ c ∧ Holds k id phase c' := by
  obtain ⟨call, hphase, hcall⟩ := h
  by_cases hc : c' = c
  · rw [hc, Function.update_self] at hphase
    exact absurd hphase (hp call)
  · rw [Function.update_of_ne hc] at hphase
    exact ⟨hc, call, hphase, hcall⟩

/-- Soundness is kept by a write that takes effect. -/
lemma Sound.wrote {c : ι} {call : Call} {copy : ApprovalRequest} {next : ApprovalState}
    (h : Sound req w past) (hloaded : w.phase c = .loaded call copy)
    (hwrite : call.write copy w.table = (w'.table, .ok next))
    (hphase : w'.phase = Function.update w.phase c (.written call)) :
    Sound req w' (past ++ [.wrote call next]) := by
  obtain ⟨row, hfind, hhash, hexpires, happroved, hturn⟩ := h.row
  obtain ⟨hcopy, hcopied⟩ := h.copies c call copy hloaded
  obtain ⟨hallowed, ⟨row₀, row', hfind₀, hstate, hfind', hnext, hhash', hexpires'⟩, hothers⟩ :=
    write_ok hwrite
  have hkept : (∃ ev ∈ past, Approves req.id ev) →
      ∃ ev ∈ past ++ [.wrote call next], Approves req.id ev :=
    fun ⟨ev, hev, happroves⟩ => ⟨ev, List.mem_append_left _ hev, happroves⟩
  -- a client that holds a call now either is this one, or held it before
  have hholds : ∀ k c', Holds k req.id w'.phase c' →
      (c' = c ∧ call.kind = k ∧ copy.id = req.id) ∨ Holds k req.id w.phase c' := by
    rintro k c' ⟨call', hwritten, hkind, hid⟩
    rw [hphase] at hwritten
    by_cases hc : c' = c
    · rw [hc, Function.update_self] at hwritten
      cases hwritten
      exact Or.inl ⟨hc, hkind, hcopy.trans hid⟩
    · rw [Function.update_of_ne hc] at hwritten
      exact Or.inr ⟨call', hwritten, hkind, hid⟩
  have hcopies : ∀ c' call' copy', w'.phase c' = .loaded call' copy' →
      copy'.id = call'.requestId ∧
        (copy'.id = req.id → copy'.argsHash = req.argsHash ∧ copy'.expiresAt = req.expiresAt) := by
    intro c' call' copy' hc'
    rw [hphase] at hc'
    by_cases hc : c' = c
    · rw [hc, Function.update_self] at hc'
      cases hc'
    · rw [Function.update_of_ne hc] at hc'
      exact h.copies c' call' copy' hc'
  by_cases hid : copy.id = req.id
  · -- the write is on the row of the request
    obtain rfl : row = row₀ := by
      rw [hid, hfind] at hfind₀
      exact Option.some.inj hfind₀
    obtain ⟨hcopyHash, hcopyExpires⟩ := hcopied hid
    have happrovedNow : next = .approved ∨ next = .executed →
        ∃ ev ∈ past ++ [.wrote call next], Approves req.id ev := by
      intro hn
      cases call with
      | decide d nowMs =>
        rcases hallowed.2 with ⟨rfl, hverdict⟩ | ⟨rfl, -⟩
        · exact ⟨_, List.mem_append_right _ (List.mem_singleton_self _),
            hcopy.symm.trans hid, hverdict, rfl⟩
        · rcases hn with hn | hn <;> cases hn
      | markExecuted id argsHash nowMs =>
        exact hkept (happroved (Or.inl (hstate.trans hallowed.1)))
    refine ⟨⟨row', hid ▸ hfind', hhash'.trans hhash, hexpires'.trans hexpires, ?_, fun k => ?_⟩,
      hcopies, fun c' argsHash nowMs hc' => ?_⟩
    · rw [hnext]
      exact happrovedNow
    · by_cases hk : call.kind = k
      · subst hk
        have hearly : ¬call.kind.Past row.state := by
          rw [hstate]
          exact hallowed.past.1
        refine (hturn call.kind).take (c := c) hearly (fun c' hc' => ?_) rfl ?_
        · rcases hholds _ c' hc' with ⟨hc, -⟩ | hheld
          · exact hc
          · exact absurd hheld (((hturn call.kind).early hearly).2 c')
        · rw [hnext]
          exact hallowed.past.2
      · refine (hturn k).keep (fun c' hc' => ?_) rfl fun hpast => ?_
        · rcases hholds k c' hc' with ⟨-, hkind, -⟩ | hheld
          · exact absurd hkind hk
          · exact hheld
        · refine Kind.past_of_moves (b := row') ⟨hhash', hexpires', Or.inr ?_⟩ hpast
          rw [hstate, hnext]
          exact hallowed.legal
    · rw [hphase] at hc'
      by_cases hc : c' = c
      · rw [hc, Function.update_self] at hc'
        cases hc'
        obtain ⟨hcopyState, -, hbound, hopen⟩ := hallowed
        refine ⟨hbound.trans hcopyHash, hcopyExpires ▸ hopen, ?_⟩
        exact hkept (happroved (Or.inl (hstate.trans hcopyState)))
      · rw [Function.update_of_ne hc] at hc'
        obtain ⟨hbound, hopen, happroves⟩ := h.bound c' argsHash nowMs hc'
        exact ⟨hbound, hopen, hkept happroves⟩
  · -- the write is on another row
    refine ⟨⟨row, ?_, hhash, hexpires, fun hs => hkept (happroved hs), fun k => ?_⟩, hcopies,
      fun c' argsHash nowMs hc' => ?_⟩
    · rw [hothers req.id (Ne.symm hid), hfind]
    · refine (hturn k).keep (fun c' hc' => ?_) rfl id
      rcases hholds k c' hc' with ⟨-, -, hsame⟩ | hheld
      · exact absurd hsame hid
      · exact hheld
    · rw [hphase] at hc'
      by_cases hc : c' = c
      · rw [hc, Function.update_self] at hc'
        cases hc'
        exact absurd hcopy hid
      · rw [Function.update_of_ne hc] at hc'
        obtain ⟨hbound, hopen, happroves⟩ := h.bound c' argsHash nowMs hc'
        exact ⟨hbound, hopen, hkept happroves⟩

/-- Soundness is kept when a call returns. -/
lemma Sound.returned {c : ι} {call : Call} (h : Sound req w past)
    (hwritten : w.phase c = .written call) (htable : w'.table = w.table)
    (hphase : w'.phase = Function.update w.phase c .idle)
    (result : Except ApprovalError ApprovalRequest) :
    Sound req w' (past ++ [.returned call result]) := by
  obtain ⟨row, hfind, hhash, hexpires, happroved, hturn⟩ := h.row
  have hkept : (∃ ev ∈ past, Approves req.id ev) →
      ∃ ev ∈ past ++ [.returned call result], Approves req.id ev :=
    fun ⟨ev, hev, happroves⟩ => ⟨ev, List.mem_append_left _ hev, happroves⟩
  have hother : ∀ c' p, w'.phase c' = p → p ≠ .idle → w.phase c' = p := by
    intro c' p hc' hp
    rw [hphase] at hc'
    by_cases hc : c' = c
    · rw [hc, Function.update_self] at hc'
      exact absurd hc'.symm hp
    · rwa [Function.update_of_ne hc] at hc'
  refine ⟨⟨row, htable ▸ hfind, hhash, hexpires, fun hs => hkept (happroved hs), fun k => ?_⟩,
    fun c' call' copy hc' => h.copies c' call' copy (hother c' _ hc' nofun),
    fun c' argsHash nowMs hc' => ?_⟩
  · by_cases hmine : call.kind = k ∧ call.requestId = req.id
    · refine (hturn k).finish (c := c) ⟨call, hwritten, hmine⟩ (fun c' hc' => ?_) ?_
      · rw [hphase] at hc'
        exact holds_of_update hc' fun _ => nofun
      · exact List.countP_le_length
    · refine (hturn k).keep (fun c' hc' => ?_) ?_ id
      · rw [hphase] at hc'
        exact (holds_of_update hc' fun _ => nofun).2
      · cases result with
        | ok r => simpa [Event.succeeded] using hmine
        | error e => rfl
  · obtain ⟨hbound, hopen, happroves⟩ := h.bound c' argsHash nowMs (hother c' _ hc' nofun)
    exact ⟨hbound, hopen, hkept happroves⟩

lemma Sound.step (h : Sound req w past) (s : Step ι) :
    Sound req (advance w s).1 (past ++ (advance w s).2.toList) := by
  have heffect := advance_effect w s
  generalize (advance w s).1 = w', (advance w s).2 = e at heffect ⊢
  cases heffect with
  | quiet e hrows hphase hevent hwrote => exact h.quiet hrows hphase hevent hwrote
  | wrote c call copy next hloaded hwrite hphase => exact h.wrote hloaded hwrite hphase
  | returned c call hwritten htable hphase => exact h.returned hwritten htable hphase _

/-- An execution that returned `Ok` presented what was approved, in time, after the approval. -/
def Justified (req : ApprovalRequest) (past : List Event) (e : Event) : Prop :=
  ∀ argsHash nowMs r, e = .returned (.markExecuted req.id argsHash nowMs) (.ok r) →
    argsHash = req.argsHash ∧ nowMs < req.expiresAt ∧ ∃ ev ∈ past, Approves req.id ev

/-- What is returned in a sound world is justified. -/
lemma Sound.justified (h : Sound req w past) (s : Step ι) {e : Event}
    (he : (advance w s).2 = some e) : Justified req past e := by
  rintro argsHash nowMs r rfl
  have heffect := advance_effect w s
  generalize (advance w s).1 = w', (advance w s).2 = seen at heffect he
  cases heffect with
  | quiet e hrows hphase hevent hwrote => exact absurd he (hevent _ r)
  | wrote c call copy next hloaded hwrite hphase => cases he
  | returned c call hwritten htable hphase =>
    obtain ⟨rfl, -⟩ := Event.returned.inj (Option.some.inj he)
    exact h.bound c argsHash nowMs hwritten

lemma final_stays {id : String} {row : ApprovalRequest} (hfinal : row.state.Final)
    (hfind : w.table.find id = some row) (steps : List (Step ι)) :
    (runSteps w steps).table.find id = some row := by
  refine Invariant.foldl_invariant (I := fun w : World ι => w.table.find id = some row)
    (fun s _ w hw => ?_) hfind
  obtain ⟨row', hfind', hmoves⟩ := (advance_effect w s).moves id row hw
  rw [hfind', hmoves.eq_of_final hfinal]

/-- **An approval is decided once and executed once.**  Any number of clients run `decide` and
`mark_executed`, and requests are expired, in any interleaving of their statements and with any
clock readings.  Of a request that was opened, at most one decision returns `Ok` and at most one
execution; an execution that returns `Ok` presented the stored hash of the arguments at a time
before the window closed, after a decision had approved the request; and from a denied, expired or
executed request on no step changes its row. -/
theorem approvals_once {isUuidv7 : String → Bool} {t t' : Table}
    (h : insert isUuidv7 req t = .ok t') (steps : List (Step ι)) :
    (events (World.start t') steps).countP (Event.succeeded .decision req.id) ≤ 1 ∧
    (events (World.start t') steps).countP (Event.succeeded .execution req.id) ≤ 1 ∧
    (∀ past e, past ++ [e] <+: events (World.start t') steps → Justified req past e) ∧
    ∀ before after row, steps = before ++ after →
      (runSteps (World.start t') before).table.find req.id = some row → row.state.Final →
        (runSteps (World.start t') steps).table.find req.id = some row := by
  have hstart : Sound req (World.start (ι := ι) t') [] := sound_start h
  have hsound : Sound req (runSteps (World.start t') steps) (events (World.start t') steps) :=
    emitted_invariant (I := Sound req) (fun _ _ s hs => hs.step s) hstart steps
  obtain ⟨row, -, -, -, -, hturn⟩ := hsound.row
  refine ⟨(hturn .decision).once, (hturn .execution).once, ?_, ?_⟩
  · exact forall_initial_emitted (I := Sound req) (P := Justified req)
      (fun _ _ s hs => hs.step s) (fun _ _ s _ hs he => hs.justified s he) hstart steps
  · rintro before after row rfl hfind hfinal
    rw [runSteps_append]
    exact final_stays hfinal hfind after

end Run

/-- A request whose window closes at 100. -/
def sampleRequest : ApprovalRequest where
  id := "019e7105-9910-7000-8000-000000000001"
  correlationId := "019e7105-9910-7000-8000-000000000002"
  tool := "garage.bucket_delete"
  action := none
  argsHash := "h1"
  risk := .high
  requesterUserId := "019e7105-9910-7000-8000-000000000003"
  targetSummary := "bucket media"
  planSummary := "delete bucket media"
  state := .pending
  createdAt := 0
  expiresAt := 100
  decidedBy := none
  decidedAt := none
  decidedFactor := none

/-- Two clients load the pending request; one approves it, the other is too late to deny it, and
executes it. -/
def sampleRace : List (Step Bool) :=
  [.load true (.decide ⟨sampleRequest.id, .approve, "ada", .totp⟩ 10),
   .load false (.decide ⟨sampleRequest.id, .deny, "bob", .none⟩ 11),
   .write true, .write false, .read true,
   .load false (.markExecuted sampleRequest.id "h1" 20), .write false, .read false]

/-- In the race one decision succeeds and one execution. -/
theorem approvals_once_sample :
    (events (World.start (KeyedTable.empty.insertNew sampleRequest)) sampleRace).length = 5 ∧
    (events (World.start (KeyedTable.empty.insertNew sampleRequest)) sampleRace).countP
      (Event.succeeded .decision sampleRequest.id) ≤ 1 :=
  have hinsert : insert (fun id => id.toList[14]? == some '7') sampleRequest KeyedTable.empty =
      .ok (KeyedTable.empty.insertNew sampleRequest) := rfl
  ⟨by decide, (approvals_once hinsert sampleRace).1⟩

end Orca.Approvals
