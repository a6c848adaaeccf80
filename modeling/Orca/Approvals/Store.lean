import Mathlib.Data.Option.Basic
import Orca.Library.KeyedTable

/-!
# Approval requests

The model of the approval state machine of `contract/src/approval.rs` (`transition`) and of the
store of `db/src/approvals.rs` (`insert`, `apply`, `decide`, `mark_executed` and `expire_due`).

`transition` decides on a copy of the request that the caller has loaded.  What makes its result
true of the stored request is the guard of the statement that writes it: `apply` moves the row only
if it is still in the state of the copy.  `decide` and `mark_executed` are put together from three
statements, `load`, `Call.write` and `load` again; another client may run between them.
-/

namespace Orca.Approvals

/-! ## Requests -/

/-- `ApprovalState` -/
inductive ApprovalState where
  | pending
  | approved
  | denied
  | expired
  | executed
deriving DecidableEq

/-- `ApprovalState::as_str` -/
def ApprovalState.asStr : ApprovalState → String
  | .pending => "pending"
  | .approved => "approved"
  | .denied => "denied"
  | .expired => "expired"
  | .executed => "executed"

/-- `Risk` -/
inductive Risk where
  | low
  | medium
  | high
deriving DecidableEq

/-- `Factor`: what satisfied the step-up requirement of a decision. -/
inductive Factor where
  | none
  | totp
  | webauthn
  | oidc
deriving DecidableEq

/-- `ApprovalRequest`, which is also a row of `approval_requests`.  Times are in milliseconds since
the epoch. -/
structure ApprovalRequest where
  /-- The id, primary key of the table. -/
  id : String
  /-- Ties the request to the call that asked for it. -/
  correlationId : String
  tool : String
  action : Option String
  /-- Hash of the exact arguments that the approval authorises. -/
  argsHash : String
  risk : Risk
  requesterUserId : String
  targetSummary : String
  planSummary : String
  state : ApprovalState
  createdAt : Int
  expiresAt : Int
  decidedBy : Option String
  decidedAt : Option Int
  decidedFactor : Option Factor
deriving DecidableEq

/-- `ApprovalRequest::is_expired_at` -/
def ApprovalRequest.isExpiredAt (req : ApprovalRequest) (nowMs : Int) : Bool :=
  req.expiresAt ≤ nowMs

/-! ## The state machine -/

/-- `ApprovalEvent` -/
inductive ApprovalEvent where
  | approve
  | deny
  | expire
  | execute (argsHash : String)

/-- `TransitionError` -/
inductive TransitionError where
  | illegal (state : ApprovalState)
  | expired
  | notYetExpired
  | argsHashMismatch
deriving DecidableEq

/-- The text of a `TransitionError`. -/
def TransitionError.message : TransitionError → String
  | .illegal state => "illegal approval transition from " ++ state.asStr
  | .expired => "approval request expired"
  | .notYetExpired => "approval request has not expired"
  | .argsHashMismatch => "args differ from the approved request"

/-- `transition` -/
def transition (req : ApprovalRequest) (event : ApprovalEvent) (nowMs : Int) :
    Except TransitionError ApprovalState :=
  match req.state, event with
  | .pending, .approve => if req.isExpiredAt nowMs then .error .expired else .ok .approved
  | .pending, .deny => .ok .denied
  | .pending, .expire => if req.isExpiredAt nowMs then .ok .expired else .error .notYetExpired
  | .approved, .execute argsHash =>
      if req.isExpiredAt nowMs then .error .expired
      else if argsHash = req.argsHash then .ok .executed
      else .error .argsHashMismatch
  | state, _ => .error (.illegal state)

/-! ## The store -/

/-- The table `approval_requests`. -/
abbrev Table := KeyedTable ApprovalRequest.id

/-- What a call on the store fails with. -/
inductive ApprovalError where
  | notUuidv7 (id : String)
  | notFresh
  | duplicate (id : String)
  | notFound (id : String)
  | transition (e : TransitionError)

/-- The text of an error. -/
def ApprovalError.message : ApprovalError → String
  | .notUuidv7 id => "approval id must be a UUIDv7, got " ++ id.quote
  | .notFresh => "approval insert accepts only fresh pending requests"
  | .duplicate _ => "UNIQUE constraint failed: approval_requests.id"
  | .notFound id => "approval request " ++ id ++ " not found"
  | .transition e => e.message

/-- A request as it is opened: pending and not decided. -/
def ApprovalRequest.fresh (req : ApprovalRequest) : Bool :=
  req.state = .pending && req.decidedBy.isNone && req.decidedAt.isNone && req.decidedFactor.isNone

/-- `insert` -/
def insert (isUuidv7 : String → Bool) (req : ApprovalRequest) (t : Table) :
    Except ApprovalError Table :=
  if !isUuidv7 req.id then .error (.notUuidv7 req.id)
  else if !req.fresh then .error .notFresh
  else if (t.find req.id).isSome then .error (.duplicate req.id)
  else .ok (t.insertNew req)

/-- `load` -/
def load (id : String) (t : Table) : Except ApprovalError ApprovalRequest :=
  match t.find id with
  | some req => .ok req
  | none => .error (.notFound id)

/-- The statement of `apply` on a row, with `COALESCE(?, column)` for the columns of a decision. -/
def applyRow (req : ApprovalRequest) (next : ApprovalState)
    (decided : Option (String × Factor × Int)) (row : ApprovalRequest) : ApprovalRequest :=
  if row.id = req.id ∧ row.state = req.state then
    { row with
      state := next
      decidedBy := (decided.map fun d => d.1).or row.decidedBy
      decidedFactor := (decided.map fun d => d.2.1).or row.decidedFactor
      decidedAt := (decided.map fun d => d.2.2).or row.decidedAt }
  else row

lemma applyRow_id (req : ApprovalRequest) (next : ApprovalState)
    (decided : Option (String × Factor × Int)) (row : ApprovalRequest) :
    (applyRow req next decided row).id = row.id := by
  unfold applyRow
  split <;> rfl

/-- `apply`: move the row of `req` if it is still in the state of `req`. -/
def apply (req : ApprovalRequest) (next : ApprovalState)
    (decided : Option (String × Factor × Int)) (t : Table) : Table × Except TransitionError Unit :=
  (t.modify (applyRow req next decided) (applyRow_id req next decided),
    if (t.find req.id).any fun row => row.state = req.state then .ok ()
    else .error (.illegal req.state))

/-- `ApprovalVerdict` -/
inductive ApprovalVerdict where
  | approve
  | deny
deriving DecidableEq

/-- The event of a verdict. -/
def ApprovalVerdict.event : ApprovalVerdict → ApprovalEvent
  | .approve => .approve
  | .deny => .deny

/-- `ApprovalDecision` -/
structure ApprovalDecision where
  requestId : String
  verdict : ApprovalVerdict
  decidedBy : String
  /-- The factor that satisfied the step-up requirement. -/
  factor : Factor
deriving DecidableEq

/-- A call of `decide` or `mark_executed`, with the clock reading of its caller. -/
inductive Call where
  | decide (d : ApprovalDecision) (nowMs : Int)
  | markExecuted (id argsHash : String) (nowMs : Int)
deriving DecidableEq

/-- The request of a call. -/
def Call.requestId : Call → String
  | .decide d _ => d.requestId
  | .markExecuted id _ _ => id

/-- What a call does with the request it has loaded: the transition and the guarded statement.  The
result is the state that was written. -/
def Call.write (req : ApprovalRequest) (t : Table) :
    Call → Table × Except TransitionError ApprovalState
  | .decide d nowMs =>
      match transition req d.verdict.event nowMs with
      | .ok next =>
          let written := apply req next (some (d.decidedBy, d.factor, nowMs)) t
          (written.1, written.2.map fun _ => next)
      | .error .expired =>
          let written := apply req .expired none t
          (written.1, written.2.bind fun _ => .error .expired)
      | .error e => (t, .error e)
  | .markExecuted _ argsHash nowMs =>
      match transition req (.execute argsHash) nowMs with
      | .ok next =>
          let written := apply req next none t
          (written.1, written.2.map fun _ => next)
      | .error e => (t, .error e)

/-- A call that nobody interrupts: `decide` or `mark_executed`. -/
def Call.perform (call : Call) (t : Table) : Table × Except ApprovalError ApprovalRequest :=
  match load call.requestId t with
  | .error e => (t, .error e)
  | .ok req =>
      match call.write req t with
      | (t', .error e) => (t', .error (.transition e))
      | (t', .ok _) => (t', load call.requestId t')

/-- `decide` -/
def decide (d : ApprovalDecision) (nowMs : Int) (t : Table) :
    Table × Except ApprovalError ApprovalRequest :=
  (Call.decide d nowMs).perform t

/-- `mark_executed` -/
def markExecuted (id argsHash : String) (nowMs : Int) (t : Table) :
    Table × Except ApprovalError ApprovalRequest :=
  (Call.markExecuted id argsHash nowMs).perform t

/-- The statement of `expire_due` on a row. -/
def expireRow (nowMs : Int) (row : ApprovalRequest) : ApprovalRequest :=
  if row.state = .pending ∧ row.expiresAt ≤ nowMs then { row with state := .expired } else row

lemma expireRow_id (nowMs : Int) (row : ApprovalRequest) : (expireRow nowMs row).id = row.id := by
  unfold expireRow
  split <;> rfl

/-- `expire_due`, with the number of rows it changed. -/
def expireDue (nowMs : Int) (t : Table) : Table × Nat :=
  (t.modify (expireRow nowMs) (expireRow_id nowMs),
    t.rows.countP fun row => row.state = .pending ∧ row.expiresAt ≤ nowMs)

end Orca.Approvals
