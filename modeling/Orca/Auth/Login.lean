import Orca.Auth.Throttle
import Orca.Library.Invariant

/-!
# Sign-in

`verify_credentials` checks the throttle, looks the user up and tests the password, and records how
that ended.  Calls run side by side, so the three are separate steps of a call, and those of other
calls come in between.  `Log` is what has happened so far, the newest first: the passwords tested,
the failures and the successes recorded.

A success of one user touches no bucket of another (`success_keeps_others`).  The bucket of an
address, however, is emptied by the success of any user who signs in from it, so that it counts the
failures against the others only as long as nobody signs in with such failures in the window
(`addressesCounted_step`); and the bucket of a user bounds the passwords tested against it only as
long as the calls for that user are not in flight together (`usersCounted_step`).
-/

namespace Orca.Auth

open SlidingWindow

/-- A row of the users table, as far as sign-in reads it. -/
structure UserAuth where
  id : String
  username : String
  role : String
  passwordHash : String
  deriving DecidableEq, Repr

/-- Result of a sign-in. -/
inductive VerifyOutcome
  | verified (row : UserAuth)
  | throttled (retryAfterSecs : Nat)
  | invalid
  deriving DecidableEq, Repr

/-- What the lookup of the user and the test of the password came to: the lookup failed, there is no
such user, or there is and `verify_password` said yes or not. -/
inductive Lookup
  | failed (message : String)
  | noUser
  | found (row : UserAuth) (passwordMatches : Bool)
  deriving DecidableEq, Repr

/-- `verify_credentials`, when no other call comes in between; `checkedAt` and `recordedAt` are the
instants its check and its record read off the clock. -/
def verifyCredentials (s : State) (ip user : String) (lookup : Lookup)
    (checkedAt recordedAt : Nat) :
    Except String VerifyOutcome × State :=
  match checkAt s ip user checkedAt with
  | (.throttled secs, s) => (.ok (.throttled secs), s)
  | (.allowed, s) =>
    match lookup with
    | .failed message => (.error message, s)
    | .noUser => (.ok .invalid, recordFailureAt s ip user recordedAt)
    | .found row passwordMatches =>
      if passwordMatches then (.ok (.verified row), recordSuccess s ip user)
      else (.ok .invalid, recordFailureAt s ip user recordedAt)

/-! ## Calls side by side -/

/-- Where a call is that has passed the check. -/
inductive Phase
  /-- It goes on to look the user up. -/
  | admitted (ip user : String)
  /-- It goes on to record a failure or a success. -/
  | verified (ip user : String) (ok : Bool)
  deriving DecidableEq, Repr

/-- The user a call is for. -/
def Phase.user : Phase → String
  | .admitted _ user => user
  | .verified _ user _ => user

/-- What has happened. -/
inductive Entry
  /-- A password was tested against the user. -/
  | tested (user : String) (now : Nat)
  | failure (ip user : String) (now : Nat)
  | success (ip user : String) (now : Nat)
  deriving DecidableEq, Repr

/-- The instant of an entry. -/
def Entry.now : Entry → Nat
  | .tested _ now => now
  | .failure _ _ now => now
  | .success _ _ now => now

/-- What has happened so far, newest first. -/
abbrev Log := List Entry

section Calls

variable {Call : Type} [DecidableEq Call]

/-- The throttle, the calls in flight, and what has happened. -/
structure World (Call : Type) where
  throttle : State
  /-- The calls that have passed the check. -/
  calls : Call → Option Phase
  log : Log

/-- Before the first call. -/
def World.start : World Call := ⟨.empty, fun _ => none, []⟩

/-- One step of one call. -/
inductive Step (Call : Type)
  /-- The call starts with the check. -/
  | check (call : Call) (ip user : String) (now : Nat)
  /-- The call looks the user up and tests the password. -/
  | verify (call : Call) (lookup : Lookup) (now : Nat)
  /-- The call records how that ended. -/
  | record (call : Call) (now : Nat)

/-- The instant of a step. -/
def Step.now : Step Call → Nat
  | .check _ _ _ now => now
  | .verify _ _ now => now
  | .record _ now => now

/-- One step. -/
def step (w : World Call) : Step Call → World Call
  | .check call ip user now =>
    match w.calls call with
    | some _ => w
    | none =>
      match checkAt w.throttle ip user now with
      | (.throttled _, s) => { w with throttle := s }
      | (.allowed, s) =>
        { w with throttle := s, calls := Function.update w.calls call (some (.admitted ip user)) }
  | .verify call lookup now =>
    match w.calls call with
    | some (.admitted ip user) =>
      match lookup with
      | .failed _ => { w with calls := Function.update w.calls call none }
      | .noUser => { w with calls := Function.update w.calls call (some (.verified ip user false)) }
      | .found _ passwordMatches =>
        { w with
          calls := Function.update w.calls call (some (.verified ip user passwordMatches))
          log := .tested user now :: w.log }
    | _ => w
  | .record call now =>
    match w.calls call with
    | some (.verified ip user ok) =>
      if ok then
        { throttle := recordSuccess w.throttle ip user
          calls := Function.update w.calls call none
          log := .success ip user now :: w.log }
      else
        { throttle := recordFailureAt w.throttle ip user now
          calls := Function.update w.calls call none
          log := .failure ip user now :: w.log }
    | _ => w

/-- A run. -/
def run (w : World Call) (steps : List (Step Call)) : World Call := steps.foldl step w

/-- A call whose steps no other call comes between leaves the throttle as `verify_credentials`
does. -/
theorem run_verifyCredentials (w : World Call) (call : Call) (ip user : String) (lookup : Lookup)
    (checkedAt verifiedAt recordedAt : Nat) (hidle : w.calls call = none) :
    (run w [.check call ip user checkedAt, .verify call lookup verifiedAt,
        .record call recordedAt]).throttle =
      (verifyCredentials w.throttle ip user lookup checkedAt recordedAt).2 := by
  unfold run verifyCredentials
  simp only [List.foldl_cons, List.foldl_nil, step, hidle]
  rcases hcheck : checkAt w.throttle ip user checkedAt with ⟨outcome, s⟩
  cases outcome with
  | throttled secs => simp [hidle]
  | allowed =>
    cases lookup with
    | failed message => simp
    | noUser => simp
    | found row passwordMatches => cases passwordMatches <;> simp

/-! ### What a step can do -/

/-- What a step can do: nothing, prune the buckets of an address and a user, take a call further,
test a password, or record how a call ended. -/
inductive Effect (w : World Call) : Step Call → World Call → Prop
  | idle {e} : Effect w e w
  | refuse {call ip user now} :
    Effect w (.check call ip user now)
      { w with throttle := (checkAt w.throttle ip user now).2 }
  | letIn {call ip user now} (idle : w.calls call = none)
      (allowed : (checkAt w.throttle ip user now).1 = .allowed) :
    Effect w (.check call ip user now)
      { w with
        throttle := (checkAt w.throttle ip user now).2
        calls := Function.update w.calls call (some (.admitted ip user)) }
  | giveUp {call ip user lookup now} (admitted : w.calls call = some (.admitted ip user)) :
    Effect w (.verify call lookup now) { w with calls := Function.update w.calls call none }
  | miss {call ip user lookup now} (admitted : w.calls call = some (.admitted ip user)) :
    Effect w (.verify call lookup now)
      { w with calls := Function.update w.calls call (some (.verified ip user false)) }
  | test {call ip user lookup ok now} (admitted : w.calls call = some (.admitted ip user)) :
    Effect w (.verify call lookup now)
      { w with
        calls := Function.update w.calls call (some (.verified ip user ok))
        log := .tested user now :: w.log }
  | succeed {call ip user now} (verified : w.calls call = some (.verified ip user true)) :
    Effect w (.record call now)
      { throttle := recordSuccess w.throttle ip user
        calls := Function.update w.calls call none
        log := .success ip user now :: w.log }
  | fail {call ip user now} (verified : w.calls call = some (.verified ip user false)) :
    Effect w (.record call now)
      { throttle := recordFailureAt w.throttle ip user now
        calls := Function.update w.calls call none
        log := .failure ip user now :: w.log }

/-- Every step has one of these effects. -/
lemma effect_step (w : World Call) (e : Step Call) : Effect w e (step w e) := by
  cases e with
  | check call ip user now =>
    rw [step]
    cases hcall : w.calls call with
    | some phase => exact .idle
    | none =>
      rcases hcheck : checkAt w.throttle ip user now with ⟨outcome, s⟩
      have hs : s = (checkAt w.throttle ip user now).2 := by rw [hcheck]
      cases outcome with
      | throttled secs =>
        rw [hs]
        exact .refuse
      | allowed =>
        rw [hs]
        exact .letIn hcall (by rw [hcheck])
  | verify call lookup now =>
    rw [step]
    rcases hcall : w.calls call with _ | phase
    · exact .idle
    · cases phase with
      | verified => exact .idle
      | admitted ip user =>
        cases lookup with
        | failed message => exact .giveUp hcall
        | noUser => exact .miss hcall
        | found row passwordMatches => exact .test hcall
  | record call now =>
    rw [step]
    rcases hcall : w.calls call with _ | phase
    · exact .idle
    · cases phase with
      | admitted => exact .idle
      | verified ip user ok =>
        cases ok with
        | true => exact .succeed hcall
        | false => exact .fail hcall

/-! ## What is counted -/

/-- Instants of the failures recorded against the user since its last success. -/
def unforgiven (user : String) : Log → List Nat
  | [] => []
  | .failure _ u t :: log => if u = user then t :: unforgiven user log else unforgiven user log
  | .success _ u _ :: log => if u = user then [] else unforgiven user log
  | .tested .. :: log => unforgiven user log

/-- The user has signed in from the address. -/
def signedIn (log : Log) (ip user : String) : Bool :=
  log.any fun
    | .success i u _ => i = ip ∧ u = user
    | _ => false

/-- Instants of the failures from the address against users other than `known`. -/
def against (known : String → Bool) (ip : String) : Log → List Nat
  | [] => []
  | .failure i u t :: log =>
    if i = ip ∧ known u = false then t :: against known ip log else against known ip log
  | .success .. :: log => against known ip log
  | .tested .. :: log => against known ip log

/-- Instants of the failures from the address against users that have not signed in from it. -/
def foreign (ip : String) (log : Log) : List Nat := against (signedIn log ip) ip log

/-- Instants of the passwords tested against the user. -/
def tests (user : String) (log : Log) : List Nat :=
  log.filterMap fun
    | .tested u t => if u = user then some t else none
    | _ => none

/-- The number of passwords tested against the user in the window that starts at `a`. -/
def testsWithin (user : String) (a : Nat) (log : Log) : Nat :=
  (tests user log).countP fun t => decide (a ≤ t ∧ t ≤ a + window)

/-- The user has no success from `a` on. -/
def NoSuccessSince (user : String) (a : Nat) (log : Log) : Prop :=
  ∀ ip t, .success ip user t ∈ log → t < a

lemma NoSuccessSince.of_cons {user : String} {a : Nat} {e : Entry} {log : Log}
    (h : NoSuccessSince user a (e :: log)) : NoSuccessSince user a log :=
  fun ip t hmem => h ip t (List.mem_cons_of_mem e hmem)

/-- A success is no test of a password. -/
@[simp] lemma tests_success (user i u : String) (t : Nat) (log : Log) :
    tests user (.success i u t :: log) = tests user log := rfl

/-- A failure is no test of a password. -/
@[simp] lemma tests_failure (user i u : String) (t : Nat) (log : Log) :
    tests user (.failure i u t :: log) = tests user log := rfl

/-- The fewer users are excepted, the more failures are counted. -/
lemma recent_against_anti {known known' : String → Bool} (h : ∀ u, known u = true → known' u = true)
    (ip : String) (log : Log) (c : Nat) :
    recent c (against known' ip log) ≤ recent c (against known ip log) := by
  induction log with
  | nil => exact Nat.le_refl _
  | cons e log ih =>
    cases e with
    | tested => exact ih
    | success => exact ih
    | failure i u t =>
      rw [against, against]
      by_cases hnew : i = ip ∧ known' u = false
      · have hold : i = ip ∧ known u = false := by
          refine ⟨hnew.1, Bool.eq_false_iff.mpr fun hu => ?_⟩
          rw [h u hu] at hnew
          cases hnew.2
        rw [if_pos hnew, if_pos hold, recent_cons, recent_cons]
        exact Nat.add_le_add_right ih _
      · rw [if_neg hnew]
        split
        · rw [recent_cons]
          exact Nat.le_trans ih (Nat.le_add_right _ _)
        · exact ih

/-- The counted failures from an address are failures from it against others. -/
lemma mem_against {known : String → Bool} {ip : String} {log : Log} {t : Nat}
    (h : t ∈ against known ip log) : ∃ u, known u = false ∧ .failure ip u t ∈ log := by
  induction log with
  | nil => cases h
  | cons e log ih =>
    have hrest (h : t ∈ against known ip log) :
        ∃ u, known u = false ∧ .failure ip u t ∈ e :: log := by
      obtain ⟨u, hknown, hmem⟩ := ih h
      exact ⟨u, hknown, List.mem_cons_of_mem e hmem⟩
    cases e with
    | tested => exact hrest h
    | success => exact hrest h
    | failure i u t' =>
      rw [against] at h
      split at h
      · rename_i hcounted
        rcases List.mem_cons.mp h with rfl | h
        · exact ⟨u, hcounted.2, hcounted.1 ▸ List.mem_cons_self⟩
        · exact hrest h
      · exact hrest h

lemma signedIn_cons {log : Log} {ip user : String} (e : Entry) (h : signedIn log ip user = true) :
    signedIn (e :: log) ip user = true := by
  unfold signedIn at h ⊢
  rw [List.any_cons, h, Bool.or_true]

lemma signedIn_success (log : Log) (ip user : String) (t : Nat) :
    signedIn (.success ip user t :: log) ip user = true := by
  simp [signedIn]

lemma signedIn_failure (log : Log) (i u : String) (t : Nat) (ip : String) :
    signedIn (.failure i u t :: log) ip = signedIn log ip := by
  funext user
  simp [signedIn]

lemma signedIn_tested (log : Log) (u : String) (t : Nat) (ip : String) :
    signedIn (.tested u t :: log) ip = signedIn log ip := by
  funext user
  simp [signedIn]

/-! ## The three properties -/

/-- A success of one user leaves the buckets of every other user as they are. -/
def KeepsOthers (w : World Call) : Step Call → Prop
  | .record call now =>
    ∀ ip user, w.calls call = some (.verified ip user true) → ∀ u, u ≠ user →
      (step w (.record call now)).throttle.byUser u = w.throttle.byUser u ∧
        ∀ i, (step w (.record call now)).throttle.byIpUser (i, u) = w.throttle.byIpUser (i, u)
  | .check .. | .verify .. => True

/-- An address with `MAX_FAILURES` failures within the window, against users that have not signed in
from it, is refused. -/
def RefusesForeign (w : World Call) : Step Call → Prop
  | .check _ ip user now =>
    maxFailures ≤ recent (now - window) (foreign ip w.log) →
      (checkAt w.throttle ip user now).1 = .throttled (15 * 60)
  | .verify .. | .record .. => True

/-- In no window without a success of the user are more than `MAX_FAILURES` passwords tested against
it. -/
def FewTests (w : World Call) : Prop :=
  ∀ user a, (∀ ip t, .success ip user t ∈ w.log → ¬(a ≤ t ∧ t ≤ a + window)) →
    testsWithin user a w.log ≤ maxFailures

/-! ## When they hold -/

/-- The clock reads at least the window. -/
def ClockPastWindow (_ : World Call) (e : Step Call) : Prop := window ≤ e.now

/-- A call for a user starts when no other one for it is in flight. -/
def Alone (w : World Call) : Step Call → Prop
  | .check _ _ user _ => ∀ call phase, w.calls call = some phase → phase.user ≠ user
  | .verify .. | .record .. => True

/-- A success from an address comes when the failures from it within the window are against the user
itself or users that have signed in from it before. -/
def OwnFailuresOnly (w : World Call) : Step Call → Prop
  | .record call now =>
    ∀ ip user, w.calls call = some (.verified ip user true) → ∀ u t, .failure ip u t ∈ w.log →
      now ≤ t + window → u = user ∨ signedIn w.log ip u = true
  | .check .. | .verify .. => True

/-- A success touches the buckets of its own user only. -/
lemma success_keeps_others (w : World Call) (e : Step Call) : KeepsOthers w e := by
  cases e with
  | check => trivial
  | verify => trivial
  | record call now =>
    intro ip user hcall u hu
    have hstep : (step w (.record call now)).throttle = recordSuccess w.throttle ip user := by
      simp [step, hcall]
    rw [hstep]
    refine ⟨?_, fun i => ?_⟩
    · rw [recordSuccess, byUser_modify, if_neg hu]
    · rw [recordSuccess, byIpUser_modify, if_neg fun h => hu h.2]

/-! ### Addresses -/

/-- The buckets of addresses count all failures against others, at the instant `t`. -/
structure AddressesCounted (t : Nat) (w : World Call) : Prop where
  /-- The bucket of every address does. -/
  covered : ∀ ip, Covers (cutoff t) (foreign ip w.log) (w.throttle.byIp ip)

/-- After a success from an address no failure from it counts, if those within the window are
against the user itself or users that had signed in from it. -/
lemma recent_foreign_success {log : Log} {ip user : String} {now c : Nat} (hwindow : window ≤ now)
    (hc : cutoff now ≤ c) (hown : ∀ u t, .failure ip u t ∈ log → now ≤ t + window →
      u = user ∨ signedIn log ip u = true) :
    recent c (foreign ip (.success ip user now :: log)) = 0 := by
  refine recent_eq_zero fun t ht => ?_
  obtain ⟨u, hknown, hmem⟩ := mem_against ht
  have hfailure : Entry.failure ip u t ∈ log := by simpa using hmem
  by_contra hlate
  have hrecent : now ≤ t + window := by
    rw [cutoff_of_le hwindow] at hc
    omega
  rcases hown u t hfailure hrecent with rfl | hsigned
  · rw [signedIn_success] at hknown
    cases hknown
  · rw [signedIn_cons _ hsigned] at hknown
    cases hknown

/-- A step keeps the buckets of addresses right, unless it is a success from an address with
failures against others in its window. -/
lemma addressesCounted_step {w : World Call} {t : Nat} {e : Step Call} (h : AddressesCounted t w)
    (ht : window ≤ t) (hnow : t ≤ e.now) (hown : OwnFailuresOnly w e) :
    AddressesCounted e.now (step w e) := by
  have hmoved (ip : String) : Covers (cutoff e.now) (foreign ip w.log) (w.throttle.byIp ip) :=
    (h.covered ip).mono (cutoff_mono ht hnow)
  have hchecked (ip i user : String) : Covers (cutoff e.now) (foreign ip w.log)
      ((checkAt w.throttle i user e.now).2.byIp ip) := by
    change Covers _ _ ((w.throttle.modify i user _).byIp ip)
    rw [byIp_modify]
    split
    · exact (hmoved ip).prune
    · exact hmoved ip
  refine ⟨fun ip => ?_⟩
  have heffect := effect_step w e
  generalize step w e = w' at heffect
  cases heffect with
  | idle => exact hmoved ip
  | refuse => exact hchecked ip _ _
  | letIn => exact hchecked ip _ _
  | giveUp => exact hmoved ip
  | miss => exact hmoved ip
  | test =>
    have hlog (user : String) (now : Nat) : foreign ip (.tested user now :: w.log) =
        foreign ip w.log := by rw [foreign, signedIn_tested, against, foreign]
    rw [hlog]
    exact hmoved ip
  | @succeed call i user now hcall =>
    change Covers _ _ ((recordSuccess w.throttle i user).byIp ip)
    rw [recordSuccess, byIp_modify]
    have hless (c : Nat) : recent c (foreign ip (.success i user now :: w.log)) ≤
        recent c (foreign ip w.log) :=
      recent_against_anti (fun u => signedIn_cons _) ip w.log c
    by_cases hip : ip = i
    · -- the bucket of the address is emptied, and nothing that counts was in it
      rw [if_pos hip]
      subst hip
      intro c hc
      rw [recent_nil, Nat.le_zero]
      exact recent_foreign_success (Nat.le_trans ht hnow) hc (hown ip user hcall)
    · rw [if_neg hip]
      exact fun c hc => Nat.le_trans (hless c) (hmoved ip c hc)
  | @fail call i user now hcall =>
    change Covers _ _ ((recordFailureAt w.throttle i user now).byIp ip)
    rw [recordFailureAt, byIp_modify, foreign, signedIn_failure, against]
    by_cases hip : ip = i
    · rw [if_pos hip]
      split
      · exact (hmoved ip).prune.push now
      · exact (hmoved ip).prune.push_right now
    · rw [if_neg hip, if_neg fun h => hip h.1.symm]
      exact hmoved ip

omit [DecidableEq Call] in
/-- A check from an address whose failures are all counted refuses it when they are many. -/
lemma refusesForeign {w : World Call} {t : Nat} {e : Step Call} (h : AddressesCounted t w)
    (ht : window ≤ t) (hnow : t ≤ e.now) : RefusesForeign w e := by
  cases e with
  | verify => trivial
  | record => trivial
  | check call ip user now =>
    intro hmany
    have hwindow : window ≤ now := Nat.le_trans ht hnow
    refine throttled_of_recent_byIp (Nat.le_trans hmany ?_)
    rw [cutoff_of_le hwindow]
    have hcovered := (h.covered ip).mono (cutoff_mono ht hnow) (cutoff now) (Nat.le_refl _)
    rwa [cutoff_of_le hwindow] at hcovered

/-! ### Users -/

/-- What holds, at the instant `t`, while the calls for one user come one after another. -/
structure UsersCounted (t : Nat) (w : World Call) : Prop where
  /-- What has happened has happened by now. -/
  past : ∀ e ∈ w.log, e.now ≤ t
  /-- The bucket of every user counts all its failures since its last success. -/
  covered : ∀ user, Covers (cutoff t) (unforgiven user w.log) (w.throttle.byUser user)
  /-- No two calls in flight are for one user. -/
  alone : ∀ call call' phase phase', w.calls call = some phase → w.calls call' = some phase' →
    phase.user = phase'.user → call = call'
  /-- A user whose call is about to test a password has few failures. -/
  admitted : ∀ call ip user, w.calls call = some (.admitted ip user) →
    ∀ c, cutoff t ≤ c → recent c (unforgiven user w.log) < maxFailures
  /-- Every test since the last success has been recorded as a failure, but one. -/
  almost : ∀ user a, NoSuccessSince user a w.log →
    recent a (tests user w.log) ≤ recent a (unforgiven user w.log) + 1
  /-- Every test since the last success has been recorded as a failure, unless a call for the user
  is about to record. -/
  recorded : ∀ user, (∀ call ip ok, w.calls call ≠ some (.verified ip user ok)) →
    ∀ a, NoSuccessSince user a w.log →
      recent a (tests user w.log) ≤ recent a (unforgiven user w.log)
  few : FewTests w

/-- Nothing has been tested from `a` on when everything has happened before. -/
lemma recent_tests_eq_zero {user : String} {log : Log} {t a : Nat} (hpast : ∀ e ∈ log, e.now ≤ t)
    (h : t < a) : recent a (tests user log) = 0 := by
  refine recent_eq_zero fun t' ht' => ?_
  obtain ⟨e, he, hte⟩ := List.mem_filterMap.mp ht'
  have hnow : e.now = t' := by
    cases e with
    | tested u t'' =>
      simp only at hte
      split at hte
      · exact Option.some.inj hte
      · cases hte
    | failure => cases hte
    | success => cases hte
  have hle := hpast e he
  omega

lemma testsWithin_le_recent (user : String) (a : Nat) (log : Log) :
    testsWithin user a log ≤ recent a (tests user log) := by
  refine List.countP_mono_left fun t _ ht => ?_
  rw [decide_eq_true_eq] at ht ⊢
  exact ht.1

lemma testsWithin_tested (user u : String) (a t : Nat) (log : Log) :
    testsWithin user a (.tested u t :: log) =
      testsWithin user a log + if u = user ∧ a ≤ t ∧ t ≤ a + window then 1 else 0 := by
  unfold testsWithin tests
  by_cases hu : u = user
  · simp [hu, List.countP_cons]
  · simp [hu]

omit [DecidableEq Call] in
/-- A check passes on what the buckets say of the user. -/
lemma usersCounted_check {w : World Call} {t now : Nat} (h : UsersCounted t w) (ht : window ≤ t)
    (hnow : t ≤ now) (ip user : String) :
    UsersCounted now { w with throttle := (checkAt w.throttle ip user now).2 } := by
  have hcut := cutoff_mono ht hnow
  refine ⟨fun e he => Nat.le_trans (h.past e he) hnow, fun u => ?_, h.alone, ?_, h.almost,
    h.recorded, h.few⟩
  · change Covers _ _ ((w.throttle.modify ip user _).byUser u)
    rw [byUser_modify]
    split
    · exact ((h.covered u).mono hcut).prune
    · exact (h.covered u).mono hcut
  · exact fun call i u hcall c hc => h.admitted call i u hcall c (Nat.le_trans hcut hc)

omit [DecidableEq Call] in
lemma UsersCounted.later {w : World Call} {t now : Nat} (h : UsersCounted t w) (ht : window ≤ t)
    (hnow : t ≤ now) : UsersCounted now w :=
  ⟨fun e he => Nat.le_trans (h.past e he) hnow,
    fun user => (h.covered user).mono (cutoff_mono ht hnow), h.alone,
    fun call ip user hcall c hc =>
      h.admitted call ip user hcall c (Nat.le_trans (cutoff_mono ht hnow) hc),
    h.almost, h.recorded, h.few⟩

/-- A call that goes on for the same user, or ends, is as alone as before. -/
lemma alone_update {calls : Call → Option Phase} {call : Call} {phase : Phase} {next : Option Phase}
    (h : ∀ c c' p p', calls c = some p → calls c' = some p' → p.user = p'.user → c = c')
    (hcall : calls call = some phase) (hnext : ∀ p ∈ next, p.user = phase.user) {c c' : Call}
    {p p' : Phase} (hc : Function.update calls call next c = some p)
    (hc' : Function.update calls call next c' = some p') (huser : p.user = p'.user) : c = c' := by
  have hbefore {c : Call} {p : Phase} (hc : Function.update calls call next c = some p) :
      ∃ q, calls c = some q ∧ q.user = p.user := by
    by_cases heq : c = call
    · subst heq
      rw [Function.update_self] at hc
      exact ⟨phase, hcall, (hnext p hc).symm⟩
    · rw [Function.update_of_ne heq] at hc
      exact ⟨p, hc, rfl⟩
  obtain ⟨q, hq, hqp⟩ := hbefore hc
  obtain ⟨q', hq', hqp'⟩ := hbefore hc'
  exact h c c' q q' hq hq' (hqp.trans (huser.trans hqp'.symm))

/-- A call other than the one that goes on is where it was. -/
lemma calls_of_update {calls : Call → Option Phase} {call c : Call} {next : Option Phase}
    {p : Phase} (hc : Function.update calls call next c = some p) (hne : next ≠ some p) :
    c ≠ call ∧ calls c = some p := by
  have hcall : c ≠ call := by
    rintro rfl
    rw [Function.update_self] at hc
    exact hne hc
  rw [Function.update_of_ne hcall] at hc
  exact ⟨hcall, hc⟩

/-- If no call is about to record for the user after one has gone on from elsewhere, none was. -/
lemma no_verified_of_update {calls : Call → Option Phase} {call : Call} {phase : Phase}
    {next : Option Phase} {user : String} (hcall : calls call = some phase)
    (hphase : ∀ ip ok, phase ≠ .verified ip user ok)
    (h : ∀ c ip ok, Function.update calls call next c ≠ some (.verified ip user ok)) :
    ∀ c ip ok, calls c ≠ some (.verified ip user ok) := by
  intro c ip ok hc
  have hne : c ≠ call := by
    rintro rfl
    rw [hcall, Option.some.injEq] at hc
    exact hphase ip ok hc
  refine h c ip ok ?_
  rw [Function.update_of_ne hne, hc]

section Effects

variable {w : World Call} {t : Nat} {call : Call} {ip user : String}

/-- A call is admitted. -/
lemma usersCounted_letIn (h : UsersCounted t w) {now : Nat} (ht : window ≤ t) (hnow : t ≤ now)
    (hidle : w.calls call = none) (hallowed : (checkAt w.throttle ip user now).1 = .allowed)
    (halone : ∀ c phase, w.calls c = some phase → phase.user ≠ user) :
    UsersCounted now
      { w with
        throttle := (checkAt w.throttle ip user now).2
        calls := Function.update w.calls call (some (.admitted ip user)) } := by
  have hchecked := usersCounted_check h ht hnow ip user
  have hother {c : Call} {p : Phase}
      (hc : Function.update w.calls call (some (.admitted ip user)) c = some p) :
      c = call ∧ p = .admitted ip user ∨ w.calls c = some p := by
    by_cases heq : c = call
    · subst heq
      rw [Function.update_self, Option.some.injEq] at hc
      exact Or.inl ⟨rfl, hc.symm⟩
    · rw [Function.update_of_ne heq] at hc
      exact Or.inr hc
  refine ⟨hchecked.past, hchecked.covered, ?_, ?_, h.almost, ?_, h.few⟩
  · intro c c' p p' hc hc' huser
    rcases hother hc with ⟨rfl, rfl⟩ | hc <;> rcases hother hc' with ⟨rfl, rfl⟩ | hc'
    · rfl
    · exact absurd huser.symm (halone c' p' hc')
    · exact absurd huser (halone c p (by assumption))
    · exact h.alone c c' p p' hc hc' huser
  · intro c i u hc b hb
    rcases hother hc with ⟨-, heq⟩ | hc
    · cases heq
      -- the bucket of the user was not full, and it counts all that matters
      have hfull := recent_byUser_of_allowed hallowed
      have hcovered := (h.covered user).mono (cutoff_mono ht hnow) b hb
      have hanti := recent_anti hb (w.throttle.byUser user)
      exact Nat.lt_of_le_of_lt (Nat.le_trans hcovered hanti) hfull
    · exact hchecked.admitted c i u hc b hb
  · intro u hnone
    refine h.recorded u fun c i ok hc => hnone c i ok ?_
    have hne : c ≠ call := by
      rintro rfl
      rw [hidle] at hc
      cases hc
    dsimp only
    rw [Function.update_of_ne hne, hc]

/-- A call ends without a record. -/
lemma usersCounted_giveUp (h : UsersCounted t w)
    (hcall : w.calls call = some (.admitted ip user)) :
    UsersCounted t { w with calls := Function.update w.calls call none } := by
  refine ⟨h.past, h.covered, fun c c' p p' hc hc' => ?_, ?_, h.almost, ?_, h.few⟩
  · exact alone_update h.alone hcall (fun p hp => by cases hp) hc hc'
  · intro c i u hc
    exact h.admitted c i u (calls_of_update hc (by simp)).2
  · intro u hnone
    exact h.recorded u (no_verified_of_update hcall (by simp) hnone)

/-- A call finds no such user. -/
lemma usersCounted_miss (h : UsersCounted t w)
    (hcall : w.calls call = some (.admitted ip user)) (ok : Bool) :
    UsersCounted t
      { w with calls := Function.update w.calls call (some (.verified ip user ok)) } := by
  refine ⟨h.past, h.covered, fun c c' p p' hc hc' => ?_, ?_, h.almost, ?_, h.few⟩
  · refine alone_update h.alone hcall (fun p hp => ?_) hc hc'
    cases hp
    rfl
  · intro c i u hc
    exact h.admitted c i u (calls_of_update hc (by simp)).2
  · intro u hnone
    exact h.recorded u (no_verified_of_update hcall (by simp) hnone)

omit [DecidableEq Call] in
/-- While a call is about to test a password, no other is about to record for its user. -/
lemma UsersCounted.no_verified (h : UsersCounted t w)
    (hcall : w.calls call = some (.admitted ip user)) (c : Call) (i : String) (ok : Bool) :
    w.calls c ≠ some (.verified i user ok) := by
  intro hc
  have heq : c = call := h.alone c call _ _ hc hcall rfl
  rw [heq, hcall] at hc
  cases hc

omit [DecidableEq Call] in
/-- Where a window without a success starts, nothing later is a success. -/
lemma UsersCounted.noSuccessSince (h : UsersCounted t w) {u : String} {a : Nat}
    (ha : t ≤ a + window) (hwindow : ∀ i s, .success i u s ∈ w.log → ¬(a ≤ s ∧ s ≤ a + window)) :
    NoSuccessSince u a w.log := by
  intro i s hmem
  have hpast : s ≤ t := h.past _ hmem
  have hout := hwindow i s hmem
  omega

/-- A call tests a password. -/
lemma usersCounted_test (h : UsersCounted t w) (hcall : w.calls call = some (.admitted ip user))
    (ht : window ≤ t) (ok : Bool) :
    UsersCounted t
      { w with
        calls := Function.update w.calls call (some (.verified ip user ok))
        log := .tested user t :: w.log } := by
  have hmissed := usersCounted_miss h hcall ok
  have hself {a : Nat} (hs : NoSuccessSince user a w.log) :
      recent a (tests user w.log) ≤ recent a (unforgiven user w.log) :=
    h.recorded user (h.no_verified hcall) a hs
  refine ⟨?_, h.covered, hmissed.alone, hmissed.admitted, ?_, ?_, ?_⟩
  · exact List.forall_mem_cons.mpr ⟨Nat.le_refl t, h.past⟩
  · intro u a hs
    by_cases hu : user = u
    · subst hu
      have hle := hself hs.of_cons
      simp only [tests, List.filterMap_cons, if_pos, recent_cons, unforgiven] at hle ⊢
      split <;> omega
    · have hle := h.almost u a hs.of_cons
      simpa [tests, unforgiven, hu] using hle
  · intro u hnone a hs
    have hu : user ≠ u := by
      rintro rfl
      exact hnone call ip ok (Function.update_self ..)
    have hle := hmissed.recorded u hnone a hs.of_cons
    simpa [tests, unforgiven, hu] using hle
  · intro u a hwindow
    have hold : ∀ i s, .success i u s ∈ w.log → ¬(a ≤ s ∧ s ≤ a + window) :=
      fun i s hmem => hwindow i s (List.mem_cons_of_mem _ hmem)
    rw [testsWithin_tested]
    by_cases hin : user = u ∧ a ≤ t ∧ t ≤ a + window
    · -- the tests before it in the window have all been recorded, and the check saw them
      obtain ⟨rfl, -, hend⟩ := hin
      have hcount : testsWithin user a w.log ≤ recent a (unforgiven user w.log) :=
        Nat.le_trans (testsWithin_le_recent user a w.log) (hself (h.noSuccessSince hend hold))
      have hfew : recent a (unforgiven user w.log) < maxFailures := by
        refine h.admitted call ip user hcall a ?_
        rw [cutoff_of_le ht]
        omega
      split <;> omega
    · rw [if_neg hin]
      exact h.few u a hold

/-- A call records a success. -/
lemma usersCounted_succeed (h : UsersCounted t w)
    (hcall : w.calls call = some (.verified ip user true)) :
    UsersCounted t
      { throttle := recordSuccess w.throttle ip user
        calls := Function.update w.calls call none
        log := .success ip user t :: w.log } := by
  have hself {a : Nat} (hs : NoSuccessSince user a (.success ip user t :: w.log)) :
      recent a (tests user w.log) = 0 :=
    recent_tests_eq_zero h.past (hs ip t List.mem_cons_self)
  refine ⟨?_, ?_, fun c c' p p' hc hc' => ?_, ?_, ?_, ?_, ?_⟩
  · exact List.forall_mem_cons.mpr ⟨Nat.le_refl t, h.past⟩
  · intro u
    dsimp only
    rw [recordSuccess, byUser_modify, unforgiven]
    by_cases hu : user = u
    · rw [if_pos hu, if_pos hu.symm]
      exact fun c _ => Nat.le_refl _
    · rw [if_neg hu, if_neg (Ne.symm hu)]
      exact h.covered u
  · exact alone_update h.alone hcall (fun p hp => by cases hp) hc hc'
  · intro c i u hc b hb
    rw [unforgiven]
    split
    · exact (by decide : 0 < maxFailures)
    · exact h.admitted c i u (calls_of_update hc (by simp)).2 b hb
  · intro u a hs
    by_cases hu : user = u
    · subst hu
      rw [tests_success, hself hs]
      exact Nat.zero_le _
    · have hle := h.almost u a hs.of_cons
      simpa [tests, unforgiven, hu] using hle
  · intro u hnone a hs
    by_cases hu : user = u
    · subst hu
      rw [tests_success, hself hs]
      exact Nat.zero_le _
    · have hle := h.recorded u (no_verified_of_update hcall (by simp [hu]) hnone) a hs.of_cons
      simpa [tests, unforgiven, hu] using hle
  · intro u a hwindow
    exact h.few u a fun i s hmem => hwindow i s (List.mem_cons_of_mem _ hmem)

/-- A call records a failure. -/
lemma usersCounted_fail (h : UsersCounted t w)
    (hcall : w.calls call = some (.verified ip user false)) :
    UsersCounted t
      { throttle := recordFailureAt w.throttle ip user t
        calls := Function.update w.calls call none
        log := .failure ip user t :: w.log } := by
  refine ⟨?_, ?_, fun c c' p p' hc hc' => ?_, ?_, ?_, ?_, ?_⟩
  · exact List.forall_mem_cons.mpr ⟨Nat.le_refl t, h.past⟩
  · intro u
    dsimp only
    rw [recordFailureAt, byUser_modify, unforgiven]
    by_cases hu : user = u
    · rw [if_pos hu, if_pos hu.symm]
      exact (h.covered u).prune.push t
    · rw [if_neg hu, if_neg (Ne.symm hu)]
      exact h.covered u
  · exact alone_update h.alone hcall (fun p hp => by cases hp) hc hc'
  · intro c i u hc b hb
    obtain ⟨hne, hc⟩ := calls_of_update hc (by simp)
    have hu : user ≠ u := by
      rintro rfl
      exact hne (h.alone c call _ _ hc hcall rfl)
    rw [unforgiven, if_neg hu]
    exact h.admitted c i u hc b hb
  · intro u a hs
    have hle := h.almost u a hs.of_cons
    by_cases hu : user = u
    · rw [tests_failure, unforgiven, if_pos hu, recent_cons]
      omega
    · simpa [unforgiven, hu] using hle
  · intro u hnone a hs
    by_cases hu : user = u
    · subst hu
      rw [tests_failure]
      by_cases ha : a ≤ t
      · have hle := h.almost user a hs.of_cons
        rw [unforgiven, if_pos rfl, recent_cons, if_pos ha]
        exact hle
      · rw [recent_tests_eq_zero h.past (Nat.lt_of_not_le ha)]
        exact Nat.zero_le _
    · have hle := h.recorded u (no_verified_of_update hcall (by simp [hu]) hnone) a hs.of_cons
      simpa [tests, unforgiven, hu] using hle
  · intro u a hwindow
    exact h.few u a fun i s hmem => hwindow i s (List.mem_cons_of_mem _ hmem)

end Effects

/-- A step keeps the users counted if calls start alone. -/
lemma usersCounted_step {w : World Call} {t : Nat} {e : Step Call} (h : UsersCounted t w)
    (ht : window ≤ t) (hnow : t ≤ e.now) (halone : Alone w e) :
    UsersCounted e.now (step w e) := by
  have hlater := h.later ht hnow
  have hwindow : window ≤ e.now := Nat.le_trans ht hnow
  have heffect := effect_step w e
  generalize step w e = w' at heffect
  cases heffect with
  | idle => exact hlater
  | refuse => exact usersCounted_check h ht hnow _ _
  | letIn hidle hallowed => exact usersCounted_letIn h ht hnow hidle hallowed halone
  | giveUp hcall => exact usersCounted_giveUp hlater hcall
  | miss hcall => exact usersCounted_miss hlater hcall false
  | test hcall => exact usersCounted_test hlater hcall hwindow _
  | succeed hcall => exact usersCounted_succeed hlater hcall
  | fail hcall => exact usersCounted_fail hlater hcall

/-! ### Runs -/

omit [DecidableEq Call] in
lemma addressesCounted_start (t : Nat) : AddressesCounted t (World.start : World Call) :=
  ⟨fun _ _ _ => Nat.le_refl _⟩

omit [DecidableEq Call] in
lemma usersCounted_start (t : Nat) : UsersCounted t (World.start : World Call) where
  past := by simp [World.start]
  covered _ _ _ := Nat.le_refl _
  alone := by simp [World.start]
  admitted := by simp [World.start]
  almost _ _ _ := Nat.zero_le _
  recorded _ _ _ _ := Nat.le_refl _
  few _ _ _ := Nat.zero_le _

/-- **What the throttle guarantees.**  For every interleaving of `verify_credentials` calls with a
clock that does not go back: no success of a user touches what is recorded against another; while
each success from an address comes with only its own users' failures in the window, an address with
`MAX_FAILURES` failures against others in the window is refused; and while calls for one user start
one after another, in no window without a success of a user are more than `MAX_FAILURES` passwords
tested against it.  For the last two the clock has to read at least the window. -/
theorem throttle_holds (steps : List (Step Call))
    (hclock : (steps.map Step.now).Pairwise (· ≤ ·)) :
    Invariant.Along step KeepsOthers World.start steps ∧
      (Invariant.Along step (fun w e => ClockPastWindow w e ∧ OwnFailuresOnly w e)
          World.start steps →
        Invariant.Along step RefusesForeign World.start steps) ∧
      (Invariant.Along step (fun w e => ClockPastWindow w e ∧ Alone w e) World.start steps →
        ∀ before, before <+: steps → FewTests (run World.start before)) := by
  have hpast {Q : World Call → Step Call → Prop}
      (h : Invariant.Along step (fun w e => ClockPastWindow w e ∧ Q w e) World.start steps) :
      ∀ e ∈ steps, window ≤ e.now :=
    Invariant.forall_mem_of_along (Invariant.along_and.mp h).1
  refine ⟨?_, fun hown => ?_, fun halone => ?_⟩
  · exact Invariant.along_of_forall fun before e _ => success_keeps_others _ e
  · refine Invariant.along_of_timed (I := fun t w => window ≤ t ∧ AddressesCounted t w) ?_ hclock
      (hpast hown) hown ⟨Nat.le_refl window, addressesCounted_start window⟩
    rintro t w e ⟨ht, h⟩ hnow ⟨hwindow, hown⟩
    exact ⟨refusesForeign h ht hnow, hwindow, addressesCounted_step h ht hnow hown⟩
  · refine Invariant.forall_initial_of_along (usersCounted_start 0).few ?_
    refine Invariant.along_of_timed (I := fun t w => window ≤ t ∧ UsersCounted t w) ?_ hclock
      (hpast halone) halone ⟨Nat.le_refl window, usersCounted_start window⟩
    rintro t w e ⟨ht, h⟩ hnow ⟨hwindow, halone⟩
    have hnext := usersCounted_step h ht hnow halone
    exact ⟨hnext.few, hwindow, hnext⟩

end Calls

/-! ## Runs that get past the throttle -/

/-- A call that nobody comes between, at one instant. -/
def attempt (call : Nat) (ip user : String) (passwordMatches : Bool) (now : Nat) :
    List (Step Nat) :=
  [.check call ip user now, .verify call (.found ⟨user, user, "member", ""⟩ passwordMatches) now,
    .record call now]

/-- One failure of a call that is alone. -/
theorem throttle_sample :
    Invariant.Along step RefusesForeign World.start (attempt 0 "10.0.0.9" "alice" false window) ∧
      FewTests (run World.start (attempt 0 "10.0.0.9" "alice" false window)) := by
  obtain ⟨-, haddress, huser⟩ :=
    throttle_holds (attempt 0 "10.0.0.9" "alice" false window) (by decide)
  refine ⟨haddress ?_, huser ?_ _ (List.prefix_refl _)⟩
  · refine ⟨⟨Nat.le_refl _, trivial⟩, ⟨Nat.le_refl _, trivial⟩, ⟨Nat.le_refl _, ?_⟩, trivial⟩
    intro ip user hcall
    have hverified : (step (step World.start (.check 0 "10.0.0.9" "alice" window))
        (.verify 0 (.found ⟨"alice", "alice", "member", ""⟩ false) window)).calls 0 =
          some (.verified "10.0.0.9" "alice" false) := by decide +kernel
    rw [hverified] at hcall
    cases hcall
  · refine ⟨⟨Nat.le_refl _, ?_⟩, ⟨Nat.le_refl _, trivial⟩, ⟨Nat.le_refl _, trivial⟩, trivial⟩
    intro call phase hcall
    cases hcall

/-- Seven failures against one user and one against another from one address, with a sign-in of the
attacker's own in between. -/
def ownSignIn : List (Step Nat) :=
  (List.replicate 7 (attempt 0 "10.0.0.9" "alice" false window)).flatten ++
    attempt 0 "10.0.0.9" "mallory" true window ++ attempt 0 "10.0.0.9" "bob" false window

/-- Nine calls for one user pass the check before the first of them records. -/
def sideBySide : List (Step Nat) :=
  ((List.range 9).map fun call => Step.check call "10.0.0.9" "alice" window) ++
    (List.range 9).map fun call =>
      Step.verify call (.found ⟨"alice", "alice", "member", ""⟩ false) window

/-- An address with eight failures against others is not refused once it has signed in for itself,
and nine passwords are tested against a user by calls in flight together. -/
theorem throttle_evaded :
    ¬(∀ steps : List (Step Nat), (steps.map Step.now).Pairwise (· ≤ ·) →
        Invariant.Along step KeepsOthers World.start steps ∧
          Invariant.Along step RefusesForeign World.start steps ∧
          ∀ before, before <+: steps → FewTests (run World.start before)) ∧
      recent 0 (foreign "10.0.0.9" (run World.start ownSignIn).log) = 8 ∧
      (checkAt (run World.start ownSignIn).throttle "10.0.0.9" "carol" window).1 = .allowed ∧
      testsWithin "alice" window (run World.start sideBySide).log = 9 := by
  have hforeign : recent 0 (foreign "10.0.0.9" (run World.start ownSignIn).log) = 8 := by
    decide +kernel
  have hallowed :
      (checkAt (run World.start ownSignIn).throttle "10.0.0.9" "carol" window).1 = .allowed := by
    decide +kernel
  refine ⟨fun hall => ?_, hforeign, hallowed, by decide +kernel⟩
  obtain ⟨-, hrefuses, -⟩ :=
    hall (ownSignIn ++ [.check 0 "10.0.0.9" "carol" window]) (by decide +kernel)
  have hlast := (Invariant.along_of_append hrefuses).1
  have hthrottled := hlast (by
    change maxFailures ≤ recent 0 (foreign "10.0.0.9" (run World.start ownSignIn).log)
    rw [hforeign]
    exact Nat.le_refl 8)
  exact absurd (hallowed.symm.trans hthrottled) (by decide)

end Orca.Auth
