import Mathlib.Algebra.GroupWithZero.Nat
import Mathlib.Algebra.BigOperators.Group.List.Basic
import Orca.Mounts.Restores

/-!
# How often containers are started again

As long as the ledger can be written, a container is started at most five times for each time that a
sweep left it stopped (`starts_bounded`).  Each entry of the ledger stands for the starts that are
left; a start takes one of them, and only a record adds new ones.
-/

namespace Orca.StoppedConsumers

/-! ## Starts that are left -/

/-- How often a container may be started before its entry is given up. -/
def startsLeft (e : StoppedConsumer) : ℕ := maxStartFailures - 1 - e.startFailures + 1

/-- How often the container of `k` may be started before its entries are given up. -/
def startsOpen (k : StoppedConsumer) (ledger : List StoppedConsumer) : ℕ :=
  ((ledger.filter k.sameContainer).map startsLeft).sum

lemma startsOpen_append (k : StoppedConsumer) (ledger ledger' : List StoppedConsumer) :
    startsOpen k (ledger ++ ledger') = startsOpen k ledger + startsOpen k ledger' := by
  unfold startsOpen
  rw [List.filter_append, List.map_append, List.sum_append]

lemma startsOpen_singleton (k e : StoppedConsumer) :
    startsOpen k [e] = if k.sameContainer e then startsLeft e else 0 := by
  unfold startsOpen
  cases hsame : k.sameContainer e with
  | false => rw [List.filter_cons_of_neg (by rw [hsame]; exact Bool.false_ne_true)]; rfl
  | true => rw [List.filter_cons_of_pos hsame]; rfl

lemma startsOpen_cons (k e : StoppedConsumer) (ledger : List StoppedConsumer) :
    startsOpen k (e :: ledger) =
      (if k.sameContainer e then startsLeft e else 0) + startsOpen k ledger := by
  rw [← startsOpen_singleton, ← startsOpen_append, List.singleton_append]

lemma startsOpen_filter_le (k : StoppedConsumer) (ledger : List StoppedConsumer)
    (p : StoppedConsumer → Bool) : startsOpen k (ledger.filter p) ≤ startsOpen k ledger := by
  induction ledger with
  | nil => exact le_rfl
  | cons e ledger ih =>
    rw [List.filter_cons, startsOpen_cons]
    split
    · rw [startsOpen_cons]
      exact Nat.add_le_add_left ih _
    · exact ih.trans (Nat.le_add_left _ _)

/-- A start of an entry is one fewer that is left. -/
lemma startsLeft_restoreEntry (rt : ContainerRuntime) (hostHealthy : String → Option Bool)
    (k e : StoppedConsumer) :
    startsOpen k (restoreEntry rt hostHealthy e).keep.toList +
        (if (restoreEntry rt hostHealthy e).started && k.sameContainer e then 1 else 0) ≤
      if k.sameContainer e then startsLeft e else 0 := by
  by_cases hruntime : e.runtime = rt.name
  · have hrestores := restores_restoreEntry hostHealthy hruntime
    generalize (restoreEntry rt hostHealthy e).keep = keep at hrestores ⊢
    generalize (restoreEntry rt hostHealthy e).started = started at hrestores ⊢
    have hleft : 1 ≤ startsLeft e := Nat.le_add_left _ _
    have hsame {n m : ℕ} : k.sameContainer { e with healthySweeps := n, startFailures := m } =
      k.sameContainer e := rfl
    cases hrestores with
    | dropped => exact Nat.zero_le _
    | unseen _ | unhealthy _ _ | counted _ _ _ =>
      rw [Option.toList_some, startsOpen_singleton, Bool.false_and, if_neg Bool.false_ne_true]
      exact le_rfl
    | started _ _ _ =>
      rw [Bool.true_and]
      change 0 + _ ≤ _
      split <;> omega
    | failed _ _ _ hroom =>
      rw [Option.toList_some, startsOpen_singleton, hsame, Bool.true_and]
      split
      · unfold startsLeft maxStartFailures at *
        dsimp only
        omega
      · exact le_rfl
  · rw [restoreEntry_of_ne hruntime, Bool.false_and, if_neg Bool.false_ne_true, Option.toList_some,
      startsOpen_singleton]
    exact le_rfl

/-- What a runtime is asked to start is so much fewer that is left. -/
lemma startsOpen_restore (rt : ContainerRuntime) (hostHealthy : String → Option Bool)
    (k : StoppedConsumer) (ledger : List StoppedConsumer) :
    startsOpen k (ledger.filterMap fun e => (restoreEntry rt hostHealthy e).keep) +
        (ledger.filter fun e => (restoreEntry rt hostHealthy e).started).countP k.sameContainer ≤
      startsOpen k ledger := by
  induction ledger with
  | nil => exact le_rfl
  | cons e ledger ih =>
    have hentry := startsLeft_restoreEntry rt hostHealthy k e
    have hkept : startsOpen k ((e :: ledger).filterMap fun e =>
          (restoreEntry rt hostHealthy e).keep) =
        startsOpen k (restoreEntry rt hostHealthy e).keep.toList +
          startsOpen k (ledger.filterMap fun e => (restoreEntry rt hostHealthy e).keep) := by
      rw [List.filterMap_cons]
      cases hkeep : (restoreEntry rt hostHealthy e).keep with
      | none => exact (Nat.zero_add _).symm
      | some e' => rw [Option.toList_some, ← startsOpen_append, List.singleton_append]
    have hcount : ((e :: ledger).filter fun e =>
          (restoreEntry rt hostHealthy e).started).countP k.sameContainer =
        (ledger.filter fun e => (restoreEntry rt hostHealthy e).started).countP k.sameContainer +
          if (restoreEntry rt hostHealthy e).started && k.sameContainer e then 1 else 0 := by
      rw [List.filter_cons]
      cases hstarted : (restoreEntry rt hostHealthy e).started with
      | false => rw [if_neg Bool.false_ne_true, Bool.false_and, if_neg Bool.false_ne_true]; rfl
      | true => rw [if_pos rfl, List.countP_cons, Bool.true_and]
    rw [hkept, hcount, startsOpen_cons]
    omega

/-- A record makes room for as many starts as there may be. -/
lemma startsOpen_record {hostHealthy : String → Option Bool} {rt : ContainerRuntime}
    (k : StoppedConsumer) {stopped : List StoppedConsumer}
    (hstopped : ∀ r ∈ stopped, r ∈ recordedBy hostHealthy rt) (ledger : List StoppedConsumer) :
    startsOpen k (stopped.foldl record ledger) ≤
      startsOpen k ledger + maxStartFailures * stopped.countP k.sameContainer := by
  induction stopped generalizing ledger with
  | nil => exact le_rfl
  | cons r stopped ih =>
    have hrest := ih (fun r' hr' => hstopped r' (List.mem_cons_of_mem r hr')) (record ledger r)
    have hhead : startsOpen k (record ledger r) ≤
        startsOpen k ledger + if k.sameContainer r then maxStartFailures else 0 := by
      unfold record
      rw [startsOpen_append, startsOpen_singleton]
      refine Nat.add_le_add (startsOpen_filter_le k ledger _) ?_
      split
      · unfold startsLeft
        rw [(of_mem_recordedBy (hstopped r List.mem_cons_self)).2.2]
        exact le_rfl
      · exact le_rfl
    rw [List.foldl_cons, List.countP_cons, Nat.mul_add]
    split at hhead
    · rw [if_pos ‹_›, Nat.mul_one]
      omega
    · rw [if_neg ‹_›, Nat.mul_zero]
      omega

/-- What is started in a sweep is so much fewer that is left, but for what is recorded in it. -/
lemma startsOpen_sweep (hostHealthy : String → Option Bool) (k : StoppedConsumer)
    (rts : List ContainerRuntime) (p : Progress) :
    startsOpen k (rts.foldl (recoverRuntime hostHealthy) p).ledger +
        (rts.foldl (recoverRuntime hostHealthy) p).started.countP k.sameContainer +
        maxStartFailures * p.stopped.countP k.sameContainer ≤
      startsOpen k p.ledger + p.started.countP k.sameContainer + maxStartFailures *
        (rts.foldl (recoverRuntime hostHealthy) p).stopped.countP k.sameContainer := by
  induction rts generalizing p with
  | nil => exact le_rfl
  | cons rt rts ih =>
    have hrest := ih (recoverRuntime hostHealthy p rt)
    have hrestore := startsOpen_restore rt hostHealthy k p.ledger
    have hrecord := startsOpen_record k (fun r (hr : r ∈ recordedBy hostHealthy rt) => hr)
      (p.ledger.filterMap fun e => (restoreEntry rt hostHealthy e).keep)
    rw [recoverRuntime_ledger, recoverRuntime_started, recoverRuntime_stopped, List.countP_append,
      List.countP_append, Nat.mul_add] at hrest
    rw [List.foldl_cons]
    omega

/-! ## Runs -/

/-- What each sweep of a run does, from a file on. -/
def history (owner : String) : Option (List StoppedConsumer) → List Sweep → List Swept
  | _, [] => []
  | file, s :: sweeps =>
    let r := recoverConsumersForOwnerAt owner file s
    r :: history owner r.file sweeps

/-- One sweep that can write the ledger. -/
lemma startsOpen_file (owner : String) (k : StoppedConsumer) (file : Option (List StoppedConsumer))
    {s : Sweep} (hsave : s.save.written = true) :
    startsOpen k ((recoverConsumersForOwnerAt owner file s).file.getD []) +
        (recoverConsumersForOwnerAt owner file s).started.countP k.sameContainer ≤
      startsOpen k (file.getD []) + maxStartFailures *
        (recoverConsumersForOwnerAt owner file s).stopped.countP k.sameContainer := by
  have hsweep (ledger : List StoppedConsumer) (errors : List String) :
      startsOpen k (sweepLedger s ledger errors).ledger +
          (sweepLedger s ledger errors).started.countP k.sameContainer ≤
        startsOpen k ledger +
          maxStartFailures * (sweepLedger s ledger errors).stopped.countP k.sameContainer := by
    have h := startsOpen_sweep s.hostHealthy k s.runtimes
      ⟨ledger, [], [], [], { ConsumerRecoverResult.default with errors, noConsumersFound := true }⟩
    exact h
  cases howner : validOwner owner with
  | false =>
    obtain ⟨hfile, hstarted, -⟩ := sweep_of_invalid howner file s
    rw [hfile, hstarted]
    exact Nat.le_add_right _ _
  | true =>
    cases outcome_sweep howner file s with
    | idle _ hfile hstarted _ =>
      rw [hfile, hstarted]
      exact Nat.le_add_right _ _
    | lost errors _ hfile hstarted hstopped =>
      have h := hsweep [] errors
      have hnone : startsOpen k [] = 0 := rfl
      rw [hstarted, hstopped]
      rcases hfile with hfile | hfile | hfile
      · rw [hfile]
        omega
      · rw [hfile, Option.getD_none]
        omega
      · rw [hfile, Option.getD_some]
        omega
    | kept errors _ hfile hstarted hstopped =>
      rw [hfile, hstarted, hstopped]
      exact hsweep _ errors
    | unsaved _ _ hno _ _ _ =>
      rw [hsave] at hno
      cases hno

/-- As long as the ledger can be written, a container is started at most five times for each time
that a sweep left it stopped. -/
theorem starts_bounded (owner : String) (sweeps : List Sweep)
    (hsave : ∀ s ∈ sweeps, s.save.written = true) (k : StoppedConsumer) :
    ((history owner none sweeps).flatMap Swept.started).countP k.sameContainer ≤
      maxStartFailures *
        ((history owner none sweeps).flatMap Swept.stopped).countP k.sameContainer := by
  have hgeneral : ∀ (sweeps : List Sweep) (file : Option (List StoppedConsumer)),
      (∀ s ∈ sweeps, s.save.written = true) →
      ((history owner file sweeps).flatMap Swept.started).countP k.sameContainer ≤
        startsOpen k (file.getD []) + maxStartFailures *
          ((history owner file sweeps).flatMap Swept.stopped).countP k.sameContainer := by
    intro sweeps
    induction sweeps with
    | nil => exact fun _ _ => Nat.zero_le _
    | cons s sweeps ih =>
      intro file hsave
      have hhead := startsOpen_file owner k file (hsave s List.mem_cons_self)
      have hrest := ih (recoverConsumersForOwnerAt owner file s).file fun s' hs' =>
        hsave s' (List.mem_cons_of_mem s hs')
      unfold history
      dsimp only
      rw [List.flatMap_cons, List.flatMap_cons, List.countP_append, List.countP_append, Nat.mul_add]
      omega
  have h := hgeneral sweeps none hsave
  rw [Option.getD_none] at h
  exact h.trans (Nat.zero_add _).le

/-- One start of the container, which was left stopped once. -/
theorem starts_bounded_of_web :
    ((history "nfs" none [leavesStopped, seesStopped, seesStopped, seesStopped]).flatMap
      Swept.started).countP (stoppedWeb 0).sameContainer ≤ 5 := by
  refine (starts_bounded "nfs" [leavesStopped, seesStopped, seesStopped, seesStopped] ?_
    (stoppedWeb 0)).trans (by decide +kernel)
  intro s hs
  simp only [List.mem_cons, List.not_mem_nil, or_false, or_self] at hs
  rcases hs with rfl | rfl <;> rfl

end Orca.StoppedConsumers
