import Orca.Containers.Reconciler
import Orca.Library.Emission

/-!
# Held containers in a run of the reconciler

A container is started only if it should run, is not excluded, no mount blocks it and the pass is
not a dry run; this holds in every pass.  That it is not held is up to the breaker, and the breaker
is asked only where it is armed.  `held_never_started_iff` says that a start without arming is the
only way in which a held container is started.

A pass is seen as its calls on the breaker store (`reconcile_eq`): one for each container, and the
collection at its end.  `allowed_callStart_iff` is about one call, the rest is induction.
-/

namespace Orca.Containers.Reconciler

open Breaker

/-! ## Held containers -/

/-- The record of a container is held. -/
def Held (key : RecordKey) (store : BreakerStore) : Prop :=
  ∃ record, store.find key = some record ∧ record.status = .held

/-- A held record says why. -/
def HasReason (record : BreakerRecord) : Prop := record.status = .held → record.heldReason ≠ none

/-- Every held record says why, as every store does that the operations make. -/
def HoldsHaveReasons (store : BreakerStore) : Prop :=
  ∀ key record, store.find key = some record → HasReason record

variable {key : RecordKey} {store : BreakerStore} {record : BreakerRecord}

lemma holdsHaveReasons_empty : HoldsHaveReasons .empty := by
  intro key record hfind
  cases hfind

lemma exists_holding (h : HoldsHaveReasons store) (hheld : Held key store) :
    ∃ hold, Holding key hold store := by
  obtain ⟨record, hfind, hstatus⟩ := hheld
  obtain ⟨reason, hreason⟩ := Option.ne_none_iff_exists'.mp (h key record hfind hstatus)
  exact ⟨⟨reason, _, _⟩, record, hfind, hstatus, hreason, rfl, rfl⟩

lemma held_of_holding {hold : Hold} (h : Holding key hold store) : Held key store := by
  obtain ⟨record, hfind, hof⟩ := h
  exact ⟨record, hfind, hof.status⟩

lemma holdsHaveReasons_save (h : HoldsHaveReasons store) (hrecord : HasReason record) :
    HoldsHaveReasons (save record store) := by
  intro key found hfind
  rw [find_save] at hfind
  split at hfind
  · rw [← Option.some.inj hfind]
    exact hrecord
  · exact h key found hfind

lemma hasReason_loadOrFresh (h : HoldsHaveReasons store) (key : RecordKey) :
    HasReason (loadOrFresh store key) := by
  unfold loadOrFresh
  cases hfind : store.find key with
  | none =>
    intro hstatus
    cases hstatus
  | some record => exact h key record hfind

/-- Arming keeps the reason of a hold, and lets a container start only if it is not held. -/
lemma armRecord_hold (req : ArmRequest) (h : HasReason record) :
    HasReason (armRecord req record).1 ∧
      ((armRecord req record).2 = .proceed → (armRecord req record).1.status ≠ .held) := by
  by_cases hheld : record.status = .held
  · obtain ⟨reason, hreason⟩ := Option.ne_none_iff_exists'.mp (h hheld)
    rw [armRecord_of_held req hheld hreason]
    refine ⟨fun _ hnone => ?_, fun hproceed => ?_⟩
    · rw [hreason] at hnone
      cases hnone
    · cases hproceed
  · rw [armRecord_of_not_held req fun hstatus => absurd hstatus hheld]
    have hframe := foldObservation_frame (record.pruneWindow req.now) req.container
      (overlay (record.pruneWindow req.now) req.observation) req.now
    dsimp only [judge]
    cases Breaker.classify _ req.container _ req.now with
    | none =>
      have hnot : (foldObservation (record.pruneWindow req.now) req.container
          (overlay (record.pruneWindow req.now) req.observation) req.now).status ≠ .held := by
        rw [hframe.2.2]
        exact hheld
      exact ⟨fun hstatus => absurd hstatus hnot, fun _ => hnot⟩
    | some reason =>
      refine ⟨fun _ hnone => ?_, fun hproceed => ?_⟩
      · cases hnone
      · cases hproceed

/-- Every operation keeps the reasons of the holds. -/
lemma holdsHaveReasons_step (h : HoldsHaveReasons store) (a : Action) :
    HoldsHaveReasons (step store a) := by
  cases a with
  | arm req =>
    exact holdsHaveReasons_save h (armRecord_hold req (hasReason_loadOrFresh h _)).1
  | markNotified key now =>
    dsimp only [step, markNotified]
    cases hfind : store.find key with
    | none => exact h
    | some record => exact holdsHaveReasons_save h (h key record hfind)
  | unhold key =>
    dsimp only [step, unhold]
    cases hfind : store.find key with
    | none => exact h
    | some record =>
      dsimp only
      split
      · exact h
      · refine holdsHaveReasons_save h fun hstatus => ?_
        cases hstatus
  | retainActive liveKeys =>
    intro key record hfind
    dsimp only [step, retainActive] at hfind
    rw [KeyedTable.find_filter] at hfind
    exact h key record (Option.eq_some_of_filter_eq_some hfind)

/-! ## One container -/

/-- After an `arm` that lets a container start, it is not held. -/
lemma not_held_of_proceed (h : HoldsHaveReasons store) {req : ArmRequest}
    (hproceed : (arm req store).2 = .proceed) : ¬Held req.container.key (arm req store).1 := by
  rintro ⟨record, hfind, hstatus⟩
  rw [find_arm, if_pos rfl] at hfind
  refine (armRecord_hold req (hasReason_loadOrFresh h req.container.key)).2 hproceed ?_
  rw [Option.some.inj hfind]
  exact hstatus

/-- No action clears a hold. -/
def Quiet (actions : List Action) : Prop := ∀ a ∈ actions, ∀ key, a ≠ .unhold key

/-- What arming does to the store: it arms, and may note that the hold is announced. -/
lemma armAndDispatchHold_store (v : Visit) (initiating : Bool) (store : BreakerStore) :
    ∃ actions, Quiet actions ∧ (armAndDispatchHold v initiating store).1 =
      actions.foldl step store := by
  have hquiet : Quiet [.arm ⟨v.container.toContainer, v.observation, v.now, initiating⟩] := by
    intro a ha key heq
    rw [List.mem_singleton.mp ha] at heq
    cases heq
  unfold armAndDispatchHold
  cases harm : arm ⟨v.container.toContainer, v.observation, v.now, initiating⟩ store with
  | mk armed decision =>
    have hstep : step store (.arm ⟨v.container.toContainer, v.observation, v.now, initiating⟩) =
        armed := congrArg Prod.fst harm
    cases decision with
    | proceed => exact ⟨_, hquiet, hstep.symm⟩
    | hold reason notifiedAt =>
      cases notifiedAt with
      | some already => exact ⟨_, hquiet, hstep.symm⟩
      | none =>
        cases v.announcedAt with
        | none => exact ⟨_, hquiet, hstep.symm⟩
        | some announced =>
          refine ⟨[.arm ⟨v.container.toContainer, v.observation, v.now, initiating⟩,
            .markNotified v.container.key announced], ?_, ?_⟩
          · intro a ha key heq
            rcases List.mem_cons.mp ha with rfl | ha
            · cases heq
            · rw [List.mem_singleton.mp ha] at heq
              cases heq
          · rw [List.foldl_cons, hstep]
            rfl

/-- The gate of the breaker, too, clears no hold. -/
lemma breakerGate_store (dryRun : Bool) (v : Visit) (store : BreakerStore) :
    ∃ actions, Quiet actions ∧ (breakerGate dryRun v store).1 = actions.foldl step store := by
  unfold breakerGate
  split
  · exact armAndDispatchHold_store v true store
  · refine ⟨[], fun a ha => ?_, rfl⟩
    cases ha

/-- What the start of a container that no mount blocks depends on. -/
lemma runStartPipeline_of_free {v : Visit} (dryRun : Bool) (hfree : v.blockedSources = [])
    (store : BreakerStore) :
    (runStartPipeline dryRun v store).store = (breakerGate dryRun v store).1 ∧
      (runStartPipeline dryRun v store).start =
        if (breakerGate dryRun v store).2.isSome || dryRun then none
        else some ⟨v, dryRun, (breakerGate dryRun v store).1⟩ := by
  unfold runStartPipeline
  dsimp only
  rw [if_neg (not_not.mpr hfree)]
  cases breakerGate dryRun v store with
  | mk gated held =>
    cases held with
    | some reason => exact ⟨rfl, rfl⟩
    | none => exact ⟨rfl, rfl⟩

lemma runStartPipeline_of_blocked {v : Visit} (dryRun : Bool) (hblocked : v.blockedSources ≠ [])
    (store : BreakerStore) : (runStartPipeline dryRun v store).store = store ∧
      (runStartPipeline dryRun v store).start = none := by
  unfold runStartPipeline
  dsimp only
  rw [if_pos hblocked]
  exact ⟨rfl, rfl⟩

/-- The store after a container is the one after some actions on it. -/
lemma reconcileContainer_store (dryRun : Bool) (v : Visit) (store : BreakerStore) :
    ∃ actions, Quiet actions ∧ (reconcileContainer dryRun v store).store =
      actions.foldl step store := by
  have hnone : ∃ actions, Quiet actions ∧ store = actions.foldl step store := by
    refine ⟨[], fun a ha => ?_, rfl⟩
    cases ha
  have hpipeline : ∃ actions, Quiet actions ∧ (runStartPipeline dryRun v store).store =
      actions.foldl step store := by
    by_cases hfree : v.blockedSources = []
    · rw [(runStartPipeline_of_free dryRun hfree store).1]
      exact breakerGate_store dryRun v store
    · rw [(runStartPipeline_of_blocked dryRun hfree store).1]
      exact hnone
  unfold reconcileContainer
  dsimp only
  split
  · exact hnone
  · exact hnone
  · split
    · exact armAndDispatchHold_store v false store
    · exact hnone
  · exact hpipeline
  · exact hpipeline
  · exact hpipeline

lemma holdsHaveReasons_foldl (h : HoldsHaveReasons store) (actions : List Action) :
    HoldsHaveReasons (actions.foldl step store) :=
  Invariant.foldl_invariant (I := HoldsHaveReasons) (fun a _ _ hs => holdsHaveReasons_step hs a) h

/-- Actions that clear no hold keep a container held. -/
lemma held_foldl (h : HoldsHaveReasons store) (hheld : Held key store) {actions : List Action}
    (hquiet : Quiet actions) : Held key (actions.foldl step store) := by
  obtain ⟨hold, hholding⟩ := exists_holding h hheld
  refine held_of_holding
    (Invariant.foldl_invariant (I := Holding key hold) (fun a ha s hs => ?_) hholding)
  refine holding_step hs ?_
  cases a with
  | unhold key' => exact absurd rfl (hquiet _ ha key')
  | arm req => rfl
  | markNotified key' now => rfl
  | retainActive liveKeys => rfl

/-- A container that is classified to be started should run and is not excluded. -/
lemma classify_started {c : ListedContainer} (h : (classify c).action = .started) :
    c.restartPolicy.desiresRunning = true ∧ c.hasLabel "orca.skip" "true" = false ∧
      c.hasLabel "orca.heal" "manual" = false := by
  unfold classify at h
  split at h
  · cases h
  rename_i hskip
  split at h
  · cases h
  rename_i hmanual
  split at h
  · split at h <;> cases h
  rename_i hdesired
  refine ⟨?_, Bool.eq_false_of_not_eq_true hskip, Bool.eq_false_of_not_eq_true hmanual⟩
  rw [Bool.not_eq_true', Bool.not_eq_false] at hdesired
  exact hdesired

/-- A container is started only from the start pipeline. -/
lemma reconcileContainer_start (dryRun : Bool) (v : Visit) (store : BreakerStore) :
    (reconcileContainer dryRun v store).start =
      if (classify v.container).action = .started then (runStartPipeline dryRun v store).start
      else none := by
  have honly : (classify v.container).action = .started ∨
      (classify v.container).action = .skippedLabel ∨
      (classify v.container).action = .skippedPolicy ∨ (classify v.container).action = .noOp := by
    unfold classify
    repeat' split
    all_goals simp [ListedContainer.row]
  unfold reconcileContainer
  dsimp only
  rcases honly with h | h | h | h
  · rw [h, if_pos rfl]
  · rw [h]
    rfl
  · rw [h]
    rfl
  · rw [h]
    dsimp only
    split <;> rfl

/-! ## Starts -/

/-- What has to hold when a container is started. -/
structure StartCall.Allowed (s : StartCall) : Prop where
  desired : s.visit.container.restartPolicy.desiresRunning = true
  /-- The operator has not excluded it. -/
  notSkipped : s.visit.container.hasLabel "orca.skip" "true" = false
  /-- The operator does not start it by hand. -/
  notManual : s.visit.container.hasLabel "orca.heal" "manual" = false
  mounted : ∀ source ∈ s.visit.container.mountSources, s.visit.probe source ≠ .stale
  /-- The pass is not a dry run. -/
  real : s.dryRun = false
  notHeld : ¬Held s.visit.container.key s.store

/-- A call on the breaker store, as a pass and the operator make them. -/
inductive Call where
  | visit (dryRun : Bool) (v : Visit)
  /-- The records of other containers are collected. -/
  | retain (liveKeys : List RecordKey)
  /-- The operator asks to clear a hold. -/
  | unhold (key : RecordKey)

/-- The store after a call. -/
def callStore (store : BreakerStore) : Call → BreakerStore
  | .visit dryRun v => (reconcileContainer dryRun v store).store
  | .retain liveKeys => retainActive liveKeys store
  | .unhold key => step store (.unhold key)

/-- The start in a call. -/
def callStart (store : BreakerStore) : Call → Option StartCall
  | .visit dryRun v => (reconcileContainer dryRun v store).start
  | .retain _ | .unhold _ => none

/-- If the container is held that a call is about to start, the breaker is armed. -/
def Call.ArmsHeld (store : BreakerStore) : Call → Prop
  | .visit dryRun v => dryRun = false → (classify v.container).action = .started →
      v.blockedSources = [] → Held v.container.key store → v.container.arms = true
  | .retain _ | .unhold _ => True

/-- Every call keeps the reasons of the holds. -/
lemma holdsHaveReasons_callStore (h : HoldsHaveReasons store) (c : Call) :
    HoldsHaveReasons (callStore store c) := by
  cases c with
  | visit dryRun v =>
    obtain ⟨actions, -, hstore⟩ := reconcileContainer_store dryRun v store
    rw [callStore, hstore]
    exact holdsHaveReasons_foldl h actions
  | retain liveKeys => exact holdsHaveReasons_step h (.retainActive liveKeys)
  | unhold key => exact holdsHaveReasons_step h (.unhold key)

/-- Where the breaker is armed, it lets a container start exactly if the container is not held
afterwards. -/
lemma armAndDispatchHold_allows (h : HoldsHaveReasons store) {v : Visit}
    (hallows : (armAndDispatchHold v true store).2 = none) :
    ¬Held v.container.key (armAndDispatchHold v true store).1 := by
  unfold armAndDispatchHold at hallows ⊢
  cases harm : arm ⟨v.container.toContainer, v.observation, v.now, true⟩ store with
  | mk armed decision =>
    rw [harm] at hallows
    cases decision with
    | proceed =>
      have hproceed : (arm ⟨v.container.toContainer, v.observation, v.now, true⟩ store).2 =
          .proceed := congrArg Prod.snd harm
      have hnot := not_held_of_proceed h hproceed
      rw [harm] at hnot
      exact hnot
    | hold reason notifiedAt =>
      dsimp only at hallows
      split at hallows <;> cases hallows

/-- A start from the pipeline in a real pass is allowed exactly if the container is not held. -/
lemma allowed_iff_not_held {v : Visit} (hclass : (classify v.container).action = .started)
    (hfree : v.blockedSources = []) (store : BreakerStore) :
    (⟨v, false, store⟩ : StartCall).Allowed ↔ ¬Held v.container.key store := by
  obtain ⟨hdesired, hskip, hmanual⟩ := classify_started hclass
  refine ⟨StartCall.Allowed.notHeld, fun hnot => ⟨hdesired, hskip, hmanual, ?_, rfl, hnot⟩⟩
  intro source hsource hstale
  have hin : source ∈ v.blockedSources :=
    List.mem_filter.mpr ⟨hsource, decide_eq_true hstale⟩
  rw [hfree] at hin
  cases hin

/-- A start behind the gate of the breaker is allowed exactly if the breaker is armed when the
container is held. -/
lemma allowed_gate_iff (h : HoldsHaveReasons store) {v : Visit} (dryRun : Bool)
    (hclass : (classify v.container).action = .started) (hfree : v.blockedSources = []) :
    (∀ s : StartCall, (if (breakerGate dryRun v store).2.isSome || dryRun then none
        else some ⟨v, dryRun, (breakerGate dryRun v store).1⟩) = some s → s.Allowed) ↔
      (dryRun = false → Held v.container.key store → v.container.arms = true) := by
  cases dryRun with
  | true =>
    rw [Bool.or_true, if_pos rfl]
    refine iff_of_true (fun s hs => ?_) fun hreal => ?_
    · cases hs
    · cases hreal
  | false =>
    rw [Bool.or_false]
    cases harms : v.container.arms with
    | true =>
      refine iff_of_true (fun s hs => ?_) fun _ _ => rfl
      have hgate : breakerGate false v store = armAndDispatchHold v true store := by
        rw [breakerGate, harms]
        rfl
      rw [hgate] at hs
      split at hs
      · cases hs
      · rename_i hallows
        have hnone := Option.not_isSome_iff_eq_none.mp hallows
        rw [← Option.some.inj hs]
        exact (allowed_iff_not_held hclass hfree _).mpr (armAndDispatchHold_allows h hnone)
    | false =>
      have hgate : breakerGate false v store = (store, none) := by
        rw [breakerGate, harms]
        rfl
      rw [hgate, Option.isSome_none, if_neg Bool.false_ne_true]
      constructor
      · intro hall _ hheld
        exact absurd hheld ((allowed_iff_not_held hclass hfree store).mp (hall _ rfl))
      · intro harmed s hs
        rw [← Option.some.inj hs]
        refine (allowed_iff_not_held hclass hfree store).mpr fun hheld => ?_
        exact Bool.false_ne_true (harmed rfl hheld)

/-- A start is allowed exactly if the container, when it is held, is not started without the
breaker. -/
lemma allowed_callStart_iff (h : HoldsHaveReasons store) (c : Call) :
    (∀ s, callStart store c = some s → s.Allowed) ↔ c.ArmsHeld store := by
  cases c with
  | retain liveKeys => exact iff_of_true (fun s hs => by cases hs) trivial
  | unhold key => exact iff_of_true (fun s hs => by cases hs) trivial
  | visit dryRun v =>
    dsimp only [callStart, Call.ArmsHeld]
    rw [reconcileContainer_start]
    by_cases hclass : (classify v.container).action = .started
    · rw [if_pos hclass]
      by_cases hfree : v.blockedSources = []
      · rw [(runStartPipeline_of_free dryRun hfree store).2, allowed_gate_iff h dryRun hclass hfree]
        exact ⟨fun harms hreal _ _ => harms hreal, fun harms hreal => harms hreal hclass hfree⟩
      · rw [(runStartPipeline_of_blocked dryRun hfree store).2]
        exact iff_of_true (fun s hs => by cases hs) fun _ _ hnil => absurd hnil hfree
    · rw [if_neg hclass]
      exact iff_of_true (fun s hs => by cases hs) fun _ hstarted => absurd hstarted hclass

/-! ## Runs -/

/-- The calls of a pass. -/
def Pass.calls (p : Pass) : List Call :=
  let visits := p.adapters.flatMap fun a => a.listing.toOption.getD []
  visits.map (Call.visit p.dryRun) ++
    if !p.dryRun && p.adapters.all (fun a => a.listing.isOk) then
      [.retain (visits.map fun v => v.container.key)]
    else []

/-- In a pass the breaker is armed before every start of a held container. -/
def Step.ArmsHeld (store : BreakerStore) : Step → Prop
  | .pass p => Invariant.Along callStore (fun s c => c.ArmsHeld s) store p.calls
  | .unhold _ => True

/-- What a run of the reconciler has to do with held containers. -/
structure SafeRun (run : List Step) : Prop where
  allowed : ∀ s ∈ runStarts .empty run, s.Allowed
  /-- A container that is held is not started until its hold is cleared. -/
  waits : ∀ before after, before ++ after = run → ∀ key,
    Held key (before.foldl stepStore .empty) →
      Invariant.Along stepStore (fun store a => a.unholds key store = false)
        (before.foldl stepStore .empty) after →
      ∀ s ∈ runStarts (before.foldl stepStore .empty) after, s.visit.container.key ≠ key

/-- The visits of one adapter, one after another. -/
lemma foldl_visit (dryRun : Bool) (visits : List Visit) (p : PassState) :
    (visits.foldl (PassState.visit dryRun) p).store =
        (visits.map (Call.visit dryRun)).foldl callStore p.store ∧
      (visits.foldl (PassState.visit dryRun) p).starts =
        p.starts ++ Emission.emitted callStore callStart p.store
          (visits.map (Call.visit dryRun)) ∧
      (visits.foldl (PassState.visit dryRun) p).liveKeys =
        p.liveKeys ++ visits.map (fun v => v.container.key) ∧
      (visits.foldl (PassState.visit dryRun) p).allListed = p.allListed := by
  induction visits generalizing p with
  | nil => simp [Emission.emitted]
  | cons v rest ih =>
    obtain ⟨hstore, hstarts, hkeys, hlisted⟩ := ih (p.visit dryRun v)
    rw [List.foldl_cons, List.map_cons, List.foldl_cons, List.map_cons]
    refine ⟨hstore, hstarts.trans ?_, hkeys.trans ?_, hlisted⟩
    · exact List.append_assoc _ _ _
    · exact List.append_assoc _ _ _

/-- The visits of all adapters, one after another. -/
lemma foldl_listing (dryRun : Bool) (adapters : List AdapterListing) (p : PassState) :
    let visits := adapters.flatMap fun a => a.listing.toOption.getD []
    (adapters.foldl (PassState.listing dryRun) p).store =
        (visits.map (Call.visit dryRun)).foldl callStore p.store ∧
      (adapters.foldl (PassState.listing dryRun) p).starts =
        p.starts ++ Emission.emitted callStore callStart p.store
          (visits.map (Call.visit dryRun)) ∧
      (adapters.foldl (PassState.listing dryRun) p).liveKeys =
        p.liveKeys ++ visits.map (fun v => v.container.key) ∧
      (adapters.foldl (PassState.listing dryRun) p).allListed =
        (p.allListed && adapters.all fun a => a.listing.isOk) := by
  induction adapters generalizing p with
  | nil => simp [Emission.emitted]
  | cons a rest ih =>
    obtain ⟨hstore, hstarts, hkeys, hlisted⟩ := ih (p.listing dryRun a)
    dsimp only at hstore hstarts hkeys hlisted ⊢
    rw [List.foldl_cons, List.flatMap_cons, List.map_append, List.map_append, List.all_cons,
      List.foldl_append, Emission.emitted_append, hstore, hstarts, hkeys, hlisted]
    cases hlisting : a.listing with
    | error message =>
      have hone : PassState.listing dryRun p a =
          { p with
            adapterErrors := p.adapterErrors ++ [⟨a.runtime, message⟩]
            allListed := false } := by
        unfold PassState.listing
        rw [hlisting]
      rw [hone]
      simp [Except.toOption, Except.isOk, Except.toBool, Emission.emitted]
    | ok visits =>
      have hone : PassState.listing dryRun p a = visits.foldl (PassState.visit dryRun) p := by
        unfold PassState.listing
        rw [hlisting]
      obtain ⟨hstore', hstarts', hkeys', hlisted'⟩ := foldl_visit dryRun visits p
      rw [hone]
      rw [hstore', hstarts', hkeys', hlisted']
      simp [Except.toOption, Except.isOk, Except.toBool]

/-- A pass is its calls, one after another. -/
lemma reconcile_eq (p : Pass) (store : BreakerStore) :
    (reconcile p store).store = p.calls.foldl callStore store ∧
      (reconcile p store).starts = Emission.emitted callStore callStart store p.calls := by
  obtain ⟨hstore, hstarts, hkeys, hlisted⟩ :=
    foldl_listing p.dryRun p.adapters ⟨store, [], true, [], [], [], []⟩
  dsimp only at hstore hstarts hkeys hlisted
  unfold reconcile Pass.calls
  dsimp only
  rw [hstore, hstarts, hkeys, hlisted, List.foldl_append, Emission.emitted_append, Bool.true_and,
    List.nil_append, List.nil_append]
  split
  · exact ⟨rfl, (List.append_nil _).symm⟩
  · exact ⟨rfl, (List.append_nil _).symm⟩

/-- The starts of some calls are allowed exactly if the breaker is armed for the held containers. -/
lemma allowed_calls_iff (h : HoldsHaveReasons store) (calls : List Call) :
    (∀ s ∈ Emission.emitted callStore callStart store calls, s.Allowed) ↔
      Invariant.Along callStore (fun store c => c.ArmsHeld store) store calls := by
  induction calls generalizing store with
  | nil => exact iff_of_true (fun s hs => absurd hs List.not_mem_nil) trivial
  | cons c rest ih =>
    have hhead := allowed_callStart_iff h c
    have htail := ih (holdsHaveReasons_callStore h c)
    constructor
    · intro hall
      refine ⟨hhead.mp fun s hs => hall s ?_, htail.mp fun s hs => hall s ?_⟩
      · exact List.mem_append_left _ (Option.mem_toList.mpr hs)
      · exact List.mem_append_right _ hs
    · rintro ⟨harms, hrest⟩ s hs
      rcases List.mem_append.mp hs with hs | hs
      · exact hhead.mpr harms s (Option.mem_toList.mp hs)
      · exact htail.mpr hrest s hs

lemma holdsHaveReasons_stepStore (h : HoldsHaveReasons store) (a : Step) :
    HoldsHaveReasons (stepStore store a) := by
  cases a with
  | pass p =>
    rw [stepStore, (reconcile_eq p store).1]
    exact Invariant.foldl_invariant (I := HoldsHaveReasons)
      (fun c _ _ hs => holdsHaveReasons_callStore hs c) h
  | unhold key => exact holdsHaveReasons_step h (.unhold key)

lemma allowed_step_iff (h : HoldsHaveReasons store) (a : Step) :
    (∀ s ∈ stepStarts store a, s.Allowed) ↔ a.ArmsHeld store := by
  cases a with
  | pass p =>
    rw [stepStarts, (reconcile_eq p store).2]
    exact allowed_calls_iff h p.calls
  | unhold key => exact iff_of_true (fun s hs => absurd hs List.not_mem_nil) trivial

/-- The starts of a run are allowed exactly if the breaker is armed for the held containers in each
of its steps. -/
lemma allowed_run_iff (h : HoldsHaveReasons store) (run : List Step) :
    (∀ s ∈ runStarts store run, s.Allowed) ↔
      Invariant.Along stepStore (fun store a => a.ArmsHeld store) store run := by
  induction run generalizing store with
  | nil => exact iff_of_true (fun s hs => absurd hs List.not_mem_nil) trivial
  | cons a rest ih =>
    rw [runStarts, List.forall_mem_append, allowed_step_iff h a,
      ih (holdsHaveReasons_stepStore h a)]
    rfl

lemma runStarts_append (store : BreakerStore) (before after : List Step) :
    runStarts store (before ++ after) =
      runStarts store before ++ runStarts (before.foldl stepStore store) after := by
  induction before generalizing store with
  | nil => rfl
  | cons a before ih =>
    rw [List.cons_append, runStarts, runStarts, ih, List.foldl_cons, List.append_assoc]

/-! ## A held container waits -/

/-- At the call that starts a container, the store is the one after it. -/
lemma store_of_callStart {c : Call} {s : StartCall} (h : callStart store c = some s) :
    s.store = callStore store c := by
  cases c with
  | retain liveKeys => cases h
  | unhold key => cases h
  | visit dryRun v =>
    dsimp only [callStart, callStore] at h ⊢
    rw [reconcileContainer_start] at h
    split at h
    · rename_i hclass
      have hsame : reconcileContainer dryRun v store = runStartPipeline dryRun v store := by
        unfold reconcileContainer
        dsimp only
        rw [hclass]
      rw [hsame]
      by_cases hfree : v.blockedSources = []
      · obtain ⟨hstore, hstart⟩ := runStartPipeline_of_free dryRun hfree store
        rw [hstart] at h
        rw [hstore]
        split at h
        · cases h
        · rw [← Option.some.inj h]
      · rw [(runStartPipeline_of_blocked dryRun hfree store).2] at h
        cases h
    · cases h

/-- In calls that clear no hold a held container stays held, and it is held whenever it is
started. -/
lemma held_calls (h : HoldsHaveReasons store) (hheld : Held key store) {calls : List Call}
    (hquiet : ∀ c ∈ calls, ∀ key, c ≠ .unhold key) :
    Held key (calls.foldl callStore store) ∧
      ∀ s ∈ Emission.emitted callStore callStart store calls, Held key s.store := by
  induction calls generalizing store with
  | nil => exact ⟨hheld, fun s hs => absurd hs List.not_mem_nil⟩
  | cons c rest ih =>
    have hnext : Held key (callStore store c) := by
      cases c with
      | visit dryRun v =>
        obtain ⟨actions, hactions, hstore⟩ := reconcileContainer_store dryRun v store
        rw [callStore, hstore]
        exact held_foldl h hheld hactions
      | retain liveKeys =>
        obtain ⟨hold, hholding⟩ := exists_holding h hheld
        exact held_of_holding (holding_retainActive hholding liveKeys)
      | unhold key' => exact absurd rfl (hquiet _ List.mem_cons_self key')
    obtain ⟨hend, hrest⟩ := ih (holdsHaveReasons_callStore h c) hnext fun d hd =>
      hquiet d (List.mem_cons_of_mem c hd)
    refine ⟨hend, fun s hs => ?_⟩
    rcases List.mem_append.mp hs with hs | hs
    · rw [store_of_callStart (Option.mem_toList.mp hs)]
      exact hnext
    · exact hrest s hs

/-- No call of a pass clears a hold. -/
lemma quiet_calls (p : Pass) : ∀ c ∈ p.calls, ∀ key, c ≠ .unhold key := by
  rintro c hc key rfl
  unfold Pass.calls at hc
  rcases List.mem_append.mp hc with hc | hc
  · obtain ⟨v, -, hv⟩ := List.mem_map.mp hc
    cases hv
  · split at hc
    · cases List.mem_singleton.mp hc
    · cases hc

/-- In steps that do not clear its hold a held container stays held, and it is held whenever it is
started. -/
lemma held_run (h : HoldsHaveReasons store) (hheld : Held key store) {run : List Step}
    (hquiet : Invariant.Along stepStore (fun store a => a.unholds key store = false) store run) :
    ∀ s ∈ runStarts store run, Held key s.store := by
  induction run generalizing store with
  | nil => exact fun s hs => absurd hs List.not_mem_nil
  | cons a rest ih =>
    have hstep : Held key (stepStore store a) ∧ ∀ s ∈ stepStarts store a, Held key s.store := by
      cases a with
      | pass p =>
        rw [stepStore, stepStarts, (reconcile_eq p store).1, (reconcile_eq p store).2]
        exact held_calls h hheld (quiet_calls p)
      | unhold key' =>
        obtain ⟨hold, hholding⟩ := exists_holding h hheld
        exact ⟨held_of_holding (holding_unhold hholding hquiet.1),
          fun s hs => absurd hs List.not_mem_nil⟩
    intro s hs
    rcases List.mem_append.mp hs with hs | hs
    · exact hstep.2 s hs
    · exact ih (holdsHaveReasons_stepStore h a) hstep.1 hquiet.2 s hs

/-- In a run from the first pass on, every start is one that is allowed, and no held container is
started before its hold is cleared, if and only if every pass arms the breaker before it starts a
container that is held. -/
theorem held_never_started_iff (run : List Step) :
    SafeRun run ↔
      Invariant.Along stepStore (fun store a => a.ArmsHeld store) .empty run := by
  rw [← allowed_run_iff holdsHaveReasons_empty run]
  refine ⟨SafeRun.allowed, fun hallowed => ⟨hallowed, ?_⟩⟩
  rintro before after rfl key hheld hquiet s hs rfl
  have hreasons : HoldsHaveReasons (before.foldl stepStore .empty) :=
    Invariant.foldl_invariant (I := HoldsHaveReasons)
      (fun a _ _ h => holdsHaveReasons_stepStore h a) holdsHaveReasons_empty
  have hin : s ∈ runStarts .empty (before ++ after) := by
    rw [runStarts_append]
    exact List.mem_append_right _ hs
  exact (hallowed s hin).notHeld (held_run hreasons hheld hquiet s hs)

/-- A docker container in a real pass at a time in seconds: nothing blocks its start. -/
def dockerPass (restartCount : Nat) (exitCode : Int) (now : Nat) : Step :=
  .pass
    { adapters :=
        [{ runtime := .docker
           listing := .ok
            [{ container :=
                { id := "c1"
                  name := "web"
                  runtime := .docker
                  host := "h1"
                  state := .exited
                  labels := []
                  restartCount
                  exitCode := some exitCode
                  restartPolicy := .unlessStopped
                  mountSources := [] }
               observation := ⟨none, none⟩
               probe := fun _ => .ok
               now := seconds now
               announcedAt := none
               startError := none }] }]
      dryRun := false }

/-- A container that crashes is held, and started all the same once it has been stopped. -/
theorem stopped_container_started_while_held :
    ¬SafeRun [dockerPass 0 1 10, dockerPass 5 1 20, dockerPass 5 0 30] := by
  intro hsafe
  have hstarted : (runStarts .empty [dockerPass 0 1 10, dockerPass 5 1 20, dockerPass 5 0 30]).any
      (fun s => (s.store.find s.visit.container.key).any fun r => r.status = .held) = true := by
    decide
  obtain ⟨s, hs, hheld⟩ := List.any_eq_true.mp hstarted
  obtain ⟨record, hfind, hstatus⟩ := (Option.any_eq_true _ _).mp hheld
  exact (hsafe.allowed s hs).notHeld ⟨record, hfind, of_decide_eq_true hstatus⟩

end Orca.Containers.Reconciler
