import Mathlib.Algebra.Order.Group.Nat
import Mathlib.Data.List.Induction
import Mathlib.Data.List.Nodup
import Orca.Mounts.StoppedConsumers

/-!
# Containers that are started again

A container that a sweep left stopped is started only after its mount was seen healthy in three
sweeps, with no sweep in between that saw it unhealthy (`start_confirmed`), and at the latest in the
third such sweep (`started_when_confirmed`).

A sweep sees the mount of an entry only if the runtime of the entry says that the container is still
stopped, and counts it only if the ledger could be read and written: `verdict` and `lasts`.
-/

namespace Orca.StoppedConsumers

/-! ## One entry in one sweep -/

/-- Two entries are about the same stop of the same container. -/
structure StoppedConsumer.SameStop (e e' : StoppedConsumer) : Prop where
  runtime : e.runtime = e'.runtime
  containerId : e.containerId = e'.containerId
  hostSource : e.hostSource = e'.hostSource
  finishedAt : e.finishedAt = e'.finishedAt

lemma StoppedConsumer.SameStop.refl (e : StoppedConsumer) : e.SameStop e := ⟨rfl, rfl, rfl, rfl⟩

lemma StoppedConsumer.SameStop.trans {e e' e'' : StoppedConsumer} (h : e.SameStop e')
    (h' : e'.SameStop e'') : e.SameStop e'' :=
  ⟨h.runtime.trans h'.runtime, h.containerId.trans h'.containerId, h.hostSource.trans h'.hostSource,
    h.finishedAt.trans h'.finishedAt⟩

/-- The container of an entry is the one of another entry. -/
def StoppedConsumer.sameContainer (e e' : StoppedConsumer) : Bool :=
  e.runtime == e'.runtime && e.containerId == e'.containerId

/-- What the runtimes of a sweep do about an entry. -/
def fate (rts : List ContainerRuntime) (hostHealthy : String → Option Bool) (e : StoppedConsumer) :
    RestoredEntry :=
  match rts.find? fun rt => rt.name == e.runtime with
  | none => ⟨some e, false, none, none⟩
  | some rt => restoreEntry rt hostHealthy e

/-- Whether a sweep sees the mount of an entry healthy, where the runtime says that the container is
stopped. -/
def Sweep.verdict (e : StoppedConsumer) (s : Sweep) : Option Bool :=
  match s.runtimes.find? fun rt => rt.name == e.runtime with
  | none => none
  | some rt =>
    match rt.state e.containerId with
    | .ok (some (.stopped _ _)) => s.hostHealthy e.hostSource
    | _ => none

lemma restoreEntry_of_ne {rt : ContainerRuntime} {hostHealthy : String → Option Bool}
    {e : StoppedConsumer} (h : e.runtime ≠ rt.name) :
    restoreEntry rt hostHealthy e = ⟨some e, false, none, none⟩ := by
  unfold restoreEntry
  rw [if_pos h]

/-- The runtime says that the container of an entry is still stopped as it was. -/
def ContainerRuntime.StillStopped (rt : ContainerRuntime) (e : StoppedConsumer) : Prop :=
  rt.state e.containerId = .ok (some (.stopped e.finishedAt false))

/-- What can become of an entry of a runtime, and whether its container is started. -/
inductive Restores (rt : ContainerRuntime) (hostHealthy : String → Option Bool)
    (e : StoppedConsumer) : Option StoppedConsumer → Bool → Prop
  /-- The container is none of the sweep's any more. -/
  | dropped : Restores rt hostHealthy e none false
  /-- Nothing is known of the container, or of its mount. -/
  | unseen (h : ∀ f n, rt.state e.containerId = .ok (some (.stopped f n)) →
      hostHealthy e.hostSource = none) : Restores rt hostHealthy e (some e) false
  | unhealthy (hstopped : rt.StillStopped e) (hhost : hostHealthy e.hostSource = some false) :
      Restores rt hostHealthy e (some { e with healthySweeps := 0 }) false
  /-- The mount is healthy, but not for long enough. -/
  | counted (hstopped : rt.StillStopped e) (hhost : hostHealthy e.hostSource = some true)
      (hfew : e.healthySweeps + 1 < restoreConfirmSweeps) :
      Restores rt hostHealthy e (some { e with healthySweeps := e.healthySweeps + 1 }) false
  /-- The container is started, for good or for the last time. -/
  | started (hstopped : rt.StillStopped e) (hhost : hostHealthy e.hostSource = some true)
      (henough : restoreConfirmSweeps ≤ e.healthySweeps + 1) : Restores rt hostHealthy e none true
  /-- The start of the container fails. -/
  | failed (hstopped : rt.StillStopped e) (hhost : hostHealthy e.hostSource = some true)
      (henough : restoreConfirmSweeps ≤ e.healthySweeps + 1)
      (hroom : e.startFailures + 1 < maxStartFailures) :
      Restores rt hostHealthy e
        (some { e with
          healthySweeps := e.healthySweeps + 1, startFailures := e.startFailures + 1 }) true

/-- A confirmed entry is started. -/
lemma restores_startEntry {rt : ContainerRuntime} {hostHealthy : String → Option Bool}
    {e : StoppedConsumer} (hstopped : rt.StillStopped e)
    (hhost : hostHealthy e.hostSource = some true)
    (henough : restoreConfirmSweeps ≤ e.healthySweeps + 1) :
    Restores rt hostHealthy e
      (startEntry rt { e with healthySweeps := e.healthySweeps + 1 }).keep
      (startEntry rt { e with healthySweeps := e.healthySweeps + 1 }).started := by
  unfold startEntry
  split
  · exact .started hstopped hhost henough
  · dsimp only
    split
    · exact .started hstopped hhost henough
    · exact .failed hstopped hhost henough (not_le.mp ‹_›)

/-- What becomes of an entry of the runtime. -/
theorem restores_restoreEntry {rt : ContainerRuntime} (hostHealthy : String → Option Bool)
    {e : StoppedConsumer} (hrt : e.runtime = rt.name) :
    Restores rt hostHealthy e (restoreEntry rt hostHealthy e).keep
      (restoreEntry rt hostHealthy e).started := by
  unfold restoreEntry
  rw [if_neg (not_not_intro hrt)]
  cases hstate : rt.state e.containerId with
  | error err => exact .unseen fun f n h => by rw [hstate] at h; cases h
  | ok state =>
    cases state with
    | none => exact .unseen fun f n h => by rw [hstate] at h; cases h
    | some state =>
      cases state with
      | gone | running | unrestorable _ => exact .dropped
      | stopped finishedAt noRestore =>
        dsimp only
        split
        · exact .dropped
        rename_i hsame
        obtain rfl := not_not.mp hsame
        cases noRestore with
        | true => exact .dropped
        | false =>
          rw [if_neg Bool.false_ne_true]
          unfold confirmEntry
          cases hhost : hostHealthy e.hostSource with
          | none => exact .unseen fun _ _ _ => hhost
          | some healthy =>
            cases healthy with
            | false => exact .unhealthy hstate hhost
            | true =>
              dsimp only
              split
              · exact .counted hstate hhost ‹_›
              · exact restores_startEntry hstate hhost (not_lt.mp ‹_›)

lemma Restores.sameStop {rt : ContainerRuntime} {hostHealthy : String → Option Bool}
    {e e' : StoppedConsumer} {started : Bool} (h : Restores rt hostHealthy e (some e') started) :
    e'.SameStop e := by
  cases h with
  | unseen _ => exact .refl e
  | unhealthy _ _ | counted _ _ _ | failed _ _ _ _ => exact ⟨rfl, rfl, rfl, rfl⟩

lemma runtime_of_find {rts : List ContainerRuntime} {e : StoppedConsumer} {rt : ContainerRuntime}
    (h : (rts.find? fun rt => rt.name == e.runtime) = some rt) : e.runtime = rt.name := by
  have hname := List.find?_some h
  exact (beq_iff_eq.mp hname).symm

/-- What is kept of an entry is about the same stop. -/
lemma sameStop_of_fate {rts : List ContainerRuntime} {hostHealthy : String → Option Bool}
    {e e' : StoppedConsumer} (h : (fate rts hostHealthy e).keep = some e') : e'.SameStop e := by
  unfold fate at h
  split at h
  · obtain rfl := Option.some.inj h
    exact .refl _
  · rename_i rt hfind
    have hrestores := restores_restoreEntry hostHealthy (runtime_of_find hfind)
    rw [h] at hrestores
    exact hrestores.sameStop

/-! ## The ledger in one sweep -/

/-- A sweep whose ledger is read and written. -/
def Sweep.lasts (s : Sweep) : Bool :=
  s.home && (match s.lock with | .held => true | _ => false) &&
    (match s.read with | .fine => true | _ => false) && s.save.written

/-- What a runtime's sweep records. -/
def recordedBy (hostHealthy : String → Option Bool) (rt : ContainerRuntime) :
    List StoppedConsumer :=
  (sweepRuntime rt fun source => hostHealthy source == some true).2.2

lemma recoverRuntime_ledger (hostHealthy : String → Option Bool) (p : Progress)
    (rt : ContainerRuntime) : (recoverRuntime hostHealthy p rt).ledger =
      (recordedBy hostHealthy rt).foldl record
        (p.ledger.filterMap fun e => (restoreEntry rt hostHealthy e).keep) := rfl

lemma recoverRuntime_started (hostHealthy : String → Option Bool) (p : Progress)
    (rt : ContainerRuntime) : (recoverRuntime hostHealthy p rt).started =
      p.started ++ p.ledger.filter fun e => (restoreEntry rt hostHealthy e).started := rfl

lemma recoverRuntime_stopped (hostHealthy : String → Option Bool) (p : Progress)
    (rt : ContainerRuntime) : (recoverRuntime hostHealthy p rt).stopped =
      p.stopped ++ recordedBy hostHealthy rt := rfl

/-- An entry of the ledger after some records is one of them, or was there before. -/
lemma mem_of_mem_record {stopped ledger : List StoppedConsumer} {e : StoppedConsumer}
    (h : e ∈ stopped.foldl record ledger) : e ∈ stopped ∨ e ∈ ledger := by
  induction stopped generalizing ledger with
  | nil => exact Or.inr h
  | cons r stopped ih =>
    rcases ih h with hmem | hmem
    · exact Or.inl (List.mem_cons_of_mem r hmem)
    · rcases List.mem_append.mp hmem with hmem | hmem
      · exact Or.inr (List.mem_of_mem_filter hmem)
      · rw [List.mem_singleton.mp hmem]
        exact Or.inl List.mem_cons_self

/-- An entry stays if none of the records is about its container. -/
lemma mem_record {stopped ledger : List StoppedConsumer} {e : StoppedConsumer} (he : e ∈ ledger)
    (hother : ∀ r ∈ stopped, e.sameContainer r = false) : e ∈ stopped.foldl record ledger := by
  induction stopped generalizing ledger with
  | nil => exact he
  | cons r stopped ih =>
    refine ih (List.mem_append_left _ (List.mem_filter.mpr ⟨he, ?_⟩)) fun r' hr' =>
      hother r' (List.mem_cons_of_mem r hr')
    have hne := hother r List.mem_cons_self
    unfold StoppedConsumer.sameContainer at hne
    rw [hne, Bool.not_false]

/-- A restart of the container of an entry, whose mount was healthy, left it stopped. -/
def ContainerRuntime.LeftStopped (rt : ContainerRuntime) (hostHealthy : String → Option Bool)
    (e : StoppedConsumer) : Prop :=
  e.runtime = rt.name ∧ ∃ binds, rt.bindsUnder = .ok binds ∧ ∃ b ∈ binds,
    b.1.containerId = e.containerId ∧ b.1.hostSource = e.hostSource ∧ b.2.probe = .ok .stale ∧
      hostHealthy e.hostSource = some true ∧
        ∃ noRestore, b.2.state = .ok (some (.stopped e.finishedAt noRestore))

/-- What is recorded was left stopped, and nothing has been counted for it. -/
lemma of_mem_recordedBy {hostHealthy : String → Option Bool} {rt : ContainerRuntime}
    {e : StoppedConsumer} (h : e ∈ recordedBy hostHealthy rt) :
    rt.LeftStopped hostHealthy e ∧ e.healthySweeps = 0 ∧ e.startFailures = 0 := by
  unfold recordedBy sweepRuntime at h
  split at h
  · cases h
  · cases h
  · rename_i binds _ hbinds
    obtain ⟨b, hb, hstopped⟩ := List.mem_filterMap.mp h
    unfold sweepBind at hstopped
    split at hstopped
    · cases hstopped
    · rename_i hprobe
      split at hstopped
      · rename_i hhealthy
        unfold leftStopped at hstopped
        split at hstopped
        · rename_i hstate
          cases hstopped
          exact ⟨⟨rfl, binds, hbinds, b, hb, rfl, rfl, hprobe, beq_iff_eq.mp hhealthy, _, hstate⟩,
            rfl, rfl⟩
        · cases hstopped
      · cases hstopped
    · cases hstopped

lemma fate_of_notMem {rts : List ContainerRuntime} (hostHealthy : String → Option Bool)
    {e : StoppedConsumer} (h : e.runtime ∉ rts.map ContainerRuntime.name) :
    fate rts hostHealthy e = ⟨some e, false, none, none⟩ := by
  unfold fate
  rw [List.find?_eq_none.mpr fun rt hrt hname => ?_]
  exact h (List.mem_map.mpr ⟨rt, hrt, beq_iff_eq.mp hname⟩)

/-- The first runtime decides about its own entries only. -/
lemma fate_cons (rt : ContainerRuntime) (rts : List ContainerRuntime)
    (hostHealthy : String → Option Bool) (e : StoppedConsumer) :
    fate (rt :: rts) hostHealthy e =
      if e.runtime = rt.name then restoreEntry rt hostHealthy e else fate rts hostHealthy e := by
  unfold fate
  by_cases hname : e.runtime = rt.name
  · have hhead : (rt.name == e.runtime) = true := beq_iff_eq.mpr hname.symm
    rw [List.find?_cons, hhead, if_pos hname]
  · have hhead : (rt.name == e.runtime) = false := beq_eq_false_iff_ne.mpr (Ne.symm hname)
    rw [List.find?_cons, hhead, if_neg hname]

/-- An entry of the ledger after a sweep was left stopped in it, or it is what is kept of an entry
that was there before. -/
lemma of_mem_sweep {hostHealthy : String → Option Bool} {rts : List ContainerRuntime}
    (hnames : (rts.map ContainerRuntime.name).Nodup) {p : Progress} {e : StoppedConsumer}
    (h : e ∈ (rts.foldl (recoverRuntime hostHealthy) p).ledger) :
    (∃ rt ∈ rts, e ∈ recordedBy hostHealthy rt) ∨
      ∃ e₀ ∈ p.ledger, (fate rts hostHealthy e₀).keep = some e := by
  induction rts generalizing p with
  | nil => exact Or.inr ⟨e, h, rfl⟩
  | cons rt rts ih =>
    obtain ⟨hrt, hnames⟩ := List.nodup_cons.mp hnames
    rcases ih hnames h with ⟨rt', hmem, hrec⟩ | ⟨e₁, he₁, hkeep⟩
    · exact Or.inl ⟨rt', List.mem_cons_of_mem rt hmem, hrec⟩
    · rw [recoverRuntime_ledger] at he₁
      rcases mem_of_mem_record he₁ with hrec | hrestored
      · -- no other runtime has anything to do with it
        have hruntime : e₁.runtime = rt.name := (of_mem_recordedBy hrec).1.1
        rw [fate_of_notMem hostHealthy (hruntime ▸ hrt)] at hkeep
        obtain rfl := Option.some.inj hkeep
        exact Or.inl ⟨rt, List.mem_cons_self, hrec⟩
      · obtain ⟨e₀, he₀, hrestore⟩ := List.mem_filterMap.mp hrestored
        refine Or.inr ⟨e₀, he₀, ?_⟩
        rw [fate_cons]
        split
        next hruntime =>
          have hrestores := restores_restoreEntry hostHealthy hruntime
          rw [hrestore] at hrestores
          have hsame : e₁.runtime = rt.name := hrestores.sameStop.runtime.trans hruntime
          rw [fate_of_notMem hostHealthy (hsame ▸ hrt)] at hkeep
          exact hrestore.trans hkeep
        next hruntime =>
          rw [restoreEntry_of_ne hruntime] at hrestore
          obtain rfl := Option.some.inj hrestore
          exact hkeep

/-- What a sweep starts was in the ledger before it. -/
lemma of_mem_started {hostHealthy : String → Option Bool} {rts : List ContainerRuntime}
    (hnames : (rts.map ContainerRuntime.name).Nodup) {p : Progress} {e : StoppedConsumer}
    (h : e ∈ (rts.foldl (recoverRuntime hostHealthy) p).started) :
    e ∈ p.started ∨ e ∈ p.ledger ∧ (fate rts hostHealthy e).started = true := by
  induction rts generalizing p with
  | nil => exact Or.inl h
  | cons rt rts ih =>
    obtain ⟨hrt, hnames⟩ := List.nodup_cons.mp hnames
    rcases ih hnames h with hmem | ⟨hmem, hstarted⟩
    · rw [recoverRuntime_started] at hmem
      refine (List.mem_append.mp hmem).imp_right fun hmem => ?_
      obtain ⟨he, hstarted⟩ := List.mem_filter.mp hmem
      refine ⟨he, ?_⟩
      rw [fate_cons]
      split
      next => exact hstarted
      next hruntime =>
        rw [restoreEntry_of_ne hruntime] at hstarted
        cases hstarted
    · have hother : e.runtime ≠ rt.name := by
        intro hruntime
        rw [fate_of_notMem hostHealthy (hruntime ▸ hrt)] at hstarted
        cases hstarted
      rw [recoverRuntime_ledger] at hmem
      rcases mem_of_mem_record hmem with hrec | hrestored
      · exact absurd (of_mem_recordedBy hrec).1.1 hother
      · obtain ⟨e₀, he₀, hrestore⟩ := List.mem_filterMap.mp hrestored
        have hruntime : e₀.runtime ≠ rt.name := by
          intro hruntime
          have hrestores := restores_restoreEntry hostHealthy hruntime
          rw [hrestore] at hrestores
          exact hother (hrestores.sameStop.runtime.trans hruntime)
        rw [restoreEntry_of_ne hruntime] at hrestore
        obtain rfl := Option.some.inj hrestore
        refine Or.inr ⟨he₀, ?_⟩
        rw [fate_cons, if_neg hruntime]
        exact hstarted

lemma started_sweep {hostHealthy : String → Option Bool} (rts : List ContainerRuntime)
    {p : Progress} {e : StoppedConsumer} (h : e ∈ p.started) :
    e ∈ (rts.foldl (recoverRuntime hostHealthy) p).started := by
  induction rts generalizing p with
  | nil => exact h
  | cons rt rts ih => exact ih (List.mem_append_left _ h)

lemma StoppedConsumer.SameStop.sameContainer {e e' : StoppedConsumer} (h : e.SameStop e')
    (r : StoppedConsumer) : e.sameContainer r = e'.sameContainer r := by
  unfold StoppedConsumer.sameContainer
  rw [h.runtime, h.containerId]

/-- What is kept of an entry is in the ledger after a sweep that leaves its container alone, and an
entry that is to be started is started. -/
lemma mem_sweep {hostHealthy : String → Option Bool} {rts : List ContainerRuntime}
    (hnames : (rts.map ContainerRuntime.name).Nodup) (p : Progress) {e : StoppedConsumer}
    (he : e ∈ p.ledger)
    (hother : ∀ rt ∈ rts, ∀ r ∈ recordedBy hostHealthy rt, e.sameContainer r = false) :
    (∀ e', (fate rts hostHealthy e).keep = some e' →
      e' ∈ (rts.foldl (recoverRuntime hostHealthy) p).ledger) ∧
    ((fate rts hostHealthy e).started = true →
      e ∈ (rts.foldl (recoverRuntime hostHealthy) p).started) := by
  induction rts generalizing p e with
  | nil =>
    refine ⟨fun e' hkeep => ?_, fun hstarted => by cases hstarted⟩
    obtain rfl := Option.some.inj hkeep
    exact he
  | cons rt rts ih =>
    obtain ⟨hrt, hnames⟩ := List.nodup_cons.mp hnames
    have hhere := hother rt List.mem_cons_self
    have hlater (e' : StoppedConsumer) (hsame : e'.SameStop e) (rt' : ContainerRuntime)
        (hrt' : rt' ∈ rts) (r : StoppedConsumer) (hr : r ∈ recordedBy hostHealthy rt') :
        e'.sameContainer r = false :=
      (hsame.sameContainer r).trans (hother rt' (List.mem_cons_of_mem rt hrt') r hr)
    -- what the first runtime keeps is in the ledger that the others get
    have hkept {e' : StoppedConsumer} (hkeep : (restoreEntry rt hostHealthy e).keep = some e')
        (hsame : e'.SameStop e) : e' ∈ (recoverRuntime hostHealthy p rt).ledger := by
      rw [recoverRuntime_ledger]
      refine mem_record (List.mem_filterMap.mpr ⟨e, he, hkeep⟩) fun r hr => ?_
      exact (hsame.sameContainer r).trans (hhere r hr)
    rw [fate_cons, List.foldl_cons]
    split
    next hruntime =>
      refine ⟨fun e' hkeep => ?_, fun hstarted => ?_⟩
      · have hrestores := restores_restoreEntry hostHealthy hruntime
        rw [hkeep] at hrestores
        have hsame := hrestores.sameStop
        refine (ih hnames _ (hkept hkeep hsame) (hlater e' hsame)).1 e' ?_
        rw [fate_of_notMem hostHealthy ((hsame.runtime.trans hruntime) ▸ hrt)]
      · refine started_sweep rts ?_
        rw [recoverRuntime_started]
        exact List.mem_append_right _ (List.mem_filter.mpr ⟨he, hstarted⟩)
    next hruntime =>
      have hkeep : (restoreEntry rt hostHealthy e).keep = some e := by
        rw [restoreEntry_of_ne hruntime]
      exact ih hnames _ (hkept hkeep (.refl e)) (hlater e (.refl e))

/-! ## Runs of sweeps -/

/-- What a sweep of a valid owner can do. -/
inductive Outcome (s : Sweep) (file : Option (List StoppedConsumer)) (r : Swept) : Prop
  | idle (hlasts : s.lasts = false) (hfile : r.file = file) (hstarted : r.started = [])
      (hstopped : r.stopped = [])
  /-- It has no ledger to read. -/
  | lost (errors : List String) (hlasts : s.lasts = false)
      (hfile : r.file = file ∨ r.file = none ∨ r.file = some (sweepLedger s [] errors).ledger)
      (hstarted : r.started = (sweepLedger s [] errors).started)
      (hstopped : r.stopped = (sweepLedger s [] errors).stopped)
  /-- It reads the ledger, and the file has the ledger after it. -/
  | kept (errors : List String)
      (hlasts : s.lasts = true ∨
        s.lasts = false ∧ (sweepLedger s (file.getD []) errors).ledger = file.getD [])
      (hfile : r.file.getD [] = (sweepLedger s (file.getD []) errors).ledger)
      (hstarted : r.started = (sweepLedger s (file.getD []) errors).started)
      (hstopped : r.stopped = (sweepLedger s (file.getD []) errors).stopped)
  /-- It reads the ledger, and cannot write it. -/
  | unsaved (errors : List String) (hlasts : s.lasts = false) (hsave : s.save.written = false)
      (hfile : r.file = file)
      (hstarted : r.started = (sweepLedger s (file.getD []) errors).started)
      (hstopped : r.stopped = (sweepLedger s (file.getD []) errors).stopped)

/-- What a sweep does after it has read a ledger. -/
lemma saveStoppedAt_eq (s : Sweep) (file : Option (List StoppedConsumer))
    (before : List StoppedConsumer) (p : Progress) :
    (saveStoppedAt s file before p).started = p.started ∧
      (saveStoppedAt s file before p).stopped = p.stopped ∧
      ((saveStoppedAt s file before p).file = file ∧ (p.ledger = before ∨ s.save.written = false) ∨
        (saveStoppedAt s file before p).file = some p.ledger ∧ s.save.written = true) := by
  unfold saveStoppedAt
  split
  · exact ⟨rfl, rfl, Or.inl ⟨rfl, Or.inl ‹_›⟩⟩
  · cases hsave : s.save.written with
    | true => exact ⟨rfl, rfl, Or.inr ⟨rfl, rfl⟩⟩
    | false => exact ⟨rfl, rfl, Or.inl ⟨rfl, Or.inr rfl⟩⟩

/-- A sweep of a valid owner does one of these things. -/
theorem outcome_sweep {owner : String} (howner : validOwner owner = true)
    (file : Option (List StoppedConsumer)) (s : Sweep) :
    Outcome s file (recoverConsumersForOwnerAt owner file s) := by
  unfold recoverConsumersForOwnerAt
  rw [howner, Bool.not_true, if_neg Bool.false_ne_true]
  cases hhome : s.home with
  | false =>
    have hlasts : s.lasts = false := by unfold Sweep.lasts; rw [hhome]; rfl
    exact .lost _ hlasts (Or.inl rfl) rfl rfl
  | true =>
    rw [Bool.not_true, if_neg Bool.false_ne_true]
    cases hlock : s.lock with
    | inProgress | error e =>
      have hlasts : s.lasts = false := by unfold Sweep.lasts; rw [hhome, hlock]; rfl
      exact .idle hlasts rfl rfl rfl
    | held =>
      dsimp only
      unfold loadStoppedAt
      cases hread : s.read with
      | fine =>
        dsimp only
        obtain ⟨hstarted, hstopped, ⟨hfile, hwhy⟩ | ⟨hfile, hsave⟩⟩ :=
          saveStoppedAt_eq s file (file.getD []) (sweepLedger s (file.getD []) [])
        · rcases hwhy with hsame | hsave
          · have hlasts : s.lasts = true ∨ s.lasts = false ∧ _ :=
              (Bool.eq_false_or_eq_true s.lasts).imp_right fun h => ⟨h, hsame⟩
            exact .kept [] hlasts (by rw [hfile, hsame]) hstarted hstopped
          · have hlasts : s.lasts = false := by
              unfold Sweep.lasts
              rw [hsave, Bool.and_false]
            exact .unsaved [] hlasts hsave hfile hstarted hstopped
        · have hlasts : s.lasts = true := by
            unfold Sweep.lasts
            rw [hhome, hlock, hread, hsave]
            rfl
          exact .kept [] (Or.inl hlasts) (by rw [hfile, Option.getD_some]) hstarted hstopped
      | failed e =>
        have hlasts : s.lasts = false := by unfold Sweep.lasts; rw [hhome, hlock, hread]; rfl
        dsimp only
        obtain ⟨hstarted, hstopped, ⟨hfile, -⟩ | ⟨hfile, -⟩⟩ :=
          saveStoppedAt_eq s file [] (sweepLedger s [] _)
        · exact .lost _ hlasts (Or.inl hfile) hstarted hstopped
        · exact .lost _ hlasts (Or.inr (Or.inr hfile)) hstarted hstopped
      | corrupt e moved =>
        have hlasts : s.lasts = false := by unfold Sweep.lasts; rw [hhome, hlock, hread]; rfl
        cases moved with
        | ok aside =>
          dsimp only
          obtain ⟨hstarted, hstopped, ⟨hfile, -⟩ | ⟨hfile, -⟩⟩ :=
            saveStoppedAt_eq s none [] (sweepLedger s [] _)
          · exact .lost _ hlasts (Or.inr (Or.inl hfile)) hstarted hstopped
          · exact .lost _ hlasts (Or.inr (Or.inr hfile)) hstarted hstopped
        | error re =>
          dsimp only
          obtain ⟨hstarted, hstopped, ⟨hfile, -⟩ | ⟨hfile, -⟩⟩ :=
            saveStoppedAt_eq s file [] (sweepLedger s [] _)
          · exact .lost _ hlasts (Or.inl hfile) hstarted hstopped
          · exact .lost _ hlasts (Or.inr (Or.inr hfile)) hstarted hstopped

lemma sweep_of_invalid {owner : String} (howner : validOwner owner = false)
    (file : Option (List StoppedConsumer)) (s : Sweep) :
    (recoverConsumersForOwnerAt owner file s).file = file ∧
      (recoverConsumersForOwnerAt owner file s).started = [] ∧
      (recoverConsumersForOwnerAt owner file s).stopped = [] := by
  unfold recoverConsumersForOwnerAt
  rw [howner, Bool.not_false, if_pos rfl]
  exact ⟨rfl, rfl, rfl⟩

/-! ## Why a container is started -/

/-- A sweep left the container of an entry stopped. -/
def Sweep.LeftStopped (s : Sweep) (e : StoppedConsumer) : Prop :=
  ∃ rt ∈ s.runtimes, rt.LeftStopped s.hostHealthy e

/-- The sweep of an owner recorded the stop of an entry. -/
def Sweep.Records (s : Sweep) (owner : String) (file : Option (List StoppedConsumer))
    (e : StoppedConsumer) : Prop :=
  s.LeftStopped e ∧ ∃ r ∈ (recoverConsumersForOwnerAt owner file s).stopped, e.SameStop r

/-- What the sweeps that last see of the mount of an entry. -/
def verdicts (e : StoppedConsumer) (sweeps : List Sweep) : List Bool :=
  (sweeps.filter Sweep.lasts).filterMap (Sweep.verdict e)

/-- The entry was recorded by one of the sweeps, and the last ones that saw its mount found it
healthy, at least as many as it counts. -/
def Traced (owner : String) (sweeps : List Sweep) (e : StoppedConsumer) : Prop :=
  ∃ before recording after, sweeps = before ++ recording :: after ∧
    recording.Records owner (run owner before) e ∧
    List.replicate e.healthySweeps true <:+ verdicts e after

lemma StoppedConsumer.SameStop.verdict {e e' : StoppedConsumer} (h : e.SameStop e') :
    Sweep.verdict e = Sweep.verdict e' := by
  funext s
  unfold Sweep.verdict
  rw [h.runtime, h.containerId, h.hostSource]

/-- An entry about the same stop was left stopped, too. -/
lemma Sweep.Records.of_sameStop {s : Sweep} {owner : String} {file : Option (List StoppedConsumer)}
    {e e' : StoppedConsumer} (h : s.Records owner file e) (hsame : e'.SameStop e) :
    s.Records owner file e' := by
  obtain ⟨hleft, r, hr, hsameRecord⟩ := h
  refine ⟨?_, r, hr, hsame.trans hsameRecord⟩
  unfold Sweep.LeftStopped ContainerRuntime.LeftStopped at hleft ⊢
  rw [hsame.runtime, hsame.containerId, hsame.hostSource, hsame.finishedAt]
  exact hleft

/-- One more sweep. -/
lemma verdicts_concat (e : StoppedConsumer) (sweeps : List Sweep) (s : Sweep) :
    verdicts e (sweeps ++ [s]) =
      verdicts e sweeps ++ if s.lasts then (s.verdict e).toList else [] := by
  unfold verdicts
  rw [List.filter_append, List.filterMap_append]
  cases hlasts : s.lasts with
  | false =>
    rw [List.filter_cons_of_neg (by rw [hlasts]; exact Bool.false_ne_true)]
    rfl
  | true =>
    rw [List.filter_cons_of_pos hlasts, if_pos rfl]
    cases hverdict : s.verdict e with
    | none => rw [List.filter_nil, List.filterMap_cons_none hverdict]; rfl
    | some healthy => rw [List.filter_nil, List.filterMap_cons_some hverdict]; rfl

lemma verdict_of_stillStopped {s : Sweep} {e : StoppedConsumer} {rt : ContainerRuntime}
    (hfind : (s.runtimes.find? fun rt => rt.name == e.runtime) = some rt)
    (hstopped : rt.StillStopped e) : s.verdict e = s.hostHealthy e.hostSource := by
  unfold Sweep.verdict
  rw [hfind]
  dsimp only
  rw [hstopped]

/-- A sweep sees nothing of the mount of an entry if it knows nothing of the container or the
mount. -/
lemma verdict_of_unseen {s : Sweep} {e : StoppedConsumer} {rt : ContainerRuntime}
    (hfind : (s.runtimes.find? fun rt => rt.name == e.runtime) = some rt)
    (hunseen : ∀ f n, rt.state e.containerId = .ok (some (.stopped f n)) →
      s.hostHealthy e.hostSource = none) : s.verdict e = none := by
  unfold Sweep.verdict
  rw [hfind]
  dsimp only
  split
  · rename_i hstate
    exact hunseen _ _ hstate
  · rfl

lemma replicate_suffix_concat {n : ℕ} {l : List Bool} (h : List.replicate n true <:+ l) :
    List.replicate (n + 1) true <:+ l ++ [true] := by
  obtain ⟨start, rfl⟩ := h
  exact ⟨start, by rw [List.replicate_succ', List.append_assoc]⟩

/-- An entry that a sweep keeps is traced through it. -/
lemma Traced.keep {owner : String} {sweeps : List Sweep} {s : Sweep} {e e' : StoppedConsumer}
    (h : Traced owner sweeps e) (hlasts : s.lasts = true)
    (hkeep : (fate s.runtimes s.hostHealthy e).keep = some e') :
    Traced owner (sweeps ++ [s]) e' := by
  have hsame := sameStop_of_fate hkeep
  obtain ⟨before, recording, after, rfl, hleft, hstreak⟩ := h
  refine ⟨before, recording, after ++ [s], by simp, hleft.of_sameStop hsame, ?_⟩
  have hverdicts : verdicts e' (after ++ [s]) = verdicts e after ++ (s.verdict e).toList := by
    rw [verdicts_concat, if_pos hlasts, hsame.verdict]
    unfold verdicts
    rw [hsame.verdict]
  rw [hverdicts]
  unfold fate at hkeep
  split at hkeep
  · rename_i hfind
    obtain rfl := Option.some.inj hkeep
    have hnone : s.verdict e = none := by
      unfold Sweep.verdict
      rw [hfind]
    rw [hnone, Option.toList_none, List.append_nil]
    exact hstreak
  · rename_i rt hfind
    have hrestores := restores_restoreEntry s.hostHealthy (runtime_of_find hfind)
    rw [hkeep] at hrestores
    generalize (restoreEntry rt s.hostHealthy e).started = started at hrestores
    cases hrestores with
    | unseen hunseen =>
      rw [verdict_of_unseen hfind hunseen, Option.toList_none, List.append_nil]
      exact hstreak
    | unhealthy _ _ => exact List.nil_suffix
    | counted hstopped hhost _ | failed hstopped hhost _ _ =>
      rw [verdict_of_stillStopped hfind hstopped, hhost, Option.toList_some]
      exact replicate_suffix_concat hstreak

lemma Traced.pass {owner : String} {sweeps : List Sweep} {s : Sweep} {e : StoppedConsumer}
    (h : Traced owner sweeps e) (hlasts : s.lasts = false) : Traced owner (sweeps ++ [s]) e := by
  obtain ⟨before, recording, after, rfl, hleft, hstreak⟩ := h
  refine ⟨before, recording, after ++ [s], by simp, hleft, ?_⟩
  rw [verdicts_concat, hlasts, if_neg Bool.false_ne_true, List.append_nil]
  exact hstreak

/-- A sweep records what its runtimes record. -/
lemma mem_stopped_sweep {hostHealthy : String → Option Bool} {rts : List ContainerRuntime}
    (p : Progress) {e : StoppedConsumer}
    (h : e ∈ p.stopped ∨ ∃ rt ∈ rts, e ∈ recordedBy hostHealthy rt) :
    e ∈ (rts.foldl (recoverRuntime hostHealthy) p).stopped := by
  induction rts generalizing p with
  | nil => exact h.resolve_right fun ⟨rt, hrt, _⟩ => List.not_mem_nil hrt
  | cons rt rts ih =>
    refine ih _ ?_
    rw [recoverRuntime_stopped, List.mem_append]
    rcases h with h | ⟨rt', hrt', hrec⟩
    · exact Or.inl (Or.inl h)
    · rcases List.mem_cons.mp hrt' with rfl | hrt'
      · exact Or.inl (Or.inr hrec)
      · exact Or.inr ⟨rt', hrt', hrec⟩

/-- An entry that was just recorded is traced. -/
lemma traced_of_recorded {owner : String} {sweeps : List Sweep} {s : Sweep} {e : StoppedConsumer}
    {ledger : List StoppedConsumer} {errors : List String}
    (hstopped : (recoverConsumersForOwnerAt owner (run owner sweeps) s).stopped =
      (sweepLedger s ledger errors).stopped)
    (h : ∃ rt ∈ s.runtimes, e ∈ recordedBy s.hostHealthy rt) : Traced owner (sweeps ++ [s]) e := by
  have hmem : e ∈ (recoverConsumersForOwnerAt owner (run owner sweeps) s).stopped := by
    rw [hstopped]
    exact mem_stopped_sweep _ (Or.inr h)
  obtain ⟨rt, hrt, hrec⟩ := h
  obtain ⟨hleft, hzero, -⟩ := of_mem_recordedBy hrec
  refine ⟨sweeps, s, [], rfl, ⟨⟨rt, hrt, hleft⟩, e, hmem, .refl e⟩, ?_⟩
  rw [hzero]
  exact List.nil_suffix

lemma run_concat (owner : String) (sweeps : List Sweep) (s : Sweep) :
    run owner (sweeps ++ [s]) = (recoverConsumersForOwnerAt owner (run owner sweeps) s).file := by
  unfold run
  rw [List.foldl_concat]

lemma run_of_invalid {owner : String} (howner : validOwner owner = false) (sweeps : List Sweep) :
    run owner sweeps = none := by
  induction sweeps using List.reverseRecOn with
  | nil => rfl
  | append_singleton sweeps s ih =>
    rw [run_concat, (sweep_of_invalid howner _ s).1]
    exact ih

/-- The runtimes of each sweep have different names. -/
def DistinctNames (sweeps : List Sweep) : Prop :=
  ∀ s ∈ sweeps, (s.runtimes.map ContainerRuntime.name).Nodup

/-- Every entry of the file is traced. -/
theorem traced_run (owner : String) {sweeps : List Sweep} (hnames : DistinctNames sweeps) :
    ∀ e ∈ (run owner sweeps).getD [], Traced owner sweeps e := by
  induction sweeps using List.reverseRecOn with
  | nil => exact fun e he => absurd he List.not_mem_nil
  | append_singleton sweeps s ih =>
    have hs := hnames s (List.mem_append_right _ (List.mem_singleton_self s))
    have hbefore := ih fun s' hs' => hnames s' (List.mem_append_left _ hs')
    intro e he
    cases howner : validOwner owner with
    | false =>
      rw [run_of_invalid howner] at he
      cases he
    | true =>
      rw [run_concat] at he
      cases outcome_sweep howner (run owner sweeps) s with
      | idle hlasts hfile _ _ | unsaved _ hlasts _ hfile _ _ =>
        rw [hfile] at he
        exact (hbefore e he).pass hlasts
      | lost errors hlasts hfile _ hstopped =>
        rcases hfile with hfile | hfile | hfile
        · rw [hfile] at he
          exact (hbefore e he).pass hlasts
        · rw [hfile] at he
          cases he
        · rw [hfile, Option.getD_some] at he
          rcases of_mem_sweep hs he with hrec | ⟨e₀, he₀, -⟩
          · exact traced_of_recorded hstopped hrec
          · cases he₀
      | kept errors hlasts hfile _ hstopped =>
        rcases hlasts with hlasts | ⟨hlasts, hsame⟩
        · rw [hfile] at he
          rcases of_mem_sweep hs he with hrec | ⟨e₀, he₀, hkeep⟩
          · exact traced_of_recorded hstopped hrec
          · exact (hbefore e₀ he₀).keep hlasts hkeep
        · rw [hfile, hsame] at he
          exact (hbefore e he).pass hlasts

/-- A sweep starts a container only if an earlier sweep restarted it and left it stopped, it is
still stopped as it was then, and its mount is healthy and was found so the last two times that it
was seen since. -/
theorem start_confirmed (owner : String) (sweeps : List Sweep) (last : Sweep)
    (hnames : DistinctNames (sweeps ++ [last])) (e : StoppedConsumer)
    (he : e ∈ (recoverConsumersForOwnerAt owner (run owner sweeps) last).started) :
    ∃ before recording after, sweeps = before ++ recording :: after ∧
      recording.Records owner (run owner before) e ∧
      (∃ rt ∈ last.runtimes, rt.name = e.runtime ∧ rt.StillStopped e) ∧
      last.verdict e = some true ∧
      List.replicate (restoreConfirmSweeps - 1) true <:+ verdicts e after := by
  have hlast := hnames last (List.mem_append_right _ (List.mem_singleton_self last))
  have htraced := traced_run owner fun s hs => hnames s (List.mem_append_left _ hs)
  -- whatever the sweep does, it starts entries of the ledger that it has read
  have hstarted : e ∈ (run owner sweeps).getD [] ∧
      (fate last.runtimes last.hostHealthy e).started = true := by
    have hof (ledger : List StoppedConsumer) (errors : List String)
        (h : e ∈ (sweepLedger last ledger errors).started) :
        e ∈ ledger ∧ (fate last.runtimes last.hostHealthy e).started = true :=
      (of_mem_started hlast h).resolve_left List.not_mem_nil
    cases howner : validOwner owner with
    | false =>
      rw [(sweep_of_invalid howner _ last).2.1] at he
      cases he
    | true =>
      cases outcome_sweep howner (run owner sweeps) last with
      | idle _ _ hnone _ => rw [hnone] at he; cases he
      | lost errors _ _ hstarted _ => cases (hof _ _ (hstarted ▸ he)).1
      | kept errors _ _ hstarted _ | unsaved errors _ _ _ hstarted _ =>
        exact hof _ _ (hstarted ▸ he)
  obtain ⟨before, recording, after, hsplit, hleft, hstreak⟩ := htraced e hstarted.1
  obtain ⟨rt, hfind, hrestores⟩ : ∃ rt,
      (last.runtimes.find? fun rt => rt.name == e.runtime) = some rt ∧
        ∃ keep, Restores rt last.hostHealthy e keep true := by
    have hfate := hstarted.2
    unfold fate at hfate
    split at hfate
    · cases hfate
    · rename_i rt hfind
      have hrestores := restores_restoreEntry last.hostHealthy (runtime_of_find hfind)
      rw [hfate] at hrestores
      exact ⟨rt, hfind, _, hrestores⟩
  have hwhy : rt.StillStopped e ∧ last.hostHealthy e.hostSource = some true ∧
      restoreConfirmSweeps ≤ e.healthySweeps + 1 := by
    obtain ⟨keep, hrestores⟩ := hrestores
    cases hrestores with
    | started hstopped hhost henough => exact ⟨hstopped, hhost, henough⟩
    | failed hstopped hhost henough _ => exact ⟨hstopped, hhost, henough⟩
  refine ⟨before, recording, after, hsplit, hleft, ⟨rt, List.mem_of_find?_eq_some hfind,
    (runtime_of_find hfind).symm, hwhy.1⟩, ?_, ?_⟩
  · rw [verdict_of_stillStopped hfind hwhy.1]
    exact hwhy.2.1
  · refine List.IsSuffix.trans ?_ hstreak
    refine ⟨List.replicate (e.healthySweeps - (restoreConfirmSweeps - 1)) true, ?_⟩
    rw [List.replicate_append_replicate, Nat.sub_add_cancel (Nat.sub_le_iff_le_add.mpr hwhy.2.2)]

/-- A sweep with one runtime, whose mounts are healthy. -/
def quietSweep (rt : ContainerRuntime) : Sweep :=
  ⟨[rt], fun _ => some true, true, "ledger.json", .held, .fine, .saved, id⟩

/-- A container whose restart failed; it is not running afterwards. -/
def leavesStopped : Sweep :=
  quietSweep ⟨"docker", fun _ => .ok none, fun _ => .ok (),
    .ok [(⟨"c", "web", "/mnt/a", "/data"⟩,
      ⟨.ok .stale, .error "bind source", .ok (some (.stopped "t" false)), .ok .ok⟩)], []⟩

/-- The container is still stopped. -/
def seesStopped : Sweep :=
  quietSweep ⟨"docker", fun _ => .ok (some (.stopped "t" false)), fun _ => .ok (), .ok [], []⟩

/-- The entry of the container after two sweeps that saw it stopped. -/
def stoppedWeb (healthySweeps : ℕ) : StoppedConsumer :=
  ⟨"docker", "c", "web", "/mnt/a", "t", healthySweeps, 0⟩

/-- What the third such sweep starts was left stopped. -/
theorem start_confirmed_of_web :
    ∃ s ∈ [leavesStopped, seesStopped, seesStopped], s.LeftStopped (stoppedWeb 2) := by
  have hnames : DistinctNames ([leavesStopped, seesStopped, seesStopped] ++ [seesStopped]) := by
    intro s hs
    simp only [List.cons_append, List.nil_append, List.mem_cons, List.not_mem_nil, or_false,
      or_self] at hs
    rcases hs with rfl | rfl <;> decide
  obtain ⟨before, recording, after, hsplit, hleft, -⟩ :=
    start_confirmed "nfs" [leavesStopped, seesStopped, seesStopped] seesStopped hnames
      (stoppedWeb 2) (by decide +kernel)
  refine ⟨recording, ?_, hleft.1⟩
  rw [hsplit]
  exact List.mem_append_right _ List.mem_cons_self

/-! ## When a container is started -/

/-- The sweep sees the container of an entry still stopped and its mount healthy, and leaves the
container alone otherwise. -/
structure Sweep.Confirms (s : Sweep) (e : StoppedConsumer) : Prop where
  /-- The ledger can be read and written. -/
  lasts : s.lasts = true
  names : (s.runtimes.map ContainerRuntime.name).Nodup
  stopped : ∃ rt ∈ s.runtimes, rt.name = e.runtime ∧ rt.StillStopped e
  host : s.hostHealthy e.hostSource = some true
  alone : ∀ r, s.LeftStopped r → e.sameContainer r = false

/-- What a sweep that confirms an entry does about it. -/
lemma Sweep.Confirms.fate {s : Sweep} {e : StoppedConsumer} (h : s.Confirms e) :
    (e.healthySweeps + 1 < restoreConfirmSweeps ∧
      (fate s.runtimes s.hostHealthy e).keep =
        some { e with healthySweeps := e.healthySweeps + 1 }) ∨
    (fate s.runtimes s.hostHealthy e).started = true := by
  obtain ⟨rt, hrt, hname, hstopped⟩ := h.stopped
  have hfind : (s.runtimes.find? fun rt => rt.name == e.runtime) = some rt := by
    obtain ⟨rt', hfind⟩ : ∃ rt', (s.runtimes.find? fun rt => rt.name == e.runtime) = some rt' :=
      Option.isSome_iff_exists.mp (List.find?_isSome.mpr ⟨rt, hrt, beq_iff_eq.mpr hname⟩)
    have hsame : rt'.name = rt.name := (runtime_of_find hfind).symm.trans hname.symm
    rw [List.inj_on_of_nodup_map h.names (List.mem_of_find?_eq_some hfind) hrt hsame] at hfind
    exact hfind
  unfold StoppedConsumers.fate
  rw [hfind]
  dsimp only
  unfold restoreEntry
  rw [if_neg (not_not_intro hname.symm), hstopped]
  dsimp only
  rw [if_neg (not_not_intro rfl), if_neg Bool.false_ne_true]
  unfold confirmEntry
  rw [h.host]
  dsimp only
  split
  · exact Or.inl ⟨‹_›, rfl⟩
  · refine Or.inr ?_
    unfold startEntry
    split
    · rfl
    · dsimp only
      split <;> rfl

/-- A sweep that confirms an entry confirms those about the same stop. -/
lemma Sweep.Confirms.of_sameStop {s : Sweep} {e e' : StoppedConsumer} (h : s.Confirms e)
    (hsame : e'.SameStop e) : s.Confirms e' where
  lasts := h.lasts
  names := h.names
  stopped := by
    unfold ContainerRuntime.StillStopped
    rw [hsame.runtime, hsame.containerId, hsame.finishedAt]
    exact h.stopped
  host := hsame.hostSource ▸ h.host
  alone r hr := (hsame.sameContainer r).trans (h.alone r hr)

/-- Of a sweep that lasts, the file has the ledger after it. -/
lemma kept_of_lasts {owner : String} (howner : validOwner owner = true)
    (file : Option (List StoppedConsumer)) {s : Sweep} (h : s.lasts = true) :
    ∃ errors, (recoverConsumersForOwnerAt owner file s).file.getD [] =
        (sweepLedger s (file.getD []) errors).ledger ∧
      (recoverConsumersForOwnerAt owner file s).started =
        (sweepLedger s (file.getD []) errors).started := by
  cases outcome_sweep howner file s with
  | idle hlasts _ _ _ | lost _ hlasts _ _ _ | unsaved _ hlasts _ _ _ _ =>
    rw [h] at hlasts
    cases hlasts
  | kept errors _ hfile hstarted _ => exact ⟨errors, hfile, hstarted⟩

/-- A container that was left stopped is started at the latest by the third sweep that finds it
still stopped and its mount healthy, if these follow each other. -/
theorem started_when_confirmed (owner : String) (sweeps later : List Sweep) (e : StoppedConsumer)
    (he : e ∈ (run owner sweeps).getD []) (hlong : restoreConfirmSweeps ≤ later.length)
    (hlater : ∀ s ∈ later, s.Confirms e) :
    ∃ before s after, later = before ++ s :: after ∧
      ∃ e', e'.SameStop e ∧
        e' ∈ (recoverConsumersForOwnerAt owner (run owner (sweeps ++ before)) s).started := by
  have howner : validOwner owner = true := by
    by_contra hinvalid
    rw [run_of_invalid (Bool.eq_false_iff.mpr hinvalid)] at he
    cases he
  -- what the entry counts already is no longer missing
  have hgeneral : ∀ (later sweeps : List Sweep) (e : StoppedConsumer),
      e ∈ (run owner sweeps).getD [] → later ≠ [] →
      restoreConfirmSweeps ≤ e.healthySweeps + later.length → (∀ s ∈ later, s.Confirms e) →
      ∃ before s after, later = before ++ s :: after ∧
        ∃ e', e'.SameStop e ∧
          e' ∈ (recoverConsumersForOwnerAt owner (run owner (sweeps ++ before)) s).started := by
    intro later
    induction later with
    | nil => exact fun _ _ _ hne => absurd rfl hne
    | cons s later ih =>
      intro sweeps e he _ hlong hlater
      have hs := hlater s List.mem_cons_self
      obtain ⟨errors, hfile, hstarted⟩ := kept_of_lasts howner (run owner sweeps) hs.lasts
      have hother : ∀ rt ∈ s.runtimes, ∀ r ∈ recordedBy s.hostHealthy rt,
          e.sameContainer r = false := fun rt hrt r hr =>
        hs.alone r ⟨rt, hrt, (of_mem_recordedBy hr).1⟩
      have hsweep := mem_sweep hs.names ⟨(run owner sweeps).getD [], [], [], [],
        { ConsumerRecoverResult.default with errors, noConsumersFound := true }⟩ he hother
      rcases hs.fate with ⟨hfew, hkeep⟩ | hstart
      · have he' : { e with healthySweeps := e.healthySweeps + 1 } ∈
            (run owner (sweeps ++ [s])).getD [] := by
          rw [run_concat, hfile]
          exact hsweep.1 _ hkeep
        have hne : later ≠ [] := by
          rintro rfl
          rw [List.length_singleton] at hlong
          exact absurd hfew (not_lt.mpr hlong)
        rw [List.length_cons] at hlong
        obtain ⟨before, s', after, hsplit, e', hsame, hmem⟩ :=
          ih (sweeps ++ [s]) { e with healthySweeps := e.healthySweeps + 1 } he' hne
            (by dsimp only; omega) fun s' hs' =>
              (hlater s' (List.mem_cons_of_mem s hs')).of_sameStop ⟨rfl, rfl, rfl, rfl⟩
        refine ⟨s :: before, s', after, by rw [hsplit, List.cons_append], e',
          ⟨hsame.runtime, hsame.containerId, hsame.hostSource, hsame.finishedAt⟩, ?_⟩
        rwa [List.append_cons]
      · refine ⟨[], s, later, rfl, e, .refl e, ?_⟩
        rw [List.append_nil, hstarted]
        exact hsweep.2 hstart
  refine hgeneral later sweeps e he ?_ (hlong.trans (Nat.le_add_left _ _)) hlater
  rintro rfl
  exact absurd hlong (by decide)

/-- A container that was left stopped is started by one of three sweeps. -/
theorem started_when_confirmed_of_web : ∃ before s after,
    [seesStopped, seesStopped, seesStopped] = before ++ s :: after ∧ ∃ e',
      e'.SameStop (stoppedWeb 0) ∧
        e' ∈
          (recoverConsumersForOwnerAt "nfs" (run "nfs" ([leavesStopped] ++ before)) s).started := by
  refine started_when_confirmed "nfs" [leavesStopped] [seesStopped, seesStopped, seesStopped]
    (stoppedWeb 0) (by decide +kernel) (by decide) fun s hs => ?_
  simp only [List.mem_cons, List.not_mem_nil, or_false, or_self] at hs
  subst hs
  refine ⟨rfl, by decide, ⟨_, List.mem_cons_self, rfl, rfl⟩, rfl, ?_⟩
  rintro r ⟨rt, hrt, -, binds, hbinds, b, hb, -⟩
  rw [List.mem_singleton.mp hrt] at hbinds
  cases hbinds
  cases hb

end Orca.StoppedConsumers
