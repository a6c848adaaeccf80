import Mathlib.Data.List.Basic

/-!
# Calls to a worker that may be lost

A caller has one worker, to which it sends one call after another.  The worker runs a call that was
sent, may ask the caller for something while it runs, and answers.  Anything may be lost on the way,
and the worker may be replaced by another one, but nothing is made up, repeated or mixed: the
machine `Step` says which events can follow each other.

What such a machine guarantees does not depend on what carries the messages.  Each call is run at
most once and in the order in which the calls were sent (`started_sublist`), an answer that is
returned is what the run of this very call gave (`returned_sublist`), and so for what the worker
asks (`served_sublist`) and is told (`delivered_sublist`, `requested_of_delivered`).
-/

namespace RemoteCall

/-- What can be seen of the two sides. -/
inductive Event (κ α ρ β : Type*) where
  /-- The caller sends a call, or tries to. -/
  | sent (k : κ)
  /-- The worker starts to run a call. -/
  | started (k : κ)
  | finished (k : κ) (a : α)
  /-- A call returns with an answer. -/
  | returned (k : κ) (a : α)
  /-- The worker asks for something while it runs a call. -/
  | requested (k : κ) (r : ρ)
  /-- The caller attends to a request, as part of a call. -/
  | served (k : κ) (r : ρ)
  /-- The caller replies to a request. -/
  | replied (r : ρ) (b : β)
  /-- The worker has the reply to its request. -/
  | delivered (k : κ) (r : ρ) (b : β)

variable {κ α ρ β : Type*}

/-- How far the last call that was sent is. -/
inductive Stage (κ α : Type*) where
  /-- It has returned, or there is none. -/
  | idle
  | sent (k : κ)
  | started (k : κ)
  | finished (k : κ) (a : α)

/-- The call that is on its way. -/
def Stage.call : Stage κ α → Option κ
  | .idle => none
  | .sent k | .started k | .finished k _ => some k

/-- What was said and not heard. -/
structure State (κ α ρ β : Type*) where
  /-- How far the last call is. -/
  stage : Stage κ α
  /-- What was asked during the call and not attended to. -/
  asks : List ρ
  serving : Option ρ
  /-- What the call that is run asked last. -/
  asked : Option ρ
  /-- What was replied and has not reached the worker. -/
  replies : List (ρ × β)

/-- Before the first call. -/
def State.initial : State κ α ρ β := ⟨.idle, [], none, none, []⟩

/-- Which events can come, and what is said and not heard after them. -/
inductive Step : State κ α ρ β → Event κ α ρ β → State κ α ρ β → Prop
  /-- A call that is sent takes the place of the one before it. -/
  | sent (s : State κ α ρ β) (k : κ) :
    Step s (.sent k) { s with stage := .sent k, asks := [], serving := none }
  /-- The call that was sent is run. -/
  | started (s : State κ α ρ β) (k : κ) (h : s.stage = .sent k) :
    Step s (.started k) { s with stage := .started k, asked := none }
  /-- The call that is run is answered. -/
  | finished (s : State κ α ρ β) (k : κ) (a : α) (h : s.stage = .started k) :
    Step s (.finished k a) { s with stage := .finished k a }
  | returned (s : State κ α ρ β) (k : κ) (a : α) (h : s.stage = .finished k a) :
    Step s (.returned k a) { s with stage := .idle }
  /-- The call that is run asks for something. -/
  | requested (s : State κ α ρ β) (k : κ) (r : ρ) (h : s.stage = .started k) :
    Step s (.requested k r) { s with asks := s.asks ++ [r], asked := some r }
  /-- What the call asked is attended to, and those before it are lost. -/
  | served (s : State κ α ρ β) (k : κ) (r : ρ) (rest : List ρ) (h : s.stage.call = some k)
      (hr : r :: rest <:+ s.asks) :
    Step s (.served k r) { s with asks := rest, serving := some r }
  /-- There is a reply to what is attended to. -/
  | replied (s : State κ α ρ β) (r : ρ) (b : β) (h : s.serving = some r) :
    Step s (.replied r b) { s with replies := s.replies ++ [(r, b)] }
  /-- The call that is run has a reply to what it asked last, and those before it are lost. -/
  | delivered (s : State κ α ρ β) (k : κ) (r : ρ) (b : β) (rest : List (ρ × β))
      (h : s.stage = .started k) (ha : s.asked = some r) (hr : (r, b) :: rest <:+ s.replies) :
    Step s (.delivered k r b) { s with replies := rest }

/-- Events that come one after the other. -/
inductive Run : State κ α ρ β → List (Event κ α ρ β) → State κ α ρ β → Prop
  | nil (s : State κ α ρ β) : Run s [] s
  | snoc {s t u : State κ α ρ β} {es : List (Event κ α ρ β)} {e : Event κ α ρ β} (h : Run s es t)
      (hstep : Step t e u) : Run s (es ++ [e]) u

/-! ## What a run guarantees -/

/-- The calls that were sent. -/
def sentOf : List (Event κ α ρ β) → List κ :=
  List.filterMap fun | .sent k => some k | _ => none

/-- The calls that were run. -/
def startedOf : List (Event κ α ρ β) → List κ :=
  List.filterMap fun | .started k => some k | _ => none

/-- The calls that were answered, with their answers. -/
def finishedOf : List (Event κ α ρ β) → List (κ × α) :=
  List.filterMap fun | .finished k a => some (k, a) | _ => none

/-- The calls that have returned, with their answers. -/
def returnedOf : List (Event κ α ρ β) → List (κ × α) :=
  List.filterMap fun | .returned k a => some (k, a) | _ => none

/-- What was asked, and by which call. -/
def requestedOf : List (Event κ α ρ β) → List (κ × ρ) :=
  List.filterMap fun | .requested k r => some (k, r) | _ => none

/-- What was attended to, and as part of which call. -/
def servedOf : List (Event κ α ρ β) → List (κ × ρ) :=
  List.filterMap fun | .served k r => some (k, r) | _ => none

/-- The replies, with what they reply to. -/
def repliedOf : List (Event κ α ρ β) → List (ρ × β) :=
  List.filterMap fun | .replied r b => some (r, b) | _ => none

/-- The replies that have reached the worker, with what it had asked. -/
def deliveredOf : List (Event κ α ρ β) → List (ρ × β) :=
  List.filterMap fun | .delivered _ r b => some (r, b) | _ => none

/-- The call that is sent and not run. -/
def Stage.waiting : Stage κ α → List κ
  | .sent k => [k]
  | _ => []

/-- The call that is run. -/
def Stage.running : Stage κ α → List κ
  | .started k => [k]
  | _ => []

/-- The call that is answered and has not returned. -/
def Stage.answered : Stage κ α → List (κ × α)
  | .finished k a => [(k, a)]
  | _ => []

variable {s : State κ α ρ β} {es : List (Event κ α ρ β)}

lemma Run.invariant {P : List (Event κ α ρ β) → State κ α ρ β → Prop} (h : Run .initial es s)
    (hinit : P [] .initial) (hstep : ∀ es s e t, P es s → Step s e t → P (es ++ [e]) t) :
    P es s := by
  generalize hfirst : State.initial = first at h
  induction h with
  | nil => exact hfirst ▸ hinit
  | snoc h hlast ih => exact hstep _ _ _ _ ih hlast

/-- The call that is not run yet is sent after those that were run. -/
lemma started_waiting_sublist (h : Run .initial es s) :
    (startedOf es ++ s.stage.waiting).Sublist (sentOf es) := by
  refine h.invariant (P := fun es s => (startedOf es ++ s.stage.waiting).Sublist (sentOf es))
    (List.Sublist.refl []) fun es s e t ih hstep => ?_
  cases hstep with
  | sent k =>
    have : (startedOf es).Sublist (sentOf es) := (List.sublist_append_left _ _).trans ih
    simpa [startedOf, sentOf, Stage.waiting] using this
  | started k hs => simpa [startedOf, sentOf, Stage.waiting, hs] using ih
  | finished k a hs => simpa [startedOf, sentOf, Stage.waiting, hs] using ih
  | returned k a hs => simpa [startedOf, sentOf, Stage.waiting, hs] using ih
  | _ => simpa [startedOf, sentOf] using ih

/-- The call that is run was started after those that were answered. -/
lemma finished_running_sublist (h : Run .initial es s) :
    ((finishedOf es).map Prod.fst ++ s.stage.running).Sublist (startedOf es) := by
  refine h.invariant
    (P := fun es s => ((finishedOf es).map Prod.fst ++ s.stage.running).Sublist (startedOf es))
    (List.Sublist.refl []) fun es s e t ih hstep => ?_
  have hpast : ((finishedOf es).map Prod.fst).Sublist (startedOf es) :=
    (List.sublist_append_left _ _).trans ih
  cases hstep with
  | sent k => simpa [startedOf, finishedOf, Stage.running] using hpast
  | started k hs => simpa [startedOf, finishedOf, Stage.running] using hpast
  | finished k a hs => simpa [startedOf, finishedOf, Stage.running, hs] using ih
  | returned k a hs => simpa [startedOf, finishedOf, Stage.running, hs] using ih
  | _ => simpa [startedOf, finishedOf] using ih

/-- The answer that has not returned yet was given after those that have. -/
lemma returned_answered_sublist (h : Run .initial es s) :
    (returnedOf es ++ s.stage.answered).Sublist (finishedOf es) := by
  refine h.invariant (P := fun es s => (returnedOf es ++ s.stage.answered).Sublist (finishedOf es))
    (List.Sublist.refl []) fun es s e t ih hstep => ?_
  have hpast : (returnedOf es).Sublist (finishedOf es) := (List.sublist_append_left _ _).trans ih
  cases hstep with
  | sent k => simpa [returnedOf, finishedOf, Stage.answered] using hpast
  | started k hs => simpa [returnedOf, finishedOf, Stage.answered, hs] using ih
  | finished k a hs => simpa [returnedOf, finishedOf, Stage.answered] using hpast
  | returned k a hs => simpa [returnedOf, finishedOf, Stage.answered, hs] using ih
  | _ => simpa [returnedOf, finishedOf] using ih

/-- What the call has asked and was not attended to comes after what was. -/
lemma served_asks_sublist (h : Run .initial es s) :
    (servedOf es).Sublist (requestedOf es) ∧ ∀ k, s.stage.call = some k →
      (servedOf es ++ s.asks.map (k, ·)).Sublist (requestedOf es) := by
  refine h.invariant (P := fun es s => (servedOf es).Sublist (requestedOf es) ∧
    ∀ k, s.stage.call = some k → (servedOf es ++ s.asks.map (k, ·)).Sublist (requestedOf es))
    ⟨List.Sublist.refl [], fun k hk => absurd hk.symm (Option.some_ne_none k)⟩
      fun es s e t ih hstep => ?_
  obtain ⟨hpast, ih⟩ := ih
  cases hstep with
  | sent k => exact ⟨by simpa [servedOf, requestedOf] using hpast,
      fun k' _ => by simpa [servedOf, requestedOf] using hpast⟩
  | started k hs | finished k a hs =>
    refine ⟨by simpa [servedOf, requestedOf] using hpast, fun k' hk' => ?_⟩
    simpa [servedOf, requestedOf] using ih k' (by rwa [hs])
  | returned k a hs =>
    exact ⟨by simpa [servedOf, requestedOf] using hpast, fun k' hk' =>
      absurd hk'.symm (Option.some_ne_none k')⟩
  | requested k r hs =>
    have hk : s.stage.call = some k := by rw [hs]; rfl
    refine ⟨?_, fun k' hk' => ?_⟩
    · simpa [servedOf, requestedOf] using hpast.trans (List.sublist_append_left _ [(k, r)])
    · obtain rfl : k = k' := Option.some.inj (hk.symm.trans hk')
      simpa [servedOf, requestedOf] using (ih k hk).append_right [(k, r)]
  | served k r rest hk hr =>
    have hmore : (servedOf es ++ (k, r) :: rest.map (k, ·)).Sublist (requestedOf es) :=
      ((hr.sublist.map (k, ·)).append_left (servedOf es)).trans (ih k hk)
    refine ⟨?_, fun k' hk' => ?_⟩
    · have hone : (servedOf es ++ [(k, r)]).Sublist (servedOf es ++ (k, r) :: rest.map (k, ·)) :=
        (List.prefix_append [(k, r)] _).sublist.append_left _
      simpa [servedOf, requestedOf] using hone.trans hmore
    · obtain rfl : k = k' := Option.some.inj (hk.symm.trans hk')
      simpa [servedOf, requestedOf] using hmore
  | replied r b hs => exact ⟨by simpa [servedOf, requestedOf] using hpast,
      fun k' hk' => by simpa [servedOf, requestedOf] using ih k' hk'⟩
  | delivered k r b rest hs ha hr => exact ⟨by simpa [servedOf, requestedOf] using hpast,
      fun k' hk' => by simpa [servedOf, requestedOf] using ih k' hk'⟩

/-- What was replied and has not reached the worker comes after what has. -/
lemma delivered_replies_sublist (h : Run .initial es s) :
    (deliveredOf es ++ s.replies).Sublist (repliedOf es) := by
  refine h.invariant (P := fun es s => (deliveredOf es ++ s.replies).Sublist (repliedOf es))
    (List.Sublist.refl []) fun es s e t ih hstep => ?_
  cases hstep with
  | replied r b hs => simpa [deliveredOf, repliedOf] using ih.append_right [(r, b)]
  | delivered k r b rest hs ha hr =>
    simpa [deliveredOf, repliedOf] using (hr.sublist.append_left (deliveredOf es)).trans ih
  | _ => simpa [deliveredOf, repliedOf] using ih

/-- What the call that is run asked last was asked by it. -/
lemma requested_of_asked (h : Run .initial es s) :
    ∀ k r, s.stage = .started k → s.asked = some r → (k, r) ∈ requestedOf es := by
  refine h.invariant
    (P := fun es s => ∀ k r, s.stage = .started k → s.asked = some r → (k, r) ∈ requestedOf es)
    (fun k r hk hr => absurd hr.symm (Option.some_ne_none r)) fun es s e t ih hstep k r hk hr => ?_
  have hmono : (requestedOf es).Sublist (requestedOf (es ++ [e])) :=
    (List.sublist_append_left es [e]).filterMap _
  cases hstep with
  | sent k' | finished k' a hs | returned k' a hs => cases hk
  | started k' hs => cases hr
  | requested k' r' hs =>
    obtain rfl : k' = k := Stage.started.inj (hs.symm.trans hk)
    obtain rfl : r' = r := Option.some.inj hr
    simp [requestedOf]
  | served k' r' rest hk' hr' => exact hmono.subset (ih k r hk hr)
  | replied r' b hs => exact hmono.subset (ih k r hk hr)
  | delivered k' r' b rest hs ha hr' => exact hmono.subset (ih k r hk hr)

/-- Each call is run at most once, in the order in which they were sent. -/
theorem started_sublist (h : Run .initial es s) : (startedOf es).Sublist (sentOf es) :=
  (List.sublist_append_left _ _).trans (started_waiting_sublist h)

/-- Each call that is run is answered at most once. -/
theorem finished_sublist (h : Run .initial es s) :
    ((finishedOf es).map Prod.fst).Sublist (startedOf es) :=
  (List.sublist_append_left _ _).trans (finished_running_sublist h)

/-- A call returns at most once, with the answer that it was given. -/
theorem returned_sublist (h : Run .initial es s) : (returnedOf es).Sublist (finishedOf es) :=
  (List.sublist_append_left _ _).trans (returned_answered_sublist h)

/-- What a call asks is attended to at most once, as part of this call. -/
theorem served_sublist (h : Run .initial es s) : (servedOf es).Sublist (requestedOf es) :=
  (served_asks_sublist h).1

/-- What was delivered was replied to what it is delivered for, and it is delivered once. -/
theorem delivered_sublist (h : Run .initial es s) : (deliveredOf es).Sublist (repliedOf es) :=
  (List.sublist_append_left _ _).trans (delivered_replies_sublist h)

/-- What is delivered to a call was asked by it. -/
theorem requested_of_delivered (h : Run .initial es s) {k : κ} {r : ρ} {b : β}
    (hb : .delivered k r b ∈ es) : (k, r) ∈ requestedOf es := by
  generalize hfirst : State.initial = first at h
  induction h with
  | nil => exact absurd hb List.not_mem_nil
  | @snoc t u es e h hstep ih =>
    subst hfirst
    have hmono : (requestedOf es).Sublist (requestedOf (es ++ [e])) :=
      (List.sublist_append_left es [e]).filterMap _
    rcases List.mem_append.mp hb with hold | hnew
    · exact hmono.subset (ih hold)
    · obtain rfl := List.mem_singleton.mp hnew
      cases hstep with
      | delivered _ _ _ rest hs ha hr => exact hmono.subset (requested_of_asked h k r hs ha)

end RemoteCall
