import Mathlib.Data.List.DropRight
import Orca.Data.Text

/-!
# Sources and targets of mounts

How convergence compares the strings the kernel's mount table reports with the strings it works with
itself, and the decisions it takes about a single mount: which of the ordered sources is elected,
what that election means for the source that is mounted now (`transition`), whether a healthy mount
is swapped (`shouldSwap`) and whether it is mounted again because its options have drifted
(`driftAction`).

`normTarget` and `normSource` remove the differences that do not count: a slash at the end, and the
case of the letters of the host.  `sameSource` compares sources through the second of them;
`transition` does not, and compares them as they are spelled.
-/

namespace Orca.Mounts

/-! ## Text -/

/-- `trim_end_matches('/')`. -/
def trimSlashes (s : List Char) : List Char := s.rdropWhile (· = '/')

/-- `to_ascii_lowercase`. -/
def lowercase (s : List Char) : List Char := s.map Char.toLower

/-- `split_once`: what comes before the first occurrence of a pattern that is not empty, and what
comes after it. -/
def splitOnce (pattern : List Char) : List Char → Option (List Char × List Char)
  | [] => none
  | c :: rest =>
    if pattern.isPrefixOf (c :: rest) then some ([], (c :: rest).drop pattern.length)
    else (splitOnce pattern rest).map fun parts => (c :: parts.1, parts.2)

/-- `strip_prefix`. -/
def stripStart (start s : String) : Option String :=
  if start.toList.isPrefixOf s.toList then some (String.ofList (s.toList.drop start.length))
  else none

/-- `norm_target`: the key that the ledger, the desired targets and the mount table share. -/
def normTarget (t : String) : String :=
  let trimmed := trimSlashes t.toList
  if trimmed = [] ∧ t.toList.head? = some '/' then "/" else String.ofList trimmed

/-- `norm_source`: the host without regard to case, the path without slashes at its end. -/
def normSource (s : String) : String :=
  String.ofList <|
    match s.toList with
    | '/' :: '/' :: rest =>
      match splitOnce ['/'] rest with
      | some (host, path) => '/' :: '/' :: lowercase host ++ '/' :: trimSlashes path
      | none => '/' :: '/' :: lowercase rest
    | chars =>
      match if chars.head? = some '[' then splitOnce [']', ':'] chars else none with
      | some (host, path) => lowercase host ++ ']' :: ':' :: trimSlashes path
      | none =>
        match splitOnce [':'] chars with
        | some (host, path) => lowercase host ++ ':' :: trimSlashes path
        | none => trimSlashes (lowercase chars)

/-- `same_source`. -/
def sameSource (a b : String) : Bool := normSource a = normSource b

/-- A normal form is its own normal form. -/
@[simp] lemma normTarget_normTarget (t : String) : normTarget (normTarget t) = normTarget t := by
  have htrim : trimSlashes (trimSlashes t.toList) = trimSlashes t.toList :=
    List.rdropWhile_idempotent _ _
  by_cases hroot : trimSlashes t.toList = [] ∧ t.toList.head? = some '/'
  · have hnorm : normTarget t = "/" := if_pos hroot
    rw [hnorm]
    decide +kernel
  · have hnorm : normTarget t = String.ofList (trimSlashes t.toList) := if_neg hroot
    rw [hnorm, normTarget, String.toList_ofList, htrim, if_neg]
    -- a trimmed text that is empty has no first character
    rintro ⟨hempty, hhead⟩
    rw [hempty] at hhead
    cases hhead

lemma sameSource_comm (a b : String) : sameSource a b = sameSource b a :=
  decide_eq_decide.mpr eq_comm

lemma sameSource_trans {a b c : String} (hab : sameSource a b = true)
    (hbc : sameSource b c = true) : sameSource a c = true :=
  decide_eq_true ((of_decide_eq_true hab).trans (of_decide_eq_true hbc))

/-! ## Policy -/

/-- How far a held mount may be disrupted. -/
inductive RemountAggression
  | safe
  | force
  deriving DecidableEq, Repr

/-- Fail-over and fail-back between the ordered sources. -/
structure Failover where
  /-- Whether a mount is moved to another source at all. -/
  enabled : Bool
  /-- Whether it is moved back to a source of higher priority. -/
  returnToPrimary : Bool
  confirmTicks : ℕ
  deriving DecidableEq, Repr

/-- The part of a remount policy that convergence reads. -/
structure RemountPolicy where
  /-- How far a held mount may be disrupted. -/
  aggression : RemountAggression
  failover : Failover
  deriving DecidableEq, Repr

/-- `RemountPolicy::default`. -/
def RemountPolicy.default : RemountPolicy := ⟨.safe, true, true, 2⟩

/-- A placement on this host, joined to its share. -/
structure DesiredMount where
  target : String
  fstype : String
  /-- Sources of the routes that are not held, in order of priority. -/
  sources : List String
  /-- When the mount may be moved. -/
  remountPolicy : RemountPolicy
  replication : Option String
  /-- Mount options, as the backend renders them. -/
  options : String
  deriving DecidableEq, Repr

/-! ## Election -/

/-- The source elected for a mount. -/
inductive Election
  | elected (source : String) (index : ℕ)
  | empty
  deriving DecidableEq, Repr

/-- `elected_source`. -/
def Election.source? : Election → Option String
  | .elected source _ => some source
  | .empty => none

/-- `candidate_order`: the sources with their positions, those that are backed off last. -/
def candidateOrder (sources : List String) (backedOff : String → Bool) : List (String × ℕ) :=
  sources.zipIdx.filter (fun s => !backedOff s.1) ++ sources.zipIdx.filter fun s => backedOff s.1

/-- `elect`: the first candidate that answers its probe. -/
def elect (sources : List String) (backedOff : String → Bool) (live : ℕ → Bool) : Election :=
  match (candidateOrder sources backedOff).find? fun s => live s.2 with
  | some s => .elected s.1 s.2
  | none => .empty

/-- What an election means for the mount that is there. -/
inductive Transition
  | emptyTarget
  | unchanged
  | failBack (source : String)
  | degrade (source : String)
  | mount (source : String)
  deriving DecidableEq, Repr

/-- `transition`: the sources are compared as they are spelled. -/
def transition (sources : List String) (current : Option String) : Election → Transition
  | .empty => .emptyTarget
  | .elected source index =>
    match current with
    | none => .mount source
    | some cur =>
      if cur = source then .unchanged
      else
        match sources.idxOf? cur with
        | some position => if index < position then .failBack source else .degrade source
        | none => .mount source

/-- What a decision about a healthy mount is based on. -/
structure FailoverSignal where
  elected : Election
  /-- Source the target is mounted from. -/
  active : Option String
  busy : Bool
  replicationHealthy : Option Bool
  deriving DecidableEq, Repr

/-- The transition is one to act on. -/
def swapCandidate (d : DesiredMount) (sig : FailoverSignal) : Bool :=
  match transition d.sources sig.active sig.elected with
  | .failBack _ => d.remountPolicy.failover.returnToPrimary
  | .degrade _ => true
  | .mount _ => sig.active.isSome
  | .unchanged | .emptyTarget => false

/-- `should_swap`. -/
def shouldSwap (d : DesiredMount) (sig : FailoverSignal) : Bool :=
  if !d.remountPolicy.failover.enabled then false
  else if !swapCandidate d sig then false
  else if d.replication.isSome && sig.replicationHealthy != some true then false
  else !(d.remountPolicy.aggression = .safe && sig.busy)

/-- When a mount is swapped. -/
lemma shouldSwap_iff {d : DesiredMount} {sig : FailoverSignal} :
    shouldSwap d sig = true ↔
      d.remountPolicy.failover.enabled = true ∧ swapCandidate d sig = true ∧
        (d.replication.isSome = true → sig.replicationHealthy = some true) ∧
          ¬(d.remountPolicy.aggression = .safe ∧ sig.busy = true) := by
  unfold shouldSwap
  cases henabled : d.remountPolicy.failover.enabled with
  | false => simp
  | true =>
    cases hcandidate : swapCandidate d sig with
    | false => simp
    | true =>
      by_cases hgate : d.replication.isSome = true ∧ sig.replicationHealthy ≠ some true
      · simp [hgate.1, hgate.2]
      · have hopen : (d.replication.isSome && sig.replicationHealthy != some true) = false := by
          simpa using hgate
        have hgate' : d.replication.isSome = true → sig.replicationHealthy = some true := by
          simpa using hgate
        simp only [hopen, Bool.not_true, Bool.false_eq_true, if_false]
        have hbusy : (!(d.remountPolicy.aggression = .safe && sig.busy : Bool)) = true ↔
            ¬(d.remountPolicy.aggression = .safe ∧ sig.busy = true) := by
          simp [imp_iff_not_or]
        exact hbusy.trans ⟨fun h => ⟨trivial, trivial, hgate', h⟩, fun h => h.2.2.2⟩

/-- A mount is swapped only while something is mounted. -/
lemma active_of_swapCandidate {d : DesiredMount} {sig : FailoverSignal}
    (h : swapCandidate d sig = true) : ∃ source, sig.active = some source := by
  unfold swapCandidate transition at h
  cases hactive : sig.active with
  | some source => exact ⟨source, rfl⟩
  | none =>
    rw [hactive] at h
    cases helected : sig.elected with
    | elected source index =>
      rw [helected] at h
      cases h
    | empty =>
      rw [helected] at h
      cases h

/-- A mount that is on its elected source, spelled the same way, is not swapped. -/
lemma not_swapCandidate_of_eq {d : DesiredMount} {sig : FailoverSignal} {source : String}
    {index : ℕ} (helected : sig.elected = .elected source index)
    (hactive : sig.active = some source) : swapCandidate d sig = false := by
  unfold swapCandidate transition
  rw [helected, hactive]
  simp

/-! ## Option drift -/

/-- Which of `soft` and `hard` a list of options names. -/
def hardness (options : List String) : Option Bool :=
  if options.contains "soft" then some true
  else if options.contains "hard" then some false
  else none

/-- The value of the first option with a key. -/
def keyedOption (options : List String) (key : String) : Option String :=
  options.findSome? (stripStart (key ++ "="))

/-- The options of a comma-separated text. -/
def optionTokens (options : String) : List String :=
  ((options.toList.splitOn ',').map fun t => trim (String.ofList t)).filter (· ≠ "")

/-- `options_drifted`. -/
def optionsDrifted (desired : String) (live : List String) : Bool :=
  let tokens := optionTokens desired
  (match hardness tokens, hardness live with
    | some d, some l => d != l
    | _, _ => false) ||
  (tokens.contains "softreval" != live.contains "softreval") ||
  ["vers", "timeo", "retrans", "nconnect"].any fun key =>
    match keyedOption tokens key with
    | some want => keyedOption live key ≠ some want
    | none => false

/-- What to do about a healthy mount whose options have drifted. -/
inductive DriftDecision
  | remount
  | deferBusySafe
  | notOnElected
  | noElection
  deriving DecidableEq, Repr

/-- `drift_action`. -/
def driftAction (elected active : Option String) (aggression : RemountAggression) (busy : Bool) :
    DriftDecision :=
  match elected with
  | none => .noElection
  | some elected =>
    if !active.any (sameSource elected) then .notOnElected
    else if aggression = .safe && busy then .deferBusySafe
    else .remount

/-- A mount is mounted again for its options only on the source that is elected. -/
lemma sameSource_of_driftAction {elected active : Option String} {aggression : RemountAggression}
    {busy : Bool} (h : driftAction elected active aggression busy = .remount) :
    ∃ e a, elected = some e ∧ active = some a ∧ sameSource e a = true := by
  unfold driftAction at h
  cases elected with
  | none => cases h
  | some e =>
    cases active with
    | none => cases h
    | some a =>
      refine ⟨e, a, rfl, rfl, ?_⟩
      by_contra hne
      have hfalse : sameSource e a = false := Bool.eq_false_iff.mpr hne
      simp [hfalse] at h

/-! ## Ownership -/

/-- How a mount that is not preceded by a release is carried out. -/
inductive MountExec
  | proceed
  | adopt
  | foreign (active : String)
  deriving DecidableEq, Repr

/-- `mount_execution`. -/
def mountExecution (elected : String) (desired : List String) : Option String → MountExec
  | none => .proceed
  | some a =>
    if sameSource a elected || desired.any fun s => sameSource s a then .adopt else .foreign a

/-- A mount goes ahead only where nothing is seen mounted. -/
lemma mountExecution_eq_proceed_iff {elected : String} {desired : List String}
    {active : Option String} :
    mountExecution elected desired active = .proceed ↔ active = none := by
  unfold mountExecution
  cases active with
  | none => exact iff_of_true rfl rfl
  | some a =>
    refine iff_of_false (fun h => ?_) (Option.some_ne_none a)
    dsimp only at h
    split at h <;> cases h

/-- `adopt_owns`: a network filesystem that is mounted from one of the desired sources. -/
def adoptOwns (activeSource activeFstype : String) (desired : List String) : Bool :=
  ["nfs", "nfs4", "cifs", "smb3"].contains activeFstype &&
    desired.any fun s => sameSource s activeSource

/-- What removal does with a target that is owned and no longer desired. -/
inductive OrphanAction
  | unmount
  | forget
  | forgetForeign (active : String)
  deriving DecidableEq, Repr

/-- `orphan_action`. -/
def orphanAction (recorded : String) : Option String → OrphanAction
  | none => .forget
  | some a => if sameSource a recorded then .unmount else .forgetForeign a

/-- A removed target is unmounted only from the source that is recorded for it. -/
lemma orphanAction_eq_unmount_iff {recorded : String} {active : Option String} :
    orphanAction recorded active = .unmount ↔
      ∃ a, active = some a ∧ sameSource a recorded = true := by
  unfold orphanAction
  cases active with
  | none => exact iff_of_false (fun h => by cases h) fun ⟨a, ha, _⟩ => by cases ha
  | some a =>
    dsimp only
    split
    · rename_i hsame
      exact iff_of_true rfl ⟨a, rfl, hsame⟩
    · rename_i hsame
      refine iff_of_false (fun h => by cases h) fun ⟨b, hb, hsame'⟩ => ?_
      cases hb
      exact hsame hsame'

example : sameSource "Primary:/export/data/" "primary:/export/data" = true := by decide +kernel

end Orca.Mounts
