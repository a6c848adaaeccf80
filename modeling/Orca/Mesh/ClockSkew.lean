import Mathlib.Algebra.Order.Ring.Int
import Mathlib.Logic.Function.Basic
import Orca.Basic
import Orca.Contract.Paging
import Orca.Library.Cut
import Orca.Library.Invariant

/-!
# Clock offsets learned from refusals

A receiver tags a refusal that is about the time with its own time.  The sender remembers how far
this is from its own clock (`learn`), adds the offset to its clock from then on (`now_for`), and
tries once more if the offset moved (`with_clock_retry`).  The calls of several tasks share the
offsets, and between two steps of one call other calls may take theirs.

The tag is text from the peer, and may have any number of 64 bits.  The model computes with the
wrapped values of `i64` and records whether an operation left the range.  In every run a call makes
at most two attempts, and a peer is retried at most as often as the offset that it tells changes.
While no operation has left the range, the offset that is stored is the one of the last tag
(`Lawful.offset_eq`), so that no operation leaves it if and only if no tag is among the smallest
numbers, two tags of a peer in a row are not too far apart, and no time estimated from a tag is
behind the largest number (`clock_estimate_holds_iff`).
-/

namespace Orca

open Contract Invariant

namespace ClockSkew

/-! ## Numbers of 64 bits -/

/-- The number is an `i64`. -/
def InI64 (x : ℤ) : Prop := -2 ^ 63 ≤ x ∧ x < 2 ^ 63

instance (x : ℤ) : Decidable (InI64 x) := inferInstanceAs (Decidable (_ ∧ _))

/-- The result of an operation on `i64`, and whether it is in range. -/
def onI64 (x : ℤ) : ℤ × Bool := (wrapI64 x, decide (InI64 x))

/-! ## The tag of a refusal -/

/-- `RECEIVER_TIME_TAG`. -/
def receiverTimeTag : List Char := "[receiver_time=".toList

/-- What comes behind the last occurrence of a pattern that is not empty: `rfind`. -/
def behindLast (pattern : List Char) : List Char → Option (List Char)
  | [] => none
  | c :: s =>
    match behindLast pattern s with
    | some rest => some rest
    | none => pattern.isPrefixOf? (c :: s)

/-- The value of digits, if there are some and nothing else. -/
def parseDigits (s : List Char) : Option ℕ :=
  if s ≠ [] ∧ s.all Char.isDigit = true then some (Nat.ofDigitChars 10 s 0) else none

/-- `str::parse::<i64>`. -/
def parseI64 (s : List Char) : Option ℤ :=
  let value := match s with
    | '-' :: rest => (parseDigits rest).map fun n => -(n : ℤ)
    | _ => (parseDigits (unsigned s)).map fun n => (n : ℤ)
  value.filter fun n => decide (InI64 n)

/-- `receiver_time_in`. -/
def receiverTimeIn (message : String) : Option ℤ := do
  let rest ← behindLast receiverTimeTag message.toList
  let (number, _) ← Cut.once (· == ']') rest
  parseI64 number

/-! ## Offsets -/

/-- `OFFSETS`. -/
abbrev Offsets := String → Option ℤ

/-- `offset`. -/
def offset (m : Offsets) (peer : String) : ℤ := (m peer).getD 0

/-- `now_for`, at a reading of the local clock. -/
def nowFor (m : Offsets) (peer : String) (clock : ℤ) : ℤ × Bool := onI64 (clock + offset m peer)

/-- What `learn` does. -/
structure Learned where
  moved : Bool
  offsets : Offsets
  /-- Whether all operations stayed in range. -/
  fits : Bool

/-- `learn`, at a reading of the local clock. -/
def learn (m : Offsets) (peer : String) (err : String) (clock : ℤ) : Learned :=
  match receiverTimeIn err with
  | none => ⟨false, m, true⟩
  | some receiverNow =>
    let measured := onI64 (receiverNow - clock)
    let previous := (m peer).getD 0
    let difference := onI64 (measured.1 - previous)
    let distance := onI64 |difference.1|
    ⟨decide (1 < distance.1), Function.update m peer (some measured.1),
      measured.2 && difference.2 && distance.2⟩

/-! ## Calls -/

/-- Where a task is in `with_clock_retry`. -/
inductive Phase
  | idle
  /-- It waits for its first attempt. -/
  | first (peer : String)
  /-- The first attempt was refused and the offset moved. -/
  | retrying (peer : String)
  /-- It waits for its second attempt. -/
  | second (peer : String)
deriving DecidableEq

/-- A step of a task in `with_clock_retry`. -/
inductive CallStep (ι : Type*)
  /-- A call begins: the first attempt, at the estimated time. -/
  | call (i : ι) (peer : String) (clock : ℤ)
  /-- The attempt is refused with a text.  The first refusal is learned from. -/
  | refused (i : ι) (err : String) (clock : ℤ)
  /-- The second attempt, at the estimated time. -/
  | retry (i : ι) (clock : ℤ)
  | answered (i : ι)

/-- The offsets, and the calls in progress. -/
structure Senders (ι : Type*) where
  /-- What is known of the peers. -/
  offsets : Offsets
  phase : ι → Phase
  /-- How many attempts the call of a task has made. -/
  attempts : ι → ℕ
  /-- How often a refusal of a peer led to a retry. -/
  retries : String → ℕ
  /-- The tags of a peer that were learned from, each with the local clock, the last one first. -/
  told : String → List (ℤ × ℤ)
  /-- Whether all operations stayed in range. -/
  fits : Bool

variable {ι : Type*} [DecidableEq ι]

/-- Nothing is known, and no call is in progress. -/
def start : Senders ι := ⟨fun _ => none, fun _ => .idle, fun _ => 0, fun _ => 0, fun _ => [], true⟩

/-- A refusal of the first attempt. -/
def refuse (w : Senders ι) (i : ι) (peer err : String) (clock : ℤ) : Senders ι :=
  let l := learn w.offsets peer err clock
  { w with
    offsets := l.offsets
    phase := Function.update w.phase i (if l.moved then .retrying peer else .idle)
    retries := Function.update w.retries peer (w.retries peer + if l.moved then 1 else 0)
    told := Function.update w.told peer
      (((receiverTimeIn err).map fun receiverNow => (receiverNow, clock)).toList ++ w.told peer)
    fits := w.fits && l.fits }

/-- An attempt at the estimated time. -/
def attempt (w : Senders ι) (i : ι) (peer : String) (clock : ℤ) (next : Phase) (n : ℕ) :
    Senders ι :=
  { w with
    phase := Function.update w.phase i next
    attempts := Function.update w.attempts i n
    fits := w.fits && (nowFor w.offsets peer clock).2 }

/-- A step of a task; it does nothing if the task is not where the step begins. -/
def callStep (w : Senders ι) : CallStep ι → Senders ι
  | .call i peer clock =>
    match w.phase i with
    | .idle => attempt w i peer clock (.first peer) 1
    | _ => w
  | .refused i err clock =>
    match w.phase i with
    | .first peer => refuse w i peer err clock
    | .second _ => { w with phase := Function.update w.phase i .idle }
    | _ => w
  | .retry i clock =>
    match w.phase i with
    | .retrying peer => attempt w i peer clock (.second peer) (w.attempts i + 1)
    | _ => w
  | .answered i =>
    match w.phase i with
    | .first _ | .second _ => { w with phase := Function.update w.phase i .idle }
    | _ => w

/-! ## What is claimed of the calls -/

/-- How often a number differs from the one before it; before the first one it is zero. -/
def changes : List ℤ → ℕ
  | [] => 0
  | d :: ds => changes ds + if d = ds.headD 0 then 0 else 1

/-- How far from the local clock a peer said with a tag that its own one is. -/
def ahead (tag : ℤ × ℤ) : ℤ := tag.1 - tag.2

/-- The last tag of a peer that was learned from; before the first one its clock is taken for the
local one. -/
def lastTag (w : Senders ι) (peer : String) : ℤ × ℤ := (w.told peer).headD (0, 0)

/-- What is to hold in every state. -/
structure Sound (w : Senders ι) : Prop where
  /-- No operation has left the range. -/
  fits : w.fits = true
  /-- A call makes at most two attempts. -/
  attempts_le : ∀ i, w.attempts i ≤ 2
  /-- A peer is retried at most as often as the offset that it tells changes. -/
  retries_le : ∀ peer, w.retries peer ≤ changes ((w.told peer).map ahead)

/-- The local clock at a step. -/
def CallStep.clock : CallStep ι → ℤ
  | .call _ _ clock => clock
  | .refused _ _ clock => clock
  | .retry _ clock => clock
  | .answered _ => 0

/-- The time of a peer, estimated from a tag, is not behind the largest number. -/
def Estimable (tag : ℤ × ℤ) (clock : ℤ) : Prop := tag.1 + (clock - tag.2) < 2 ^ 63

instance (tag : ℤ × ℤ) (clock : ℤ) : Decidable (Estimable tag clock) :=
  inferInstanceAs (Decidable (_ < _))

/-- A tag can follow one of the same peer: it is not among the smallest numbers, and the two offsets
are less than `2 ^ 63` apart. -/
def Follows (tag : ℤ × ℤ) (receiverNow clock : ℤ) : Prop :=
  clock - 2 ^ 63 ≤ receiverNow ∧ |ahead (receiverNow, clock) - ahead tag| < 2 ^ 63

instance (tag : ℤ × ℤ) (receiverNow clock : ℤ) : Decidable (Follows tag receiverNow clock) :=
  inferInstanceAs (Decidable (_ ∧ _))

/-- The tags and the clocks that a step meets are not too far apart. -/
def StepFits (w : Senders ι) : CallStep ι → Prop
  | .call i peer clock => w.phase i = .idle → Estimable (lastTag w peer) clock
  | .refused i err clock => ∀ peer, w.phase i = .first peer →
    ∀ receiverNow, receiverTimeIn err = some receiverNow →
      Follows (lastTag w peer) receiverNow clock
  | .retry i clock => ∀ peer, w.phase i = .retrying peer → Estimable (lastTag w peer) clock
  | .answered _ => True

/-! ## Operations -/

lemma wrapI64_of_inI64 {x : ℤ} (h : InI64 x) : wrapI64 x = x := wrapI64_of_mem_range h.1 h.2

/-- An operation says whether its exact value is in range. -/
@[simp] lemma onI64_fits {x : ℤ} : (onI64 x).2 = true ↔ InI64 x := decide_eq_true_iff

/-- The value of an operation is wrapped. -/
@[simp] lemma onI64_value (x : ℤ) : (onI64 x).1 = wrapI64 x := rfl

/-- The time for a peer is in range if and only if it can be estimated from the tag that the offset
is from. -/
lemma nowFor_fits {m : Offsets} {peer : String} {clock : ℤ} {tag : ℤ × ℤ} (hclock : 0 ≤ clock)
    (htag : offset m peer = ahead tag) (hrange : InI64 (ahead tag)) :
    (nowFor m peer clock).2 = true ↔ Estimable tag clock := by
  unfold nowFor
  rw [onI64_fits, htag]
  unfold InI64 Estimable ahead at *
  omega

/-- A distance is in range if it is less than `2 ^ 63`. -/
lemma distance_fits {x : ℤ} : InI64 x ∧ InI64 |wrapI64 x| ↔ |x| < 2 ^ 63 := by
  constructor
  · rintro ⟨hx, habs⟩
    rw [wrapI64_of_inI64 hx] at habs
    exact habs.2
  · intro h
    have hbounds := abs_lt.mp h
    have hx : InI64 x := ⟨hbounds.1.le, hbounds.2⟩
    rw [wrapI64_of_inI64 hx]
    exact ⟨hx, (by norm_num : (-2 : ℤ) ^ 63 ≤ 0).trans (abs_nonneg x), h⟩

lemma inI64_of_receiverTimeIn {err : String} {receiverNow : ℤ}
    (h : receiverTimeIn err = some receiverNow) : InI64 receiverNow := by
  unfold receiverTimeIn at h
  obtain ⟨rest, -, h⟩ := Option.bind_eq_some_iff.mp h
  obtain ⟨⟨number, _⟩, -, h⟩ := Option.bind_eq_some_iff.mp h
  exact of_decide_eq_true (Option.filter_eq_some_iff.mp h).2

/-- All operations of `learn` stay in range if and only if the tag can follow the one that the
offset is from. -/
lemma learn_fits {m : Offsets} {peer err : String} {clock : ℤ} {tag : ℤ × ℤ} (hclock : 0 ≤ clock)
    (htag : offset m peer = ahead tag) :
    (learn m peer err clock).fits = true ↔
      ∀ receiverNow, receiverTimeIn err = some receiverNow → Follows tag receiverNow clock := by
  unfold learn
  cases hread : receiverTimeIn err with
  | none => exact iff_of_true rfl nofun
  | some receiverNow =>
    have hnumber := inI64_of_receiverTimeIn hread
    have hmeasured : InI64 (receiverNow - clock) ↔ clock - 2 ^ 63 ≤ receiverNow := by
      unfold InI64 at *
      omega
    simp only [onI64_fits, onI64_value, Bool.and_eq_true, and_assoc, Option.some.injEq, forall_eq']
    rw [hmeasured]
    refine and_congr_right fun hsmall => ?_
    rw [wrapI64_of_inI64 (hmeasured.mpr hsmall), distance_fits]
    change |receiverNow - clock - offset m peer| < 2 ^ 63 ↔ _
    rw [htag]
    rfl

/-- If the offset moved, the peer has told another one. -/
lemma ne_of_moved {m : Offsets} {peer err : String} {clock receiverNow : ℤ}
    (htag : receiverTimeIn err = some receiverNow) (h : (learn m peer err clock).moved = true) :
    wrapI64 (receiverNow - clock) ≠ offset m peer := by
  intro heq
  unfold learn at h
  rw [htag] at h
  simp only [onI64_value, heq, offset, sub_self, decide_eq_true_eq] at h
  revert h
  decide

/-! ## Runs -/

/-- What the calls keep. -/
structure Lawful (w : Senders ι) : Prop where
  /-- A call has made as many attempts as its phase says. -/
  attempts : ∀ i, match w.phase i with
    | .idle => w.attempts i ≤ 2
    | .first _ | .retrying _ => w.attempts i = 1
    | .second _ => w.attempts i = 2
  /-- What is known of a peer is what it told the last time. -/
  known : ∀ peer, offset w.offsets peer = wrapI64 (ahead (lastTag w peer))
  /-- What it told is in range, if all operations have been. -/
  inRange : w.fits = true → ∀ peer, InI64 (ahead (lastTag w peer))
  /-- A peer is retried at most as often as the offset that it tells changes. -/
  retries_le : ∀ peer, w.retries peer ≤ changes ((w.told peer).map ahead)

omit [DecidableEq ι] in
/-- While all operations have stayed in range, the offset that is stored is that of the last tag. -/
lemma Lawful.offset_eq {w : Senders ι} (h : Lawful w) (hfits : w.fits = true) (peer : String) :
    offset w.offsets peer = ahead (lastTag w peer) :=
  (h.known peer).trans (wrapI64_of_inI64 (h.inRange hfits peer))

/-- A task moves on to another phase. -/
lemma Lawful.move {w : Senders ι} (h : Lawful w) (i : ι) (next : Phase) (n : ℕ)
    (hn : match next with
      | .idle => n ≤ 2
      | .first _ | .retrying _ => n = 1
      | .second _ => n = 2) (fits : Bool) :
    Lawful { w with
      phase := Function.update w.phase i next
      attempts := Function.update w.attempts i n
      fits := w.fits && fits } where
  attempts j := by
    by_cases hj : j = i
    · subst hj
      simp only [Function.update_self]
      exact hn
    · simp only [Function.update_of_ne hj]
      exact h.attempts j
  known := h.known
  inRange hfits := h.inRange (Bool.and_eq_true_iff.mp hfits).1
  retries_le := h.retries_le

/-- The offset after a refusal is the one of its tag, if it has one. -/
lemma offset_refuse (w : Senders ι) (i : ι) (peer err : String) (clock : ℤ) (p : String) :
    offset (refuse w i peer err clock).offsets p =
      if p = peer then ((receiverTimeIn err).map fun r => wrapI64 (ahead (r, clock))).getD
        (offset w.offsets peer) else offset w.offsets p := by
  by_cases hp : p = peer
  · subst hp
    rw [if_pos rfl]
    unfold refuse learn
    cases receiverTimeIn err with
    | none => rfl
    | some receiverNow => simp [offset, ahead]
  · rw [if_neg hp]
    unfold refuse learn
    cases receiverTimeIn err with
    | none => rfl
    | some receiverNow => simp only [offset, Function.update_of_ne hp]

/-- The last tag after a refusal is its tag, if it has one. -/
lemma lastTag_refuse (w : Senders ι) (i : ι) (peer err : String) (clock : ℤ) (p : String) :
    lastTag (refuse w i peer err clock) p =
      if p = peer then ((receiverTimeIn err).map fun r => (r, clock)).getD (lastTag w peer)
      else lastTag w p := by
  unfold lastTag refuse
  split
  · rename_i hp
    subst hp
    cases receiverTimeIn err <;> simp
  · rename_i hp
    simp only [Function.update_of_ne hp]

/-- The offset that is measured is in range if all operations of `learn` are. -/
lemma inI64_of_learn {m : Offsets} {peer err : String} {clock receiverNow : ℤ}
    (hfits : (learn m peer err clock).fits = true) (htag : receiverTimeIn err = some receiverNow) :
    InI64 (ahead (receiverNow, clock)) := by
  unfold learn at hfits
  simp only [htag, Bool.and_eq_true] at hfits
  exact onI64_fits.mp hfits.1.1

/-- A refusal of the first attempt. -/
lemma Lawful.refuse {w : Senders ι} (h : Lawful w) {i : ι} {peer err : String} {clock : ℤ}
    (hphase : w.phase i = .first peer) : Lawful (refuse w i peer err clock) where
  attempts j := by
    have hj := h.attempts j
    by_cases hij : j = i
    · subst hij
      rw [hphase] at hj
      simp only [ClockSkew.refuse, Function.update_self]
      cases (learn w.offsets peer err clock).moved with
      | true => exact hj
      | false => exact le_of_eq_of_le hj (by decide)
    · simp only [ClockSkew.refuse, Function.update_of_ne hij]
      exact hj
  known p := by
    rw [offset_refuse, lastTag_refuse]
    split
    · cases receiverTimeIn err with
      | none => exact h.known peer
      | some receiverNow => rfl
    · exact h.known p
  inRange hfits p := by
    obtain ⟨hbefore, hlearn⟩ := Bool.and_eq_true_iff.mp hfits
    rw [lastTag_refuse]
    split
    · cases htag : receiverTimeIn err with
      | none => exact h.inRange hbefore peer
      | some receiverNow => exact inI64_of_learn hlearn htag
    · exact h.inRange hbefore p
  retries_le p := by
    have hretries := h.retries_le p
    by_cases hp : p = peer
    · subst hp
      simp only [ClockSkew.refuse, Function.update_self]
      cases htag : receiverTimeIn err with
      | none =>
        have hstays : (learn w.offsets p err clock).moved = false := by
          unfold learn
          rw [htag]
        simpa [hstays] using hretries
      | some receiverNow =>
        simp only [Option.map_some, Option.toList_some, List.singleton_append, List.map_cons,
          changes]
        refine Nat.add_le_add hretries ?_
        have hhead : ((w.told p).map ahead).headD 0 = ahead (lastTag w p) := by
          unfold lastTag
          cases w.told p <;> rfl
        rw [hhead]
        by_cases hmoved : (learn w.offsets p err clock).moved = true
        · have hne : ahead (receiverNow, clock) ≠ ahead (lastTag w p) := fun heq =>
            ne_of_moved htag hmoved ((congrArg wrapI64 heq).trans (h.known p).symm)
          rw [if_pos hmoved, if_neg hne]
        · rw [if_neg hmoved]
          exact Nat.zero_le _
    · simp only [ClockSkew.refuse, Function.update_of_ne hp]
      exact hretries

lemma Lawful.rest {w : Senders ι} (h : Lawful w) (i : ι) (hi : w.attempts i ≤ 2) :
    Lawful { w with phase := Function.update w.phase i .idle } := by
  have hmove := h.move i .idle (w.attempts i) hi true
  rwa [Function.update_eq_self, Bool.and_true] at hmove

/-- Every step keeps what the calls keep. -/
lemma Lawful.step {w : Senders ι} (h : Lawful w) (e : CallStep ι) : Lawful (callStep w e) := by
  cases e with
  | call i peer clock =>
    simp only [callStep]
    split
    next => exact h.move i (.first peer) 1 rfl _
    next => exact h
  | refused i err clock =>
    have hi := h.attempts i
    simp only [callStep]
    split
    next hphase => exact h.refuse hphase
    next hphase =>
      rw [hphase] at hi
      exact h.rest i hi.le
    next => exact h
  | retry i clock =>
    have hi := h.attempts i
    simp only [callStep]
    split
    next peer hphase =>
      rw [hphase] at hi
      exact h.move i (.second peer) _ (congrArg (· + 1) hi) _
    next => exact h
  | answered i =>
    have hi := h.attempts i
    simp only [callStep]
    split
    next hphase =>
      rw [hphase] at hi
      exact h.rest i (le_of_eq_of_le hi (by decide))
    next hphase =>
      rw [hphase] at hi
      exact h.rest i hi.le
    next => exact h

omit [DecidableEq ι] in
lemma lawful_start : Lawful (start : Senders ι) :=
  have hzero : InI64 0 := by decide
  ⟨fun _ => Nat.zero_le 2, fun _ => (wrapI64_of_inI64 hzero).symm, fun _ _ => hzero,
    fun _ => Nat.zero_le _⟩

omit [DecidableEq ι] in
/-- What the calls keep is what is claimed, apart from the range. -/
lemma Lawful.sound {w : Senders ι} (h : Lawful w) (hfits : w.fits = true) : Sound w where
  fits := hfits
  attempts_le i := by
    have hi := h.attempts i
    split at hi
    · exact hi
    · exact le_of_eq_of_le hi (by decide)
    · exact le_of_eq_of_le hi (by decide)
    · exact hi.le
  retries_le := h.retries_le

/-- A step stays in range if and only if its tags and clocks are not too far apart. -/
lemma callStep_fits {w : Senders ι} (hw : w.fits = true) (h : Lawful w) (e : CallStep ι)
    (hclock : 0 ≤ e.clock) : (callStep w e).fits = true ↔ StepFits w e := by
  have htag := h.offset_eq hw
  have hnow (peer : String) :
      (nowFor w.offsets peer e.clock).2 = true ↔ Estimable (lastTag w peer) e.clock :=
    nowFor_fits hclock (htag peer) (h.inRange hw peer)
  have hlearn (peer err : String) : (learn w.offsets peer err e.clock).fits = true ↔
      ∀ receiverNow, receiverTimeIn err = some receiverNow →
        Follows (lastTag w peer) receiverNow e.clock := learn_fits hclock (htag peer)
  cases e with
  | call i peer clock =>
    simp only [callStep, StepFits]
    split
    next hphase =>
      rw [forall_prop_of_true hphase]
      simp only [attempt, hw, Bool.true_and]
      exact hnow peer
    next hphase => exact iff_of_true hw fun h => absurd h hphase
  | refused i err clock =>
    simp only [callStep, StepFits]
    split
    next peer hphase =>
      simp only [refuse, hw, Bool.true_and, hphase, Phase.first.injEq, forall_eq']
      exact hlearn peer err
    next peer hphase => exact iff_of_true hw (by rw [hphase]; exact nofun)
    next hfirst _ => exact iff_of_true hw fun peer h => absurd h (hfirst peer)
  | retry i clock =>
    simp only [callStep, StepFits]
    split
    next peer hphase =>
      simp only [attempt, hw, Bool.true_and, hphase, Phase.retrying.injEq, forall_eq']
      exact hnow peer
    next hphase => exact iff_of_true hw fun peer h => absurd h (hphase peer)
  | answered i =>
    simp only [callStep, StepFits]
    split <;> exact iff_of_true hw trivial

lemma lawful_run (steps : List (CallStep ι)) : Lawful (steps.foldl callStep start) :=
  foldl_invariant (I := Lawful) (fun e _ _ h => h.step e) lawful_start

/-- With a local clock from 0 to `2 ^ 40`, a run of calls of `with_clock_retry` keeps to 64 bits in
all operations, makes no more than two attempts in a call and retries no peer more often than the
offset that it tells changes, if and only if each tag can follow the one before it of the same peer,
and at each attempt the time of the peer can be estimated from the last tag. -/
theorem clock_estimate_holds_iff (steps : List (CallStep ι))
    (hclock : ∀ e ∈ steps, 0 ≤ e.clock ∧ e.clock < 2 ^ 40) :
    (∀ before, before <+: steps → Sound (before.foldl callStep start)) ↔
      Along callStep StepFits start steps := by
  have hkept : Along callStep (fun w e => Lawful w ∧ 0 ≤ e.clock) (start : Senders ι) steps :=
    along_of_forall fun before e hinitial => ⟨lawful_run before, (hclock e <|
      hinitial.subset (List.mem_append_right before (List.mem_singleton_self e))).1⟩
  rw [← foldl_holds_iff_along_of (I := fun w => w.fits = true)
    (fun w e hw h => callStep_fits hw h.1 e h.2) (show (start : Senders ι).fits = true from rfl)
      hkept]
  exact forall₂_congr fun before _ =>
    ⟨fun h => h.fits, fun hfits => (lawful_run before).sound hfits⟩

/-- A call to a peer whose clock is 100 seconds ahead. -/
def latePeer : List (CallStep ℕ) :=
  [.call 0 "peer" 1700000000, .refused 0 "expired [receiver_time=1700000100]" 1700000000,
    .retry 0 1700000001, .answered 0]

/-- It is retried once and stays in range. -/
theorem clock_estimate_holds_of_latePeer : Sound (latePeer.foldl callStep start) := by
  have hread : receiverTimeIn "expired [receiver_time=1700000100]" = some 1700000100 := by
    decide +kernel
  refine (clock_estimate_holds_iff latePeer (by decide)).mpr
    ⟨fun _ => by decide, fun peer hphase receiverNow htag => ?_, fun peer hphase => ?_, trivial,
      trivial⟩ latePeer List.prefix_rfl
  · obtain rfl : "peer" = peer := Phase.first.inj hphase
    obtain rfl : 1700000100 = receiverNow := Option.some.inj (hread.symm.trans htag)
    decide
  · have hretrying : ((latePeer.take 2).foldl callStep start).phase 0 = .retrying "peer" := by
      decide +kernel
    obtain rfl : "peer" = peer := Phase.retrying.inj (hretrying.symm.trans hphase)
    decide +kernel

/-! ## The smallest number -/

/-- A refusal with the smallest number of 64 bits takes the clock estimate out of range. -/
theorem smallest_receiver_time_overflows :
    let refusal := "expired [receiver_time=-9223372036854775808]"
    let steps : List (CallStep ℕ) := [.call 0 "peer" 1700000000, .refused 0 refusal 1700000000]
    ¬∀ before, before <+: steps → Sound (before.foldl callStep start) := by
  intro refusal steps h
  have hfits := (h steps List.prefix_rfl).fits
  revert hfits
  decide +kernel

end ClockSkew

end Orca
