import Mathlib.Data.List.Induction
import Orca.Backup.SlotIds

/-!
# The order in which slots are created

The name of a slot is the second in which it is created, with a number when the second has a slot
already.  The backups are listed in the order of their names, and the newest one and the ones that a
retention keeps are taken from that list.

`creationOrder_iff` says when the names are in the order of creation: no second has more than ten
slots.  The eleventh slot has the number 10, and a name that ends in 10 is before one that ends in
2.
-/

namespace Orca.Backup

variable {σ : Type} {S : Setup σ} {t : Target σ}

/-! ## Stamps -/

/-- The second that a time in milliseconds is in. -/
def secondOf (ms : Int) : Int := ms / 1000

/-- What the compact stamps of some times are: as long as each other, one for each second, and in
the order of the seconds. -/
structure Calendar.Stamps (C : Calendar) (T : Set Int) : Prop where
  length : ∀ a ∈ T, ∀ b ∈ T, (C.compact a).length = (C.compact b).length
  same : ∀ a ∈ T, ∀ b ∈ T, secondOf a = secondOf b → C.compact a = C.compact b
  later : ∀ a ∈ T, ∀ b ∈ T, secondOf a < secondOf b → C.compact a < C.compact b

lemma Calendar.Stamps.secondOf_eq {C : Calendar} {T : Set Int} (h : C.Stamps T) {a b : Int}
    (ha : a ∈ T) (hb : b ∈ T) (hstamp : C.compact a = C.compact b) : secondOf a = secondOf b := by
  by_contra hne
  rcases lt_or_gt_of_ne hne with hlt | hlt
  · exact lt_irrefl _ (hstamp ▸ h.later a ha b hb hlt)
  · exact lt_irrefl _ (hstamp ▸ h.later b hb a ha hlt)

/-! ## The calls -/

/-- A call of `new_slot`. -/
structure SlotCall (σ : Type) where
  now : Int
  /-- The state that is backed up. -/
  live : σ
  /-- The slot is for the instance, and it is committed. -/
  listed : Bool

/-- A slot is allocated. -/
def allocate (S : Setup σ) (t : Target σ) (c : SlotCall σ) : Target σ :=
  if c.listed then { t with slots := t.slots ++ [newSlot S c.now c.live t] }
  else { t with others := t.others ++ [newSlotId S c.now t] }

/-- Slots are allocated, one after the other. -/
def allocateAll (S : Setup σ) (t : Target σ) (calls : List (SlotCall σ)) : Target σ :=
  calls.foldl (allocate S) t

/-- The names of the slots that are allocated. -/
def allocatedIds (S : Setup σ) : Target σ → List (SlotCall σ) → List String
  | _, [] => []
  | t, c :: calls => newSlotId S c.now t :: allocatedIds S (allocate S t c) calls

/-- How many of the calls are in the second of the given time. -/
def callsInSecond (calls : List (SlotCall σ)) (now : Int) : Nat :=
  calls.countP fun c => secondOf c.now == secondOf now

lemma callsInSecond_congr (calls : List (SlotCall σ)) {a b : Int} (h : secondOf a = secondOf b) :
    callsInSecond calls a = callsInSecond calls b := by
  rw [callsInSecond, h, callsInSecond]

lemma callsInSecond_append (calls : List (SlotCall σ)) (c : SlotCall σ) (now : Int) :
    callsInSecond (calls ++ [c]) now =
      callsInSecond calls now + if secondOf c.now = secondOf now then 1 else 0 := by
  rw [callsInSecond, List.countP_append, List.countP_singleton, callsInSecond]
  simp only [beq_iff_eq]

lemma exists_of_callsInSecond_pos {calls : List (SlotCall σ)} {now : Int}
    (h : 0 < callsInSecond calls now) : ∃ c ∈ calls, secondOf c.now = secondOf now := by
  obtain ⟨c, hc, hsecond⟩ := List.countP_pos_iff.mp h
  exact ⟨c, hc, beq_iff_eq.mp hsecond⟩

/-- A sequence of calls on a store that is not shared and has no slot at first, with a clock that is
never set back. -/
structure StoreRun (S : Setup σ) (T : Set Int) (t : Target σ) (calls : List (SlotCall σ)) :
    Prop where
  stamps : S.calendar.Stamps T
  /-- The clock shows times with such stamps. -/
  times : ∀ c ∈ calls, c.now ∈ T
  clock : calls.Pairwise fun c d => c.now ≤ d.now
  unshared : t.shared = false
  empty : t.slots = []
  /-- Nothing else has the name of a slot. -/
  free : ∀ c ∈ calls, ∀ n, candidateId (S.calendar.compact c.now) n ∉ t.others

lemma StoreRun.init {T : Set Int} {calls : List (SlotCall σ)} {c : SlotCall σ}
    (h : StoreRun S T t (calls ++ [c])) : StoreRun S T t calls where
  stamps := h.stamps
  times := fun d hd => h.times d (List.mem_append_left _ hd)
  clock := (List.pairwise_append.mp h.clock).1
  unshared := h.unshared
  empty := h.empty
  free := fun d hd => h.free d (List.mem_append_left _ hd)

lemma allocateAll_append (S : Setup σ) (t : Target σ) (calls : List (SlotCall σ))
    (c : SlotCall σ) :
    allocateAll S t (calls ++ [c]) = allocate S (allocateAll S t calls) c := by
  rw [allocateAll, List.foldl_append]
  rfl

lemma allocatedIds_append (S : Setup σ) (t : Target σ) (calls : List (SlotCall σ))
    (c : SlotCall σ) :
    allocatedIds S t (calls ++ [c]) =
      allocatedIds S t calls ++ [newSlotId S c.now (allocateAll S t calls)] := by
  induction calls generalizing t with
  | nil => rfl
  | cons d calls ih =>
    rw [List.cons_append, allocatedIds, ih]
    rfl

lemma shared_allocateAll (S : Setup σ) (t : Target σ) (calls : List (SlotCall σ)) :
    (allocateAll S t calls).shared = t.shared := by
  induction calls using List.reverseRecOn with
  | nil => rfl
  | append_singleton calls c ih =>
    rw [allocateAll_append, allocate]
    split <;> exact ih

/-- The names that exist are those that existed before, and those of the slots allocated. -/
lemma mem_taken_allocateAll (ht : t.slots = []) (calls : List (SlotCall σ)) {name : String} :
    name ∈ (allocateAll S t calls).taken S ↔
      name ∈ t.others ∨ name ∈ allocatedIds S t calls := by
  induction calls using List.reverseRecOn with
  | nil =>
    rw [allocateAll, List.foldl_nil, Target.taken, ht]
    exact (or_iff_left List.not_mem_nil).symm
  | append_singleton calls c ih =>
    rw [allocatedIds_append, List.mem_append, ← or_assoc, ← ih, allocateAll_append, allocate]
    split
    · -- the new slot is filed in the directory of the instance
      have hfiled : [newSlot S c.now c.live (allocateAll S t calls)].filter
          (·.collection == S.layout) = [newSlot S c.now c.live (allocateAll S t calls)] :=
        List.filter_cons_of_pos (beq_self_eq_true S.layout)
      unfold Target.taken
      rw [List.filter_append, hfiled, List.map_append, List.mem_append, List.mem_append,
        List.mem_append]
      exact or_right_comm
    · unfold Target.taken
      rw [← List.append_assoc, List.mem_append]

/-! ## The names -/

section Ids

variable {T : Set Int} {calls : List (SlotCall σ)}

lemma slotBase_allocateAll (hlocal : t.shared = false) (now : Int) :
    slotBase S now (allocateAll S t calls) = S.calendar.compact now := by
  rw [slotBase, shared_allocateAll, hlocal, if_neg Bool.false_ne_true]

lemma candidateId_eq_append (base : String) (n : Nat) :
    candidateId base n = base ++ candidateId "" n := by
  rw [← candidateId_append, String.append_empty]

lemma candidateId_eq_iff {a b : String} (hlength : a.length = b.length) {m n : Nat} :
    candidateId a m = candidateId b n ↔ a = b ∧ m = n := by
  refine ⟨fun h => ?_, fun ⟨ha, hm⟩ => ha ▸ hm ▸ rfl⟩
  have hfront : a = b := by
    have hsplit := h
    rw [candidateId_eq_append a, candidateId_eq_append b] at hsplit
    exact (eq_of_append_eq hlength hsplit).1
  exact ⟨hfront, candidateId_injective b (hfront ▸ h)⟩

/-- A slot has the stamp of its second, and the number of slots before it in that second, if those
have the smaller numbers. -/
lemma newSlotId_allocateAll {c : SlotCall σ} (h : StoreRun S T t (calls ++ [c]))
    (hids : ∀ n, candidateId (S.calendar.compact c.now) n ∈ allocatedIds S t calls ↔
      n < callsInSecond calls c.now) :
    newSlotId S c.now (allocateAll S t calls) =
      candidateId (S.calendar.compact c.now) (callsInSecond calls c.now) := by
  have hfree := h.free c (List.mem_append_right _ List.mem_cons_self)
  rw [newSlotId_eq (m := callsInSecond calls c.now), slotBase_allocateAll h.unshared]
  · intro k hk
    rw [slotBase_allocateAll h.unshared, mem_taken_allocateAll h.empty]
    exact Or.inr ((hids k).mpr hk)
  · rw [slotBase_allocateAll h.unshared, mem_taken_allocateAll h.empty]
    exact not_or.mpr ⟨hfree _, fun hmem => lt_irrefl _ ((hids _).mp hmem)⟩

/-- The names with the stamp of a time have the numbers up to the number of slots in its second. -/
lemma candidateId_mem_allocatedIds (h : StoreRun S T t calls) {now : Int} (hnow : now ∈ T)
    (n : Nat) :
    candidateId (S.calendar.compact now) n ∈ allocatedIds S t calls ↔
      n < callsInSecond calls now := by
  induction calls using List.reverseRecOn generalizing now n with
  | nil => exact iff_of_false List.not_mem_nil (Nat.not_lt_zero n)
  | append_singleton calls c ih =>
    have hc : c.now ∈ T := h.times c (List.mem_append_right _ List.mem_cons_self)
    rw [allocatedIds_append, List.mem_append, List.mem_singleton, ih h.init hnow,
      newSlotId_allocateAll h fun n => ih h.init hc n,
      candidateId_eq_iff (h.stamps.length now hnow c.now hc), callsInSecond_append]
    by_cases hsecond : secondOf c.now = secondOf now
    · rw [if_pos hsecond, callsInSecond_congr calls hsecond,
        and_iff_right (h.stamps.same now hnow c.now hc hsecond.symm)]
      omega
    · have hstamp : S.calendar.compact now ≠ S.calendar.compact c.now := fun hsame =>
        hsecond (h.stamps.secondOf_eq hnow hc hsame).symm
      rw [if_neg hsecond]
      exact or_iff_left fun hsame => hstamp hsame.1

/-- Every name has the stamp of a call. -/
lemma exists_of_mem_allocatedIds (hlocal : t.shared = false) {name : String}
    (h : name ∈ allocatedIds S t calls) :
    ∃ c ∈ calls, ∃ n, name = candidateId (S.calendar.compact c.now) n := by
  induction calls using List.reverseRecOn with
  | nil => exact absurd h List.not_mem_nil
  | append_singleton calls c ih =>
    rw [allocatedIds_append] at h
    rcases List.mem_append.mp h with h | h
    · obtain ⟨d, hd, hname⟩ := ih h
      exact ⟨d, List.mem_append_left _ hd, hname⟩
    · obtain ⟨n, hn⟩ := exists_candidateId (slotBase S c.now (allocateAll S t calls))
        ((allocateAll S t calls).taken S) ((allocateAll S t calls).taken S).length 0
      refine ⟨c, List.mem_append_right _ List.mem_cons_self, n, ?_⟩
      rw [List.mem_singleton.mp h, newSlotId, hn, slotBase_allocateAll hlocal]

/-- Names with one stamp are in the order of numbers of one digit. -/
lemma candidateId_lt (base : String) {m n : Nat} (hn : n < 10) (h : m < n) :
    candidateId base m < candidateId base n := by
  have hpos : n ≠ 0 := Nat.ne_of_gt (Nat.zero_lt_of_lt h)
  rw [candidateId, candidateId, if_neg hpos]
  split
  · rw [String.append_assoc]
    refine Decimal.lt_append base fun hnil => ?_
    rw [String.toList_append] at hnil
    exact Decimal.toList_toString_ne_nil n (List.append_eq_nil_iff.mp hnil).2
  · exact Decimal.append_lt_append_left _ (Decimal.toString_lt_toString hn h)

lemma candidateId_ten_lt (base : String) : candidateId base 10 < candidateId base 2 := by
  rw [candidateId, candidateId, if_neg (by decide), if_neg (by decide)]
  exact Decimal.append_lt_append_left _ (by decide +kernel)

/-- A slot comes after those of the seconds before it, and after those of its own second if it has a
number of one digit. -/
lemma lt_newSlotId {c : SlotCall σ} (h : StoreRun S T t (calls ++ [c]))
    (hfew : callsInSecond calls c.now < 10) {name : String}
    (hname : name ∈ allocatedIds S t calls) :
    name < newSlotId S c.now (allocateAll S t calls) := by
  have hc : c.now ∈ T := h.times c (List.mem_append_right _ List.mem_cons_self)
  obtain ⟨d, hd, n, rfl⟩ := exists_of_mem_allocatedIds h.unshared hname
  have hdT : d.now ∈ T := h.init.times d hd
  have hn := (candidateId_mem_allocatedIds h.init hdT n).mp hname
  rw [newSlotId_allocateAll h fun n => candidateId_mem_allocatedIds h.init hc n]
  have hle : secondOf d.now ≤ secondOf c.now :=
    Int.ediv_le_ediv (by decide)
      ((List.pairwise_append.mp h.clock).2.2 d hd c List.mem_cons_self)
  rcases lt_or_eq_of_le hle with hlt | heq
  · rw [candidateId_eq_append, candidateId_eq_append (S.calendar.compact c.now)]
    exact Decimal.append_lt_append (h.stamps.length d.now hdT c.now hc)
      (h.stamps.later d.now hdT c.now hc hlt) _ _
  · rw [h.stamps.same d.now hdT c.now hc heq]
    rw [callsInSecond_congr calls heq] at hn
    exact candidateId_lt _ hfew hn

/-- The names are increasing if and only if no second has more than ten slots. -/
lemma pairwise_allocatedIds_iff (h : StoreRun S T t calls) :
    (allocatedIds S t calls).Pairwise (· < ·) ↔
      ∀ c ∈ calls, callsInSecond calls c.now ≤ 10 := by
  induction calls using List.reverseRecOn with
  | nil => exact iff_of_true List.Pairwise.nil fun _ h => absurd h List.not_mem_nil
  | append_singleton calls c ih =>
    have hlast : c ∈ calls ++ [c] := List.mem_append_right _ List.mem_cons_self
    have hc : c.now ∈ T := h.times c hlast
    have hmem (n : Nat) := candidateId_mem_allocatedIds h.init hc n
    rw [allocatedIds_append, List.pairwise_append, ih h.init]
    constructor
    · rintro ⟨hbefore, -, hnew⟩
      have hcount : callsInSecond calls c.now ≤ 10 := by
        rcases Nat.eq_zero_or_pos (callsInSecond calls c.now) with hzero | hpos
        · omega
        · obtain ⟨e, he, hsecond⟩ := exists_of_callsInSecond_pos hpos
          exact callsInSecond_congr calls hsecond ▸ hbefore e he
      have hten : callsInSecond calls c.now ≠ 10 := by
        intro hten
        -- the name with the number 2 exists
        have htwo := (hmem 2).mpr (by omega)
        have hlt := hnew _ htwo _ List.mem_cons_self
        rw [newSlotId_allocateAll h hmem, hten] at hlt
        exact lt_asymm hlt (candidateId_ten_lt _)
      intro d hd
      rw [callsInSecond_append]
      split
      · rename_i hsecond
        rw [← callsInSecond_congr calls hsecond]
        omega
      · rename_i hsecond
        rcases List.mem_append.mp hd with hd | hd
        · exact hbefore d hd
        · have hnow : secondOf c.now = secondOf d.now :=
            congrArg (fun e => secondOf (SlotCall.now e)) (List.mem_singleton.mp hd).symm
          exact absurd hnow hsecond
    · intro hall
      have hself := hall c hlast
      rw [callsInSecond_append, if_pos rfl] at hself
      refine ⟨fun d hd => ?_, List.pairwise_singleton _ _, fun name hname name' hname' => ?_⟩
      · have hle := hall d (List.mem_append_left _ hd)
        rw [callsInSecond_append] at hle
        exact (Nat.le_add_right _ _).trans hle
      · rw [List.mem_singleton.mp hname']
        exact lt_newSlotId h (Nat.lt_of_succ_le hself) hname

end Ids

/-! ## The backups -/

/-- The backups are in the order of the names of the slots. -/
lemma slots_allocateAll_sublist (ht : t.slots = []) (calls : List (SlotCall σ)) :
    ((allocateAll S t calls).slots.map Slot.id).Sublist (allocatedIds S t calls) := by
  induction calls using List.reverseRecOn with
  | nil =>
    rw [allocateAll, List.foldl_nil, ht]
    exact List.Sublist.slnil
  | append_singleton calls c ih =>
    rw [allocatedIds_append, allocateAll_append, allocate]
    split
    · rw [List.map_append]
      exact ih.append (List.Sublist.refl _)
    · exact ih.trans (List.sublist_append_left _ _)

/-- Backups that were created in the order of their names are listed the other way round. -/
lemma newestFirst_eq_reverse {slots : List (Slot σ)}
    (h : (slots.map Slot.id).Pairwise (· < ·)) : newestFirst slots = slots.reverse := by
  have hsorted := List.pairwise_map.mp h
  have hreverse : slots.reverse.Pairwise fun a b => b.id ≤ a.id :=
    (List.pairwise_reverse.mpr hsorted).imp le_of_lt
  have hperm : (newestFirst slots).Perm slots.reverse :=
    (List.perm_insertionSort _ slots).trans (List.reverse_perm slots).symm
  refine hperm.eq_of_pairwise (fun a b ha hb hab hba => ?_) (pairwise_newestFirst slots) hreverse
  -- two backups of one name are one
  have hnodup : (slots.map Slot.id).Nodup := h.imp ne_of_lt
  exact List.inj_on_of_nodup_map hnodup (mem_newestFirst.mp ha) (List.mem_reverse.mp hb)
    (le_antisymm hba hab)

/-- The policy that keeps the newest backups. -/
def keepLastOnly (n : Nat) : Retention := ⟨some n, none, none, none, none, none, none⟩

/-- Keeping the first places keeps the first backups. -/
lemma keptFrom_range (n i : Nat) (slots : List (Slot σ)) (keep : List Nat)
    (hkeep : ∀ j, i ≤ j → j < i + slots.length → (j ∈ keep ↔ j < i + n)) :
    keptFrom keep i slots = slots.take n := by
  induction slots generalizing i n with
  | nil => exact (List.take_nil).symm
  | cons s rest ih =>
    have hfirst := hkeep i (Nat.le_refl i) (Nat.lt_add_of_pos_right (Nat.succ_pos _))
    rw [List.length_cons] at hkeep
    cases n with
    | zero =>
      rw [keptFrom, if_neg fun hmem => lt_irrefl i (hfirst.mp hmem), ih 0 (i + 1), List.take_zero,
        List.take_zero]
      intro j hj hjlt
      rw [hkeep j (Nat.le_of_succ_le hj) (by omega)]
      omega
    | succ n =>
      rw [keptFrom, if_pos (hfirst.mpr (Nat.lt_add_of_pos_right (Nat.succ_pos n))),
        ih n (i + 1), List.take_succ_cons]
      intro j hj hjlt
      rw [hkeep j (Nat.le_of_succ_le hj) (by omega)]
      omega

/-- That policy keeps the backups that are listed first. -/
lemma survivors_keepLastOnly (C : Calendar) (n : Nat) (slots : List (Slot σ)) :
    survivors C (keepLastOnly n) slots = (newestFirst slots).take n := by
  have hretained (records : List (Slot σ)) :
      retained C records (keepLastOnly n) = List.range (min records.length n) := by
    simp [retained, keepLastOnly, keptByAxes, Retention.hasCountAxis, keepPerBucket]
  have hbounded : ¬(keepLastOnly n).isUnbounded = true := Bool.false_ne_true
  rw [survivors, if_neg hbounded, hretained]
  refine keptFrom_range n 0 _ _ fun j _ hj => ?_
  rw [List.mem_range]
  omega

/-! ## The order of creation -/

/-- The names of the slots of a run are in the order in which they are created. -/
structure CreationOrder (S : Setup σ) (t : Target σ) (calls : List (SlotCall σ)) : Prop where
  /-- No two slots have one name. -/
  distinct : (allocatedIds S t calls).Nodup
  /-- Each name is after those of the slots before it. -/
  increasing : (allocatedIds S t calls).Pairwise (· < ·)
  /-- `Latest` is the backup that was created last. -/
  latest : (allocateAll S t calls).newest = (allocateAll S t calls).slots.getLast?
  /-- The backups that `keep_last` keeps are those that were created last. -/
  keepLast : ∀ n, survivors S.calendar (keepLastOnly n) (allocateAll S t calls).slots =
    (allocateAll S t calls).slots.reverse.take n

/-- The names of the slots are in the order in which they are created if and only if no second has
more than ten slots. -/
theorem creationOrder_iff {T : Set Int} {calls : List (SlotCall σ)} (h : StoreRun S T t calls) :
    CreationOrder S t calls ↔ ∀ c ∈ calls, callsInSecond calls c.now ≤ 10 := by
  rw [← pairwise_allocatedIds_iff h]
  refine ⟨CreationOrder.increasing, fun hincreasing => ?_⟩
  have hlisted := newestFirst_eq_reverse
    (hincreasing.sublist (slots_allocateAll_sublist h.empty calls))
  refine ⟨hincreasing.imp ne_of_lt, hincreasing, ?_, fun n => ?_⟩
  · rw [Target.newest, hlisted, List.head?_reverse]
  · rw [survivors_keepLastOnly, hlisted]

/-! ## Slots of one second -/

/-- A directory with nothing in it. -/
def emptyTarget : Target Unit := ⟨"disk", false, .default, [], []⟩

/-- Some slots in the first second of 1970. -/
def callsAtOnce (n : Nat) : List (SlotCall Unit) := List.replicate n ⟨0, (), true⟩

/-- The slots of the first second are a run. -/
lemma storeRun_callsAtOnce (n : Nat) :
    StoreRun (hostNamed "thor" "m1") {0} emptyTarget (callsAtOnce n) where
  stamps := by
    refine ⟨fun _ _ _ _ => rfl, fun _ _ _ _ _ => rfl, fun a ha b hb hlt => ?_⟩
    rw [Set.mem_singleton_iff.mp ha, Set.mem_singleton_iff.mp hb] at hlt
    exact absurd hlt (lt_irrefl _)
  times := fun c hc => congrArg SlotCall.now (List.eq_of_mem_replicate hc)
  clock := List.pairwise_replicate.mpr (Or.inr (le_refl _))
  unshared := rfl
  empty := rfl
  free := fun _ _ _ => List.not_mem_nil

/-- Ten slots of one second are in order. -/
theorem creationOrder_ten_at_once :
    CreationOrder (hostNamed "thor" "m1") emptyTarget (callsAtOnce 10) :=
  (creationOrder_iff (storeRun_callsAtOnce 10)).mpr (by decide)

/-- Of eleven slots of one second, the newest that is listed is not the last one. -/
theorem eleventh_slot_is_not_last :
    ¬CreationOrder (hostNamed "thor" "m1") emptyTarget (callsAtOnce 11) ∧
      (allocateAll (hostNamed "thor" "m1") emptyTarget (callsAtOnce 11)).newest.map Slot.id =
        some "19700101-000000-9" :=
  ⟨fun h => absurd h.increasing (by decide +kernel), by decide +kernel⟩

end Orca.Backup
