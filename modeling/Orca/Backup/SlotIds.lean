import Orca.Backup.Sync

/-!
# The names of slots in a shared pool

Where several hosts write to one pool, the name of a slot is the stamp, the name of the host,
reduced to what a path may hold, and a number if the name exists.  The stamp has the same length at
all times, but the name of the host and the number are separated as the parts of a host name are.

`shared_ids_differ_iff` says for which hosts the names never collide: neither reduced name is the
other one, nor the other one with a number after it.
-/

namespace Orca.Backup

variable {σ : Type}

/-! ## The name that is found -/

/-- The name that is found is one that is tried. -/
lemma exists_candidateId (base : String) (taken : List String) (fuel n : Nat) :
    ∃ k, disambiguate base taken fuel n = candidateId base k := by
  induction fuel generalizing n with
  | zero => exact ⟨n, rfl⟩
  | succ fuel ih =>
    unfold disambiguate
    split
    · exact ih (n + 1)
    · exact ⟨n, rfl⟩

/-- The name that is found is the first one that is free. -/
lemma disambiguate_eq {base : String} {taken : List String} {fuel n m : Nat} (hfuel : m ≤ fuel)
    (htaken : ∀ k < m, candidateId base (n + k) ∈ taken)
    (hfree : candidateId base (n + m) ∉ taken) :
    disambiguate base taken fuel n = candidateId base (n + m) := by
  induction fuel generalizing n m with
  | zero =>
    rw [Nat.le_zero.mp hfuel]
    rfl
  | succ fuel ih =>
    unfold disambiguate
    cases m with
    | zero => exact if_neg hfree
    | succ m =>
      have hfirst : candidateId base n ∈ taken := htaken 0 (Nat.succ_pos m)
      rw [if_pos hfirst, Nat.add_comm m 1, ← Nat.add_assoc]
      refine ih (Nat.le_of_succ_le_succ hfuel) (fun k hk => ?_) ?_
      · rw [Nat.add_assoc, Nat.add_comm 1 k]
        exact htaken (k + 1) (Nat.succ_lt_succ hk)
      · rwa [Nat.add_assoc, Nat.add_comm 1 m]

lemma newSlotId_eq {S : Setup σ} {now : Int} {t : Target σ} {m : Nat}
    (htaken : ∀ k < m, candidateId (slotBase S now t) k ∈ t.taken S)
    (hfree : candidateId (slotBase S now t) m ∉ t.taken S) :
    newSlotId S now t = candidateId (slotBase S now t) m := by
  have heq := disambiguate_eq (n := 0) (m := m) (le_length_of_candidates htaken)
    (by simpa only [Nat.zero_add] using htaken) (by rwa [Nat.zero_add])
  rwa [Nat.zero_add] at heq

/-! ## Names after a stamp -/

lemma eq_of_append_eq {a b c d : String} (hlength : a.length = b.length) (h : a ++ c = b ++ d) :
    a = b ∧ c = d := by
  have hchars := congrArg String.toList h
  rw [String.toList_append, String.toList_append] at hchars
  rw [← String.length_toList, ← String.length_toList] at hlength
  obtain ⟨ha, hc⟩ := List.append_inj hchars hlength
  exact ⟨String.toList_inj.mp ha, String.toList_inj.mp hc⟩

lemma candidateId_append (a b : String) (n : Nat) :
    candidateId (a ++ b) n = a ++ candidateId b n := by
  unfold candidateId
  split
  · rfl
  · simp only [String.append_assoc]

/-! ## Two hosts -/

/-- Neither name is the other one, or the other one with a number. -/
def SegmentsApart (a b : String) : Prop := ∀ n, a ≠ candidateId b n ∧ b ≠ candidateId a n

/-- Two names with numbers differ if and only if neither is the other one with a number. -/
lemma segmentsApart_iff {a b : String} :
    SegmentsApart a b ↔ ∀ m n, candidateId a m ≠ candidateId b n := by
  constructor
  · intro hapart m n h
    by_cases hm : m = 0
    · subst hm
      exact (hapart n).1 h
    · by_cases hn : n = 0
      · subst hn
        exact (hapart m).2 h.symm
      · rw [candidateId, if_neg hm, candidateId, if_neg hn] at h
        exact (hapart 0).1 (Decimal.eq_of_append_hyphen h).1
  · intro hdiffer n
    exact ⟨hdiffer 0 n, fun h => hdiffer n 0 h.symm⟩

/-- The setup of another host that files the same backups. -/
def Setup.onHost (S : Setup σ) (w : BackupWriter) : Setup σ := { S with me := w }

/-- A shared target on which the given names exist. -/
def sharedTarget (others : List String) : Target σ := ⟨"nas", true, .default, [], others⟩

/-- A new slot gets any number, if the names before it exist. -/
lemma newSlotId_sharedTarget (S : Setup σ) (now : Int) (n : Nat) :
    newSlotId S now (sharedTarget ((List.range n).map
      (candidateId (S.calendar.compact now ++ "-" ++ idHostSegment S.me.host)))) =
      candidateId (S.calendar.compact now ++ "-" ++ idHostSegment S.me.host) n := by
  refine newSlotId_eq (fun k hk => ?_) fun hmem => ?_
  · exact List.mem_map_of_mem (List.mem_range.mpr hk)
  · obtain ⟨k, hk, heq⟩ := List.mem_map.mp hmem
    rw [candidateId_injective _ heq] at hk
    exact absurd (List.mem_range.mp hk) (lt_irrefl n)

/-- Two hosts never give two slots of a shared pool one name, whatever they see of it and whenever
they write, if and only if neither of their reduced names is the other one, or the other one with a
number. -/
theorem shared_ids_differ_iff (S : Setup σ) (w : BackupWriter) {T : Set Int} (hT : T.Nonempty)
    (hstamps : ∀ a ∈ T, ∀ b ∈ T,
      (S.calendar.compact a).length = (S.calendar.compact b).length) :
    (∀ now₁ ∈ T, ∀ now₂ ∈ T, ∀ t₁ t₂ : Target σ, t₁.shared = true → t₂.shared = true →
        newSlotId S now₁ t₁ ≠ newSlotId (S.onHost w) now₂ t₂) ↔
      SegmentsApart (idHostSegment S.me.host) (idHostSegment w.host) := by
  rw [segmentsApart_iff]
  constructor
  · intro hdiffer m n h
    obtain ⟨now, hnow⟩ := hT
    refine hdiffer now hnow now hnow _ _ rfl rfl
      ((newSlotId_sharedTarget S now m).trans (Eq.trans ?_
        (newSlotId_sharedTarget (S.onHost w) now n).symm))
    rw [candidateId_append, candidateId_append, h]
    rfl
  · intro hsegments now₁ hnow₁ now₂ hnow₂ t₁ t₂ hshared₁ hshared₂ h
    obtain ⟨m, hm⟩ := exists_candidateId (slotBase S now₁ t₁) (t₁.taken S) (t₁.taken S).length 0
    obtain ⟨n, hn⟩ := exists_candidateId (slotBase (S.onHost w) now₂ t₂)
      (t₂.taken (S.onHost w)) (t₂.taken (S.onHost w)).length 0
    rw [newSlotId, newSlotId, hm, hn, slotBase, if_pos hshared₁, slotBase, if_pos hshared₂,
      candidateId_append, candidateId_append, String.append_assoc, String.append_assoc] at h
    -- the stamps are as long as each other, and so are the hyphens
    obtain ⟨-, hrest⟩ := eq_of_append_eq (hstamps now₁ hnow₁ now₂ hnow₂) h
    exact hsegments m n (eq_of_append_eq rfl hrest).2

/-! ## Two hosts with one name -/

/-- The calendar in the first second of 1970. -/
def firstSecond : Calendar where
  inRange := fun _ => true
  compact := fun _ => "19700101-000000"
  hourBucket := fun _ => "1970-01-01-00"
  date := fun _ => "1970-01-01"
  isoWeekBucket := fun _ => "1970-W01"
  monthBucket := fun _ => "1970-01"
  yearBucket := fun _ => "1970"

/-- A host that backs itself up in the first second of 1970. -/
def hostNamed (name machineId : String) : Setup Unit :=
  ⟨firstSecond, ⟨name, machineId⟩, "host", "thor", ["hosts", "thor"], fun _ => 1⟩

/-- Two hosts whose reduced names differ in the first letter give their first slots different
names. -/
theorem shared_ids_differ_thor_loki :
    newSlotId (hostNamed "thor" "m1") 0 (sharedTarget []) ≠
      newSlotId ((hostNamed "thor" "m1").onHost ⟨"loki", "m2"⟩) 0 (sharedTarget []) := by
  have hthor : idHostSegment (hostNamed "thor" "m1").me.host = "thor" := by decide +kernel
  have hloki : idHostSegment (BackupWriter.mk "loki" "m2").host = "loki" := by decide +kernel
  have hfirst (a b : String) (n : Nat) (h : a = candidateId b n) (hb : b ≠ "") :
      a.toList.head? = b.toList.head? := by
    obtain ⟨c, rest, hc⟩ : ∃ c rest, b.toList = c :: rest :=
      List.exists_cons_of_ne_nil fun hnil => hb (String.toList_eq_nil_iff.mp hnil)
    rw [h, candidateId]
    split
    · rfl
    · rw [String.toList_append, String.toList_append, hc]
      rfl
  have hapart : SegmentsApart (idHostSegment (hostNamed "thor" "m1").me.host)
      (idHostSegment (BackupWriter.mk "loki" "m2").host) := by
    rw [hthor, hloki]
    intro n
    exact ⟨fun h => absurd (hfirst _ _ n h (by decide)) (by decide),
      fun h => absurd (hfirst _ _ n h (by decide)) (by decide)⟩
  -- in the first second, in which all stamps are the same
  have hsecond : {ms : Int | 0 ≤ ms ∧ ms < 1000}.Nonempty := ⟨0, by decide, by decide⟩
  exact (shared_ids_differ_iff (hostNamed "thor" "m1") ⟨"loki", "m2"⟩ hsecond
    fun _ _ _ _ => rfl).mpr hapart 0 (by decide) 0 (by decide) _ _ rfl rfl

/-- Two hosts whose names differ in a case and a dot give their first slots one name. -/
theorem shared_ids_collide :
    (hostNamed "Bragi.local" "m1").me.sameHost ⟨"bragi-local", "m2"⟩ = false ∧
      newSlotId (hostNamed "Bragi.local" "m1") 0 (sharedTarget []) =
        newSlotId ((hostNamed "Bragi.local" "m1").onHost ⟨"bragi-local", "m2"⟩) 0
          (sharedTarget []) := by
  decide +kernel

end Orca.Backup
