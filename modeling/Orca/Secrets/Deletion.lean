import Orca.Library.Invariant
import Orca.Secrets.Store

/-!
# Deleting a secret

A secret that was deleted should leave nothing behind: no row of its own, and no value that a secret
made later under the same name could show again.  `delete` removes the record, the grants, the value
before the last one and the restore marker in every case, and the inline value when the record says
that the backend is `inline`.  An earlier `upsert` may have changed the backend while the inline
value stayed, and then the value outlives the secret.

The results are over runs of the operations (`performStore`): a run leaves nothing behind at each of
its deletions exactly if every deletion finds an inline record or no inline value (`Clears`).
-/

namespace Orca.Secrets

open Check Invariant

/-! ## Runs -/

/-- An operation on a secret. -/
inductive StoreAction where
  /-- `upsert`, and `write_inline_value` when the backend is `inline`, in one transaction. -/
  | upsert (name backend refPath : String) (description : Option String) (value now : String)
  | putInlineValue (name value : String)
  | restoreInlineValue (name : String)
  | armExternalRestore (name backend refPath epoch : String)
  | grantChecked (holder name grantedBy now : String)
  | delete (name : String)

/-- The name that an operation is on. -/
def StoreAction.name : StoreAction → String
  | upsert name .. => name
  | putInlineValue name _ => name
  | restoreInlineValue name => name
  | armExternalRestore name .. => name
  | grantChecked _ name .. => name
  | delete name => name

/-- The store after an operation, and the inline values that it wrote. -/
def StoreAction.result (s : SecretStore) :
    StoreAction → Except String (SecretStore × List (String × String))
  | upsert name backend refPath description value now => do
    let row ← Secrets.upsert s name backend refPath description now
    if backend = "inline" then
      let written ← writeInlineValue row.2 name value
      .ok (written, [(name, value)])
    else .ok (row.2, [])
  | putInlineValue name value => do
    let written ← Secrets.putInlineValue s name value
    .ok (written, [(name, value)])
  | restoreInlineValue name => do
    let restored ← Secrets.restoreInlineValue s name
    .ok (restored, [])
  | armExternalRestore name backend refPath epoch => do
    let armed ← Secrets.armExternalRestore s name backend refPath epoch
    .ok (armed, [])
  | grantChecked holder name grantedBy now => do
    let granted ← Secrets.grantChecked s holder name grantedBy now
    .ok (granted.2, [])
  | delete name => do
    let removed ← Secrets.delete s name
    .ok (removed.2, [])

/-- An operation; one that is refused changes nothing. -/
def performStore (s : SecretStore) (a : StoreAction) : SecretStore :=
  match a.result s with
  | .ok (s', _) => s'
  | .error _ => s

/-- The inline values that an operation writes, with their names. -/
def writtenBy (s : SecretStore) (a : StoreAction) : List (String × String) :=
  match a.result s with
  | .ok (_, written) => written
  | .error _ => []

/-- The inline values that a run writes. -/
def writtenAlong (s : SecretStore) : List StoreAction → List (String × String)
  | [] => []
  | a :: actions => writtenBy s a ++ writtenAlong (performStore s a) actions

/-! ## One deletion -/

/-- Nothing is there for a name. -/
def emptyView : SecretView := ⟨none, none, none, none, fun _ => none⟩

/-- A value that a read or a restore of the name would give. -/
def Holds (s : SecretStore) (name value : String) : Prop :=
  (s.view name).value = some value ∨ (s.view name).previous = some value

/-- A deletion finds an inline record or no inline value, when it is let through. -/
def Clears (s : SecretStore) : StoreAction → Prop
  | .delete name => ∀ r, s.secrets name = some r → ensureWriteAllowed s name = .ok () →
      r.backend = "inline" ∨ (s.view name).value = none
  | _ => True

/-- A deletion left nothing behind: nothing is there for the name, every other name is as it was,
and after whatever follows only values written since are there. -/
structure LeavesNothing (s s' : SecretStore) (name : String) (after : List StoreAction) : Prop where
  /-- Nothing is there for the name. -/
  erased : s'.view name = emptyView
  /-- The other names are as they were. -/
  others : ∀ n, ValidName n → n ≠ name → s'.view n = s.view n
  /-- A value that is there later was written later. -/
  forgotten : ∀ v, Holds (after.foldl performStore s') name v → (name, v) ∈ writtenAlong s' after

section Deleting

variable {s s' : SecretStore} {name : String}

lemma delete_eq_true : delete s name = .ok (true, s') ↔
    ensureWriteAllowed s name = .ok () ∧ ∃ r, s.secrets name = some r ∧ s' = forget s name r := by
  unfold delete
  rw [then_ok_iff]
  refine and_congr_right fun _ => ?_
  cases s.secrets name with
  | none => simp
  | some r => simp [eq_comm]

lemma view_forget_eq_empty {r : SecretRecord} :
    (forget s name r).view name = emptyView ↔
      r.backend = "inline" ∨ (s.view name).value = none := by
  rw [view_forget]
  by_cases hinline : r.backend = "inline"
  · simp [hinline, emptyView]
  · simp [hinline, emptyView]

end Deleting

/-! ## What a run keeps -/

section Values

variable {s s' : SecretStore} {a : StoreAction} {written : List (String × String)}

/-- An operation only touches its own name. -/
lemma touches_result (h : a.result s = .ok (s', written)) : Touches a.name s s' := by
  cases a with
  | upsert name backend refPath description value now =>
    obtain ⟨⟨created, row⟩, hrow, h⟩ := chain_ok_iff.mp h
    have htouches := touches_upsert hrow
    split at h
    · obtain ⟨store, hstore, h⟩ := chain_ok_iff.mp h
      cases h
      exact htouches.trans (touches_writeInlineValue hstore)
    · cases h
      exact htouches
  | putInlineValue name value =>
    obtain ⟨store, hstore, h⟩ := chain_ok_iff.mp h
    cases h
    exact touches_putInlineValue hstore
  | restoreInlineValue name =>
    obtain ⟨store, hstore, h⟩ := chain_ok_iff.mp h
    cases h
    exact touches_restoreInlineValue hstore
  | armExternalRestore name backend refPath epoch =>
    obtain ⟨store, hstore, h⟩ := chain_ok_iff.mp h
    cases h
    exact touches_armExternalRestore hstore
  | grantChecked holder name grantedBy now =>
    obtain ⟨⟨granted, store⟩, hstore, h⟩ := chain_ok_iff.mp h
    cases h
    exact touches_grantChecked hstore
  | delete name =>
    obtain ⟨⟨removed, store⟩, hstore, h⟩ := chain_ok_iff.mp h
    cases h
    exact touches_delete hstore

/-- **One operation.**  A value that is there for the name of an operation was there before, or the
operation wrote it. -/
lemma holds_result (h : a.result s = .ok (s', written)) {v : String} (hv : Holds s' a.name v) :
    Holds s a.name v ∨ (a.name, v) ∈ written := by
  unfold Holds at hv
  cases a with
  | upsert name backend refPath description value now =>
    obtain ⟨⟨created, row⟩, hrow, h⟩ := chain_ok_iff.mp h
    obtain ⟨_, hview⟩ := view_upsert hrow
    split at h
    · obtain ⟨store, hstore, h⟩ := chain_ok_iff.mp h
      cases h
      simp only [StoreAction.name, view_writeInlineValue hstore, hview] at hv
      rcases hv with hv | hv
      · cases hv
        exact Or.inr List.mem_cons_self
      · cases hv
    · cases h
      simp only [StoreAction.name, hview, reduceCtorEq, or_false] at hv
      exact Or.inl (Or.inl hv)
  | putInlineValue name value =>
    obtain ⟨store, hstore, h⟩ := chain_ok_iff.mp h
    cases h
    simp only [StoreAction.name, view_putInlineValue hstore] at hv
    rcases hv with hv | hv
    · cases hv
      exact Or.inr List.mem_cons_self
    · exact Or.inl (Or.inl hv)
  | restoreInlineValue name =>
    obtain ⟨store, hstore, h⟩ := chain_ok_iff.mp h
    cases h
    obtain ⟨previous, hprevious, hview⟩ := view_restoreInlineValue hstore
    simp only [StoreAction.name, hview, reduceCtorEq, or_false] at hv
    exact Or.inl (Or.inr (hprevious.trans hv))
  | armExternalRestore name backend refPath epoch =>
    obtain ⟨store, hstore, h⟩ := chain_ok_iff.mp h
    cases h
    simp only [StoreAction.name, view_armExternalRestore hstore] at hv
    exact Or.inl hv
  | grantChecked holder name grantedBy now =>
    obtain ⟨⟨granted, store⟩, hstore, h⟩ := chain_ok_iff.mp h
    cases h
    obtain ⟨grants, hview⟩ := view_grantChecked hstore
    simp only [StoreAction.name, hview] at hv
    exact Or.inl hv
  | delete name =>
    obtain ⟨⟨removed, store⟩, hstore, h⟩ := chain_ok_iff.mp h
    cases h
    obtain ⟨-, hstore⟩ := then_ok_iff.mp hstore
    split at hstore
    · cases hstore
      exact Or.inl hv
    · cases hstore
      simp only [StoreAction.name, view_forget, reduceCtorEq, or_false] at hv
      split at hv
      · cases hv
      · exact Or.inl (Or.inl hv)

/-- **One operation.**  A value that is there for a name after an operation was there before, or the
operation wrote it. -/
lemma holds_performStore {name v : String} (hname : ValidName name) (ha : ValidName a.name)
    (hv : Holds (performStore s a) name v) : Holds s name v ∨ (name, v) ∈ writtenBy s a := by
  unfold performStore at hv
  unfold writtenBy
  cases h : a.result s with
  | error e =>
    rw [h] at hv
    exact Or.inl hv
  | ok result =>
    rw [h] at hv
    by_cases heq : a.name = name
    · subst heq
      exact holds_result h hv
    · -- the operation is on another name
      unfold Holds at hv ⊢
      simp only at hv
      rw [(touches_result h).view_of_ne ha hname (Ne.symm heq)] at hv
      exact Or.inl hv

/-- **A run.**  A value that is there for a name after a run was there before, or it was written. -/
lemma holds_run {name v : String} (hname : ValidName name) {actions : List StoreAction}
    (hactions : ∀ a ∈ actions, ValidName a.name)
    (hv : Holds (actions.foldl performStore s) name v) :
    Holds s name v ∨ (name, v) ∈ writtenAlong s actions := by
  induction actions generalizing s with
  | nil => exact Or.inl hv
  | cons a actions ih =>
    unfold writtenAlong
    rcases ih (fun b hb => hactions b (List.mem_cons_of_mem _ hb)) hv with hv | hwritten
    · rcases holds_performStore hname (hactions a List.mem_cons_self) hv with hv | hwritten
      · exact Or.inl hv
      · exact Or.inr (List.mem_append_left _ hwritten)
    · exact Or.inr (List.mem_append_right _ hwritten)

end Values

/-! ## Deletions in a run -/

/-- **A deleted secret leaves nothing behind.**  In every run on valid names each deletion that
returned true leaves nothing behind, whatever follows it, exactly if each deletion of the run finds
an inline record or no inline value. -/
theorem deleted_secret_leaves_nothing_iff {s : SecretStore} {actions : List StoreAction}
    (hactions : ∀ a ∈ actions, ValidName a.name) :
    (∀ before name after s', before ++ .delete name :: after <+: actions →
      delete (before.foldl performStore s) name = .ok (true, s') →
      LeavesNothing (before.foldl performStore s) s' name after) ↔
      Along performStore Clears s actions := by
  constructor
  · intro hleaves
    refine along_of_forall fun before a hinitial => ?_
    cases a with
    | delete name =>
      intro r hr hallowed
      have hdelete := delete_eq_true.mpr ⟨hallowed, r, hr, rfl⟩
      exact view_forget_eq_empty.mp (hleaves before name [] _ hinitial hdelete).erased
    | upsert name backend refPath description value now => trivial
    | putInlineValue name value => trivial
    | restoreInlineValue name => trivial
    | armExternalRestore name backend refPath epoch => trivial
    | grantChecked holder name grantedBy now => trivial
  · intro hclears before name after s' hinitial hdelete
    obtain ⟨hallowed, r, hr, rfl⟩ := delete_eq_true.mp hdelete
    have hvalid : ∀ a ∈ before ++ .delete name :: after, ValidName a.name := fun a ha =>
      hactions a (hinitial.subset ha)
    have hname : ValidName name :=
      hvalid (.delete name) (List.mem_append_right _ List.mem_cons_self)
    have hcleared := (along_of_append (along_of_initial hclears hinitial)).1 r hr hallowed
    have herased := view_forget_eq_empty.mpr hcleared
    refine ⟨herased, fun n hn hne => (touches_forget _ name r).view_of_ne hname hn hne, ?_⟩
    intro v hv
    refine (holds_run hname (fun a ha => hvalid a ?_) hv).resolve_left fun hold => ?_
    · exact List.mem_append_right _ (List.mem_cons_of_mem _ ha)
    · unfold Holds at hold
      rw [herased] at hold
      rcases hold with hold | hold
      · cases hold
      · cases hold

/-- A store with nothing in it, on a host that is in no mesh. -/
def noSecrets : SecretStore := ⟨fun _ => none, fun _ => none, fun _ _ => none, none, fun _ => false⟩

/-- An inline secret is deleted, and made again. -/
def deletedInline : List StoreAction :=
  [.upsert "k" "inline" "" none "a" "t0", .delete "k", .upsert "k" "inline" "" none "b" "t1"]

/-- The deletion of an inline secret leaves nothing behind. -/
theorem deleted_secret_leaves_nothing_inline :
    ∃ s', delete (performStore noSecrets (.upsert "k" "inline" "" none "a" "t0")) "k" =
        .ok (true, s') ∧
      LeavesNothing (performStore noSecrets (.upsert "k" "inline" "" none "a" "t0")) s' "k"
        [.upsert "k" "inline" "" none "b" "t1"] := by
  have hvalid : ∀ a ∈ deletedInline, ValidName a.name := by decide +kernel
  have hclears : Along performStore Clears noSecrets deletedInline := by
    refine ⟨trivial, fun r hr _ => Or.inl ?_, trivial, trivial⟩
    have hrecord : (performStore noSecrets (.upsert "k" "inline" "" none "a" "t0")).secrets "k" =
        some ⟨"inline", "", none, "t0", "t0"⟩ := by decide +kernel
    rw [hrecord] at hr
    cases hr
    rfl
  have hdelete : ∃ s', delete (performStore noSecrets (.upsert "k" "inline" "" none "a" "t0")) "k" =
      .ok (true, s') :=
    ⟨_, delete_eq_true.mpr ⟨rfl, ⟨"inline", "", none, "t0", "t0"⟩, by decide +kernel, rfl⟩⟩
  obtain ⟨s', hs'⟩ := hdelete
  exact ⟨s', hs', (deleted_secret_leaves_nothing_iff hvalid).mpr hclears
    [.upsert "k" "inline" "" none "a" "t0"] "k" _ s' List.prefix_rfl hs'⟩

/-- The inline value of a secret that was moved to another backend outlives its deletion: it is
still there, and a restore brings it back after the secret was made again. -/
theorem deleted_secret_leaves_inline_value :
    let moved := [StoreAction.upsert "k" "inline" "" none "a" "t0",
      .upsert "k" "op" "op://vault/k" none "" "t1"].foldl performStore noSecrets
    let again := [StoreAction.upsert "k" "op" "op://vault/k" none "" "t2", .putInlineValue "k" "b",
      .restoreInlineValue "k"]
    ∃ s', delete moved "k" = .ok (true, s') ∧ (s'.view "k").value = some "a" ∧
      ((again.foldl performStore s').view "k").value = some "a" ∧
      writtenAlong s' again = [("k", "b")] := by
  refine ⟨_, delete_eq_true.mpr ⟨rfl, ⟨"op", "op://vault/k", none, "t0", "t1"⟩, by decide +kernel,
    rfl⟩, ?_, ?_, ?_⟩
  · decide +kernel
  · decide +kernel
  · decide +kernel

end Orca.Secrets
