import Mathlib.Logic.Function.Basic
import Orca.Data.Text
import Orca.Library.Check

/-!
# The store of secrets

A secret is a row of the table `secrets` under its name.  The value of an `inline` secret, the value
before it and the marker of an armed restore are rows of `settings` under keys made from the name
(`valueKey`, `previousKey`, `restoreKey`), and the plugins that may read it have rows in
`secret_grants`.  `SecretStore` has these tables, and the two that gate a write: the tier of this
member and the enabled plugins.

A `view` is all that the store has for one name.  The keys of two valid names are apart, so that an
operation on a name leaves the view of every other name as it was (`Touches`).
-/

namespace Orca.Secrets

open Check

/-! ## Names -/

/-- No two dashes follow each other. -/
def hasDoubleDash : List Char → Bool
  | '-' :: '-' :: _ => true
  | _ :: rest => hasDoubleDash rest
  | [] => false

/-- `is_valid_plugin_id`: the grammar of a plugin id. -/
def isValidPluginId (id : String) : Bool :=
  decide (id.utf8ByteSize ≤ 64) && id.toList.head?.any Char.isLower &&
    id.toList.all (fun c => c == '-' || c.isLower || c.isDigit) &&
    id.toList.getLast? != some '-' && !hasDoubleDash id.toList

/-- `validate_principal`, as a test. -/
def validPrincipal (plugin : String) : Bool := isValidPluginId plugin

/-- `RESERVED_PLUGIN_IDS`. -/
def reservedPluginIds : List String :=
  ["orca", "core", "system", "auth", "secret", "secrets", "mesh", "model", "notify", "plugin", "db",
    "github", "github_token", "anthropic", "anthropic_api_key", "release_source_api", "ui"]

/-- `is_reserved_plugin_id`. -/
def isReservedPluginId (id : String) : Bool := reservedPluginIds.contains id

/-- `in_namespace`: the name is the plugin id, or starts with it and a dot. -/
def inNamespace (name plugin : String) : Bool :=
  name == plugin ||
    (plugin.toList.isPrefixOf? name.toList).any fun rest => rest.head? == some '.'

/-- The characters of a secret name. -/
def isNameChar (c : Char) : Bool := c.isAlphanum || c == '.' || c == '_' || c == '-'

/-- `ensure_valid_name`. -/
def ensureValidName (name : String) : Except String Unit :=
  ensure (!(name.toList.isEmpty || !name.toList.all isNameChar))
    ("invalid secret name '" ++ name ++ "': use only A-Z a-z 0-9 . _ -")

/-! ## Tables -/

/-- `SecretRecord`: a row of `secrets`, under its name. -/
structure SecretRecord where
  backend : String
  refPath : String
  description : Option String
  createdAt : String
  updatedAt : String
  deriving DecidableEq

/-- `SecretGrant`: a row of `secret_grants`, under its holder and its secret. -/
structure SecretGrant where
  grantedBy : String
  createdAt : String
  deriving DecidableEq

/-- The tables that the operations on secrets read and write. -/
structure SecretStore where
  /-- `secrets`, by name. -/
  secrets : String → Option SecretRecord
  /-- `settings`, by key. -/
  settings : String → Option String
  /-- `secret_grants`, by holder and secret name. -/
  grants : String → String → Option SecretGrant
  /-- The column `secure` of `mesh_self`, when this member is in a mesh. -/
  tier : Option Int
  /-- The enabled rows of `plugins`. -/
  enabled : String → Bool

/-- The key of the inline value of a secret. -/
def valueKey (name : String) : String := "secrets." ++ name

/-- The key of the value before it. -/
def previousKey (name : String) : String := "secrets." ++ name ++ "#previous"

/-- The key of the marker of an armed restore. -/
def restoreKey (name : String) : String := "secrets." ++ name ++ "#restore"

/-- `settings::set` and `settings::delete`: the row of a key is replaced or deleted. -/
def SecretStore.put (s : SecretStore) (key : String) (value : Option String) : SecretStore :=
  { s with settings := Function.update s.settings key value }

/-! ## Operations -/

/-- `str::split_once`. -/
def splitOnce (c : Char) : List Char → Option (List Char × List Char)
  | [] => none
  | d :: rest =>
    if d = c then some ([], rest) else (splitOnce c rest).map fun parts => (d :: parts.1, parts.2)

/-- `owned_by_this_member`: the secret of a plugin that is enabled here. -/
def ownedByThisMember (s : SecretStore) (name : String) : Bool :=
  match splitOnce '.' name.toList with
  | none => false
  | some (plugin, rest) =>
    !(rest.isEmpty || !validPrincipal (String.ofList plugin) ||
      isReservedPluginId (String.ofList plugin)) && s.enabled (String.ofList plugin)

/-- `ensure_write_allowed`: an insecure member only holds the secrets of its own plugins. -/
def ensureWriteAllowed (s : SecretStore) (name : String) : Except String Unit :=
  ensure (s.tier.all (fun t => t == 1) || ownedByThisMember s name)
    ("secret '" ++ name ++ "' is not owned by this member: an insecure member holds only " ++
      "secrets for plugins installed on it; promote it to secure from a secure member " ++
      "(`orca system mesh tier update --action promote --id <this-member>`) " ++
      "to hold other members' secrets")

/-- `clear_restore_state`. -/
def clearRestoreState (s : SecretStore) (name : String) : SecretStore :=
  (s.put (previousKey name) none).put (restoreKey name) none

/-- `upsert`: the row of a secret is written; the result says whether it was made. -/
def upsert (s : SecretStore) (name backend refPath : String) (description : Option String)
    (now : String) : Except String (Bool × SecretStore) := do
  ensureWriteAllowed s name
  ensureValidName name
  let row : SecretRecord := ⟨backend, refPath, description,
    ((s.secrets name).map SecretRecord.createdAt).getD now, now⟩
  .ok ((s.secrets name).isNone,
    clearRestoreState { s with secrets := Function.update s.secrets name (some row) } name)

/-- `write_inline_value`. -/
def writeInlineValue (s : SecretStore) (name value : String) : Except String SecretStore := do
  ensureWriteAllowed s name
  .ok (s.put (valueKey name) (some value))

/-- The rows of a secret go; its inline value goes when its record says that it has one. -/
def forget (s : SecretStore) (name : String) (r : SecretRecord) : SecretStore :=
  let rows := { s with
    secrets := Function.update s.secrets name none
    grants := fun holder n => if n = name then none else s.grants holder n }
  clearRestoreState (if r.backend = "inline" then rows.put (valueKey name) none else rows) name

/-- `delete`: the result says whether there was a row. -/
def delete (s : SecretStore) (name : String) : Except String (Bool × SecretStore) := do
  ensureWriteAllowed s name
  match s.secrets name with
  | none => .ok (false, s)
  | some r => .ok (true, forget s name r)

/-- `put_inline_value`: a value is replaced, and the one before it is kept. -/
def putInlineValue (s : SecretStore) (name value : String) : Except String SecretStore := do
  ensureWriteAllowed s name
  .ok ((s.put (previousKey name) (s.settings (valueKey name))).put (valueKey name) (some value))

/-- `restore_inline_value`: the value before the last one is put back. -/
def restoreInlineValue (s : SecretStore) (name : String) : Except String SecretStore := do
  ensureWriteAllowed s name
  let previous ← required (s.settings (previousKey name))
    ("inline secret '" ++ name ++ "' has no previous value")
  .ok ((s.put (previousKey name) none).put (valueKey name) (some previous))

/-- `restore_marker`. -/
def restoreMarker (backend refPath epoch : String) : String :=
  backend ++ "\n" ++ refPath ++ "\n" ++ epoch

/-- `arm_external_restore`, for a record with the backend and the address. -/
def armExternalRestore (s : SecretStore) (name backend refPath epoch : String) :
    Except String SecretStore := do
  ensureWriteAllowed s name
  .ok (s.put (restoreKey name) (some (restoreMarker backend refPath epoch)))

/-- `char::is_control`: the Unicode category `Cc`. -/
def isControl (c : Char) : Bool :=
  c.toNat ≤ 0x1F || (0x7F ≤ c.toNat && c.toNat ≤ 0x9F)

/-- A character that the name in a grant may not have. -/
def isPatternChar (c : Char) : Bool :=
  ['*', '?', '%', '[', ']'].contains c || isWhitespace c || isControl c

/-- `grant`: a row that is there stays as it is. -/
def grant (s : SecretStore) (holder secretName grantedBy now : String) : Bool × SecretStore :=
  if (s.grants holder secretName).isSome then (false, s)
  else
    let rows := fun h n =>
      if h = holder ∧ n = secretName then some ⟨grantedBy, now⟩ else s.grants h n
    (true, { s with grants := rows })

/-- `grant_checked`: the holder may read one secret that is there and not its own. -/
def grantChecked (s : SecretStore) (holder secretName grantedBy now : String) :
    Except String (Bool × SecretStore) := do
  ensure (validPrincipal holder) ("invalid holder plugin id '" ++ holder ++ "'")
  ensure (!(secretName.toList.isEmpty || secretName.toList.any isPatternChar))
    ("invalid secret name '" ++ secretName ++ "': grants name one exact secret")
  ensure (!inNamespace secretName holder)
    ("'" ++ holder ++ "' already owns '" ++ secretName ++ "'; a grant would be redundant")
  ensure (s.secrets secretName).isSome ("secret '" ++ secretName ++ "' does not exist")
  .ok (grant s holder secretName grantedBy now)

/-! ## Keys -/

/-- A name as `ensure_valid_name` takes it. -/
def ValidName (name : String) : Prop := ensureValidName name = .ok ()

instance (name : String) : Decidable (ValidName name) :=
  inferInstanceAs (Decidable (ensureValidName name = .ok ()))

section Keys

variable {n m : String}

lemma ValidName.hash_not_mem (h : ValidName n) : '#' ∉ n.toList := by
  intro hmem
  have hall := ensure_eq_ok.mp h
  simp only [Bool.not_eq_true', Bool.or_eq_false_iff, Bool.not_eq_false'] at hall
  exact absurd (List.all_eq_true.mp hall.2 '#' hmem) (by decide)

/-- A key of the name `n` is none of the keys of `m`, when neither name is made from the other. -/
lemma keys_apart (hn : '#' ∉ n.toList) (hne : n ≠ m) (hprevious : m ≠ n ++ "#previous")
    (hrestore : m ≠ n ++ "#restore") {key : String}
    (hkey : key ∈ [valueKey n, previousKey n, restoreKey n]) :
    key ∉ [valueKey m, previousKey m, restoreKey m] := by
  have hhash : ∀ tail : List Char, n.toList ≠ m.toList ++ '#' :: tail := by
    intro tail heq
    rw [heq] at hn
    exact hn (List.mem_append_right _ List.mem_cons_self)
  have hdiff : n.toList ≠ m.toList := fun heq => hne (String.toList_inj.mp heq)
  have hp : m.toList ≠ n.toList ++ "#previous".toList := fun heq =>
    hprevious (String.toList_inj.mp (by rw [heq, String.toList_append]))
  have hr : m.toList ≠ n.toList ++ "#restore".toList := fun heq =>
    hrestore (String.toList_inj.mp (by rw [heq, String.toList_append]))
  have hends : ∀ a b : List Char, a ++ "#previous".toList ≠ b ++ "#restore".toList := by
    intro a b heq
    have hlast := congrArg List.getLast? heq
    simp at hlast
  simp only [List.mem_cons, List.not_mem_nil, or_false, not_or] at hkey ⊢
  simp only [← String.toList_inj, valueKey, previousKey, restoreKey, String.toList_append,
    List.append_assoc] at hkey ⊢
  rcases hkey with hkey | hkey | hkey
  · rw [hkey]
    refine ⟨fun h => hdiff (List.append_cancel_left h),
      fun h => hhash _ (List.append_cancel_left h), fun h => hhash _ (List.append_cancel_left h)⟩
  · rw [hkey]
    refine ⟨fun h => hp (List.append_cancel_left h).symm, fun h => hdiff ?_,
      fun h => hends _ _ (List.append_cancel_left h)⟩
    exact List.append_cancel_right (List.append_cancel_left h)
  · rw [hkey]
    refine ⟨fun h => hr (List.append_cancel_left h).symm,
      fun h => hends _ _ (List.append_cancel_left h).symm, fun h => hdiff ?_⟩
    exact List.append_cancel_right (List.append_cancel_left h)

/-- The keys of two valid names are apart. -/
lemma ValidName.keys_apart (hn : ValidName n) (hm : ValidName m) (hne : n ≠ m) {key : String}
    (hkey : key ∈ [valueKey n, previousKey n, restoreKey n]) :
    key ∉ [valueKey m, previousKey m, restoreKey m] := by
  have hhash : ∀ tail : String, '#' ∈ tail.toList → m ≠ n ++ tail := by
    intro tail htail heq
    refine hm.hash_not_mem ?_
    rw [heq, String.toList_append]
    exact List.mem_append_right _ htail
  exact Secrets.keys_apart hn.hash_not_mem hne (hhash _ (by simp)) (hhash _ (by simp)) hkey

lemma keys_distinct (name : String) : valueKey name ≠ previousKey name ∧
    valueKey name ≠ restoreKey name ∧ previousKey name ≠ restoreKey name := by
  simp only [ne_eq, ← String.toList_inj, valueKey, previousKey, restoreKey, String.toList_append]
  simp

end Keys

/-! ## What an operation touches -/

/-- All that a store has for one name. -/
@[ext]
structure SecretView where
  record : Option SecretRecord
  value : Option String
  previous : Option String
  /-- The marker of an armed restore. -/
  marker : Option String
  grants : String → Option SecretGrant

/-- What a store has for a name. -/
def SecretStore.view (s : SecretStore) (name : String) : SecretView where
  record := s.secrets name
  value := s.settings (valueKey name)
  previous := s.settings (previousKey name)
  marker := s.settings (restoreKey name)
  grants := fun holder => s.grants holder name

/-- Writing the inline value of a name. -/
@[simp] lemma view_put_value (s : SecretStore) (name : String) (v : Option String) :
    (s.put (valueKey name) v).view name = { s.view name with value := v } := by
  obtain ⟨hvp, hvr, -⟩ := keys_distinct name
  simp [SecretStore.view, SecretStore.put, Function.update_of_ne hvp.symm,
    Function.update_of_ne hvr.symm]

/-- Writing the value before it. -/
@[simp] lemma view_put_previous (s : SecretStore) (name : String) (v : Option String) :
    (s.put (previousKey name) v).view name = { s.view name with previous := v } := by
  obtain ⟨hvp, -, hpr⟩ := keys_distinct name
  simp [SecretStore.view, SecretStore.put, Function.update_of_ne hvp,
    Function.update_of_ne hpr.symm]

/-- Writing the restore marker. -/
@[simp] lemma view_put_restore (s : SecretStore) (name : String) (v : Option String) :
    (s.put (restoreKey name) v).view name = { s.view name with marker := v } := by
  obtain ⟨-, hvr, hpr⟩ := keys_distinct name
  simp [SecretStore.view, SecretStore.put, Function.update_of_ne hvr, Function.update_of_ne hpr]

/-- Clearing the restore state. -/
@[simp] lemma view_clearRestoreState (s : SecretStore) (name : String) :
    (clearRestoreState s name).view name =
      { s.view name with previous := none, marker := none } := by
  simp [clearRestoreState]

section Views

variable {s s' : SecretStore} {name : String}

/-- After an upsert. -/
lemma view_upsert {backend refPath now : String} {description : Option String} {created : Bool}
    (h : upsert s name backend refPath description now = .ok (created, s')) :
    ∃ row, s'.view name =
      { s.view name with record := some row, previous := none, marker := none } := by
  obtain ⟨-, h⟩ := then_ok_iff.mp h
  obtain ⟨-, h⟩ := then_ok_iff.mp h
  cases h
  rw [view_clearRestoreState]
  simp only [SecretStore.view, Function.update_self]
  exact ⟨_, rfl⟩

lemma view_writeInlineValue {value : String} (h : writeInlineValue s name value = .ok s') :
    s'.view name = { s.view name with value := some value } := by
  obtain ⟨-, h⟩ := then_ok_iff.mp h
  cases h
  exact view_put_value s name _

lemma view_putInlineValue {value : String} (h : putInlineValue s name value = .ok s') :
    s'.view name = { s.view name with
      value := some value
      previous := (s.view name).value } := by
  obtain ⟨-, h⟩ := then_ok_iff.mp h
  cases h
  rw [view_put_value, view_put_previous]
  rfl

/-- After a restore. -/
lemma view_restoreInlineValue (h : restoreInlineValue s name = .ok s') :
    ∃ previous, (s.view name).previous = some previous ∧
      s'.view name = { s.view name with
        value := some previous
        previous := none } := by
  obtain ⟨-, h⟩ := then_ok_iff.mp h
  obtain ⟨previous, hprevious, h⟩ := chain_ok_iff.mp h
  cases h
  rw [view_put_value, view_put_previous]
  exact ⟨previous, required_eq_ok.mp hprevious, rfl⟩

lemma view_armExternalRestore {backend refPath epoch : String}
    (h : armExternalRestore s name backend refPath epoch = .ok s') :
    s'.view name = { s.view name with marker := some (restoreMarker backend refPath epoch) } := by
  obtain ⟨-, h⟩ := then_ok_iff.mp h
  cases h
  exact view_put_restore s name _

/-- After a grant. -/
lemma view_grantChecked {holder grantedBy now : String} {granted : Bool}
    (h : grantChecked s holder name grantedBy now = .ok (granted, s')) :
    ∃ grants, s'.view name = { s.view name with grants := grants } := by
  obtain ⟨-, h⟩ := then_ok_iff.mp h
  obtain ⟨-, h⟩ := then_ok_iff.mp h
  obtain ⟨-, h⟩ := then_ok_iff.mp h
  obtain ⟨-, h⟩ := then_ok_iff.mp h
  unfold grant at h
  split at h
  · cases h
    exact ⟨_, rfl⟩
  · cases h
    exact ⟨_, rfl⟩

/-- After the rows of a secret went. -/
lemma view_forget (s : SecretStore) (name : String) (r : SecretRecord) :
    (forget s name r).view name = ⟨none,
      if r.backend = "inline" then none else (s.view name).value, none, none, fun _ => none⟩ := by
  unfold forget
  rw [view_clearRestoreState]
  split
  · rw [view_put_value]
    simp [SecretStore.view]
  · simp [SecretStore.view]

end Views

/-- Two stores differ at most in the rows of one name. -/
structure Touches (name : String) (s s' : SecretStore) : Prop where
  /-- The other records are as they were. -/
  secrets : ∀ n, n ≠ name → s'.secrets n = s.secrets n
  /-- The other settings are as they were. -/
  settings : ∀ key, key ∉ [valueKey name, previousKey name, restoreKey name] →
    s'.settings key = s.settings key
  /-- The other grants are as they were. -/
  grants : ∀ holder n, n ≠ name → s'.grants holder n = s.grants holder n
  tier : s'.tier = s.tier
  /-- The plugins are as they were. -/
  enabled : s'.enabled = s.enabled

section Touching

variable {name : String} {s s' s'' : SecretStore}

lemma Touches.refl (name : String) (s : SecretStore) : Touches name s s :=
  ⟨fun _ _ => rfl, fun _ _ => rfl, fun _ _ _ => rfl, rfl, rfl⟩

lemma Touches.trans (h : Touches name s s') (h' : Touches name s' s'') : Touches name s s'' :=
  ⟨fun n hn => (h'.secrets n hn).trans (h.secrets n hn),
    fun key hkey => (h'.settings key hkey).trans (h.settings key hkey),
    fun holder n hn => (h'.grants holder n hn).trans (h.grants holder n hn),
    h'.tier.trans h.tier, h'.enabled.trans h.enabled⟩

lemma touches_put {key : String} (hkey : key ∈ [valueKey name, previousKey name, restoreKey name])
    (value : Option String) : Touches name s (s.put key value) := by
  refine ⟨fun _ _ => rfl, fun key' hkey' => ?_, fun _ _ _ => rfl, rfl, rfl⟩
  refine Function.update_of_ne ?_ _ _
  rintro rfl
  exact hkey' hkey

lemma touches_clearRestoreState : Touches name s (clearRestoreState s name) :=
  (touches_put (by simp) none).trans (touches_put (by simp) none)

lemma touches_record (row : Option SecretRecord) :
    Touches name s { s with secrets := Function.update s.secrets name row } :=
  ⟨fun _ hn => Function.update_of_ne hn _ _, fun _ _ => rfl, fun _ _ _ => rfl, rfl, rfl⟩

lemma touches_upsert {backend refPath now : String} {description : Option String} {created : Bool}
    (h : upsert s name backend refPath description now = .ok (created, s')) :
    Touches name s s' := by
  obtain ⟨-, h⟩ := then_ok_iff.mp h
  obtain ⟨-, h⟩ := then_ok_iff.mp h
  cases h
  exact (touches_record _).trans touches_clearRestoreState

lemma touches_writeInlineValue {value : String} (h : writeInlineValue s name value = .ok s') :
    Touches name s s' := by
  obtain ⟨-, h⟩ := then_ok_iff.mp h
  cases h
  exact touches_put (by simp) _

/-- The rows of the name are deleted. -/
lemma touches_forget (s : SecretStore) (name : String) (r : SecretRecord) :
    Touches name s (forget s name r) := by
  have hrows : Touches name s { s with
      secrets := Function.update s.secrets name none
      grants := fun holder n => if n = name then none else s.grants holder n } :=
    ⟨fun n hn => Function.update_of_ne hn _ _, fun _ _ => rfl, fun _ n hn => if_neg hn, rfl, rfl⟩
  unfold forget
  dsimp only
  split
  · exact (hrows.trans (touches_put (by simp) none)).trans touches_clearRestoreState
  · exact hrows.trans touches_clearRestoreState

lemma touches_delete {removed : Bool} (h : delete s name = .ok (removed, s')) :
    Touches name s s' := by
  obtain ⟨-, h⟩ := then_ok_iff.mp h
  split at h
  · cases h
    exact Touches.refl name s
  · cases h
    exact touches_forget s name _

lemma touches_putInlineValue {value : String} (h : putInlineValue s name value = .ok s') :
    Touches name s s' := by
  obtain ⟨-, h⟩ := then_ok_iff.mp h
  cases h
  exact (touches_put (by simp) _).trans (touches_put (by simp) _)

lemma touches_restoreInlineValue (h : restoreInlineValue s name = .ok s') : Touches name s s' := by
  obtain ⟨-, h⟩ := then_ok_iff.mp h
  obtain ⟨previous, -, h⟩ := chain_ok_iff.mp h
  cases h
  exact (touches_put (by simp) _).trans (touches_put (by simp) _)

lemma touches_armExternalRestore {backend refPath epoch : String}
    (h : armExternalRestore s name backend refPath epoch = .ok s') : Touches name s s' := by
  obtain ⟨-, h⟩ := then_ok_iff.mp h
  cases h
  exact touches_put (by simp) _

/-- A grant is made. -/
lemma touches_grantChecked {holder grantedBy now : String} {granted : Bool}
    (h : grantChecked s holder name grantedBy now = .ok (granted, s')) : Touches name s s' := by
  obtain ⟨-, h⟩ := then_ok_iff.mp h
  obtain ⟨-, h⟩ := then_ok_iff.mp h
  obtain ⟨-, h⟩ := then_ok_iff.mp h
  obtain ⟨-, h⟩ := then_ok_iff.mp h
  unfold grant at h
  split at h
  · cases h
    exact Touches.refl name s
  · cases h
    refine ⟨fun _ _ => rfl, fun _ _ => rfl, fun holder' n hn => ?_, rfl, rfl⟩
    exact if_neg fun heq => hn heq.2

lemma Touches.view_eq (h : Touches name s s') {n : String} (hne : n ≠ name)
    (hkeys : ∀ key ∈ [valueKey n, previousKey n, restoreKey n],
      key ∉ [valueKey name, previousKey name, restoreKey name]) : s'.view n = s.view n := by
  refine SecretView.ext (h.secrets n hne) ?_ ?_ ?_ (funext fun holder => h.grants holder n hne)
  · exact h.settings _ (hkeys _ (by simp))
  · exact h.settings _ (hkeys _ (by simp))
  · exact h.settings _ (hkeys _ (by simp))

lemma Touches.view_of_ne (h : Touches name s s') (hname : ValidName name) {n : String}
    (hn : ValidName n) (hne : n ≠ name) : s'.view n = s.view n :=
  h.view_eq hne fun _ hkey => hn.keys_apart hname hne hkey

end Touching

end Orca.Secrets
