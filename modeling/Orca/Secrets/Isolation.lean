import Mathlib.Data.List.TakeWhile
import Orca.Secrets.Store

/-!
# Secrets of plugins

A plugin reaches the store through `execSecretOp`, which lets it read and write the secrets of its
own namespace (its id, and every name that starts with its id and a dot) and read those that were
granted to it.

`namespaces_disjoint` says that no name is in two namespaces.  `exec_frame` says that a call leaves
every name outside the namespace as it was; the keys of `settings` are made from names, so this
rests on the grammar of names too.  `Agrees` says that two stores look alike to a plugin, and
`exec_agrees` that a call gives the same reply in both and leaves them alike.
-/

namespace Orca.Secrets

open Check

/-! ## Calls -/

/-- `Principal`: who calls. -/
inductive Principal where
  | core
  | plugin (id : String)

/-- `SecretOp`: what is asked for. -/
inductive SecretOp where
  /-- `Get`: the value of a secret. -/
  | get (name : String)
  /-- `Set`: an inline secret is made or replaced. -/
  | set (name value : String) (description : Option String)
  /-- `Exists`: whether there is a secret. -/
  | exist (name : String)
  /-- `Delete`: a secret is deleted. -/
  | delete (name : String)

namespace SecretOp

/-- `SecretOp::name`. -/
def name : SecretOp → String
  | get name => name
  | set name _ _ => name
  | exist name => name
  | delete name => name

/-- `SecretOp::kind`. -/
def kind : SecretOp → String
  | get _ => "get"
  | set _ _ _ => "set"
  | exist _ => "exists"
  | delete _ => "delete"

/-- Whether the operation only reads. -/
def readonly : SecretOp → Bool
  | get _ => true
  | exist _ => true
  | _ => false

end SecretOp

/-- `SecretReply`: the answer to a call. -/
structure SecretReply where
  value : Option String
  found : Bool
  deriving DecidableEq

/-- `SecretAccessDenied`, as it is displayed. -/
def secretAccessDenied (plugin name op : String) : String :=
  "plugin '" ++ plugin ++ "' may not secret.op/" ++ op ++ " on '" ++ name ++
    "': outside its namespace and not granted"

/-- Whether a plugin may do an operation. -/
def mayAccess (s : SecretStore) (plugin : String) (op : SecretOp) : Bool :=
  validPrincipal plugin && (inNamespace op.name plugin ||
    (op.readonly && (s.grants plugin op.name).isSome))

/-- `authorize`: a plugin has its namespace, and reads what was granted to it. -/
def authorize (s : SecretStore) (principal : Principal) (op : SecretOp) : Except String Unit :=
  match principal with
  | .core => .ok ()
  | .plugin id => ensure (mayAccess s id op) (secretAccessDenied id op.name op.kind)

/-- `Prepared`: an answer, or a record whose value is elsewhere. -/
inductive Prepared where
  | reply (r : SecretReply)
  | external (row : SecretRecord)

/-- `prepare_secret_op`: what is done on the store. -/
def prepareSecretOp (s : SecretStore) (op : SecretOp) (now : String) :
    Except String (Prepared × SecretStore) :=
  match op with
  | .get name =>
    match s.secrets name with
    | none => .ok (.reply ⟨none, false⟩, s)
    | some row =>
      if row.backend ≠ "inline" then .ok (.external row, s)
      else do
        let value ← required (s.settings (valueKey name))
          ("inline secret '" ++ name ++ "' has no stored value")
        .ok (.reply ⟨some value, true⟩, s)
  | .set name value description => do
    let row ← upsert s name "inline" "" description now
    let written ← writeInlineValue row.2 name value
    .ok (.reply ⟨none, false⟩, written)
  | .exist name => .ok (.reply ⟨none, (s.secrets name).isSome⟩, s)
  | .delete name => do
    let removed ← delete s name
    .ok (.reply ⟨none, removed.1⟩, removed.2)

/-- The answer once the store is done; `resolve` is `secrets_backend::resolve`, by the backend and
the address. -/
def settle (resolve : String → String → Except String String) (name : String) :
    Prepared → Except String SecretReply
  | .reply r => .ok r
  | .external row =>
    match resolve row.backend row.refPath with
    | .ok value => .ok ⟨some value, true⟩
    | .error e => .error ("secret '" ++ name ++ "' (backend '" ++ row.backend ++ "'): " ++ e)

/-- `exec_secret_op`: the answer and the store after it. -/
def execSecretOp (resolve : String → String → Except String String) (s : SecretStore)
    (principal : Principal) (op : SecretOp) (now : String) :
    Except String SecretReply × SecretStore :=
  match authorize s principal op with
  | .error e => (.error e, s)
  | .ok () =>
    match prepareSecretOp s op now with
    | .error e => (.error e, s)
    | .ok (prepared, s') => (settle resolve op.name prepared, s')

/-- A call: who, what and when. -/
structure SecretCall where
  principal : Principal
  op : SecretOp
  now : String

/-- The store after a call. -/
def performCall (resolve : String → String → Except String String) (s : SecretStore)
    (c : SecretCall) : SecretStore :=
  (execSecretOp resolve s c.principal c.op c.now).2

/-- The answers to the calls of a plugin. -/
def pluginReplies (resolve : String → String → Except String String) (plugin : String) :
    SecretStore → List (SecretOp × String) → List (Except String SecretReply)
  | _, [] => []
  | s, (op, now) :: ops =>
    let r := execSecretOp resolve s (.plugin plugin) op now
    r.1 :: pluginReplies resolve plugin r.2 ops

/-! ## Namespaces -/

section Namespaces

variable {n plugin : String}

/-- The names of a namespace. -/
lemma inNamespace_iff : inNamespace n plugin = true ↔
    n.toList = plugin.toList ∨ ∃ rest, n.toList = plugin.toList ++ '.' :: rest := by
  unfold inNamespace
  rw [Bool.or_eq_true, beq_iff_eq, ← String.toList_inj, Option.any_eq_true]
  refine or_congr_right ⟨?_, ?_⟩
  · rintro ⟨rest, hrest, hdot⟩
    rw [List.isPrefixOf?_eq_some_iff_append_eq] at hrest
    cases rest with
    | nil => cases hdot
    | cons c rest =>
      rw [beq_iff_eq, List.head?_cons, Option.some_inj] at hdot
      exact ⟨rest, by rw [← hrest, hdot]⟩
  · rintro ⟨rest, hrest⟩
    exact ⟨'.' :: rest, List.isPrefixOf?_eq_some_iff_append_eq.mpr hrest.symm, by simp⟩

lemma not_mem_of_valid (h : validPrincipal plugin = true) {c : Char}
    (hc : (c == '-' || c.isLower || c.isDigit) = false) : c ∉ plugin.toList := by
  intro hmem
  simp only [validPrincipal, isValidPluginId, Bool.and_eq_true] at h
  have hall := List.all_eq_true.mp h.1.1.2 c hmem
  rw [hc] at hall
  cases hall

/-- A name that another one starts with, up to a hash sign, is in the namespaces of that one. -/
lemma inNamespace_of_suffix (hplugin : validPrincipal plugin = true) {tail : List Char} {m : String}
    (hm : m.toList = n.toList ++ '#' :: tail) (hin : inNamespace m plugin = true) :
    inNamespace n plugin = true := by
  have hhash : '#' ∉ plugin.toList := not_mem_of_valid hplugin (by decide)
  rw [inNamespace_iff] at hin ⊢
  rcases hin with heq | ⟨rest, hrest⟩
  · refine absurd ?_ hhash
    rw [← heq, hm]
    exact List.mem_append_right _ List.mem_cons_self
  · rw [hm] at hrest
    rcases List.append_eq_append_iff.mp hrest with ⟨more, hplug, hdot⟩ | ⟨more, hn, hdot⟩
    · -- the id reaches as far as the hash sign
      cases more with
      | nil => cases hdot
      | cons c more =>
        cases hdot
        refine absurd ?_ hhash
        rw [hplug]
        exact List.mem_append_right _ List.mem_cons_self
    · cases more with
      | nil => cases hdot
      | cons c more =>
        cases hdot
        exact Or.inr ⟨more, hn⟩

/-- **Namespaces.**  No name is in the namespaces of two plugins. -/
lemma namespaces_disjoint {other : String} (hplugin : validPrincipal plugin = true)
    (hother : validPrincipal other = true) (hne : other ≠ plugin)
    (hin : inNamespace n plugin = true) : inNamespace n other = false := by
  have hdiff : other.toList ≠ plugin.toList := fun heq => hne (String.toList_inj.mp heq)
  have hdot : '.' ∉ plugin.toList := not_mem_of_valid hplugin (by decide)
  have hdot' : '.' ∉ other.toList := not_mem_of_valid hother (by decide)
  rw [Bool.eq_false_iff, ne_eq, inNamespace_iff]
  rw [inNamespace_iff] at hin
  -- each id is what the name has before its first dot
  have hhead : ∀ p : List Char, '.' ∉ p → (n.toList = p ∨ ∃ rest, n.toList = p ++ '.' :: rest) →
      n.toList.takeWhile (fun c => c != '.') = p := by
    intro p hp h
    have hall : ∀ c ∈ p, (c != '.') = true := by
      intro c hc
      rw [bne_iff_ne]
      rintro rfl
      exact hp hc
    rcases h with h | ⟨rest, h⟩
    · rw [h]
      exact List.takeWhile_eq_self_iff.mpr hall
    · rw [h, List.takeWhile_append_of_pos hall]
      simp
  intro hin'
  exact hdiff ((hhead _ hdot' hin').symm.trans (hhead _ hdot hin))

end Namespaces

/-! ## What a call leaves alone -/

section Frame

variable {resolve : String → String → Except String String} {s : SecretStore}

/-- What is done on the store touches the name of the operation, and nothing when it only reads. -/
lemma touches_prepare {s' : SecretStore} {op : SecretOp} {now : String} {prepared : Prepared}
    (h : prepareSecretOp s op now = .ok (prepared, s')) :
    s' = s ∨ op.readonly = false ∧ Touches op.name s s' := by
  cases op with
  | get name =>
    refine Or.inl ?_
    unfold prepareSecretOp at h
    dsimp only at h
    split at h
    · cases h
      rfl
    · split at h
      · cases h
        rfl
      · obtain ⟨value, -, h⟩ := chain_ok_iff.mp h
        cases h
        rfl
  | set name value description =>
    refine Or.inr ⟨rfl, ?_⟩
    obtain ⟨⟨created, row⟩, hrow, h⟩ := chain_ok_iff.mp h
    obtain ⟨written, hwritten, h⟩ := chain_ok_iff.mp h
    cases h
    exact (touches_upsert hrow).trans (touches_writeInlineValue hwritten)
  | exist name =>
    cases h
    exact Or.inl rfl
  | delete name =>
    refine Or.inr ⟨rfl, ?_⟩
    obtain ⟨⟨removed, store⟩, hstore, h⟩ := chain_ok_iff.mp h
    cases h
    exact touches_delete hstore

/-- A call of a plugin changes nothing, or touches a name of its namespace. -/
lemma touches_exec (resolve : String → String → Except String String) (s : SecretStore)
    (plugin : String) (op : SecretOp) (now : String) :
    (execSecretOp resolve s (.plugin plugin) op now).2 = s ∨
      validPrincipal plugin = true ∧ inNamespace op.name plugin = true ∧
        Touches op.name s (execSecretOp resolve s (.plugin plugin) op now).2 := by
  unfold execSecretOp
  split
  · exact Or.inl rfl
  · rename_i hauthorized
    split
    · exact Or.inl rfl
    · rename_i prepared s' hprepared
      rcases touches_prepare hprepared with hsame | ⟨hwrites, htouches⟩
      · exact Or.inl hsame
      · have hmay := ensure_eq_ok.mp hauthorized
        simp only [mayAccess, hwrites, Bool.false_and, Bool.or_false, Bool.and_eq_true] at hmay
        exact Or.inr ⟨hmay.1, hmay.2, htouches⟩

/-- **The frame.**  A call of a plugin leaves every name outside its namespace as it was. -/
lemma exec_frame (plugin : String) (op : SecretOp) (now : String) {n : String} (hn : ValidName n)
    (hout : inNamespace n plugin = false) :
    (execSecretOp resolve s (.plugin plugin) op now).2.view n = s.view n := by
  rcases touches_exec resolve s plugin op now with hsame | ⟨hplugin, hin, htouches⟩
  · rw [hsame]
  · have hne : n ≠ op.name := by
      rintro rfl
      rw [hin] at hout
      cases hout
    have hmade : ∀ tail : String, '#' ∈ tail.toList.head? → op.name ≠ n ++ tail := by
      intro tail htail heq
      obtain ⟨rest, hrest⟩ : ∃ rest, tail.toList = '#' :: rest := by
        cases hlist : tail.toList with
        | nil =>
          rw [hlist] at htail
          cases htail
        | cons c rest =>
          rw [hlist] at htail
          cases htail
          exact ⟨rest, rfl⟩
      have hlist : op.name.toList = n.toList ++ '#' :: rest := by
        rw [heq, String.toList_append, hrest]
      rw [inNamespace_of_suffix hplugin hlist hin] at hout
      cases hout
    exact htouches.view_eq hne fun key hkey =>
      keys_apart hn.hash_not_mem hne (hmade _ rfl) (hmade _ rfl) hkey

end Frame

/-! ## Two stores that a plugin cannot tell apart -/

/-- The names that a plugin can see: its own, and those granted to it. -/
def Visible (s : SecretStore) (plugin n : String) : Prop :=
  inNamespace n plugin = true ∨ (s.grants plugin n).isSome = true

/-- Two stores are alike to a plugin: they have the same tier, the same enabled plugins and the same
names granted to it, and the same records and inline values for the names that it can see. -/
structure Agrees (plugin : String) (s t : SecretStore) : Prop where
  tier : s.tier = t.tier
  /-- The enabled plugins are the same. -/
  enabled : s.enabled = t.enabled
  granted : ∀ n, (s.grants plugin n).isSome = (t.grants plugin n).isSome
  records : ∀ n, Visible s plugin n → s.secrets n = t.secrets n
  /-- The inline values are the same. -/
  values : ∀ n, Visible s plugin n → s.settings (valueKey n) = t.settings (valueKey n)

section Alike

variable {plugin name : String} {s t : SecretStore}

lemma update_congr {α β : Type} [DecidableEq α] {f g : α → β} {k : α} (h : f k = g k) (a : α)
    (b : β) : Function.update f a b k = Function.update g a b k := by
  by_cases hk : k = a
  · rw [hk, Function.update_self, Function.update_self]
  · rw [Function.update_of_ne hk, Function.update_of_ne hk, h]

lemma Agrees.put (h : Agrees plugin s t) (key : String) (v : Option String) :
    Agrees plugin (s.put key v) (t.put key v) :=
  ⟨h.tier, h.enabled, h.granted, h.records, fun n hn => update_congr (h.values n hn) key v⟩

lemma Agrees.record (h : Agrees plugin s t) (name : String) (row : Option SecretRecord) :
    Agrees plugin { s with secrets := Function.update s.secrets name row }
      { t with secrets := Function.update t.secrets name row } :=
  ⟨h.tier, h.enabled, h.granted, fun n hn => update_congr (h.records n hn) name row, h.values⟩

/-- The grants for a name are deleted in both. -/
lemma Agrees.revoked (h : Agrees plugin s t) (name : String) :
    Agrees plugin { s with grants := fun holder n => if n = name then none else s.grants holder n }
      { t with grants := fun holder n => if n = name then none else t.grants holder n } := by
  have hvisible : ∀ n, Visible { s with grants := fun holder n =>
      if n = name then none else s.grants holder n } plugin n → Visible s plugin n := by
    rintro n (hin | hgrant)
    · exact Or.inl hin
    · refine Or.inr ?_
      simp only at hgrant
      split at hgrant
      · cases hgrant
      · exact hgrant
  refine ⟨h.tier, h.enabled, fun n => ?_, fun n hn => h.records n (hvisible n hn),
    fun n hn => h.values n (hvisible n hn)⟩
  dsimp only
  split
  · rfl
  · exact h.granted n

lemma Agrees.cleared (h : Agrees plugin s t) (name : String) :
    Agrees plugin (clearRestoreState s name) (clearRestoreState t name) :=
  (h.put _ none).put _ none

lemma Agrees.forgot (h : Agrees plugin s t) (name : String) (r : SecretRecord) :
    Agrees plugin (forget s name r) (forget t name r) := by
  have hrows := (h.record name none).revoked name
  unfold forget
  dsimp only
  split
  · exact (hrows.put (valueKey name) none).cleared name
  · exact hrows.cleared name

lemma Agrees.ensureWriteAllowed_eq (h : Agrees plugin s t) (name : String) :
    ensureWriteAllowed s name = ensureWriteAllowed t name := by
  unfold ensureWriteAllowed ownedByThisMember
  rw [h.tier, h.enabled]

/-- Two results are alike to a plugin: the same error, or the same answer and stores that are
alike. -/
inductive SameResult (plugin : String) {α : Type} :
    Except String (α × SecretStore) → Except String (α × SecretStore) → Prop
  | error (e : String) : SameResult plugin (.error e) (.error e)
  | ok (a : α) {s t : SecretStore} (h : Agrees plugin s t) :
      SameResult plugin (.ok (a, s)) (.ok (a, t))

/-- The row of a secret is written in both. -/
lemma sameResult_upsert (h : Agrees plugin s t) (hsee : Visible s plugin name)
    (backend refPath : String) (description : Option String) (now : String) :
    SameResult plugin (upsert s name backend refPath description now)
      (upsert t name backend refPath description now) := by
  simp only [upsert, ← h.ensureWriteAllowed_eq name, ← h.records name hsee]
  cases ensureWriteAllowed s name with
  | error e => exact .error e
  | ok u =>
    cases ensureValidName name with
    | error e => exact .error e
    | ok u => exact .ok _ ((h.record name _).cleared name)

/-- An inline secret is written in both. -/
lemma sameResult_set (h : Agrees plugin s t) (hsee : Visible s plugin name) (value : String)
    (description : Option String) (now : String) :
    SameResult plugin (prepareSecretOp s (.set name value description) now)
      (prepareSecretOp t (.set name value description) now) := by
  have hrow := sameResult_upsert h hsee "inline" "" description now
  simp only [prepareSecretOp]
  generalize upsert s name "inline" "" description now = rs at hrow ⊢
  generalize upsert t name "inline" "" description now = rt at hrow ⊢
  cases hrow with
  | error e => exact .error e
  | @ok created s' t' h' =>
    simp only [writeInlineValue, bind, Except.bind, ← h'.ensureWriteAllowed_eq name]
    cases ensureWriteAllowed s' name with
    | error e => exact .error e
    | ok u => exact .ok _ (h'.put (valueKey name) (some value))

/-- A secret is deleted in both. -/
lemma sameResult_delete (h : Agrees plugin s t) (hsee : Visible s plugin name) (now : String) :
    SameResult plugin (prepareSecretOp s (.delete name) now)
      (prepareSecretOp t (.delete name) now) := by
  simp only [prepareSecretOp, delete, ← h.ensureWriteAllowed_eq name, ← h.records name hsee]
  cases ensureWriteAllowed s name with
  | error e => exact .error e
  | ok u =>
    cases s.secrets name with
    | none => exact .ok _ h
    | some r => exact .ok _ (h.forgot name r)

/-- What is done on two stores that are alike is alike. -/
lemma sameResult_prepare (h : Agrees plugin s t) {op : SecretOp} (hsee : Visible s plugin op.name)
    (now : String) : SameResult plugin (prepareSecretOp s op now) (prepareSecretOp t op now) := by
  cases op with
  | get name =>
    simp only [prepareSecretOp, ← h.records name hsee, ← h.values name hsee]
    cases s.secrets name with
    | none => exact .ok _ h
    | some row =>
      dsimp only
      split
      · exact .ok _ h
      · cases s.settings (valueKey name) with
        | none => exact .error _
        | some value => exact .ok _ h
  | set name value description => exact sameResult_set h hsee value description now
  | exist name =>
    simp only [prepareSecretOp, ← h.records name hsee]
    exact .ok _ h
  | delete name => exact sameResult_delete h hsee now

lemma Agrees.mayAccess_eq (h : Agrees plugin s t) (op : SecretOp) :
    mayAccess s plugin op = mayAccess t plugin op := by
  unfold mayAccess
  rw [h.granted]

/-- What a plugin is let through for, it can see. -/
lemma visible_of_mayAccess {op : SecretOp} (h : mayAccess s plugin op = true) :
    Visible s plugin op.name := by
  simp only [mayAccess, Bool.and_eq_true, Bool.or_eq_true] at h
  exact h.2.imp id fun hgrant => hgrant.2

/-- **One call.**  A plugin gets the same answer from two stores that are alike to it, and they stay
alike. -/
lemma exec_agrees (resolve : String → String → Except String String) (h : Agrees plugin s t)
    (op : SecretOp) (now : String) :
    (execSecretOp resolve s (.plugin plugin) op now).1 =
        (execSecretOp resolve t (.plugin plugin) op now).1 ∧
      Agrees plugin (execSecretOp resolve s (.plugin plugin) op now).2
        (execSecretOp resolve t (.plugin plugin) op now).2 := by
  simp only [execSecretOp, authorize, ← h.mayAccess_eq op]
  cases hmay : mayAccess s plugin op with
  | false => exact ⟨rfl, h⟩
  | true =>
    have hsame := sameResult_prepare h (visible_of_mayAccess hmay) now
    simp only [ensure, if_true]
    generalize prepareSecretOp s op now = rs at hsame ⊢
    generalize prepareSecretOp t op now = rt at hsame ⊢
    cases hsame with
    | error e => exact ⟨rfl, h⟩
    | ok prepared h' => exact ⟨rfl, h'⟩

/-- **A run.**  A plugin gets the same answers to every sequence of its calls from two stores that
are alike to it. -/
lemma replies_agree (resolve : String → String → Except String String) (h : Agrees plugin s t)
    (ops : List (SecretOp × String)) :
    pluginReplies resolve plugin s ops = pluginReplies resolve plugin t ops := by
  induction ops generalizing s t with
  | nil => rfl
  | cons call ops ih =>
    obtain ⟨op, now⟩ := call
    obtain ⟨hreply, hstores⟩ := exec_agrees resolve h op now
    simp only [pluginReplies]
    rw [hreply, ih hstores]

end Alike

/-! ## Isolation -/

/-- **Isolation of plugin secrets.**  In every sequence of calls by any principals, a call of a
plugin leaves every name outside its namespace as it was; the answers to the calls of a plugin are
the same from two stores that are alike to it; and the namespaces of two plugins have no name in
common. -/
theorem plugin_secrets_isolated (resolve : String → String → Except String String)
    {plugin : String} (hplugin : validPrincipal plugin = true) :
    (∀ s calls op now n, ValidName n → inNamespace n plugin = false →
      ((calls ++ [⟨.plugin plugin, op, now⟩]).foldl (performCall resolve) s).view n =
        (calls.foldl (performCall resolve) s).view n) ∧
    (∀ s t, Agrees plugin s t → ∀ ops,
      pluginReplies resolve plugin s ops = pluginReplies resolve plugin t ops) ∧
    ∀ other n, validPrincipal other = true → other ≠ plugin → inNamespace n plugin = true →
      inNamespace n other = false := by
  refine ⟨fun s calls op now n hn hout => ?_, fun s t h ops => replies_agree resolve h ops,
    fun other n hother hne hin => namespaces_disjoint hplugin hother hne hin⟩
  rw [List.foldl_concat]
  exact exec_frame plugin op now hn hout

/-- A store with a secret of each of two plugins, one of them external. -/
def twoSecrets : SecretStore where
  secrets := fun n =>
    if n = "gitea.token" then some ⟨"inline", "", none, "t0", "t0"⟩
    else if n = "s3.main.key" then some ⟨"op", "op://vault/s3", none, "t0", "t0"⟩ else none
  settings := fun key => if key = valueKey "gitea.token" then some "t" else none
  grants := fun _ _ => none
  tier := some 1
  enabled := fun _ => true

/-- A plugin that makes a secret of its own and deletes another one leaves the secret of the other
plugin as it was. -/
theorem plugin_secrets_isolated_gitea :
    (([⟨.plugin "s3", .set "s3.main.key" "v" none, "t1"⟩,
        ⟨.plugin "s3", .delete "s3.main.key", "t2"⟩].foldl
      (performCall fun _ ref => .ok ref) twoSecrets).view "gitea.token") =
      ([⟨.plugin "s3", .set "s3.main.key" "v" none, "t1"⟩].foldl
        (performCall fun _ ref => .ok ref) twoSecrets).view "gitea.token" ∧
    pluginReplies (fun _ ref => .ok ref) "s3" twoSecrets
      [(.get "s3.main.key", "t1"), (.get "gitea.token", "t2")] =
        [.ok ⟨some "op://vault/s3", true⟩,
          .error (secretAccessDenied "s3" "gitea.token" "get")] := by
  have hplugin : validPrincipal "s3" = true := by decide +kernel
  have hname : ValidName "gitea.token" := by decide +kernel
  have hout : inNamespace "gitea.token" "s3" = false := by decide +kernel
  refine ⟨?_, ?_⟩
  · exact (plugin_secrets_isolated (fun _ ref => .ok ref) hplugin).1 twoSecrets
      [⟨.plugin "s3", .set "s3.main.key" "v" none, "t1"⟩] (.delete "s3.main.key") "t2" "gitea.token"
      hname hout
  · decide +kernel

end Orca.Secrets
