import Mathlib.Algebra.BigOperators.Group.List.Basic
import Mathlib.Algebra.GroupWithZero.Nat
import Orca.PluginProto.Session

/-!
# What a session guarantees

Whatever is lost in the socket, however reads and writes fail, and however often the plugin is
replaced, what can be seen of a session is what can be seen of calls to a worker that may be lost
(`RemoteCall.Step`).  The two sides agree on this because there is never more than one frame on its
way that starts something or answers it: `Simulates` says where it can be.

A reply is told from those to earlier requests by its id alone.  When the consumer of a stream has
given up, replies to one earlier request may still come, and their id is another one (`Recent`), as
long as the ids do not go round: requests that are too large spend ids, too.
-/

namespace Orca.PluginProto.Session

open RemoteCall (Step Run Stage)

/-- What was said and not heard. -/
abbrev Ideal := RemoteCall.State Exchange Answer Request Reply

/-! ## What is on its way -/

/-- The exchange that a frame starts. -/
def Frame.exchange? (f : Frame) : Option Exchange :=
  match serveSession f with
  | .start k => some k
  | _ => none

/-- What a frame of the plugin asks or answers. -/
def Frame.word? : Frame → Option (Request ⊕ UInt64 × Answer)
  | .result id ok value error errorKind => some (.inr (id, .result ok value error errorKind))
  | .surface id ok body error => some (.inr (id, .surface ok body error))
  | .cap id cap args invoke => some (.inl ⟨id, invoke, cap, args⟩)
  | _ => none

/-- The reply that a frame of the daemon carries, with its id. -/
def Frame.reply? : Frame → Option (UInt64 × Reply)
  | .capResult id ok value error errorKind => some (id, .result ok value error errorKind)
  | .capStreamChunk id seq data => some (id, .chunk seq data)
  | .capStreamEnd id ok error => some (id, .streamEnd ok error)
  | _ => none

/-- The exchanges on their way to the plugin. -/
def World.calls (w : World) : List Exchange := w.toPlugin.filterMap Frame.exchange?

/-- What is on its way to the daemon. -/
def World.words (w : World) : List (Request ⊕ UInt64 × Answer) := w.toDaemon.filterMap Frame.word?

/-- The requests on their way to the daemon. -/
def World.requests (w : World) : List Request := w.words.filterMap Sum.getLeft?

/-- The replies on their way to the plugin. -/
def World.told (w : World) : List (UInt64 × Reply) := w.toPlugin.filterMap Frame.reply?

/-- What the plugin is at. -/
def Tool.exchange : Tool → Option Exchange
  | .running k | .asking k _ _ => some k
  | .serving | .gone => none

/-- What the daemon waits for. -/
def Phase.exchange : Phase → Option Exchange
  | .awaiting id call | .serving id call _ | .streaming id call _ => some (.invoke id call)
  | .fetching id name => some (.surfaceGet id name)
  | _ => none

/-- The request that the daemon attends to. -/
def Phase.request : Phase → Option Request
  | .serving _ _ r | .streaming _ _ r => some r
  | _ => none

/-! ## Where everything is -/

/-- The ids by which a plugin knows to what a reply belongs: those of the replies, of what is
attended to and of what is asked, in the order in which they will be there.  No more than `n` ids
were spent on nothing. -/
def Plugin.Recent (n : ℕ) (p : Plugin) (rs : List Request) : Prop :=
  match p.tool with
  | .gone => True
  | .asking _ r _ => p.capId = r.id + 1 ∧ ∃ olds news, rs = olds ++ news ∧
      (∀ o ∈ olds, o.id ≠ r.id) ∧ ∀ o ∈ news, o = r
  | .serving | .running _ => ∀ o ∈ rs, o.id ≠ p.capId ∧ (p.capId - o.id).toNat ≤ n + 1

/-- The kinds of the replies to a request. -/
def replyKinds : List String := ["cap_result", "cap_stream_chunk", "cap_stream_end"]

/-- Nothing is at work. -/
def World.Quiet (w : World) : Prop :=
  w.calls = [] ∧ w.plugin.tool.exchange = none ∧ w.words = []

/-- Where a part of a frame can be: of a reply that was given up, with nothing behind it until the
plugin is quiet; of what started an exchange, and then nothing comes of it; or of a `Shutdown`. -/
inductive World.CutAt (w : World) (c : Cut) : Prop where
  | reply (hkind : c.kind ∈ replyKinds)
      (hfollowed : c.followed = true → w.calls = [] ∧ w.plugin.tool.exchange = none)
      (hlast : c.followed = false → w.phase.exchange = none)
  | exchange (hlast : c.followed = false) (hquiet : w.Quiet) (hphase : w.phase.exchange = none)
      (hstate : w.state ≠ .healthy)
  /-- The plugin is about to be killed. -/
  | shutdown (hlast : c.followed = false) (hphase : ∃ next, w.phase = .killing next)

/-- What holds of the frames on their way to a plugin that is there. -/
structure World.Linked (w : World) : Prop where
  /-- The daemon starts exchanges, replies, and ends the session. -/
  frames : ∀ f ∈ w.toPlugin,
    (Frame.exchange? f).isSome ∨ (Frame.reply? f).isSome ∨ f = .shutdown
  /-- A `Shutdown` is sent only to kill the plugin. -/
  shutdown : (∀ next, w.phase ≠ .killing next) → .shutdown ∉ w.toPlugin ∧ w.plugin.desync = false
  /-- Nothing comes behind a `Shutdown`. -/
  last : ∀ before after, w.toPlugin = before ++ .shutdown :: after → after = []
  /-- Nor when it has put a tool out of step. -/
  desync : w.plugin.desync = true → w.toPlugin = [] ∧ ∀ c, w.cut = some c → c.followed = false
  /-- A part of a frame is where it can be. -/
  cut : ∀ c, w.cut = some c → w.CutAt c

/-- What the two sides and the socket have in common with calls to a worker that may be lost, when
`n` ids were spent on nothing. -/
structure Simulates (n : ℕ) (w : World) (s : Ideal) : Prop where
  /-- Only the call that was sent is on its way. -/
  calls : w.calls.Sublist s.stage.waiting
  /-- The plugin is at the call that is run. -/
  tool : ∀ k, w.plugin.tool.exchange = some k → s.stage = .started k
  /-- What was asked is on its way, and then the answer. -/
  words : w.words.Sublist
    (s.asks.map .inl ++ s.stage.answered.map fun p => .inr (p.1.id, p.2))
  /-- On a healthy session nothing is at work. -/
  healthy : w.state = .healthy → w.Quiet
  /-- Only a healthy session is used. -/
  sending : ∀ job, w.phase = .sending job → w.state = .healthy
  /-- The daemon waits for the last call. -/
  call : ∀ k, w.phase.exchange = some k → s.stage.call = some k
  /-- It attends to the last request that it has heard. -/
  serving : ∀ r, w.phase.request = some r → s.serving = some r
  /-- The tool waits for the reply to its last request. -/
  asked : ∀ k r stream, w.plugin.tool = .asking k r stream → s.asked = some r
  /-- The replies on their way are to some requests, with recent ids. -/
  told : ∃ pending : List (Request × Reply), pending.Sublist s.replies ∧
    pending.map (fun p => (p.1.id, p.2)) = w.told ∧
      (w.plugin.deaf = false → w.plugin.desync = false →
        w.plugin.Recent n (pending.map Prod.fst ++ w.phase.request.toList ++ w.requests))
  /-- The frames on their way to a plugin that is there are in order. -/
  linked : w.plugin.tool ≠ .gone → w.Linked

/-! ## What the loops hear -/

/-- The loop of `invoke_on` returns the answer with its id. -/
lemma invokeOn_answer {id : UInt64} {f : Frame} {a : Answer} (h : invokeOn id f = .answer a) :
    Frame.word? f = some (.inr (id, a)) := by
  unfold invokeOn at h
  split at h
  · split at h
    · rename_i hid
      obtain rfl := Heard.answer.inj h
      rw [← hid]
      rfl
    · cases h
  · split at h <;> cases h
  · cases h

/-- The loop of `invoke_on` attends to the requests of its invoke. -/
lemma invokeOn_cap {id : UInt64} {f : Frame} {r : Request} (h : invokeOn id f = .cap r) :
    Frame.word? f = some (.inl r) := by
  unfold invokeOn at h
  split at h
  · split at h <;> cases h
  · split at h
    · cases h
    · obtain rfl := Heard.cap.inj h
      rfl
  · cases h

/-- The loop of `surface_get_on` returns the answer with its id. -/
lemma surfaceGetOn_answer {id : UInt64} {f : Frame} {a : Answer}
    (h : surfaceGetOn id f = .answer a) : Frame.word? f = some (.inr (id, a)) := by
  unfold surfaceGetOn at h
  split at h
  · split at h
    · rename_i hid
      obtain rfl := Heard.answer.inj h
      rw [← hid]
      rfl
    · cases h
  · cases h
  · cases h

/-- The loop of `surface_get_on` attends to no request. -/
lemma surfaceGetOn_ne_cap {id : UInt64} {f : Frame} {r : Request} :
    surfaceGetOn id f ≠ .cap r := by
  unfold surfaceGetOn
  intro h
  split at h
  · split at h <;> cases h
  · cases h
  · cases h

/-- The loop of `drain` ends with the result that it waits for. -/
lemma drain_answer {stale : UInt64} {f : Frame} {a : Answer} (h : drain stale f = .answer a) :
    Frame.word? f = some (.inr (stale, a)) := by
  unfold drain at h
  split at h
  · split at h
    · rename_i hid
      obtain rfl := Heard.answer.inj h
      rw [← hid]
      rfl
    · cases h
  · cases h
  · cases h

/-- What a tool is told is a reply with the id of its request. -/
lemma sink_reply {id : UInt64} {stream : Bool} {f : Frame} {b : Reply}
    (h : sink id stream f = .part b ∨ sink id stream f = .last b) :
    Frame.reply? f = some (id, b) := by
  cases f <;> cases stream <;>
    simp only [sink, capSink, capStreamSink, otherFrame, Bool.false_eq_true, if_false, if_true,
      reduceCtorEq, or_self] at h
  all_goals
    split at h <;> simp only [Sunk.part.injEq, Sunk.last.injEq, reduceCtorEq, or_false, false_or,
      or_self] at h
    rename_i hid
    subst hid h
    rfl

lemma otherFrame_reply {f : Frame} (h : (Frame.reply? f).isSome) : otherFrame f = .ignored := by
  cases f <;> first | rfl | cases h

lemma sink_ignored {id : UInt64} {stream : Bool} {f : Frame} (h : sink id stream f = .ignored) :
    Frame.exchange? f = none := by
  cases f <;> first | rfl | (cases stream <;> cases h)

lemma sink_desynced {id : UInt64} {stream : Bool} {f : Frame}
    (h : sink id stream f = .desynced) : otherFrame f = .desynced := by
  cases f <;> cases stream <;>
    simp only [sink, capSink, capStreamSink, otherFrame, Bool.false_eq_true, if_false, if_true,
      reduceCtorEq] at h ⊢
  all_goals split at h <;> cases h

variable {n : ℕ}

/-! ## Recent requests -/

/-- Fewer requests are recent, too. -/
lemma Plugin.Recent.sublist {p : Plugin} {rs rs' : List Request} (h : p.Recent n rs)
    (hsub : rs'.Sublist rs) : p.Recent n rs' := by
  unfold Plugin.Recent at h ⊢
  split at h
  · trivial
  · obtain ⟨hcap, olds, news, rfl, holds, hnews⟩ := h
    obtain ⟨olds', news', rfl, hsubOld, hsubNew⟩ := List.sublist_append_iff.mp hsub
    exact ⟨hcap, olds', news', rfl, fun o ho => holds o (hsubOld.subset ho),
      fun o ho => hnews o (hsubNew.subset ho)⟩
  · exact fun o ho => h o (hsub.subset ho)
  · exact fun o ho => h o (hsub.subset ho)

lemma Plugin.Recent.mono {m : ℕ} {p : Plugin} {rs : List Request} (h : p.Recent n rs)
    (hle : n ≤ m) : p.Recent m rs := by
  unfold Plugin.Recent at h ⊢
  split at h
  · trivial
  · exact h
  all_goals exact fun o ho => ⟨(h o ho).1, Nat.le_trans (h o ho).2 (Nat.add_le_add_right hle 1)⟩

/-- The last id that was taken. -/
lemma recent_last {id capId : UInt64} (h : capId = id + 1) :
    id ≠ capId ∧ (capId - id).toNat ≤ n + 1 := by
  have hone : capId - id = 1 := by rw [h, UInt64.add_comm, UInt64.add_sub_cancel]
  refine ⟨fun heq => ?_, ?_⟩
  · rw [heq, UInt64.sub_self] at hone
    cases hone
  · rw [hone]
    exact Nat.le_add_left 1 n

/-- An id is spent while the ids have not gone round. -/
lemma recent_spend {id capId : UInt64} (hn : n + 2 < 2 ^ 64)
    (h : id ≠ capId ∧ (capId - id).toNat ≤ n + 1) :
    id ≠ capId + 1 ∧ (capId + 1 - id).toNat ≤ n + 1 + 1 := by
  have hnext : (capId + 1 - id).toNat = (capId - id).toNat + 1 := by
    rw [show capId + 1 - id = capId - id + 1 by grind, UInt64.toNat_add, UInt64.toNat_one]
    exact Nat.mod_eq_of_lt (by omega)
  refine ⟨fun heq => ?_, by omega⟩
  rw [← heq, UInt64.sub_self] at hnext
  cases hnext

/-- A request that is there twice is as recent as before. -/
lemma Plugin.Recent.twice {p : Plugin} {a b : List Request} {r : Request}
    (h : p.Recent n (a ++ r :: b)) : p.Recent n (a ++ r :: r :: b) := by
  unfold Plugin.Recent at h ⊢
  split at h
  · trivial
  · obtain ⟨hcap, olds, news, heq, holds, hnews⟩ := h
    refine ⟨hcap, ?_⟩
    rcases List.append_eq_append_iff.mp heq with ⟨c, rfl, hc⟩ | ⟨c, rfl, rfl⟩
    · cases c with
      | nil =>
        obtain rfl : r :: b = news := hc
        refine ⟨a, r :: r :: b, rfl, fun o ho => holds o (by simpa using ho),
          fun o ho => hnews o ?_⟩
        rcases List.mem_cons.mp ho with rfl | ho
        · exact List.mem_cons_self
        · exact ho
      | cons d c =>
        obtain ⟨rfl, rfl⟩ := List.cons.inj hc
        refine ⟨a ++ r :: r :: c, news, by simp, fun o ho => holds o ?_, hnews⟩
        simp only [List.mem_append, List.mem_cons] at ho ⊢
        tauto
    · refine ⟨olds, c ++ r :: r :: b, by simp, holds, fun o ho => hnews o ?_⟩
      simp only [List.mem_append, List.mem_cons] at ho ⊢
      tauto
  all_goals
    intro o ho
    refine h o ?_
    simp only [List.mem_append, List.mem_cons] at ho ⊢
    tauto

/-! ## Steps that say nothing -/

/-- A part of a frame stays where it is while less is on its way. -/
lemma World.CutAt.move {w w' : World} {c : Cut} (h : w.CutAt c)
    (hcalls : w'.calls = w.calls) (hplugin : w'.plugin.tool.exchange = w.plugin.tool.exchange)
    (hwords : w'.words.Sublist w.words)
    (hexchange : ∀ k, w'.phase.exchange = some k → w.phase.exchange = some k)
    (hstate : w'.state = .healthy → w.state = .healthy ∨ w.words ≠ [])
    (hkilling : (∀ next, w.phase ≠ .killing next) ∨ w'.phase = w.phase) : w'.CutAt c := by
  have hnone : w.phase.exchange = none → w'.phase.exchange = none := by
    intro hnone
    cases hk : w'.phase.exchange with
    | none => rfl
    | some k => exact absurd (hnone.symm.trans (hexchange k hk)) (Option.some_ne_none k).symm
  cases h with
  | reply hkind hfollowed hlast =>
    refine .reply hkind (fun h => ?_) fun h => hnone (hlast h)
    rw [hcalls, hplugin]
    exact hfollowed h
  | exchange hlast hquiet hphase hhealthy =>
    obtain ⟨hc, ht, hw⟩ := hquiet
    refine .exchange hlast ⟨hcalls.trans hc, hplugin.trans ht, ?_⟩ (hnone hphase) fun h => ?_
    · rw [hw] at hwords
      exact List.sublist_nil.mp hwords
    · exact (hstate h).elim hhealthy fun hne => hne hw
  | shutdown hlast hphase =>
    rcases hkilling with hne | heq
    · exact absurd hphase.choose_spec (hne _)
    · exact .shutdown hlast (heq ▸ hphase)

/-- The daemon goes from one phase to another, or hears what says nothing. -/
lemma Simulates.move {w w' : World} {s : Ideal} (h : Simulates n w s)
    (htoPlugin : w'.toPlugin = w.toPlugin) (hcut : w'.cut = w.cut) (hplugin : w'.plugin = w.plugin)
    (hwords : w'.words.Sublist w.words)
    (hexchange : ∀ k, w'.phase.exchange = some k → w.phase.exchange = some k)
    (hrequest : ∀ r, w'.phase.request = some r → w.phase.request = some r)
    (hhealthy : w'.state = .healthy → w'.Quiet)
    (hstate : w'.state = .healthy → w.state = .healthy ∨ w.words ≠ [])
    (hsending : ∀ job, w'.phase = .sending job → w'.state = .healthy)
    (hkilling : (∀ next, w.phase ≠ .killing next) ∨ w'.phase = w.phase) : Simulates n w' s := by
  have hcalls : w'.calls = w.calls := by rw [World.calls, World.calls, htoPlugin]
  obtain ⟨pending, hpending, htold, hrecent⟩ := h.told
  refine ⟨hcalls ▸ h.calls, hplugin ▸ h.tool, hwords.trans h.words, hhealthy, hsending,
    fun k hk => h.call k (hexchange k hk), fun r hr => h.serving r (hrequest r hr),
    hplugin ▸ h.asked, ⟨pending, hpending, ?_, ?_⟩, fun htool => ?_⟩
  · rw [World.told, htoPlugin]
    exact htold
  · rw [hplugin]
    refine fun hdeaf hdesync => (hrecent hdeaf hdesync).sublist ?_
    refine List.Sublist.append (List.Sublist.append_left ?_ _) (hwords.filterMap _)
    cases hr : w'.phase.request with
    | none => exact List.nil_sublist _
    | some r =>
      rw [hrequest r hr]
  · rw [hplugin] at htool
    obtain ⟨hframes, hshutdown, hlast, hdesync, hcutAt⟩ := h.linked htool
    refine ⟨htoPlugin ▸ hframes, fun hphase => ?_, htoPlugin ▸ hlast, ?_, fun c hc => ?_⟩
    · rw [htoPlugin, hplugin]
      exact hshutdown (hkilling.elim id fun heq => heq ▸ hphase)
    · rw [hplugin, htoPlugin, hcut]
      exact hdesync
    · exact (hcutAt c (hcut ▸ hc)).move hcalls (by rw [hplugin]) hwords hexchange hstate hkilling

/-- What the daemon holds on to is the same, and so is what is on its way. -/
lemma Simulates.turn {w w' : World} {s : Ideal} (h : Simulates n w s)
    (htoPlugin : w'.toPlugin = w.toPlugin) (hcut : w'.cut = w.cut) (hplugin : w'.plugin = w.plugin)
    (htoDaemon : w'.toDaemon = w.toDaemon) (hexchange : w'.phase.exchange = none)
    (hrequest : w'.phase.request = none) (hstate : w'.state = .healthy → w.state = .healthy)
    (hsending : ∀ job, w'.phase = .sending job → w'.state = .healthy)
    (hkilling : (∀ next, w.phase ≠ .killing next) ∨ w'.phase = w.phase) : Simulates n w' s := by
  have hwords : w'.words = w.words := by rw [World.words, World.words, htoDaemon]
  have hcalls : w'.calls = w.calls := by rw [World.calls, World.calls, htoPlugin]
  refine h.move htoPlugin hcut hplugin (hwords ▸ List.Sublist.refl _) ?_ ?_ (fun hh => ?_)
    (fun hh => Or.inl (hstate hh)) hsending hkilling
  · exact fun k hk => absurd (hexchange.symm.trans hk).symm (Option.some_ne_none k)
  · exact fun r hr => absurd (hrequest.symm.trans hr).symm (Option.some_ne_none r)
  · obtain ⟨hc, ht, hw⟩ := h.healthy (hstate hh)
    exact ⟨hcalls.trans hc, hplugin ▸ ht, hwords.trans hw⟩

/-- A thread takes the session. -/
lemma Simulates.invoke {w : World} {s : Ideal} (h : Simulates n w s) (call : ToolCall)
    (surfaces : List (String × String)) :
    Simulates n (advance surfaces w (.invoke call)).1 s ∧
      (advance surfaces w (.invoke call)).2 = none := by
  unfold advance
  dsimp only
  split
  · rename_i hphase
    have hkilling : ∀ next, w.phase ≠ .killing next := by simp [hphase]
    split
    · rename_i hstate
      exact ⟨h.turn rfl rfl rfl rfl rfl rfl id (fun _ _ => hstate) (Or.inl hkilling), rfl⟩
    · exact ⟨h.turn rfl rfl rfl rfl rfl rfl id (fun _ hp => by cases hp) (Or.inl hkilling), rfl⟩
    · exact ⟨h.turn rfl rfl rfl rfl rfl rfl id (fun _ hp => by cases hp) (Or.inl hkilling), rfl⟩
  · exact ⟨h, rfl⟩

/-- A thread takes the session for a surface. -/
lemma Simulates.fetchSurface {w : World} {s : Ideal} (h : Simulates n w s) (name : String)
    (surfaces : List (String × String)) :
    Simulates n (advance surfaces w (.fetchSurface name)).1 s ∧
      (advance surfaces w (.fetchSurface name)).2 = none := by
  unfold advance
  dsimp only
  split
  · rename_i hphase
    have hkilling : ∀ next, w.phase ≠ .killing next := by simp [hphase]
    split
    · rename_i hstate
      exact ⟨h.turn rfl rfl rfl rfl rfl rfl id (fun _ _ => hstate) (Or.inl hkilling), rfl⟩
    · exact ⟨h.turn rfl rfl rfl rfl rfl rfl id (fun _ hp => by cases hp) (Or.inl hkilling), rfl⟩
  · exact ⟨h, rfl⟩

/-- An exchange that failed is given up. -/
lemma Simulates.failed {w : World} {s : Ideal} (h : Simulates n w s) (e : Failure) (torn : Bool) :
    Simulates n { w.failed e with torn } s := by
  cases hphase : w.phase with
  | idle | stopping next | killing next | starting next =>
    simp only [World.failed, hphase]
    exact h.turn rfl rfl rfl rfl rfl rfl id (fun _ hp => by cases hp) (Or.inr hphase.symm)
  | draining stale id call | awaiting id call | serving id call r | streaming id call r
      | sending job | fetching id name =>
    have hkilling : ∀ next, w.phase ≠ .killing next := by simp [hphase]
    cases e <;> simp only [World.failed, hphase, World.invokeFailed] <;>
      exact h.turn rfl rfl rfl rfl rfl rfl (fun hh => by first | exact hh | cases hh)
        (fun _ hp => by cases hp) (Or.inl hkilling)

/-- A thread that panics leaves a broken session. -/
lemma Simulates.panicked {w : World} {s : Ideal} (h : Simulates n w s) :
    Simulates n w.panicked s := by
  unfold World.panicked
  split
  · exact h
  · exact h
  · exact h
  · rename_i hkilling
    exact h.turn rfl rfl rfl rfl rfl rfl (fun hh => by cases hh) (fun _ hp => by cases hp)
      (Or.inl hkilling)

/-! ## What is written -/

section Put

variable (f : Frame) (o : Written) (w : World)

@[simp] lemma World.put_nextId : (w.put f o).nextId = w.nextId := by
  unfold World.put; split <;> rfl

@[simp] lemma World.put_state : (w.put f o).state = w.state := by
  unfold World.put; split <;> rfl

@[simp] lemma World.put_phase : (w.put f o).phase = w.phase := by
  unfold World.put; split <;> rfl

@[simp] lemma World.put_toDaemon : (w.put f o).toDaemon = w.toDaemon := by
  unfold World.put; split <;> rfl

@[simp] lemma World.put_torn : (w.put f o).torn = w.torn := by
  unfold World.put; split <;> rfl

@[simp] lemma World.put_plugin : (w.put f o).plugin = w.plugin := by
  unfold World.put; split <;> rfl

/-- What is written comes behind the frames, is a part of one behind them, or comes behind that. -/
lemma World.put_cases :
    ((w.put f o).toPlugin = w.toPlugin ∧ (w.put f o).cut = w.cut ∧ o = .nothing) ∨
      ((w.put f o).toPlugin = w.toPlugin ++ [f] ∧ (w.put f o).cut = none ∧ w.cut = none) ∨
      ((w.put f o).toPlugin = w.toPlugin ∧ (w.put f o).cut = some ⟨f.kind, false, false⟩ ∧
        w.cut = none ∧ o = .part) ∨
      ∃ c, (w.put f o).toPlugin = w.toPlugin ∧
        (w.put f o).cut = some { c with followed := c.followed || f.kind != "shutdown" } ∧
        w.cut = some c := by
  cases o <;> cases hcut : w.cut <;> simp [World.put, hcut]

variable {f o w} in
lemma mem_put {g : Frame} (h : g ∈ (w.put f o).toPlugin) : g ∈ w.toPlugin ∨ g = f := by
  rcases w.put_cases f o with hput | hput | hput | ⟨c, hput⟩ <;> rw [hput.1] at h
  · exact Or.inl h
  · exact (List.mem_append.mp h).imp id List.mem_singleton.mp
  · exact Or.inl h
  · exact Or.inl h

lemma World.put_calls (hf : Frame.exchange? f = none) : (w.put f o).calls = w.calls := by
  unfold World.calls
  rcases w.put_cases f o with h | h | h | ⟨c, h⟩ <;> simp [h.1, hf]

lemma World.put_told (hf : Frame.reply? f = none) : (w.put f o).told = w.told := by
  unfold World.told
  rcases w.put_cases f o with h | h | h | ⟨c, h⟩ <;> simp [h.1, hf]

lemma World.with_put (phase : Phase) :
    { w.put f o with phase } = { w with phase }.put f o := by
  cases o <;> cases hcut : w.cut <;> simp [World.put, hcut]

lemma World.failed_put (e : Failure) : (w.put f o).failed e = (w.failed e).put f o := by
  cases o <;> cases hcut : w.cut <;> cases hphase : w.phase <;> cases e <;>
    simp [World.put, World.failed, World.invokeFailed, hcut, hphase]

end Put

/-- The frame of an exchange starts it. -/
@[simp] lemma exchange?_frame (k : Exchange) : Frame.exchange? k.frame = some k := by
  cases k <;> rfl

/-- The frame of an exchange is no reply. -/
@[simp] lemma reply?_exchange (k : Exchange) : Frame.reply? k.frame = none := by
  cases k <;> rfl

/-- The frame of an exchange is no `Shutdown`. -/
lemma kind_exchange (k : Exchange) : (k.frame.kind != "shutdown") = true := by
  cases k <;> rfl

/-- The frame of a reply starts nothing. -/
@[simp] lemma exchange?_reply (id : UInt64) (b : Reply) : Frame.exchange? (b.frame id) = none := by
  cases b <;> rfl

/-- The frame of a reply carries it. -/
@[simp] lemma reply?_frame (id : UInt64) (b : Reply) :
    Frame.reply? (b.frame id) = some (id, b) := by
  cases b <;> rfl

lemma kind_reply (id : UInt64) (b : Reply) : (b.frame id).kind ∈ replyKinds := by
  cases b <;> simp [Reply.frame, Frame.kind, replyKinds]

lemma kind_reply_ne (id : UInt64) (b : Reply) : ((b.frame id).kind != "shutdown") = true := by
  cases b <;> rfl

/-- A `Shutdown` is written. -/
lemma Simulates.writeShutdown {w w' : World} {s : Ideal} (h : Simulates n w s) {next : Option Job}
    {o : Written} (hphase : w.phase = .stopping next) (hphase' : w'.phase = .killing next)
    (htoPlugin : w'.toPlugin = (w.put .shutdown o).toPlugin)
    (hcut : w'.cut = (w.put .shutdown o).cut) (hplugin : w'.plugin = w.plugin)
    (htoDaemon : w'.toDaemon = w.toDaemon) (hstate : w'.state = w.state) : Simulates n w' s := by
  have hkilling : ∀ next, w.phase ≠ .killing next := by simp [hphase]
  have hcalls : w'.calls = w.calls := by
    rw [← w.put_calls .shutdown o rfl, World.calls, World.calls, htoPlugin]
  have htold : w'.told = w.told := by
    rw [← w.put_told .shutdown o rfl, World.told, World.told, htoPlugin]
  have hwords : w'.words = w.words := by rw [World.words, World.words, htoDaemon]
  have hexchange : ∀ k, w'.phase.exchange ≠ some k := by simp [hphase', Phase.exchange]
  have hrequest : w'.phase.request = none := by rw [hphase']; rfl
  obtain ⟨pending, hpending, hpendingTold, hrecent⟩ := h.told
  refine
    { calls := hcalls ▸ h.calls
      tool := hplugin ▸ h.tool
      words := hwords ▸ h.words
      healthy := fun hhealthy => ?_
      sending := fun _ hp => by simp [hphase'] at hp
      call := fun k hk => absurd hk (hexchange k)
      serving := fun r hr => by simp [hrequest] at hr
      asked := hplugin ▸ h.asked
      told := ⟨pending, hpending, hpendingTold.trans htold.symm, ?_⟩
      linked := fun htool => ?_ }
  · obtain ⟨hc, ht, hw⟩ := h.healthy (hstate ▸ hhealthy)
    exact ⟨hcalls.trans hc, hplugin ▸ ht, hwords.trans hw⟩
  · rw [hrequest, World.requests, hwords, hplugin]
    rw [hphase] at hrecent
    exact hrecent
  obtain ⟨hframes, hshutdown, -, hdesync, hcutAt⟩ := h.linked (hplugin ▸ htool)
  obtain ⟨hnone, hsync⟩ := hshutdown hkilling
  refine
    { frames := fun f hf => ?_
      shutdown := fun hne => absurd hphase' (hne next)
      last := fun before after heq => ?_
      desync := fun hd => by simp [hplugin, hsync] at hd
      cut := fun c hc => ?_ }
  · rw [htoPlugin] at hf
    exact (mem_put hf).elim (hframes f) fun h => Or.inr (Or.inr h)
  · have hold : ∀ after', w.toPlugin ≠ before ++ .shutdown :: after' :=
      fun after' h => hnone (h ▸ List.mem_append_right _ List.mem_cons_self)
    rw [htoPlugin] at heq
    rcases w.put_cases .shutdown o with h | h | h | ⟨c, h⟩ <;> rw [h.1] at heq
    · exact absurd heq (hold after)
    · rcases List.eq_nil_or_concat after with rfl | ⟨after', x, rfl⟩
      · rfl
      · rw [List.concat_eq_append, ← List.cons_append, ← List.append_assoc] at heq
        exact absurd (List.append_inj' heq rfl).1 (hold after')
    · exact absurd heq (hold after)
    · exact absurd heq (hold after)
  · have hmove : ∀ c, w.cut = some c → w'.CutAt c := fun c hc =>
      (hcutAt c hc).move hcalls (by rw [hplugin]) (hwords ▸ List.Sublist.refl _)
        (fun k hk => absurd hk (hexchange k)) (fun hs => Or.inl (hstate ▸ hs)) (Or.inl hkilling)
    rw [hcut] at hc
    rcases w.put_cases .shutdown o with h | h | h | ⟨c', h⟩ <;> rw [h.2.1] at hc
    · exact hmove c hc
    · cases hc
    · obtain rfl := Option.some.inj hc
      exact .shutdown rfl ⟨next, hphase'⟩
    · obtain rfl := Option.some.inj hc
      simpa [Frame.kind] using hmove c' h.2.2

/-- The plugin is killed, or ends. -/
lemma Simulates.exit {w w' : World} {s : Ideal} (h : Simulates n w s)
    (hgone : w'.plugin.tool = .gone) (hcalls : w'.calls = w.calls) (htold : w'.told = w.told)
    (htoDaemon : w'.toDaemon = w.toDaemon) (hstate : w'.state = w.state)
    (hphase : w'.phase = w.phase ∨ w'.phase = .idle ∨ ∃ next, w'.phase = .starting next) :
    Simulates n w' s := by
  have hwords : w'.words = w.words := by rw [World.words, World.words, htoDaemon]
  have hexchange : ∀ k, w'.phase.exchange = some k → w.phase.exchange = some k := by
    rcases hphase with hp | hp | ⟨next, hp⟩ <;> rw [hp] <;> simp [Phase.exchange]
  have hrequest : ∀ r, w'.phase.request = some r → w.phase.request = some r := by
    rcases hphase with hp | hp | ⟨next, hp⟩ <;> rw [hp] <;> simp [Phase.request]
  obtain ⟨pending, hpending, hpendingTold, -⟩ := h.told
  refine
    { calls := hcalls ▸ h.calls
      tool := fun k hk => by simp [hgone, Tool.exchange] at hk
      words := hwords ▸ h.words
      healthy := fun hhealthy => ?_
      sending := fun job hp => ?_
      call := fun k hk => h.call k (hexchange k hk)
      serving := fun r hr => h.serving r (hrequest r hr)
      asked := fun k r stream ht => by simp [hgone] at ht
      told := ⟨pending, hpending, hpendingTold.trans htold.symm, fun _ _ => ?_⟩
      linked := fun htool => absurd hgone htool }
  · obtain ⟨hc, -, hw⟩ := h.healthy (hstate ▸ hhealthy)
    exact ⟨hcalls.trans hc, by rw [hgone]; rfl, hwords.trans hw⟩
  · rw [hstate]
    refine h.sending job ?_
    rcases hphase with hp' | hp' | ⟨next, hp'⟩
    · rw [← hp', hp]
    · simp [hp'] at hp
    · simp [hp'] at hp
  · rw [Plugin.Recent, hgone]
    trivial

/-- A new plugin is there. -/
lemma simulates_start {w' : World} (s : Ideal) {next : Job} (hphase : w'.phase = .sending next)
    (hstate : w'.state = .healthy) (htoPlugin : w'.toPlugin = []) (hcut : w'.cut = none)
    (htoDaemon : w'.toDaemon = []) (hplugin : w'.plugin = ⟨.serving, 0, false, false⟩) :
      Simulates n w' s := by
  have hcalls : w'.calls = [] := by rw [World.calls, htoPlugin]; rfl
  have hwords : w'.words = [] := by rw [World.words, htoDaemon]; rfl
  refine
    { calls := hcalls ▸ List.nil_sublist _
      tool := fun k hk => by simp [hplugin, Tool.exchange] at hk
      words := hwords ▸ List.nil_sublist _
      healthy := fun _ => ⟨hcalls, by rw [hplugin]; rfl, hwords⟩
      sending := fun _ _ => hstate
      call := fun k hk => by simp [hphase, Phase.exchange] at hk
      serving := fun r hr => by simp [hphase, Phase.request] at hr
      asked := fun k r stream ht => by simp [hplugin] at ht
      told := ⟨[], List.nil_sublist _, by rw [World.told, htoPlugin]; rfl, fun _ _ => ?_⟩
      linked := fun _ => ?_ }
  · simp [hphase, Phase.request, World.requests, hwords, hplugin, Plugin.Recent]
  · exact
      { frames := fun f hf => by simp [htoPlugin] at hf
        shutdown := fun _ => by simp [htoPlugin, hplugin]
        last := fun before after heq => by simp [htoPlugin] at heq
        desync := fun hd => by simp [hplugin] at hd
        cut := fun c hc => by simp [hcut] at hc }

/-! ## Steps of the daemon -/

/-- An exchange is sent, or given up. -/
lemma Simulates.put_exchange {w w' : World} {s : Ideal} (h : Simulates n w s) {job : Job}
    {k : Exchange} {o : Written} (hphase : w.phase = .sending job)
    (htoPlugin : w'.toPlugin = w.toPlugin) (hcut : w'.cut = w.cut) (hplugin : w'.plugin = w.plugin)
    (htoDaemon : w'.toDaemon = w.toDaemon) (hstate : w'.state ≠ .healthy)
    (hexchange : o = .whole ∧ w'.phase.exchange = some k ∨ w'.phase.exchange = none)
    (hrequest : w'.phase.request = none) (hsending : ∀ job, w'.phase ≠ .sending job) :
    Simulates n (w'.put k.frame o)
      { s with stage := .sent k, asks := [], serving := none } := by
  obtain ⟨hnocalls, hnone, hnowords⟩ := h.healthy (h.sending job hphase)
  have hwords : (w'.put k.frame o).words = [] := by
    rw [World.words, w'.put_toDaemon, htoDaemon]
    exact hnowords
  have htold : (w'.put k.frame o).told = w.told := by
    rw [w'.put_told k.frame o (reply?_exchange k), World.told, World.told, htoPlugin]
  have hcalls : (w'.put k.frame o).calls = [] ∨ (w'.put k.frame o).calls = [k] ∧
      (w'.put k.frame o).cut = none := by
    unfold World.calls at hnocalls ⊢
    rcases w'.put_cases k.frame o with h | h | h | ⟨c, h⟩ <;> rw [h.1, htoPlugin]
    · exact Or.inl hnocalls
    · exact Or.inr ⟨by simp [hnocalls], h.2.1⟩
    · exact Or.inl hnocalls
    · exact Or.inl hnocalls
  have hcall : ∀ k', w'.phase.exchange = some k' → k = k' := by
    rcases hexchange with ⟨-, hk⟩ | hk <;> simp [hk]
  obtain ⟨pending, hpending, hpendingTold, hrecent⟩ := h.told
  refine
    { calls := ?_
      tool := fun k' hk' => ?_
      words := hwords ▸ List.nil_sublist _
      healthy := fun hhealthy => absurd (by simpa using hhealthy) hstate
      sending := fun job hp => absurd (by simpa using hp) (hsending job)
      call := fun k' hk' => congrArg some (hcall k' (by simpa using hk'))
      serving := fun r hr => by simp [hrequest] at hr
      asked := fun k' r stream ht => ?_
      told := ⟨pending, hpending, hpendingTold.trans htold.symm, ?_⟩
      linked := fun htool => ?_ }
  · rcases hcalls with hc | ⟨hc, -⟩ <;> rw [hc]
    · exact List.nil_sublist _
    · exact List.Sublist.refl _
  · rw [w'.put_plugin, hplugin, hnone] at hk'
    cases hk'
  · rw [w'.put_plugin, hplugin] at ht
    rw [ht] at hnone
    cases hnone
  · rw [w'.put_plugin, hplugin, w'.put_phase, hrequest, World.requests, hwords]
    rw [hphase, World.requests, hnowords] at hrecent
    exact hrecent
  rw [w'.put_plugin, hplugin] at htool
  obtain ⟨hframes, hshutdown, -, -, hcutAt⟩ := h.linked htool
  obtain ⟨hnoShutdown, hsync⟩ := hshutdown (by simp [hphase])
  have hnoShutdown' : Frame.shutdown ∉ (w'.put k.frame o).toPlugin := by
    have hne : Frame.shutdown ≠ k.frame := by cases k <;> exact fun h => by cases h
    rcases w'.put_cases k.frame o with h | h | h | ⟨c, h⟩ <;>
      simp [h.1, htoPlugin, hnoShutdown, hne]
  refine
    { frames := fun f hf => (mem_put hf).elim (fun hf => hframes f (htoPlugin ▸ hf))
        fun hf => Or.inl (by simp [hf])
      shutdown := fun _ => ⟨hnoShutdown', by simp [hplugin, hsync]⟩
      last := fun before after heq => absurd (heq ▸ List.mem_append_right _ List.mem_cons_self)
        hnoShutdown'
      desync := fun hd => by simp [hplugin, hsync] at hd
      cut := fun c hc => ?_ }
  -- a part of a frame that is there is one of a reply
  have hreply : ∀ c, w.cut = some c → c.kind ∈ replyKinds := by
    intro c hc
    cases hcutAt c hc with
    | reply hkind _ _ => exact hkind
    | exchange _ _ _ hhealthy => exact absurd (h.sending job hphase) hhealthy
    | shutdown _ hp => simp [hphase] at hp
  have hquiet : (w'.put k.frame o).cut = some c → (w'.put k.frame o).calls = [] := fun hc =>
    hcalls.elim id fun hn => by simp [hn.2] at hc
  have hnone' : (w'.put k.frame o).plugin.tool.exchange = none := by
    rw [w'.put_plugin, hplugin, hnone]
  rcases w'.put_cases k.frame o with hput | hput | hput | ⟨c', hput⟩
  · rw [hput.2.1, hcut] at hc
    refine .reply (hreply c hc) (fun _ => ⟨hquiet (hput.2.1.trans (hcut.trans hc)), hnone'⟩)
      fun _ => ?_
    rw [w'.put_phase]
    exact hexchange.elim (fun hw => by simp [hput.2.2] at hw) id
  · rw [hput.2.1] at hc
    cases hc
  · have hc' := hc
    rw [hput.2.1] at hc
    obtain rfl := Option.some.inj hc
    refine .exchange rfl ⟨hquiet hc', hnone', hwords⟩ ?_ (by simpa using hstate)
    rw [w'.put_phase]
    exact hexchange.elim (fun hw => by simp [hput.2.2.2] at hw) id
  · have hc' := hc
    rw [hput.2.1] at hc
    obtain rfl := Option.some.inj hc
    refine .reply (hreply c' (hcut.symm.trans hput.2.2)) (fun _ => ⟨hquiet hc', hnone'⟩)
      fun hf => ?_
    simp [kind_exchange] at hf

/-- An exchange is sent. -/
lemma Simulates.send {w : World} {s : Ideal} (h : Simulates n w s) {job : Job}
    (hphase : w.phase = .sending job) (o : Written) (e : Failure) :
    ∃ k s', (w.send job o e).2 = some (.sent k) ∧ Step s (.sent k) s' ∧
      Simulates n (w.send job o e).1 s' := by
  refine ⟨job.exchange w.nextId, _, ?_, .sent s _, ?_⟩
  · unfold World.send
    cases o <;> rfl
  have hphase' : ∀ k : Exchange, k.phase.exchange = some k ∧ k.phase.request = none ∧
      ∀ job, k.phase ≠ .sending job := by
    intro k
    cases k <;> exact ⟨rfl, rfl, fun _ h => by cases h⟩
  obtain ⟨hexchange, hrequest, hsending⟩ := hphase' (job.exchange w.nextId)
  unfold World.send
  cases o with
  | whole =>
    exact h.put_exchange hphase rfl rfl rfl rfl (fun hh => by cases hh) (Or.inl ⟨rfl, hexchange⟩)
      hrequest hsending
  | part | nothing =>
    dsimp only
    rw [World.failed_put]
    cases hk : job.exchange w.nextId with
    | invoke id call =>
      cases e <;>
        exact h.put_exchange hphase rfl rfl rfl rfl (fun hh => by cases hh) (Or.inr rfl) rfl
          (fun _ hp => by cases hp)
    | surfaceGet id name =>
      exact h.put_exchange hphase rfl rfl rfl rfl (fun hh => by cases hh) (Or.inr rfl) rfl
        (fun _ hp => by cases hp)

/-- An answer on its way is that of the call that is answered, and the last word. -/
lemma finished_of_sublist {asks : List Request} {stage : Stage Exchange Answer} {id : UInt64}
    {a : Answer} {rest : List (Request ⊕ UInt64 × Answer)}
    (h : (.inr (id, a) :: rest).Sublist
      (asks.map .inl ++ stage.answered.map fun p => .inr (p.1.id, p.2))) :
    ∃ k, stage = .finished k a ∧ k.id = id ∧ rest = [] := by
  obtain ⟨l₁, l₂, heq, h₁, h₂⟩ := List.sublist_append_iff.mp h
  cases l₁ with
  | cons x l₁ =>
    obtain ⟨rfl, -⟩ := List.cons.inj heq
    obtain ⟨r, -, hr⟩ := List.mem_map.mp (h₁.subset List.mem_cons_self)
    cases hr
  | nil =>
    obtain rfl : _ = l₂ := heq
    cases stage with
    | finished k b =>
      obtain ⟨heq, rfl⟩ := List.cons.inj (List.sublist_singleton.mp h₂ |>.resolve_left (by simp))
      obtain ⟨rfl, rfl⟩ := Prod.mk.inj (Sum.inr.inj heq)
      exact ⟨k, rfl, rfl, rfl⟩
    | _ => cases h₂

/-- A request on its way was asked and not attended to. -/
lemma asks_of_sublist {asks : List Request} {r : Request}
    {rest answers : List (Request ⊕ UInt64 × Answer)} (hanswers : .inl r ∉ answers)
    (h : (.inl r :: rest).Sublist (asks.map .inl ++ answers)) :
    ∃ asks', r :: asks' <:+ asks ∧ rest.Sublist (asks'.map .inl ++ answers) := by
  induction asks with
  | nil => exact absurd (h.subset List.mem_cons_self) hanswers
  | cons x asks ih =>
    cases h with
    | cons _ h =>
      obtain ⟨asks', hsuffix, hrest⟩ := ih h
      exact ⟨asks', hsuffix.trans (List.suffix_cons x asks), hrest⟩
    | cons_cons _ h => exact ⟨asks, List.suffix_rfl, h⟩

/-- When the call is answered, nothing is on its way to the plugin, and the plugin is at nothing. -/
lemma Simulates.answered {w : World} {s : Ideal} (h : Simulates n w s) {k : Exchange} {a : Answer}
    (hs : s.stage = .finished k a) : w.calls = [] ∧ w.plugin.tool.exchange = none := by
  refine ⟨?_, ?_⟩
  · have hcalls := h.calls
    rw [hs] at hcalls
    exact List.sublist_nil.mp hcalls
  · cases ht : w.plugin.tool.exchange with
    | none => rfl
    | some k' =>
      have := h.tool k' ht
      rw [hs] at this
      cases this

/-- The daemon has the answer to the last call. -/
lemma Simulates.answer {w : World} {s : Ideal} (h : Simulates n w s) (w' : World) {id : UInt64}
    {a : Answer} {f : Frame} {rest : List Frame} (htoDaemon : w.toDaemon = f :: rest)
    (hf : Frame.word? f = some (.inr (id, a))) (htoDaemon' : w'.toDaemon = rest)
    (htoPlugin : w'.toPlugin = w.toPlugin) (hcut : w'.cut = w.cut) (hplugin : w'.plugin = w.plugin)
    (hexchange : w'.phase.exchange = none) (hrequest : w'.phase.request = none)
    (hsending : ∀ job, w'.phase = .sending job → w'.state = .healthy)
    (hkilling : ∀ next, w.phase ≠ .killing next) :
    Simulates n w' s ∧ w'.Quiet ∧ ∃ k, s.stage = .finished k a ∧ k.id = id := by
  have hwords : w.words = .inr (id, a) :: w'.words := by
    rw [World.words, htoDaemon, List.filterMap_cons_some hf, World.words, htoDaemon']
  obtain ⟨k, hs, hk, hnil⟩ := finished_of_sublist (hwords ▸ h.words)
  obtain ⟨hcalls, htool⟩ := h.answered hs
  have hquiet : w'.Quiet := by
    refine ⟨?_, hplugin ▸ htool, hnil⟩
    rw [World.calls, htoPlugin]
    exact hcalls
  refine ⟨h.move htoPlugin hcut hplugin ?_ ?_ ?_ (fun _ => hquiet) (fun _ => Or.inr ?_) hsending
    (Or.inl hkilling), hquiet, k, hs, hk⟩
  · rw [hwords]
    exact List.sublist_cons_self _ _
  · exact fun k hk => by simp [hexchange] at hk
  · exact fun r hr => by simp [hrequest] at hr
  · simp [hwords]

/-- A call that has returned is over. -/
lemma Simulates.over {w : World} {s : Ideal} (h : Simulates n w s) (hquiet : w.Quiet)
    (hexchange : w.phase.exchange = none) : Simulates n w { s with stage := .idle } where
  calls := hquiet.1 ▸ List.nil_sublist _
  tool k hk := by simp [hquiet.2.1] at hk
  words := hquiet.2.2 ▸ List.nil_sublist _
  healthy := h.healthy
  sending := h.sending
  call k hk := by simp [hexchange] at hk
  serving := h.serving
  asked := h.asked
  told := h.told
  linked := h.linked

/-- The daemon attends to a request. -/
lemma Simulates.serve {w w' : World} {s : Ideal} (h : Simulates n w s) {k : Exchange} {r : Request}
    {f : Frame} {rest : List Frame} (htoDaemon : w.toDaemon = f :: rest)
    (hf : Frame.word? f = some (.inl r)) (hphase : w.phase.exchange = some k)
    (hnone : w.phase.request = none) (htoDaemon' : w'.toDaemon = rest)
    (htoPlugin : w'.toPlugin = w.toPlugin) (hcut : w'.cut = w.cut) (hplugin : w'.plugin = w.plugin)
    (hstate : w'.state = w.state) (hexchange : w'.phase.exchange = some k)
    (hrequest : w'.phase.request = some r) :
    ∃ s', Step s (.served k r) s' ∧ Simulates n w' s' := by
  have hwords : w.words = .inl r :: w'.words := by
    rw [World.words, htoDaemon, List.filterMap_cons_some hf, World.words, htoDaemon']
  have hcalls : w'.calls = w.calls := by rw [World.calls, World.calls, htoPlugin]
  have hnot : (.inl r : Request ⊕ UInt64 × Answer) ∉
      s.stage.answered.map fun p => .inr (p.1.id, p.2) := by simp
  obtain ⟨asks, hsuffix, hrest⟩ := asks_of_sublist hnot (hwords ▸ h.words)
  obtain ⟨pending, hpending, hpendingTold, hrecent⟩ := h.told
  have hkilling : ∀ next, w.phase ≠ .killing next := by
    intro next hp
    rw [hp] at hphase
    cases hphase
  refine ⟨_, .served s k r asks (h.call k hphase) hsuffix,
    { calls := hcalls ▸ h.calls
      tool := hplugin ▸ h.tool
      words := hrest
      healthy := fun hh => ?_
      sending := fun job hp => ?_
      call := fun k' hk' => ?_
      serving := fun r' hr' => hrequest.symm.trans hr'
      asked := hplugin ▸ h.asked
      told := ⟨pending, hpending, ?_, ?_⟩
      linked := fun htool => ?_ }⟩
  · have hw := (h.healthy (hstate ▸ hh)).2.2
    rw [hwords] at hw
    cases hw
  · rw [hp] at hexchange
    cases hexchange
  · rw [hexchange] at hk'
    exact Option.some.inj hk' ▸ h.call k hphase
  · rw [World.told, htoPlugin]
    exact hpendingTold
  · have hreq : w.requests = r :: w'.requests := by
      rw [World.requests, hwords]
      rfl
    rw [hnone, hreq] at hrecent
    rw [hplugin, hrequest]
    simpa using hrecent
  · obtain ⟨hframes, hshutdown, hlast, hdesync, hcutAt⟩ := h.linked (hplugin ▸ htool)
    refine
      { frames := htoPlugin ▸ hframes
        shutdown := fun _ => by rw [htoPlugin, hplugin]; exact hshutdown hkilling
        last := htoPlugin ▸ hlast
        desync := by rw [hplugin, htoPlugin, hcut]; exact hdesync
        cut := fun c hc => (hcutAt c (hcut ▸ hc)).move hcalls (by rw [hplugin]) ?_ ?_
          (fun hs => Or.inl (hstate ▸ hs)) (Or.inl hkilling) }
    · rw [hwords]
      exact List.sublist_cons_self _ _
    · intro k' hk'
      rw [hphase, ← hk', hexchange]

/-- A frame is read that says nothing. -/
lemma Simulates.ignore {w : World} {s : Ideal} (h : Simulates n w s) {f : Frame} {rest : List Frame}
    (htoDaemon : w.toDaemon = f :: rest) : Simulates n { w with toDaemon := rest } s := by
  have hwords : { w with toDaemon := rest }.words.Sublist w.words := by
    rw [World.words, World.words, htoDaemon]
    exact (List.sublist_cons_self f rest).filterMap _
  refine h.move rfl rfl rfl hwords (fun _ hk => hk) (fun _ hr => hr) (fun hh => ?_) Or.inl h.sending
    (Or.inr rfl)
  obtain ⟨hc, ht, hw⟩ := h.healthy hh
  rw [hw] at hwords
  exact ⟨hc, ht, List.sublist_nil.mp hwords⟩

/-- What an event leaves to be heard; without one nothing changes. -/
def Says (s : Ideal) (e : Option Event) (s' : Ideal) : Prop := e.elim (s' = s) (Step s · s')

/-- A frame is read in the loop of `drain`. -/
lemma Simulates.drain {w : World} {s : Ideal} (h : Simulates n w s) {stale id : UInt64}
    {call : ToolCall} {f : Frame} {rest : List Frame} (htoDaemon : w.toDaemon = f :: rest)
    (hphase : w.phase = .draining stale id call) :
    ∃ s', Says s (World.read f { w with toDaemon := rest }).2 s' ∧
      Simulates n (World.read f { w with toDaemon := rest }).1 s' := by
  have hkilling : ∀ next, w.phase ≠ .killing next := by simp [hphase]
  have hignore := h.ignore htoDaemon
  unfold World.read
  simp only [hphase]
  cases hheard : Session.drain stale f with
  | answer a =>
    exact ⟨s, rfl, (h.answer { w with
      toDaemon := rest
      state := .healthy
      phase := .sending (.invoke id call) } htoDaemon (drain_answer hheard) rfl rfl rfl rfl rfl rfl
      (fun _ _ => rfl) hkilling).1⟩
  | refused =>
    exact ⟨s, rfl, hignore.turn rfl rfl rfl rfl rfl rfl (fun hh => by cases hh)
      (fun _ hp => by cases hp) (Or.inl hkilling)⟩
  | cap r =>
    refine ⟨s, rfl, ?_⟩
    simpa only [hphase] using hignore
  | ignored =>
    refine ⟨s, rfl, ?_⟩
    simpa only [hphase] using hignore

/-- A frame is read in the loop that waits for an answer. -/
lemma Simulates.heard {w : World} {s : Ideal} (h : Simulates n w s) {k : Exchange} {heard : Heard}
    {f : Frame} {rest : List Frame} (htoDaemon : w.toDaemon = f :: rest)
    (hphase : w.phase.exchange = some k) (hnone : w.phase.request = none)
    (hanswer : ∀ a, heard = .answer a → Frame.word? f = some (.inr (k.id, a)))
    (hcap : ∀ r, heard = .cap r → Frame.word? f = some (.inl r)) :
    ∃ s', Says s (World.heard k { w with toDaemon := rest } heard).2 s' ∧
      Simulates n (World.heard k { w with toDaemon := rest } heard).1 s' := by
  have hkilling : ∀ next, w.phase ≠ .killing next := by
    intro next hp
    rw [hp] at hphase
    cases hphase
  have hignore := h.ignore htoDaemon
  cases heard with
  | answer a =>
    obtain ⟨hsim, hquiet, k', hs, hk'⟩ :=
      h.answer (World.heard k { w with toDaemon := rest } (.answer a)).1 htoDaemon
        (hanswer a rfl) rfl rfl rfl rfl rfl rfl (fun _ hp => by cases hp) hkilling
    have hcall := h.call k hphase
    rw [hs] at hcall
    obtain rfl := Option.some.inj hcall
    exact ⟨_, Step.returned s k' a hs, hsim.over hquiet rfl⟩
  | cap r =>
    cases k with
    | invoke id call =>
      unfold World.heard
      dsimp only
      cases isStreamingCap r.cap with
      | true =>
        exact h.serve htoDaemon (hcap r rfl) hphase hnone rfl rfl rfl rfl rfl rfl rfl
      | false =>
        exact h.serve htoDaemon (hcap r rfl) hphase hnone rfl rfl rfl rfl rfl rfl rfl
    | surfaceGet id name => exact ⟨s, rfl, hignore⟩
  | refused =>
    exact ⟨s, rfl, hignore.turn rfl rfl rfl rfl rfl rfl (fun hh => by cases hh)
      (fun _ hp => by cases hp) (Or.inl hkilling)⟩
  | ignored => exact ⟨s, rfl, hignore⟩

/-- The daemon reads a frame. -/
lemma Simulates.read {w : World} {s : Ideal} (h : Simulates n w s)
    (surfaces : List (String × String)) :
    ∃ s', Says s (advance surfaces w .read).2 s' ∧ Simulates n (advance surfaces w .read).1 s' := by
  unfold advance
  dsimp only
  split
  · rename_i f rest _ htoDaemon
    split
    · rename_i hphase
      exact h.drain htoDaemon hphase
    · rename_i id call hphase
      have hread : World.read f { w with toDaemon := rest } =
          World.heard (.invoke id call) { w with toDaemon := rest } (invokeOn id f) := by
        unfold World.read
        simp only [hphase]
      rw [hread]
      exact h.heard htoDaemon (by rw [hphase]; rfl) (by rw [hphase]; rfl)
        (fun a ha => invokeOn_answer ha) fun r hr => invokeOn_cap hr
    · rename_i id name hphase
      have hread : World.read f { w with toDaemon := rest } =
          World.heard (.surfaceGet id name) { w with toDaemon := rest } (surfaceGetOn id f) := by
        unfold World.read
        simp only [hphase]
      rw [hread]
      exact h.heard htoDaemon (by rw [hphase]; rfl) (by rw [hphase]; rfl)
        (fun a ha => surfaceGetOn_answer ha) fun r hr => absurd hr surfaceGetOn_ne_cap
    · exact ⟨s, rfl, h⟩
  · exact ⟨s, rfl, h⟩

/-- A reply is sent, or given up. -/
lemma Simulates.put_reply {w w' : World} {s : Ideal} (h : Simulates n w s) {k : Exchange}
    {r : Request} {b : Reply} {o : Written} {replies : List (Request × Reply)}
    (hexchange : w.phase.exchange = some k) (hrequest : w.phase.request = some r)
    (htoPlugin : w'.toPlugin = w.toPlugin) (hcut : w'.cut = w.cut) (hplugin : w'.plugin = w.plugin)
    (htoDaemon : w'.toDaemon = w.toDaemon) (hstate : w'.state = .healthy → w.state = .healthy)
    (hexchange' : o = .whole ∧ w'.phase.exchange = some k ∨ o ≠ .whole ∧ w'.phase.exchange = none)
    (hrequest' : w'.phase.request = none ∨ w'.phase.request = some r)
    (hsending : ∀ job, w'.phase ≠ .sending job) (hreplies : s.replies.Sublist replies)
    (hwhole : o = .whole → s.replies ++ [(r, b)] = replies) :
    Simulates n (w'.put (b.frame r.id) o) { s with replies } := by
  have hkilling : ∀ next, w.phase ≠ .killing next := by
    intro next hp
    rw [hp] at hexchange
    cases hexchange
  have hcalls : (w'.put (b.frame r.id) o).calls = w.calls := by
    rw [w'.put_calls _ o (exchange?_reply r.id b), World.calls, World.calls, htoPlugin]
  have hwords : (w'.put (b.frame r.id) o).words = w.words := by
    rw [World.words, w'.put_toDaemon, htoDaemon]
    rfl
  have hcall : ∀ k', w'.phase.exchange = some k' → w.phase.exchange = some k' := by
    rcases hexchange' with ⟨-, hk⟩ | ⟨-, hk⟩ <;> simp [hk, hexchange]
  obtain ⟨pending, hpending, hpendingTold, hrecent⟩ := h.told
  refine
    { calls := hcalls ▸ h.calls
      tool := by simpa [hplugin] using h.tool
      words := hwords ▸ h.words
      healthy := fun hh => ?_
      sending := fun job hp => absurd (by simpa using hp) (hsending job)
      call := fun k' hk' => h.call k' (hcall k' (by simpa using hk'))
      serving := fun r' hr' => h.serving r' ?_
      asked := by simpa [hplugin] using h.asked
      told := ?_
      linked := fun htool => ?_ }
  · obtain ⟨hc, ht, hw⟩ := h.healthy (hstate (by simpa using hh))
    exact ⟨hcalls.trans hc, by rw [w'.put_plugin, hplugin, ht], hwords.trans hw⟩
  · rw [w'.put_phase] at hr'
    rcases hrequest' with hn | hn <;> rw [hn] at hr'
    · cases hr'
    · exact hrequest.trans hr'
  · rw [hrequest] at hrecent
    -- what is attended to is there once more, or no longer
    have hsame : w.plugin.deaf = false → w.plugin.desync = false → w.plugin.Recent n
        (pending.map Prod.fst ++ w'.phase.request.toList ++ w.requests) := by
      refine fun hdeaf hdesync => (hrecent hdeaf hdesync).sublist ?_
      rcases hrequest' with hn | hn
      · simp [hn]
      · rw [hn]
    have hmore : w.plugin.deaf = false → w.plugin.desync = false → w.plugin.Recent n
        ((pending ++ [(r, b)]).map Prod.fst ++ w'.phase.request.toList ++ w.requests) := by
      intro hdeaf hdesync
      have hlist : w.plugin.Recent n (pending.map Prod.fst ++ r :: w.requests) := by
        simpa using hrecent hdeaf hdesync
      rcases hrequest' with hn | hn <;> rw [hn]
      · simpa using hlist
      · simpa using hlist.twice
    rw [w'.put_plugin, hplugin, w'.put_phase, World.requests, hwords]
    have hkeep : (w'.put (b.frame r.id) o).toPlugin = w'.toPlugin →
        (w'.put (b.frame r.id) o).told = w.told := by
      intro h
      rw [World.told, h, htoPlugin]
      rfl
    rcases w'.put_cases (b.frame r.id) o with h | h | h | ⟨c, h⟩
    · exact ⟨pending, hpending.trans hreplies, hpendingTold.trans (hkeep h.1).symm, hsame⟩
    · by_cases ho : o = .whole
      · refine ⟨pending ++ [(r, b)], ?_, ?_, hmore⟩
        · rw [← hwhole ho]
          exact hpending.append_right _
        · rw [World.told, h.1, List.filterMap_append, htoPlugin, List.map_append, hpendingTold]
          simp [World.told]
      · have heq := h.1
        cases o with
        | whole => exact absurd rfl ho
        | part | nothing => simp [World.put, h.2.2] at heq
    · exact ⟨pending, hpending.trans hreplies, hpendingTold.trans (hkeep h.1).symm, hsame⟩
    · exact ⟨pending, hpending.trans hreplies, hpendingTold.trans (hkeep h.1).symm, hsame⟩
  rw [w'.put_plugin, hplugin] at htool
  obtain ⟨hframes, hshutdown, -, -, hcutAt⟩ := h.linked htool
  obtain ⟨hnoShutdown, hsync⟩ := hshutdown hkilling
  have hnoShutdown' : Frame.shutdown ∉ (w'.put (b.frame r.id) o).toPlugin := by
    have hne : Frame.shutdown ≠ b.frame r.id := by cases b <;> exact fun h => by cases h
    rcases w'.put_cases (b.frame r.id) o with h | h | h | ⟨c, h⟩ <;>
      simp [h.1, htoPlugin, hnoShutdown, hne]
  refine
    { frames := fun f hf => (mem_put hf).elim (fun hf => hframes f (htoPlugin ▸ hf))
        fun hf => Or.inr (Or.inl (by simp [hf]))
      shutdown := fun _ => ⟨hnoShutdown', by simp [hplugin, hsync]⟩
      last := fun before after heq => absurd (heq ▸ List.mem_append_right _ List.mem_cons_self)
        hnoShutdown'
      desync := fun hd => by simp [hplugin, hsync] at hd
      cut := fun c hc => ?_ }
  -- a part of a frame that is there has something behind it
  have hthere : ∀ c, w.cut = some c → c.kind ∈ replyKinds ∧ c.followed = true ∧ w.calls = [] ∧
      w.plugin.tool.exchange = none := by
    intro c hc
    cases hcutAt c hc with
    | reply hkind hfollowed hlast =>
      cases hf : c.followed with
      | true => exact ⟨hkind, rfl, hfollowed hf⟩
      | false => simp [hlast hf] at hexchange
    | exchange _ _ hp _ => simp [hp] at hexchange
    | shutdown _ hp => exact absurd hp.choose_spec (hkilling _)
  have hcutAt' : ∀ c c' : Cut, w.cut = some c → c'.kind = c.kind → c'.followed = true →
      (w'.put (b.frame r.id) o).CutAt c' := by
    intro c c' hc hkind hf
    obtain ⟨hk, -, hn, ht⟩ := hthere c hc
    refine .reply (hkind ▸ hk) (fun _ => ⟨hcalls.trans hn, ?_⟩) fun hf' => ?_
    · rw [w'.put_plugin, hplugin, ht]
    · rw [hf] at hf'
      cases hf'
  rcases w'.put_cases (b.frame r.id) o with hput | hput | hput | ⟨c', hput⟩ <;>
    rw [hput.2.1] at hc
  · rw [hcut] at hc
    exact hcutAt' c c hc rfl (hthere c hc).2.1
  · cases hc
  · obtain rfl := Option.some.inj hc
    refine .reply (kind_reply r.id b) (fun hf => by cases hf) fun _ => ?_
    rw [w'.put_phase]
    rcases hexchange' with ⟨ho, -⟩ | ⟨-, hn⟩
    · simp [hput.2.2.2] at ho
    · exact hn
  · obtain rfl := Option.some.inj hc
    exact hcutAt' c' _ (hcut.symm.trans hput.2.2) rfl (by simp [kind_reply_ne])

lemma failed_phase {w : World} {k : Exchange} (e : Failure) (h : w.phase.exchange = some k) :
    (w.failed e).phase.exchange = none ∧ (w.failed e).phase.request = none ∧
      (∀ job, (w.failed e).phase ≠ .sending job) ∧ (w.failed e).state ≠ .healthy := by
  cases hphase : w.phase <;> rw [hphase] at h <;> simp only [Phase.exchange, reduceCtorEq] at h <;>
    cases e <;> simp [World.failed, World.invokeFailed, hphase, Phase.exchange, Phase.request]

lemma failed_rest (w : World) (e : Failure) :
    (w.failed e).toPlugin = w.toPlugin ∧ (w.failed e).cut = w.cut ∧
      (w.failed e).plugin = w.plugin ∧ (w.failed e).toDaemon = w.toDaemon := by
  cases hphase : w.phase <;> cases e <;> simp [World.failed, World.invokeFailed, hphase]

/-- A reply is written and the daemon goes on waiting for the same answer, or the exchange is given
up. -/
lemma Simulates.write {w : World} {s : Ideal} (h : Simulates n w s) {k : Exchange} {r : Request}
    (b : Reply) {next : Phase} (o : Written) (e : Failure) (hexchange : w.phase.exchange = some k)
    (hrequest : w.phase.request = some r) (hexchange' : next.exchange = some k)
    (hrequest' : next.request = none ∨ next.request = some r) :
    ∃ s', Says s (w.write r b next o e).2 s' ∧ Simulates n (w.write r b next o e).1 s' := by
  unfold World.write
  by_cases ho : o = .whole
  · subst ho
    refine ⟨{ s with replies := s.replies ++ [(r, b)] },
      .replied s r b (h.serving r hrequest), ?_⟩
    dsimp only
    rw [World.with_put]
    refine h.put_reply hexchange hrequest ?_ ?_ ?_ ?_ ?_ (Or.inl ⟨rfl, hexchange'⟩) hrequest' ?_
      (List.sublist_append_left _ _) fun _ => rfl
    · rfl
    · rfl
    · rfl
    · rfl
    · exact id
    · intro job hp
      dsimp only at hp
      rw [hp] at hexchange'
      cases hexchange'
  · refine ⟨s, ?_, ?_⟩
    · cases o with
      | whole => exact absurd rfl ho
      | part | nothing => rfl
    have hfailed : Simulates n ((w.put (b.frame r.id) o).failed e) s := by
      obtain ⟨hnone, hnoRequest, hsending, hstate⟩ := failed_phase e hexchange
      obtain ⟨htoPlugin, hcut, hplugin, htoDaemon⟩ := failed_rest w e
      rw [World.failed_put]
      exact h.put_reply hexchange hrequest htoPlugin hcut hplugin htoDaemon
        (fun hh => absurd hh hstate) (Or.inr ⟨ho, hnone⟩) (Or.inl hnoRequest) hsending
        (List.Sublist.refl _) fun hw => absurd hw ho
    cases o with
    | whole => exact absurd rfl ho
    | part | nothing => exact hfailed

/-- The daemon replies. -/
lemma Simulates.reply {w : World} {s : Ideal} (h : Simulates n w s) (b : Reply) (o : Written)
    (e : Failure) : ∃ s', Says s (w.reply b o e).2 s' ∧ Simulates n (w.reply b o e).1 s' := by
  unfold World.reply
  split
  · rename_i hphase
    exact h.write _ o e (by rw [hphase]; rfl) (by rw [hphase]; rfl) rfl (Or.inl rfl)
  · rename_i hphase
    exact h.write _ o e (by rw [hphase]; rfl) (by rw [hphase]; rfl) rfl (Or.inr rfl)
  · rename_i hphase
    exact h.write _ o e (by rw [hphase]; rfl) (by rw [hphase]; rfl) rfl (Or.inl rfl)
  · exact ⟨s, rfl, h⟩

/-! ## Steps of the plugin -/

/-- A frame that is read starts nothing: what is left of the socket is in order. -/
lemma World.Linked.skip {w w' : World} (h : w.Linked) {f : Frame} {rest : List Frame}
    (htoPlugin : w.toPlugin = f :: rest) (hcalls : w'.calls = w.calls)
    (hwords : w'.words = w.words) (htoPlugin' : w'.toPlugin = rest) (hcut : w'.cut = w.cut)
    (hphase : w'.phase = w.phase) (hstate : w'.state = w.state)
    (hexchange : w'.plugin.tool.exchange = w.plugin.tool.exchange)
    (hdesync : w'.plugin.desync = w.plugin.desync) : w'.Linked := by
  obtain ⟨hframes, hshutdown, hlast, hd, hcutAt⟩ := h
  rw [htoPlugin] at hframes hshutdown hlast hd
  refine
    { frames := fun g hg => hframes g (List.mem_cons_of_mem f (htoPlugin' ▸ hg))
      shutdown := fun hne => ?_
      last := fun before after heq => ?_
      desync := fun hh => absurd (hd (hdesync.symm.trans hh)).1 (List.cons_ne_nil f rest)
      cut := fun c hc => (hcutAt c (hcut ▸ hc)).move hcalls hexchange (hwords ▸ List.Sublist.refl _)
        (fun k hk => hphase ▸ hk) (fun hs => Or.inl (hstate ▸ hs)) (Or.inr hphase) }
  · obtain ⟨hnot, hsync⟩ := hshutdown (hphase ▸ hne)
    rw [htoPlugin']
    exact ⟨fun hm => hnot (List.mem_cons_of_mem f hm), hdesync.trans hsync⟩
  · exact hlast (f :: before) after (by rw [← htoPlugin', heq]; rfl)

/-- The plugin reads a frame that is nothing to it. -/
lemma Simulates.skip {w : World} {s : Ideal} (h : Simulates n w s) {f : Frame} {rest : List Frame}
    (htoPlugin : w.toPlugin = f :: rest) (hf : Frame.exchange? f = none)
    (htool : w.plugin.tool ≠ .gone) : Simulates n { w with toPlugin := rest } s := by
  have hcalls : { w with toPlugin := rest }.calls = w.calls := by
    rw [World.calls, World.calls, htoPlugin, List.filterMap_cons_none hf]
  obtain ⟨pending, hpending, hpendingTold, hrecent⟩ := h.told
  refine
    { h with
      calls := hcalls ▸ h.calls
      healthy := fun hh => ?_
      told := ?_
      linked := fun _ => (h.linked htool).skip htoPlugin hcalls rfl rfl rfl rfl rfl rfl rfl }
  · obtain ⟨hc, ht, hw⟩ := h.healthy hh
    exact ⟨hcalls.trans hc, ht, hw⟩
  · unfold World.told at hpendingTold ⊢
    rw [htoPlugin] at hpendingTold
    cases hreply : Frame.reply? f with
    | none =>
      rw [List.filterMap_cons_none hreply] at hpendingTold
      exact ⟨pending, hpending, hpendingTold, hrecent⟩
    | some reply =>
      rw [List.filterMap_cons_some hreply] at hpendingTold
      cases pending with
      | nil => cases hpendingTold
      | cons p pending =>
        refine ⟨pending, (List.sublist_cons_self p pending).trans hpending,
          (List.cons.inj hpendingTold).2, fun hdeaf hdesync => (hrecent hdeaf hdesync).sublist ?_⟩
        exact List.sublist_cons_self _ _

/-- The plugin starts what it has read. -/
lemma Simulates.begin {w : World} {s : Ideal} (h : Simulates n w s) {f : Frame} {rest : List Frame}
    {k : Exchange} (htoPlugin : w.toPlugin = f :: rest) (hf : Frame.exchange? f = some k)
    (htool : w.plugin.tool = .serving) :
    ∃ s', Step s (.started k) s' ∧
      Simulates n
        { w with toPlugin := rest, plugin := { w.plugin with tool := .running k } } s' := by
  set w' : World := { w with toPlugin := rest, plugin := { w.plugin with tool := .running k } }
  have hcalls : w.calls = k :: w'.calls := by
    rw [World.calls, htoPlugin, List.filterMap_cons_some hf]
    rfl
  obtain ⟨hs, hnil⟩ : s.stage = .sent k ∧ w'.calls = [] := by
    have hsub := h.calls
    rw [hcalls] at hsub
    cases hstage : s.stage with
    | sent k' =>
      rw [hstage] at hsub
      obtain ⟨rfl, hnil⟩ := List.cons.inj (List.sublist_singleton.mp hsub |>.resolve_left (by simp))
      exact ⟨rfl, hnil⟩
    | _ =>
      rw [hstage] at hsub
      cases hsub
  have hreply : Frame.reply? f = none := by
    cases f <;> first | rfl | cases hf
  obtain ⟨pending, hpending, hpendingTold, hrecent⟩ := h.told
  have hwords := h.words
  rw [hs] at hwords
  refine ⟨_, .started s k hs,
    { h with
      calls := hnil ▸ List.nil_sublist _
      tool := fun k' hk' => congrArg Stage.started (Option.some.inj hk')
      words := hwords
      healthy := fun hh => ?_
      call := fun k' hk' => ?_
      asked := fun k' r stream ht => by cases ht
      told := ⟨pending, hpending, ?_, ?_⟩
      linked := fun _ => ?_ }⟩
  · have hquiet := (h.healthy hh).1
    rw [hcalls] at hquiet
    cases hquiet
  · have hcall := h.call k' hk'
    rw [hs] at hcall
    exact hcall
  · rw [hpendingTold, World.told, htoPlugin, List.filterMap_cons_none hreply]
    rfl
  · rw [Plugin.Recent, htool] at hrecent
    exact hrecent
  obtain ⟨hframes, hshutdown, hlast, hdesync, hcutAt⟩ := h.linked (by simp [htool])
  rw [htoPlugin] at hframes hshutdown hlast hdesync
  refine
    { frames := fun g hg => hframes g (List.mem_cons_of_mem f hg)
      shutdown := fun hne => ?_
      last := fun before after heq => hlast (f :: before) after (congrArg (f :: ·) heq)
      desync := fun hh => absurd (hdesync hh).1 (List.cons_ne_nil f rest)
      cut := fun c hc => ?_ }
  · obtain ⟨hnot, hsync⟩ := hshutdown hne
    exact ⟨fun hm => hnot (List.mem_cons_of_mem f hm), hsync⟩
  · cases hcutAt c hc with
    | reply hkind hfollowed hlast =>
      refine .reply hkind (fun hh => ?_) hlast
      have hquiet := (hfollowed hh).1
      rw [hcalls] at hquiet
      cases hquiet
    | exchange _ hquiet _ _ =>
      rw [World.Quiet, hcalls] at hquiet
      exact absurd hquiet.1 (List.cons_ne_nil _ _)
    | shutdown hf hphase => exact .shutdown hf hphase

/-- The tool has a reply to its request. -/
lemma Simulates.deliver {w : World} {s : Ideal} (h : Simulates n w s) {f : Frame}
    {rest : List Frame} {k : Exchange} {r : Request} {stream : Bool} {b : Reply} {tool : Tool}
    (htoPlugin : w.toPlugin = f :: rest) (hf : Frame.reply? f = some (r.id, b))
    (htool : w.plugin.tool = .asking k r stream) (hdeaf : w.plugin.deaf = false)
    (htool' : tool = .asking k r stream ∨ tool = .running k) :
    ∃ s', Step s (.delivered k r b) s' ∧
      Simulates n { w with toPlugin := rest, plugin := { w.plugin with tool } } s' := by
  have hexchange : Frame.exchange? f = none := by
    cases f <;> first | rfl | cases hf
  have htool'' : tool.exchange = w.plugin.tool.exchange := by
    rcases htool' with rfl | rfl <;> simp [htool, Tool.exchange]
  have halive : w.plugin.tool ≠ .gone := by simp [htool]
  set w' : World := { w with toPlugin := rest, plugin := { w.plugin with tool } }
  have hcalls : w'.calls = w.calls := by
    rw [World.calls, World.calls, htoPlugin, List.filterMap_cons_none hexchange]
  have hsync : w.plugin.desync = false := by
    cases hd : w.plugin.desync with
    | false => rfl
    | true => exact absurd ((h.linked halive).desync hd).1 (by simp [htoPlugin])
  obtain ⟨pending, hpending, hpendingTold, hrecent⟩ := h.told
  have hrecent := hrecent hdeaf hsync
  rw [World.told, htoPlugin, List.filterMap_cons_some hf] at hpendingTold
  cases pending with
  | nil => cases hpendingTold
  | cons p pending =>
    obtain ⟨hp, htail⟩ := List.cons.inj hpendingTold
    obtain ⟨hid, rfl⟩ := Prod.mk.inj hp
    rw [Plugin.Recent, htool] at hrecent
    obtain ⟨hcap, olds, news, heq, holds, hnews⟩ := hrecent
    -- none of the earlier requests is left, as their replies would have come before
    have hempty : olds = [] := by
      cases olds with
      | nil => rfl
      | cons o olds =>
        obtain ⟨rfl, -⟩ := List.cons.inj heq
        have hne := holds p.1 List.mem_cons_self
        rw [hid] at hne
        exact absurd rfl hne
    subst hempty
    rw [List.nil_append] at heq
    have hr : p.1 = r := hnews p.1 (heq ▸ List.mem_cons_self)
    have hrest : ∀ o ∈ pending.map Prod.fst ++ w.phase.request.toList ++ w.requests, o = r :=
      fun o ho => hnews o (heq ▸ List.mem_cons_of_mem p.1 ho)
    obtain ⟨replies, hsuffix, hsub⟩ : ∃ replies, (r, p.2) :: replies <:+ s.replies ∧
        pending.Sublist replies := by
      obtain ⟨before, after, heq, hmem, hsub⟩ := List.cons_sublist_iff.mp hpending
      obtain ⟨l₁, l₂, rfl⟩ := List.append_of_mem hmem
      refine ⟨l₂ ++ after, ⟨l₁, ?_⟩, hsub.trans (List.sublist_append_right _ _)⟩
      rw [heq, ← hr]
      simp
    refine ⟨_, .delivered s k r p.2 replies (h.tool k (by rw [htool]; rfl))
      (h.asked k r stream htool) hsuffix,
      { h with
        calls := hcalls ▸ h.calls
        tool := fun k' hk' => h.tool k' (htool'' ▸ hk')
        healthy := fun hh => ?_
        asked := fun k' r' stream' ht => ?_
        told := ⟨pending, hsub, htail, fun _ _ => ?_⟩
        linked := fun _ =>
          (h.linked halive).skip htoPlugin hcalls rfl rfl rfl rfl rfl htool'' rfl }⟩
    · obtain ⟨hc, ht, hw⟩ := h.healthy hh
      exact ⟨hcalls.trans hc, htool''.trans ht, hw⟩
    · rcases htool' with rfl | rfl
      · exact h.asked k' r' stream' (htool.trans ht)
      · cases ht
    · rcases htool' with rfl | rfl
      · exact ⟨hcap, [], _, rfl, by simp, hrest⟩
      · intro o ho
        rw [hrest o ho]
        exact recent_last hcap

/-- A tool is put out of step by a `Shutdown`. -/
lemma Simulates.desynced {w : World} {s : Ideal} (h : Simulates n w s) {f : Frame}
    {rest : List Frame} {k : Exchange} {r : Request} {stream : Bool}
    (htoPlugin : w.toPlugin = f :: rest) (hf : otherFrame f = .desynced)
    (htool : w.plugin.tool = .asking k r stream) :
    f = .shutdown ∧ Simulates n { w with
      toPlugin := rest
      plugin := { w.plugin with tool := .running k, desync := true } } s := by
  have halive : w.plugin.tool ≠ .gone := by simp [htool]
  have hstage : s.stage = .started k := h.tool k (by rw [htool]; rfl)
  have hnocalls : w.calls = [] := by
    have hsub := h.calls
    rw [hstage] at hsub
    exact List.sublist_nil.mp hsub
  obtain ⟨hframes, hshutdown, hlast, hdesync, hcutAt⟩ := h.linked halive
  have hf : f = .shutdown := by
    rcases hframes f (by simp [htoPlugin]) with hc | hr | hs
    · obtain ⟨k', hk'⟩ := Option.isSome_iff_exists.mp hc
      rw [World.calls, htoPlugin, List.filterMap_cons_some hk'] at hnocalls
      cases hnocalls
    · rw [otherFrame_reply hr] at hf
      cases hf
    · exact hs
  subst hf
  obtain rfl : rest = [] := hlast [] rest htoPlugin
  set w' : World := { w with
    toPlugin := []
    plugin := { w.plugin with tool := .running k, desync := true } }
  have hexchange : w'.plugin.tool.exchange = w.plugin.tool.exchange := by rw [htool]; rfl
  have hkilling : ∃ next, w.phase = .killing next := by
    by_contra hne
    exact (hshutdown fun next hp => hne ⟨next, hp⟩).1 (by simp [htoPlugin])
  obtain ⟨pending, hpending, hpendingTold, -⟩ := h.told
  refine ⟨rfl,
    { h with
      calls := List.nil_sublist _
      tool := fun k' hk' => h.tool k' (hexchange ▸ hk')
      healthy := fun hh => ⟨rfl, hexchange.trans (h.healthy hh).2.1, (h.healthy hh).2.2⟩
      asked := fun k' r' stream' ht => by cases ht
      told := ⟨pending, hpending, ?_, fun _ hd => by cases hd⟩
      linked := fun _ =>
        { frames := fun f hf => absurd hf List.not_mem_nil
          shutdown := fun hne => absurd hkilling.choose_spec (hne _)
          last := fun before after heq => absurd heq (by simp [w'])
          desync := fun _ => ⟨rfl, fun c hc => ?_⟩
          cut := fun c hc => (hcutAt c hc).move (show w'.calls = w.calls from hnocalls.symm)
            hexchange (List.Sublist.refl _) (fun _ hk => hk) Or.inl (Or.inr rfl) } }⟩
  · rw [hpendingTold, World.told, htoPlugin]
    rfl
  · cases hcutAt c hc with
    | reply _ hfollowed _ =>
      cases hff : c.followed with
      | false => rfl
      | true =>
        have := (hfollowed hff).2
        rw [htool] at this
        cases this
    | exchange hff _ _ _ => exact hff
    | shutdown hff _ => exact hff

/-- A frame in the loop of `serve_session`, on a session that is in step. -/
lemma hear_serving {p : Plugin} (goOn : Bool) (f : Frame) (htool : p.tool = .serving)
    (hsync : p.desync = false) : p.hear goOn f =
      match serveSession f with
      | .start k => ({ p with tool := .running k }, some (.started k))
      | .stop => ({ p with tool := .gone }, none)
      | .ignored => (p, none) := by
  unfold Plugin.hear
  simp only [htool]
  exact if_neg (by rw [hsync]; exact Bool.false_ne_true)

/-- A frame in the loop of a sink. -/
lemma hear_asking {p : Plugin} (goOn : Bool) (f : Frame) {k : Exchange} {r : Request}
    {stream : Bool}
    (htool : p.tool = .asking k r stream) : p.hear goOn f =
      match sink r.id stream f with
      | .part b =>
        ({ p with tool := if goOn then .asking k r stream else .running k },
          some (.delivered k r b))
      | .last b => ({ p with tool := .running k }, some (.delivered k r b))
      | .ignored => (p, none)
      | .desynced => ({ p with tool := .running k, desync := true }, none) := by
  obtain ⟨tool, _, _, _⟩ := p
  obtain rfl : tool = .asking k r stream := htool
  rfl

/-- The plugin reads a frame. -/
lemma Simulates.pluginRead {w : World} {s : Ideal} (h : Simulates n w s)
    (surfaces : List (String × String)) (goOn : Bool) :
    ∃ s', Says s (advance surfaces w (.pluginRead goOn)).2 s' ∧
      Simulates n (advance surfaces w (.pluginRead goOn)).1 s' := by
  unfold advance
  dsimp only
  split
  · rename_i f rest hreads htoPlugin
    have hdeaf : w.plugin.deaf = false := by
      unfold Plugin.Reads at hreads
      simpa using (Bool.and_eq_true_iff.mp hreads).1
    cases htool : w.plugin.tool with
    | gone | running k => simp [Plugin.Reads, htool] at hreads
    | serving =>
      have halive : w.plugin.tool ≠ .gone := by simp [htool]
      have hsync : w.plugin.desync = false := by
        cases hd : w.plugin.desync with
        | false => rfl
        | true => exact absurd ((h.linked halive).desync hd).1 (by simp [htoPlugin])
      rw [hear_serving goOn f htool hsync]
      cases hserved : serveSession f with
      | start k => exact h.begin htoPlugin (by rw [Frame.exchange?, hserved]) htool
      | stop =>
        have hexchange : Frame.exchange? f = none := by rw [Frame.exchange?, hserved]
        have hreply : Frame.reply? f = none := by
          cases f <;> first | rfl | cases hserved
        refine ⟨s, rfl, h.exit rfl ?_ ?_ rfl rfl (Or.inl rfl)⟩
        · rw [World.calls, World.calls, htoPlugin, List.filterMap_cons_none hexchange]
        · rw [World.told, World.told, htoPlugin, List.filterMap_cons_none hreply]
      | ignored =>
        exact ⟨s, rfl, h.skip htoPlugin (by rw [Frame.exchange?, hserved]) halive⟩
    | asking k r stream =>
      have halive : w.plugin.tool ≠ .gone := by simp [htool]
      rw [hear_asking goOn f htool]
      cases hsunk : sink r.id stream f with
      | part b =>
        refine h.deliver htoPlugin (sink_reply (Or.inl hsunk)) htool hdeaf ?_
        cases goOn
        · exact Or.inr rfl
        · exact Or.inl rfl
      | last b => exact h.deliver htoPlugin (sink_reply (Or.inr hsunk)) htool hdeaf (Or.inr rfl)
      | ignored => exact ⟨s, rfl, h.skip htoPlugin (sink_ignored hsunk) halive⟩
      | desynced => exact ⟨s, rfl, (h.desynced htoPlugin (sink_desynced hsunk) htool).2⟩
  · exact ⟨s, rfl, h⟩

/-- A frame of the kind of a reply is nothing to the loop of `serve_session`. -/
lemma serveSession_reply {f : Frame} (h : f.kind ∈ replyKinds) : serveSession f = .ignored := by
  cases f <;> first | rfl | simp [Frame.kind, replyKinds] at h

/-- A frame was read at a part of one. -/
lemma Simulates.spend {w : World} {s : Ideal} (h : Simulates n w s) {c : Cut}
    (hc : w.cut = some c) :
    Simulates n { w with cut := w.cut.map ({ · with spent := true }) } s := by
  refine
    { h with
      linked := fun halive => ?_ }
  obtain ⟨-, -, -, hdesync, hcutAt⟩ := h.linked halive
  rw [hc]
  refine
    { h.linked halive with
      desync := fun hd => ⟨(hdesync hd).1, fun c' hc' => ?_⟩
      cut := fun c' hc' => ?_ }
  · obtain rfl := Option.some.inj hc'
    exact (hdesync hd).2 c hc
  · obtain rfl := Option.some.inj hc'
    cases hcutAt c hc with
    | reply hkind hfollowed hlast => exact .reply hkind hfollowed hlast
    | exchange hlast hquiet hphase hstate => exact .exchange hlast hquiet hphase hstate
    | shutdown hlast hphase => exact .shutdown hlast hphase

/-- The plugin reads something at a part of a frame. -/
lemma Simulates.pluginReadCut {w : World} {s : Ideal} (h : Simulates n w s)
    (surfaces : List (String × String)) (f : Frame) (goOn : Bool) :
    ∃ s', Says s (advance surfaces w (.pluginReadCut f goOn)).2 s' ∧
      Simulates n (advance surfaces w (.pluginReadCut f goOn)).1 s' := by
  unfold advance
  dsimp only
  split
  · rename_i hreads
    obtain ⟨hreads, hcut⟩ := Bool.and_eq_true_iff.mp hreads
    obtain ⟨-, hcut⟩ := Bool.and_eq_true_iff.mp hcut
    obtain ⟨c, hc, hcut⟩ := (Option.any_eq_true _ _).mp hcut
    obtain ⟨hfollowed, hcut⟩ := Bool.and_eq_true_iff.mp hcut
    have halive : w.plugin.tool ≠ .gone := fun ht => by simp [Plugin.Reads, ht] at hreads
    -- with something behind it, it is a part of a reply, and the plugin is at nothing
    obtain ⟨hkind, hcalls, htool⟩ : c.kind ∈ replyKinds ∧ w.calls = [] ∧
        w.plugin.tool.exchange = none := by
      cases (h.linked halive).cut c hc with
      | reply hkind hf _ => exact ⟨hkind, hf hfollowed⟩
      | exchange hf _ _ _ => simp [hfollowed] at hf
      | shutdown hf _ => simp [hfollowed] at hf
    cases ht : w.plugin.tool with
    | gone => exact absurd ht halive
    | running k | asking k r stream => simp [ht, Tool.exchange] at htool
    | serving =>
      have hsync : w.plugin.desync = false := by
        cases hd : w.plugin.desync with
        | false => rfl
        | true =>
          have := ((h.linked halive).desync hd).2 c hc
          simp [hfollowed] at this
      have hsame : c.kind = f.kind := by
        simp only [ht, Bool.or_false, Bool.and_eq_true, beq_iff_eq] at hcut
        exact hcut.1
      rw [hear_serving goOn f ht hsync, serveSession_reply (hsame ▸ hkind)]
      exact ⟨s, rfl, h.spend hc⟩
  · exact ⟨s, rfl, h⟩

/-- A read of the plugin fails. -/
lemma Simulates.pluginFail {w : World} {s : Ideal} (h : Simulates n w s)
    (surfaces : List (String × String)) :
    ∃ s', Says s (advance surfaces w .pluginFail).2 s' ∧
      Simulates n (advance surfaces w .pluginFail).1 s' := by
  unfold advance
  dsimp only
  split
  · exact ⟨s, rfl, h.exit rfl rfl rfl rfl rfl (Or.inl rfl)⟩
  · rename_i k r stream htool
    have halive : w.plugin.tool ≠ .gone := by simp [htool]
    have hexchange : Tool.exchange (.running k) = w.plugin.tool.exchange := by rw [htool]; rfl
    obtain ⟨pending, hpending, hpendingTold, -⟩ := h.told
    -- a tool is never at a part of a frame with something behind it
    have hnot : w.cut.any (·.followed) = false := by
      cases hc : w.cut with
      | none => rfl
      | some c =>
        cases (h.linked halive).cut c hc with
        | reply _ hf _ =>
          cases hfollowed : c.followed with
          | false => exact hfollowed
          | true =>
            have := (hf hfollowed).2
            simp [htool, Tool.exchange] at this
        | exchange hf _ _ _ => exact hf
        | shutdown hf _ => exact hf
    have hcutAt := (h.linked halive).cut
    refine ⟨s, rfl,
      { h with
        tool := fun k' hk' => h.tool k' (hexchange ▸ hk')
        healthy := fun hh =>
          ⟨(h.healthy hh).1, hexchange.trans (h.healthy hh).2.1, (h.healthy hh).2.2⟩
        asked := fun k' r' stream' ht => by cases ht
        told := ⟨pending, hpending, hpendingTold, fun hdeaf _ => ?_⟩
        linked := fun _ =>
          { h.linked halive with
            cut := fun c hc => (hcutAt c hc).move rfl hexchange (List.Sublist.refl _)
              (fun _ hk => hk) Or.inl (Or.inr rfl) } }⟩
    simp [hnot] at hdeaf
  · exact ⟨s, rfl, h⟩

lemma words_append {w w' : World} {f : Frame} {word : Request ⊕ UInt64 × Answer}
    (htoDaemon : w'.toDaemon = w.toDaemon ++ [f]) (hf : Frame.word? f = some word) :
    w'.words = w.words ++ [word] := by
  rw [World.words, htoDaemon, List.filterMap_append, List.filterMap_cons_some hf]
  rfl

lemma word?_frame (id : UInt64) (a : Answer) :
    Frame.word? (a.frame id) = some (.inr (id, a)) := by
  cases a <;> rfl

/-- The tool asks for a capability. -/
lemma Simulates.request {w : World} {s : Ideal} (h : Simulates n w s)
    (surfaces : List (String × String)) (cap : String) (args : Json) (stream : Bool) :
    ∃ s', Says s (advance surfaces w (.request cap args stream)).2 s' ∧
      Simulates n (advance surfaces w (.request cap args stream)).1 s' := by
  unfold advance
  dsimp only
  split
  · rename_i id call htool
    set r : Request := ⟨w.plugin.capId, some id, cap, args⟩
    set w' : World := { w with
      toDaemon := w.toDaemon ++ [r.frame]
      plugin.tool := .asking (.invoke id call) r stream
      plugin.capId := w.plugin.capId + 1 }
    have halive : w.plugin.tool ≠ .gone := by simp [htool]
    have hexchange : w'.plugin.tool.exchange = w.plugin.tool.exchange := by rw [htool]; rfl
    have hs : s.stage = .started (.invoke id call) := h.tool _ (by rw [htool]; rfl)
    have hwords : w'.words = w.words ++ [.inl r] := words_append rfl rfl
    have hold := h.words
    rw [hs] at hold
    obtain ⟨pending, hpending, hpendingTold, hrecent⟩ := h.told
    have hcutAt := (h.linked halive).cut
    refine ⟨_, Step.requested s _ r hs,
      { h with
        tool := fun k' hk' => h.tool k' (hexchange ▸ hk')
        words := ?_
        healthy := fun hh => ?_
        asked := fun k' r' stream' ht => congrArg some (Tool.asking.inj ht).2.1
        told := ⟨pending, hpending, hpendingTold, fun hdeaf hsync => ?_⟩
        linked := fun _ =>
          { h.linked halive with
            cut := fun c hc => ?_ } }⟩
    · rw [hwords, hs]
      simpa [Stage.answered] using hold.append_right [.inl r]
    · have := (h.healthy hh).2.1
      simp [htool, Tool.exchange] at this
    · have hbefore := hrecent hdeaf hsync
      rw [Plugin.Recent, htool] at hbefore
      refine ⟨rfl, _, [r], ?_, fun o ho => (hbefore o ho).1, fun o ho => List.mem_singleton.mp ho⟩
      rw [World.requests, hwords, List.filterMap_append, ← List.append_assoc]
      rfl
    · cases hcutAt c hc with
      | reply hkind hfollowed hlast =>
        exact .reply hkind (fun hf => ⟨(hfollowed hf).1, hexchange.trans (hfollowed hf).2⟩) hlast
      | exchange _ hquiet _ _ =>
        have := hquiet.2.1
        simp [htool, Tool.exchange] at this
      | shutdown hf hphase => exact .shutdown hf hphase
  · exact ⟨s, rfl, h⟩

/-- An id is spent on a request that is too large. -/
lemma Simulates.requestTooLarge {w : World} {s : Ideal} (h : Simulates n w s) (hn : n + 2 < 2 ^ 64)
    (surfaces : List (String × String)) :
    ∃ s', Says s (advance surfaces w .requestTooLarge).2 s' ∧
      Simulates (n + 1) (advance surfaces w .requestTooLarge).1 s' := by
  obtain ⟨pending, hpending, hpendingTold, hrecent⟩ := h.told
  unfold advance
  dsimp only
  split
  · rename_i id call htool
    have halive : w.plugin.tool ≠ .gone := by simp [htool]
    have hcutAt := (h.linked halive).cut
    refine ⟨s, rfl,
      { h with
        told := ⟨pending, hpending, hpendingTold, fun hdeaf hsync => ?_⟩
        linked := fun _ =>
          { h.linked halive with
            cut := fun c hc => (hcutAt c hc).move rfl rfl (List.Sublist.refl _) (fun _ hk => hk)
              Or.inl (Or.inr rfl) } }⟩
    have hbefore := hrecent hdeaf hsync
    rw [Plugin.Recent, htool] at hbefore ⊢
    exact fun o ho => recent_spend hn (hbefore o ho)
  · exact ⟨s, rfl,
      { h with
        told := ⟨pending, hpending, hpendingTold, fun hdeaf hsync =>
          (hrecent hdeaf hsync).mono (Nat.le_add_right n 1)⟩ }⟩

/-- The tool is done, or the surface is found. -/
lemma Simulates.finish {w : World} {s : Ideal} (h : Simulates n w s)
    (surfaces : List (String × String)) (result : Answer) :
    ∃ s', Says s (w.finish surfaces result).2 s' ∧ Simulates n (w.finish surfaces result).1 s' := by
  unfold World.finish
  split
  · rename_i k htool
    have halive : w.plugin.tool ≠ .gone := by simp [htool]
    have hs : s.stage = .started k := h.tool k (by rw [htool]; rfl)
    obtain ⟨pending, hpending, hpendingTold, hrecent⟩ := h.told
    have hcutAt := (h.linked halive).cut
    have hunhealthy : w.state ≠ .healthy := fun hh => by
      have := (h.healthy hh).2.1
      simp [htool, Tool.exchange] at this
    have hcut : ∀ c, w.cut = some c → c.followed = false ∧ ((c.kind ∈ replyKinds ∧
        w.phase.exchange = none) ∨ ∃ next, w.phase = .killing next) := by
      intro c hc
      cases hcutAt c hc with
      | reply hkind hfollowed hlast =>
        cases hf : c.followed with
        | false => exact ⟨rfl, Or.inl ⟨hkind, hlast hf⟩⟩
        | true =>
          have := (hfollowed hf).2
          simp [htool, Tool.exchange] at this
      | exchange _ hquiet _ _ =>
        have := hquiet.2.1
        simp [htool, Tool.exchange] at this
      | shutdown hf hphase => exact ⟨hf, Or.inr hphase⟩
    have hcutAt' : ∀ w' : World, w'.phase = w.phase → ∀ c, w.cut = some c → w'.CutAt c := by
      intro w' hphase c hc
      obtain ⟨hf, ⟨hkind, hnone⟩ | hkilling⟩ := hcut c hc
      · exact .reply hkind (fun hh => by simp [hf] at hh) fun _ => hphase ▸ hnone
      · exact .shutdown hf (hphase ▸ hkilling)
    cases hsync : w.plugin.desync with
    | true =>
      refine ⟨s, rfl,
        { h with
          tool := fun k' hk' => by cases hk'
          healthy := fun hh => absurd hh hunhealthy
          asked := fun k' r' stream' ht => by cases ht
          told := ⟨pending, hpending, hpendingTold, fun _ hd => ?_⟩
          linked := fun _ =>
            { h.linked halive with
              cut := hcutAt' _ rfl } }⟩
      exact absurd (hsync.symm.trans hd) (by decide)
    | false =>
      simp only [Bool.false_eq_true, if_false]
      generalize k.answer surfaces result = a
      have hold := h.words
      have hcalls := h.calls
      rw [hs] at hold hcalls
      refine ⟨_, Step.finished s k a hs,
        { h with
          calls := hcalls
          tool := fun k' hk' => by cases hk'
          words := ?_
          healthy := fun hh => absurd hh hunhealthy
          call := fun k' hk' => ?_
          asked := fun k' r' stream' ht => by cases ht
          told := ⟨pending, hpending, hpendingTold, fun hdeaf _ => ?_⟩
          linked := fun _ =>
            { h.linked halive with
              cut := hcutAt' _ rfl } }⟩
      · rw [words_append rfl (word?_frame k.id a)]
        simpa [Stage.answered] using hold.append_right [.inr (k.id, a)]
      · have hcall := h.call k' hk'
        rw [hs] at hcall
        exact hcall
      · have hbefore := hrecent hdeaf hsync
        rw [Plugin.Recent, htool] at hbefore
        rw [Plugin.Recent, World.requests, words_append rfl (word?_frame k.id a),
          List.filterMap_append]
        simpa [World.requests] using hbefore
  · exact ⟨s, rfl, h⟩

/-! ## Runs -/

variable (surfaces : List (String × String))

/-- The ids that a step spends on nothing. -/
def Action.spent : Action → ℕ
  | .requestTooLarge => 1
  | _ => 0

/-- The ids that a run spends on nothing. -/
def spent (as : List Action) : ℕ := (as.map Action.spent).sum

/-- One step of either side. -/
lemma Simulates.advance {w : World} {s : Ideal} (h : Simulates n w s) (a : Action)
    (hn : n + a.spent + 1 < 2 ^ 64) :
    ∃ s', Says s (advance surfaces w a).2 s' ∧
      Simulates (n + a.spent) (advance surfaces w a).1 s' := by
  cases a with
  | invoke call =>
    obtain ⟨hsim, hnone⟩ := h.invoke call surfaces
    exact ⟨s, by rw [hnone]; rfl, hsim⟩
  | fetchSurface name =>
    obtain ⟨hsim, hnone⟩ := h.fetchSurface name surfaces
    exact ⟨s, by rw [hnone]; rfl, hsim⟩
  | shutdown =>
    unfold Session.advance
    dsimp only
    split
    · rename_i hphase
      exact ⟨s, rfl, h.turn rfl rfl rfl rfl rfl rfl id (fun _ hp => by cases hp)
        (Or.inl fun next hp => by simp [hphase] at hp)⟩
    · exact ⟨s, rfl, h⟩
  | writeShutdown o =>
    unfold Session.advance
    dsimp only
    split
    · rename_i next hphase
      exact ⟨s, rfl, h.writeShutdown hphase rfl rfl rfl (w.put_plugin _ o) (w.put_toDaemon _ o)
        (w.put_state _ o)⟩
    · exact ⟨s, rfl, h⟩
  | kill =>
    unfold Session.advance
    dsimp only
    split
    · rename_i next hphase
      refine ⟨s, rfl, h.exit rfl rfl rfl rfl rfl (Or.inr ?_)⟩
      cases next with
      | none => exact Or.inl rfl
      | some job => exact Or.inr ⟨job, rfl⟩
    · exact ⟨s, rfl, h⟩
  | start ok =>
    unfold Session.advance
    dsimp only
    split
    · rename_i next hphase
      cases ok with
      | true => exact ⟨s, rfl, simulates_start s rfl rfl rfl rfl rfl rfl⟩
      | false =>
        exact ⟨s, rfl, h.turn rfl rfl rfl rfl rfl rfl id (fun _ hp => by cases hp)
          (Or.inl fun next hp => by simp [hphase] at hp)⟩
    · exact ⟨s, rfl, h⟩
  | send o e =>
    unfold Session.advance
    dsimp only
    split
    · rename_i job hphase
      obtain ⟨k, s', hevent, hstep, hsim⟩ := h.send hphase o e
      exact ⟨s', by rw [hevent]; exact hstep, hsim⟩
    · exact ⟨s, rfl, h⟩
  | read => exact h.read surfaces
  | reply b o e => exact h.reply b o e
  | fail e torn => exact ⟨s, rfl, h.failed e (w.torn || torn)⟩
  | panic => exact ⟨s, rfl, h.panicked⟩
  | pluginRead goOn => exact h.pluginRead surfaces goOn
  | pluginReadCut f goOn => exact h.pluginReadCut surfaces f goOn
  | pluginFail => exact h.pluginFail surfaces
  | request cap args stream => exact h.request surfaces cap args stream
  | requestTooLarge => exact h.requestTooLarge hn surfaces
  | finish ok value error errorKind => exact h.finish surfaces (.result ok value error errorKind)
  | log level msg fields =>
    unfold Session.advance
    dsimp only
    split
    · exact ⟨s, rfl, h⟩
    · have hwords : { w with
          toDaemon := w.toDaemon ++ [Frame.log level msg fields] }.words = w.words := by
        simp [World.words, Frame.word?]
      refine ⟨s, rfl, h.move rfl rfl rfl (hwords ▸ List.Sublist.refl _) (fun _ hk => hk)
        (fun _ hr => hr) (fun hh => ?_) Or.inl h.sending (Or.inr rfl)⟩
      exact ⟨(h.healthy hh).1, (h.healthy hh).2.1, hwords.trans (h.healthy hh).2.2⟩
  | exit => exact ⟨s, rfl, h.exit rfl rfl rfl rfl rfl (Or.inl rfl)⟩

/-- A plugin that has just been spawned has said nothing. -/
lemma simulates_spawned : Simulates 0 spawned .initial where
  calls := List.Sublist.refl _
  tool k hk := by cases hk
  words := List.Sublist.refl _
  healthy _ := ⟨rfl, rfl, rfl⟩
  sending job hp := by cases hp
  call k hk := by cases hk
  serving r hr := by cases hr
  asked k r stream ht := by cases ht
  told := ⟨[], List.Sublist.refl _, rfl, fun _ _ o ho => absurd ho List.not_mem_nil⟩
  linked _ :=
    { frames := fun f hf => absurd hf List.not_mem_nil
      shutdown := fun _ => ⟨List.not_mem_nil, rfl⟩
      last := fun before after heq => absurd heq (by simp [spawned])
      desync := fun hd => by cases hd
      cut := fun c hc => by cases hc }

/-- After every run the two sides are at what can be seen of it. -/
lemma simulates_run (as : List Action) (h : spent as < 2 ^ 64 - 1) :
    ∃ s, Run .initial (events surfaces as) s ∧ Simulates (spent as) (run surfaces as) s := by
  induction as using List.reverseRecOn with
  | nil => exact ⟨_, .nil _, simulates_spawned⟩
  | append_singleton as a ih =>
    have hspent : spent (as ++ [a]) = spent as + a.spent := by simp [spent]
    rw [hspent] at h ⊢
    obtain ⟨s, hrun, hsim⟩ := ih (by omega)
    obtain ⟨s', hsays, hsim'⟩ := hsim.advance surfaces a (by omega)
    unfold events run
    rw [Emission.emitted_append, List.foldl_append]
    refine ⟨s', ?_, hsim'⟩
    change Run _ (events surfaces as ++ ((advance surfaces (run surfaces as) a).2.toList ++ [])) s'
    rw [List.append_nil]
    cases hevent : (advance surfaces (run surfaces as) a).2 with
    | none =>
      rw [hevent] at hsays
      obtain rfl : s' = s := hsays
      simpa using hrun
    | some e =>
      rw [hevent] at hsays
      exact hrun.snoc hsays

/-- **Refinement.**  What can be seen of a session, however reads and writes fail and however often
the plugin is replaced, is what can be seen of calls to a worker that may be lost. -/
theorem session_refines (as : List Action) (h : spent as < 2 ^ 64 - 1) :
    ∃ s, Run .initial (events surfaces as) s :=
  (simulates_run surfaces as h).imp fun _ h => h.1

/-- A tool asks for a capability after one that was too large, and has had the reply. -/
def sampleRun : List Action :=
  [.invoke ⟨"demo.go", .null, none, []⟩, .send .whole .other, .pluginRead true, .requestTooLarge,
    .request "db.op" .null false, .read, .reply (.result true .null none none) .whole .other,
    .pluginRead true]

lemma spent_sampleRun : spent sampleRun < 2 ^ 64 - 1 := by decide

theorem session_refines_sampleRun : ∃ s, Run .initial (events [] sampleRun) s :=
  session_refines [] sampleRun spent_sampleRun

/-- **Invokes.**  Every tool is run at most once for an `Invoke` that was sent, in their order, and
an invoke returns the result of the run that it has started, and no other one. -/
theorem invokes_at_most_once (as : List Action) (h : spent as < 2 ^ 64 - 1) :
    (RemoteCall.startedOf (events surfaces as)).Sublist (RemoteCall.sentOf (events surfaces as)) ∧
      ((RemoteCall.finishedOf (events surfaces as)).map Prod.fst).Sublist
        (RemoteCall.startedOf (events surfaces as)) ∧
      (RemoteCall.returnedOf (events surfaces as)).Sublist
        (RemoteCall.finishedOf (events surfaces as)) := by
  obtain ⟨s, hrun, -⟩ := simulates_run surfaces as h
  exact ⟨RemoteCall.started_sublist hrun, RemoteCall.finished_sublist hrun,
    RemoteCall.returned_sublist hrun⟩

theorem invokes_at_most_once_sampleRun :
    (RemoteCall.startedOf (events [] sampleRun)).Sublist
      (RemoteCall.sentOf (events [] sampleRun)) :=
  (invokes_at_most_once [] sampleRun spent_sampleRun).1

/-- **Capabilities.**  A capability is executed at most once for a request, as part of the invoke
whose tool has asked for it; and what a tool is told was replied to the request that it waits for.
-/
theorem capabilities_matched (as : List Action) (h : spent as < 2 ^ 64 - 1) :
    (RemoteCall.servedOf (events surfaces as)).Sublist
        (RemoteCall.requestedOf (events surfaces as)) ∧
      (RemoteCall.deliveredOf (events surfaces as)).Sublist
        (RemoteCall.repliedOf (events surfaces as)) ∧
      ∀ k r b, .delivered k r b ∈ events surfaces as →
        (k, r) ∈ RemoteCall.requestedOf (events surfaces as) := by
  obtain ⟨s, hrun, -⟩ := simulates_run surfaces as h
  exact ⟨RemoteCall.served_sublist hrun, RemoteCall.delivered_sublist hrun,
    fun _ _ _ hb => RemoteCall.requested_of_delivered hrun hb⟩

/-- The reply to the request that was sent has the second id, and comes to it. -/
theorem capabilities_matched_sampleRun :
    let k : Exchange := .invoke 1 ⟨"demo.go", .null, none, []⟩
    let r : Request := ⟨1, some 1, "db.op", .null⟩
    .delivered k r (.result true .null none none) ∈ events [] sampleRun ∧
      (k, r) ∈ RemoteCall.requestedOf (events [] sampleRun) :=
  have hdelivered : RemoteCall.Event.delivered (Exchange.invoke 1 ⟨"demo.go", .null, none, []⟩)
      (Request.mk 1 (some 1) "db.op" .null) (Reply.result true .null none none) ∈
        events [] sampleRun := by
    simp [sampleRun, events, Emission.emitted, advance, spawned, World.send, Job.exchange,
      Job.nextId, Exchange.phase, Exchange.frame, World.put, Plugin.Reads, Plugin.hear,
      serveSession, Request.frame, World.read, World.heard, invokeOn, isStreamingCap, World.reply,
      World.write, Reply.frame, sink, capSink]
  ⟨hdelivered, (capabilities_matched [] sampleRun spent_sampleRun).2.2 _ _ _ hdelivered⟩

/-- **The serial contract.**  As long as a plugin runs a tool, nothing else is on its way to it than
replies, and a `Shutdown` when it is about to be killed: no `Invoke` or `SurfaceGet` can put the
tool out of step. -/
theorem serial_contract (as : List Action) (hspent : spent as < 2 ^ 64 - 1) {k : Exchange}
    (h : (run surfaces as).plugin.tool.exchange = some k) :
    (∀ f ∈ (run surfaces as).toPlugin, (Frame.reply? f).isSome ∨ f = .shutdown) ∧
      ((run surfaces as).plugin.desync = true ∨ .shutdown ∈ (run surfaces as).toPlugin →
        ∃ next, (run surfaces as).phase = .killing next) := by
  obtain ⟨s, -, hsim⟩ := simulates_run surfaces as hspent
  have halive : (run surfaces as).plugin.tool ≠ .gone := by
    intro ht
    rw [ht] at h
    cases h
  have hnocalls : (run surfaces as).calls = [] := by
    have hsub := hsim.calls
    rw [hsim.tool k h] at hsub
    exact List.sublist_nil.mp hsub
  obtain ⟨hframes, hshutdown, -, -, -⟩ := hsim.linked halive
  refine ⟨fun f hf => ?_, fun hending => ?_⟩
  · rcases hframes f hf with hc | hrest
    · have hnone := List.filterMap_eq_nil_iff.mp hnocalls f hf
      rw [hnone] at hc
      cases hc
    · exact hrest
  · by_contra hne
    obtain ⟨hnot, hsync⟩ := hshutdown fun next hp => hne ⟨next, hp⟩
    exact hending.elim (fun hd => by simp [hsync] at hd) hnot

/-- A tool runs, and only the reply that it waits for is on its way. -/
theorem serial_contract_asking :
    let as : List Action := [.invoke ⟨"demo.go", .null, none, []⟩, .send .whole .other,
      .pluginRead true, .request "db.op" .null false, .read,
      .reply (.result true .null none none) .whole .other]
    (∀ f ∈ (run [] as).toPlugin, (Frame.reply? f).isSome ∨ f = .shutdown) ∧
      ((run [] as).plugin.desync = true ∨ .shutdown ∈ (run [] as).toPlugin →
        ∃ next, (run [] as).phase = .killing next) :=
  serial_contract [] _ (by decide) rfl

end Orca.PluginProto.Session
