import Mathlib.Data.List.GetD
import Orca.Library.Invariant
import Orca.Plugins.ToolCalls

/-!
# What calls between tools cannot do

Plugins may call whatever they like, in any order; requests, backends and tasks of the host come in
between.  In every run of the host a call reaches a tool only at a bounded depth and with a counter
that is shared by everything below one request (`calls_bounded`); for the caller of the request
behind it, with no more than its role, and never with what a request may have beyond its role
(`calls_authorized`); and as a dry run if the request is one (`dry_runs_stay_dry`).

`prepare_ok` says what a call that passes the gate looks like.  The rest is an invariant of the
invocations and of the tools that run (`Sound`), kept by each way in which an invocation is made.
-/

namespace Orca.ToolCalls

open Check

/-! ## A call that passes -/

/-- The arguments of a dry run. -/
def IsDryRun (args : Json) : Prop :=
  args.get? "dryRun" = some (.bool true) ∧ args.get? "execute" = none

/-- A call that passed the gate. -/
structure Passed (host : Host) (principal : String) (inv : Invocation) (tool : String) (args : Json)
    (ctx : ToolCtx) : Prop where
  /-- A request is behind the invocation. -/
  notSystem : inv.system = false
  /-- The plugin is in the chain behind the others. -/
  chain : ctx.callChain = inv.callChain ++ [principal]
  /-- The chain is not too long. -/
  depth : ctx.callChain.length ≤ maxDepth
  /-- The plugin of the tool is not in the chain. -/
  notInChain : ∀ owner, host.owner tool = some owner → owner ∉ ctx.callChain
  /-- The tool that runs declares the call. -/
  declares : declared tool inv.toolCalls = true
  callable : host.isToolCallable tool = true
  /-- A call from a peer without a proof reaches no custody tool. -/
  proven : inv.relay.any (fun r => !r.caProven) = true → host.tables.isCustody tool = false
  /-- The caller may use the tool, and it is not one for super-admins. -/
  authorized : ∃ needed, host.tables.knownRole tool = some needed ∧ needed ≠ "super-admin" ∧
    authorize inv.caller.role inv.caller.canMutate needed (host.tables.isDataMutation tool) = true
  /-- The tool runs for the caller. -/
  caller : ctx.verifiedCaller = some inv.caller ∧ ctx.auth = some inv.caller
  /-- The tool runs here, without what a request may have beyond the role of its caller. -/
  plain : ctx.peerTarget = none ∧ ctx.unbound = false ∧ ctx.localTransport = false ∧
    ctx.secondFactor = false ∧ ctx.ownerCli = false
  /-- The tool has the counter of the invocation. -/
  budget : ctx.callBudget = some inv.callBudget
  /-- An invocation that may not execute calls for dry runs only. -/
  dryRun : inv.childMayExecute = false → ctx.dryRun = true ∧ IsDryRun args

lemma refuseLoop_ok {tool : String} {chain : List String} {owner : Option String}
    (h : refuseLoop tool chain owner = .ok ()) :
    chain.length ≤ maxDepth ∧ ∀ o, owner = some o → o ∉ chain := by
  unfold refuseLoop at h
  obtain ⟨hdepth, howner⟩ := then_ok_iff.mp h
  refine ⟨by simpa using hdepth, ?_⟩
  rintro o rfl
  simpa using howner

/-- Arguments of a call that may not execute. -/
lemma childArgs_ok {tool : String} {args args' : Json} (h : childArgs false tool args = .ok args') :
    IsDryRun args' := by
  unfold childArgs at h
  rw [if_neg Bool.false_ne_true] at h
  cases args with
  | object entries =>
    cases h
    simp [IsDryRun, Json.get?, lookup_insertEntry, lookup_removeEntry]
  | null | bool _ | number _ | string _ | array _ => cases h

/-- What a call that passes the gate looks like. -/
theorem prepare_ok {host : Host} {call : Option ToolCall} {principal : String}
    {inv : Invocation} {ctx ctx' : ToolCtx} {tool : String} {args : Json}
    (h : prepare host call principal (some inv) ctx = .ok (tool, args, ctx')) :
    Passed host principal inv tool args ctx' := by
  unfold prepare at h
  obtain ⟨call, -, h⟩ := chain_ok_iff.mp h
  obtain ⟨i, hinv, h⟩ := chain_ok_iff.mp h
  rw [required_eq_ok, Option.filter_eq_some_iff] at hinv
  obtain ⟨hi, hsystem⟩ := hinv
  obtain rfl := Option.some.inj hi
  obtain ⟨hloop, h⟩ := then_ok_iff.mp h
  obtain ⟨hdeclared, h⟩ := then_ok_iff.mp h
  obtain ⟨hcallable, h⟩ := then_ok_iff.mp h
  obtain ⟨hproven, h⟩ := then_ok_iff.mp h
  obtain ⟨needed, hneeded, h⟩ := chain_ok_iff.mp h
  obtain ⟨hsuper, h⟩ := then_ok_iff.mp h
  obtain ⟨hauth, h⟩ := then_ok_iff.mp h
  obtain ⟨-, h⟩ := then_ok_iff.mp h
  obtain ⟨⟨ambient, peer, correlationId⟩, -, h⟩ := chain_ok_iff.mp h
  obtain ⟨-, h⟩ := then_ok_iff.mp h
  obtain ⟨args', hargs, h⟩ := chain_ok_iff.mp h
  cases h
  obtain ⟨hdepth, howner⟩ := refuseLoop_ok hloop
  simp only [ensure_eq_ok, required_eq_ok] at hdeclared hcallable hproven hneeded hsuper hauth
  refine ⟨by simpa using hsystem, rfl, hdepth, howner, hdeclared, hcallable, fun hrelay => ?_,
    ⟨needed, hneeded, by simpa using hsuper, hauth⟩, ⟨rfl, rfl⟩, ⟨rfl, rfl, rfl, rfl, rfl⟩, rfl,
    fun hchild => ?_⟩
  · simpa [hrelay] using hproven
  · rw [hchild] at hargs
    exact ⟨by simp only [hchild]; rfl, childArgs_ok hargs⟩

/-! ## Counters -/

/-- The counters are the old ones and perhaps one more, which is at most halfway through. -/
def Extends (budgets budgets' : List UInt64) : Prop :=
  budgets' = budgets ∨ ∃ v : UInt64, budgets' = budgets ++ [v] ∧ v.toNat ≤ 2 ^ 63 - 1

lemma Extends.length_le {budgets budgets' : List UInt64} (h : Extends budgets budgets') :
    budgets.length ≤ budgets'.length := by
  rcases h with rfl | ⟨v, rfl, -⟩
  · exact le_refl _
  · simp

lemma takeBudget_extends (budgets : List UInt64) (budget : Option ℕ) (chain : List String) :
    Extends budgets (takeBudget budgets budget chain).2 := by
  cases budget with
  | some b => exact Or.inl rfl
  | none =>
    refine Or.inr ⟨_, rfl, ?_⟩
    split <;> decide

/-- The counter of an invocation is there. -/
lemma takeBudget_lt {budgets : List UInt64} {budget : Option ℕ} (chain : List String)
    (h : ∀ b, budget = some b → b < budgets.length) :
    (takeBudget budgets budget chain).1 < (takeBudget budgets budget chain).2.length := by
  cases budget with
  | some b => exact h b rfl
  | none =>
    unfold takeBudget
    dsimp only
    rw [List.length_append]
    exact Nat.lt_add_one _

/-! ## Invocations -/

/-- What is known of an invocation that a tool makes. -/
lemma invocationFor_spec {host : Host} {budgets budgets' : List UInt64} {ctx : ToolCtx}
    {name : String} {args : Json} {inv : Invocation}
    (h : invocationFor host budgets ctx name args = some (inv, budgets')) :
    ctx.verifiedCaller = some inv.caller ∧ inv.system = false ∧ inv.callChain = ctx.callChain ∧
      inv.dryRun = (ctx.dryRun || flag args "dryRun") ∧
      (inv.callBudget, budgets') = takeBudget budgets ctx.callBudget ctx.callChain := by
  unfold invocationFor fromCtx at h
  rw [Option.map_map, Option.map_eq_some_iff] at h
  obtain ⟨caller, hcaller, h⟩ := h
  cases h
  exact ⟨hcaller, rfl, rfl, rfl, rfl⟩

lemma invocationFor_extends {host : Host} {budgets budgets' : List UInt64} {ctx : ToolCtx}
    {name : String} {args : Json} {inv : Invocation}
    (h : invocationFor host budgets ctx name args = some (inv, budgets')) :
    Extends budgets budgets' := by
  obtain ⟨-, -, -, -, hbudget⟩ := invocationFor_spec h
  have hextends := takeBudget_extends budgets ctx.callBudget ctx.callChain
  rwa [← hbudget] at hextends

lemma forBackend_extends (budgets : List UInt64) (verb : CoreVerb) (targeted : Bool)
    (reaches toolCalls : List String) :
    Extends budgets (forBackend budgets verb targeted reaches toolCalls).2 :=
  takeBudget_extends budgets verb.callBudget verb.callChain

/-- A tool that is dispatched to a plugin. -/
lemma dispatch_plugin {host : Host} {name software : String} {args args' : Json} {ctx : ToolCtx}
    (h : dispatch host name args ctx = .ok (.plugin software args')) :
    ∃ d, dryRunRequested args = .ok d ∧ args' = executeArgs host name args d ∧
      software ∉ ctx.callChain := by
  unfold dispatch at h
  obtain ⟨d, hd, h⟩ := chain_ok_iff.mp h
  split at h
  · obtain ⟨-, h⟩ := then_ok_iff.mp h
    obtain ⟨-, h⟩ := then_ok_iff.mp h
    cases h
  · split at h
    · cases h
    · obtain ⟨-, h⟩ := then_ok_iff.mp h
      obtain ⟨-, h⟩ := then_ok_iff.mp h
      split at h
      · cases h
      · split at h
        · cases h
        · obtain ⟨hentry, h⟩ := then_ok_iff.mp h
          cases h
          refine ⟨d, hd, rfl, ?_⟩
          simpa [refuseReentry] using hentry

lemma flag_of_get {args : Json} {k : String} (h : args.get? k = some (.bool true)) :
    flag args k = true := by
  rw [flag, h, Option.map_some, Option.getD_some, Json.eqv]
  rfl

/-- A plugin is told of a dry run. -/
lemma flag_executeArgs {host : Host} {name : String} {args : Json}
    (h : dryRunRequested args = .ok true) :
    flag (executeArgs host name args true) "dryRun" = true := by
  have hget : args.get? "dryRun" = some (.bool true) := by
    unfold dryRunRequested at h
    split at h
    · cases h
    · rename_i b hb
      cases h
      exact hb
    · cases h
  cases args with
  | object entries =>
    have hlookup : entries.lookup "dryRun" = some (.bool true) := hget
    have hremoved : (removeEntry entries "execute").lookup "dryRun" = some (.bool true) := by
      rw [lookup_removeEntry, if_neg (by decide), hlookup]
    refine flag_of_get ?_
    unfold executeArgs
    simp only [if_true]
    split
    · exact hremoved
    · split
      · exact hremoved
      · exact hlookup
  | null | bool _ | number _ | string _ | array _ => cases hget

/-! ## What holds in every run -/

/-- A caller is the same user as another one, and it may use no tool that the other may not. -/
structure CallerIdentity.ActsFor (caller user : CallerIdentity) : Prop where
  userId : caller.userId = user.userId
  username : caller.username = user.username
  /-- It may use no more tools. -/
  authority : ∀ needed isDataMutation,
    authorize caller.role caller.canMutate needed isDataMutation = true →
      authorize user.role user.canMutate needed isDataMutation = true

lemma CallerIdentity.ActsFor.refl (user : CallerIdentity) : user.ActsFor user :=
  ⟨rfl, rfl, fun _ _ h => h⟩

lemma CallerIdentity.ActsFor.trans {caller between user : CallerIdentity}
    (h : caller.ActsFor between) (h' : between.ActsFor user) : caller.ActsFor user :=
  ⟨h.userId.trans h'.userId, h.username.trans h'.username,
    fun needed d hauth => h'.authority needed d (h.authority needed d hauth)⟩

/-- A user whose role is lowered acts for the user. -/
lemma CallerIdentity.actsFor_lower (user : CallerIdentity) (floor : String) :
    CallerIdentity.ActsFor
      { user with role := if roleRank floor < roleRank user.role then floor else user.role }
      user := by
  refine ⟨rfl, rfl, fun needed d hauth => ?_⟩
  dsimp only at hauth
  split at hauth
  next hlt =>
    unfold authorize at hauth ⊢
    rw [Bool.or_eq_true] at hauth ⊢
    rcases hauth with hauth | hauth
    · unfold satisfies at hauth ⊢
      simp only [Bool.and_eq_true, decide_eq_true_eq] at hauth ⊢
      exact Or.inl ⟨hauth.1, hauth.2.trans hlt.le⟩
    · simp only [Bool.and_eq_true, bne_iff_ne, ne_eq] at hauth ⊢
      obtain ⟨⟨⟨hmutate, hneeded⟩, -⟩, -⟩ := hauth
      -- a role above another one is not one of the two that have no rank
      refine Or.inr ⟨⟨⟨hmutate, hneeded⟩, fun hempty => ?_⟩, fun hany => ?_⟩
      · rw [hempty] at hlt
        exact Nat.not_lt_zero _ hlt
      · rw [hany] at hlt
        exact Nat.not_lt_zero _ hlt
  next => exact hauth

/-- The caller acts for that of the request, and a dry run stays one. -/
def Backed (requests : List Request) (request : Option ℕ) (caller : CallerIdentity)
    (dryRun : Bool) : Prop :=
  ∃ i r, request = some i ∧ requests[i]? = some r ∧ caller.ActsFor r.caller ∧
    (r.dryRun = true → dryRun = true)

lemma Backed.mono {requests requests' : List Request} {request : Option ℕ} {caller : CallerIdentity}
    {dryRun : Bool} (h : Backed requests request caller dryRun) (hgrow : requests <+: requests') :
    Backed requests' request caller dryRun := by
  obtain ⟨i, r, hi, hr, hrest⟩ := h
  obtain ⟨later, rfl⟩ := hgrow
  refine ⟨i, r, hi, ?_, hrest⟩
  rw [List.getElem?_append_left (List.getElem?_eq_some_iff.mp hr).1, hr]

/-- What holds of an invocation: its chain is not too long, its counter is there, and if a request
is behind it, it acts for the caller of the request. -/
structure SoundActive (requests : List Request) (n : ℕ) (a : Active) : Prop where
  /-- The chain is not too long. -/
  depth : a.inv.callChain.length ≤ maxDepth
  counter : a.inv.callBudget < n
  /-- It acts for the caller of a request, or for the host. -/
  backed : a.inv.system = true ∧ a.request = none ∨
    Backed requests a.request a.inv.caller a.inv.dryRun

/-- What holds of the context in which a tool runs. -/
structure SoundCtx (requests : List Request) (n : ℕ) (request : Option ℕ) (ctx : ToolCtx)
    (dryRun : Bool) : Prop where
  /-- The chain is not too long. -/
  depth : ctx.callChain.length ≤ maxDepth
  counter : ∀ b, ctx.callBudget = some b → b < n
  /-- It is a context of the caller of a request. -/
  backed : ∀ caller, ctx.verifiedCaller = some caller → Backed requests request caller dryRun

/-- What holds of a tool that runs. -/
structure SoundRunning (requests : List Request) (n : ℕ) (r : Running) : Prop where
  ctx : SoundCtx requests n r.request r.ctx r.ctx.dryRun
  /-- What it hands down is from its context. -/
  verb : r.ctx.verifiedCaller = some r.verb.caller ∧ r.verb.dryRun = r.ctx.dryRun ∧
    r.verb.callChain = r.ctx.callChain ∧ r.verb.callBudget = r.ctx.callBudget

/-- What holds of a tool that a call reached. -/
structure SoundReached (requests : List Request) (n : ℕ) (c : Reached) : Prop where
  passed : Passed c.host c.principal c.caller c.tool c.args c.ctx
  counter : c.caller.callBudget < n
  backed : Backed requests c.request c.caller.caller c.caller.dryRun

/-- What holds in every run. -/
structure World.Sound (w : World) : Prop where
  invocations : ∀ a ∈ w.invocations, SoundActive w.requests w.budgets.length a
  running : ∀ r ∈ w.running, SoundRunning w.requests w.budgets.length r
  /-- Of the tools that calls reached. -/
  reached : ∀ c ∈ w.reached, SoundReached w.requests w.budgets.length c

/-- Nothing is lost when there are more requests and more counters. -/
lemma World.Sound.grow {w w' : World} (h : w.Sound) (hrequests : w.requests <+: w'.requests)
    (hbudgets : w.budgets.length ≤ w'.budgets.length)
      (hinvocations : w'.invocations = w.invocations)
    (hrunning : w'.running = w.running) (hreached : w'.reached = w.reached) : w'.Sound where
  invocations a ha := by
    rw [hinvocations] at ha
    obtain ⟨hdepth, hcounter, hbacked⟩ := h.invocations a ha
    exact ⟨hdepth, hcounter.trans_le hbudgets, hbacked.imp_right fun hb => hb.mono hrequests⟩
  running r hr := by
    rw [hrunning] at hr
    obtain ⟨⟨hdepth, hcounter, hbacked⟩, hverb⟩ := h.running r hr
    exact ⟨⟨hdepth, fun b hb => (hcounter b hb).trans_le hbudgets,
      fun caller hc => (hbacked caller hc).mono hrequests⟩, hverb⟩
  reached c hc := by
    rw [hreached] at hc
    obtain ⟨hpassed, hcounter, hbacked⟩ := h.reached c hc
    exact ⟨hpassed, hcounter.trans_le hbudgets, hbacked.mono hrequests⟩

/-- A plugin is given a sound invocation. -/
lemma World.Sound.give {w : World} (h : w.Sound) {software : String}
    {made : Option (Invocation × List UInt64)} {request : Option ℕ}
    (hmade : ∀ inv budgets, made = some (inv, budgets) → Extends w.budgets budgets ∧
      SoundActive w.requests budgets.length ⟨software, inv, request⟩) :
    (w.give software made request).Sound := by
  cases made with
  | none => exact h
  | some made =>
    obtain ⟨inv, budgets⟩ := made
    obtain ⟨hextends, hsound⟩ := hmade inv budgets rfl
    have hgrown : World.Sound { w with budgets := budgets } :=
      h.grow (List.prefix_refl _) hextends.length_le rfl rfl rfl
    refine ⟨fun a ha => ?_, hgrown.running, hgrown.reached⟩
    rcases List.mem_append.mp ha with ha | ha
    · exact hgrown.invocations a ha
    · rw [List.mem_singleton.mp ha]
      exact hsound

/-- An invocation that is made in a sound context is sound. -/
lemma soundActive_invocationFor {requests : List Request} {budgets budgets' : List UInt64}
    {host : Host} {ctx : ToolCtx} {request : Option ℕ} {name software : String} {args : Json}
    {inv : Invocation} {dryRun : Bool} (h : SoundCtx requests budgets.length request ctx dryRun)
    (hdry : dryRun = true → (ctx.dryRun || flag args "dryRun") = true)
    (hmade : invocationFor host budgets ctx name args = some (inv, budgets')) :
    Extends budgets budgets' ∧ SoundActive requests budgets'.length ⟨software, inv, request⟩ := by
  obtain ⟨hcaller, -, hchain, hflag, hbudget⟩ := invocationFor_spec hmade
  have hcounter := takeBudget_lt ctx.callChain h.counter
  rw [← hbudget] at hcounter
  obtain ⟨i, r, hi, hr, hfor, hrequest⟩ := h.backed _ hcaller
  exact ⟨invocationFor_extends hmade, hchain ▸ h.depth, hcounter,
    Or.inr ⟨i, r, hi, hr, hfor, fun hd => hflag ▸ hdry (hrequest hd)⟩⟩

lemma coreVerb_spec {host : Host} {name : String} {args : Json} {ctx : ToolCtx} {verb : CoreVerb}
    (h : coreVerb host name args ctx = some verb) : ctx.verifiedCaller = some verb.caller ∧
      verb.dryRun = (ctx.dryRun || (dryRunRequested args).toOption.getD true) ∧
      verb.callChain = ctx.callChain ∧ verb.callBudget = ctx.callBudget := by
  unfold coreVerb at h
  obtain ⟨caller, hcaller, h⟩ := Option.map_eq_some_iff.mp h
  cases h
  exact ⟨hcaller, rfl, rfl, rfl⟩

/-- A tool is dispatched in a sound context. -/
lemma World.Sound.land {w : World} (h : w.Sound) {host : Host} {name : String} {args : Json}
    {ctx : ToolCtx} {request : Option ℕ}
    (hctx : SoundCtx w.requests w.budgets.length request ctx
      (ctx.dryRun || (dryRunRequested args).toOption.getD true)) :
    (w.land host name args ctx request).Sound := by
  have hrunning : World.Sound { w with
      running := w.running ++ ((coreVerb host name args ctx).map fun verb =>
        Running.mk verb { ctx with dryRun := verb.dryRun } request).toList } := by
    refine ⟨h.invocations, fun r hr => ?_, h.reached⟩
    rcases List.mem_append.mp hr with hr | hr
    · exact h.running r hr
    · rw [Option.mem_toList, Option.map_eq_some_iff] at hr
      obtain ⟨verb, hverb, rfl⟩ := hr
      obtain ⟨hcaller, hdry, hchain, hbudget⟩ := coreVerb_spec hverb
      refine ⟨⟨hctx.depth, hctx.counter, fun caller hc => ?_⟩, hcaller, rfl, hchain, hbudget⟩
      exact hdry ▸ hctx.backed caller hc
  unfold World.land
  split
  · rename_i software args' hdispatch
    refine hrunning.give fun inv budgets hmade => ?_
    obtain ⟨d, hd, rfl, -⟩ := dispatch_plugin hdispatch
    refine soundActive_invocationFor hctx (fun hdry => ?_) hmade
    rw [hd] at hdry
    cases d with
    | false => simpa [Except.toOption] using Or.inl hdry
    | true => rw [flag_executeArgs hd, Bool.or_true]
  · exact hrunning

/-- A backend is given a sound invocation. -/
lemma soundActive_forBackend {requests : List Request} {budgets : List UInt64} {r : Running}
    (h : SoundRunning requests budgets.length r) (software : String) (targeted : Bool)
    (reaches toolCalls : List String) :
    SoundActive requests (forBackend budgets r.verb targeted reaches toolCalls).2.length
      ⟨software, (forBackend budgets r.verb targeted reaches toolCalls).1, r.request⟩ := by
  obtain ⟨hctx, hcaller, hdry, hchain, hbudget⟩ := h
  have hcounter := takeBudget_lt r.verb.callChain (hbudget ▸ hctx.counter)
  have hsame : (forBackend budgets r.verb targeted reaches toolCalls).1.callChain =
        r.verb.callChain ∧
      (forBackend budgets r.verb targeted reaches toolCalls).1.callBudget =
        (takeBudget budgets r.verb.callBudget r.verb.callChain).1 ∧
      (forBackend budgets r.verb targeted reaches toolCalls).1.dryRun = r.verb.dryRun := by
    unfold forBackend
    cases targeted <;> exact ⟨rfl, rfl, rfl⟩
  have hfor : (forBackend budgets r.verb targeted reaches toolCalls).1.caller.ActsFor
      r.verb.caller := by
    unfold forBackend
    cases targeted <;> exact CallerIdentity.actsFor_lower _ _
  obtain ⟨hsameChain, hsameBudget, hsameDry⟩ := hsame
  refine ⟨?_, ?_, Or.inr ?_⟩
  · rw [hsameChain, hchain]
    exact hctx.depth
  · rw [hsameBudget]
    exact hcounter
  · obtain ⟨i, q, hi, hq, hfor', hrequest⟩ := hctx.backed _ hcaller
    exact ⟨i, q, hi, hq, hfor.trans hfor', fun hd => (hsameDry.trans hdry).trans (hrequest hd)⟩

/-- A call that passed the gate comes with a sound context. -/
lemma Passed.soundCtx {requests : List Request} {n : ℕ} {host : Host} {principal tool : String}
    {inv : Invocation} {args : Json} {ctx : ToolCtx} {request : Option ℕ}
    (h : Passed host principal inv tool args ctx) (hcounter : inv.callBudget < n)
    (hbacked : Backed requests request inv.caller inv.dryRun) :
    SoundCtx requests n request ctx
      (ctx.dryRun || (dryRunRequested args).toOption.getD true) where
  depth := h.depth
  counter b hb := by
    rw [h.budget] at hb
    rwa [← Option.some.inj hb]
  backed caller hc := by
    rw [h.caller.1] at hc
    obtain rfl := Option.some.inj hc
    obtain ⟨i, r, hi, hr, hfor, hrequest⟩ := hbacked
    refine ⟨i, r, hi, hr, hfor, fun hd => ?_⟩
    have hchild : inv.childMayExecute = false := by
      unfold Invocation.childMayExecute
      rw [hrequest hd, Bool.not_true, Bool.and_false]
    rw [(h.dryRun hchild).1, Bool.true_or]

/-- What a tool that runs dispatches in its own context keeps the host sound. -/
lemma World.Sound.land_running {w : World} (h : w.Sound) {r : Running} (hr : r ∈ w.running)
    (host : Host) (name : String) (args : Json) :
    (w.land host name args r.ctx r.request).Sound := by
  have hctx := (h.running r hr).ctx
  refine h.land ⟨hctx.depth, hctx.counter, fun caller hc => ?_⟩
  obtain ⟨i, q, hi, hq, hfor, hrequest⟩ := hctx.backed caller hc
  exact ⟨i, q, hi, hq, hfor, fun hd => by rw [hrequest hd, Bool.true_or]⟩

/-- One step keeps the host sound. -/
lemma World.Sound.advance {w : World} (h : w.Sound) (a : Action) : (w.advance a).Sound := by
  cases a with
  | request host ctx name args =>
    unfold World.advance
    dsimp only
    split
    next hfresh =>
      cases hverb : coreVerb host name args ctx with
      | none => exact h
      | some verb =>
        have hgrown : World.Sound
            { w with requests := w.requests ++ [Request.mk verb.caller verb.dryRun] } :=
          h.grow (List.prefix_append _ _) le_rfl rfl rfl rfl
        obtain ⟨hcaller, hdry, -, -⟩ := coreVerb_spec hverb
        refine hgrown.land ⟨?_, fun b hb => ?_, fun caller hc => ?_⟩
        · rw [hfresh.1]
          exact Nat.zero_le _
        · rw [hfresh.2] at hb
          cases hb
        · rw [hcaller] at hc
          obtain rfl := Option.some.inj hc
          refine ⟨w.requests.length, ⟨verb.caller, verb.dryRun⟩, rfl, ?_, .refl _, ?_⟩
          · exact List.getElem?_concat_length
          · exact fun hd => hdry ▸ hd
    next => exact h
  | call host invocation payload ctx admitted =>
    unfold World.advance
    dsimp only
    cases hactive : w.invocations[invocation]? with
    | none => exact h
    | some active =>
      dsimp only
      obtain ⟨-, hcounter, hbacked⟩ := h.invocations active (List.mem_of_getElem? hactive)
      split
      · exact h
      · rename_i tool args ctx' hprepare
        have hpassed := prepare_ok hprepare
        have hrequest : Backed w.requests active.request active.inv.caller active.inv.dryRun := by
          refine hbacked.resolve_left fun hs => ?_
          exact Bool.false_ne_true (hpassed.notSystem.symm.trans hs.1)
        have hlength : w.budgets.length =
            (consumeBudget w.budgets active.inv.callBudget).2.length := by
          unfold consumeBudget
          rw [List.length_modify]
        have hcounted : World.Sound
            { w with budgets := (consumeBudget w.budgets active.inv.callBudget).2 } :=
          h.grow (List.prefix_refl _) hlength.le rfl rfl rfl
        split
        · have hreached : World.Sound
              { w with
                budgets := (consumeBudget w.budgets active.inv.callBudget).2
                reached := w.reached ++ [Reached.mk host active.principal active.inv tool args ctx'
                  active.request] } := by
            refine ⟨hcounted.invocations, hcounted.running, fun c hc => ?_⟩
            rcases List.mem_append.mp hc with hc | hc
            · exact hcounted.reached c hc
            · rw [List.mem_singleton.mp hc]
              exact ⟨hpassed, hlength ▸ hcounter, hrequest⟩
          exact hreached.land (hpassed.soundCtx (hlength ▸ hcounter) hrequest)
        · exact hcounted
  | backend tool software targeted reaches toolCalls =>
    unfold World.advance
    dsimp only
    cases htool : w.running[tool]? with
    | none => exact h
    | some r =>
      refine h.give fun inv budgets hmade => ?_
      have hsound := soundActive_forBackend (h.running r (List.mem_of_getElem? htool)) software
        targeted reaches toolCalls
      have hextends := forBackend_extends w.budgets r.verb targeted reaches toolCalls
      rw [Option.some.inj hmade] at hextends hsound
      exact ⟨hextends, hsound⟩
  | invoke host tool name args =>
    unfold World.advance World.loaderDispatch
    dsimp only
    cases htool : w.running[tool]? with
    | none => exact h
    | some r =>
      have hctx := (h.running r (List.mem_of_getElem? htool)).ctx
      dsimp only
      split
      · exact h
      · split
        · exact h
        · refine h.give fun inv budgets hmade => ?_
          refine soundActive_invocationFor hctx (fun hd => ?_) hmade
          rw [hd, Bool.true_or]
      · exact h.land_running (List.mem_of_getElem? htool) host name args
  | dispatch host tool name args =>
    unfold World.advance
    dsimp only
    cases htool : w.running[tool]? with
    | none => exact h
    | some r => exact h.land_running (List.mem_of_getElem? htool) host name args
  | daemon software toolCalls =>
    unfold World.advance
    refine h.give fun inv budgets hmade => ?_
    obtain ⟨rfl, rfl⟩ := Prod.mk.inj (Option.some.inj hmade)
    exact ⟨Or.inr ⟨0, rfl, by decide⟩, Nat.zero_le _, by simp, Or.inl ⟨rfl, rfl⟩⟩

/-- Every run of the host is sound. -/
theorem sound_run (as : List Action) : (run as).Sound := by
  refine Invariant.foldl_invariant (fun a _ w hw => hw.advance a) ?_
  exact ⟨fun _ ha => absurd ha List.not_mem_nil, fun _ hr => absurd hr List.not_mem_nil,
    fun _ hc => absurd hc List.not_mem_nil⟩

/-! ## Counted calls -/

/-- How many calls with a counter reached a tool. -/
def World.callsOn (w : World) (b : ℕ) : ℕ :=
  w.reached.countP fun c => c.caller.callBudget == b

/-- Calls that reached a tool are counted, up to the most there may be; no counter has gone round
within `n` steps. -/
structure World.Counted (w : World) (n : ℕ) : Prop where
  value : ∀ v ∈ w.budgets, v.toNat ≤ 2 ^ 63 - 1 + n
  /-- The calls that reached a tool are counted. -/
  counted : ∀ b, w.callsOn b ≤ (w.budgets.getD b 0).toNat
  bounded : ∀ b, w.callsOn b ≤ maxPerRequest.toNat

/-- A new counter counts nothing yet. -/
lemma World.Counted.extend {w w' : World} {n : ℕ} (h : w.Counted n)
    (hextends : Extends w.budgets w'.budgets) (hreached : w'.reached = w.reached) :
    w'.Counted n := by
  have hcalls (b : ℕ) : w'.callsOn b = w.callsOn b := by rw [callsOn, callsOn, hreached]
  refine ⟨fun v hv => ?_, fun b => ?_, fun b => hcalls b ▸ h.bounded b⟩
  · rcases hextends with hsame | ⟨v', hnew, hv'⟩
    · exact h.value v (hsame ▸ hv)
    · rw [hnew, List.mem_append, List.mem_singleton] at hv
      rcases hv with hv | rfl
      · exact h.value v hv
      · exact hv'.trans (Nat.le_add_right _ _)
  · rw [hcalls b]
    rcases hextends with hsame | ⟨v', hnew, -⟩
    · exact hsame ▸ h.counted b
    · rcases lt_or_ge b w.budgets.length with hlt | hge
      · rw [hnew, List.getD_append _ _ _ _ hlt]
        exact h.counted b
      · have hzero := h.counted b
        rw [List.getD_eq_default _ _ hge] at hzero
        exact hzero.trans (Nat.zero_le _)

lemma World.Counted.mono {w : World} {m n : ℕ} (h : w.Counted m) (hle : m ≤ n) : w.Counted n :=
  ⟨fun v hv => (h.value v hv).trans (Nat.add_le_add_left hle _), h.counted, h.bounded⟩

/-- The counter of a call is one higher after it. -/
lemma toNat_consumeBudget {budgets : List UInt64} {b : ℕ} (hb : b < budgets.length)
    (hroom : (budgets.getD b 0).toNat + 1 < 2 ^ 64) (b' : ℕ) :
    ((consumeBudget budgets b).2.getD b' 0).toNat =
      (budgets.getD b' 0).toNat + if b = b' then 1 else 0 := by
  unfold consumeBudget
  dsimp only
  rw [List.getD_eq_getElem?_getD, List.getElem?_modify, List.getD_eq_getElem?_getD]
  split
  next heq =>
    subst heq
    rw [List.getD_eq_getElem _ _ hb] at hroom
    rw [List.getElem?_eq_getElem hb, Option.map_eq_map, Option.map_some, Option.getD_some,
      Option.getD_some, UInt64.toNat_add]
    exact Nat.mod_eq_of_lt hroom
  next => rw [id_map', Nat.add_zero]

lemma callsOn_concat (w : World) (budgets : List UInt64) (c : Reached) (b : ℕ) :
    World.callsOn { w with budgets, reached := w.reached ++ [c] } b =
      w.callsOn b + if c.caller.callBudget = b then 1 else 0 := by
  unfold World.callsOn
  rw [List.countP_append, List.countP_singleton]
  simp only [beq_iff_eq]

/-- A call is counted, whether it reaches a tool or not. -/
lemma World.Counted.consume {w : World} {n b : ℕ} (h : w.Counted n) (hn : n < 2 ^ 63)
    (hb : b < w.budgets.length) :
    World.Counted { w with budgets := (consumeBudget w.budgets b).2 } (n + 1) := by
  have hroom : (w.budgets.getD b 0).toNat + 1 < 2 ^ 64 := by
    rw [List.getD_eq_getElem _ _ hb]
    have hvalue := h.value _ (List.getElem_mem hb)
    omega
  have hstep := toNat_consumeBudget hb hroom
  refine ⟨fun v hv => ?_, fun b' => ?_, h.bounded⟩
  · obtain ⟨i, hi, rfl⟩ := List.getElem_of_mem hv
    have hold : i < w.budgets.length := by
      unfold consumeBudget at hi
      rwa [List.length_modify] at hi
    have hafter := hstep i
    rw [List.getD_eq_getElem _ _ hi, List.getD_eq_getElem _ _ hold] at hafter
    have hvalue := h.value _ (List.getElem_mem hold)
    split at hafter <;> omega
  · exact (h.counted b').trans ((hstep b').symm ▸ Nat.le_add_right _ _)

/-- A call reaches a tool only below the bound. -/
lemma World.Counted.reach {w : World} {n : ℕ} (h : w.Counted n) (hn : n < 2 ^ 63) (c : Reached)
    (hb : c.caller.callBudget < w.budgets.length)
    (hwithin : (consumeBudget w.budgets c.caller.callBudget).1 = true) :
    World.Counted
      { w with
        budgets := (consumeBudget w.budgets c.caller.callBudget).2
        reached := w.reached ++ [c] } (n + 1) := by
  have hbelow : (w.budgets.getD c.caller.callBudget 0).toNat < maxPerRequest.toNat := by
    unfold consumeBudget at hwithin
    exact of_decide_eq_true hwithin
  have hroom : (w.budgets.getD c.caller.callBudget 0).toNat + 1 < 2 ^ 64 := by
    have hmax : maxPerRequest.toNat = 64 := rfl
    omega
  refine ⟨(h.consume hn hb).value, fun b => ?_, fun b => ?_⟩
  · rw [callsOn_concat, toNat_consumeBudget hb hroom b]
    exact Nat.add_le_add_right (h.counted b) _
  · rw [callsOn_concat]
    split
    next heq =>
      subst heq
      exact (h.counted _).trans_lt hbelow
    next => exact h.bounded b

/-- An invocation that is given adds a counter or none, and reaches no tool. -/
lemma World.Counted.give {w : World} {n : ℕ} (h : w.Counted n) {software : String}
    {made : Option (Invocation × List UInt64)} {request : Option ℕ}
    (hmade : ∀ inv budgets, made = some (inv, budgets) → Extends w.budgets budgets) :
    (w.give software made request).Counted n := by
  cases made with
  | none => exact h
  | some made => exact h.extend (hmade made.1 made.2 rfl) rfl

/-- A tool that is dispatched adds a counter or none. -/
lemma World.Counted.land {w : World} {n : ℕ} (h : w.Counted n) (host : Host) (name : String)
    (args : Json) (ctx : ToolCtx) (request : Option ℕ) :
    (w.land host name args ctx request).Counted n := by
  have hrunning : World.Counted { w with
      running := w.running ++ ((coreVerb host name args ctx).map fun verb =>
        Running.mk verb { ctx with dryRun := verb.dryRun } request).toList } n :=
    h.extend (Or.inl rfl) rfl
  unfold World.land
  split
  · exact hrunning.give fun inv budgets hmade => invocationFor_extends hmade
  · exact hrunning

/-- One step counts the call that it is. -/
lemma World.Counted.advance {w : World} {n : ℕ} (h : w.Counted n) (hsound : w.Sound)
    (hn : n < 2 ^ 63) (a : Action) : (w.advance a).Counted (n + 1) := by
  have hmore : w.Counted (n + 1) := h.mono (Nat.le_add_right _ _)
  cases a with
  | request host ctx name args =>
    unfold World.advance
    dsimp only
    split
    · split
      next verb _ =>
        have hrequested : World.Counted
            { w with requests := w.requests ++ [Request.mk verb.caller verb.dryRun] } (n + 1) :=
          hmore.extend (Or.inl rfl) rfl
        exact hrequested.land _ _ _ _ _
      next => exact hmore
    · exact hmore
  | call host invocation payload ctx admitted =>
    unfold World.advance
    dsimp only
    cases hactive : w.invocations[invocation]? with
    | none => exact hmore
    | some active =>
      have hcounter := (hsound.invocations active (List.mem_of_getElem? hactive)).counter
      dsimp only
      split
      · exact hmore
      · split
        next hadmitted =>
          rw [Bool.and_eq_true] at hadmitted
          exact World.Counted.land (h.reach hn (Reached.mk host active.principal active.inv _ _ _
            active.request) hcounter hadmitted.1) _ _ _ _ _
        next => exact h.consume hn hcounter
  | backend tool software targeted reaches toolCalls =>
    unfold World.advance
    dsimp only
    split
    · exact hmore
    · refine hmore.give fun inv budgets hmade => ?_
      have hextends := forBackend_extends w.budgets (Running.verb ‹_›) targeted reaches toolCalls
      rwa [Option.some.inj hmade] at hextends
  | invoke host tool name args =>
    unfold World.advance World.loaderDispatch
    dsimp only
    split
    · exact hmore
    · split
      · exact hmore
      · split
        · exact hmore
        · exact hmore.give fun inv budgets hmade => invocationFor_extends hmade
      · exact hmore.land _ _ _ _ _
  | dispatch host tool name args =>
    unfold World.advance
    dsimp only
    split
    · exact hmore
    · exact hmore.land _ _ _ _ _
  | daemon software toolCalls =>
    unfold World.advance
    refine hmore.give fun inv budgets hmade => ?_
    obtain ⟨rfl, rfl⟩ := Prod.mk.inj (Option.some.inj hmade)
    exact Or.inr ⟨0, rfl, by decide⟩

/-- No counter goes round in a run that is short enough. -/
theorem counted_run (as : List Action) (hshort : as.length ≤ 2 ^ 63) :
    (run as).Counted as.length := by
  induction as using List.reverseRecOn with
  | nil =>
    refine ⟨fun _ hv => absurd hv List.not_mem_nil, fun b => ?_, fun b => ?_⟩ <;>
      exact Nat.zero_le _
  | append_singleton as a ih =>
    rw [List.length_append, List.length_singleton] at hshort ⊢
    unfold run
    rw [List.foldl_concat]
    exact (ih (Nat.le_of_succ_le hshort)).advance (sound_run as) hshort a

/-! ## What calls cannot do -/

/-- A host with a plugin whose tool calls a tool of another plugin. -/
def twoPlugins : Host where
  tables :=
    { coreTools := []
      roles := fun _ => none
      mutations := fun _ => false
      pluginTools := fun tool =>
        if tool = "p.run" ∨ tool = "q.run" then
          some ⟨"read", false, true, false, false, false, false⟩
        else none
      unitOps := fun _ => none
      dynamicTools := []
      localOnly := fun _ => false }
  isToolCallable tool := tool == "q.run"
  requiresFreshSecondFactor _ := false
  unitDryRunOk _ := false
  declaresSystem _ := false
  knownHere _ := true
  surfaceOwner _ := none
  owner tool := if tool = "p.run" then some "p" else if tool = "q.run" then some "q" else none
  toolReaches _ := []
  toolToolCalls tool := if tool = "p.run" then ["q.*"] else []

/-- A user asks for a dry run of the one tool, and its plugin calls the other one to execute. -/
def dryCall : List Action :=
  let user : CallerIdentity := ⟨"1", "alice", "user", false⟩
  let ctx : ToolCtx :=
    ⟨some user, some user, none, none, false, false, true, true, true, [], none, none⟩
  let host : ToolCtx := ⟨none, none, none, none, false, false, false, false, false, [], none, none⟩
  [.request twoPlugins ctx "p.run" (.object [("dryRun", .bool true)]),
    .call twoPlugins 0 (some ⟨"q.run", .object [("execute", .bool true)]⟩) host true]

/-- A call reaches a tool at a depth of at most `maxDepth`, and a tool of no plugin that is in the
chain of calls above it.  Everything that shares a counter reaches at most `maxPerRequest` tools. -/
theorem calls_bounded (as : List Action) (hshort : as.length ≤ 2 ^ 63) :
    (∀ c ∈ (run as).reached, c.ctx.callChain.length ≤ maxDepth ∧
      c.principal ∈ c.ctx.callChain ∧
      ∀ owner, c.host.owner c.tool = some owner → owner ∉ c.ctx.callChain) ∧
    ∀ b, (run as).reached.countP (fun c => c.ctx.callBudget == some b) ≤ maxPerRequest.toNat := by
  refine ⟨fun c hc => ?_, fun b => ?_⟩
  · have hpassed := ((sound_run as).reached c hc).passed
    refine ⟨hpassed.depth, ?_, hpassed.notInChain⟩
    rw [hpassed.chain]
    exact List.mem_append_right _ (List.mem_singleton_self _)
  · have hbounded := (counted_run as hshort).bounded b
    unfold World.callsOn at hbounded
    rw [List.countP_congr (fun c hc => ?_)] at hbounded
    · exact hbounded
    · rw [((sound_run as).reached c hc).passed.budget, Option.some_beq_some]

/-- The call is the only one with its counter, and it is one. -/
theorem calls_bounded_of_dryCall :
    (run dryCall).reached.length = 1 ∧ ∀ c ∈ (run dryCall).reached, c.ctx.callChain.length ≤ 4 :=
  ⟨rfl, fun c hc => ((calls_bounded dryCall (by decide)).1 c hc).1⟩

/-- A tool that a call reaches runs for somebody who acts for the user of the request behind the
call, and that user may use it: it is declared by the caller's tool, may be called, and is none for
super-admins, and what the request had beyond the role of its user is gone. -/
theorem calls_authorized (as : List Action) (c : Reached) (hc : c ∈ (run as).reached) :
    ∃ i request needed, c.request = some i ∧ (run as).requests[i]? = some request ∧
      c.host.tables.knownRole c.tool = some needed ∧ needed ≠ "super-admin" ∧
      authorize request.caller.role request.caller.canMutate needed
        (c.host.tables.isDataMutation c.tool) = true ∧
      c.host.isToolCallable c.tool = true ∧ declared c.tool c.caller.toolCalls = true ∧
      (∃ user, c.ctx.verifiedCaller = some user ∧ user.ActsFor request.caller) ∧
      c.ctx.peerTarget = none ∧ c.ctx.localTransport = false ∧ c.ctx.secondFactor = false ∧
      c.ctx.ownerCli = false := by
  obtain ⟨hpassed, -, i, request, hi, hrequest, hfor, -⟩ := (sound_run as).reached c hc
  obtain ⟨needed, hneeded, hsuper, hauth⟩ := hpassed.authorized
  obtain ⟨hpeer, -, hlocal, hfactor, howner⟩ := hpassed.plain
  exact ⟨i, request, needed, hi, hrequest, hneeded, hsuper, hfor.authority _ _ hauth,
    hpassed.callable, hpassed.declares, ⟨_, hpassed.caller.1, hfor⟩, hpeer, hlocal, hfactor, howner⟩

/-- The tool that is called runs for the user, without the second factor of the request. -/
theorem calls_authorized_of_dryCall : ∃ c ∈ (run dryCall).reached, c.tool = "q.run" ∧
    c.ctx.verifiedCaller.map CallerIdentity.userId = some "1" ∧ c.ctx.secondFactor = false := by
  have hmem : (run dryCall).reached.head (by decide) ∈ (run dryCall).reached := List.head_mem _
  obtain ⟨-, -, -, -, -, -, -, -, -, -, -, -, -, hfactor, -⟩ := calls_authorized dryCall _ hmem
  exact ⟨_, hmem, rfl, rfl, hfactor⟩

/-- Below a request for a dry run no plugin gets an invocation that is not one or that may execute,
no tool of the host hands down anything else, and a call reaches tools with arguments of a dry run
only. -/
theorem dry_runs_stay_dry (as : List Action) (i : ℕ) (request : Request)
    (hrequest : (run as).requests[i]? = some request) (hdry : request.dryRun = true) :
    (∀ a ∈ (run as).invocations, a.request = some i →
      a.inv.dryRun = true ∧ a.inv.childMayExecute = false) ∧
    (∀ r ∈ (run as).running, r.request = some i → r.verb.dryRun = true ∧ r.ctx.dryRun = true) ∧
    ∀ c ∈ (run as).reached, c.request = some i → c.ctx.dryRun = true ∧ IsDryRun c.args := by
  have hbacked {requests : Option ℕ} {caller : CallerIdentity} {dryRun : Bool}
      (h : Backed (run as).requests requests caller dryRun) (hi : requests = some i) :
      dryRun = true := by
    obtain ⟨j, r, hj, hr, -, hrun⟩ := h
    obtain rfl := Option.some.inj (hi.symm.trans hj)
    obtain rfl := Option.some.inj (hrequest.symm.trans hr)
    exact hrun hdry
  have hmay {inv : Invocation} (h : inv.dryRun = true) : inv.childMayExecute = false := by
    unfold Invocation.childMayExecute
    rw [h, Bool.not_true, Bool.and_false]
  refine ⟨fun a ha hi => ?_, fun r hr hi => ?_, fun c hc hi => ?_⟩
  · rcases ((sound_run as).invocations a ha).backed with ⟨-, hnone⟩ | h
    · rw [hnone] at hi
      cases hi
    · exact ⟨hbacked h hi, hmay (hbacked h hi)⟩
  · obtain ⟨hctx, hcaller, hverb, -⟩ := (sound_run as).running r hr
    have h := hbacked (hctx.backed _ hcaller) hi
    exact ⟨hverb.trans h, h⟩
  · obtain ⟨hpassed, -, h⟩ := (sound_run as).reached c hc
    exact hpassed.dryRun (hmay (hbacked h hi))

/-- The tool that is called is told to plan, although the plugin asked it to execute. -/
theorem dry_runs_stay_dry_of_dryCall :
    (run dryCall).reached.length = 1 ∧ ∀ c ∈ (run dryCall).reached, IsDryRun c.args := by
  refine ⟨rfl, fun c hc => ?_⟩
  have hdry := dry_runs_stay_dry dryCall 0 ⟨⟨"1", "alice", "user", false⟩, true⟩ rfl rfl
  refine (hdry.2.2 c hc ?_).2
  obtain rfl := List.mem_singleton.mp hc
  rfl

end Orca.ToolCalls
