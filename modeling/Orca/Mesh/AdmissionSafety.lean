import Orca.Mesh.Admission

/-!
# Nobody joins without an administrator

However the statements of the tasks interleave, whoever gets certificates has the key and the code
of an offer that an administrator made, or that was made for a token of an administrator that had
not expired (`admitted_by_administrator`); and as many offers are made for a token as often as it
was issued (`tokens_spent_once`).  An id that belongs to a member stays with the key of the member
(`id_stays_with_key`), but for a task that was let through before: the id is looked up in one
statement and written in another.

`Proceeds` and `Advances` say once what a statement and a step do, and each invariant follows from
them.  `Founded` is the one for the first result, with what was seen before as its history; for the
second, a token is counted where it is: in the table, with a task that consumed it, or spent.
-/

namespace Orca.Admission

open Check

/-! ## Steps -/

/-- What a statement of a task does. -/
inductive Proceeds (host : Host) (w : World) (a : Answers) :
    Phase → World → Phase → Option Event → Prop
  /-- A task that has answered does nothing. -/
  | rest : Proceeds host w a .done w .done none
  | refuse (phase : Phase) (e : String) : Proceeds host w a phase w .done (some (.refused e))
  | purge (t : OfferTask) (token : String) : Proceeds host w a (.purging t token)
      { w with tokens := purgeTokens w.tokens a.now } (.taking t token a.now) none
  | take (t : OfferTask) (token : String) (now : Int)
      (hone : (takeToken w.tokens (host.hashCode token) now).1.length = 1) :
      Proceeds host w a (.taking t token now)
        { w with tokens := (takeToken w.tokens (host.hashCode token) now).2 }
        (.checkingOpen t (host.hashCode token)) (some (.consumed (host.hashCode token) now))
  | miss (t : OfferTask) (token : String) (now : Int) (e : String) :
      Proceeds host w a (.taking t token now)
        { w with tokens := (takeToken w.tokens (host.hashCode token) now).2 } .done
        (some (.refused e))
  | unopened (t : OfferTask) (tokenHash meshId : String) :
      Proceeds host w a (.checkingOpen t tokenHash) w (.discovering t tokenHash meshId) none
  | discover (t : OfferTask) (tokenHash meshId : String) (p : PendingOffer → Bool) :
      Proceeds host w a (.discovering t tokenHash meshId)
        { w with offers := w.offers.filter p } (.offering t tokenHash meshId) none
  | make (t : OfferTask) (tokenHash meshId : String) (offers : List PendingOffer)
      (hinsert : insertPendingOffer w.offers (requestedOffer host t a) = .ok offers) :
      Proceeds host w a (.offering t tokenHash meshId) { w with offers } .done
        (some (.offered tokenHash (requestedOffer host t a) (requestOfferResult host t meshId a)))
  | find (t : JoinTask) (offer : PendingOffer)
      (hfind : findOutboundOfferByCodeAndFp w.offers (host.hashCode t.body.code) t.signerFp a.now =
        some offer) : Proceeds host w a (.lookingUp t) w (.checkingId t offer) none
  /-- The id is free, or that of the joiner. -/
  | pass (t : JoinTask) (offer : PendingOffer)
      (hfree : refuseTakenJoinerId host w.peers t.body.joinerHostname t.signerFp = .ok ()) :
      Proceeds host w a (.checkingId t offer) w (.admitting t offer) none
  | sign (t : JoinTask) (offer : PendingOffer) (result : JoinConfirmResult) (row : PeerRow)
      (hsign : signJoiner host t offer a = .ok (result, row)) :
      Proceeds host w a (.admitting t offer) { w with peers := upsertPeer w.peers row }
        (.cleaning t offer result) none
  /-- A stub of the legacy id is deleted. -/
  | clean (t : JoinTask) (offer : PendingOffer) (result : JoinConfirmResult) (p : PeerRow → Bool)
      (hp : ∀ row, row.peerId ≠ "unknown" → p row = true) :
      Proceeds host w a (.cleaning t offer result) { w with peers := w.peers.filter p }
        (.closing t offer result) none
  /-- The offer is deleted, and the request is answered. -/
  | close (t : JoinTask) (offer : PendingOffer) (result : JoinConfirmResult)
      (p : PendingOffer → Bool) :
      Proceeds host w a (.closing t offer result) { w with offers := w.offers.filter p } .done
        (some (.admitted t offer result))

/-- What a step does. -/
inductive Advances (host : Host) (w : World) (s : Step) : World → Option Event → Prop
  | rest : Advances host w s w none
  | refuse (e : String) : Advances host w s w (some (.refused e))
  | issue (token : JoinToken) :
      Advances host w s { w with tokens := w.tokens ++ [token] } (some (.issued token))
  /-- An offer is made by an administrator. -/
  | invite (offer : PendingOffer) (offers : List PendingOffer)
      (hinsert : insertPendingOffer w.offers offer = .ok offers) :
      Advances host w s { w with offers } (some (.invited offer))
  | drop (p : PendingOffer → Bool) :
      Advances host w s { w with offers := w.offers.filter p } none
  | write (f : List PeerRow → List PeerRow) (hs : s = .writePeers f) :
      Advances host w s { w with peers := f w.peers } none
  | receive (offer : PendingOffer) (offers : List PendingOffer)
      (hdirection : offer.direction = .inbound)
      (hinsert : insertPendingOffer w.offers offer = .ok offers) :
      Advances host w s { w with offers } none
  | beginOffer (t : OfferTask) (token : String) :
      Advances host w s { w with tasks := w.tasks ++ [.purging t token] } none
  | beginJoin (t : JoinTask) : Advances host w s { w with tasks := w.tasks ++ [.lookingUp t] } none
  | proceed (task : ℕ) (a : Answers) (phase : Phase) (htask : w.tasks[task]? = some phase)
      (w' : World) (phase' : Phase) (event : Option Event)
      (h : Proceeds host w a phase w' phase' event) :
      Advances host w s { w' with tasks := w.tasks.set task phase' } event

/-- A statement of a task does one of these things. -/
lemma proceeds (host : Host) (w : World) (a : Answers) (phase : Phase) :
    Proceeds host w a phase (proceed host w a phase).1 (proceed host w a phase).2.1
      (proceed host w a phase).2.2 := by
  cases phase with
  | done => exact .rest
  | purging t token => exact .purge t token
  | taking t token now =>
    unfold proceed
    dsimp only
    split
    · exact .take t token now ‹_›
    · exact .miss t token now _
  | checkingOpen t tokenHash =>
    unfold proceed
    dsimp only
    split
    · exact .refuse _ _
    · exact .unopened t tokenHash _
  | discovering t tokenHash meshId => exact .discover t tokenHash meshId _
  | offering t tokenHash meshId =>
    unfold proceed
    dsimp only
    split
    · exact .refuse _ _
    · exact .make t tokenHash meshId _ ‹_›
  | lookingUp t =>
    unfold proceed
    dsimp only
    split
    · exact .find t _ ‹_›
    · exact .refuse _ _
  | checkingId t offer =>
    unfold proceed
    dsimp only
    split
    · exact .pass t offer ‹_›
    · exact .refuse _ _
  | admitting t offer =>
    unfold proceed
    dsimp only
    split
    · exact .refuse _ _
    · exact .sign t offer _ _ ‹_›
  | cleaning t offer result =>
    refine .clean t offer result _ fun row hrow => ?_
    dsimp only
    rw [beq_eq_false_iff_ne.mpr hrow, Bool.false_and, Bool.not_false]
  | closing t offer result => exact .close t offer result _

lemma Proceeds.tasks {host : Host} {w w' : World} {a : Answers} {phase phase' : Phase}
    {event : Option Event} (h : Proceeds host w a phase w' phase' event) : w'.tasks = w.tasks := by
  cases h <;> rfl

/-- A step does one of these things. -/
lemma advances (host : Host) (w : World) (s : Step) :
    Advances host w s (advance host w s).1 (advance host w s).2 := by
  cases s with
  | issueJoinToken secret a =>
    unfold advance
    dsimp only
    split
    · rename_i tokens hinsert
      obtain ⟨-, hrows⟩ := then_ok_iff.mp hinsert
      obtain rfl := Except.ok.inj hrows
      exact .issue _
    · exact .refuse _
  | offer fp hostname addr port a =>
    unfold advance
    dsimp only
    split
    · exact .invite _ _ ‹_›
    · exact .refuse _
  | dropOffers p => exact .drop _
  | writePeers f => exact .write f rfl
  | handleOffer env peerIp a =>
    unfold advance
    dsimp only
    split
    · rename_i offers hinsert
      obtain ⟨row, hrow, hinsert⟩ := chain_ok_iff.mp hinsert
      refine .receive row offers ?_ hinsert
      unfold inboundOffer at hrow
      obtain ⟨⟨body, fp⟩, -, hrow⟩ := chain_ok_iff.mp hrow
      obtain ⟨-, hrow⟩ := then_ok_iff.mp hrow
      cases hrow
      rfl
    · exact .refuse _
  | handleRequestOffer env meshCa peerIp =>
    unfold advance
    dsimp only
    split
    · rename_i phase hstart
      unfold startRequestOffer at hstart
      obtain ⟨⟨body, fp⟩, -, hstart⟩ := chain_ok_iff.mp hstart
      obtain ⟨-, hstart⟩ := then_ok_iff.mp hstart
      obtain ⟨ca, -, hstart⟩ := chain_ok_iff.mp hstart
      obtain ⟨-, hstart⟩ := then_ok_iff.mp hstart
      cases hstart
      exact .beginOffer _ _
    · exact .refuse _
  | handleJoinConfirm env =>
    unfold advance
    dsimp only
    split
    · exact .beginJoin _
    · exact .refuse _
  | proceed task a =>
    unfold advance
    dsimp only
    cases htask : w.tasks[task]? with
    | none => exact .rest
    | some phase =>
      have hproceeds := proceeds host w a phase
      have hadvances := Advances.proceed (s := .proceed task a) task a phase htask _ _ _ hproceeds
      rw [← hproceeds.tasks] at hadvances
      exact hadvances

/-! ## What is founded on what was seen -/

/-- The offer was made by an administrator, or in answer to a request. -/
def Made (past : List Event) (offer : PendingOffer) : Prop :=
  .invited offer ∈ past ∨ ∃ tokenHash result, .offered tokenHash offer result ∈ past

/-- A token was issued, and consumed before it expired. -/
def Spent (past : List Event) (tokenHash : String) : Prop :=
  ∃ token now, .issued token ∈ past ∧ token.tokenHash = tokenHash ∧ now ≤ token.expiresAt ∧
    .consumed tokenHash now ∈ past

/-- The offer was made to the joiner. -/
structure Invited (host : Host) (past : List Event) (t : JoinTask) (offer : PendingOffer) :
    Prop where
  made : Made past offer
  /-- It is for the key that signed the request. -/
  key : offer.peerPubkeyFp = t.signerFp
  /-- It is for the code of the request. -/
  code : offer.codeHash = host.hashCode t.body.code

/-- What holds of a task. -/
def FoundedPhase (host : Host) (past : List Event) : Phase → Prop
  | .done | .purging _ _ | .taking _ _ _ | .lookingUp _ => True
  | .checkingOpen _ tokenHash | .discovering _ tokenHash _ | .offering _ tokenHash _ =>
    Spent past tokenHash
  | .checkingId t offer => Invited host past t offer
  | .admitting t offer | .cleaning t offer _ | .closing t offer _ =>
    Invited host past t offer ∧ t.body.joinerHostname ≠ host.machineId

/-- What holds of the tables. -/
structure FoundedTables (past : List Event) (w : World) : Prop where
  tokens : ∀ token ∈ w.tokens, .issued token ∈ past
  /-- Offers of this host were made. -/
  offers : ∀ o ∈ w.offers, o.direction = .outbound → Made past o

/-- What holds in every run. -/
structure Founded (host : Host) (w : World) (past : List Event) : Prop where
  tables : FoundedTables past w
  tasks : ∀ phase ∈ w.tasks, FoundedPhase host past phase

/-- What an event says of what was seen before it. -/
def Justified (host : Host) (past : List Event) : Event → Prop
  | .offered tokenHash _ _ => Spent past tokenHash
  | .admitted t offer _ => Invited host past t offer ∧ t.body.joinerHostname ≠ host.machineId
  | .issued _ | .invited _ | .consumed _ _ | .refused _ => True

variable {host : Host} {past past' : List Event}

lemma Made.mono {offer : PendingOffer} (h : Made past offer) (hsub : past ⊆ past') :
    Made past' offer := by
  rcases h with h | ⟨tokenHash, result, h⟩
  · exact .inl (hsub h)
  · exact .inr ⟨tokenHash, result, hsub h⟩

lemma Spent.mono {tokenHash : String} (h : Spent past tokenHash) (hsub : past ⊆ past') :
    Spent past' tokenHash := by
  obtain ⟨token, now, hissued, hhash, hnow, hconsumed⟩ := h
  exact ⟨token, now, hsub hissued, hhash, hnow, hsub hconsumed⟩

lemma Invited.mono {t : JoinTask} {offer : PendingOffer} (h : Invited host past t offer)
    (hsub : past ⊆ past') : Invited host past' t offer :=
  ⟨h.made.mono hsub, h.key, h.code⟩

lemma FoundedPhase.mono {phase : Phase} (h : FoundedPhase host past phase) (hsub : past ⊆ past') :
    FoundedPhase host past' phase := by
  cases phase with
  | done | purging _ _ | taking _ _ _ | lookingUp _ => trivial
  | checkingOpen _ _ | discovering _ _ _ | offering _ _ _ => exact Spent.mono h hsub
  | checkingId _ _ => exact Invited.mono h hsub
  | admitting _ _ | cleaning _ _ _ | closing _ _ _ => exact ⟨h.1.mono hsub, h.2⟩

lemma FoundedTables.mono {w w' : World} (h : FoundedTables past w) (hsub : past ⊆ past')
    (htokens : w'.tokens ⊆ w.tokens) (hoffers : w'.offers ⊆ w.offers) : FoundedTables past' w' :=
  ⟨fun token ht => hsub (h.tokens token (htokens ht)),
    fun o ho hout => (h.offers o (hoffers ho) hout).mono hsub⟩

lemma of_insertPendingOffer {offers offers' : List PendingOffer} {offer : PendingOffer}
    (h : insertPendingOffer offers offer = .ok offers') : offers' = offers ++ [offer] := by
  obtain ⟨-, h⟩ := then_ok_iff.mp h
  exact (Except.ok.inj h).symm

/-- An offer that was seen to be made may stand in the table. -/
lemma FoundedTables.insert {w w' : World} {offer : PendingOffer} (h : FoundedTables past w)
    (hsub : past ⊆ past') (htokens : w'.tokens = w.tokens)
    (hinsert : insertPendingOffer w.offers offer = .ok w'.offers)
    (hmade : offer.direction = .outbound → Made past' offer) : FoundedTables past' w' := by
  refine ⟨fun token ht => hsub (h.tokens token (htokens ▸ ht)), fun o ho hout => ?_⟩
  rw [of_insertPendingOffer hinsert] at ho
  rcases List.mem_append.mp ho with ho | ho
  · exact (h.offers o ho hout).mono hsub
  · rw [List.mem_singleton.mp ho] at hout ⊢
    exact hmade hout

lemma ne_of_refuseTakenJoinerId {peers : List PeerRow} {joinerId fp : String}
    (h : refuseTakenJoinerId host peers joinerId fp = .ok ()) : joinerId ≠ host.machineId := by
  unfold refuseTakenJoinerId at h
  obtain ⟨hown, -⟩ := then_ok_iff.mp h
  simpa using hown

/-- A statement of a task keeps what holds of the tables and of the task, and what is seen of it is
justified. -/
lemma Proceeds.founded {w w' : World} {a : Answers} {phase phase' : Phase} {event : Option Event}
    (h : Proceeds host w a phase w' phase' event) (htables : FoundedTables past w)
    (hphase : FoundedPhase host past phase) :
    FoundedTables (past ++ event.toList) w' ∧ FoundedPhase host (past ++ event.toList) phase' ∧
      event.elim True (Justified host past) := by
  have hsub : past ⊆ past ++ event.toList := List.subset_append_left _ _
  have hsame : FoundedTables (past ++ event.toList) w :=
    htables.mono hsub (fun _ h => h) (fun _ h => h)
  cases h with
  | rest | refuse _ _ => exact ⟨hsame, trivial, trivial⟩
  | purge _ _ | miss _ _ _ _ =>
    exact ⟨hsame.mono (fun _ h => h) (fun _ h => List.mem_of_mem_filter h) (fun _ h => h), trivial,
      trivial⟩
  | take t token now hone =>
    refine ⟨hsame.mono (fun _ h => h) (fun _ h => List.mem_of_mem_filter h) (fun _ h => h), ?_,
      trivial⟩
    unfold takeToken at hone
    dsimp only at hone
    obtain ⟨taken, htaken⟩ := List.length_eq_one_iff.mp hone
    have hmem : taken ∈ w.tokens.filter fun t =>
        t.tokenHash == host.hashCode token && decide (now ≤ t.expiresAt) :=
      htaken ▸ List.mem_singleton_self taken
    obtain ⟨hrow, hmatch⟩ := List.mem_filter.mp hmem
    rw [Bool.and_eq_true, beq_iff_eq, decide_eq_true_eq] at hmatch
    exact ⟨taken, now, hsub (htables.tokens taken hrow), hmatch.1, hmatch.2,
      List.mem_append_right _ (List.mem_singleton_self _)⟩
  | unopened _ _ _ => exact ⟨hsame, hphase.mono hsub, trivial⟩
  | discover _ _ _ _ =>
    exact ⟨hsame.mono (fun _ h => h) (fun _ h => h) (fun _ h => List.mem_of_mem_filter h),
      hphase.mono hsub, trivial⟩
  | make t tokenHash meshId offers hinsert =>
    refine ⟨htables.insert hsub rfl hinsert fun _ => Or.inr
      ⟨tokenHash, requestOfferResult host t meshId a, ?_⟩, trivial, hphase⟩
    exact List.mem_append_right _ (List.mem_singleton_self _)
  | find t offer hfind =>
    refine ⟨hsame, ?_, trivial⟩
    have hmatch := List.find?_some hfind
    simp only [Bool.and_eq_true, decide_eq_true_eq, beq_iff_eq] at hmatch
    obtain ⟨⟨⟨hout, hcode⟩, hkey⟩, -⟩ := hmatch
    exact ⟨hsame.offers offer (List.mem_of_find?_eq_some hfind) hout, hkey, hcode⟩
  | pass t offer hfree =>
    exact ⟨hsame, ⟨Invited.mono hphase hsub, ne_of_refuseTakenJoinerId hfree⟩, trivial⟩
  | sign _ _ _ _ _ | clean _ _ _ _ _ =>
    exact ⟨hsame.mono (fun _ h => h) (fun _ h => h) (fun _ h => h), hphase.mono hsub, trivial⟩
  | close _ _ _ _ =>
    exact ⟨hsame.mono (fun _ h => h) (fun _ h => h) (fun _ h => List.mem_of_mem_filter h), trivial,
      hphase⟩

/-- One step keeps what holds, and what is seen of it is justified. -/
lemma Founded.advance {w : World} (h : Founded host w past) (s : Step) :
    Founded host (advance host w s).1 (past ++ (advance host w s).2.toList) ∧
      (advance host w s).2.elim True (Justified host past) := by
  have hadvances := advances host w s
  generalize (Admission.advance host w s).1 = w', (Admission.advance host w s).2 = event
    at hadvances ⊢
  have hsub : past ⊆ past ++ event.toList := List.subset_append_left _ _
  have htables : FoundedTables (past ++ event.toList) w :=
    h.tables.mono hsub (fun _ h => h) (fun _ h => h)
  have htasks : ∀ phase ∈ w.tasks, FoundedPhase host (past ++ event.toList) phase :=
    fun phase hphase => (h.tasks phase hphase).mono hsub
  cases hadvances with
  | rest | refuse _ | write _ _ =>
    exact ⟨⟨htables.mono (fun _ h => h) (fun _ h => h) (fun _ h => h), htasks⟩, trivial⟩
  | issue token =>
    refine ⟨⟨⟨fun token ht => ?_, htables.offers⟩, htasks⟩, trivial⟩
    rcases List.mem_append.mp ht with ht | ht
    · exact htables.tokens token ht
    · rw [List.mem_singleton.mp ht]
      exact List.mem_append_right _ (List.mem_singleton_self _)
  | invite offer offers hinsert =>
    refine ⟨⟨h.tables.insert hsub rfl hinsert fun _ => Or.inl ?_, htasks⟩, trivial⟩
    exact List.mem_append_right _ (List.mem_singleton_self _)
  | drop p =>
    exact ⟨⟨htables.mono (fun _ h => h) (fun _ h => h) (fun _ h => List.mem_of_mem_filter h),
      htasks⟩, trivial⟩
  | receive offer offers hin hinsert =>
    -- an offer from another system is none of this host
    refine ⟨⟨h.tables.insert hsub rfl hinsert fun hout => ?_, htasks⟩, trivial⟩
    rw [hin] at hout
    cases hout
  | beginOffer t token | beginJoin t =>
    refine ⟨⟨htables.mono (fun _ h => h) (fun _ h => h) (fun _ h => h), fun phase hphase => ?_⟩,
      trivial⟩
    rcases List.mem_append.mp hphase with hphase | hphase
    · exact htasks phase hphase
    · rw [List.mem_singleton.mp hphase]
      trivial
  | proceed task a phase htask w' phase' event hproceeds =>
    have hphase := h.tasks phase (List.mem_of_getElem? htask)
    obtain ⟨htables', hnext, hevent⟩ := hproceeds.founded h.tables hphase
    refine ⟨⟨htables'.mono (fun _ h => h) (fun _ h => h) (fun _ h => h), fun p hp => ?_⟩, hevent⟩
    rcases List.mem_or_eq_of_mem_set hp with hp | rfl
    · exact htasks p hp
    · exact hnext

/-- What is seen of a run is justified by what was seen before. -/
theorem justified_run (host : Host) (steps : List Step) (before : List Event) (e : Event)
    (h : before ++ [e] <+: events host .start steps) : Justified host before e := by
  refine Emission.forall_initial_emitted
    (fun w past s (hw : Founded host w past) => (hw.advance s).1)
    (fun w past s e (hw : Founded host w past) he => ?_) ?_ steps before e h
  · have hjustified := (hw.advance s).2
    rw [he] at hjustified
    exact hjustified
  exact ⟨⟨fun _ h => absurd h List.not_mem_nil, fun _ h => absurd h List.not_mem_nil⟩,
    fun _ h => absurd h List.not_mem_nil⟩

/-- Whoever gets certificates is not this host, and was invited: it signed with the key and knew the
code of an offer that was made before, by an administrator or for a token of one that was consumed
before it expired. -/
theorem admitted_by_administrator (host : Host) (steps : List Step) (before : List Event)
    (t : JoinTask) (offer : PendingOffer) (result : JoinConfirmResult)
    (h : before ++ [.admitted t offer result] <+: events host .start steps) :
    t.body.joinerHostname ≠ host.machineId ∧ offer.peerPubkeyFp = t.signerFp ∧
      offer.codeHash = host.hashCode t.body.code ∧
      (.invited offer ∈ before ∨ ∃ token now answer, .issued token ∈ before ∧
        .consumed token.tokenHash now ∈ before ∧ now ≤ token.expiresAt ∧
        .offered token.tokenHash offer answer ∈ before) := by
  obtain ⟨⟨hmade, hkey, hcode⟩, hown⟩ := justified_run host steps before _ h
  refine ⟨hown, hkey, hcode, hmade.imp_right ?_⟩
  rintro ⟨tokenHash, answer, hoffered⟩
  -- the offer was justified when it was made
  obtain ⟨earlier, later, rfl⟩ := List.append_of_mem hoffered
  have hinitial : earlier ++ [.offered tokenHash offer answer] <+: events host .start steps := by
    refine List.IsPrefix.trans ⟨later ++ [.admitted t offer result], ?_⟩ h
    simp
  obtain ⟨token, now, hissued, rfl, hnow, hconsumed⟩ := justified_run host steps earlier _ hinitial
  exact ⟨token, now, answer, List.mem_append_left _ hissued, List.mem_append_left _ hconsumed, hnow,
    hoffered⟩

/-! ### A system that joins -/

/-- A member of a mesh. -/
def inviter : Host := ⟨"i", "inviter", "inviter", "inviter-key", 7443, [], id, fun _ => true⟩

/-- What is answered to it. -/
def answers : Answers :=
  ⟨0, 0, "offer", "code", none, fun _ _ _ => .ok ("cert", "ca"), fun _ => false⟩

/-- The request for an offer. -/
def offerTask : OfferTask :=
  ⟨⟨"joiner-key", "j", "joiner", none, none, some "token"⟩, "ca", "10.0.0.2"⟩

/-- The request for certificates. -/
def joinTask : JoinTask := ⟨⟨"code", "j", "csr", "csr", none⟩, "joiner-key"⟩

/-- An administrator issues a token, and a system joins with it; so many tasks were there before. -/
def joining (tasks : ℕ) : List Step :=
  [.issueJoinToken "token" answers, .handleRequestOffer (.ok (offerTask.body, "joiner-key"))
    (.ok "ca")
    "10.0.0.2"] ++ List.replicate 5 (.proceed tasks answers) ++
    [.handleJoinConfirm (.ok (joinTask.body, "joiner-key"))] ++
    List.replicate 5 (.proceed (tasks + 1) answers)

/-- What is seen of it before the system is admitted. -/
def beforeJoined : List Event :=
  [.issued ⟨"token", 600, 0⟩, .consumed "token" 0,
    .offered "token" (requestedOffer inviter offerTask answers)
      (requestOfferResult inviter offerTask "default" answers)]

/-- The system was invited. -/
theorem admitted_by_administrator_of_joining :
    "j" ≠ "i" ∧ "joiner-key" = "joiner-key" ∧ "code" = "code" ∧
      (.invited (requestedOffer inviter offerTask answers) ∈ beforeJoined ∨
        ∃ token now answer, .issued token ∈ beforeJoined ∧
          .consumed token.tokenHash now ∈ beforeJoined ∧ now ≤ token.expiresAt ∧
          .offered token.tokenHash (requestedOffer inviter offerTask answers) answer ∈
            beforeJoined) :=
  admitted_by_administrator inviter (joining 0) beforeJoined joinTask
    (requestedOffer inviter offerTask answers) ⟨"cert", "cert", "ca", "i", "default"⟩ ⟨[], rfl⟩

/-! ## Tokens are spent once -/

/-- A token was issued. -/
def issuedAs (tokenHash : String) : Event → Bool
  | .issued token => token.tokenHash == tokenHash
  | _ => false

/-- An offer was made for a token. -/
def offeredFor (tokenHash : String) : Event → Bool
  | .offered h _ _ => h == tokenHash
  | _ => false

/-- The task has consumed a token and has not made an offer yet. -/
def holds (tokenHash : String) : Phase → Bool
  | .checkingOpen _ h | .discovering _ h _ | .offering _ h _ => h == tokenHash
  | _ => false

/-- The token is in the table. -/
def isToken (tokenHash : String) (token : JoinToken) : Bool := token.tokenHash == tokenHash

/-- A token that was issued is in the table, with a task, or spent; or it has expired. -/
def Accounted (tokenHash : String) (w : World) (past : List Event) : Prop :=
  past.countP (offeredFor tokenHash) + w.tasks.countP (holds tokenHash) +
    w.tokens.countP (isToken tokenHash) ≤ past.countP (issuedAs tokenHash)

/-- The rows that are deleted for a token are no longer there. -/
lemma countP_takeToken (tokens : List JoinToken) (tokenHash : String) (now : Int) :
    (takeToken tokens tokenHash now).1.length +
        (takeToken tokens tokenHash now).2.countP (isToken tokenHash) =
      tokens.countP (isToken tokenHash) := by
  unfold takeToken
  dsimp only
  induction tokens with
  | nil => rfl
  | cons token tokens ih =>
    rw [List.filter_cons, List.filter_cons, List.countP_cons]
    cases hhash : token.tokenHash == tokenHash with
    | false =>
      have hne : isToken tokenHash token = false := hhash
      rw [Bool.false_and, if_neg Bool.false_ne_true, Bool.not_false, if_pos rfl, List.countP_cons,
        hne, ← Nat.add_assoc, ih]
    | true =>
      have heq : isToken tokenHash token = true := hhash
      rw [heq, if_pos rfl, Bool.true_and]
      cases decide (now ≤ token.expiresAt) with
      | false =>
        rw [if_neg Bool.false_ne_true, Bool.not_false, if_pos rfl, List.countP_cons, heq,
          if_pos rfl, ← Nat.add_assoc, ih]
      | true =>
        rw [if_pos rfl, Bool.not_true, if_neg Bool.false_ne_true, List.length_cons, ← ih]
        omega

/-- A statement of a task hands a token on, and issues none. -/
lemma Proceeds.accounted {w w' : World} {a : Answers} {phase phase' : Phase} {event : Option Event}
    (h : Proceeds host w a phase w' phase' event) (tokenHash : String) :
    event.toList.countP (offeredFor tokenHash) + (holds tokenHash phase').toNat +
        w'.tokens.countP (isToken tokenHash) ≤
      (holds tokenHash phase).toNat + w.tokens.countP (isToken tokenHash) ∧
    event.toList.countP (issuedAs tokenHash) = 0 := by
  cases h with
  | rest | find _ _ _ | pass _ _ _ | sign _ _ _ _ _ | clean _ _ _ _ _ | close _ _ _ _ =>
    exact ⟨Nat.le_refl _, rfl⟩
  | refuse phase _ => exact ⟨Nat.add_le_add_right (Nat.zero_le _) _, rfl⟩
  | purge _ _ | miss _ _ _ _ => exact ⟨Nat.add_le_add_left List.filter_sublist.countP_le _, rfl⟩
  | take t token now hone =>
    refine ⟨?_, rfl⟩
    change 0 + (host.hashCode token == tokenHash).toNat + _ ≤ 0 + _
    by_cases hsame : host.hashCode token = tokenHash
    · have htake := countP_takeToken w.tokens tokenHash now
      rw [← hsame] at htake ⊢
      rw [beq_self_eq_true, Bool.toNat_true]
      change 0 + 1 + (takeToken w.tokens (host.hashCode token) now).2.countP _ ≤ _
      omega
    · rw [beq_eq_false_iff_ne.mpr hsame, Bool.toNat_false]
      exact Nat.add_le_add_left List.filter_sublist.countP_le _
  | unopened _ _ _ | discover _ _ _ _ => exact ⟨Nat.add_le_add_right (Nat.zero_add _).le _, rfl⟩
  | make t h meshId offers _ =>
    refine ⟨Nat.add_le_add_right ?_ _, rfl⟩
    rw [Option.toList_some, List.countP_singleton]
    change (if (h == tokenHash) = true then 1 else 0) ≤ (h == tokenHash).toNat
    cases h == tokenHash <;> exact Nat.le_refl _

lemma ite_eq_toNat (b : Bool) : (if b = true then 1 else 0) = b.toNat := by
  cases b <;> rfl

/-- One step keeps tokens accounted for. -/
lemma Accounted.advance {tokenHash : String} {w : World} (h : Accounted tokenHash w past)
    (s : Step) :
    Accounted tokenHash (advance host w s).1 (past ++ (advance host w s).2.toList) := by
  have hadvances := advances host w s
  generalize (Admission.advance host w s).1 = w', (Admission.advance host w s).2 = event
    at hadvances ⊢
  unfold Accounted at h ⊢
  rw [List.countP_append, List.countP_append]
  cases hadvances with
  | rest | refuse _ | invite _ _ _ | drop _ | write _ _ | receive _ _ _ _ => exact h
  | issue token =>
    rw [Option.toList_some, List.countP_singleton, List.countP_singleton, List.countP_append,
      List.countP_singleton]
    change _ + 0 + _ + _ ≤ _
    unfold issuedAs isToken at *
    dsimp only
    omega
  | beginOffer _ _ | beginJoin _ =>
    -- a task that begins has consumed no token
    rw [List.countP_append]
    exact h
  | proceed task a phase htask w' phase' event hproceeds =>
    obtain ⟨hlt, hget⟩ := List.getElem?_eq_some_iff.mp htask
    obtain ⟨hstep, hissued⟩ := hproceeds.accounted tokenHash
    have hold : (holds tokenHash phase).toNat ≤ w.tasks.countP (holds tokenHash) := by
      cases hholds : holds tokenHash phase with
      | false => exact Nat.zero_le _
      | true => exact List.countP_pos_iff.mpr ⟨phase, List.mem_of_getElem? htask, hholds⟩
    rw [List.countP_set hlt, hget, hissued, ite_eq_toNat, ite_eq_toNat]
    dsimp only
    omega

/-- A token is not spent more often than it was issued, however the requests for it interleave. -/
theorem tokens_spent_once (host : Host) (steps : List Step) (tokenHash : String) :
    (events host .start steps).countP (offeredFor tokenHash) ≤
      (events host .start steps).countP (issuedAs tokenHash) := by
  have hstart : Accounted tokenHash .start [] := Nat.le_refl 0
  have h : Accounted tokenHash (run host .start steps) (events host .start steps) :=
    Emission.emitted_invariant
      (fun w past s (hw : Accounted tokenHash w past) => hw.advance s) hstart steps
  unfold Accounted at h
  omega

/-! ## An id stays with its key -/

/-- The id belongs to the member with the key. -/
def Holds (peers : List PeerRow) (id key : String) : Prop :=
  peerPubkeyFpRaw peers id = some (some key)

/-- The task has not been let through to take the id for another key. -/
def NoRival (id key : String) : Phase → Prop
  | .admitting t _ | .cleaning t _ _ | .closing t _ _ =>
    t.body.joinerHostname = id → t.signerFp = key
  | _ => True

/-- Whoever was admitted under the id has the key. -/
def Owned (id key : String) : Event → Prop
  | .admitted t _ _ => t.body.joinerHostname = id → t.signerFp = key
  | _ => True

/-- The id belongs to the member with the key, and no task takes it away. -/
structure Kept (id key : String) (w : World) : Prop where
  /-- The id belongs to the member. -/
  holds : Holds w.peers id key
  tasks : ∀ phase ∈ w.tasks, NoRival id key phase

variable {id key : String}

/-- Deleting other rows takes no id away. -/
lemma Holds.filter {peers : List PeerRow} {p : PeerRow → Bool} (h : Holds peers id key)
    (hp : ∀ row, row.peerId = id → p row = true) : Holds (peers.filter p) id key := by
  unfold Holds peerPubkeyFpRaw at h ⊢
  rw [List.find?_filter]
  have hsame : (fun row : PeerRow => p row && row.peerId == id) = fun row => row.peerId == id := by
    funext row
    cases hrow : row.peerId == id with
    | false => exact Bool.and_false _
    | true => rw [hp row (beq_iff_eq.mp hrow), Bool.true_and]
  simpa only [decide_eq_true_eq, Bool.decide_and, Bool.decide_eq_true, hsame] using h

/-- A row for the id keeps the key when it has the key. -/
lemma Holds.upsertPeer {peers : List PeerRow} {row : PeerRow} (h : Holds peers id key)
    (hrow : row.peerId = id → row.pubkeyFp = some key) : Holds (upsertPeer peers row) id key := by
  unfold Holds peerPubkeyFpRaw at h ⊢
  obtain ⟨found, hfind, hfp⟩ := Option.map_eq_some_iff.mp h
  have hmatch := List.find?_some hfind
  have hid : found.peerId = id := beq_iff_eq.mp hmatch
  unfold Admission.upsertPeer
  split
  next =>
    -- a row that is written over keeps its id
    have hsame : ((fun p : PeerRow => p.peerId == id) ∘ fun p : PeerRow =>
        if p.peerId == row.peerId then
          { p with
            peerHostname := row.peerHostname
            peerPort := row.peerPort
            pubkeyFp := row.pubkeyFp <|> p.pubkeyFp
            lastSeenAt := row.lastSeenAt
            departedAt := none }
        else p) = fun p => p.peerId == id := by
      funext p
      dsimp only [Function.comp_apply]
      split <;> rfl
    rw [List.find?_map, hsame, hfind, Option.map_some, Option.map_some]
    split
    next heq =>
      rw [hrow (by rw [← beq_iff_eq.mp heq, hid])]
      rfl
    next => rw [hfp]
  next =>
    rw [List.find?_append, hfind]
    exact congrArg some hfp

/-- The row of a joiner has the key that it signed with. -/
lemma row_of_signJoiner {t : JoinTask} {offer : PendingOffer} {a : Answers}
    {result : JoinConfirmResult} {row : PeerRow}
    (h : signJoiner host t offer a = .ok (result, row)) :
    row.peerId = t.body.joinerHostname ∧ row.pubkeyFp = some t.signerFp := by
  unfold signJoiner at h
  obtain ⟨client, -, h⟩ := chain_ok_iff.mp h
  obtain ⟨server, -, h⟩ := chain_ok_iff.mp h
  obtain ⟨-, h⟩ := then_ok_iff.mp h
  cases h
  exact ⟨rfl, rfl⟩

/-- Who is not refused an id that belongs to a member has its key. -/
lemma signerFp_of_refuseTakenJoinerId {peers : List PeerRow} {fp : String}
    (hholds : Holds peers id key) (h : refuseTakenJoinerId host peers id fp = .ok ()) :
      fp = key := by
  unfold refuseTakenJoinerId at h
  obtain ⟨-, h⟩ := then_ok_iff.mp h
  rw [show peerPubkeyFpRaw peers id = some (some key) from hholds] at h
  have hfp := ensure_eq_ok.mp h
  rw [beq_iff_eq, Option.some_inj] at hfp
  exact hfp.symm

/-- A statement of a task leaves the id with its key. -/
lemma Proceeds.kept {w w' : World} {a : Answers} {phase phase' : Phase} {event : Option Event}
    (h : Proceeds host w a phase w' phase' event) (hid : id ≠ "unknown")
    (hholds : Holds w.peers id key) (hphase : NoRival id key phase) :
    Holds w'.peers id key ∧ NoRival id key phase' ∧ event.elim True (Owned id key) := by
  cases h with
  | rest | refuse _ _ | purge _ _ | take _ _ _ _ | miss _ _ _ _ | unopened _ _ _ | discover _ _ _ _
  | make _ _ _ _ _ | find _ _ _ => exact ⟨hholds, trivial, trivial⟩
  | pass t offer hfree =>
    refine ⟨hholds, ?_, trivial⟩
    rintro rfl
    exact signerFp_of_refuseTakenJoinerId hholds hfree
  | sign t offer result row hsign =>
    obtain ⟨hrowid, hrowfp⟩ := row_of_signJoiner hsign
    refine ⟨hholds.upsertPeer fun heq => ?_, hphase, trivial⟩
    rw [hrowfp, hphase (hrowid ▸ heq)]
  | clean t offer result p hp =>
    exact ⟨hholds.filter fun row hrow => hp row (hrow ▸ hid), hphase, trivial⟩
  | close t offer result p => exact ⟨hholds, trivial, hphase⟩

/-- One step leaves the id with its key. -/
lemma Kept.advance {w : World} (h : Kept id key w) (host : Host) (hid : id ≠ "unknown") (s : Step)
    (hs : ∀ f, s = .writePeers f → ∀ peers, Holds peers id key → Holds (f peers) id key) :
    Kept id key (advance host w s).1 ∧ (advance host w s).2.elim True (Owned id key) := by
  have hadvances := advances host w s
  generalize (Admission.advance host w s).1 = w', (Admission.advance host w s).2 = event
    at hadvances ⊢
  cases hadvances with
  | rest | refuse _ | issue _ | invite _ _ _ | drop _ | receive _ _ _ _ =>
    exact ⟨⟨h.holds, h.tasks⟩, trivial⟩
  | write f hf => exact ⟨⟨hs f hf w.peers h.holds, h.tasks⟩, trivial⟩
  | beginOffer _ _ | beginJoin _ =>
    refine ⟨⟨h.holds, fun phase hphase => ?_⟩, trivial⟩
    rcases List.mem_append.mp hphase with hphase | hphase
    · exact h.tasks phase hphase
    · rw [List.mem_singleton.mp hphase]
      trivial
  | proceed task a phase htask w' phase' event hproceeds =>
    obtain ⟨hpeers, hnext, hevent⟩ :=
      hproceeds.kept hid h.holds (h.tasks phase (List.mem_of_getElem? htask))
    refine ⟨⟨hpeers, fun p hp => ?_⟩, hevent⟩
    rcases List.mem_or_eq_of_mem_set hp with hp | rfl
    · exact h.tasks p hp
    · exact hnext

/-- An id that belongs to a member with a key stays with the key, and whoever is admitted under it
has that key, as long as no task had been let through for another key before and nothing else takes
the id away. -/
theorem id_stays_with_key (host : Host) (w : World) (steps : List Step) (id key : String)
    (hid : id ≠ "unknown") (hkept : Kept id key w)
    (hothers : ∀ f, .writePeers f ∈ steps → ∀ peers, Holds peers id key → Holds (f peers) id key) :
    Kept id key (run host w steps) ∧
      ∀ t offer result, .admitted t offer result ∈ events host w steps →
        t.body.joinerHostname = id → t.signerFp = key := by
  induction steps generalizing w with
  | nil =>
    refine ⟨hkept, ?_⟩
    intro t offer result he
    exact absurd he List.not_mem_nil
  | cons s steps ih =>
    obtain ⟨hnext, hevent⟩ := hkept.advance host hid s
      fun f hs => hothers f (hs ▸ List.mem_cons_self)
    obtain ⟨hrun, hrest⟩ := ih _ hnext fun f hf => hothers f (List.mem_cons_of_mem s hf)
    refine ⟨hrun, fun t offer result he => ?_⟩
    rcases List.mem_append.mp he with he | he
    · have hsome : (advance host w s).2 = some (.admitted t offer result) := Option.mem_toList.mp he
      rw [hsome] at hevent
      exact hevent
    · exact hrest t offer result he

/-- A member joins once more, and its id stays with it. -/
theorem id_stays_with_key_of_joining :
    Kept "j" "joiner-key" (run inviter (run inviter .start (joining 0)) (joining 2)) ∧
      ∀ t offer result,
        .admitted t offer result ∈ events inviter (run inviter .start (joining 0)) (joining 2) →
        t.body.joinerHostname = "j" → t.signerFp = "joiner-key" := by
  refine id_stays_with_key inviter (run inviter .start (joining 0)) (joining 2) "j" "joiner-key"
    (by decide) ⟨rfl, ?_⟩ (by simp [joining])
  have htasks : (run inviter .start (joining 0)).tasks = [.done, .done] := rfl
  intro phase hphase
  rw [htasks] at hphase
  rcases List.mem_pair.mp hphase with rfl | rfl <;> trivial

end Orca.Admission
