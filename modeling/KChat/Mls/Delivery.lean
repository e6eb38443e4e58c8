import KChat.Lib.Delivery
import KChat.Mls.BothPaths

/-!
# A call delivers the commits of its batch

A batch without Welcomes is a list of commits: those that OpenMLS accepts are merged, the others are
ignored, and nothing else changes what commits look at.

* `CommitView.State`: what commits look at. `CommitView.log`: commits as an `EpochLog`.
* `Regular`, `Opens`: batches without Welcomes, and batches that are not skipped.
* `Sees`, `step_delivered`, **`processAllMessages_delivers`**: a call does what its commits do.
* **`rejected_iff`**: a message that is rejected changes nothing, iff its epoch can be loaded.
* **`calls_agree`**: batches that bring one log, with whatever repetition, end alike.
-/

namespace KChat.Mls

open Lib OpenMls

variable {M : CommitMls}

/-! ## Commits as a log -/

namespace CommitView

variable (V : CommitView M)

structure State where
  view : V.View
  queue : Set V.Reference
  epoch : ℕ

def state (s : Owning M.Group M.Db) : V.State where
  view := V.view s
  queue := V.queue s.self
  epoch := M.epoch s.self

def storedState (id : String) (s : Session M.toOpenMls) : Option V.State :=
  (M.stored s.store id).map fun g => V.state ⟨g, s.store⟩

variable {V}

theorem mergesTo_functional {m : M.ProtocolMessage} {s t u : Owning M.Group M.Db}
    (ht : MergesTo m s t) (hu : MergesTo m s u) : t = u := by
  obtain ⟨processed, commit, v, hprocess, hcontent, hmerge⟩ := ht
  obtain ⟨processed', commit', v', hprocess', hcontent', hmerge'⟩ := hu
  rw [hprocess] at hprocess'
  obtain ⟨rfl, rfl⟩ := EStateM.Result.ok.inj hprocess'
  rw [hcontent] at hcontent'
  obtain rfl := ProcessedMessageContent.stagedCommitMessage.inj hcontent'
  rw [hmerge] at hmerge'
  exact (EStateM.Result.ok.inj hmerge').2

theorem Lawful.accepts (hV : V.Lawful) {m : M.ProtocolMessage} {s t : Owning M.Group M.Db}
    (htype : V.contentType m = .commit) (h : MergesTo m s t) :
    V.references m ⊆ V.queue s.self ∧ M.messageEpoch m = M.epoch s.self := by
  obtain ⟨processed, commit, u, hprocess, -, -⟩ := h
  exact (wp_of_ok hprocess).mp (hV.accepted m s htype)

theorem state_eq_iff (hV : V.Lawful) {s t : Owning M.Group M.Db} :
    V.state s = V.state t ↔ V.view s = V.view t ∧ V.queue s.self = V.queue t.self := by
  constructor
  · intro h
    exact ⟨congrArg State.view h, congrArg State.queue h⟩
  · rintro ⟨hview, hqueue⟩
    rw [state, state, hview, hqueue, hV.epoch hview]

/-- From states that look alike a commit leads to states that look alike. -/
theorem Lawful.merges_alike (hV : V.Lawful) {m : M.ProtocolMessage} {s s' t : Owning M.Group M.Db}
    (htype : V.contentType m = .commit) (hstate : V.state s = V.state s') (h : MergesTo m s t) :
    ∃ t', MergesTo m s' t' ∧ V.state t' = V.state t := by
  obtain ⟨hview, hqueue⟩ := (state_eq_iff hV).mp hstate
  obtain ⟨t', ht', halike⟩ := hV.alike htype hview (hqueue ▸ (hV.accepts htype h).1) h
  refine ⟨t', ht', (state_eq_iff hV).mpr ⟨halike, ?_⟩⟩
  rw [(hV.merged ht').1, (hV.merged h).1]

/-- **Commits**: a commit takes effect where OpenMLS accepts it and merges it. -/
def log (hV : V.Lawful) : EpochLog M.ProtocolMessage V.State where
  Merges m a b := V.contentType m = .commit ∧
    ∃ s t, V.state s = a ∧ MergesTo m s t ∧ V.state t = b
  epoch := State.epoch
  of := M.messageEpoch
  functional := by
    rintro m a b c ⟨htype, s, t, rfl, ht, rfl⟩ ⟨-, s', t', hs', ht', rfl⟩
    obtain ⟨u, hu, hstate⟩ := hV.merges_alike htype hs' ht'
    rw [mergesTo_functional ht hu, hstate]
  sequenced := by
    rintro m a b ⟨htype, s, t, rfl, ht, rfl⟩
    exact ⟨(hV.accepts htype ht).2, (hV.merged ht).2⟩

theorem log_ignored (hV : V.Lawful) {m : M.ProtocolMessage} {s : Owning M.Group M.Db}
    (h : V.contentType m = .commit → ¬∃ t, MergesTo m s t) :
    (V.log hV).Ignored m (V.state s) := by
  rintro b ⟨htype, s', t', hs', ht', rfl⟩
  obtain ⟨t, ht, -⟩ := hV.merges_alike htype hs' ht'
  exact h htype ⟨t, ht⟩

end CommitView

/-- The commits of a list of messages: what is tagged as a commit and can be read. -/
def commitsOf (messages : List MlsMessage) : List M.ProtocolMessage :=
  messages.filterMap fun msg =>
    if msg.messageType = .commit then (protocolMessage (M := M.toOpenMls) msg.blob).toOption
    else none

variable (M) in
/-- **What is accepted as a commit can be merged**, as long as the store does not fail. -/
def CommitMls.MergesAccepted : Prop :=
  ∀ m s processed commit t, (M.processMessage m none).run s = .ok processed t →
    processed.content = .stagedCommitMessage commit →
    ∃ u, (M.mergeStagedCommit commit none).run t = .ok () u

/-- **A message of a regular batch**: no Welcome, and no proposal that is tagged as a commit. -/
def CommitView.Regular (V : CommitView M) (msg : MlsMessage) : Prop :=
  msg.messageType ≠ .welcome ∧ (msg.messageType = .commit →
    ∀ m, protocolMessage (M := M.toOpenMls) msg.blob = .ok m → V.contentType m ≠ .proposal)

theorem commitsOf_append (messages messages' : List MlsMessage) :
    commitsOf (M := M) (messages ++ messages') = commitsOf messages ++ commitsOf messages' :=
  List.filterMap_append

theorem commitsOf_cons (msg : MlsMessage) (messages : List MlsMessage) :
    commitsOf (M := M) (msg :: messages) = commitsOf [msg] ++ commitsOf messages :=
  commitsOf_append [msg] messages

theorem commitsOf_of_ne {msg : MlsMessage} (h : msg.messageType ≠ .commit) :
    commitsOf (M := M) [msg] = [] := by
  simp [commitsOf, h]

theorem commitsOf_of_ok {msg : MlsMessage} {m : M.ProtocolMessage} (h : msg.messageType = .commit)
    (hm : protocolMessage (M := M.toOpenMls) msg.blob = .ok m) : commitsOf [msg] = [m] := by
  simp [commitsOf, h, hm, Except.toOption]

theorem commitsOf_of_error {msg : MlsMessage} {e : Error}
    (hm : protocolMessage (M := M.toOpenMls) msg.blob = .error e) :
    commitsOf (M := M) [msg] = [] := by
  simp [commitsOf, hm, Except.toOption]

/-! ## One message -/

section delivery

variable {V : CommitView M} (hM : M.StoresGroups) (hV : V.Lawful) (hmerges : M.MergesAccepted)
  {env : Surroundings M.toOpenMls} (hcalm : ∀ t, env.fault t = none)
    (halone : ∀ t, env.others t = [])
  {id : String} {config : M.JoinConfig} {latestEpoch : ℕ} {msg : MlsMessage}
    {messages : List MlsMessage}
  {l : Progress M.toOpenMls} {s : Session M.toOpenMls} {g : M.Group} {a b : V.State}

/-- The group in memory is the stored one, and commits see `a` of it. -/
structure Sees (V : CommitView M) (id : String) (a : V.State) (g : M.Group)
    (l : Progress M.toOpenMls) (s : Session M.toOpenMls) : Prop where
  memory : l.mlsGroup = some g
  stored : M.stored s.store id = some g
  state : V.state ⟨g, s.store⟩ = a

theorem Sees.of_store {l' : Progress M.toOpenMls} {s' : Session M.toOpenMls} (h : Sees V id a g l s)
    (hmemory : l'.mlsGroup = some g) (hstore : s'.store = s.store) : Sees V id a g l' s' where
  memory := hmemory
  stored := by rw [hstore]; exact h.stored
  state := by rw [hstore]; exact h.state

include hM hV hmerges hcalm halone

/-- **A message that is processed as a commit**: it is merged, or nothing changes. -/
theorem operationMessage_calm (hmsg : ∀ m, protocolMessage (M := M.toOpenMls) msg.blob = .ok m →
      V.contentType m ≠ .proposal) :
    wp (transactionOn env (processOperationMessage env msg.blob)) ⟨g, s⟩
      (fun _ t => ∃ m, protocolMessage (M := M.toOpenMls) msg.blob = .ok m ∧
        V.contentType m = .commit ∧ MergesTo m ⟨g, s.store⟩ ⟨t.self, t.world.store⟩)
      fun _ t => (t.self = g ∧ ∀ m, protocolMessage (M := M.toOpenMls) msg.blob = .ok m →
        V.contentType m = .commit → ¬∃ u, MergesTo m ⟨g, s.store⟩ u) ∧ t.world.store = s.store := by
  refine wp_transactionOn_calm (Q := fun _ g' db => ∃ m, protocolMessage msg.blob = .ok m ∧
    V.contentType m = .commit ∧ MergesTo m ⟨g, s.store⟩ ⟨g', db⟩) (E := fun g' => g' = g ∧
    ∀ m, protocolMessage msg.blob = .ok m → V.contentType m = .commit →
      ¬∃ u, MergesTo m ⟨g, s.store⟩ u) hcalm halone fun s' hs' => ?_
  rw [processOperationMessage, wp_bind]
  refine wp_ofResult (fun m hm => ?_) fun e he => ⟨rfl, fun m hm => by rw [he] at hm; cases hm⟩
  have hone : ∀ {P : M.ProtocolMessage → Prop}, P m →
      ∀ m', protocolMessage (M := M.toOpenMls) msg.blob = .ok m' → P m' := by
    intro P hP m' hm'
    rw [hm] at hm'
    exact Except.ok.inj hm' ▸ hP
  rw [processMessage_calm hcalm]
  have hcontent := hV.content m ⟨g, s'.store⟩
  have hself := (hM.processMessage m none ⟨g, s'.store⟩).1
  cases hrun : (M.processMessage m none).run ⟨g, s'.store⟩ with
  | error e t =>
    rw [hrun] at hself
    refine (wp_of_error hrun).mpr ⟨hself, hone fun _ => ?_⟩
    rintro ⟨u, processed, commit, t', hprocess, -, -⟩
    rw [← hs', hrun] at hprocess
    cases hprocess
  | ok processed t =>
    rw [hrun] at hself
    replace hcontent := (wp_of_ok hrun).mp hcontent
    refine (wp_of_ok hrun).mpr ?_
    cases hc : processed.content with
    | stagedCommitMessage commit =>
      rw [hc] at hcontent
      dsimp only
      obtain ⟨u, hmerge⟩ := hmerges m _ processed commit t hrun hc
      rw [wp_bind, wp_use, hcalm]
      refine (wp_of_ok hmerge).mpr ⟨m, hm, hcontent.symm, processed, commit, t, ?_, hc, hmerge⟩
      rw [← hs', hrun]
    | proposalMessage proposal =>
      rw [hc] at hcontent
      exact absurd hcontent.symm (hmsg m hm)
    | externalJoinProposalMessage proposal =>
      rw [hc] at hcontent
      exact absurd hcontent.symm (hmsg m hm)
    | applicationMessage bytes =>
      rw [hc] at hcontent
      refine ⟨hself, hone fun htype => ?_⟩
      rw [htype] at hcontent
      cases hcontent

theorem applyCommit_delivered (hsees : Sees V id a g l s) (hcommit : msg.messageType = .commit)
    (hmsg : ∀ m, protocolMessage (M := M.toOpenMls) msg.blob = .ok m →
      V.contentType m ≠ .proposal) :
    ∃ b g', (V.log hV).Delivered (commitsOf [msg]) a b ∧
      Sees V id b g' (l.applyCommit env id msg s).1 (l.applyCommit env id msg s).2 := by
  have hspec := operationMessage_calm hM hV hmerges hcalm halone (g := g) (s := s) hmsg
  have hsynced := transactionOn_spec env (processOperationMessage_faithful env hM msg.blob) ⟨g, s⟩
  cases hrun : (transactionOn env (processOperationMessage env msg.blob)).run ⟨g, s⟩ with
  | ok r t =>
    obtain ⟨m, hm, htype, hmerge⟩ := (wp_of_ok hrun).mp hspec
    obtain ⟨hid, hstored⟩ := (wp_of_ok hrun).mp hsynced
    have hgid : M.groupId g = id := hM.groupId hsees.stored
    have hsync : Synced (M := M.toOpenMls) ⟨g, s.await env⟩ := by
      rw [Synced, Session.await_store_of_alone halone, hgid]
      exact hsees.stored
    have hstored' := hstored hsync
    rw [Synced, show M.groupId t.self = id from hid.trans hgid] at hstored'
    rw [Progress.applyCommit_of_ok hsees.memory hrun, commitsOf_of_ok hcommit hm]
    exact ⟨_, t.self, .merge ⟨htype, _, _, hsees.state, hmerge, rfl⟩ .nil, rfl, hstored', rfl⟩
  | error text t =>
    obtain ⟨⟨hself, hnone⟩, hstore⟩ := (wp_of_error hrun).mp hspec
    rw [Progress.applyCommit_of_error hsees.memory hrun]
    refine ⟨a, g, ?_, hsees.of_store ?_ hstore⟩
    · cases hm : protocolMessage (M := M.toOpenMls) msg.blob with
      | error e =>
        rw [commitsOf_of_error hm]
        exact .nil
      | ok m =>
        rw [commitsOf_of_ok hcommit hm]
        refine .ignore ?_ .nil
        rw [← hsees.state]
        exact CommitView.log_ignored hV (hnone m hm)
    · rw [Progress.stopIfFatal_mlsGroup]
      exact congrArg some hself

/-- **One message of the second loop**, unless the loop ends here. -/
theorem step_delivered (hsees : Sees V id a g l s) (hregular : V.Regular msg)
    (herror : (l.step env id config latestEpoch msg s).1.error = none) :
    ∃ b g', (V.log hV).Delivered (commitsOf [msg]) a b ∧
      Sees V id b g' (l.step env id config latestEpoch msg s).1
        (l.step env id config latestEpoch msg s).2 := by
  cases htag : msg.messageType with
  | welcome => exact absurd htag hregular.1
  | proposal =>
    rw [step_proposal htag, commitsOf_of_ne (by rw [htag]; decide)]
    refine ⟨a, g, .nil, hsees.of_store ?_ rfl⟩
    rw [Progress.proposalArm_mlsGroup]
    exact hsees.memory
  | unknown =>
    have hstep : l.step env id config latestEpoch msg s = (l, s) := by
      unfold Progress.step
      rw [htag]
    rw [hstep, commitsOf_of_ne (by rw [htag]; decide)]
    exact ⟨a, g, .nil, hsees⟩
  | commit =>
    have hstep : l.step env id config latestEpoch msg s = l.commitArm env id msg s := by
      unfold Progress.step
      rw [htag]
    obtain ⟨hmemory, hstore, -⟩ := reload_calm hM hcalm halone msg hsees.stored hsees.memory
    obtain ⟨b, g', hdelivered, hsees'⟩ := applyCommit_delivered hM hV hmerges hcalm halone
      (hsees.of_store hmemory hstore) htag (hregular.2 htag)
    rw [hstep] at herror ⊢
    have hsome : l.mlsGroup.isSome := by rw [hsees.memory]; rfl
    unfold Progress.commitArm at herror ⊢
    rw [if_pos hsome] at herror ⊢
    dsimp only at herror ⊢
    split_ifs at herror ⊢ with hreload happly
    · rw [herror] at hreload
      cases hreload
    · rw [herror] at happly
      cases happly
    · refine ⟨b, g', hdelivered, hsees'.of_store ?_ rfl⟩
      rw [Progress.dropRemoved_mlsGroup]
      exact hsees'.memory

theorem operationLoop_delivered (hsees : Sees V id a g l s)
    (hregular : ∀ msg ∈ messages, V.Regular msg)
    (herror : (operationLoop env id config latestEpoch messages l s).1.error = none) :
    ∃ b g', (V.log hV).Delivered (commitsOf messages) a b ∧
      Sees V id b g' (operationLoop env id config latestEpoch messages l s).1
        (operationLoop env id config latestEpoch messages l s).2 := by
  induction messages generalizing a g l s with
  | nil => exact ⟨a, g, .nil, hsees⟩
  | cons msg messages ih =>
    rw [operationLoop] at herror ⊢
    split_ifs at herror ⊢ with hl
    · rw [herror] at hl
      cases hl
    have hstep : (l.step env id config latestEpoch msg s).1.error = none := by
      by_contra hne
      rw [operationLoop_of_error (Option.isSome_iff_ne_none.mpr hne)] at herror
      exact hne herror
    obtain ⟨b, g', hfirst, hsees'⟩ := step_delivered hM hV hmerges hcalm halone hsees
      (hregular msg List.mem_cons_self) hstep
    obtain ⟨c, g'', hrest, hsees''⟩ := ih hsees'
      (fun x hx => hregular x (List.mem_cons_of_mem _ hx)) herror
    rw [commitsOf_cons]
    exact ⟨c, g'', hfirst.append hrest, hsees''⟩

end delivery

/-! ## Calls -/

def ProcessAllMessagesResult.Clean (result : ProcessAllMessagesResult) : Prop :=
  ∀ r ∈ result.groupResults, r.error = none

variable (M) in
/-- **The batch is not skipped**: its group loads with the epochs of the messages, and the own
member is there. -/
def Opens (args : AllMessagesOfGroupArgs) (s : Session M.toOpenMls) : Prop :=
  ∃ g, loadResult M.toOpenMls s.store args.groupId (preloadEpochs args.messages) = .ok g ∧
    (ownIdFromLeafNode (M := M.toOpenMls) g).isSome

/-- Calls with one group, one after the other, that skip no batch and report no error. -/
inductive Calls (env : Surroundings M.toOpenMls) (config : M.JoinConfig) (id : String) :
    List (List MlsMessage) → Session M.toOpenMls → Session M.toOpenMls → Prop
  | nil {s : Session M.toOpenMls} : Calls env config id [] s s
  | cons {args : AllMessagesOfGroupArgs} {batches : List (List MlsMessage)}
    {s t u : Session M.toOpenMls} {result : ProcessAllMessagesResult} (hid : args.groupId = id)
    (hopens : Opens M args s) (hrun : (processAllMessages env config [args]).run s = .ok result t)
    (hclean : result.Clean) (hrest : Calls env config id batches t u) :
    Calls env config id (args.messages :: batches) s u

section calls

variable {V : CommitView M} {env : Surroundings M.toOpenMls} {config : M.JoinConfig}
  {args : AllMessagesOfGroupArgs} {s t : Session M.toOpenMls} {result : ProcessAllMessagesResult}

theorem CommitView.storedState_of_stored {id : String} {g : M.Group}
    (h : M.stored s.store id = some g) :
    V.storedState id s = some (V.state ⟨g, s.store⟩) := by
  rw [CommitView.storedState, h, Option.map_some]

theorem CommitView.storedState_congr {id : String} (h : t.store = s.store) :
    V.storedState id t = V.storedState id s := by
  rw [CommitView.storedState, CommitView.storedState, h]

theorem CommitView.sameEpochAndTree_of_storedState (hV : V.Lawful) {id : String} {a : V.State}
    (hs : V.storedState id s = some a) (ht : V.storedState id t = some a) :
    SameEpochAndTree id s t := by
  obtain ⟨g, hg, rfl⟩ := Option.map_eq_some_iff.mp hs
  obtain ⟨g', hg', hstate⟩ := Option.map_eq_some_iff.mp ht
  obtain ⟨hview, -⟩ := (CommitView.state_eq_iff hV).mp hstate
  exact ⟨g, g', hg, hg', (hV.epoch hview).symm, (hV.treeHash hview).symm⟩

theorem prePass_of_none (messages : List MlsMessage) (p : Inspection M.toOpenMls)
    (s : Session M.toOpenMls) (hp : p.mlsGroup = none) :
    (prePass env messages p s).1.mlsGroup = none ∧ (prePass env messages p s).2 = s := by
  induction messages generalizing p with
  | nil => exact ⟨hp, rfl⟩
  | cons msg messages ih =>
    have hstep : ∃ p', p'.mlsGroup = none ∧ p.step env msg s = (p', s) := by
      unfold Inspection.step
      dsimp only
      generalize hp' : (if p.latestEpoch < msg.epoch ∧ msg.messageType = .commit then
        { p with latestEpoch := msg.epoch } else p) = p'
      have hgroup : p'.mlsGroup = none := by
        rw [← hp']
        split_ifs <;> exact hp
      refine ⟨p', hgroup, ?_⟩
      rw [hgroup]
      cases msg.messageType <;> rfl
    obtain ⟨p', hp', hstep⟩ := hstep
    rw [prePass, hstep]
    exact ih p' hp'

theorem operationLoop_of_none {id : String} {latestEpoch : ℕ} {messages : List MlsMessage}
    (hnone : ∀ msg ∈ messages, msg.messageType ≠ .welcome) {l : Progress M.toOpenMls}
    {s : Session M.toOpenMls} (hl : l.mlsGroup = none) :
    (operationLoop env id config latestEpoch messages l s).2 = s := by
  induction messages generalizing l with
  | nil => rfl
  | cons msg messages ih =>
    rw [operationLoop]
    split_ifs
    · rfl
    have hstep : ∃ l', l'.mlsGroup = none ∧ l.step env id config latestEpoch msg s = (l', s) := by
      unfold Progress.step
      cases htag : msg.messageType with
      | welcome => exact absurd htag (hnone msg List.mem_cons_self)
      | commit =>
        refine ⟨Progress.dropRemoved msg l, (Progress.dropRemoved_mlsGroup msg l).trans hl, ?_⟩
        unfold Progress.commitArm
        rw [if_neg (by rw [hl]; exact Bool.false_ne_true)]
      | proposal =>
        exact ⟨_, (Progress.proposalArm_mlsGroup latestEpoch msg l).trans hl, rfl⟩
      | unknown => exact ⟨l, hl, rfl⟩
    obtain ⟨l', hl', hstep⟩ := hstep
    rw [hstep]
    exact ih (fun x hx => hnone x (List.mem_cons_of_mem _ hx)) hl'

variable (hcalm : ∀ t, env.fault t = none) (halone : ∀ t, env.others t = [])
include hcalm halone

theorem wp_processOne (config : M.JoinConfig) (args : AllMessagesOfGroupArgs)
    (huntold : Untold args.groupId s) : wp (processAllMessages env config [args]) s (fun result t =>
      t.beside = s.beside ∧
      match opened (loadResult M.toOpenMls s.store args.groupId (preloadEpochs args.messages)) with
      | none => t.store = s.store
      | some opening => ∃ u : Session M.toOpenMls, u.store = s.store ∧
          t.store = (processMessages env config args opening.mlsGroup u).2.store ∧
          (result.Clean → (processMessages env config args opening.mlsGroup u).1.error = none))
      fun _ _ => False := by
  rw [processAllMessages, wp_bind, processGroup, wp_bind]
  refine wp_mono (openGroup_calm hcalm halone args huntold) (fun o u hu => ?_) fun _ _ h => h
  obtain ⟨ho, hstore, hbeside⟩ := hu
  rw [← ho]
  cases o with
  | none => exact ⟨hbeside, hstore⟩
  | some opening =>
    have hholds := processMessages_holds (b := u.beside) OpenMls.untouched_true
      (Surroundings.untouched_of_alone halone) config args opening.mlsGroup ⟨trivial, rfl⟩
    exact ⟨hholds.2.trans hbeside, u, hstore, rfl, fun hclean => hclean _ List.mem_cons_self⟩

variable (hM : M.StoresGroups) (hV : V.Lawful) (hmerges : M.MergesAccepted)
include hM hV hmerges

/-- **A call delivers the commits of its batch.** -/
theorem processAllMessages_delivers (hopens : Opens M args s) (huntold : Untold args.groupId s)
    (hregular : ∀ msg ∈ args.messages, V.Regular msg)
    (hrun : (processAllMessages env config [args]).run s = .ok result t) (hclean : result.Clean) :
    t.beside = s.beside ∧ ∃ a b, V.storedState args.groupId s = some a ∧
      V.storedState args.groupId t = some b ∧
      (V.log hV).Delivered (commitsOf args.messages) a b := by
  obtain ⟨g, hload, hown⟩ := hopens
  obtain ⟨hbeside, hcall⟩ := (wp_of_ok hrun).mp (wp_processOne hcalm halone config args huntold)
  rw [hload, opened, if_pos hown] at hcall
  obtain ⟨u, hstore, ht, herror⟩ := hcall
  have hstored : M.stored s.store args.groupId = some g := stored_of_loadResult hM hload
  have hread : Unread V args.groupId s.store g ⟨g, u.store⟩ := by
    rw [hstore]
    exact ⟨rfl, hstored, rfl, rfl, rfl⟩
  obtain ⟨hmemory, hread⟩ := prePass_unread hM hV hcalm halone args.messages (.start (some g)) u rfl
    hread
  have hsees : Sees V args.groupId (V.state ⟨g, s.store⟩) g
      (.start (prePass env args.messages (.start (some g)) u).1.mlsGroup
        (prePass env args.messages (.start (some g)) u).1.membersToRemove)
      (prePass env args.messages (.start (some g)) u).2 :=
    ⟨hmemory, hread.stored, (CommitView.state_eq_iff hV).mpr ⟨hread.view, rfl⟩⟩
  obtain ⟨b, g', hdelivered, hsees'⟩ := operationLoop_delivered hM hV hmerges hcalm halone hsees
    hregular
    (herror hclean)
  refine ⟨hbeside, _, b, CommitView.storedState_of_stored hstored, ?_, hdelivered⟩
  have hstate : V.storedState args.groupId t = _ := CommitView.storedState_congr ht
  exact hstate.trans ((CommitView.storedState_of_stored hsees'.stored).trans
    (congrArg some hsees'.state))

omit hM hV hmerges in
/-- **A batch that is skipped**, without Welcomes, changes nothing. -/
theorem processAllMessages_skips (hopens : ¬Opens M args s) (huntold : Untold args.groupId s)
    (hnone : ∀ msg ∈ args.messages, msg.messageType ≠ .welcome)
    (hrun : (processAllMessages env config [args]).run s = .ok result t) : t.store = s.store := by
  obtain ⟨-, hcall⟩ := (wp_of_ok hrun).mp (wp_processOne hcalm halone config args huntold)
  cases hload : loadResult M.toOpenMls s.store args.groupId (preloadEpochs args.messages) with
  | error e =>
    rw [hload] at hcall
    obtain ⟨u, hstore, ht, -⟩ := hcall
    obtain ⟨hgroup, hfirst⟩ : (prePass env args.messages (.start none) u).1.mlsGroup = none ∧
        (prePass env args.messages (.start none) u).2 = u := prePass_of_none args.messages _ u rfl
    obtain ⟨p, hp⟩ : ∃ p, p = prePass env args.messages (.start none) u := ⟨_, rfl⟩
    rw [← hp] at hgroup hfirst
    have hsecond : (operationLoop env args.groupId config p.1.latestEpoch args.messages
        (.start p.1.mlsGroup p.1.membersToRemove) p.2).2 = p.2 :=
      operationLoop_of_none hnone hgroup
    rw [hp] at hsecond hfirst
    exact (ht.trans (congrArg Session.store (hsecond.trans hfirst))).trans hstore
  | ok g =>
    have hown : ¬(ownIdFromLeafNode (M := M.toOpenMls) g).isSome := fun h => hopens ⟨g, hload, h⟩
    rw [hload, opened, if_neg hown] at hcall
    exact hcall

/-- **Calls one after the other deliver the commits of their batches.** -/
theorem Calls.delivered {id : String} {batches : List (List MlsMessage)}
    (h : Calls env config id batches s t) (huntold : Untold id s)
    (hregular : ∀ messages ∈ batches, ∀ msg ∈ messages, V.Regular msg) {a : V.State}
    (ha : V.storedState id s = some a) : ∃ b, V.storedState id t = some b ∧
      (V.log hV).Delivered (batches.map (commitsOf (M := M))).flatten a b := by
  induction h generalizing a with
  | nil => exact ⟨a, ha, .nil⟩
  | @cons args batches s t u result hid hopens hrun hclean hrest ih =>
    subst hid
    obtain ⟨hbeside, a', b, ha', hb, hdelivered⟩ := processAllMessages_delivers hcalm halone hM hV
      hmerges
      hopens huntold (hregular _ List.mem_cons_self) hrun hclean
    obtain rfl : a' = a := Option.some.inj (ha'.symm.trans ha)
    have huntold' : Untold args.groupId t := by
      rw [Untold, hbeside]
      exact huntold
    obtain ⟨c, hc, hrest⟩ := ih huntold' (fun x hx => hregular x (List.mem_cons_of_mem _ hx)) hb
    exact ⟨c, hc, hdelivered.append hrest⟩

end calls

/-! ## Rejected messages, and messages that come again -/

/-- **A message that OpenMLS rejects** changes nothing, iff the group loads with its epoch too; or
the batch without it changes nothing either. -/
theorem rejected_iff (M : CommitMls) (hM : M.StoresGroups) (hmerges : M.MergesAccepted)
    (V : CommitView M) (hV : V.Lawful) (env : Surroundings M.toOpenMls)
    (hcalm : ∀ t, env.fault t = none) (halone : ∀ t, env.others t = []) (config : M.JoinConfig)
    (args : AllMessagesOfGroupArgs) (front back : List MlsMessage) (msg : MlsMessage)
    {s t t' : Session M.toOpenMls} {result result' : ProcessAllMessagesResult}
    (huntold : Untold args.groupId s) (hregular : ∀ x ∈ front ++ msg :: back, V.Regular x)
    (hrejected : ∀ a b, V.storedState args.groupId s = some a →
      (V.log hV).Delivered (commitsOf front) a b → ∀ m ∈ commitsOf [msg], (V.log hV).Ignored m b)
    (hopens : Opens M { args with messages := front ++ back } s)
    (hrun : (processAllMessages env config [{ args with messages := front ++ back }]).run s =
      .ok result t) (hclean : result.Clean)
    (hrun' :
      (processAllMessages env config [{ args with messages := front ++ msg :: back }]).run s =
      .ok result' t') (hclean' : result'.Clean) :
    V.storedState args.groupId t' = V.storedState args.groupId t ↔
      Opens M { args with messages := front ++ msg :: back } s ∨
        V.storedState args.groupId t = V.storedState args.groupId s := by
  have hregular' : ∀ x ∈ front ++ back, V.Regular x := by
    intro x hx
    rcases List.mem_append.mp hx with hx | hx
    · exact hregular x (List.mem_append_left _ hx)
    · exact hregular x (List.mem_append_right _ (List.mem_cons_of_mem _ hx))
  obtain ⟨-, a, b, ha, hb, hdelivered⟩ := processAllMessages_delivers hcalm halone hM hV hmerges
    hopens huntold hregular' hrun hclean
  dsimp only at ha hb hdelivered
  by_cases hopens' : Opens M { args with messages := front ++ msg :: back } s
  · refine iff_of_true ?_ (.inl hopens')
    obtain ⟨-, a', b', ha', hb', hdelivered'⟩ := processAllMessages_delivers hcalm halone hM hV
      hmerges hopens' huntold hregular hrun' hclean'
    dsimp only at ha' hb' hdelivered'
    obtain rfl : a' = a := Option.some.inj (ha'.symm.trans ha)
    rw [hb, hb']
    rw [commitsOf_append] at hdelivered
    rw [commitsOf_append, commitsOf_cons] at hdelivered'
    obtain ⟨c, hfront, hback⟩ := EpochLog.exists_of_delivered_append hdelivered
    have hmsg : (V.log hV).Delivered (commitsOf [msg]) c c :=
      EpochLog.delivered_of_ignored (hrejected a' c ha hfront)
    exact congrArg some (hdelivered'.functional (hfront.append (hmsg.append hback)))
  · have hsame := processAllMessages_skips hcalm halone hopens' huntold
      (fun x hx => (hregular x hx).1) hrun'
    rw [CommitView.storedState_congr hsame]
    exact ⟨fun h => .inr h.symm, fun h => (h.resolve_left hopens').symm⟩

/-- **At least once is exactly once**: from stores that look alike, calls that bring the same log in
order end alike, whatever they bring again and however the log is split. -/
theorem calls_agree (M : CommitMls) (hM : M.StoresGroups) (hmerges : M.MergesAccepted)
    (V : CommitView M) (hV : V.Lawful) (env env' : Surroundings M.toOpenMls)
    (hcalm : ∀ t, env.fault t = none) (halone : ∀ t, env.others t = [])
    (hcalm' : ∀ t, env'.fault t = none) (halone' : ∀ t, env'.others t = [])
    (config config' : M.JoinConfig) (id : String) {log : List M.ProtocolMessage}
    (horder : (V.log hV).InOrder log) {batches batches' : List (List MlsMessage)}
    (hregular : ∀ messages ∈ batches, ∀ msg ∈ messages, V.Regular msg)
    (hregular' : ∀ messages ∈ batches', ∀ msg ∈ messages, V.Regular msg)
    (hlog : Redelivers [] (batches.map commitsOf) log)
    (hlog' : Redelivers [] (batches'.map commitsOf) log) {s s' t t' : Session M.toOpenMls}
    (huntold : Untold id s) (huntold' : Untold id s') {a : V.State}
    (ha : V.storedState id s = some a) (ha' : V.storedState id s' = some a)
    (hcalls : Calls env config id batches s t) (hcalls' : Calls env' config' id batches' s' t') :
    V.storedState id t = V.storedState id t' ∧ SameEpochAndTree id t t' := by
  obtain ⟨b, hb, hdelivered⟩ := hcalls.delivered hcalm halone hM hV hmerges huntold hregular ha
  obtain ⟨b', hb', hdelivered'⟩ :=
    hcalls'.delivered hcalm' halone' hM hV hmerges huntold' hregular' ha'
  obtain ⟨c, hc⟩ := (V.log hV).exists_delivered log a
  obtain rfl : b = c := hdelivered.functional (hlog.delivered .nil horder hc)
  obtain rfl : b' = b := hdelivered'.functional (hlog'.delivered .nil horder hc)
  exact ⟨hb.trans hb'.symm, CommitView.sameEpochAndTree_of_storedState hV hb hb'⟩

/-! ## Without cryptography -/

open Plain

theorem plainCommits_mergesAccepted : plainCommits.MergesAccepted :=
  fun _ _ _ _ _ _ _ => ⟨_, rfl⟩

namespace Plain

def untroubled : ProcessAllMessagesResult where
  groupResults := [{ groupId := "g", membersToRemove := [], membersToReadd := ∅, error := none }]
  deletedGroups := []

theorem untroubled_clean : untroubled.Clean := by
  intro r hr
  rw [List.mem_singleton.mp hr]

theorem regular_commitAt : ∀ msg ∈ [commitAt 1, commitAt 2], plainView.Regular msg := by
  intro msg hmsg
  rcases List.mem_pair.mp hmsg with rfl | rfl
  · refine ⟨(by decide), fun _ m hm => ?_⟩
    obtain rfl : PlainMessage.commit 1 [] = m := Except.ok.inj hm
    decide
  · refine ⟨(by decide), fun _ m hm => ?_⟩
    obtain rfl : PlainMessage.commit 2 [] = m := Except.ok.inj hm
    decide

def afterCall (messages : List MlsMessage) (s : Session plainCommits.toOpenMls) :
    Session plainCommits.toOpenMls :=
  final ((processAllMessages .calm () [batch messages]).run s)

theorem calls_once : Calls (M := plainCommits) .calm () "g" [[commitAt 1, commitAt 2]] handshakes
    (afterCall [commitAt 1, commitAt 2] handshakes) :=
  .cons (show (batch [commitAt 1, commitAt 2]).groupId = "g" from rfl) ⟨groupAt 1, rfl, rfl⟩ rfl
    untroubled_clean .nil

set_option maxRecDepth 4000 in
theorem calls_twice : Calls (M := plainCommits) .calm () "g"
    [[commitAt 1], [commitAt 1, commitAt 2]]
    handshakes (afterCall [commitAt 1, commitAt 2] (afterCall [commitAt 1] handshakes)) :=
  .cons (show (batch [commitAt 1]).groupId = "g" from rfl) ⟨groupAt 1, rfl, rfl⟩ rfl
    untroubled_clean
    (.cons (show (batch [commitAt 1, commitAt 2]).groupId = "g" from rfl) ⟨groupAt 2, rfl, rfl⟩ rfl
      untroubled_clean .nil)

end Plain

set_option maxRecDepth 4000 in
/-- A commit that comes again after it was applied. -/
theorem rejected_iff_again : ∃ t t',
    (processAllMessages (M := plainCommits.toOpenMls) .calm ()
      [batch ([commitAt 1] ++ [commitAt 2])]).run handshakes = .ok untroubled t ∧
    (processAllMessages (M := plainCommits.toOpenMls) .calm ()
      [batch ([commitAt 1] ++ commitAt 1 :: [commitAt 2])]).run handshakes = .ok untroubled t' ∧
    (plainView.storedState "g" t' = plainView.storedState "g" t ↔
      Opens plainCommits (batch ([commitAt 1] ++ commitAt 1 :: [commitAt 2])) handshakes ∨
        plainView.storedState "g" t = plainView.storedState "g" handshakes) := by
  have hrun : ∃ t, (processAllMessages (M := plainCommits.toOpenMls) .calm ()
      [batch ([commitAt 1] ++ [commitAt 2])]).run handshakes = .ok untroubled t := ⟨_, rfl⟩
  have hrun' : ∃ t, (processAllMessages (M := plainCommits.toOpenMls) .calm ()
      [batch ([commitAt 1] ++ commitAt 1 :: [commitAt 2])]).run handshakes =
        .ok untroubled t := ⟨_, rfl⟩
  obtain ⟨t, hrun⟩ := hrun
  obtain ⟨t', hrun'⟩ := hrun'
  refine ⟨t, t', hrun, hrun', ?_⟩
  have hregular : ∀ x ∈ [commitAt 1] ++ commitAt 1 :: [commitAt 2], plainView.Regular x :=
    fun x hx => regular_commitAt x (by simpa using hx)
  exact rejected_iff plainCommits plainCommits_storesGroups plainCommits_mergesAccepted plainView
    plainView_lawful .calm (fun _ => rfl) (fun _ => rfl) () (batch []) [commitAt 1] [commitAt 2]
    (commitAt 1) rfl hregular (fun _ _ _ h => h.spent (List.pairwise_singleton _ _))
    ⟨groupAt 1, rfl, rfl⟩ hrun untroubled_clean hrun' untroubled_clean

/-- The first of two commits comes twice, or once. -/
theorem calls_agree_twice :
    plainView.storedState "g"
      (afterCall [commitAt 1, commitAt 2] (afterCall [commitAt 1] handshakes)) =
      plainView.storedState "g" (afterCall [commitAt 1, commitAt 2] handshakes) ∧
    SameEpochAndTree "g" (afterCall [commitAt 1, commitAt 2] (afterCall [commitAt 1] handshakes))
      (afterCall [commitAt 1, commitAt 2] handshakes) := by
  have horder : (plainView.log plainView_lawful).InOrder [.commit 1 [], .commit 2 []] :=
    List.pairwise_pair.mpr (by decide)
  have hregular : ∀ messages ∈ [[commitAt 1], [commitAt 1, commitAt 2]], ∀ msg ∈ messages,
      plainView.Regular msg := by
    intro messages hmessages msg hmsg
    refine regular_commitAt msg ?_
    rcases List.mem_pair.mp hmessages with rfl | rfl
    · exact List.mem_cons.mpr (.inl (List.mem_singleton.mp hmsg))
    · exact hmsg
  have hregular' : ∀ messages ∈ [[commitAt 1, commitAt 2]],
      ∀ msg ∈ messages, plainView.Regular msg := by
    intro messages hmessages msg hmsg
    exact regular_commitAt msg (List.mem_singleton.mp hmessages ▸ hmsg)
  have htwice : Redelivers [] [[] ++ [PlainMessage.commit 1 []],
      [PlainMessage.commit 1 []] ++ [PlainMessage.commit 2 []]]
      ([PlainMessage.commit 1 []] ++ ([PlainMessage.commit 2 []] ++ [])) :=
    .cons (fun _ h => absurd h List.not_mem_nil) (.cons (fun _ h => h) .nil)
  have honce : Redelivers [] [[] ++ [PlainMessage.commit 1 [], PlainMessage.commit 2 []]]
      ([PlainMessage.commit 1 [], PlainMessage.commit 2 []] ++ []) :=
    .cons (fun _ h => absurd h List.not_mem_nil) .nil
  have huntold : Untold "g" handshakes := rfl
  exact calls_agree plainCommits plainCommits_storesGroups plainCommits_mergesAccepted plainView
    plainView_lawful .calm .calm (fun _ => rfl) (fun _ => rfl) (fun _ => rfl) (fun _ => rfl) () ()
      "g"
    horder hregular hregular' htwice honce huntold huntold rfl rfl calls_twice calls_once

end KChat.Mls
