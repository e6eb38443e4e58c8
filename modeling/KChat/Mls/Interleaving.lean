import KChat.Lib.Serial
import KChat.Mls.Reports
import KChat.Mls.Synced

/-!
# Other threads between the transactions of a batch

Other threads commit operations between the transactions of a call; each loads, changes and writes
in one transaction. Here a `Group` has the message secrets that are loaded, and whole key stores are
compared.

* `Parts`, `Parts.Current`: the group in memory holds nothing but what is stored.
* `Own`, `Takes`: the events of a call, and what they do to the key store. `callEvents`: those that
  are committed in a run.
* `Ordered`: what happened to the key store happened as in a serial order of exactly these events and
  of the others' operations. `changeGroup_ordered`, `inspect_ordered`, **`step_ordered`**: every step
  keeps it.
* `InspectsStale`, `AppliesStale`: a message is processed on a group that is not current; `UpToDate`.
* **`processAllMessages_ordered`**: a call that takes no such step is serial.
-/

namespace KChat.Mls

open Lib OpenMls

variable {M : OpenMls}

/-! ## What is held of a group -/

/-- What OpenMLS holds of a group: its core, and message secrets of the epochs that are loaded. -/
structure Parts (M : OpenMls) where
  Core : Type
  Secrets : Type
  core : M.Group → Core
  secrets : M.Group → ℕ → Option Secrets

/-- **The group in memory is current**: its core and the message secrets it holds are the stored
ones. -/
def Parts.Current (P : Parts M) (g : M.Group) (db : M.Db) : Prop :=
  ∃ g', M.stored db (M.groupId g) = some g' ∧ P.core g = P.core g' ∧
    ∀ epoch secrets, P.secrets g epoch = some secrets → P.secrets g' epoch = some secrets

/-! ## Events -/

/-- What a call does by itself: it settles a pending operation, inspects proposals, and processes
Welcomes and commits. -/
inductive Own
  | settle (args : AllMessagesOfGroupArgs) (how : Settling)
  | inspect (msg : MlsMessage)
  | message (msg : MlsMessage)

/-- **An event takes place** on what is stored, and is committed. -/
inductive Takes (P : Parts M) (env : Surroundings M) (config : M.JoinConfig) :
    Own → M.Db → M.Db → Prop
  | settle {args : AllMessagesOfGroupArgs} {how : Settling} {change : GroupAction M Unit}
    {g : M.Group} {s s' : Session M} (hchange : how.change env = some change)
    (h : (changeGroup env args.groupId change).run s = .ok g s') :
    Takes P env config (.settle args how) (s.await env).store s'.store
  | inspect {msg : MlsMessage} {m : M.ProtocolMessage} {g : M.Group} {fault : Option String}
    {db : M.Db} (htype : msg.messageType = .proposal) (hm : protocolMessage msg.blob = .ok m)
    (hg : P.Current g db) :
    Takes P env config (.inspect msg) db (final ((M.processMessage m fault).run ⟨g, db⟩)).world
  | welcome {msg : MlsMessage} {g : M.Group} {s s' : Session M}
    (htype : msg.messageType = .welcome)
    (h : (transaction env (processWelcome env msg.blob config)).run s = .ok g s') :
    Takes P env config (.message msg) (s.await env).store s'.store
  | commit {msg : MlsMessage} {g : M.Group} {r : ProcessOperationMessageResult} {s : Session M}
    {t : Owning M.Group (Session M)}
    (htype : msg.messageType = .commit) (hg : P.Current g (s.await env).store)
    (h : (transactionOn env (processOperationMessage env msg.blob)).run ⟨g, s⟩ = .ok r t) :
    Takes P env config (.message msg) (s.await env).store t.world.store

/-! ## The events of a run -/

section events

variable (env : Surroundings M) (config : M.JoinConfig)

/-- An event whose transaction is committed. -/
def eventOf {α ε σ : Type} (e : Own) : EStateM.Result ε σ α → List Own
  | .ok _ _ => [e]
  | .error _ _ => []

def changeEvents (args : AllMessagesOfGroupArgs) (how : Settling) (s : Session M) : List Own :=
  match how.change env with
  | none => []
  | some change => eventOf (.settle args how) ((changeGroup env args.groupId change).run s)

def settleEvents (args : AllMessagesOfGroupArgs) (s : Session M) : List Own :=
  match (loadGroupWithEpochMessageSecrets env args.groupId (preloadEpochs args.messages)).run s with
  | .error _ _ => []
  | .ok existing s =>
    match ownIdFromLeafNode existing with
    | none => []
    | some ownMemberId =>
      match (getGroupPendingOperation env args.groupId).run s with
      | .error _ _ => []
      | .ok op s => changeEvents env args (settling args existing ownMemberId (.ofRow op)) s

variable (M) in
/-- The proposals that OpenMLS is asked about in the first loop. -/
def isInspected (msg : MlsMessage) : Bool :=
  decide (msg.messageType = .proposal) && (protocolMessage (M := M) msg.blob).isOk

def inspectEvents (mlsGroup : Option M.Group) (messages : List MlsMessage) : List Own :=
  if mlsGroup.isSome then (messages.filter (isInspected M)).map .inspect else []

def stepEvents (groupId : String) (msg : MlsMessage) (l : Progress M) (s : Session M) : List Own :=
  match msg.messageType with
  | .welcome =>
    eventOf (.message msg) ((transaction env (processWelcome env msg.blob config)).run s)
  | .commit =>
    let r := l.reload env groupId msg s
    match l.mlsGroup, r.1.error, r.1.mlsGroup with
    | some _, none, some g =>
      eventOf (.message msg) ((transactionOn env (processOperationMessage env msg.blob)).run ⟨g, r.2⟩)
    | _, _, _ => []
  | _ => []

def loopEvents (groupId : String) (latestEpoch : ℕ) :
    List MlsMessage → Progress M → Session M → List Own
  | [], _, _ => []
  | msg :: messages, l, s =>
    if l.error.isSome then []
    else
      let r := l.step env groupId config latestEpoch msg s
      stepEvents env config groupId msg l s ++ loopEvents groupId latestEpoch messages r.1 r.2

def groupEvents (i : AllMessagesOfGroupArgs × Session M) : List Own :=
  settleEvents env i.1 i.2 ++
    match (openGroup env i.1).run i.2 with
    | .ok (some opening) s =>
      let r := prePass env i.1.messages (.start opening.mlsGroup) s
      inspectEvents opening.mlsGroup i.1.messages ++
        loopEvents env config i.1.groupId r.1.latestEpoch i.1.messages
          (.start r.1.mlsGroup r.1.membersToRemove) r.2
    | _ => []

/-- **The events of a call that are committed**, in order. -/
def callEvents (groups : List AllMessagesOfGroupArgs) (s : Session M) : List Own :=
  (iterations env config groups s).flatMap (groupEvents env config)

end events

/-! ## Groups in memory that are not current -/

/-- A commit is about to be applied to a group in memory that is not current. -/
def AppliesStale (P : Parts M) (env : Surroundings M) (groupId : String) (msg : MlsMessage)
    (l : Progress M) (s : Session M) : Prop :=
  msg.messageType = .commit ∧ l.mlsGroup.isSome ∧ (l.reload env groupId msg s).1.error = none ∧
    ∃ g, (l.reload env groupId msg s).1.mlsGroup = some g ∧
      ¬P.Current g ((l.reload env groupId msg s).2.await env).store

/-- A proposal is about to be inspected with a group in memory that is not current. -/
def InspectsStale (P : Parts M) (env : Surroundings M) (msg : MlsMessage) (p : Inspection M)
    (s : Session M) : Prop :=
  isInspected M msg ∧ ∃ g, p.mlsGroup = some g ∧ ¬P.Current g (s.await env).store

def InspectionReaches (env : Surroundings M) (i : AllMessagesOfGroupArgs × Session M)
    (msg : MlsMessage) (p : Inspection M) (s : Session M) : Prop :=
  ∃ opening s' front, (openGroup env i.1).run i.2 = .ok (some opening) s' ∧
    front ++ [msg] <+: i.1.messages ∧ prePass env front (.start opening.mlsGroup) s' = (p, s)

/-- **A batch that works on what is stored**: whenever a proposal is inspected or the transaction of a
commit begins, the group in memory is current. -/
structure UpToDate (P : Parts M) (env : Surroundings M) (config : M.JoinConfig)
    (i : AllMessagesOfGroupArgs × Session M) : Prop where
  inspects : ∀ msg p s, InspectionReaches env i msg p s → ¬InspectsStale P env msg p s
  applies : ∀ msg l s, Reaches env config i msg l s → ¬AppliesStale P env i.1.groupId msg l s

/-! ## Serial orders -/

/-- **What happened to the key store happened as in a serial order** of the others' operations and of
the events `own`. -/
abbrev Ordered (P : Parts M) (env : Surroundings M) (config : M.JoinConfig) (own : List Own)
    (s s' : Session M) : Prop :=
  Serializes env (Takes P env config) own s s'

section ordered

variable {P : Parts M} {env : Surroundings M} {config : M.JoinConfig} {own own' : List Own}
  {s s' s'' : Session M} {α : Type}

theorem Ordered.trans_nil (h : Ordered P env config own s s') (h' : Ordered P env config [] s' s'') :
    Ordered P env config own s s'' := by
  have h := h.trans h'
  rwa [List.append_nil] at h

theorem Ordered.refl (s : Session M) : Ordered P env config [] s s := Serializes.of_store rfl rfl

/-! ## One transaction after another -/

theorem load_ordered (id : String) (epochs : List ℕ) (s : Session M) :
    wp (loadGroupWithEpochMessageSecrets env id epochs) s
      (fun _ s' => Ordered P env config [] s s') fun _ s' => Ordered P env config [] s s' := by
  have hbody : ∀ s : Session M, wp (groupWithEpochMessageSecrets env id epochs) s
      (fun _ t => t.store = s.store) fun _ t => t.store = s.store := by
    intro s
    rw [groupWithEpochMessageSecrets, wp_bind, wp_look]
    split
    · rfl
    · rfl
    · exact group_store id [] s.tick
    · rfl
  have hstore : wp (transaction env (attempt (groupWithEpochMessageSecrets env id epochs))) s
      (fun _ t => t.store = (s.await env).store) fun _ t => t.store = (s.await env).store := by
    refine wp_transaction (fun _ _ => rfl) fun _ => ?_
    rw [wp_attempt]
    exact wp_mono (hbody _) (fun _ _ ht => ⟨fun _ _ => rfl, fun _ => ht⟩)
      fun _ _ ht => ⟨fun _ _ => rfl, fun _ => ht⟩
  rw [loadGroupWithEpochMessageSecrets, wp_bind, wp_mapError]
  refine wp_mono (wp_and hstore (transaction_undone env _ s)) (fun r s' hs => ?_) fun _ s' hs => ?_
  · exact wp_ofResult (fun _ _ => Serializes.of_await hs.1 hs.2)
      fun _ _ => Serializes.of_await hs.1 hs.2
  · exact Serializes.of_await hs.1 hs.2.2

/-- A transaction that is committed is an event, and one that fails is none. -/
theorem wp_eventOf {ε : Type} {e : Own} {x : EStateM ε (Session M) α}
    (hundone : wp x s (fun _ t => t.seen = (s.await env).seen)
      fun _ t => t.store = (s.await env).store ∧ t.seen = (s.await env).seen)
    (htakes : ∀ a t, x.run s = .ok a t → Takes P env config e (s.await env).store t.store) :
    wp x s (fun _ t => Ordered P env config (eventOf e (x.run s)) s t)
      fun _ t => Ordered P env config (eventOf e (x.run s)) s t := by
  cases hrun : x.run s with
  | ok a t =>
    exact (wp_of_ok hrun).mpr (Serializes.of_step (htakes a t hrun) ((wp_of_ok hrun).mp hundone))
  | error err t =>
    obtain ⟨hstore, hseen⟩ := (wp_of_error hrun).mp hundone
    exact (wp_of_error hrun).mpr (Serializes.of_await hstore hseen)

theorem changeGroup_ordered (args : AllMessagesOfGroupArgs) {how : Settling}
    {change : GroupAction M Unit} (hchange : how.change env = some change) (s : Session M) :
    wp (changeGroup env args.groupId change) s
      (fun _ s' => Ordered P env config
        (eventOf (.settle args how) ((changeGroup env args.groupId change).run s)) s s')
      fun _ s' => Ordered P env config
        (eventOf (.settle args how) ((changeGroup env args.groupId change).run s)) s s' := by
  refine wp_eventOf ?_ fun g t hrun => .settle hchange hrun
  rw [changeGroup, wp_mapError]
  exact transaction_undone env _ s

theorem settleBy_ordered (args : AllMessagesOfGroupArgs) (existing : M.Group) (how : Settling)
    (s : Session M) : wp (settleBy env args existing how) s
      (fun _ s' => Ordered P env config (changeEvents env args how s) s s')
      fun _ s' => Ordered P env config (changeEvents env args how s) s s' := by
  apply wp_settleBy
  · intro _ s₁ s₂ hs h
    exact h.trans_nil (Serializes.of_store hs.store hs.seen)
  · rintro rfl
    exact .refl s
  · intro change hchange
    unfold changeEvents
    rw [hchange]
    exact changeGroup_ordered args hchange s

theorem openGroup_ordered (args : AllMessagesOfGroupArgs) (s : Session M) :
    wp (openGroup env args) s
      (fun _ s' => Ordered P env config (settleEvents env args s) s s')
      fun _ s' => Ordered P env config (settleEvents env args s) s s' := by
  have hload : wp (loadGroupWithEpochMessageSecrets env args.groupId
      (preloadEpochs args.messages)) s (fun _ s' => Ordered P env config [] s s')
      fun _ s' => Ordered P env config [] s s' := load_ordered args.groupId _ s
  rw [openGroup, wp_bind, wp_attempt]
  unfold settleEvents
  cases hrun : (loadGroupWithEpochMessageSecrets env args.groupId
      (preloadEpochs args.messages)).run s with
  | error e s₁ => exact (wp_of_error hrun).mpr ((wp_of_error hrun).mp hload)
  | ok existing s₁ =>
    have h₁ : Ordered P env config [] s s₁ := (wp_of_ok hrun).mp hload
    refine (wp_of_ok hrun).mpr ?_
    dsimp only
    cases ownIdFromLeafNode existing with
    | none => exact h₁
    | some ownMemberId =>
      dsimp only
      rw [wp_bind]
      have hstatus : wp (getGroupPendingOperation env args.groupId) s₁
          (fun _ s' => s'.store = s₁.store ∧ s'.seen = s₁.seen)
          fun _ s' => s'.store = s₁.store ∧ s'.seen = s₁.seen := useStatuses_store _ s₁
      cases hop : (getGroupPendingOperation env args.groupId).run s₁ with
      | error e s₂ =>
        obtain ⟨hstore, hseen⟩ := (wp_of_error hop).mp hstatus
        exact (wp_of_error hop).mpr (h₁.trans (Serializes.of_store hstore hseen))
      | ok op s₂ =>
        obtain ⟨hstore, hseen⟩ := (wp_of_ok hop).mp hstatus
        have h₂ : Ordered P env config [] s s₂ := h₁.trans (Serializes.of_store hstore hseen)
        refine (wp_of_ok hop).mpr ?_
        rw [wp_bind, settlePending_eq]
        exact wp_mono (settleBy_ordered args existing _ s₂) (fun _ _ h₃ => h₂.trans h₃)
          fun _ _ h₃ => h₂.trans h₃

/-! ## The first loop -/

/-- OpenMLS is asked about a proposal, outside of a transaction. -/
theorem processProposalMessage_world {message : Bytes} {m : M.ProtocolMessage}
    (hm : protocolMessage message = .ok m) (s : Owning M.Group (Session M)) :
    let asked := (M.processMessage m (env.fault s.world.time)).run ⟨s.self, (s.world.await env).store⟩
    wp (processProposalMessage (autocommit env) message) s
      (fun _ t => t.world.store = (final asked).world ∧ t.world.seen = (s.world.await env).seen)
      fun _ t => t.world.store = (final asked).world ∧
        t.world.seen = (s.world.await env).seen := by
  intro asked
  rw [processProposalMessage, hm, wp_bind]
  refine wp_ofResult (fun m' hm' => ?_) fun e he => ?_
  · cases hm'
    rw [wp_bind, wp_mapError, wp_autocommit, wp_call]
    cases hrun : (M.processMessage m (env.fault s.world.time)).run
        ⟨s.self, (s.world.await env).store⟩ with
    | error e t =>
      refine (wp_of_error hrun).mpr ⟨?_, rfl⟩
      rw [show asked = _ from hrun]
      rfl
    | ok processed t =>
      have hasked : t.world = (final asked).world := by
        rw [show asked = _ from hrun]
        rfl
      refine (wp_of_ok hrun).mpr ?_
      cases processed.content with
      | proposalMessage proposal =>
        rw [wp_bind, wp_getSelf, wp_bind]
        exact wp_orThrow (fun _ _ => ⟨hasked, rfl⟩) fun _ => ⟨hasked, rfl⟩
      | applicationMessage _ => exact ⟨hasked, rfl⟩
      | externalJoinProposalMessage _ => exact ⟨hasked, rfl⟩
      | stagedCommitMessage _ => exact ⟨hasked, rfl⟩
  · cases he

theorem processProposalMessage_unasked {message : Bytes} {e : Error}
    (hm : protocolMessage (M := M) message = .error e) (s : Owning M.Group (Session M)) :
    (processProposalMessage (autocommit env) message).run s = .error e s := by
  rw [processProposalMessage, hm]
  rfl

theorem inspectEvents_cons (mlsGroup : Option M.Group) (msg : MlsMessage)
    (messages : List MlsMessage) : inspectEvents mlsGroup (msg :: messages) =
      inspectEvents mlsGroup [msg] ++ inspectEvents mlsGroup messages := by
  unfold inspectEvents
  split_ifs
  · rw [← List.map_append, ← List.filter_append]
    rfl
  · rfl

theorem inspectEvents_of_not {mlsGroup : Option M.Group} {msg : MlsMessage}
    (h : ¬(mlsGroup.isSome ∧ isInspected M msg)) : inspectEvents mlsGroup [msg] = [] := by
  unfold inspectEvents
  by_cases hgroup : mlsGroup.isSome
  · rw [if_pos hgroup, List.filter_cons_of_neg fun hmsg => h ⟨hgroup, hmsg⟩]
    rfl
  · exact if_neg hgroup

theorem inspectEvents_of_inspected {g : M.Group} {msg : MlsMessage} (h : isInspected M msg) :
    inspectEvents (some g) [msg] = [.inspect msg] := by
  unfold inspectEvents
  rw [if_pos Option.isSome_some, List.filter_cons_of_pos h]
  rfl

variable (config) in
/-- **A proposal is inspected** on what is stored, or it is refused unread. -/
theorem processProposalMessage_ordered {msg : MlsMessage} {g : M.Group} {s : Session M}
    (htype : msg.messageType = .proposal)
    (hcurrent : isInspected M msg → P.Current g (s.await env).store) :
    wp (processProposalMessage (autocommit env) msg.blob) ⟨g, s⟩
      (fun _ t => Ordered P env config (inspectEvents (some g) [msg]) s t.world)
      fun _ t => Ordered P env config (inspectEvents (some g) [msg]) s t.world := by
  cases hm : protocolMessage (M := M) msg.blob with
  | error e =>
    have hnot : ¬isInspected M msg := by simp [isInspected, hm, Except.isOk, Except.toBool]
    rw [inspectEvents_of_not fun h => hnot h.2]
    exact (wp_of_error (processProposalMessage_unasked hm ⟨g, s⟩)).mpr (.refl s)
  | ok m =>
    have hinspected : isInspected M msg := by
      simp [isInspected, htype, hm, Except.isOk, Except.toBool]
    have htakes : Takes P env config (.inspect msg) (s.await env).store
        (final ((M.processMessage m (env.fault s.time)).run ⟨g, (s.await env).store⟩)).world :=
      .inspect htype hm (hcurrent hinspected)
    rw [inspectEvents_of_inspected hinspected]
    refine wp_mono (processProposalMessage_world hm ⟨g, s⟩) (fun _ t ht => ?_) fun _ t ht => ?_
    · rw [← ht.1] at htakes
      exact Serializes.of_step htakes ht.2
    · rw [← ht.1] at htakes
      exact Serializes.of_step htakes ht.2

variable (config) in
theorem inspect_ordered {msg : MlsMessage} {p : Inspection M} {s : Session M}
    (hstale : ¬InspectsStale P env msg p s) :
    (p.step env msg s).1.mlsGroup.isSome = p.mlsGroup.isSome ∧
      Ordered P env config (inspectEvents p.mlsGroup [msg]) s (p.step env msg s).2 := by
  unfold Inspection.step
  dsimp only
  generalize hp' : (if p.latestEpoch < msg.epoch ∧ msg.messageType = .commit then
    { p with latestEpoch := msg.epoch } else p) = p'
  have hgroup : p'.mlsGroup = p.mlsGroup := by
    rw [← hp']
    split_ifs <;> rfl
  split
  · rename_i g htype hg
    rw [hgroup] at hg
    have hspec : wp _ _ _ _ := processProposalMessage_ordered config htype fun h =>
      not_not.mp fun hnot => hstale ⟨h, g, hg, hnot⟩
    rw [hg]
    split
    · rename_i proposal t hrun
      rw [Inspection.noteProposal_mlsGroup]
      exact ⟨rfl, (wp_of_ok hrun).mp hspec⟩
    · rename_i e t hrun
      rw [Inspection.noteCustomProposal_mlsGroup]
      exact ⟨rfl, (wp_of_error hrun).mp hspec⟩
  · rename_i hnot
    refine ⟨congrArg _ hgroup, ?_⟩
    rw [inspectEvents_of_not]
    · exact .refl s
    · rintro ⟨hsome, hinspected⟩
      obtain ⟨g, hg⟩ := Option.isSome_iff_exists.mp hsome
      have htype : msg.messageType = .proposal := by
        simp only [isInspected, Bool.and_eq_true, decide_eq_true_eq] at hinspected
        exact hinspected.1
      exact hnot g htype (hgroup.trans hg)

variable (config) in
theorem prePass_ordered (messages : List MlsMessage) (p : Inspection M) (s : Session M)
    (hstale : ∀ front msg, front ++ [msg] <+: messages →
      ¬InspectsStale P env msg (prePass env front p s).1 (prePass env front p s).2) :
    Ordered P env config (inspectEvents p.mlsGroup messages) s (prePass env messages p s).2 := by
  induction messages generalizing p s with
  | nil =>
    have hnone : inspectEvents p.mlsGroup [] = [] := ite_self _
    rw [hnone]
    exact .refl s
  | cons msg messages ih =>
    obtain ⟨hsome, hstep⟩ := inspect_ordered config (hstale [] msg (by simp))
    have hrest := ih (p.step env msg s).1 (p.step env msg s).2 fun front x hpre =>
      hstale (msg :: front) x (List.cons_prefix_cons.mpr ⟨rfl, hpre⟩)
    have hevents : inspectEvents (p.step env msg s).1.mlsGroup messages =
        inspectEvents p.mlsGroup messages := by
      unfold inspectEvents
      rw [show (p.step env msg s).1.mlsGroup.isSome = _ from hsome]
      rfl
    rw [inspectEvents_cons, ← hevents]
    exact hstep.trans hrest

/-! ## The second loop -/

variable {groupId : String} {msg : MlsMessage} {l : Progress M}

theorem welcomeArm_ordered (htype : msg.messageType = .welcome) (s : Session M) :
    Ordered P env config
      (eventOf (.message msg) ((transaction env (processWelcome env msg.blob config)).run s)) s
      (l.welcomeArm env config msg s).2 := by
  have hundone := transaction_undone env (processWelcome env msg.blob config) s
  have hevent : wp _ s (fun _ t => Ordered P env config (eventOf (.message msg) _) s t)
      fun _ t => Ordered P env config (eventOf (.message msg) _) s t :=
    wp_eventOf hundone fun _ _ => .welcome htype
  cases hrun : (transaction env (processWelcome env msg.blob config)).run s with
  | ok g s' =>
    rw [Progress.welcomeArm_of_ok hrun, ← hrun]
    exact (wp_of_ok hrun).mp hevent
  | error text s' =>
    rw [Progress.welcomeArm_of_error hrun, ← hrun]
    exact (wp_of_error hrun).mp hevent

theorem reload_ordered (s : Session M) :
    Ordered P env config [] s (l.reload env groupId msg s).2 := by
  have hload : wp (loadGroupWithEpochMessageSecrets env groupId [msg.epoch]) s
      (fun _ s' => Ordered P env config [] s s') fun _ s' => Ordered P env config [] s s' :=
    load_ordered groupId [msg.epoch] s
  by_cases hloaded : l.commitGroupLoaded
  · rw [Progress.reload_of_loaded hloaded]
    exact .refl s
  cases hrun : (loadGroupWithEpochMessageSecrets env groupId [msg.epoch]).run s with
  | ok g s' =>
    rw [Progress.reload_of_ok hloaded hrun]
    exact (wp_of_ok hrun).mp hload
  | error err s' =>
    rw [Progress.reload_of_error hloaded hrun]
    exact (wp_of_error hrun).mp hload

variable (groupId) in
theorem applyCommit_ordered (htype : msg.messageType = .commit) {g : M.Group} {s : Session M}
    (hg : l.mlsGroup = some g) (hcurrent : P.Current g (s.await env).store) :
    Ordered P env config (eventOf (.message msg)
      ((transactionOn env (processOperationMessage env msg.blob)).run ⟨g, s⟩)) s
      (l.applyCommit env groupId msg s).2 := by
  have hundone := transactionOn_undone env (processOperationMessage env msg.blob) ⟨g, s⟩
  cases hrun : (transactionOn env (processOperationMessage env msg.blob)).run ⟨g, s⟩ with
  | ok r t =>
    rw [Progress.applyCommit_of_ok hg hrun]
    exact Serializes.of_step (.commit htype hcurrent hrun) ((wp_of_ok hrun).mp hundone)
  | error text t =>
    obtain ⟨hstore, hseen⟩ := (wp_of_error hrun).mp hundone
    rw [Progress.applyCommit_of_error hg hrun]
    exact Serializes.of_await hstore hseen

theorem commitArm_ordered (htype : msg.messageType = .commit) {s : Session M}
    (hstale : ¬AppliesStale P env groupId msg l s) :
    Ordered P env config (stepEvents env config groupId msg l s) s
      (l.commitArm env groupId msg s).2 := by
  have hreload : Ordered P env config [] s (l.reload env groupId msg s).2 := reload_ordered s
  unfold stepEvents Progress.commitArm
  rw [htype]
  dsimp only
  cases hl : l.mlsGroup with
  | none => exact .refl s
  | some g₀ =>
    rw [if_pos Option.isSome_some]
    cases herr : (l.reload env groupId msg s).1.error with
    | some e =>
      rw [if_pos Option.isSome_some]
      exact hreload
    | none =>
      rw [if_neg (by simp)]
      cases hg : (l.reload env groupId msg s).1.mlsGroup with
      | none =>
        rw [Progress.applyCommit_of_none hg]
        split_ifs <;> exact hreload
      | some g =>
        have hcurrent : P.Current g ((l.reload env groupId msg s).2.await env).store :=
          not_not.mp fun hnot => hstale ⟨htype, by rw [hl]; rfl, herr, g, hg, hnot⟩
        have happly : Ordered P env config _ _ _ :=
          applyCommit_ordered groupId htype hg hcurrent
        split_ifs <;> exact hreload.trans happly

variable (config) in
/-- **Step lemma.** -/
theorem step_ordered (latestEpoch : ℕ) {s : Session M}
    (hstale : ¬AppliesStale P env groupId msg l s) :
    Ordered P env config (stepEvents env config groupId msg l s) s
      (l.step env groupId config latestEpoch msg s).2 := by
  cases htype : msg.messageType with
  | welcome =>
    unfold Progress.step stepEvents
    rw [htype]
    exact welcomeArm_ordered htype s
  | commit =>
    have harm : l.step env groupId config latestEpoch msg s = l.commitArm env groupId msg s := by
      unfold Progress.step
      rw [htype]
    rw [harm]
    exact commitArm_ordered htype hstale
  | proposal =>
    unfold Progress.step stepEvents
    rw [htype]
    exact .refl s
  | unknown =>
    unfold Progress.step stepEvents
    rw [htype]
    exact .refl s

/-! ## Runs -/

theorem operationLoop_ordered {latestEpoch : ℕ} (messages : List MlsMessage) (l : Progress M)
    (s : Session M)
    (hstale : ∀ front msg, front ++ [msg] <+: messages →
      (operationLoop env groupId config latestEpoch front l s).1.error = none →
      ¬AppliesStale P env groupId msg (operationLoop env groupId config latestEpoch front l s).1
        (operationLoop env groupId config latestEpoch front l s).2) :
    Ordered P env config (loopEvents env config groupId latestEpoch messages l s) s
      (operationLoop env groupId config latestEpoch messages l s).2 := by
  induction messages generalizing l s with
  | nil => exact .refl s
  | cons msg messages ih =>
    rw [loopEvents, operationLoop]
    by_cases herr : l.error.isSome
    · rw [if_pos herr, if_pos herr]
      exact .refl s
    rw [if_neg herr, if_neg herr]
    have hstep := step_ordered config latestEpoch
      (hstale [] msg (by simp) (Option.not_isSome_iff_eq_none.mp herr))
    refine hstep.trans (ih _ _ fun front x hpre => ?_)
    have hstale := hstale (msg :: front) x (List.cons_prefix_cons.mpr ⟨rfl, hpre⟩)
    rw [operationLoop, if_neg herr] at hstale
    exact hstale

theorem processGroup_ordered {i : AllMessagesOfGroupArgs × Session M}
    (hupdated : UpToDate P env config i) :
    wp (processGroup env config i.1) i.2
      (fun _ s' => Ordered P env config (groupEvents env config i) i.2 s')
      fun _ s' => Ordered P env config (groupEvents env config i) i.2 s' := by
  have hopened : wp (openGroup env i.1) i.2
      (fun _ s' => Ordered P env config (settleEvents env i.1 i.2) i.2 s')
      fun _ s' => Ordered P env config (settleEvents env i.1 i.2) i.2 s' := openGroup_ordered i.1 i.2
  rw [processGroup, wp_bind]
  unfold groupEvents
  cases hopen : (openGroup env i.1).run i.2 with
  | error e s' =>
    refine (wp_of_error hopen).mpr ?_
    rw [List.append_nil]
    exact (wp_of_error hopen).mp hopened
  | ok o s' =>
    have hopened := (wp_of_ok hopen).mp hopened
    refine (wp_of_ok hopen).mpr ?_
    cases o with
    | none =>
      dsimp only
      rw [List.append_nil]
      exact hopened
    | some opening =>
      refine hopened.trans ?_
      have hinspected := prePass_ordered config i.1.messages (.start opening.mlsGroup) s'
        fun front msg hpre => hupdated.inspects msg _ _ ⟨opening, s', front, hopen, hpre, rfl⟩
      refine hinspected.trans (operationLoop_ordered _ _ _ fun front msg hpre herr => ?_)
      exact hupdated.applies msg _ _ ⟨opening, s', front, hopen, hpre, rfl, herr⟩

end ordered

section joins

open Plain

/-- The group after a commit that adds a member. -/
def joined (g : plain.Group) : plain.Group :=
  { nextEpoch g with members := g.members ++ ["cid/3"] }

/-- Another thread processes a commit that adds a member. -/
def joins (db : PlainDb) : PlainDb :=
  match plain.stored db "g" with
  | some g => write db (joined g)
  | none => db

/-- The member is in the group, if the group is stored. -/
def Joined (stored : String → Option plain.Group) : Prop :=
  ∀ g, stored "g" = some g → "cid/3" ∈ g.members

theorem joined_joins (db : PlainDb) : Joined (plain.stored (joins db)) := by
  intro g hg
  unfold joins at hg
  cases h : plain.stored db "g" with
  | none =>
    rw [h] at hg
    exact absurd (h.symm.trans hg) (by simp)
  | some g₀ =>
    have hid : (joined g₀).id = "g" := plain_storesGroups.groupId (g := g₀) h
    rw [h] at hg
    change plain.stored (write db (joined g₀)) "g" = some g at hg
    rw [stored_write_eq, hid, Function.update_self] at hg
    cases hg
    exact List.mem_append_right _ List.mem_cons_self

/-- A group without cryptography has no message secrets. -/
def plainParts : Parts plain where
  Core := PlainGroup
  Secrets := Empty
  core := id
  secrets _ _ := none

variable {env : Surroundings plain}

/-- The member is in the group in memory, if that is the group, and in the stored one. -/
def JoinedIn (s : Owning plain.Group (Session plain)) : Prop :=
  (s.self.id = "g" → "cid/3" ∈ s.self.members) ∧ Joined (plain.stored s.world.store)

theorem change_joinedIn {α : Type} (wrap : String → Error) (a : α) {f : PlainGroup → PlainGroup}
    (hid : ∀ g, (f g).id = g.id) (hmembers : ∀ g, (f g).members = g.members) :
    Preserves JoinedIn JoinedIn (use (M := plain) env wrap (change a f)) := by
  rintro s ⟨hself, hstored⟩
  have hf : (f s.self).id = "g" → "cid/3" ∈ (f s.self).members := by
    rw [hid, hmembers]
    exact hself
  rw [wp_use]
  cases env.fault s.world.time with
  | some e => exact ⟨hf, hstored⟩
  | none =>
    refine ⟨hf, fun g hg => ?_⟩
    change plain.stored (write s.world.store (f s.self)) "g" = some g at hg
    rw [stored_write_eq] at hg
    by_cases h : (f s.self).id = "g"
    · rw [h, Function.update_self] at hg
      cases hg
      exact hf h
    · rw [Function.update_of_ne (Ne.symm h)] at hg
      exact hstored g hg

theorem changeIf_joinedIn {α : Type} (wrap : String → Error) (pending : Bool) (a : α)
    {f : PlainGroup → PlainGroup} (hid : ∀ g, (f g).id = g.id)
    (hmembers : ∀ g, (f g).members = g.members) :
    Preserves JoinedIn JoinedIn (use (M := plain) env wrap (changeIf pending a f)) := by
  intro s hs
  have hpreserves : Preserves JoinedIn JoinedIn (use (M := plain) env wrap (change a f)) :=
    change_joinedIn wrap a hid hmembers
  have hchange := hpreserves s hs
  rw [wp_use] at hchange ⊢
  by_cases h : PlainGroup.pending s.self = pending
  · rw [wp, changeIf_of_eq h]
    exact hchange
  · exact (wp_of_error (changeIf_of_ne h a f _)).mpr hs

theorem delete_joinedIn : Preserves JoinedIn JoinedIn (deleteGroup (M := plain) env) := by
  rintro s ⟨hself, hstored⟩
  rw [deleteGroup, wp_use]
  cases env.fault s.world.time with
  | some e => exact ⟨hself, hstored⟩
  | none =>
    refine ⟨hself, fun g hg => ?_⟩
    change ((Function.update s.world.store.groups s.self.id none) "g").filter _ = some g at hg
    by_cases h : s.self.id = "g"
    · rw [h, Function.update_self] at hg
      cases hg
    · rw [Function.update_of_ne (Ne.symm h)] at hg
      exact hstored g hg

theorem processOperationMessage_joinedIn (message : Bytes) :
    Preserves JoinedIn JoinedIn (processOperationMessage (M := plain) env message) := by
  apply processOperationMessage_preserves
  · exact fun _ h => h
  · exact fun _ h => h
  · exact fun m => preserves_of_reads (plain_storesGroups.processMessage m)
      fun g stored => (g.id = "g" → "cid/3" ∈ g.members) ∧ Joined stored
  · exact fun _ => change_joinedIn _ _ (fun _ => rfl) fun _ => rfl
  · exact fun p => change_joinedIn _ _ (f := fun g => { g with queue := g.queue ++ [p.reference] })
      (fun _ => rfl) fun _ => rfl
  · exact fun _ => changeIf_joinedIn _ _ _ (fun _ => rfl) fun _ => rfl

theorem changeGroup_joined {id : String} {change : GroupAction plain Unit}
    (hchange : Preserves JoinedIn JoinedIn change) {s : Session plain}
    (hs : Joined (plain.stored (s.await env).store)) : wp (changeGroup env id change) s
      (fun _ s' => Joined (plain.stored s'.store)) fun _ _ => True := by
  rw [changeGroup, wp_mapError]
  refine wp_transaction (fun _ _ => trivial) fun _ => ?_
  rw [wp_bind]
  refine wp_mono (group_spec plain_storesGroups id [] _) (fun g t ht => ?_) fun _ _ _ => trivial
  rw [wp_bind, wp_withSelf]
  have hself : g.id = "g" → "cid/3" ∈ g.members := by
    intro hid
    have hg := plain_storesGroups.groupId ht.1
    refine hs g ?_
    rw [← hid, show g.id = id from hg]
    exact ht.1
  have hstore : Joined (plain.stored t.store) := by
    rw [ht.2]
    exact hs
  exact wp_mono (hchange ⟨g, t⟩ ⟨hself, hstore⟩)
    (fun _ _ hu => ⟨fun _ _ => trivial, fun _ => hu.2⟩) fun _ _ _ => trivial

/-- Whatever a call does to the group without a Welcome, the member stays. -/
theorem takes_joined {e : Own} (he : ∀ msg, e = .message msg → msg.messageType ≠ .welcome)
    {v w : plain.Db} (h : Takes plainParts env () e v w) (hv : Joined (plain.stored v)) :
    Joined (plain.stored w) := by
  cases h with
  | @settle args how change g s s' hchange h =>
    have hkeep : Preserves JoinedIn JoinedIn change := by
      cases how with
      | keep => cases hchange
      | merge =>
        cases hchange
        exact changeIf_joinedIn _ true () (fun _ => rfl) fun _ => rfl
      | clear =>
        cases hchange
        exact change_joinedIn _ () (f := fun g => { g with pending := false }) (fun _ => rfl)
          fun _ => rfl
      | remove =>
        cases hchange
        exact delete_joinedIn
    exact (wp_of_ok h).mp (changeGroup_joined hkeep hv)
  | @inspect msg m g fault db htype hm hg =>
    rw [show plain.stored _ = _ from (plain_storesGroups.processMessage m fault ⟨g, v⟩).2]
    exact hv
  | welcome htype h => exact absurd htype (he _ rfl)
  | @commit msg g r s t htype hg h =>
    obtain ⟨g', hg', rfl, -⟩ := hg
    have hself : g.id = "g" → "cid/3" ∈ g.members := by
      intro hid
      refine hv g ?_
      rw [← hid]
      exact hg'
    have hspec : wp (transactionOn env (processOperationMessage (M := plain) env msg.blob)) ⟨g, s⟩
        (fun _ t => Joined (plain.stored t.world.store)) fun _ _ => True := by
      refine Lib.wp_transaction (fun _ _ => trivial) fun _ => ?_
      exact wp_mono (processOperationMessage_joinedIn msg.blob _ ⟨hself, hv⟩)
        (fun _ _ hu => ⟨fun _ _ => trivial, fun _ => hu.2⟩) fun _ _ _ => trivial
    exact (wp_of_ok h).mp hspec

def joinsAt (moment : ℕ) : Surroundings plain where
  others t := if t = moment then [joins] else []
  fault _ := none

end joins

end KChat.Mls
