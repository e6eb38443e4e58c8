import KChat.Mls.Batch

/-!
# The group in memory and the stored group

* `Synced`: the group in memory is the stored one; `Faithful`: a computation on a group keeps it so,
  and never changes the group's id. **`processOperationMessage_faithful`**.
* `load_spec`, `processWelcome_spec`, `transactionOn_spec`: what loads, Welcomes and transactions do,
  with others writing in between.
* `Unmarked`: no status but "none" was written. `wp_settleBy`, `wp_settlePending`: the rules for a
  pending operation.
* `Looked`: the store was looked at. `Inspection.step_looked`.
-/

namespace KChat.Mls

open Lib OpenMls

variable {M : OpenMls} {env : Surroundings M} {α β : Type}

/-- The group in memory is the stored one. -/
def Synced (s : Owning M.Group (Session M)) : Prop :=
  M.stored s.world.store (M.groupId s.self) = some s.self

theorem Synced.of_store {g : M.Group} {s s' : Session M} (h : Synced ⟨g, s⟩)
    (hs : s'.store = s.store) : Synced ⟨g, s'⟩ := by
  rw [Synced, hs]
  exact h

/-! ## Computations on a group -/

theorem preserves_of_reads {wrap : String → Error} {method : M.GroupMethod α} (h : Reads method)
    (J : M.Group → (String → Option M.Group) → Prop) :
    Preserves (fun s => J s.self (M.stored s.world.store)) (fun s => J s.self (M.stored s.world.store))
      (use env wrap method) := by
  intro s hs
  have hreads := h (env.fault s.world.time) ⟨s.self, s.world.store⟩
  rw [wp_use]
  cases hrun : (method (env.fault s.world.time)).run ⟨s.self, s.world.store⟩ with
  | ok a t =>
    rw [hrun] at hreads
    refine (wp_of_ok hrun).mpr ?_
    change J t.self (M.stored t.world)
    rw [show t.self = s.self from hreads.1, show M.stored t.world = _ from hreads.2]
    exact hs
  | error e t =>
    rw [hrun] at hreads
    refine (wp_of_error hrun).mpr ?_
    change J t.self (M.stored t.world)
    rw [show t.self = s.self from hreads.1, show M.stored t.world = _ from hreads.2]
    exact hs

/-- **Whatever the computation changes it writes**, unless it fails. -/
def Faithful (x : GroupAction M α) : Prop :=
  ∀ s, wp x s (fun _ s' => M.groupId s'.self = M.groupId s.self ∧ (Synced s → Synced s'))
    fun _ s' => M.groupId s'.self = M.groupId s.self

namespace Faithful

/-- What a faithful computation says of the session `s₀` it once began in. -/
theorem preserves {x : GroupAction M α} (h : Faithful x) (s₀ : Owning M.Group (Session M)) :
    Preserves (fun s => M.groupId s.self = M.groupId s₀.self ∧ (Synced s₀ → Synced s))
      (fun s => M.groupId s.self = M.groupId s₀.self) x := by
  rintro s ⟨hid, hs⟩
  exact wp_mono (h s) (fun _ _ h' => ⟨h'.1.trans hid, fun h₀ => h'.2 (hs h₀)⟩)
    fun _ _ h' => h'.trans hid

theorem of_preserves {x : GroupAction M α}
    (h : ∀ s₀ : Owning M.Group (Session M),
      Preserves (fun s => M.groupId s.self = M.groupId s₀.self ∧ (Synced s₀ → Synced s))
        (fun s => M.groupId s.self = M.groupId s₀.self) x) : Faithful x :=
  fun s => h s s ⟨rfl, id⟩

theorem of_reads {wrap : String → Error} {method : M.GroupMethod α} (h : Reads method) :
    Faithful (use env wrap method) := by
  intro s
  refine wp_mono (preserves_of_reads h (fun g stored => g = s.self ∧ stored = M.stored s.world.store) s
    ⟨rfl, rfl⟩) (fun _ s' hs' => ⟨congrArg M.groupId hs'.1, fun hsync => ?_⟩)
    fun _ _ hs' => congrArg M.groupId hs'.1
  rw [Synced, hs'.1, hs'.2]
  exact hsync

theorem of_writes {wrap : String → Error} {method : M.GroupMethod α} (h : Writes method) :
    Faithful (use env wrap method) := by
  intro s
  have hid := h.groupId (env.fault s.world.time) ⟨s.self, s.world.store⟩
  rw [wp_use]
  cases hrun : (method (env.fault s.world.time)).run ⟨s.self, s.world.store⟩ with
  | ok a t =>
    rw [hrun] at hid
    refine (wp_of_ok hrun).mpr ⟨hid, fun hsync => ?_⟩
    exact (wp_of_ok hrun).mp (h.stored (env.fault s.world.time) ⟨s.self, s.world.store⟩ hsync)
  | error e t =>
    rw [hrun] at hid
    exact (wp_of_error hrun).mpr hid

end Faithful

section messages

variable {J F : Owning M.Group (Session M) → Prop} (hF : ∀ s, J s → F s)
  (htick : ∀ s : Owning M.Group (Session M), J s → J ⟨s.self, s.world.tick⟩)
include hF htick

theorem groupSigner_preserves : Preserves J F (groupSigner (M := M) env) := by
  refine .bind (fun _ h => h) fun g => (Preserves.orThrow hF _ _).bind fun leaf => ?_
  exact .bind (fun s h => htick s h) fun signer => .orThrow hF _ _

variable (hprocess : ∀ m, Preserves J F (use env .processMessage (M.processMessage m)))
  (hmerge : ∀ commit, Preserves J F (use env .mergeCommit (M.mergeStagedCommit commit)))
  (hstore : ∀ p, Preserves J F (use env .storage (M.storePendingProposal p)))
  (hcommit : ∀ signer, Preserves J F (use env .removeMembers (M.commitToPendingProposals signer)))
include hprocess hmerge hstore hcommit

/-- **What every method keeps, the processing of an operation message keeps.** -/
theorem processOperationMessage_preserves (message : Bytes) :
    Preserves J F (processOperationMessage env message) := by
  have hsigner : Preserves J F (groupSigner (M := M) env) := groupSigner_preserves hF htick
  have hproposal : ∀ proposal : M.QueuedProposal, Preserves J F (do
      let signer ← groupSigner env
      let r ← commitProposal env signer proposal
      let commit ← ofResult ((M.serialize r.1).mapError .mls)
      let groupInfo ← ofResult ((r.2.mapM M.serialize).mapError .mls)
      return ({ commit := some commit, groupInfo := groupInfo } : ProcessOperationMessageResult)) :=
    fun proposal => hsigner.bind fun signer =>
      ((hstore proposal).bind fun _ => hcommit signer).bind fun _ =>
        (Preserves.ofResult hF _).bind fun _ => (Preserves.ofResult hF _).bind fun _ => .pure _
  refine (Preserves.ofResult hF _).bind fun message => (hprocess message).bind fun processed => ?_
  cases processed.content with
  | stagedCommitMessage commit => exact (hmerge commit).bind fun _ => .pure _
  | proposalMessage proposal => exact hproposal proposal
  | externalJoinProposalMessage proposal => exact hproposal proposal
  | applicationMessage _ => exact .throw hF _

theorem processManyLoop_preserves (messages : List Bytes) (signer : Option M.Signer) :
    Preserves J F (processManyLoop env messages signer) := by
  induction messages generalizing signer with
  | nil => exact .pure _
  | cons message messages ih =>
    have hcommitted : ∀ proposal signer, Preserves J F (do
        let _ ← commitProposal env signer proposal
        processManyLoop env messages (some signer)) := fun proposal signer =>
      ((hstore proposal).bind fun _ => hcommit signer).bind fun _ => ih (some signer)
    have hfirst : ∀ proposal, Preserves J F (groupSigner env >>= fun signer => do
        let _ ← commitProposal env signer proposal
        processManyLoop env messages (some signer)) := fun proposal =>
      (groupSigner_preserves hF htick).bind (hcommitted proposal)
    refine (Preserves.ofResult hF _).bind fun m => (hprocess m).bind fun processed => ?_
    cases processed.content with
    | stagedCommitMessage commit => exact (hmerge commit).bind fun _ => ih signer
    | proposalMessage proposal =>
      cases signer with
      | some signer => exact hcommitted proposal signer
      | none => exact hfirst proposal
    | externalJoinProposalMessage proposal =>
      cases signer with
      | some signer => exact hcommitted proposal signer
      | none => exact hfirst proposal
    | applicationMessage _ => exact ih signer

theorem processManyOperationMessages_preserves (messages : List Bytes) :
    Preserves J F (processManyOperationMessages env messages) :=
  (processManyLoop_preserves hF htick hprocess hmerge hstore hcommit messages none).bind fun _ =>
    .bind (fun _ h => h) fun _ => .pure _

end messages

section core

variable (h : M.StoresGroups)
include h

variable (env) in
/-- **An operation message changes the stored group with the one in memory.** -/
theorem processOperationMessage_faithful (message : Bytes) :
    Faithful (processOperationMessage (M := M) env message) := by
  refine .of_preserves fun s₀ => processOperationMessage_preserves (fun _ h => h.1) ?_ ?_ ?_ ?_ ?_ _
  · exact fun _ h => h
  · exact fun m => (Faithful.of_reads (h.processMessage m)).preserves s₀
  · exact fun c => (Faithful.of_writes (h.mergeStagedCommit c)).preserves s₀
  · exact fun p => (Faithful.of_writes (h.storePendingProposal p)).preserves s₀
  · exact fun signer => (Faithful.of_writes (h.commitToPendingProposals signer)).preserves s₀

omit h in
variable (env) in
/-- A transaction on a group, begun after the others committed. -/
theorem transactionOn_spec {x : GroupAction M α} (hx : Faithful x)
    (s : Owning M.Group (Session M)) : wp (transactionOn env x) s
      (fun _ t => M.groupId t.self = M.groupId s.self ∧
        (Synced ⟨s.self, s.world.await env⟩ → Synced t))
      fun _ t => M.groupId t.self = M.groupId s.self ∧
        t.world.store = (s.world.await env).store := by
  refine Lib.wp_transaction (fun _ _ => ⟨rfl, rfl⟩) fun _ => ?_
  refine wp_mono (hx _) (fun _ t ht => ⟨fun _ _ => ⟨ht.1, rfl⟩, fun _ => ht⟩) fun _ t ht => ⟨ht, rfl⟩

end core

/-! ## Loads and Welcomes -/

theorem loadGroup_store (id : String) (s : Session M) : wp (loadGroup env id) s
    (fun _ t => t.store = s.store) fun _ t => t.store = s.store := by
  rw [loadGroup, wp_bind, wp_look]
  split <;> rfl

theorem group_store (id : String) (messages : List Bytes) (s : Session M) :
    wp (group env id messages) s (fun _ t => t.store = s.store)
      fun _ t => t.store = s.store := by
  rw [group, wp_bind]
  refine wp_ofResult (fun epochs _ => ?_) fun _ _ => rfl
  rw [wp_bind, wp_look]
  split
  · rfl
  · exact loadGroup_store id s.tick
  · exact loadGroup_store id s.tick
  · rfl

section loads

variable (h : M.StoresGroups)
include h

def LoadSpec (id : String) (store : M.Db) (x : Action M M.Group) (s : Session M) : Prop :=
  wp x s (fun g s' => M.stored store id = some g ∧ s'.store = store) fun _ s' => s'.store = store

theorem loadGroup_spec (id : String) (s : Session M) : LoadSpec id s.store (loadGroup env id) s := by
  rw [LoadSpec, loadGroup, wp_bind, wp_look]
  split
  · rename_i g hg
    exact ⟨h.load hg, rfl⟩
  · exact rfl
  · exact rfl

theorem group_spec (id : String) (messages : List Bytes) (s : Session M) :
    LoadSpec id s.store (group env id messages) s := by
  rw [LoadSpec, group, wp_bind]
  refine wp_ofResult (fun epochs _ => ?_) fun _ _ => rfl
  rw [wp_bind, wp_look]
  split
  · rename_i g hg
    exact ⟨h.loadOptimize hg, rfl⟩
  · exact loadGroup_spec h id s.tick
  · exact loadGroup_spec h id s.tick
  · exact rfl

theorem groupWithEpochMessageSecrets_spec (id : String) (epochs : List ℕ) (s : Session M) :
    LoadSpec id s.store (groupWithEpochMessageSecrets env id epochs) s := by
  rw [LoadSpec, groupWithEpochMessageSecrets, wp_bind, wp_look]
  split
  · rename_i g hg
    exact ⟨h.loadOptimize hg, rfl⟩
  · exact rfl
  · exact group_spec h id [] s.tick
  · exact rfl

variable (env) in
/-- **A load in its own transaction** gives the group that is stored when it begins. -/
theorem load_spec (id : String) (epochs : List ℕ) (s : Session M) :
    LoadSpec id (s.await env).store (loadGroupWithEpochMessageSecrets env id epochs) s := by
  have hspec : wp (transaction env (attempt (groupWithEpochMessageSecrets env id epochs))) s
      (fun r s' => (∀ g, r = .ok g → M.stored (s.await env).store id = some g) ∧
        s'.store = (s.await env).store)
      fun _ s' => s'.store = (s.await env).store := by
    refine wp_transaction (fun _ _ => rfl) fun _ => ?_
    rw [wp_attempt]
    refine wp_mono (groupWithEpochMessageSecrets_spec h id epochs _) (fun g t ht => ?_)
      fun e t ht => ⟨fun _ _ => rfl, fun _ => ⟨fun g hg => (by cases hg), ht⟩⟩
    refine ⟨fun _ _ => rfl, fun _ => ⟨fun g' hg' => ?_, ht.2⟩⟩
    cases hg'
    exact ht.1
  rw [LoadSpec, loadGroupWithEpochMessageSecrets, wp_bind, wp_mapError]
  refine wp_mono hspec (fun r s' hs' => ?_) fun _ _ h => h
  exact wp_ofResult (fun g hg => ⟨hs'.1 g hg, hs'.2⟩) fun _ _ => hs'.2

variable (env) in
/-- A Welcome that is accepted is stored; one that is not leaves the stored groups alone. -/
theorem processWelcome_spec (welcome : Bytes) (config : M.JoinConfig) (s : Session M) :
    wp (transaction env (processWelcome env welcome config)) s
      (fun g s' => M.stored s'.store (M.groupId g) = some g)
      fun _ s' => s'.store = (s.await env).store := by
  refine wp_transaction (fun _ _ => rfl) fun _ => ?_
  rw [processWelcome, wp_bind]
  refine wp_ofResult (fun message _ => ?_) fun _ _ => rfl
  rw [wp_bind]
  refine wp_orThrow (fun welcome _ => ?_) fun _ => rfl
  rw [wp_bind, wp_useStore]
  refine wp_mono (wp_true _ _) (fun staged db _ => ?_) fun _ _ _ => rfl
  rw [wp_useStore]
  exact wp_mono (h.intoGroup _ _ _) (fun g db' hg => ⟨fun _ _ => rfl, fun _ => hg⟩) fun _ _ _ => rfl

theorem changeGroup_spec (id : String) {change : GroupAction M Unit} (hchange : Faithful change)
    (s : Session M) : wp (changeGroup env id change) s
      (fun g s' => M.groupId g = id ∧ M.stored s'.store id = some g) fun _ _ => True := by
  rw [changeGroup, wp_mapError]
  refine wp_transaction (fun _ _ => trivial) fun _ => ?_
  rw [wp_bind]
  refine wp_mono (group_spec h id [] _) (fun g t ht => ?_) fun _ _ _ => trivial
  obtain ⟨hg, ht⟩ := ht
  have hid := h.groupId hg
  rw [wp_bind, wp_withSelf]
  refine wp_mono (hchange _) (fun _ u hu => ?_) fun _ _ _ => trivial
  obtain ⟨hu, hsync⟩ := hu
  have hstored : Synced u := hsync (by rw [Synced, ht, hid]; exact hg)
  have hid' : M.groupId u.self = id := hu.trans hid
  rw [Synced, hid'] at hstored
  exact ⟨fun _ _ => trivial, fun _ => ⟨hid', hstored⟩⟩

end loads

/-- The message is a Welcome, and the group `w` is joined through it. -/
def Joins (env : Surroundings M) (config : M.JoinConfig) (msg : MlsMessage) (s : Session M)
    (w : M.Group) : Prop :=
  msg.messageType = .welcome ∧
    ∃ t, (transaction env (processWelcome env msg.blob config)).run s = .ok w t

/-- The Welcomes of the batch are for its group. -/
def OfGroup (env : Surroundings M) (config : M.JoinConfig) (args : AllMessagesOfGroupArgs) : Prop :=
  ∀ msg ∈ args.messages, ∀ s w, Joins env config msg s w → M.groupId w = args.groupId

/-! ## Settling -/

section settle

variable {Q : Option M.Group → Session M → Prop} {E : Error → Session M → Prop}

/-- The status table is beside the store. -/
theorem useStatuses_store (f : GroupStatuses → α × GroupStatuses) (s : Session M) :
    wp (useStatuses env f) s (fun _ s' => s'.store = s.store ∧ s'.seen = s.seen)
      fun _ s' => s'.store = s.store ∧ s'.seen = s.seen := by
  exact wp_useStatuses (fun _ _ => ⟨rfl, rfl⟩) fun _ => ⟨rfl, rfl⟩

/-- Nothing but "none" was written to the table of statuses. -/
structure Unmarked (s s' : Session M) : Prop where
  store : s'.store = s.store
  seen : s'.seen = s.seen
  status : ∀ other, statusOf other s'.beside = statusOf other s.beside ∨
    ∀ op, statusOf other s'.beside = some op → op = GroupPendingOperation.none.toRow

theorem Unmarked.of_tick (s : Session M) : Unmarked s s.tick := ⟨rfl, rfl, fun _ => .inl rfl⟩

theorem insertNone_unmarked (groupId : String) (s : Session M) :
    wp (insertOrUpdateGroupStatus env groupId .none) s (fun _ => Unmarked s)
      fun _ => Unmarked s := by
  refine wp_useStatuses (fun _ _ => .of_tick s) fun _ => ⟨rfl, rfl, fun other => ?_⟩
  by_cases hother : other = groupId
  · subst hother
    exact .inr fun op hop => (Option.some.inj (statusOf_insert.symm.trans hop)).symm
  · exact .inl (statusOf_insert_of_ne hother)

theorem deleteStatus_unmarked (groupId : String) (s : Session M) :
    wp (deleteGroupStatus env groupId) s (fun _ => Unmarked s) fun _ => Unmarked s := by
  refine wp_useStatuses (fun _ _ => .of_tick s) fun _ => ⟨rfl, rfl, fun other => ?_⟩
  by_cases hother : other = groupId
  · subst hother
    exact .inr fun op hop => nomatch statusOf_filter.symm.trans hop
  · exact .inl (statusOf_filter_of_ne hother)

inductive Settling
  | keep | merge | clear | remove
  deriving DecidableEq, Repr

/-- The first message of the next epoch was sent by the own member. -/
def ownMessage (args : AllMessagesOfGroupArgs) (existing : M.Group) (ownMemberId : String)
    (op : GroupPendingOperation) : Bool :=
  (getFirstMessage (M.epoch existing) args op).any fun msg =>
    senderMatchesMemberId ownMemberId msg.sender

def settling (args : AllMessagesOfGroupArgs) (existing : M.Group) (ownMemberId : String)
    (op : GroupPendingOperation) : Settling :=
  match op with
  | .createGroup | .joinByExternalCommit =>
    if op = .createGroup ∧ M.epoch existing = 0 then
      if args.pendingEpoch = 0 then
        if M.treeHash existing = args.pendingTreeHash then .merge else .remove
      else .keep
    else if ownMessage args existing ownMemberId op then .merge else .remove
  | .updateTree => if ownMessage args existing ownMemberId op then .merge else .clear
  | .leaveGroup | .none => .keep

variable (env) in
/-- What is called on the group, in a transaction of its own. -/
def Settling.change : Settling → Option (GroupAction M Unit)
  | .keep => none
  | .merge => some (mergePendingCommit env)
  | .clear => some (clearPendingCommit env)
  | .remove => some (deleteGroup env)

variable (env) in
def settleBy (args : AllMessagesOfGroupArgs) (existing : M.Group) :
    Settling → Action M (Option M.Group)
  | .keep => return some existing
  | .merge => do
    let g ← some <$> changeGroup env args.groupId (mergePendingCommit env)
    let _ ← attempt (insertOrUpdateGroupStatus env args.groupId .none)
    return g
  | .clear => do
    let g ← some <$> changeGroup env args.groupId (clearPendingCommit env)
    let _ ← attempt (insertOrUpdateGroupStatus env args.groupId .none)
    return g
  | .remove => do
    let g ← (fun _ => none) <$> removeGroup env args.groupId
    let _ ← attempt (insertOrUpdateGroupStatus env args.groupId .none)
    return g

variable (env) in
theorem settlePending_eq (args : AllMessagesOfGroupArgs) (existing : M.Group) (ownMemberId : String)
    (op : GroupPendingOperation) : settlePending env args existing ownMemberId op =
      settleBy env args existing (settling args existing ownMemberId op) := by
  unfold settlePending settling ownMessage
  cases op with
  | leaveGroup => rfl
  | none => rfl
  | updateTree =>
    dsimp only
    cases getFirstMessage (M.epoch existing) args .updateTree with
    | none => rfl
    | some msg =>
      dsimp only [Option.any_some]
      split_ifs <;> rfl
  | createGroup =>
    dsimp only
    cases getFirstMessage (M.epoch existing) args .createGroup with
    | none =>
      simp only [Option.any_none, Bool.false_eq_true, if_false]
      split_ifs <;> rfl
    | some msg =>
      dsimp only [Option.any_some]
      split_ifs <;> rfl
  | joinByExternalCommit =>
    have hne : ¬(GroupPendingOperation.joinByExternalCommit = .createGroup ∧ M.epoch existing = 0) :=
      fun h => nomatch h.1
    dsimp only
    rw [if_neg hne, if_neg hne]
    cases getFirstMessage (M.epoch existing) args .joinByExternalCommit with
    | none => rfl
    | some msg =>
      dsimp only [Option.any_some]
      split_ifs <;> rfl

variable (env) in
/-- The status is written after the group was settled, whether or not that succeeds. -/
theorem wp_settled (id : String) {x : Action M (Option M.Group)} {s : Session M}
    (hstatus : ∀ o s s', Unmarked s s' → Q o s → Q o s') (hx : wp x s Q E) : wp (do
      let g ← x
      let _ ← attempt (insertOrUpdateGroupStatus env id .none)
      return g) s Q E := by
  rw [wp_bind]
  refine wp_mono hx (fun o s₁ h₁ => ?_) fun _ _ h => h
  rw [wp_bind, wp_attempt]
  exact wp_mono (insertNone_unmarked id s₁) (fun _ s₂ hs => hstatus o s₁ s₂ hs h₁)
    fun _ s₂ hs => hstatus o s₁ s₂ hs h₁

/-- **Settling in a given way** is one change in a transaction of its own, or nothing. -/
theorem wp_settleBy {args : AllMessagesOfGroupArgs} {existing : M.Group} {how : Settling}
    {s : Session M} (hstatus : ∀ o s s', Unmarked s s' → Q o s → Q o s')
    (hkeep : how = .keep → Q (some existing) s)
    (hchange : ∀ change, how.change env = some change →
      wp (changeGroup env args.groupId change) s
        (fun g => Q (if how = .remove then none else some g)) E) :
    wp (settleBy env args existing how) s Q E := by
  have hsome : ∀ change : GroupAction M Unit,
      wp (changeGroup env args.groupId change) s (fun g => Q (some g)) E →
      wp (some <$> changeGroup env args.groupId change) s Q E := by
    intro change h
    rw [map_eq_pure_bind, wp_bind]
    exact h
  cases how with
  | keep => exact hkeep rfl
  | merge => exact wp_settled env args.groupId hstatus (hsome _ (hchange _ rfl))
  | clear => exact wp_settled env args.groupId hstatus (hsome _ (hchange _ rfl))
  | remove =>
    refine wp_settled env args.groupId hstatus ?_
    rw [map_eq_pure_bind, wp_bind, removeGroup, wp_bind]
    refine wp_mono (hchange _ rfl) (fun _ s₁ h₁ => ?_) fun _ _ h => h
    rw [wp_bind, wp_attempt]
    exact wp_mono (deleteStatus_unmarked args.groupId s₁) (fun _ s₂ hs => hstatus none s₁ s₂ hs h₁)
      fun _ s₂ hs => hstatus none s₁ s₂ hs h₁

/-- **Settling** is merging, clearing or deleting in one transaction, or nothing. -/
theorem wp_settlePending {args : AllMessagesOfGroupArgs} {existing : M.Group}
    {ownMemberId : String} {op : GroupPendingOperation} {s : Session M}
    (hstatus : ∀ o s s', Unmarked s s' → Q o s → Q o s')
    (hmerge : wp (changeGroup env args.groupId (mergePendingCommit env)) s (fun g => Q (some g)) E)
    (hclear : wp (changeGroup env args.groupId (clearPendingCommit env)) s (fun g => Q (some g)) E)
    (hdelete : wp (changeGroup env args.groupId (deleteGroup env)) s (fun _ => Q none) E)
    (hkeep : Q (some existing) s) : wp (settlePending env args existing ownMemberId op) s Q E := by
  rw [settlePending_eq]
  generalize settling args existing ownMemberId op = how
  refine wp_settleBy hstatus (fun _ => hkeep) fun change hchange => ?_
  cases how with
  | keep => cases hchange
  | merge =>
    cases hchange
    exact hmerge
  | clear =>
    cases hchange
    exact hclear
  | remove =>
    cases hchange
    exact hdelete

end settle

/-! ## Looks -/

/-- The store was looked at: the others may have been let in, no group was changed. -/
def Looked (env : Surroundings M) (s s' : Session M) : Prop :=
  ∃ s₀, (s₀ = s ∨ s₀ = s.await env) ∧ M.stored s'.store = M.stored s₀.store ∧ s'.seen = s₀.seen

theorem looked_of_store {s s' : Session M} (h : M.stored s'.store = M.stored s.store)
    (hseen : s'.seen = s.seen) : Looked env s s' := ⟨s, .inl rfl, h, hseen⟩

theorem looked_of_await {s s' : Session M} (h : M.stored s'.store = M.stored (s.await env).store)
    (hseen : s'.seen = (s.await env).seen) : Looked env s s' := ⟨_, .inr rfl, h, hseen⟩

theorem Looked.stored_of_alone {s s' : Session M} (h : Looked env s s')
    (halone : ∀ t, env.others t = []) : M.stored s'.store = M.stored s.store := by
  obtain ⟨s₀, rfl | rfl, hstored, -⟩ := h
  · exact hstored
  · rw [hstored, Session.await_store_of_alone halone]

section looks

variable (env) (h : M.StoresGroups)
include h

theorem processProposalMessage_looked (message : Bytes) (s : Owning M.Group (Session M)) :
    wp (processProposalMessage (autocommit env) message) s
      (fun _ t => t.self = s.self ∧ Looked env s.world t.world)
      fun _ t => t.self = s.self ∧ Looked env s.world t.world := by
  rw [processProposalMessage, wp_bind]
  refine wp_ofResult (fun message _ => ?_) fun _ _ => ⟨rfl, looked_of_store rfl rfl⟩
  rw [wp_bind, wp_mapError, wp_autocommit, wp_call]
  have hreads := h.processMessage message (env.fault s.world.time)
    ⟨s.self, (s.world.await env).store⟩
  cases hrun : (M.processMessage message (env.fault s.world.time)).run
      ⟨s.self, (s.world.await env).store⟩ with
  | error e t =>
    rw [hrun] at hreads
    exact (wp_of_error hrun).mpr ⟨hreads.1, looked_of_await hreads.2 rfl⟩
  | ok processed t =>
    rw [hrun] at hreads
    have hlook : t.self = s.self ∧
        Looked env s.world { s.world.await env with store := t.world }.tick :=
      ⟨hreads.1, looked_of_await hreads.2 rfl⟩
    refine (wp_of_ok hrun).mpr ?_
    cases processed.content with
    | proposalMessage proposal =>
      rw [wp_bind, wp_getSelf, wp_bind]
      exact wp_orThrow (fun _ _ => hlook) fun _ => hlook
    | applicationMessage _ => exact hlook
    | externalJoinProposalMessage _ => exact hlook
    | stagedCommitMessage _ => exact hlook

/-- A message of the first loop is only looked at, and so is the group. -/
theorem Inspection.step_looked (p : Inspection M) (msg : MlsMessage) (s : Session M) :
    (p.step env msg s).1.mlsGroup = p.mlsGroup ∧ Looked env s (p.step env msg s).2 := by
  unfold Inspection.step
  dsimp only
  generalize hp' : (if p.latestEpoch < msg.epoch ∧ msg.messageType = .commit then
    { p with latestEpoch := msg.epoch } else p) = p'
  have hgroup : p'.mlsGroup = p.mlsGroup := by
    rw [← hp']
    split_ifs <;> rfl
  rw [← hgroup]
  split
  · rename_i g _ hg
    have hspec := processProposalMessage_looked env h msg.blob ⟨g, s⟩
    split
    · rename_i proposal t hrun
      obtain ⟨hself, hlook⟩ := (wp_of_ok hrun).mp hspec
      rw [Inspection.noteProposal_mlsGroup]
      exact ⟨(congrArg some hself).trans hg.symm, hlook⟩
    · rename_i e t hrun
      obtain ⟨hself, hlook⟩ := (wp_of_error hrun).mp hspec
      rw [Inspection.noteCustomProposal_mlsGroup]
      exact ⟨(congrArg some hself).trans hg.symm, hlook⟩
  · exact ⟨rfl, looked_of_store rfl rfl⟩

end looks

end KChat.Mls
