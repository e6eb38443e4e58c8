import KChat.Mls.Operations
import KChat.Mls.Synced

/-!
# The status of a group and its pending commit

Whoever asks for the status of a group takes it that no commit is pending where it is "none".

* `Idle`: no commit of a group is pending in the store; `CommitMls.KeepsCommits`: what the
  operations of OpenMLS do to pending commits.
* `Tracked`: no commit is pending where none is recorded. `Moved`, `Undone`: what an operation on one
  group does to it; `Moved.tracked`.
* `processManyLoop_idle`, `onGroup_moved`: the operations of a group.
-/

namespace KChat.Mls

open Lib OpenMls

open Storage (Codec)

variable {M : CommitMls} {α β : Type}

/-! ## What OpenMLS does -/

/-- The types of the content of protocol messages, which their frames tell. -/
inductive ContentType
  | application | proposal | commit
  deriving DecidableEq, Repr

def ContentType.of {S Q : Type} : ProcessedMessageContent S Q → ContentType
  | .applicationMessage _ => .application
  | .proposalMessage _ => .proposal
  | .externalJoinProposalMessage _ => .proposal
  | .stagedCommitMessage _ => .commit

variable (M) in
/-- No commit of the group is pending. -/
def Idle (groupId : String) (db : M.Db) : Prop :=
  ∀ g, M.stored db groupId = some g → M.hasPendingCommit g = false

variable (M) in
/-- The other groups are stored as before. -/
def OthersKept (groupId : String) (db db' : M.Db) : Prop :=
  ∀ other ≠ groupId, M.stored db' other = M.stored db other

/-- A method that changes its own group only. -/
def Changes (x : M.GroupMethod α) : Prop :=
  ∀ fault s, wp (x fault) s (fun _ t => M.groupId t.self = M.groupId s.self ∧
    OthersKept M (M.groupId s.self) s.world t.world) fun _ _ => True

/-- It leaves no commit pending. -/
def Calms (x : M.GroupMethod α) : Prop :=
  ∀ fault s, wp (x fault) s (fun _ t => Idle M (M.groupId s.self) t.world) fun _ _ => True

/-- On a stored group it leaves no commit pending unless one was. -/
def KeepsIdle (x : M.GroupMethod α) : Prop :=
  ∀ fault s, M.stored s.world (M.groupId s.self) = some s.self →
    M.hasPendingCommit s.self = false →
      wp (x fault) s (fun _ t => Idle M (M.groupId s.self) t.world) fun _ _ => True

variable (M) in
/-- **What becomes of pending commits.** -/
structure CommitMls.KeepsCommits (contentType : M.ProtocolMessage → ContentType) : Prop where
  content : ∀ m fault s, wp (M.processMessage m fault) s
    (fun r _ => ContentType.of r.content = contentType m) fun _ _ => True
  changes_mergeStagedCommit : ∀ commit, Changes (M := M) (M.mergeStagedCommit commit)
  calms_mergeStagedCommit : ∀ commit, Calms (M := M) (M.mergeStagedCommit commit)
  storePendingProposal : ∀ proposal, Changes (M := M) (M.storePendingProposal proposal)
  commitToPendingProposals : ∀ signer, Changes (M := M) (M.commitToPendingProposals signer)
  changes_mergePendingCommit : Changes (M := M) M.mergePendingCommit
  calms_mergePendingCommit : Calms (M := M) M.mergePendingCommit
  changes_clearPendingCommit : Changes (M := M) M.clearPendingCommit
  calms_clearPendingCommit : Calms (M := M) M.clearPendingCommit
  changes_delete : Changes (M := M) M.delete
  calms_delete : Calms (M := M) M.delete
  changes_clearPendingProposals : Changes (M := M) M.clearPendingProposals
  keepsIdle_clearPendingProposals : KeepsIdle (M := M) M.clearPendingProposals
  addMembers : ∀ signer keyPackages, Changes (M := M) (M.addMembers signer keyPackages)
  removeMembers : ∀ signer indices, Changes (M := M) (M.removeMembers signer indices)
  buildReAdd : ∀ builder keyPackages signer,
    Changes (M := M) (M.buildReAdd builder keyPackages signer)
  stageCommit : ∀ bundle, Changes (M := M) (M.stageCommit bundle)
  selfUpdate : ∀ signer, Changes (M := M) (M.selfUpdate signer)
  storeSigner : ∀ signer fault db,
    wp (M.storeSigner signer fault) db (fun _ db' => M.stored db' = M.stored db) fun _ _ => True
  newWithGroupId : ∀ config groupId signer credential fault db,
    wp (M.newWithGroupId config groupId signer credential fault) db
      (fun _ db' => OthersKept M groupId db db') fun _ _ => True
  intoGroup : ∀ welcome fault db, wp (M.intoGroup welcome fault) db
    (fun g db' => OthersKept M (M.groupId g) db db' ∧ M.hasPendingCommit g = false) fun _ _ => True

/-! ## Recorded statuses -/

/-- The status is "none" or absent. -/
def Unrecorded (groupId : String) (statuses : GroupStatuses) : Prop :=
  ∀ op, statusOf groupId statuses = some op → op = GroupPendingOperation.none.toRow

instance (groupId : String) (statuses : GroupStatuses) : Decidable (Unrecorded groupId statuses) :=
  decidable_of_iff (∀ op ∈ statusOf groupId statuses, op = GroupPendingOperation.none.toRow) Iff.rfl

/-- **Where nothing is recorded, no commit is pending.** -/
def Tracked (s : Session M.toOpenMls) : Prop :=
  ∀ groupId, Unrecorded groupId s.beside → Idle M groupId s.store

section statuses

variable {groupId : String} {statuses : GroupStatuses} {op : GroupPendingOperation}

theorem not_unrecorded_insert (hop : op ≠ .none) :
    ¬Unrecorded groupId ((groupId, op.toRow) :: statuses.filter (·.1 != groupId)) := by
  intro h
  have hrow := h _ statusOf_insert
  cases op with
  | none => exact hop rfl
  | createGroup => revert hrow; decide
  | joinByExternalCommit => revert hrow; decide
  | leaveGroup => revert hrow; decide
  | updateTree => revert hrow; decide

end statuses

/-! ## Groups in memory -/

/-- A group of this id is in memory; the statuses are `b`, and the other groups are those of `db`. -/
structure At (groupId : String) (b : GroupStatuses) (db : M.Db)
    (s : Owning M.Group (Session M.toOpenMls)) : Prop where
  self : M.groupId s.self = groupId
  beside : s.world.beside = b
  others : OthersKept M groupId db s.world.store

/-- Computations on a group that change no other group and no status. -/
abbrev Stays (groupId : String) (b : GroupStatuses) (db : M.Db) (x : GroupAction M.toOpenMls α) :
    Prop :=
  Preserves (At groupId b db) (fun s => s.world.beside = b) x

variable {env : Surroundings M.toOpenMls} {groupId : String} {b : GroupStatuses} {db : M.Db}
  {contentType : M.ProtocolMessage → ContentType}

theorem At.tick {s : Owning M.Group (Session M.toOpenMls)} (h : At groupId b db s) :
    At groupId b db ⟨s.self, s.world.tick⟩ := ⟨h.self, h.beside, h.others⟩

theorem wp_use_of_changes {wrap : String → Error} {method : M.GroupMethod α}
    {s : Owning M.Group (Session M.toOpenMls)} (hs : At groupId b db s)
    {P : M.Db → Prop} (hchanges : Changes (M := M) method)
    (hP : wp (method (env.fault s.world.time)) ⟨s.self, s.world.store⟩ (fun _ t => P t.world)
      fun _ _ => True) : wp (use env wrap method) s
        (fun _ t => At groupId b db t ∧ P t.world.store) fun _ t => t.world.beside = b := by
  rw [wp_use]
  have hmethod := hchanges (env.fault s.world.time) ⟨s.self, s.world.store⟩
  refine wp_mono (wp_and hmethod hP) (fun _ t ht => ?_) fun _ _ _ => hs.beside
  obtain ⟨⟨hid, hothers⟩, hP⟩ := ht
  refine ⟨⟨hid.trans hs.self, hs.beside, fun other hother => ?_⟩, hP⟩
  rw [← hs.others other hother]
  exact hothers other fun h => hother (h.trans hs.self)

theorem use_stays {wrap : String → Error} {method : M.GroupMethod α}
    (h : Changes (M := M) method) : Stays groupId b db (use env wrap method) := by
  intro s hs
  exact wp_mono (wp_use_of_changes (P := fun _ => True) hs h (wp_true _ _)) (fun _ _ ht => ht.1)
    fun _ _ ht => ht

theorem changes_of_reads {method : M.GroupMethod α} (h : Reads (M := M.toOpenMls) method) :
    Changes (M := M) method := by
  intro fault s
  have hreads := h fault s
  cases hrun : (method fault).run s with
  | ok a t =>
    rw [hrun] at hreads
    refine (wp_of_ok hrun).mpr ⟨congrArg M.groupId hreads.1, fun other _ => ?_⟩
    exact congrFun hreads.2 other
  | error e t => exact (wp_of_error hrun).mpr trivial

theorem groupSigner_stays : Stays groupId b db (groupSigner (M := M.toOpenMls) env) :=
  groupSigner_preserves (fun _ h => h.beside) fun _ h => h.tick

theorem signing_stays {x : M.Signer → GroupAction M.toOpenMls α}
    (h : ∀ signer, Stays groupId b db (x signer)) : Stays groupId b db (signing env x) :=
  groupSigner_stays.bind h

theorem ofResult_stays (r : Except Error α) :
    Stays groupId b db (ofResult r : GroupAction M.toOpenMls α) :=
  .ofResult (fun _ h => h.beside) r

/-! ## Commits that are built -/

section built

variable {J F : Owning M.Group (Session M.toOpenMls) → Prop} (hF : ∀ s, J s → F s)
include hF

/-- **What the builder of a commit keeps, the operation keeps.** -/
theorem addMembers_preserves (signer : M.Signer) (keyPackageIns : List Bytes)
    (hadd : ∀ keyPackages,
      Preserves J F (use env .addMembers (M.addMembers signer keyPackages))) :
    Preserves J F (addMembers env signer keyPackageIns) := by
  refine (Preserves.ofResult hF _).bind fun keyPackages => .ite (fun _ => .throw hF _) fun _ => ?_
  refine .bind (fun _ h => h) fun g => .ite (fun _ => .throw hF _) fun _ => ?_
  refine (hadd keyPackages).bind fun r => (Preserves.ofResult hF _).bind fun _ => ?_
  refine (Preserves.ofResult hF _).bind fun _ => (Preserves.ofResult hF _).bind fun _ => ?_
  exact .bind (fun _ h => h) fun _ => .pure _

theorem removeMembers_preserves (signer : M.Signer) (memberIds : List String)
    (hremove : ∀ indices,
      Preserves J F (use env .removeMembers (M.removeMembers signer indices))) :
    Preserves J F (removeMembers env signer memberIds) := by
  refine .bind (fun _ h => h) fun g => (hremove _).bind fun r => ?_
  refine (Preserves.ofResult hF _).bind fun _ => (Preserves.ofResult hF _).bind fun _ => ?_
  exact .bind (fun _ h => h) fun _ => .pure _

theorem updateLeafNode_preserves (signer : M.Signer)
    (hupdate : Preserves J F (use env .updateLeafNode (M.selfUpdate signer))) :
    Preserves J F (updateLeafNode env signer) := by
  refine .bind (fun _ h => h) fun g => hupdate.bind fun r => ?_
  refine (Preserves.ofResult hF _).bind fun _ => (Preserves.ofResult hF _).bind fun _ => ?_
  exact .bind (fun _ h => h) fun _ => .pure _

theorem readd_preserves (signer : M.Signer) (memberIds : List String) (keyPackageIns : List Bytes)
    (hbuild : ∀ builder keyPackages,
      Preserves J F (use env .createCommit (M.buildReAdd builder keyPackages signer)))
    (hstage : ∀ bundle, Preserves J F (use env .commitBuilderStage (M.stageCommit bundle))) :
    Preserves J F (readd env signer memberIds keyPackageIns) := by
  refine .bind (fun _ h => h) fun g => (Preserves.ofResult hF _).bind fun builder => ?_
  refine (Preserves.ofResult hF _).bind fun keyPackages => (hbuild builder keyPackages).bind ?_
  refine fun bundle => (hstage bundle).bind fun r => (Preserves.ofResult hF _).bind fun _ => ?_
  refine (Preserves.ofResult hF _).bind fun _ => (Preserves.ofResult hF _).bind fun _ => ?_
  exact .bind (fun _ h => h) fun _ => .pure _

end built

section commits

variable (hM : M.KeepsCommits contentType)
include hM

theorem addMembers_stays (signer : M.Signer) (keyPackages : List Bytes) :
    Stays groupId b db (addMembers env signer keyPackages) :=
  addMembers_preserves (fun _ h => h.beside) signer keyPackages fun keyPackages =>
    use_stays (hM.addMembers signer keyPackages)

theorem removeMembers_stays (signer : M.Signer) (memberIds : List String) :
    Stays groupId b db (removeMembers env signer memberIds) :=
  removeMembers_preserves (fun _ h => h.beside) signer memberIds fun indices =>
    use_stays (hM.removeMembers signer indices)

theorem updateLeafNode_stays (signer : M.Signer) :
    Stays groupId b db (updateLeafNode env signer) :=
  updateLeafNode_preserves (fun _ h => h.beside) signer (use_stays (hM.selfUpdate signer))

theorem readd_stays (signer : M.Signer) (memberIds : List String) (keyPackages : List Bytes) :
    Stays groupId b db (readd env signer memberIds keyPackages) :=
  readd_preserves (fun _ h => h.beside) signer memberIds keyPackages
    (fun builder keyPackages => use_stays (hM.buildReAdd builder keyPackages signer))
    fun bundle => use_stays (hM.stageCommit bundle)

end commits

/-! ## Operation messages -/

/-- A commit is pending after a message if it is a proposal, and if it is no commit and one was. -/
def commitAfter (contentType : M.ProtocolMessage → ContentType) (pending : Bool)
    (message : Bytes) : Bool :=
  match protocolMessage (M := M.toOpenMls) message with
  | .ok m =>
    match contentType m with
    | .application => pending
    | .proposal => true
    | .commit => false
  | .error _ => pending

/-- The last proposal is behind the last commit. -/
def endsInProposal (contentType : M.ProtocolMessage → ContentType) (messages : List Bytes) : Bool :=
  messages.foldl (commitAfter contentType) false

/-- `At`, and if `pending` is false no commit of the group is pending. -/
def AtIdle (groupId : String) (b : GroupStatuses) (db : M.Db) (pending : Bool)
    (s : Owning M.Group (Session M.toOpenMls)) : Prop :=
  At groupId b db s ∧ (pending = false → Idle M groupId s.world.store)

/-- A method that leaves no commit pending. -/
theorem use_idle {wrap : String → Error} {method : M.GroupMethod α}
    (hchanges : Changes (M := M) method) (hcalms : Calms (M := M) method)
    {s : Owning M.Group (Session M.toOpenMls)} (hs : At groupId b db s) :
    wp (use env wrap method) s (fun _ => AtIdle groupId b db false) fun _ t => t.world.beside = b := by
  have hidle := hcalms (env.fault s.world.time) ⟨s.self, s.world.store⟩
  rw [show M.groupId _ = groupId from hs.self] at hidle
  exact wp_mono (wp_use_of_changes hs hchanges hidle) (fun _ _ ht => ⟨ht.1, fun _ => ht.2⟩)
    fun _ _ ht => ht

/-- A method that leaves no commit pending unless one was. -/
theorem use_keepsIdle {wrap : String → Error} {method : M.GroupMethod α}
    (hchanges : Changes (M := M) method) (hkeeps : KeepsIdle (M := M) method)
    {s : Owning M.Group (Session M.toOpenMls)} (hs : AtIdle groupId b db false s)
    (hsynced : Synced s) :
    wp (use env wrap method) s (fun _ => AtIdle groupId b db false) fun _ t => t.world.beside = b := by
  have hidle := hkeeps (env.fault s.world.time) ⟨s.self, s.world.store⟩ hsynced
    (hs.2 rfl s.self (by rw [← hs.1.self]; exact hsynced))
  rw [show M.groupId _ = groupId from hs.1.self] at hidle
  exact wp_mono (wp_use_of_changes hs.1 hchanges hidle) (fun _ _ ht => ⟨ht.1, fun _ => ht.2⟩)
    fun _ _ ht => ht

section messages

variable (h : M.StoresGroups) (hM : M.KeepsCommits contentType) {pending : Bool}
include h hM

theorem processMessage_idle (m : M.ProtocolMessage) {s : Owning M.Group (Session M.toOpenMls)}
    (hs : AtIdle groupId b db pending s) : wp (use env .processMessage (M.processMessage m)) s
      (fun r t => AtIdle groupId b db pending t ∧ ContentType.of r.content = contentType m)
      fun _ t => t.world.beside = b := by
  have hreads : wp (use env .processMessage (M.processMessage m)) s
      (fun _ t => M.stored t.world.store = M.stored s.world.store)
      fun _ t => M.stored t.world.store = M.stored s.world.store :=
    preserves_of_reads (h.processMessage m) (fun _ stored => stored = M.stored s.world.store) s rfl
  have hcontent : wp (use env .processMessage (M.processMessage m)) s
      (fun r _ => ContentType.of r.content = contentType m) fun _ _ => True := by
    rw [wp_use]
    exact hM.content m _ _
  refine wp_mono (wp_and (use_stays (changes_of_reads (h.processMessage m)) s hs.1)
    (wp_and hreads hcontent)) (fun r t ht => ?_) fun _ _ ht => ht.1
  obtain ⟨hat, hstored, hcontent⟩ := ht
  refine ⟨⟨hat, fun hpending g hg => hs.2 hpending g ?_⟩, hcontent⟩
  rw [← hstored]
  exact hg

omit h in
theorem commitProposal_stays (signer : M.Signer) (proposal : M.QueuedProposal) :
    Stays groupId b db (commitProposal (M := M.toOpenMls) env signer proposal) :=
  (use_stays (hM.storePendingProposal proposal)).bind fun _ =>
    use_stays (hM.commitToPendingProposals signer)

/-- **One message**: a commit leaves no commit pending, a proposal may. -/
theorem processOperationMessage_idle (message : Bytes) {s : Owning M.Group (Session M.toOpenMls)}
    (hs : AtIdle groupId b db pending s) : wp (processOperationMessage env message) s
      (fun _ => AtIdle groupId b db (commitAfter contentType pending message))
      fun _ t => t.world.beside = b := by
  rw [processOperationMessage, wp_bind]
  refine wp_ofResult (fun m hm => ?_) fun _ _ => hs.1.beside
  rw [wp_bind]
  refine wp_mono (processMessage_idle h hM m hs) (fun processed t ⟨ht, hcontent⟩ => ?_)
    fun _ _ ht => ht
  have hproposal : ∀ proposal : M.QueuedProposal, contentType m = .proposal → wp (do
      let signer ← groupSigner env
      let r ← commitProposal env signer proposal
      let commit ← ofResult ((M.serialize r.1).mapError .mls)
      let groupInfo ← ofResult ((r.2.mapM M.serialize).mapError .mls)
      return ({ commit := some commit, groupInfo := groupInfo } : ProcessOperationMessageResult)) t
      (fun _ => AtIdle groupId b db (commitAfter contentType pending message))
      fun _ t => t.world.beside = b := by
    intro proposal htype
    have hstays : Stays groupId b db (do
        let signer ← groupSigner env
        let r ← commitProposal env signer proposal
        let commit ← ofResult ((M.serialize r.1).mapError .mls)
        let groupInfo ← ofResult ((r.2.mapM M.serialize).mapError .mls)
        return ({ commit := some commit, groupInfo := groupInfo } :
          ProcessOperationMessageResult)) :=
      groupSigner_stays.bind fun signer => (commitProposal_stays hM signer proposal).bind fun _ =>
        (ofResult_stays _).bind fun _ => (ofResult_stays _).bind fun _ => .pure _
    refine wp_mono (hstays t ht.1) (fun _ u hu => ⟨hu, fun hfalse => ?_⟩) fun _ _ hu => hu
    simp [commitAfter, hm, htype] at hfalse
  cases hc : processed.content with
  | stagedCommitMessage commit =>
    rw [hc] at hcontent
    rw [wp_bind]
    refine wp_mono (use_idle (hM.changes_mergeStagedCommit commit)
        (hM.calms_mergeStagedCommit commit) ht.1) (fun _ u hu => ?_) fun _ _ hu => hu
    exact ⟨hu.1, fun _ => hu.2 rfl⟩
  | proposalMessage proposal =>
    rw [hc] at hcontent
    exact hproposal proposal hcontent.symm
  | externalJoinProposalMessage proposal =>
    rw [hc] at hcontent
    exact hproposal proposal hcontent.symm
  | applicationMessage _ => exact ht.1.beside

/-- **Many messages.** -/
theorem processManyLoop_idle (messages : List Bytes) (signer : Option M.Signer)
    {s : Owning M.Group (Session M.toOpenMls)} (hs : AtIdle groupId b db pending s) :
    wp (processManyLoop env messages signer) s
      (fun _ => AtIdle groupId b db (messages.foldl (commitAfter contentType) pending))
      fun _ t => t.world.beside = b := by
  induction messages generalizing signer pending s with
  | nil => exact hs
  | cons message messages ih =>
    rw [processManyLoop, wp_bind, List.foldl_cons]
    refine wp_ofResult (fun m hm => ?_) fun _ _ => hs.1.beside
    rw [wp_bind]
    refine wp_mono (processMessage_idle h hM m hs) (fun processed t ⟨ht, hcontent⟩ => ?_)
      fun _ _ ht => ht
    have hafter : commitAfter contentType pending message =
        match contentType m with
        | .application => pending
        | .proposal => true
        | .commit => false := by
      rw [commitAfter, hm]
    have hcommitted : ∀ (proposal : M.QueuedProposal) signer u, At groupId b db u → wp (do
        let _ ← commitProposal env signer proposal
        processManyLoop env messages (some signer)) u
        (fun _ => AtIdle groupId b db (messages.foldl (commitAfter contentType) true))
        fun _ t => t.world.beside = b := by
      intro proposal signer u hu
      rw [wp_bind]
      refine wp_mono (commitProposal_stays hM signer proposal u hu) (fun _ v hv => ?_)
        fun _ _ hv => hv
      exact ih (some signer) ⟨hv, fun hfalse => nomatch hfalse⟩
    have hsigned : ∀ proposal : M.QueuedProposal, wp (do
        let signer ← groupSigner env
        let _ ← commitProposal env signer proposal
        processManyLoop env messages (some signer)) t
        (fun _ => AtIdle groupId b db (messages.foldl (commitAfter contentType) true))
        fun _ t => t.world.beside = b := by
      intro proposal
      rw [wp_bind]
      exact wp_mono (groupSigner_stays t ht.1) (hcommitted proposal) fun _ _ hu => hu
    cases hc : processed.content with
    | stagedCommitMessage commit =>
      rw [hc] at hcontent
      rw [wp_bind]
      refine wp_mono (use_idle (hM.changes_mergeStagedCommit commit)
        (hM.calms_mergeStagedCommit commit) ht.1) (fun _ u hu => ?_) fun _ _ hu => hu
      rw [hafter, ← hcontent]
      exact ih signer hu
    | proposalMessage proposal =>
      rw [hc] at hcontent
      rw [hafter, ← hcontent]
      cases signer with
      | some signer => exact hcommitted proposal signer t ht.1
      | none => exact hsigned proposal
    | externalJoinProposalMessage proposal =>
      rw [hc] at hcontent
      rw [hafter, ← hcontent]
      cases signer with
      | some signer => exact hcommitted proposal signer t ht.1
      | none => exact hsigned proposal
    | applicationMessage _ =>
      rw [hc] at hcontent
      rw [hafter, ← hcontent]
      exact ih signer ht

end messages

/-! ## Operations on one group -/

section one

variable {s t : Session M.toOpenMls} {pending : Bool} {messages : List Bytes}

/-- **What became of a group**: the statuses and the other groups are as before, and if `pending` is
false no commit of the group is pending. -/
structure Moved (groupId : String) (pending : Bool) (s t : Session M.toOpenMls) : Prop where
  beside : t.beside = s.beside
  others : OthersKept M groupId s.store t.store
  idle : pending = false → Idle M groupId t.store

/-- Nothing happened. -/
structure Undone (s t : Session M.toOpenMls) : Prop where
  store : t.store = s.store
  beside : t.beside = s.beside

theorem Undone.tracked (h : Undone s t) (hs : Tracked s) : Tracked t := by
  intro groupId hnone
  rw [h.store]
  rw [h.beside] at hnone
  exact hs groupId hnone

/-- The other groups and their statuses are as before. -/
theorem Tracked.of_others (hs : Tracked s) (groupId : String)
    (hothers : OthersKept M groupId s.store t.store)
    (hstatus : ∀ other ≠ groupId, statusOf other t.beside = statusOf other s.beside)
    (hidle : Unrecorded groupId t.beside → Idle M groupId t.store) : Tracked t := by
  intro other hnone
  by_cases hother : other = groupId
  · subst hother
    exact hidle hnone
  · intro g hg
    refine hs other (fun op hop => hnone op ?_) g ?_
    · rw [hstatus other hother]
      exact hop
    · rw [← hothers other hother]
      exact hg

theorem Moved.tracked (h : Moved groupId pending s t) (hs : Tracked s)
    (hpending : Unrecorded groupId s.beside → pending = false) : Tracked t := by
  refine hs.of_others groupId h.others (fun other _ => by rw [h.beside]) fun hnone => h.idle (hpending ?_)
  rw [← h.beside]
  exact hnone

section

variable (h : M.StoresGroups) (halone : ∀ t, env.others t = [])
include h halone

/-- **In one transaction a group is loaded and changed.** -/
theorem wp_inGroup (pending : Bool) {x : GroupAction M.toOpenMls α} {f : α × M.Group → β}
    (hbefore : pending = false → Idle M groupId s.store) {pending' : Bool}
    (hx : ∀ u, AtIdle groupId s.beside s.store pending u → Synced u →
      wp x u (fun _ => AtIdle groupId s.beside s.store pending') fun _ u => u.world.beside = s.beside) :
    wp (transaction env (do
      let g ← group env groupId messages
      let r ← withSelf g x
      return f r)) s (fun _ => Moved groupId pending' s) fun _ => Undone s := by
  have hawait : (s.await env).store = s.store := Session.await_store_of_alone halone s
  refine wp_transaction (fun _ _ => ⟨hawait, rfl⟩) fun _ => ?_
  rw [wp_bind]
  refine wp_mono (wp_and (group_spec h groupId messages (s.await env).tick)
    (group_holds (P := fun _ => True) (b := s.beside) groupId messages (s.await env).tick
      ⟨trivial, rfl⟩)) (fun g t ⟨⟨hg, hstore⟩, hholds⟩ => ?_) fun _ t ht => ⟨hawait, ht.2.2⟩
  rw [Session.tick_store, hawait] at hstore
  have hat : AtIdle groupId s.beside s.store pending ⟨g, t⟩ := by
    refine ⟨⟨h.groupId hg, hholds.2, fun other _ => congrFun (congrArg M.stored hstore) other⟩, ?_⟩
    intro hpending
    show Idle M groupId t.store
    rw [hstore]
    exact hbefore hpending
  rw [wp_bind, wp_withSelf]
  have hsynced : Synced ⟨g, t⟩ := by
    show M.stored t.store (M.groupId g) = some g
    rw [h.groupId hg, hstore, ← hawait]
    exact hg
  refine wp_mono (hx ⟨g, t⟩ hat hsynced) (fun a u hu => ?_) fun _ u hu => ⟨hawait, hu⟩
  exact ⟨fun _ _ => ⟨hawait, hu.1.beside⟩, fun _ => ⟨hu.1.beside, hu.1.others, hu.2⟩⟩

theorem onGroup_moved (pending : Bool) {x : GroupAction M.toOpenMls α}
    (hbefore : pending = false → Idle M groupId s.store) {pending' : Bool}
    (hx : ∀ u, AtIdle groupId s.beside s.store pending u → Synced u →
      wp x u (fun _ => AtIdle groupId s.beside s.store pending') fun _ u => u.world.beside = s.beside) :
    wp (onGroup env groupId messages x) s (fun _ => Moved groupId pending' s) fun _ => Undone s := by
  rw [onGroup, wp_mapError]
  exact wp_inGroup h halone pending hbefore hx

theorem onGroup_moved_of_stays {x : GroupAction M.toOpenMls α}
    (hx : Stays groupId s.beside s.store x) :
    wp (onGroup env groupId messages x) s (fun _ => Moved groupId true s) fun _ => Undone s :=
  onGroup_moved h halone true (fun hfalse => nomatch hfalse) fun u hu _ =>
    wp_mono (hx u hu.1) (fun _ _ hv => ⟨hv, fun hfalse => nomatch hfalse⟩) fun _ _ hv => hv

end

end one

end KChat.Mls
