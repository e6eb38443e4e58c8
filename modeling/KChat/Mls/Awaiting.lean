import KChat.Mls.ExternalJoins
import KChat.Mls.Tracking

/-!
# Groups that await their external commit

While an external commit is recorded for a group, the epoch before its own is the one that counts:
the group has to be past epoch 0.

* `Awaiting`: an external commit is recorded. **`PastFirst`**: such groups are past epoch 0.
* `CommitMls.KeepsEpochs`, `CommitMls.JoinsExternally`: what the operations of OpenMLS do to epochs.
* `Ahead`: the epoch of a group in memory has not gone back. `wp_inGroup_past`: one transaction.
* `ClientCall.Sound`: the calls that keep `PastFirst`. **`pastFirst_of_called`**: any sequence of them.
-/

namespace KChat.Mls

open Lib OpenMls

open Storage (Codec)

variable {M : CommitMls} {α β : Type}

/-! ## Epochs -/

variable (M) in
/-- If the group is stored, it has reached epoch `n`. -/
def AtLeast (n : ℕ) (groupId : String) (db : M.Db) : Prop :=
  ∀ g, M.stored db groupId = some g → n ≤ M.epoch g

theorem atLeast_zero (groupId : String) (db : M.Db) : AtLeast M 0 groupId db :=
  fun _ _ => Nat.zero_le _

theorem AtLeast.of_stored {n : ℕ} {groupId : String} {db db' : M.Db} (h : AtLeast M n groupId db)
    (hstored : M.stored db' groupId = M.stored db groupId) : AtLeast M n groupId db' := by
  intro g hg
  rw [hstored] at hg
  exact h g hg

/-- A method that does not take the epoch of its group back. -/
def Advances (x : M.GroupMethod α) : Prop :=
  ∀ n fault s, n ≤ M.epoch s.self → AtLeast M n (M.groupId s.self) s.world → wp (x fault) s
    (fun _ t => n ≤ M.epoch t.self ∧ AtLeast M n (M.groupId s.self) t.world)
    fun _ t => n ≤ M.epoch t.self

variable (M) in
/-- **Epochs do not go back.** -/
structure CommitMls.KeepsEpochs : Prop where
  mergeStagedCommit : ∀ commit, Advances (M := M) (M.mergeStagedCommit commit)
  storePendingProposal : ∀ proposal, Advances (M := M) (M.storePendingProposal proposal)
  commitToPendingProposals : ∀ signer, Advances (M := M) (M.commitToPendingProposals signer)
  mergePendingCommit : Advances (M := M) M.mergePendingCommit
  clearPendingCommit : Advances (M := M) M.clearPendingCommit
  delete : Advances (M := M) M.delete
  clearPendingProposals : Advances (M := M) M.clearPendingProposals
  addMembers : ∀ signer keyPackages, Advances (M := M) (M.addMembers signer keyPackages)
  removeMembers : ∀ signer indices, Advances (M := M) (M.removeMembers signer indices)
  buildReAdd : ∀ builder keyPackages signer,
    Advances (M := M) (M.buildReAdd builder keyPackages signer)
  stageCommit : ∀ bundle, Advances (M := M) (M.stageCommit bundle)
  selfUpdate : ∀ signer, Advances (M := M) (M.selfUpdate signer)

variable (M) in
/-- **An external commit** leads to the epoch after that of the group info; `infoGroupId` and
`infoEpoch` are what its group context says. -/
def CommitMls.JoinsExternally (infoGroupId : M.GroupInfo → String) (infoEpoch : M.GroupInfo → ℕ) :
    Prop :=
  ∀ config info credential signer fault fault' fault'' db,
    wp (M.buildExternalGroup config info credential signer fault) db (fun builder db₁ =>
      wp (M.buildExternalCommit builder signer fault') db₁ (fun bundle db₂ =>
        wp (M.finalizeExternalCommit bundle fault'') db₂ (fun _ db₃ =>
          OthersKept M (infoGroupId info) db db₃ ∧
          ∀ g, M.stored db₃ (infoGroupId info) = some g → M.epoch g = infoEpoch info + 1)
          fun _ _ => True)
        fun _ _ => True)
      fun _ _ => True

/-! ## Statuses -/

def Awaiting (groupId : String) (statuses : GroupStatuses) : Prop :=
  statusOf groupId statuses = some GroupPendingOperation.joinByExternalCommit.toRow

instance (groupId : String) (statuses : GroupStatuses) : Decidable (Awaiting groupId statuses) :=
  inferInstanceAs (Decidable (_ = _))

/-- The epoch that a group has to have reached. -/
def firstEpoch (groupId : String) (statuses : GroupStatuses) : ℕ :=
  if Awaiting groupId statuses then 1 else 0

/-- **Groups that await their external commit are past epoch 0.** -/
def PastFirst (s : Session M.toOpenMls) : Prop :=
  ∀ groupId, Awaiting groupId s.beside → AtLeast M 1 groupId s.store

section statuses

variable {env : Surroundings M.toOpenMls} {groupId : String} {op : GroupPendingOperation}
  {s t u : Session M.toOpenMls}

theorem PastFirst.atLeast (h : PastFirst s) (groupId : String) :
    AtLeast M (firstEpoch groupId s.beside) groupId s.store := by
  unfold firstEpoch
  split_ifs with hawaiting
  · exact h groupId hawaiting
  · exact atLeast_zero groupId s.store

theorem one_le_of_firstEpoch_le {n : ℕ} (h : firstEpoch groupId s.beside ≤ n)
    (hawaiting : Awaiting groupId s.beside) : 1 ≤ n := by
  rwa [firstEpoch, if_pos hawaiting] at h

theorem awaiting_insert : Awaiting groupId
    ((groupId, op.toRow) :: s.beside.filter (·.1 != groupId)) ↔ op = .joinByExternalCommit := by
  rw [Awaiting, statusOf_insert]
  cases op <;> decide

/-- Only `groupId` was changed, and if it awaits an external commit it is past epoch 0. -/
theorem PastFirst.of_others (h : PastFirst s) (groupId : String)
    (hothers : OthersKept M groupId s.store t.store)
    (hstatus : ∀ other ≠ groupId, statusOf other t.beside = statusOf other s.beside)
    (hself : Awaiting groupId t.beside → AtLeast M 1 groupId t.store) : PastFirst t := by
  intro other hawaiting
  by_cases hother : other = groupId
  · subst hother
    exact hself hawaiting
  · rw [Awaiting, hstatus other hother] at hawaiting
    exact (h other hawaiting).of_stored (hothers other hother)

/-- No group was changed, and none began to await an external commit. -/
structure Lapsed (s t : Session M.toOpenMls) : Prop where
  stored : M.stored t.store = M.stored s.store
  status : ∀ other, Awaiting other t.beside → Awaiting other s.beside

theorem Undone.lapsed (h : Undone s t) : Lapsed s t where
  stored := by rw [h.store]
  status other hawaiting := by rwa [h.beside] at hawaiting

theorem Lapsed.trans (h : Lapsed s t) (h' : Lapsed t u) : Lapsed s u where
  stored := h'.stored.trans h.stored
  status other hawaiting := h.status other (h'.status other hawaiting)

theorem Lapsed.pastFirst (h : Lapsed s t) (hs : PastFirst s) : PastFirst t := by
  intro groupId hawaiting
  have hstored := congrFun h.stored groupId
  exact (hs groupId (h.status groupId hawaiting)).of_stored hstored

theorem Unmarked.lapsed (h : Unmarked s t) : Lapsed s t where
  stored := by rw [h.store]
  status other hawaiting := by
    rcases h.status other with hsame | hnone
    · rwa [Awaiting, hsame] at hawaiting
    · exact absurd (hnone _ hawaiting) (by decide)

theorem insertStatus_lapsed (hop : op ≠ .joinByExternalCommit) (s : Session M.toOpenMls) :
    wp (insertOrUpdateGroupStatus env groupId op) s (fun _ => Lapsed s) fun _ => Lapsed s := by
  refine wp_useStatuses (fun _ _ => ⟨rfl, fun _ h => h⟩) fun _ => ⟨rfl, fun other h => ?_⟩
  by_cases hother : other = groupId
  · subst hother
    exact absurd (awaiting_insert.mp h) hop
  · exact (statusOf_insert_of_ne hother).symm.trans h

theorem recordUpdate_lapsed (groupId : String) (s : Session M.toOpenMls) :
    wp (recordUpdate env groupId) s (fun _ => Lapsed s) fun _ => Lapsed s := by
  have hread : wp (currentPendingOperation env groupId) s (fun _ => Undone s) fun _ => Undone s := by
    rw [currentPendingOperation, wp_bind, wp_attempt]
    exact wp_mono (getStatus_undone groupId s) (fun _ _ ht => ht.1) fun _ _ ht => ht
  rw [recordUpdate, wp_bind]
  refine wp_mono hread (fun op t ht => ?_) fun _ _ ht => ht.lapsed
  refine wp_ite (fun _ => ?_) fun _ => ht.lapsed
  exact wp_mono (insertStatus_lapsed (by decide) t) (fun _ _ hu => ht.lapsed.trans hu)
    fun _ _ hu => ht.lapsed.trans hu

end statuses

/-! ## Groups in memory -/

/-- `At`, and neither in memory nor in the store has the group an epoch before `n`. -/
structure Ahead (n : ℕ) (groupId : String) (b : GroupStatuses) (db : M.Db)
    (s : Owning M.Group (Session M.toOpenMls)) : Prop extends At groupId b db s where
  epoch : n ≤ M.epoch s.self
  stored : AtLeast M n groupId s.world.store

structure NotBehind (n : ℕ) (b : GroupStatuses) (s : Owning M.Group (Session M.toOpenMls)) :
    Prop where
  beside : s.world.beside = b
  epoch : n ≤ M.epoch s.self

/-- Computations on a group that do not take its epoch back. -/
abbrev Advancing (n : ℕ) (groupId : String) (b : GroupStatuses) (db : M.Db)
    (x : GroupAction M.toOpenMls α) : Prop :=
  Preserves (Ahead n groupId b db) (NotBehind n b) x

section memory

variable {env : Surroundings M.toOpenMls} {n : ℕ} {groupId : String} {b : GroupStatuses}
  {db : M.Db} {s : Owning M.Group (Session M.toOpenMls)}
  {contentType : M.ProtocolMessage → ContentType}

theorem Ahead.notBehind (s : Owning M.Group (Session M.toOpenMls)) (h : Ahead n groupId b db s) :
    NotBehind n b s := ⟨h.beside, h.epoch⟩

theorem Ahead.tick (s : Owning M.Group (Session M.toOpenMls)) (h : Ahead n groupId b db s) :
    Ahead n groupId b db ⟨s.self, s.world.tick⟩ := ⟨h.toAt.tick, h.epoch, h.stored⟩

theorem use_advancing {wrap : String → Error} {method : M.GroupMethod α}
    (hchanges : Changes (M := M) method) (hadvances : Advances (M := M) method) :
    Advancing n groupId b db (use env wrap method) := by
  intro s hs
  have hstored : AtLeast M n (M.groupId s.self) s.world.store := by
    rw [hs.self]
    exact hs.stored
  have hmethod := hadvances n (env.fault s.world.time) ⟨s.self, s.world.store⟩ hs.epoch hstored
  have hat : wp (use env wrap method) s (fun _ t => At groupId b db t) fun _ t => t.world.beside = b :=
    use_stays hchanges s hs.toAt
  have hepoch : wp (use env wrap method) s
      (fun _ t => n ≤ M.epoch t.self ∧ AtLeast M n groupId t.world.store)
      fun _ t => n ≤ M.epoch t.self := by
    rw [wp_use]
    refine wp_mono hmethod (fun _ t ht => ⟨ht.1, ?_⟩) fun _ _ ht => ht
    rw [← hs.self]
    exact ht.2
  exact wp_mono (wp_and hat hepoch) (fun _ t ht => ⟨ht.1, ht.2.1, ht.2.2⟩)
    fun _ t ht => ⟨ht.1, ht.2⟩

theorem advances_of_reads {method : M.GroupMethod α} (h : Reads (M := M.toOpenMls) method) :
    Advances (M := M) method := by
  intro n fault s hepoch hstored
  have hreads := h fault s
  have hboth : wp (method fault) s
      (fun _ t => n ≤ M.epoch t.self ∧ AtLeast M n (M.groupId s.self) t.world)
      fun _ t => n ≤ M.epoch t.self ∧ AtLeast M n (M.groupId s.self) t.world := by
    apply wp_of_final
    rw [hreads.1]
    exact ⟨hepoch, hstored.of_stored (congrFun hreads.2 _)⟩
  exact wp_mono hboth (fun _ _ ht => ht) fun _ _ ht => ht.1

variable (h : M.StoresGroups) (hM : M.KeepsCommits contentType) (hepochs : M.KeepsEpochs)
include h hM hepochs

theorem processOperationMessage_advancing (message : Bytes) :
    Advancing n groupId b db (processOperationMessage (M := M.toOpenMls) env message) :=
  processOperationMessage_preserves Ahead.notBehind Ahead.tick
    (fun m => use_advancing (changes_of_reads (h.processMessage m))
      (advances_of_reads (h.processMessage m)))
    (fun commit => use_advancing (hM.changes_mergeStagedCommit commit)
      (hepochs.mergeStagedCommit commit))
    (fun p => use_advancing (hM.storePendingProposal p) (hepochs.storePendingProposal p))
    (fun signer => use_advancing (hM.commitToPendingProposals signer)
      (hepochs.commitToPendingProposals signer)) message

theorem processManyOperationMessages_advancing (messages : List Bytes) :
    Advancing n groupId b db (processManyOperationMessages (M := M.toOpenMls) env messages) :=
  processManyOperationMessages_preserves Ahead.notBehind Ahead.tick
    (fun m => use_advancing (changes_of_reads (h.processMessage m))
      (advances_of_reads (h.processMessage m)))
    (fun commit => use_advancing (hM.changes_mergeStagedCommit commit)
      (hepochs.mergeStagedCommit commit))
    (fun p => use_advancing (hM.storePendingProposal p) (hepochs.storePendingProposal p))
    (fun signer => use_advancing (hM.commitToPendingProposals signer)
      (hepochs.commitToPendingProposals signer)) messages

omit h hM hepochs in
theorem signing_advancing {x : M.Signer → GroupAction M.toOpenMls α}
    (hx : ∀ signer, Advancing n groupId b db (x signer)) :
    Advancing n groupId b db (signing env x) :=
  (groupSigner_preserves Ahead.notBehind Ahead.tick).bind hx

end memory

/-! ## One transaction -/

section transaction

variable {env : Surroundings M.toOpenMls} {groupId : String} {messages : List Bytes}
  {s t : Session M.toOpenMls}

def Past (statuses : GroupStatuses) (g : M.Group) : Prop :=
  firstEpoch (M.groupId g) statuses ≤ M.epoch g

theorem PastFirst.of_ahead (hs : PastFirst s) {u : Owning M.Group (Session M.toOpenMls)}
    (hu : Ahead (firstEpoch groupId s.beside) groupId s.beside s.store u) : PastFirst u.world := by
  refine hs.of_others groupId hu.others (fun other _ => by rw [hu.beside]) fun hawaiting => ?_
  rw [hu.beside] at hawaiting
  intro g hg
  exact one_le_of_firstEpoch_le (hu.stored g hg) hawaiting

variable (h : M.StoresGroups) (halone : ∀ t, env.others t = [])
include h halone

theorem wp_inGroup_past {x : GroupAction M.toOpenMls α} {f : α × M.Group → β} (hs : PastFirst s)
    (hx : ∀ n, Advancing n groupId s.beside s.store x) :
    wp (transaction env (do
      let g ← group env groupId messages
      let r ← withSelf g x
      return f r)) s
      (fun b t => PastFirst t ∧ t.beside = s.beside ∧
        ∃ r, b = f r ∧ M.groupId r.2 = groupId ∧ Past s.beside r.2)
      fun _ => Undone s := by
  have hawait : (s.await env).store = s.store := Session.await_store_of_alone halone s
  refine wp_transaction (fun _ _ => ⟨hawait, rfl⟩) fun _ => ?_
  rw [wp_bind]
  refine wp_mono (wp_and (group_spec h groupId messages (s.await env).tick)
    (group_holds (P := fun _ => True) (b := s.beside) groupId messages (s.await env).tick
      ⟨trivial, rfl⟩)) (fun g t ⟨⟨hg, hstore⟩, hholds⟩ => ?_) fun _ t ht => ⟨hawait, ht.2.2⟩
  rw [Session.tick_store, hawait] at hstore hg
  have hahead : Ahead (firstEpoch groupId s.beside) groupId s.beside s.store ⟨g, t⟩ := by
    refine ⟨⟨h.groupId hg, hholds.2, fun other _ => ?_⟩, hs.atLeast groupId g hg, ?_⟩
    · exact congrFun (congrArg M.stored hstore) other
    · show AtLeast M _ groupId t.store
      rw [hstore]
      exact hs.atLeast groupId
  rw [wp_bind, wp_withSelf]
  refine wp_mono (hx _ _ hahead) (fun a u hu => ?_) fun _ u hu => ⟨hawait, hu.beside⟩
  refine ⟨fun _ _ => ⟨hawait, hu.beside⟩, fun _ => ⟨?_, hu.beside, (a, u.self), rfl, hu.self, ?_⟩⟩
  · exact hs.of_ahead hu
  · rw [Past, hu.self]
    exact hu.epoch

theorem onGroup_past {x : GroupAction M.toOpenMls α} (hs : PastFirst s)
    (hx : ∀ n, Advancing n groupId s.beside s.store x) :
    wp (onGroup env groupId messages x) s (fun _ => PastFirst) fun _ => PastFirst := by
  rw [onGroup, wp_mapError]
  exact wp_mono (wp_inGroup_past h halone hs hx) (fun _ _ ht => ht.1)
    fun _ _ ht => ht.lapsed.pastFirst hs

theorem changeGroup_past {change : GroupAction M.toOpenMls Unit} (hs : PastFirst s)
    (hchange : ∀ n, Advancing n groupId s.beside s.store change) :
    wp (changeGroup env groupId change) s
      (fun g t => PastFirst t ∧ t.beside = s.beside ∧ Past s.beside g) fun _ => Undone s := by
  rw [changeGroup, wp_mapError]
  refine wp_mono (wp_inGroup_past h halone hs hchange) (fun g t ht => ?_) fun _ _ ht => ht
  obtain ⟨hpast, hbeside, r, rfl, -, hr⟩ := ht
  exact ⟨hpast, hbeside, hr⟩

omit h halone in
/-- The status that is written after an operation begins no wait for an external commit. -/
theorem recording_past {x : Action M.toOpenMls α} {write : Action M.toOpenMls Unit}
    (hx : wp x s (fun _ => PastFirst) fun _ => PastFirst)
    (hwrite : ∀ t, wp write t (fun _ => Lapsed t) fun _ => Lapsed t) :
    wp (recording x write) s (fun _ => PastFirst) fun _ => PastFirst := by
  rw [recording, wp_bind]
  refine wp_mono hx (fun _ t ht => ?_) fun _ _ ht => ht
  rw [wp_bind, wp_attempt]
  exact wp_mono (hwrite t) (fun _ _ hu => hu.pastFirst ht) fun _ _ hu => hu.pastFirst ht

end transaction

/-! ## `process_all_messages` -/

variable (M) in
/-- **The Welcome leads past epoch 0**, if its group is one that awaits an external commit. -/
def WelcomePast (env : Surroundings M.toOpenMls) (statuses : GroupStatuses) (config : M.JoinConfig)
    (welcome : Bytes) : Prop :=
  ∀ s g t, (transaction env (processWelcome env welcome config)).run s = .ok g t →
    Awaiting (M.groupId g) statuses → 1 ≤ M.epoch g

/-- In a batch that began with `statuses`: the group in memory has reached the epoch it has to. -/
structure InBatch (statuses : GroupStatuses) (o : Option M.Group) (s : Session M.toOpenMls) :
    Prop where
  past : PastFirst s
  since : ∀ other, Awaiting other s.beside → Awaiting other statuses
  group : ∀ g, o = some g → Past s.beside g

section batch

variable {env : Surroundings M.toOpenMls} {statuses : GroupStatuses} {o : Option M.Group}
  {s t : Session M.toOpenMls} {contentType : M.ProtocolMessage → ContentType}

theorem InBatch.of_lapsed (h : InBatch statuses o s) (hlapsed : Lapsed s t) :
    InBatch statuses o t := by
  refine ⟨hlapsed.pastFirst h.past, fun other ht => h.since other (hlapsed.status other ht), ?_⟩
  intro g hg
  unfold Past firstEpoch
  split_ifs with hawaiting
  · exact one_le_of_firstEpoch_le (h.group g hg) (hlapsed.status _ hawaiting)
  · exact Nat.zero_le _

theorem InBatch.no_group (h : InBatch statuses o s) : InBatch statuses none s :=
  ⟨h.past, h.since, fun _ hg => nomatch hg⟩

theorem InBatch.of_beside (h : InBatch statuses o s) (hpast : PastFirst t)
    (hbeside : t.beside = s.beside) {o' : Option M.Group}
    (hgroup : ∀ g, o' = some g → Past s.beside g) : InBatch statuses o' t := by
  refine ⟨hpast, fun other hawaiting => h.since other ?_, fun g hg => ?_⟩
  · rwa [hbeside] at hawaiting
  · rw [hbeside]
    exact hgroup g hg

variable (h : M.StoresGroups) (hM : M.KeepsCommits contentType) (hepochs : M.KeepsEpochs)
  (halone : ∀ t, env.others t = [])
include h hM hepochs halone

theorem settlePending_past (args : AllMessagesOfGroupArgs) (existing : M.Group)
    (ownMemberId : String) (op : GroupPendingOperation) (hs : InBatch statuses (some existing) s) :
    wp (settlePending env args existing ownMemberId op) s (fun o => InBatch statuses o)
      fun _ => InBatch statuses none := by
  have hchange : ∀ {change : GroupAction M.toOpenMls Unit},
      (∀ n, Advancing n args.groupId s.beside s.store change) →
      wp (changeGroup env args.groupId change) s (fun g => InBatch statuses (some g))
        fun _ => InBatch statuses none := by
    intro change hadvancing
    refine wp_mono (changeGroup_past h halone hs.past hadvancing) (fun g t ht => ?_)
      fun _ t ht => (hs.of_lapsed ht.lapsed).no_group
    refine hs.of_beside ht.1 ht.2.1 fun g' hg' => ?_
    obtain rfl := Option.some.inj hg'
    exact ht.2.2
  apply wp_settlePending
  · exact fun o s s' hunmarked hs => hs.of_lapsed hunmarked.lapsed
  · exact hchange fun n => use_advancing hM.changes_mergePendingCommit hepochs.mergePendingCommit
  · exact hchange fun n => use_advancing hM.changes_clearPendingCommit hepochs.clearPendingCommit
  · exact wp_mono (hchange fun n => use_advancing hM.changes_delete hepochs.delete)
      (fun _ _ ht => ht.no_group) fun _ _ ht => ht
  · exact hs

omit hM hepochs in
theorem load_past (id : String) (epochs : List ℕ) (hs : PastFirst s) :
    wp (loadGroupWithEpochMessageSecrets env id epochs) s
      (fun g t => Undone s t ∧ Past s.beside g) fun _ => Undone s := by
  refine wp_mono (wp_and (load_undone h halone id epochs s) (load_spec env h id epochs s))
    (fun g t ht => ⟨ht.1, ?_⟩) fun _ _ ht => ht.1
  have hg := ht.2.1
  rw [Session.await_store_of_alone halone s] at hg
  rw [Past, h.groupId hg]
  exact hs.atLeast id g hg

theorem openGroup_past (args : AllMessagesOfGroupArgs) (hs : InBatch statuses none s) :
    wp (openGroup env args) s
      (fun o t => InBatch statuses (o.bind Opening.mlsGroup) t) fun _ => InBatch statuses none := by
  rw [openGroup, wp_bind, wp_attempt]
  refine wp_mono (load_past h halone args.groupId (preloadEpochs args.messages) hs.past) ?_
    fun _ t ht => hs.of_lapsed ht.lapsed
  rintro existing t ⟨hundone, hgroup⟩
  have ht : InBatch statuses (some existing) t := by
    refine hs.of_beside (hundone.lapsed.pastFirst hs.past) hundone.beside fun g hg => ?_
    obtain rfl := Option.some.inj hg
    exact hgroup
  dsimp only
  cases ownIdFromLeafNode existing with
  | none => exact ht.no_group
  | some ownMemberId =>
    dsimp only
    rw [wp_bind]
    refine wp_mono (getStatus_undone args.groupId t) (fun row u hu => ?_)
      fun _ u hu => (ht.of_lapsed hu.lapsed).no_group
    rw [wp_bind]
    exact wp_mono (settlePending_past h hM hepochs halone args existing ownMemberId _
      (ht.of_lapsed hu.1.lapsed)) (fun _ _ hv => hv) fun _ _ hv => hv

omit hM hepochs in
theorem prePass_past (messages : List MlsMessage) (p : Inspection M.toOpenMls)
    (hs : InBatch statuses p.mlsGroup s) :
    InBatch statuses (prePass env messages p s).1.mlsGroup (prePass env messages p s).2 := by
  induction messages generalizing p s with
  | nil => exact hs
  | cons msg messages ih =>
    obtain ⟨hgroup, hlooked⟩ := p.step_looked env h msg s
    have hbeside := (inspectionStep_holds M.untouched_true.groups
      (Surroundings.untouched_of_alone halone) p msg (b := s.beside) ⟨trivial, rfl⟩).2
    refine ih _ ?_
    rw [hgroup]
    refine hs.of_lapsed ⟨hlooked.stored_of_alone halone, fun other hawaiting => ?_⟩
    rwa [hbeside] at hawaiting

omit hepochs in
/-- **A Welcome** whose group has reached the epoch it has to. -/
theorem welcome_past (welcome : Bytes) (config : M.JoinConfig)
    (hwelcome : WelcomePast M env statuses config welcome) (hs : InBatch statuses o s) :
    wp (transaction env (processWelcome env welcome config)) s
      (fun g => InBatch statuses (some g)) fun _ => InBatch statuses o := by
  have hspec := processWelcome_moved h hM halone welcome config s
  cases hrun : (transaction env (processWelcome env welcome config)).run s with
  | error e t => exact (wp_of_error hrun).mpr (hs.of_lapsed ((wp_of_error hrun).mp hspec).lapsed)
  | ok g t =>
    obtain ⟨hmoved, hstored⟩ := (wp_of_ok hrun).mp hspec
    have hgroup : Awaiting (M.groupId g) s.beside → 1 ≤ M.epoch g := fun hawaiting =>
      hwelcome s g t hrun (hs.since _ hawaiting)
    refine (wp_of_ok hrun).mpr (hs.of_beside ?_ hmoved.beside fun g' hg' => ?_)
    · refine hs.past.of_others (M.groupId g) hmoved.others (fun _ _ => by rw [hmoved.beside]) ?_
      intro hawaiting g' hg'
      obtain rfl := Option.some.inj (hstored.symm.trans hg')
      rw [hmoved.beside] at hawaiting
      exact hgroup hawaiting
    · obtain rfl := Option.some.inj hg'
      unfold Past firstEpoch
      split_ifs with hawaiting
      · exact hgroup hawaiting
      · exact Nat.zero_le _

omit hM hepochs in
theorem reload_past (id : String) (msg : MlsMessage) (l : Progress M.toOpenMls)
    (hs : InBatch statuses l.mlsGroup s) :
    InBatch statuses (l.reload env id msg s).1.mlsGroup (l.reload env id msg s).2 := by
  have hload := load_past h halone id [msg.epoch] hs.past
  by_cases hloaded : l.commitGroupLoaded
  · rw [Progress.reload_of_loaded hloaded]
    exact hs
  · cases hrun : (loadGroupWithEpochMessageSecrets env id [msg.epoch]).run s with
    | ok g t =>
      obtain ⟨hundone, hgroup⟩ := (wp_of_ok hrun).mp hload
      rw [Progress.reload_of_ok hloaded hrun]
      refine hs.of_beside (hundone.lapsed.pastFirst hs.past) hundone.beside fun g' hg' => ?_
      obtain rfl := Option.some.inj hg'
      exact hgroup
    | error e t =>
      have hundone := (wp_of_error hrun).mp hload
      rw [Progress.reload_of_error hloaded hrun]
      simp only [Progress.stopIfFatal_mlsGroup]
      exact hs.of_lapsed hundone.lapsed

/-- **A commit** leads on, and a transaction that fails does not take the group in memory back. -/
theorem transactionOn_past (message : Bytes) (g : M.Group) (hs : InBatch statuses (some g) s) :
    wp (transactionOn env (processOperationMessage env message)) ⟨g, s⟩
      (fun _ t => InBatch statuses (some t.self) t.world)
      fun _ t => InBatch statuses (some t.self) t.world := by
  have hawait : (s.await env).store = s.store := Session.await_store_of_alone halone s
  have hg : Past s.beside g := hs.group g rfl
  have hahead : Ahead (firstEpoch (M.groupId g) s.beside) (M.groupId g) s.beside s.store
      ⟨g, (s.await env).tick⟩ := by
    refine ⟨⟨rfl, rfl, fun other _ => ?_⟩, hg, ?_⟩
    · exact congrFun (congrArg M.stored hawait) other
    · show AtLeast M _ (M.groupId g) (s.await env).store
      rw [hawait]
      exact hs.past.atLeast _
  have hrolled : ∀ {g' : M.Group} {v : Session M.toOpenMls}, M.groupId g' = M.groupId g →
      firstEpoch (M.groupId g) s.beside ≤ M.epoch g' → Undone s v →
      InBatch statuses (some g') v := by
    intro g' v hid hepoch hundone
    refine hs.of_beside (hundone.lapsed.pastFirst hs.past) hundone.beside fun g'' hg'' => ?_
    obtain rfl := Option.some.inj hg''
    rw [Past, hid]
    exact hepoch
  have hid := processOperationMessage_faithful env h message ⟨g, (s.await env).tick⟩
  refine Lib.wp_transaction (fun _ _ => hrolled rfl hg ⟨hawait, rfl⟩) fun _ => ?_
  refine wp_mono (wp_and hid (processOperationMessage_advancing h hM hepochs message _ hahead))
    (fun _ u ⟨⟨hid, _⟩, hu⟩ => ⟨fun _ _ => hrolled hid hu.epoch ⟨hawait, hu.beside⟩, fun _ => ?_⟩)
    fun _ u ⟨hid, hu⟩ => hrolled hid hu.epoch ⟨hawait, hu.beside⟩
  have hbeside : (u.world.commit (s.await env)).tick.beside = s.beside := hu.beside
  refine hs.of_beside ?_ hbeside fun g' hg' => ?_
  · exact hs.past.of_ahead hu
  · obtain rfl := Option.some.inj hg'
    rw [Past, hid]
    exact hu.epoch

theorem applyCommit_past (id : String) (msg : MlsMessage) (l : Progress M.toOpenMls)
    (hs : InBatch statuses l.mlsGroup s) :
    InBatch statuses (l.applyCommit env id msg s).1.mlsGroup (l.applyCommit env id msg s).2 := by
  cases hg : l.mlsGroup with
  | none =>
    rw [Progress.applyCommit_of_none hg]
    exact hs
  | some g =>
    rw [hg] at hs
    have hspec := transactionOn_past h hM hepochs halone msg.blob g hs
    cases hrun : (transactionOn env (processOperationMessage env msg.blob)).run ⟨g, s⟩ with
    | ok r t =>
      rw [Progress.applyCommit_of_ok hg hrun]
      exact (wp_of_ok hrun).mp hspec
    | error e t =>
      rw [Progress.applyCommit_of_error hg hrun]
      simp only [Progress.stopIfFatal_mlsGroup]
      exact (wp_of_error hrun).mp hspec

theorem progressStep_past (id : String) (config : M.JoinConfig) (latestEpoch : ℕ)
    (msg : MlsMessage)
    (hmsg : msg.messageType = .welcome → WelcomePast M env statuses config msg.blob)
    (l : Progress M.toOpenMls) (hs : InBatch statuses l.mlsGroup s) :
    InBatch statuses (l.step env id config latestEpoch msg s).1.mlsGroup
      (l.step env id config latestEpoch msg s).2 := by
  unfold Progress.step
  split
  · rename_i htype
    have hspec := welcome_past h hM halone msg.blob config (hmsg htype) hs
    cases hrun : (transaction env (processWelcome env msg.blob config)).run s with
    | ok g t =>
      rw [Progress.welcomeArm_of_ok hrun]
      exact (wp_of_ok hrun).mp hspec
    | error e t =>
      rw [Progress.welcomeArm_of_error hrun]
      exact (wp_of_error hrun).mp hspec
  · have hreload := reload_past h halone id msg l hs
    have happly := applyCommit_past h hM hepochs halone id msg (l.reload env id msg s).1 hreload
    unfold Progress.commitArm
    split_ifs
    · dsimp only
      split_ifs
      · exact hreload
      · exact happly
      · simp only [Progress.dropRemoved_mlsGroup]
        exact happly
    · simp only [Progress.dropRemoved_mlsGroup]
      exact hs
  · simp only [Progress.proposalArm_mlsGroup]
    exact hs
  · exact hs

theorem operationLoop_past (id : String) (config : M.JoinConfig) (latestEpoch : ℕ)
    (messages : List MlsMessage) (hmessages : ∀ msg ∈ messages, msg.messageType = .welcome →
      WelcomePast M env statuses config msg.blob)
    (l : Progress M.toOpenMls) (hs : InBatch statuses l.mlsGroup s) :
    InBatch statuses none (operationLoop env id config latestEpoch messages l s).2 := by
  induction messages generalizing l s with
  | nil => exact hs.no_group
  | cons msg messages ih =>
    rw [operationLoop]
    split_ifs
    · exact hs.no_group
    · exact ih (fun m hm => hmessages m (List.mem_cons_of_mem _ hm)) _
        (progressStep_past h hM hepochs halone id config latestEpoch msg
          (hmessages msg List.mem_cons_self) l hs)

theorem processGroup_past (config : M.JoinConfig) (args : AllMessagesOfGroupArgs)
    (hmessages : ∀ msg ∈ args.messages, msg.messageType = .welcome →
      WelcomePast M env statuses config msg.blob) (hs : InBatch statuses none s) :
    wp (processGroup env config args) s (fun _ => InBatch statuses none)
      fun _ => InBatch statuses none := by
  rw [processGroup, wp_bind]
  refine wp_mono (openGroup_past h hM hepochs halone args hs) (fun o t ht => ?_) fun _ _ ht => ht
  cases o with
  | none => exact ht
  | some opening =>
    have hpre := prePass_past h halone args.messages (.start opening.mlsGroup) ht
    exact operationLoop_past h hM hepochs halone _ config _ args.messages hmessages
      (.start (prePass env args.messages (.start opening.mlsGroup) t).1.mlsGroup _) hpre

theorem processAllMessages_past (config : M.JoinConfig) (groups : List AllMessagesOfGroupArgs)
    (hgroups : ∀ args ∈ groups, ∀ msg ∈ args.messages, msg.messageType = .welcome →
      WelcomePast M env statuses config msg.blob) (hs : InBatch statuses none s) :
    wp (processAllMessages env config groups) s (fun _ => InBatch statuses none)
      fun _ => InBatch statuses none := by
  induction groups generalizing s with
  | nil => exact hs
  | cons args rest ih =>
    rw [processAllMessages, wp_bind]
    refine wp_mono (processGroup_past h hM hepochs halone config args
      (hgroups args List.mem_cons_self) hs) (fun r t ht => ?_) fun _ _ ht => ht
    rw [wp_bind]
    exact wp_mono (ih (fun a ha => hgroups a (List.mem_cons_of_mem _ ha)) ht) (fun _ _ hu => hu)
      fun _ _ hu => hu

end batch

/-! ## Joining -/

/-- A group was joined, which is past epoch 0 now; the others and the statuses are as before. -/
structure Entered (groupId : String) (s t : Session M.toOpenMls) : Prop where
  beside : t.beside = s.beside
  others : OthersKept M groupId s.store t.store
  past : AtLeast M 1 groupId t.store

section joins

variable {env : Surroundings M.toOpenMls} {infoGroupId : M.GroupInfo → String}
  {infoEpoch : M.GroupInfo → ℕ} {contentType : M.ProtocolMessage → ContentType}
  {groupId id : String} {s t u : Session M.toOpenMls}

theorem Entered.atLeast (h : Entered id s t) (hs : AtLeast M 1 groupId s.store) :
    AtLeast M 1 groupId t.store := by
  by_cases hid : groupId = id
  · rw [hid]
    exact h.past
  · exact hs.of_stored (h.others groupId hid)

/-- The external commit is recorded for the group that was joined, or for one past epoch 0. -/
theorem Entered.pastFirst (h : Entered id s t) (hs : PastFirst s)
    (hgroup : id = groupId ∨ AtLeast M 1 groupId s.store) (hnoted : Noted groupId t u) :
    PastFirst u := by
  have hstored : ∀ {other}, AtLeast M 1 other t.store → AtLeast M 1 other u.store :=
    fun ht => ht.of_stored (by rw [hnoted.store])
  intro other hawaiting
  by_cases hother : other = groupId
  · subst hother
    rcases hgroup with rfl | hgroup
    · exact hstored h.past
    · exact hstored (h.atLeast hgroup)
  · rw [Awaiting, hnoted.status other hother, h.beside] at hawaiting
    exact hstored (h.atLeast (hs other hawaiting))

variable (hM : M.KeepsCommits contentType) (hjoins : M.JoinsExternally infoGroupId infoEpoch)
include hM hjoins

/-- **The group of the group info is joined.** -/
theorem joinedGroup_entered (userId : String) (groupInfo : Bytes) (config : M.JoinConfig)
    (publicKey : Option Bytes) (s : Session M.toOpenMls) :
    wp (joinedGroup env userId groupInfo config publicKey) s
      (fun _ t => ∃ info, M.deserializeGroupInfo groupInfo = some info ∧
        Entered (infoGroupId info) s t) fun _ t => t.beside = s.beside := by
  rw [joinedGroup, wp_bind]
  refine wp_orThrow (fun info hinfo => ?_) fun _ => rfl
  rw [wp_bind]
  refine wp_orThrow (fun tree _ => ?_) fun _ => rfl
  rw [wp_bind]
  refine wp_ofResult (fun bytes _ => ?_) fun _ _ => rfl
  rw [wp_bind]
  refine wp_ofResult (fun preTreeHash _ => ?_) fun _ _ => rfl
  rw [wp_bind]
  have hcheck : wp (checkNotMember env userId tree info) s (fun _ => Undone s)
      fun _ => Undone s := by
    rw [checkNotMember, wp_bind, wp_look]
    cases M.publicGroup (env.fault s.time) s.store tree info with
    | none => exact ⟨rfl, rfl⟩
    | some publicGroup => exact wp_ite (fun _ => ⟨rfl, rfl⟩) fun _ => ⟨rfl, rfl⟩
  refine wp_mono hcheck (fun _ t ht => ?_) fun _ _ ht => ht.beside
  rw [wp_bind]
  refine wp_mono (getCredentialWithKey_stored hM userId publicKey t) (fun r u hu => ?_)
    fun _ _ hu => hu.trans ht.beside
  have hbeside : u.beside = s.beside := hu.1.trans ht.beside
  rw [wp_bind, wp_useStore]
  -- The three uses of the store are one moment apart.
  have hcommit := hjoins config info r.1 r.2 (env.fault u.time) (env.fault (u.time + 1))
    (env.fault (u.time + 2)) u.store
  refine wp_mono hcommit (fun builder db₁ h₁ => ?_) fun _ _ _ => hbeside
  rw [wp_bind, wp_useStore]
  refine wp_mono h₁ (fun bundle db₂ h₂ => ?_) fun _ _ _ => hbeside
  rw [wp_bind, wp_useStore]
  refine wp_mono h₂ (fun r' db₃ ⟨hothers, hepoch⟩ => ?_) fun _ _ _ => hbeside
  refine ⟨info, hinfo, hbeside, fun other hother => ?_, fun g hg => ?_⟩
  · rw [← ht.store, ← hu.2]
    exact hothers other hother
  · rw [hepoch g hg]
    exact Nat.le_add_left _ _

theorem joinByExternalCommit_entered (halone : ∀ t, env.others t = []) (userId : String)
    (groupInfo : Bytes) (config : M.JoinConfig) (publicKey : Option Bytes)
    (s : Session M.toOpenMls) :
    wp (transaction env (joinByExternalCommit env userId groupInfo config publicKey)) s
      (fun _ t => ∃ info, M.deserializeGroupInfo groupInfo = some info ∧
        Entered (infoGroupId info) s t) fun _ => Undone s := by
  have hawait : (s.await env).store = s.store := Session.await_store_of_alone halone s
  refine wp_transaction (fun _ _ => ⟨hawait, rfl⟩) fun _ => ?_
  rw [joinByExternalCommit, wp_bind]
  refine wp_mono (joinedGroup_entered hM hjoins userId groupInfo config publicKey
    (s.await env).tick) (fun r t ⟨info, hinfo, ht⟩ => ?_) fun _ t ht => ⟨hawait, ht⟩
  rw [wp_bind]
  refine wp_ofResult (fun _ _ => ?_) fun _ _ => ⟨hawait, ht.beside⟩
  rw [wp_bind]
  refine wp_ofResult (fun _ _ => ?_) fun _ _ => ⟨hawait, ht.beside⟩
  refine ⟨fun _ _ => ⟨hawait, ht.beside⟩, fun _ => ⟨info, hinfo, ht.beside, ?_, ht.past⟩⟩
  rw [← hawait]
  exact ht.others

variable (infoGroupId) in
omit hM hjoins in
/-- The group info is one of the group that the external commit is recorded for, or that group is
past epoch 0. -/
def InfoOf (groupId : String) (groupInfo : Bytes) (s : Session M.toOpenMls) : Prop :=
  ∀ info, M.deserializeGroupInfo groupInfo = some info →
    infoGroupId info = groupId ∨ AtLeast M 1 groupId s.store

theorem join_past (halone : ∀ t, env.others t = []) (clientId : String) (groupInfo : Bytes)
    (config : Except Error M.JoinConfig) (publicKey : Option Bytes)
    (hinfo : InfoOf infoGroupId groupId groupInfo s) (hs : PastFirst s) :
    wp (UqMls.joinByExternalCommit env clientId groupId groupInfo config publicKey) s
      (fun _ => PastFirst) fun _ => PastFirst := by
  rw [UqMls.joinByExternalCommit, wp_bind]
  refine wp_ofResult (fun config _ => ?_) fun _ _ => hs
  rw [recording, wp_bind, wp_mapError]
  refine wp_mono (joinByExternalCommit_entered hM hjoins halone clientId groupInfo config publicKey s)
    ?_ fun _ _ ht => ht.lapsed.pastFirst hs
  rintro _ t ⟨info, hdeserialize, ht⟩
  rw [wp_bind, wp_attempt]
  exact wp_mono (insertStatus_noted groupId .joinByExternalCommit t)
    (fun _ _ hu => ht.pastFirst hs (hinfo info hdeserialize) hu.1)
    fun _ _ hu => ht.pastFirst hs (hinfo info hdeserialize) hu

omit hM hjoins in
/-- One group of many: the external commit is recorded after the transaction. -/
theorem wp_joinOne {clientId : String} {config : M.JoinConfig} {publicKey : Option Bytes}
    {arg : JoinByExternalCommitArgs} {Q : WrappedJoinByExternalCommitResult →
      Session M.toOpenMls → Prop} {E : Error → Session M.toOpenMls → Prop}
    (h : wp (transaction env (joinByExternalCommit env clientId arg.groupInfo config publicKey)) s
      (fun result t => wp (attempt (insertOrUpdateGroupStatus env arg.groupId .joinByExternalCommit))
        t (fun _ => Q ⟨arg.groupId, some result, none⟩) E)
      fun err => Q ⟨arg.groupId, none, some err⟩) :
    wp (joinOne env clientId config publicKey arg) s Q E := by
  unfold wp
  cases hrun : (transaction env
    (joinByExternalCommit env clientId arg.groupInfo config publicKey)).run s with
  | ok result t =>
    let write : Action M.toOpenMls WrappedJoinByExternalCommitResult :=
      (fun _ => ⟨arg.groupId, some result, none⟩) <$>
        attempt (insertOrUpdateGroupStatus env arg.groupId .joinByExternalCommit)
    have hjoin : (joinOne env clientId config publicKey arg).run s = write.run t := by
      change joinOne env clientId config publicKey arg s = _
      simp only [joinOne, hrun, write]
    have hwritten : wp write t Q E := by
      simp only [write]
      rw [map_eq_pure_bind, wp_bind]
      exact (wp_of_ok hrun).mp h
    rw [hjoin]
    exact hwritten
  | error err t =>
    have hjoin : (joinOne env clientId config publicKey arg).run s =
        .ok ⟨arg.groupId, none, some err⟩ t := by
      change joinOne env clientId config publicKey arg s = _
      simp only [joinOne, hrun]
    rw [hjoin]
    exact (wp_of_error hrun).mp h

/-- Joining one of many groups takes no group back to epoch 0. -/
theorem joinOne_past (halone : ∀ t, env.others t = []) (clientId : String) (config : M.JoinConfig)
    (publicKey : Option Bytes) (arg : JoinByExternalCommitArgs)
    (hinfo : InfoOf infoGroupId arg.groupId arg.groupInfo s) (hs : PastFirst s) :
    wp (joinOne env clientId config publicKey arg) s
      (fun _ t => PastFirst t ∧ ∀ other, AtLeast M 1 other s.store → AtLeast M 1 other t.store)
      fun _ => PastFirst := by
  refine wp_joinOne (wp_mono (joinByExternalCommit_entered hM hjoins halone clientId arg.groupInfo
    config publicKey s) (fun result t ⟨info, hdeserialize, ht⟩ => ?_) fun _ t ht => ?_)
  · have hafter : ∀ u, Noted arg.groupId t u → PastFirst u ∧
        ∀ other, AtLeast M 1 other s.store → AtLeast M 1 other u.store := by
      refine fun u hu => ⟨ht.pastFirst hs (hinfo info hdeserialize) hu, fun other hother => ?_⟩
      rw [hu.store]
      exact ht.atLeast hother
    rw [wp_attempt]
    exact wp_mono (insertStatus_noted arg.groupId .joinByExternalCommit t)
      (fun _ u hu => hafter u hu.1) fun _ u hu => hafter u hu
  · refine ⟨ht.lapsed.pastFirst hs, fun other hother => ?_⟩
    rw [ht.store]
    exact hother

theorem batchJoin_past (halone : ∀ t, env.others t = []) (clientId : String)
    (args : List JoinByExternalCommitArgs) (config : Except Error M.JoinConfig)
    (publicKey : Option Bytes)
    (hinfo : ∀ arg ∈ args, InfoOf infoGroupId arg.groupId arg.groupInfo s) (hs : PastFirst s) :
    wp (UqMls.batchJoinByExternalCommit env clientId args config publicKey) s
      (fun _ => PastFirst) fun _ => PastFirst := by
  rw [UqMls.batchJoinByExternalCommit, wp_bind]
  refine wp_ofResult (fun config _ => ?_) fun _ _ => hs
  induction args generalizing s with
  | nil => exact hs
  | cons arg rest ih =>
    rw [List.mapM_cons, wp_bind]
    refine wp_mono (joinOne_past hM hjoins halone clientId config publicKey arg
      (hinfo arg List.mem_cons_self) hs) (fun _ t ht => ?_) fun _ _ ht => ht
    rw [wp_bind]
    refine wp_mono (ih (fun a ha info hdeserialize => ?_) ht.1) (fun _ _ hu => hu) fun _ _ hu => hu
    exact (hinfo a (List.mem_cons_of_mem _ ha) info hdeserialize).imp_right (ht.2 a.groupId)

end joins

/-! ## Calls -/

section calls

variable {env : Surroundings M.toOpenMls} {contentType : M.ProtocolMessage → ContentType}
  {groupId : String} {op : GroupPendingOperation} {s : Session M.toOpenMls}
  {C : Codec} {K : KeyStore M.toOpenMls C}

theorem insertStatus_notAwaiting (hop : op ≠ .joinByExternalCommit) (s : Session M.toOpenMls) :
    wp (insertOrUpdateGroupStatus env groupId op) s (fun _ t => ¬Awaiting groupId t.beside)
      fun _ _ => True :=
  wp_useStatuses (fun _ _ => trivial) fun _ hawaiting => hop (awaiting_insert.mp hawaiting)

/-- **A group is created**, at epoch 0: it does not await an external commit. -/
theorem createGroup_past (h : M.StoresGroups) (hM : M.KeepsCommits contentType)
    (halone : ∀ t, env.others t = []) (clientId : String)
    (config : Except Error M.CreateConfig) (publicKey : Option Bytes)
    (hrecorded : Awaiting groupId s.beside → Recorded (newGroup env clientId groupId config publicKey)
      (insertOrUpdateGroupStatus env groupId .createGroup) s) (hs : PastFirst s) :
    wp (UqMls.createGroup env clientId groupId config publicKey) s (fun _ => PastFirst)
      fun _ => PastFirst := by
  have hmoved := newGroup_moved h hM halone clientId groupId config publicKey s
  rw [UqMls.createGroup, recording, wp_bind]
  cases hrun : (newGroup env clientId groupId config publicKey).run s with
  | error e t =>
    exact (wp_of_error hrun).mpr (((wp_of_error hrun).mp hmoved).lapsed.pastFirst hs)
  | ok a t =>
    replace hmoved := (wp_of_ok hrun).mp hmoved
    have hafter : ∀ {u}, Noted groupId t u → ¬Awaiting groupId u.beside → PastFirst u := by
      intro u hu hnot
      refine hs.of_others groupId ?_ (fun other hother => ?_) fun hawaiting => absurd hawaiting hnot
      · rw [OthersKept, hu.store]
        exact hmoved.others
      · rw [hu.status other hother, hmoved.beside]
    have hnoted : wp (insertOrUpdateGroupStatus env groupId .createGroup) t
        (fun _ u => Noted groupId t u ∧
          (GroupPendingOperation.createGroup ≠ .none → ¬Unrecorded groupId u.beside))
        fun _ => Noted groupId t := insertStatus_noted groupId .createGroup t
    refine (wp_of_ok hrun).mpr ?_
    rw [wp_bind, wp_attempt]
    cases hwrite : (insertOrUpdateGroupStatus env groupId .createGroup).run t with
    | ok _ u =>
      have hnot := (wp_of_ok hwrite).mp (insertStatus_notAwaiting (by decide) t)
      exact (wp_of_ok hwrite).mpr (hafter ((wp_of_ok hwrite).mp hnoted).1 hnot)
    | error e u =>
      have hkept : wp (insertOrUpdateGroupStatus env groupId .createGroup) t (fun _ _ => True)
          fun _ u => u.beside = t.beside := wp_useStatuses (fun _ _ => rfl) fun _ => trivial
      have hbeside := (wp_of_error hwrite).mp hkept
      refine (wp_of_error hwrite).mpr (hafter ((wp_of_error hwrite).mp hnoted) fun hawaiting => ?_)
      rw [hbeside, hmoved.beside] at hawaiting
      have hok := hrecorded hawaiting a t hrun
      rw [hwrite] at hok
      cases hok

theorem deleteGroup_past (hK : K.GroupsAreRows) (halone : ∀ t, env.others t = [])
    (recoverable : String → Bool) (hs : PastFirst s) :
    wp (UqMls.deleteGroup K env recoverable groupId) s (fun _ => PastFirst) fun _ => PastFirst := by
  rw [UqMls.deleteGroup, wp_bind, wp_mapError]
  refine wp_mono (sqliteDeleteGroup_withoutGroup hK halone recoverable s) (fun _ t ht => ?_)
    fun _ _ ht => ht.lapsed.pastFirst hs
  have hpast : PastFirst t := by
    intro other hawaiting g hg
    rw [ht.beside] at hawaiting
    exact hs other hawaiting g (ht.stored other g hg).2
  exact wp_mono (deleteStatus_unmarked groupId t) (fun _ _ hu => hu.lapsed.pastFirst hpast)
    fun _ _ hu => hu.lapsed.pastFirst hpast

end calls

/-! ## Runs -/

/-- **The calls that keep groups past epoch 0**: the group info of an external commit is one of the
group it is recorded for, or that group is past epoch 0; a group that awaits an external commit is
not created without a record of it, and no Welcome takes it to epoch 0. -/
def ClientCall.Sound (infoGroupId : M.GroupInfo → String) (env : Surroundings M.toOpenMls)
    (s : Session M.toOpenMls) : ClientCall M → Prop
  | .call (.createGroup clientId groupId config publicKey) =>
    Awaiting groupId s.beside → Recorded (newGroup env clientId groupId config publicKey)
      (insertOrUpdateGroupStatus env groupId .createGroup) s
  | .call (.processWelcome welcome config) => WelcomePast M env s.beside config welcome
  | .call (.processAllMessages config groups) =>
    ∀ args ∈ groups, ∀ msg ∈ args.messages, msg.messageType = .welcome →
      WelcomePast M env s.beside config msg.blob
  | .call _ => True
  | .joinByExternalCommit _ groupId groupInfo _ _ => InfoOf infoGroupId groupId groupInfo s
  | .batchJoinByExternalCommit _ args _ _ =>
    ∀ arg ∈ args, InfoOf infoGroupId arg.groupId arg.groupInfo s

/-- **The states that calls lead to**, each of which fulfils `P`. -/
inductive Called {C : Codec} (env : Surroundings M.toOpenMls) (K : KeyStore M.toOpenMls C)
    (recoverable : String → Bool) (P : Session M.toOpenMls → ClientCall M → Prop)
    (s₀ : Session M.toOpenMls) : Session M.toOpenMls → Prop
  | start : Called env K recoverable P s₀ s₀
  | call {s : Session M.toOpenMls} (c : ClientCall M) : Called env K recoverable P s₀ s → P s c →
    Called env K recoverable P s₀ (final ((c.run env K recoverable).run s))

section run

variable {env : Surroundings M.toOpenMls} {contentType : M.ProtocolMessage → ContentType}
  {infoGroupId : M.GroupInfo → String} {infoEpoch : M.GroupInfo → ℕ} {s : Session M.toOpenMls}
  {C : Codec} {K : KeyStore M.toOpenMls C} {recoverable : String → Bool}
  (h : M.StoresGroups) (hM : M.KeepsCommits contentType) (hepochs : M.KeepsEpochs)
  (halone : ∀ t, env.others t = [])
include h hM hepochs halone

omit hM hepochs in
theorem settlingBy_past {groupId : String} {change : GroupAction M.toOpenMls Unit}
    (hs : PastFirst s) (hchange : ∀ n, Advancing n groupId s.beside s.store change) :
    wp (settlingBy env groupId change) s (fun _ => PastFirst) fun _ => PastFirst :=
  recording_past (onGroup_past h halone hs hchange) (insertStatus_lapsed (by decide))

theorem Call.run_past (hK : K.GroupsAreRows) (c : Call M)
    (hsound : ClientCall.Sound infoGroupId env s (.call c)) (hs : PastFirst s) :
    wp (c.run env K recoverable) s (fun _ => PastFirst) fun _ => PastFirst := by
  have hbatch : InBatch s.beside none s := ⟨hs, fun _ hawaiting => hawaiting, fun _ hg => nomatch hg⟩
  cases c with
  | createGroup clientId groupId config publicKey =>
    exact createGroup_past h hM halone clientId config publicKey hsound hs
  | addMembers groupId keyPackages =>
    refine wp_dropped (recording_past (onGroup_past h halone hs fun n => ?_)
      (recordUpdate_lapsed groupId))
    exact signing_advancing fun signer => addMembers_preserves Ahead.notBehind signer keyPackages
      fun keyPackages => use_advancing (hM.addMembers signer keyPackages)
        (hepochs.addMembers signer keyPackages)
  | removeMembers groupId memberIds =>
    refine wp_dropped (recording_past (onGroup_past h halone hs fun n => ?_)
      (insertStatus_lapsed (by decide)))
    exact signing_advancing fun signer => removeMembers_preserves Ahead.notBehind signer memberIds
      fun indices => use_advancing (hM.removeMembers signer indices)
        (hepochs.removeMembers signer indices)
  | readd groupId memberIds keyPackages =>
    refine wp_dropped (recording_past ?_ (insertStatus_lapsed (by decide)))
    rw [readdUnlessPending, wp_bind]
    refine wp_mono (checkNotPending_undone groupId s) (fun _ t ht => ?_)
      fun _ _ ht => ht.lapsed.pastFirst hs
    refine onGroup_past h halone (ht.lapsed.pastFirst hs) fun n => ?_
    exact signing_advancing fun signer => readd_preserves Ahead.notBehind signer memberIds keyPackages
      (fun builder keyPackages => use_advancing (hM.buildReAdd builder keyPackages signer)
        (hepochs.buildReAdd builder keyPackages signer))
      fun bundle => use_advancing (hM.stageCommit bundle) (hepochs.stageCommit bundle)
  | updateLeafNode groupId =>
    refine wp_dropped (recording_past (onGroup_past h halone hs fun n => ?_)
      (insertStatus_lapsed (by decide)))
    exact signing_advancing fun signer => updateLeafNode_preserves Ahead.notBehind signer
      (use_advancing (hM.selfUpdate signer) (hepochs.selfUpdate signer))
  | processOperationMessage groupId message =>
    exact wp_dropped (onGroup_past h halone hs fun n =>
      processOperationMessage_advancing h hM hepochs message)
  | processManyOperationMessages groupId messages =>
    exact wp_dropped (onGroup_past h halone hs fun n =>
      processManyOperationMessages_advancing h hM hepochs messages)
  | mergePendingCommit groupId =>
    exact settlingBy_past h halone hs fun n =>
      use_advancing hM.changes_mergePendingCommit hepochs.mergePendingCommit
  | clearPendingCommit groupId =>
    exact settlingBy_past h halone hs fun n =>
      use_advancing hM.changes_clearPendingCommit hepochs.clearPendingCommit
  | clearPendingProposals groupId =>
    exact settlingBy_past h halone hs fun n =>
      use_advancing hM.changes_clearPendingProposals hepochs.clearPendingProposals
  | processWelcome welcome config =>
    show wp (UqMls.processWelcome env welcome config) s _ _
    rw [UqMls.processWelcome, wp_bind, wp_mapError]
    exact wp_mono (welcome_past h hM halone welcome config hsound hbatch) (fun _ _ ht => ht.past)
      fun _ _ ht => ht.past
  | processAllMessages config groups =>
    exact wp_dropped (wp_mono (processAllMessages_past h hM hepochs halone config groups hsound hbatch)
      (fun _ _ ht => ht.past) fun _ _ ht => ht.past)
  | deleteGroup groupId => exact deleteGroup_past hK halone recoverable hs

theorem ClientCall.run_past (hK : K.GroupsAreRows)
    (hjoins : M.JoinsExternally infoGroupId infoEpoch) (c : ClientCall M)
    (hsound : c.Sound infoGroupId env s) (hs : PastFirst s) :
    wp (c.run env K recoverable) s (fun _ => PastFirst) fun _ => PastFirst := by
  cases c with
  | call c => exact Call.run_past h hM hepochs halone hK c hsound hs
  | joinByExternalCommit clientId groupId groupInfo config publicKey =>
    exact wp_dropped (join_past hM hjoins halone clientId groupInfo config publicKey hsound hs)
  | batchJoinByExternalCommit clientId args config publicKey =>
    exact wp_dropped (batchJoin_past hM hjoins halone clientId args config publicKey hsound hs)

end run

/-! ## The epochs that are reported -/

section reports

variable {env : Surroundings M.toOpenMls} {s : Session M.toOpenMls}
  {context : Option String → M.Db → String → Except String (Option GroupContext)}

theorem epoch_eq {e : ℕ} (he : e < 2 ^ 63) : Binding.uniffi.epoch e = Binding.napi.epoch e := by
  rw [Binding.uniffi_epoch, Binding.napi_epoch]
  exact asI64_eq (by omega) (by omega)

/-- Both bindings count alike, as long as the epoch before is not that of epoch 0. -/
theorem pendingEpoch_eq {op : Option String} {e : ℕ} (he : e < 2 ^ 63)
    (hop : op = some GroupPendingOperation.joinByExternalCommit.toRow → 1 ≤ e) :
    Binding.uniffi.pendingEpoch op e = Binding.napi.pendingEpoch op e := by
  have hepoch := epoch_eq he
  unfold Binding.pendingEpoch
  split_ifs with h
  · have hone := hop h
    have hprevious : asI64 ((e : ℤ) - 1) = (e - 1 : ℕ) := by
      rw [asI64_eq (by omega) (by omega)]
      omega
    rw [Binding.uniffi_epoch, Binding.napi_epoch] at hepoch
    rw [Binding.uniffi_previous, Binding.napi_previous, hepoch, hprevious]
  · exact hepoch

theorem pendingOperation_undone (groupId : String) (s : Session M.toOpenMls) :
    wp (pendingOperation env groupId) s
      (fun op t => Undone s t ∧ ∀ row, op = some row → statusOf groupId s.beside = some row)
      fun _ _ => False := by
  rw [pendingOperation, wp_bind, wp_attempt]
  refine wp_mono (getStatus_undone groupId s) (fun row t ht => ⟨ht.1, fun r hr => ?_⟩)
    fun _ t ht => ⟨ht, fun _ hr => nomatch hr⟩
  rw [← ht.2]
  exact hr

theorem groupContext_spec (hcontext : M.ContextOf context) (halone : ∀ t, env.others t = [])
    (groupId : String) (s : Session M.toOpenMls) : wp (groupContext env context groupId) s
      (fun c _ => ∃ g, M.stored s.store groupId = some g ∧ c.epoch = M.epoch g)
      fun _ _ => True := by
  rw [groupContext, wp_bind, wp_modify, wp_bind, wp_look,
    Session.await_store_of_alone halone s]
  split
  · rename_i c hc
    exact hcontext _ _ _ c hc
  · trivial
  · trivial

variable (hcontext : M.ContextOf context) (halone : ∀ t, env.others t = []) (hs : PastFirst s)
  {groupId : String} (hepoch : ∀ g, M.stored s.store groupId = some g → M.epoch g < 2 ^ 63)
include hcontext halone hs hepoch

/-- What is recorded and the context that is read give the same epoch in both bindings. -/
theorem wp_reportedEpoch {op : Option String} {t : Session M.toOpenMls} (hundone : Undone s t)
    (hop : ∀ row, op = some row → statusOf groupId s.beside = some row) :
    wp (attempt (groupContext env context groupId)) t (fun r _ => ∀ c, r = .ok c →
      Binding.uniffi.epoch c.epoch = Binding.napi.epoch c.epoch ∧
      Binding.uniffi.pendingEpoch op c.epoch = Binding.napi.pendingEpoch op c.epoch)
      fun _ _ => True := by
  rw [wp_attempt]
  refine wp_mono (groupContext_spec hcontext halone groupId t) (fun c u hc c' hc' => ?_)
    fun _ _ _ _ hc => nomatch hc
  obtain rfl := Except.ok.inj hc'
  obtain ⟨g, hg, he⟩ := hc
  rw [hundone.store] at hg
  have hlt := hepoch g hg
  rw [he]
  exact ⟨epoch_eq hlt, pendingEpoch_eq hlt fun hawaiting => hs groupId (hop _ hawaiting) g hg⟩

/-- **Both bindings report the same epoch.** -/
theorem groupEpoch_eq : (UqMls.groupEpoch env context .uniffi groupId).run s =
    (UqMls.groupEpoch env context .napi groupId).run s := by
  refine run_bind_congr (wp_mono (pendingOperation_undone groupId s) (fun op t ⟨ht, hop⟩ => ?_)
    fun _ _ hfalse => hfalse.elim)
  refine run_bind_congr (wp_mono (wp_reportedEpoch hcontext halone hs hepoch ht hop)
    (fun r u hr => ?_) fun _ _ h => h)
  cases r with
  | ok c =>
    dsimp only
    rw [(hr c rfl).2]
  | error err => rfl

theorem groupContext_eq : (UqMls.groupContext env context .uniffi groupId).run s =
    (UqMls.groupContext env context .napi groupId).run s := by
  refine run_bind_congr (wp_mono (pendingOperation_undone groupId s) (fun op t ⟨ht, hop⟩ => ?_)
    fun _ _ hfalse => hfalse.elim)
  refine run_bind_congr (wp_mono (wp_reportedEpoch hcontext halone hs hepoch ht hop)
    (fun r u hr => ?_) fun _ _ h => h)
  cases r with
  | ok c =>
    dsimp only
    rw [(hr c rfl).1, (hr c rfl).2]
  | error err => rfl

omit hcontext halone hs hepoch in
/-- From epoch 1 on the first message after an external commit is that commit. -/
theorem getFirstMessage_joined {e : ℕ} (hone : 1 ≤ e) (he : e < 2 ^ 64)
    (args : AllMessagesOfGroupArgs) : getFirstMessage e args .joinByExternalCommit =
      args.messages.find? fun message => message.epoch = e ∧ message.messageType = .commit := by
  have hepoch : ((e + (2 ^ 64 - 1)) % 2 ^ 64 + 1) % 2 ^ 64 = e := by omega
  simp only [getFirstMessage, if_pos, hepoch]

end reports

/-- **In every state that sound calls lead to**, a group that awaits its external commit is past
epoch 0, the epoch before is one, and both bindings report the same epochs. -/
theorem pastFirst_of_called (M : CommitMls) {contentType : M.ProtocolMessage → ContentType}
    (h : M.StoresGroups) (hM : M.KeepsCommits contentType) (hepochs : M.KeepsEpochs)
    {infoGroupId : M.GroupInfo → String} {infoEpoch : M.GroupInfo → ℕ}
    (hjoins : M.JoinsExternally infoGroupId infoEpoch) {C : Codec} (K : KeyStore M.toOpenMls C)
    (hK : K.GroupsAreRows) (recoverable : String → Bool)
    {context : Option String → M.Db → String → Except String (Option GroupContext)}
    (hcontext : M.ContextOf context) (env : Surroundings M.toOpenMls)
    (halone : ∀ t, env.others t = []) {s₀ s : Session M.toOpenMls} (h₀ : PastFirst s₀)
    (hs : Called env K recoverable (ClientCall.Sound infoGroupId env) s₀ s) :
    (∀ groupId g, Awaiting groupId s.beside → M.stored s.store groupId = some g →
      1 ≤ M.epoch g ∧ (M.epoch g < 2 ^ 64 → ∀ args : AllMessagesOfGroupArgs,
        getFirstMessage (M.epoch g) args .joinByExternalCommit = args.messages.find? fun message =>
          message.epoch = M.epoch g ∧ message.messageType = .commit)) ∧
    ∀ groupId, (∀ g, M.stored s.store groupId = some g → M.epoch g < 2 ^ 63) →
      (UqMls.groupEpoch env context .uniffi groupId).run s =
        (UqMls.groupEpoch env context .napi groupId).run s ∧
      (UqMls.groupContext env context .uniffi groupId).run s =
        (UqMls.groupContext env context .napi groupId).run s := by
  have hpast : PastFirst s := by
    induction hs with
    | start => exact h₀
    | call c _ hsound ih =>
      exact final_of_wp (ClientCall.run_past h hM hepochs halone hK hjoins c hsound ih)
  refine ⟨fun groupId g hawaiting hg => ?_, fun groupId hepoch => ?_⟩
  · have hone : 1 ≤ M.epoch g := hpast groupId hawaiting g hg
    exact ⟨hone, fun hlt => getFirstMessage_joined hone hlt⟩
  · exact ⟨groupEpoch_eq hcontext halone hpast hepoch, groupContext_eq hcontext halone hpast hepoch⟩

end KChat.Mls
