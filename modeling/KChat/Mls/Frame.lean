import KChat.Mls.Synced

/-!
# What a batch leaves alone

The table of group statuses is written only where a status is; and what no method of OpenMLS
changes, and no other writer, no batch changes.

* `Untouched`: a property of the store that OpenMLS and the other writers leave alone;
  `GroupsUntouched`: the methods of a group do. `Holds`: it holds, and the statuses are the given ones.
* `transaction_holds`, `processOperationMessage_holds`: step by step.
* **`processMessages_holds`**, **`processAllMessages_untouched`**: the two loops of a group, and a call.
-/

namespace KChat.Mls

open Lib

variable {M : OpenMls} {α : Type} {P : M.Db → Prop} {b : GroupStatuses} {env : Surroundings M}

/-- The methods of a group, and the functions of the store, leave a property of the store alone. -/
structure OpenMls.Untouched (M : OpenMls) (P : M.Db → Prop) : Prop where
  processMessage : ∀ m fault s, P s.world → P (final ((M.processMessage m fault).run s)).world
  mergeStagedCommit : ∀ commit fault s, P s.world →
    P (final ((M.mergeStagedCommit commit fault).run s)).world
  storePendingProposal : ∀ proposal fault s, P s.world →
    P (final ((M.storePendingProposal proposal fault).run s)).world
  commitToPendingProposals : ∀ signer fault s, P s.world →
    P (final ((M.commitToPendingProposals signer fault).run s)).world
  mergePendingCommit : ∀ fault s, P s.world → P (final ((M.mergePendingCommit fault).run s)).world
  clearPendingCommit : ∀ fault s, P s.world → P (final ((M.clearPendingCommit fault).run s)).world
  delete : ∀ fault s, P s.world → P (final ((M.delete fault).run s)).world
  stageWelcome : ∀ config welcome fault db, P db →
    P (final ((M.stageWelcome config welcome fault).run db))
  intoGroup : ∀ welcome fault db, P db → P (final ((M.intoGroup welcome fault).run db))

/-- The methods of a group leave a property of the store alone. -/
structure OpenMls.GroupsUntouched (M : OpenMls) (P : M.Db → Prop) : Prop where
  processMessage : ∀ m fault s, P s.world → P (final ((M.processMessage m fault).run s)).world
  mergeStagedCommit : ∀ commit fault s, P s.world →
    P (final ((M.mergeStagedCommit commit fault).run s)).world
  storePendingProposal : ∀ proposal fault s, P s.world →
    P (final ((M.storePendingProposal proposal fault).run s)).world
  commitToPendingProposals : ∀ signer fault s, P s.world →
    P (final ((M.commitToPendingProposals signer fault).run s)).world
  mergePendingCommit : ∀ fault s, P s.world → P (final ((M.mergePendingCommit fault).run s)).world
  clearPendingCommit : ∀ fault s, P s.world → P (final ((M.clearPendingCommit fault).run s)).world
  delete : ∀ fault s, P s.world → P (final ((M.delete fault).run s)).world

theorem OpenMls.Untouched.groups (h : M.Untouched P) : M.GroupsUntouched P where
  processMessage := h.processMessage
  mergeStagedCommit := h.mergeStagedCommit
  storePendingProposal := h.storePendingProposal
  commitToPendingProposals := h.commitToPendingProposals
  mergePendingCommit := h.mergePendingCommit
  clearPendingCommit := h.clearPendingCommit
  delete := h.delete

/-- What is true of every store. -/
theorem OpenMls.untouched_true : M.Untouched fun _ => True where
  processMessage _ _ _ _ := trivial
  mergeStagedCommit _ _ _ _ := trivial
  storePendingProposal _ _ _ _ := trivial
  commitToPendingProposals _ _ _ _ := trivial
  mergePendingCommit _ _ _ := trivial
  clearPendingCommit _ _ _ := trivial
  delete _ _ _ := trivial
  stageWelcome _ _ _ _ _ := trivial
  intoGroup _ _ _ _ := trivial

/-- The other writers leave it alone. -/
def Surroundings.Untouched (env : Surroundings M) (P : M.Db → Prop) : Prop :=
  ∀ t, ∀ f ∈ env.others t, ∀ db, P db → P (f db)

theorem Surroundings.untouched_of_alone (h : ∀ t, env.others t = []) : env.Untouched P := by
  intro t f hf
  rw [h t] at hf
  cases hf

/-- **The property and the statuses.** -/
def Holds (P : M.Db → Prop) (b : GroupStatuses) (s : Session M) : Prop := P s.store ∧ s.beside = b

/-- Computations that keep them. -/
abbrev Keeping (P : M.Db → Prop) (b : GroupStatuses) (x : EStateM Error (Session M) α) : Prop :=
  Preserves (Holds P b) (Holds P b) x

/-- Computations on a group that keep them. -/
abbrev GroupKeeping (P : M.Db → Prop) (b : GroupStatuses) (x : GroupAction M α) : Prop :=
  Preserves (fun s => Holds P b s.world) (fun s => Holds P b s.world) x

/-! ## Calls and transactions -/

theorem holds_await (henv : env.Untouched P) {s : Session M} (h : Holds P b s) :
    Holds P b (s.await env) := by
  refine ⟨?_, h.2⟩
  have hfold : ∀ (l : List (M.Db → M.Db)) (db : M.Db), (∀ f ∈ l, ∀ db, P db → P (f db)) → P db →
      P (l.foldl (fun store f => f store) db) := by
    intro l
    induction l with
    | nil => exact fun _ _ hdb => hdb
    | cons f l ih =>
      intro db hl hdb
      exact ih (f db) (fun g hg => hl g (List.mem_cons_of_mem _ hg)) (hl f List.mem_cons_self db hdb)
  refine hfold _ _ (fun f hf => ?_) h.1
  obtain ⟨t, -, hf⟩ := List.mem_flatMap.mp hf
  exact henv t f hf

theorem call_holds {method : M.GroupMethod α}
    (h : ∀ fault s, P s.world → P (final ((method fault).run s)).world)
    {s : Owning M.Group (Session M)} (hs : Holds P b s.world) :
    wp (call env method) s (fun _ t => Holds P b t.world) fun _ t => Holds P b t.world := by
  rw [wp_call]
  have hmethod := h (env.fault s.world.time) ⟨s.self, s.world.store⟩ hs.1
  cases hrun : (method (env.fault s.world.time)).run ⟨s.self, s.world.store⟩ with
  | ok a t =>
    rw [hrun] at hmethod
    exact (wp_of_ok hrun).mpr ⟨hmethod, hs.2⟩
  | error e t =>
    rw [hrun] at hmethod
    exact (wp_of_error hrun).mpr ⟨hmethod, hs.2⟩

theorem use_holds {wrap : String → Error} {method : M.GroupMethod α}
    (h : ∀ fault s, P s.world → P (final ((method fault).run s)).world) :
    GroupKeeping P b (use env wrap method) := by
  intro s hs
  rw [use, wp_mapError]
  exact call_holds h hs

theorem useStore_holds {wrap : String → Error} {op : Option String → EStateM String M.Db α}
    (h : ∀ fault db, P db → P (final ((op fault).run db))) :
    Keeping P b (useStore env wrap op) := by
  intro s hs
  rw [wp_useStore]
  have hop := h (env.fault s.time) s.store hs.1
  cases hrun : (op (env.fault s.time)).run s.store with
  | ok a t =>
    rw [hrun] at hop
    exact (wp_of_ok hrun).mpr ⟨hop, hs.2⟩
  | error e t =>
    rw [hrun] at hop
    exact (wp_of_error hrun).mpr ⟨hop, hs.2⟩

theorem transaction_holds (henv : env.Untouched P) {x : Action M α} (h : Keeping P b x)
    {s : Session M} (hs : Holds P b s) :
    wp (transaction env x) s (fun _ => Holds P b) fun _ => Holds P b := by
  have hawait := holds_await henv hs
  refine wp_transaction (fun _ _ => hawait) fun _ => ?_
  refine wp_mono (h _ hawait) (fun _ t ht => ⟨fun _ _ => ⟨hawait.1, ht.2⟩, fun _ => ht⟩)
    fun _ t ht => ⟨hawait.1, ht.2⟩

theorem transactionOn_holds (henv : env.Untouched P) {x : GroupAction M α} (h : GroupKeeping P b x)
    {s : Owning M.Group (Session M)} (hs : Holds P b s.world) :
    wp (transactionOn env x) s (fun _ t => Holds P b t.world) fun _ t => Holds P b t.world := by
  have hawait := holds_await henv hs
  refine Lib.wp_transaction (fun _ _ => hawait) fun _ => ?_
  refine wp_mono (h _ hawait) (fun _ t ht => ⟨fun _ _ => ⟨hawait.1, ht.2⟩, fun _ => ht⟩)
    fun _ t ht => ⟨hawait.1, ht.2⟩

theorem withSelf_holds {x : GroupAction M α} (h : GroupKeeping P b x) (g : M.Group) :
    Keeping P b (withSelf g x) := by
  intro s hs
  rw [wp_withSelf]
  exact h ⟨g, s⟩ hs

/-! ## Loads -/

theorem loadGroup_holds (id : String) : Keeping P b (loadGroup (M := M) env id) := by
  intro s hs
  rw [loadGroup, wp_bind, wp_look]
  split <;> exact hs

theorem group_holds (id : String) (messages : List Bytes) :
    Keeping P b (group (M := M) env id messages) := by
  refine (Preserves.ofResult (fun _ h => h) _).bind fun epochs s hs => ?_
  rw [wp_bind, wp_look]
  split
  · exact hs
  · exact loadGroup_holds id s.tick hs
  · exact loadGroup_holds id s.tick hs
  · exact hs

theorem groupWithEpochMessageSecrets_holds (id : String) (epochs : List ℕ) :
    Keeping P b (groupWithEpochMessageSecrets (M := M) env id epochs) := by
  intro s hs
  rw [groupWithEpochMessageSecrets, wp_bind, wp_look]
  split
  · exact hs
  · exact hs
  · exact group_holds id [] s.tick hs
  · exact hs

theorem load_holds (henv : env.Untouched P) (id : String) (epochs : List ℕ) :
    Keeping P b (loadGroupWithEpochMessageSecrets (M := M) env id epochs) := by
  refine .bind (fun s hs => ?_) fun r => .ofResult (fun _ h => h) r
  rw [wp_mapError]
  refine transaction_holds henv (fun t ht => ?_) hs
  rw [wp_attempt]
  exact groupWithEpochMessageSecrets_holds id epochs t ht

/-! ## Processing -/

section processing

variable (env) in
theorem processWelcome_holds (hM : M.Untouched P) (welcome : Bytes) (config : M.JoinConfig) :
    Keeping P b (processWelcome (M := M) env welcome config) :=
  (Preserves.ofResult (fun _ h => h) _).bind fun _ =>
    (Preserves.orThrow (fun _ h => h) _ _).bind fun _ =>
      (useStore_holds (hM.stageWelcome config _)).bind fun staged => useStore_holds (hM.intoGroup staged)

variable (hM : M.GroupsUntouched P)
include hM

variable (env) in
theorem processOperationMessage_holds (message : Bytes) :
    GroupKeeping P b (processOperationMessage (M := M) env message) :=
  processOperationMessage_preserves (fun _ h => h) (fun _ h => h)
    (fun m => use_holds (hM.processMessage m)) (fun c => use_holds (hM.mergeStagedCommit c))
    (fun p => use_holds (hM.storePendingProposal p))
    (fun signer => use_holds (hM.commitToPendingProposals signer)) message

theorem processProposalMessage_holds (henv : env.Untouched P) (message : Bytes) :
    GroupKeeping P b (processProposalMessage (autocommit env) message) := by
  refine (Preserves.ofResult (fun _ h => h) _).bind fun message => .bind (fun s hs => ?_) fun r => ?_
  · have hawait := holds_await henv hs
    rw [wp_mapError, wp_autocommit]
    exact call_holds (hM.processMessage message) hawait
  · cases r.content with
    | proposalMessage proposal =>
      exact .bind (fun _ h => h) fun g => (Preserves.orThrow (fun _ h => h) _ _).bind fun _ => .pure _
    | applicationMessage _ => exact .throw (fun _ h => h) _
    | externalJoinProposalMessage _ => exact .throw (fun _ h => h) _
    | stagedCommitMessage _ => exact .throw (fun _ h => h) _

omit hM in
/-- In one transaction a group is loaded and changed. -/
theorem changeGroup_holds (henv : env.Untouched P) (id : String) {change : GroupAction M Unit}
    (h : GroupKeeping P b change) : Keeping P b (changeGroup env id change) := by
  intro s hs
  rw [changeGroup, wp_mapError]
  refine transaction_holds henv ?_ hs
  exact (group_holds id []).bind fun g => (withSelf_holds h g).bind fun _ => .pure _

end processing

/-! ## Steps without Welcomes -/

section steps

variable (hM : M.GroupsUntouched P) (henv : env.Untouched P)
include hM henv

theorem inspectionStep_holds (p : Inspection M) (msg : MlsMessage) {s : Session M}
    (hs : Holds P b s) : Holds P b (p.step env msg s).2 := by
  unfold Inspection.step
  dsimp only
  split
  · rename_i g _ _
    have hspec := processProposalMessage_holds hM henv msg.blob ⟨g, s⟩ hs
    split
    · rename_i proposal t hrun
      exact (wp_of_ok hrun).mp hspec
    · rename_i e t hrun
      exact (wp_of_error hrun).mp hspec
  · exact hs

theorem prePass_holds (messages : List MlsMessage) (p : Inspection M) {s : Session M}
    (hs : Holds P b s) : Holds P b (prePass env messages p s).2 := by
  induction messages generalizing p s with
  | nil => exact hs
  | cons msg messages ih => exact ih _ (inspectionStep_holds hM henv p msg hs)

omit hM in
theorem reload_holds (id : String) (msg : MlsMessage) (l : Progress M) {s : Session M}
    (hs : Holds P b s) : Holds P b (l.reload env id msg s).2 := by
  have hspec := load_holds henv id [msg.epoch] s hs
  unfold Progress.reload
  split_ifs
  · exact hs
  split
  · rename_i g t hrun
    exact (wp_of_ok hrun).mp hspec
  · rename_i e t hrun
    exact (wp_of_error hrun).mp hspec

theorem applyCommit_holds (id : String) (msg : MlsMessage) (l : Progress M) {s : Session M}
    (hs : Holds P b s) : Holds P b (l.applyCommit env id msg s).2 := by
  unfold Progress.applyCommit
  split
  · exact hs
  rename_i g _
  have hspec := transactionOn_holds henv (processOperationMessage_holds env hM msg.blob)
    (s := ⟨g, s⟩) hs
  split
  · rename_i r t hrun
    exact (wp_of_ok hrun).mp hspec
  · rename_i e t hrun
    exact (wp_of_error hrun).mp hspec

theorem commitArm_holds (id : String) (msg : MlsMessage) (l : Progress M) {s : Session M}
    (hs : Holds P b s) : Holds P b (l.commitArm env id msg s).2 := by
  have hreload := reload_holds henv id msg l hs
  unfold Progress.commitArm
  split_ifs
  · dsimp only
    split_ifs
    · exact hreload
    · exact applyCommit_holds hM henv id msg _ hreload
    · exact applyCommit_holds hM henv id msg _ hreload
  · exact hs

theorem settlePending_untouched (args : AllMessagesOfGroupArgs) (existing : M.Group)
    (ownMemberId : String) (op : GroupPendingOperation) {s : Session M} (hs : P s.store) :
    wp (settlePending env args existing ownMemberId op) s (fun _ t => P t.store)
      fun _ t => P t.store := by
  have hchange : ∀ {change : GroupAction M Unit}, GroupKeeping P s.beside change →
      wp (changeGroup env args.groupId change) s (fun _ t => P t.store) fun _ t => P t.store :=
    fun h => wp_mono (changeGroup_holds henv args.groupId h s ⟨hs, rfl⟩) (fun _ _ ht => ht.1)
      fun _ _ ht => ht.1
  refine wp_settlePending (fun _ t t' hunmarked ht => ?_) ?_ ?_ ?_ hs
  · rw [hunmarked.store]
    exact ht
  · exact hchange (use_holds hM.mergePendingCommit)
  · exact hchange (use_holds hM.clearPendingCommit)
  · exact hchange (use_holds hM.delete)

theorem openGroup_untouched (args : AllMessagesOfGroupArgs) {s : Session M} (hs : P s.store) :
    wp (openGroup env args) s (fun _ t => P t.store) fun _ t => P t.store := by
  rw [openGroup, wp_bind, wp_attempt]
  refine wp_mono (load_holds henv args.groupId (preloadEpochs args.messages) s ⟨hs, rfl⟩)
    (fun existing t ht => ?_) fun _ t ht => ht.1
  dsimp only
  cases ownIdFromLeafNode existing with
  | none => exact ht.1
  | some ownMemberId =>
    dsimp only
    rw [wp_bind]
    refine wp_useStatuses (fun _ _ => ht.1) fun _ => ?_
    rw [wp_bind]
    exact wp_mono (settlePending_untouched hM henv args existing ownMemberId _ ht.1)
      (fun _ _ hu => hu) fun _ _ hu => hu

end steps

/-! ## Whole calls -/

section calls

variable (hM : M.Untouched P) (henv : env.Untouched P)
include hM henv

theorem welcomeArm_holds (config : M.JoinConfig) (msg : MlsMessage) (l : Progress M) {s : Session M}
    (hs : Holds P b s) : Holds P b (l.welcomeArm env config msg s).2 := by
  have hspec := transaction_holds henv (processWelcome_holds env hM msg.blob config) hs
  cases hrun : (transaction env (processWelcome env msg.blob config)).run s with
  | ok g t =>
    rw [Progress.welcomeArm_of_ok hrun]
    exact (wp_of_ok hrun).mp hspec
  | error e t =>
    rw [Progress.welcomeArm_of_error hrun]
    exact (wp_of_error hrun).mp hspec

theorem progressStep_holds (id : String) (config : M.JoinConfig) (latestEpoch : ℕ)
    (msg : MlsMessage) (l : Progress M) {s : Session M} (hs : Holds P b s) :
    Holds P b (l.step env id config latestEpoch msg s).2 := by
  unfold Progress.step
  split
  · exact welcomeArm_holds hM henv config msg l hs
  · exact commitArm_holds hM.groups henv id msg l hs
  · exact hs
  · exact hs

theorem operationLoop_holds (id : String) (config : M.JoinConfig) (latestEpoch : ℕ)
    (messages : List MlsMessage) (l : Progress M) {s : Session M} (hs : Holds P b s) :
    Holds P b (operationLoop env id config latestEpoch messages l s).2 := by
  induction messages generalizing l s with
  | nil => exact hs
  | cons msg messages ih =>
    rw [operationLoop]
    split_ifs
    · exact hs
    · exact ih _ (progressStep_holds hM henv id config latestEpoch msg l hs)

/-- **The two loops of a group.** -/
theorem processMessages_holds (config : M.JoinConfig) (args : AllMessagesOfGroupArgs)
    (mlsGroup : Option M.Group) {s : Session M} (hs : Holds P b s) :
    Holds P b (processMessages env config args mlsGroup s).2 :=
  operationLoop_holds hM henv _ _ _ _ _ (prePass_holds hM.groups henv _ _ hs)

theorem processGroup_untouched (config : M.JoinConfig) (args : AllMessagesOfGroupArgs)
    {s : Session M} (hs : P s.store) : wp (processGroup env config args) s
      (fun _ t => P t.store) fun _ t => P t.store := by
  rw [processGroup, wp_bind]
  refine wp_mono (openGroup_untouched hM.groups henv args hs) (fun o t ht => ?_) fun _ _ ht => ht
  cases o with
  | none => exact ht
  | some opening =>
    exact (processMessages_holds (b := t.beside) hM henv config args opening.mlsGroup ⟨ht, rfl⟩).1

/-- **What OpenMLS and the other writers leave alone**, a call leaves alone. -/
theorem processAllMessages_untouched (config : M.JoinConfig) (groups : List AllMessagesOfGroupArgs)
    {s : Session M} (hs : P s.store) : wp (processAllMessages env config groups) s
      (fun _ t => P t.store) fun _ t => P t.store := by
  induction groups generalizing s with
  | nil => exact hs
  | cons args rest ih =>
    rw [processAllMessages, wp_bind]
    refine wp_mono (processGroup_untouched hM henv config args hs) (fun r t ht => ?_)
      fun _ _ ht => ht
    rw [wp_bind]
    exact wp_mono (ih ht) (fun _ _ hu => hu) fun _ _ hu => hu

end calls

end KChat.Mls
