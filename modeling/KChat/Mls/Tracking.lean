import KChat.Mls.PendingCommits

/-!
# Recorded operations in any sequence of calls

* `Noted`: nothing but the status of a group was written.
* `Call.Safe`: the calls that leave no commit pending without a record of it.
* `Reached`: the states that calls lead to. **`tracked_of_reached`**.
-/

namespace KChat.Mls

open Lib OpenMls

open Storage (Codec)

variable {M : CommitMls} {C : Codec} {α : Type} {env : Surroundings M.toOpenMls}
  {groupId : String} {op : GroupPendingOperation} {s t u : Session M.toOpenMls}
  {contentType : M.ProtocolMessage → ContentType}

/-! ## Statuses that are written -/

/-- Nothing but the status of a group was written. -/
structure Noted (groupId : String) (s t : Session M.toOpenMls) : Prop where
  store : t.store = s.store
  status : ∀ other ≠ groupId, statusOf other t.beside = statusOf other s.beside

theorem Noted.refl (groupId : String) (s : Session M.toOpenMls) : Noted groupId s s where
  store := rfl
  status _ _ := rfl

theorem Noted.trans (h : Noted groupId s t) (h' : Noted groupId t u) : Noted groupId s u where
  store := h'.store.trans h.store
  status other hother := (h'.status other hother).trans (h.status other hother)

/-- After a group was left without a pending commit its status may be anything. -/
theorem Moved.tracked_of_noted (h : Moved groupId false s t) (hs : Tracked s)
    (hnoted : Noted groupId t u) : Tracked u := by
  refine hs.of_others groupId ?_ (fun other hother => ?_) fun _ => ?_
  · rw [hnoted.store]
    exact h.others
  · rw [hnoted.status other hother, h.beside]
  · rw [hnoted.store]
    exact h.idle rfl

/-- After a status was written its group may be left with a pending commit. -/
theorem Moved.tracked_of_recorded {pending : Bool} (h : Moved groupId pending s t)
    (hs : Tracked s) (hnoted : Noted groupId t u) (hrecorded : ¬Unrecorded groupId u.beside) :
    Tracked u := by
  refine hs.of_others groupId ?_ (fun other hother => ?_) fun hnone => ?_
  · rw [hnoted.store]
    exact h.others
  · rw [hnoted.status other hother, h.beside]
  · exact absurd hnone hrecorded

theorem insertStatus_noted (groupId : String) (op : GroupPendingOperation)
    (s : Session M.toOpenMls) : wp (insertOrUpdateGroupStatus env groupId op) s
      (fun _ t => Noted groupId s t ∧ (op ≠ .none → ¬Unrecorded groupId t.beside))
      fun _ => Noted groupId s := by
  refine wp_useStatuses (fun _ _ => ⟨rfl, fun _ _ => rfl⟩) fun _ => ⟨⟨rfl, ?_⟩, ?_⟩
  · exact fun other hother => statusOf_insert_of_ne hother
  · exact not_unrecorded_insert

theorem deleteStatus_noted (groupId : String) (s : Session M.toOpenMls) :
    wp (deleteGroupStatus env groupId) s (fun _ => Noted groupId s) fun _ => Noted groupId s := by
  refine wp_useStatuses (fun _ _ => ⟨rfl, fun _ _ => rfl⟩) fun _ => ⟨rfl, ?_⟩
  exact fun other hother => statusOf_filter_of_ne hother

/-- Reading a status changes nothing. -/
theorem getStatus_undone (groupId : String) (s : Session M.toOpenMls) :
    wp (getGroupPendingOperation env groupId) s
      (fun row t => Undone s t ∧ row = statusOf groupId s.beside) fun _ => Undone s :=
  wp_useStatuses (fun _ _ => ⟨rfl, rfl⟩) fun _ => ⟨⟨rfl, rfl⟩, rfl⟩

/-- **An update is recorded** unless something is recorded already. -/
theorem recordUpdate_noted (groupId : String) (s : Session M.toOpenMls) :
    wp (recordUpdate env groupId) s
      (fun _ t => Noted groupId s t ∧ ¬Unrecorded groupId t.beside) fun _ => Noted groupId s := by
  have hread : wp (currentPendingOperation env groupId) s
      (fun op t => Undone s t ∧ (op ≠ .none → ¬Unrecorded groupId s.beside)) fun _ _ => False := by
    rw [currentPendingOperation, wp_bind, wp_attempt]
    refine wp_mono (getStatus_undone groupId s) (fun row t ht => ⟨ht.1, fun hop hnone => hop ?_⟩)
      fun _ t ht => ⟨ht, fun hop => absurd rfl hop⟩
    rw [ht.2]
    cases hrow : statusOf groupId s.beside with
    | none => rfl
    | some row => exact congrArg (fun row => GroupPendingOperation.ofRow (some row)) (hnone row hrow)
  rw [recordUpdate, wp_bind]
  refine wp_mono hread (fun op t ⟨hundone, hop⟩ => ?_) fun _ _ h => h.elim
  have hnoted : Noted groupId s t := ⟨hundone.store, fun other _ => by rw [hundone.beside]⟩
  refine wp_ite (fun _ => ?_) fun hne => ⟨hnoted, ?_⟩
  · refine wp_mono (insertStatus_noted groupId .updateTree t) (fun _ u hu => ?_)
      fun _ u hu => hnoted.trans hu
    exact ⟨hnoted.trans hu.1, hu.2 (by decide)⟩
  · rw [hundone.beside]
    exact hop hne

/-! ## Operations that leave a commit pending, or none -/

/-- **A commit that is recorded.** -/
theorem recording_tracked {x : Action M.toOpenMls α} {write : Action M.toOpenMls Unit}
    (hs : Tracked s) (hx : wp x s (fun _ => Moved groupId true s) fun _ => Undone s)
    (hwrite : ∀ t, wp write t (fun _ u => Noted groupId t u ∧ ¬Unrecorded groupId u.beside)
      fun _ => Noted groupId t)
    (hrecorded : Recorded x write s) :
    wp (recording x write) s (fun _ => Tracked) fun _ => Tracked := by
  rw [recording, wp_bind]
  cases hrun : x.run s with
  | error e t => exact (wp_of_error hrun).mpr (((wp_of_error hrun).mp hx).tracked hs)
  | ok a t =>
    have hmoved := (wp_of_ok hrun).mp hx
    refine (wp_of_ok hrun).mpr ?_
    obtain ⟨_, u, hu⟩ := exists_of_isOk (hrecorded a t hrun)
    have hnoted := (wp_of_ok hu).mp (hwrite t)
    rw [wp_bind, wp_attempt]
    exact (wp_of_ok hu).mpr (hmoved.tracked_of_recorded hs hnoted.1 hnoted.2)

theorem recording_insert_tracked {x : Action M.toOpenMls α} (hs : Tracked s)
    (hx : wp x s (fun _ => Moved groupId true s) fun _ => Undone s) (hop : op ≠ .none)
    (hrecorded : Recorded x (insertOrUpdateGroupStatus env groupId op) s) :
    wp (recording x (insertOrUpdateGroupStatus env groupId op)) s (fun _ => Tracked)
      fun _ => Tracked :=
  recording_tracked hs hx (fun t => wp_mono (insertStatus_noted groupId op t)
    (fun _ _ hu => ⟨hu.1, hu.2 hop⟩) fun _ _ hu => hu) hrecorded

section calls

/-- **A change that leaves no commit pending.** -/
theorem settlingBy_tracked (h : M.StoresGroups) (halone : ∀ t, env.others t = [])
    {change : GroupAction M.toOpenMls Unit} (pending : Bool)
    (hs : Tracked s) (hbefore : pending = false → Idle M groupId s.store)
    (hchange : ∀ u, AtIdle groupId s.beside s.store pending u → Synced u → wp change u
      (fun _ => AtIdle groupId s.beside s.store false) fun _ u => u.world.beside = s.beside) :
    wp (settlingBy env groupId change) s (fun _ => Tracked) fun _ => Tracked := by
  rw [settlingBy, recording, wp_bind]
  refine wp_mono (onGroup_moved h halone _ hbefore hchange) (fun _ t ht => ?_)
    fun _ t ht => ht.tracked hs
  rw [wp_bind, wp_attempt]
  exact wp_mono (insertStatus_noted groupId .none t) (fun _ u hu => ht.tracked_of_noted hs hu.1)
    fun _ u hu => ht.tracked_of_noted hs hu

/-- A transaction that only reads. -/
theorem transaction_undone_of_undone (halone : ∀ t, env.others t = [])
    {x : Action M.toOpenMls α} (hx : ∀ s, wp x s (fun _ => Undone s) fun _ => Undone s)
    (s : Session M.toOpenMls) :
    wp (transaction env x) s (fun _ => Undone s) fun _ => Undone s := by
  have hawait : (s.await env).store = s.store := Session.await_store_of_alone halone s
  refine wp_transaction (fun _ _ => ⟨hawait, rfl⟩) fun _ => ?_
  refine wp_mono (hx (s.await env).tick) (fun _ t ht => ⟨fun _ _ => ?_, fun _ => ?_⟩) fun _ t ht => ?_
  · exact ⟨hawait, ht.beside⟩
  · exact ⟨ht.store.trans hawait, ht.beside⟩
  · exact ⟨hawait, ht.beside⟩

theorem group_undone (h : M.StoresGroups) (groupId : String) (messages : List Bytes)
    (s : Session M.toOpenMls) :
    wp (group env groupId messages) s (fun _ => Undone s) fun _ => Undone s :=
  wp_mono (wp_and (group_spec h groupId messages s)
    (group_holds (P := fun _ => True) (b := s.beside) groupId messages s ⟨trivial, rfl⟩))
    (fun _ _ ht => ⟨ht.1.2, ht.2.2⟩) fun _ _ ht => ⟨ht.1, ht.2.2⟩

theorem loadGroup_undone (h : M.StoresGroups) (halone : ∀ t, env.others t = []) (groupId : String)
    (s : Session M.toOpenMls) : wp (SqliteProvider.loadGroup env groupId) s
      (fun _ => Undone s) fun _ => Undone s := by
  rw [SqliteProvider.loadGroup, wp_bind, wp_mapError]
  refine wp_mono (transaction_undone_of_undone halone (fun s => ?_) s) (fun r t ht => ?_)
    fun _ _ ht => ht
  · rw [wp_attempt]
    exact group_undone h groupId [] s
  · exact wp_ofResult (fun _ _ => ht) fun _ _ => ht

theorem signerFor_undone (publicKey : Option Bytes) (s : Session M.toOpenMls) :
    wp (signerFor env publicKey) s (fun _ => Undone s) fun _ => Undone s := by
  cases publicKey with
  | some key =>
    rw [signerFor, wp_bind, wp_look]
    exact wp_orThrow (fun _ _ => ⟨rfl, rfl⟩) fun _ => ⟨rfl, rfl⟩
  | none => exact wp_ofResult (fun _ _ => ⟨rfl, rfl⟩) fun _ _ => ⟨rfl, rfl⟩

theorem getCredentialWithKey_stored (hM : M.KeepsCommits contentType) (userId : String)
    (publicKey : Option Bytes) (s : Session M.toOpenMls) :
    wp (getCredentialWithKey env userId publicKey) s
      (fun _ t => t.beside = s.beside ∧ M.stored t.store = M.stored s.store)
      fun _ t => t.beside = s.beside := by
  rw [getCredentialWithKey, wp_bind]
  refine wp_mono (signerFor_undone publicKey s) (fun signer t ht => ?_) fun _ _ ht => ht.beside
  rw [wp_bind, wp_useStore]
  refine wp_mono (hM.storeSigner signer _ _) (fun _ db hdb => ⟨ht.beside, ?_⟩) fun _ _ _ => ht.beside
  rw [← ht.store]
  exact hdb

/-- **A group is created** beside the others. -/
theorem createGroup_moved (hM : M.KeepsCommits contentType) (clientId groupId : String)
    (config : M.CreateConfig) (publicKey : Option Bytes) (s : Session M.toOpenMls) :
    wp (createGroup env clientId groupId config publicKey) s
      (fun _ t => t.beside = s.beside ∧ OthersKept M groupId s.store t.store)
      fun _ t => t.beside = s.beside := by
  rw [createGroup, wp_bind]
  refine wp_mono (getCredentialWithKey_stored hM clientId publicKey s)
    (fun r t ⟨hbeside, hstored⟩ => ?_) fun _ _ ht => ht
  rw [wp_useStore]
  refine wp_mono (hM.newWithGroupId config groupId r.2 r.1 _ _) (fun g db hdb => ⟨hbeside, ?_⟩)
    fun _ _ _ => hbeside
  intro other hother
  rw [← hstored]
  exact hdb other hother

theorem newGroup_moved (h : M.StoresGroups) (hM : M.KeepsCommits contentType)
    (halone : ∀ t, env.others t = []) (clientId groupId : String)
    (config : Except Error M.CreateConfig) (publicKey : Option Bytes) (s : Session M.toOpenMls) :
    wp (newGroup env clientId groupId config publicKey) s (fun _ => Moved groupId true s)
      fun _ => Undone s := by
  rw [newGroup, wp_bind, wp_attempt]
  refine wp_mono (loadGroup_undone h halone groupId s) (fun _ _ ht => ht) fun _ t ht => ?_
  dsimp only
  rw [wp_bind]
  refine wp_ofResult (fun config _ => ?_) fun _ _ => ht
  have hawait : (t.await env).store = s.store :=
    (Session.await_store_of_alone halone t).trans ht.store
  rw [wp_bind, wp_mapError]
  refine wp_transaction (fun _ _ => ⟨hawait, ht.beside⟩) fun _ => ?_
  refine wp_mono (createGroup_moved hM clientId groupId config publicKey _)
    (fun _ u hu => ⟨fun _ _ => ⟨hawait, hu.1.trans ht.beside⟩, fun _ => ?_⟩)
    fun _ u hu => ⟨hawait, hu.trans ht.beside⟩
  refine ⟨hu.1.trans ht.beside, ?_, fun hfalse => nomatch hfalse⟩
  rw [← hawait]
  exact hu.2

theorem checkNotPending_undone (groupId : String) (s : Session M.toOpenMls) :
    wp (checkNotPending env groupId) s (fun _ => Undone s) fun _ => Undone s := by
  rw [checkNotPending, wp_bind, wp_attempt]
  refine wp_mono (getStatus_undone groupId s) (fun row t ht => ?_) fun _ _ ht => ht
  cases row with
  | none => exact ht.1
  | some op => exact wp_ite (fun _ => ht.1) fun _ => ht.1

theorem readdUnlessPending_moved (h : M.StoresGroups) (hM : M.KeepsCommits contentType)
    (halone : ∀ t, env.others t = []) (groupId : String) (memberIds : List String)
    (keyPackages : List Bytes) (s : Session M.toOpenMls) :
    wp (readdUnlessPending env groupId memberIds keyPackages) s (fun _ => Moved groupId true s)
      fun _ => Undone s := by
  rw [readdUnlessPending, wp_bind]
  refine wp_mono (checkNotPending_undone groupId s) (fun _ t ht => ?_) fun _ _ ht => ht
  refine wp_mono (onGroup_moved_of_stays h halone
    (signing_stays fun signer => readd_stays hM signer memberIds keyPackages))
    (fun _ u hu => ⟨hu.beside.trans ht.beside, ?_, fun hfalse => nomatch hfalse⟩)
    fun _ u hu => ⟨hu.store.trans ht.store, hu.beside.trans ht.beside⟩
  rw [← ht.store]
  exact hu.others

/-- **A Welcome** is stored beside the other groups, with no commit pending. -/
theorem processWelcome_moved (h : M.StoresGroups) (hM : M.KeepsCommits contentType)
    (halone : ∀ t, env.others t = []) (welcome : Bytes) (config : M.JoinConfig)
    (s : Session M.toOpenMls) :
    wp (transaction env (processWelcome env welcome config)) s
      (fun g t => Moved (M.groupId g) false s t ∧ M.stored t.store (M.groupId g) = some g)
      fun _ => Undone s := by
  have hawait : (s.await env).store = s.store := Session.await_store_of_alone halone s
  refine wp_transaction (fun _ _ => ⟨hawait, rfl⟩) fun _ => ?_
  rw [processWelcome, wp_bind]
  refine wp_ofResult (fun message _ => ?_) fun _ _ => ⟨hawait, rfl⟩
  rw [wp_bind]
  refine wp_orThrow (fun welcome _ => ?_) fun _ => ⟨hawait, rfl⟩
  rw [wp_bind, wp_useStore]
  have hstage : wp (M.stageWelcome config welcome (env.fault (s.await env).tick.time))
      (s.await env).tick.store (fun _ db => M.stored db = M.stored (s.await env).store)
      fun _ db => M.stored db = M.stored (s.await env).store :=
    wp_of_final (h.stageWelcome config welcome _ _)
  refine wp_mono hstage (fun staged db hdb => ?_) fun _ _ _ => ⟨hawait, rfl⟩
  rw [wp_useStore]
  refine wp_mono (wp_and (h.intoGroup staged _ _) (hM.intoGroup staged _ _)) ?_
    fun _ _ _ => ⟨hawait, rfl⟩
  rintro g db' ⟨hstored, hothers, hidle⟩
  refine ⟨fun _ _ => ⟨hawait, rfl⟩, fun _ => ⟨⟨rfl, ?_, ?_⟩, hstored⟩⟩
  · intro other hother
    rw [← hawait, ← hdb]
    exact hothers other hother
  · intro _ g' hg'
    obtain rfl := Option.some.inj (hstored.symm.trans hg')
    exact hidle

theorem processWelcome_tracked (h : M.StoresGroups) (hM : M.KeepsCommits contentType)
    (halone : ∀ t, env.others t = []) (welcome : Bytes) (config : M.JoinConfig) (hs : Tracked s) :
    wp (transaction env (processWelcome env welcome config)) s (fun _ => Tracked)
      fun _ => Tracked :=
  wp_mono (processWelcome_moved h hM halone welcome config s)
    (fun _ _ ht => ht.1.tracked hs fun _ => rfl) fun _ _ ht => ht.tracked hs

end calls

/-! ## `process_all_messages` -/

theorem Tracked.of_stored (hs : Tracked s) (hstored : M.stored t.store = M.stored s.store)
    (hbeside : t.beside = s.beside) : Tracked t := by
  refine fun groupId hnone g hg => hs groupId ?_ g ?_
  · rw [← hbeside]
    exact hnone
  · rw [← hstored]
    exact hg

section all

variable (h : M.StoresGroups) (hM : M.KeepsCommits contentType) (halone : ∀ t, env.others t = [])
include h hM halone

omit hM in
/-- A group is loaded and changed so that no commit is pending, and its status is written. -/
theorem changeGroup_moved {change : GroupAction M.toOpenMls Unit}
    (hchange : ∀ u, At groupId s.beside s.store u → wp change u
      (fun _ => AtIdle groupId s.beside s.store false) fun _ u => u.world.beside = s.beside) :
    wp (changeGroup env groupId change) s (fun _ => Moved groupId false s) fun _ => Undone s := by
  rw [changeGroup, wp_mapError]
  exact wp_inGroup h halone true (fun hfalse => by cases hfalse)
    fun u hu _ => hchange u hu.1

theorem settleBy_tracked (args : AllMessagesOfGroupArgs) (existing : M.Group) (k : Settling)
    (hs : Tracked s) : wp (settleBy env args existing k) s (fun _ => Tracked) fun _ => Tracked := by
  have hafter : ∀ {o : Option M.Group} {t u : Session M.toOpenMls},
      Moved args.groupId false s t → Noted args.groupId t u →
      wp (do
        let _ ← attempt (insertOrUpdateGroupStatus env args.groupId .none)
        return o) u (fun _ => Tracked) fun _ => Tracked := by
    intro o t u hmoved hnoted
    rw [wp_bind, wp_attempt]
    exact wp_mono (insertStatus_noted args.groupId .none u)
      (fun _ v hv => hmoved.tracked_of_noted hs (hnoted.trans hv.1))
      fun _ v hv => hmoved.tracked_of_noted hs (hnoted.trans hv)
  cases k with
  | keep => exact hs
  | merge =>
    rw [settleBy, wp_bind, map_eq_pure_bind, wp_bind]
    exact wp_mono (changeGroup_moved h halone fun u hu =>
      use_idle hM.changes_mergePendingCommit hM.calms_mergePendingCommit hu)
      (fun _ t ht => hafter ht (.refl _ t)) fun _ t ht => ht.tracked hs
  | clear =>
    rw [settleBy, wp_bind, map_eq_pure_bind, wp_bind]
    exact wp_mono (changeGroup_moved h halone fun u hu =>
      use_idle hM.changes_clearPendingCommit hM.calms_clearPendingCommit hu)
      (fun _ t ht => hafter ht (.refl _ t)) fun _ t ht => ht.tracked hs
  | remove =>
    rw [settleBy, wp_bind, map_eq_pure_bind, wp_bind, removeGroup, wp_bind]
    refine wp_mono (changeGroup_moved h halone fun u hu =>
      use_idle hM.changes_delete hM.calms_delete hu) (fun _ t ht => ?_) fun _ t ht => ht.tracked hs
    rw [wp_bind, wp_attempt]
    exact wp_mono (deleteStatus_noted args.groupId t) (fun _ u hu => hafter ht hu)
      fun _ u hu => hafter ht hu

omit hM in
theorem load_undone (id : String) (epochs : List ℕ) (s : Session M.toOpenMls) :
    wp (loadGroupWithEpochMessageSecrets env id epochs) s (fun _ => Undone s)
      fun _ => Undone s := by
  refine wp_mono (wp_and (load_spec env h id epochs s)
    (load_holds (P := fun _ => True) (b := s.beside) (fun _ _ _ _ _ => trivial) id epochs s
      ⟨trivial, rfl⟩)) (fun g t ht => ⟨?_, ht.2.2⟩) fun e t ht => ⟨?_, ht.2.2⟩
  · exact ht.1.2.trans (Session.await_store_of_alone halone s)
  · exact ht.1.trans (Session.await_store_of_alone halone s)

theorem openGroup_tracked (args : AllMessagesOfGroupArgs) (hs : Tracked s) :
    wp (openGroup env args) s (fun _ => Tracked) fun _ => Tracked := by
  rw [openGroup, wp_bind, wp_attempt]
  refine wp_mono (load_undone h halone args.groupId (preloadEpochs args.messages) s)
    (fun existing t ht => ?_) fun _ t ht => ht.tracked hs
  replace ht := ht.tracked hs
  dsimp only
  cases ownIdFromLeafNode existing with
  | none => exact ht
  | some ownMemberId =>
    dsimp only
    rw [wp_bind]
    refine wp_mono (getStatus_undone args.groupId t) (fun row u hu => ?_)
      fun _ u hu => hu.tracked ht
    rw [wp_bind, settlePending_eq]
    exact wp_mono (settleBy_tracked h hM halone args existing _ (hu.1.tracked ht))
      (fun _ _ hv => hv) fun _ _ hv => hv

omit hM in
/-- Looking at proposals changes no group. -/
theorem prePass_tracked (messages : List MlsMessage) (p : Inspection M.toOpenMls)
    (hs : Tracked s) : Tracked (prePass env messages p s).2 := by
  induction messages generalizing p s with
  | nil => exact hs
  | cons msg messages ih =>
    refine ih _ (hs.of_stored ?_ ?_)
    · exact (p.step_looked env h msg s).2.stored_of_alone halone
    · exact (inspectionStep_holds M.untouched_true.groups
        (Surroundings.untouched_of_alone halone) p msg (b := s.beside) ⟨trivial, rfl⟩).2

/-- A commit of another member leaves no commit pending in its group. -/
theorem transactionOn_tracked (message : Bytes)
    (hmessage : endsInProposal contentType [message] = false) (g : M.Group) (hs : Tracked s) :
    wp (transactionOn env (processOperationMessage env message)) ⟨g, s⟩
      (fun _ t => Tracked t.world) fun _ t => Tracked t.world := by
  have hawait : (s.await env).store = s.store := Session.await_store_of_alone halone s
  have hundone : ∀ {t : Session M.toOpenMls}, t.store = (s.await env).store →
      t.beside = s.beside → Tracked t :=
    fun hstore hbeside => Undone.tracked ⟨hstore.trans hawait, hbeside⟩ hs
  refine Lib.wp_transaction (fun _ _ => hundone rfl rfl) fun _ => ?_
  have hat : AtIdle (M.groupId g) s.beside s.store (!decide (Unrecorded (M.groupId g) s.beside))
      ⟨g, (s.await env).tick⟩ := by
    refine ⟨⟨rfl, rfl, fun other _ => congrFun (congrArg M.stored hawait) other⟩, fun hnone => ?_⟩
    show Idle M (M.groupId g) (s.await env).store
    rw [hawait]
    exact hs (M.groupId g) (by simpa using hnone)
  refine wp_mono (processOperationMessage_idle h hM message hat)
    (fun _ t ht => ⟨fun _ _ => hundone rfl ht.1.beside, fun _ => ?_⟩) fun _ t ht => hundone rfl ht
  refine Moved.tracked (s := s) ⟨ht.1.beside, ht.1.others, ht.2⟩ hs fun hnone => ?_
  rw [decide_eq_true hnone]
  exact hmessage

/-- Where the message is tagged as a commit it is no proposal. -/
def NoProposals (contentType : M.ProtocolMessage → ContentType) (msg : MlsMessage) : Prop :=
  msg.messageType = .commit → endsInProposal contentType [msg.blob] = false

omit hM in
theorem reload_tracked (id : String) (msg : MlsMessage) (l : Progress M.toOpenMls)
    (hs : Tracked s) : Tracked (l.reload env id msg s).2 := by
  have hload := load_undone h halone id [msg.epoch] s
  unfold Progress.reload
  split_ifs
  · exact hs
  split
  · rename_i g t hrun
    exact ((wp_of_ok hrun).mp hload).tracked hs
  · rename_i e t hrun
    exact ((wp_of_error hrun).mp hload).tracked hs

theorem applyCommit_tracked (id : String) (msg : MlsMessage) (l : Progress M.toOpenMls)
    (hmsg : endsInProposal contentType [msg.blob] = false) (hs : Tracked s) :
    Tracked (l.applyCommit env id msg s).2 := by
  unfold Progress.applyCommit
  split
  · exact hs
  rename_i g _
  have hspec := transactionOn_tracked h hM halone msg.blob hmsg g hs
  split
  · rename_i r t hrun
    exact (wp_of_ok hrun).mp hspec
  · rename_i e t hrun
    exact (wp_of_error hrun).mp hspec

/-- **One message of the second loop.** -/
theorem progressStep_tracked (id : String) (config : M.JoinConfig) (latestEpoch : ℕ)
    (msg : MlsMessage) (hmsg : NoProposals contentType msg) (l : Progress M.toOpenMls)
    (hs : Tracked s) : Tracked (l.step env id config latestEpoch msg s).2 := by
  unfold Progress.step
  split
  · have hspec := processWelcome_tracked h hM halone msg.blob config hs
    cases hrun : (transaction env (processWelcome env msg.blob config)).run s with
    | ok g t =>
      rw [Progress.welcomeArm_of_ok hrun]
      exact (wp_of_ok hrun).mp hspec
    | error e t =>
      rw [Progress.welcomeArm_of_error hrun]
      exact (wp_of_error hrun).mp hspec
  · rename_i htype
    have hreload := reload_tracked h halone id msg l hs
    have happly := applyCommit_tracked h hM halone id msg (l.reload env id msg s).1 (hmsg htype)
      hreload
    unfold Progress.commitArm
    split_ifs
    · dsimp only
      split_ifs
      · exact hreload
      · exact happly
      · exact happly
    · exact hs
  · exact hs
  · exact hs

theorem operationLoop_tracked (id : String) (config : M.JoinConfig) (latestEpoch : ℕ)
    (messages : List MlsMessage) (hmessages : ∀ msg ∈ messages, NoProposals contentType msg)
    (l : Progress M.toOpenMls) (hs : Tracked s) :
    Tracked (operationLoop env id config latestEpoch messages l s).2 := by
  induction messages generalizing l s with
  | nil => exact hs
  | cons msg messages ih =>
    rw [operationLoop]
    split_ifs
    · exact hs
    · exact ih (fun m hm => hmessages m (List.mem_cons_of_mem _ hm)) _
        (progressStep_tracked h hM halone id config latestEpoch msg
          (hmessages msg List.mem_cons_self) l hs)

theorem processGroup_tracked (config : M.JoinConfig) (args : AllMessagesOfGroupArgs)
    (hmessages : ∀ msg ∈ args.messages, NoProposals contentType msg) (hs : Tracked s) :
    wp (processGroup env config args) s (fun _ => Tracked) fun _ => Tracked := by
  rw [processGroup, wp_bind]
  refine wp_mono (openGroup_tracked h hM halone args hs) (fun o t ht => ?_) fun _ _ ht => ht
  cases o with
  | none => exact ht
  | some opening =>
    exact operationLoop_tracked h hM halone _ config _ args.messages hmessages _
      (prePass_tracked h halone args.messages _ ht)

/-- **All groups.** -/
theorem processAllMessages_tracked (config : M.JoinConfig) (groups : List AllMessagesOfGroupArgs)
    (hgroups : ∀ args ∈ groups, ∀ msg ∈ args.messages, NoProposals contentType msg)
    (hs : Tracked s) :
    wp (processAllMessages env config groups) s (fun _ => Tracked) fun _ => Tracked := by
  induction groups generalizing s with
  | nil => exact hs
  | cons args rest ih =>
    rw [processAllMessages, wp_bind]
    refine wp_mono (processGroup_tracked h hM halone config args
      (hgroups args List.mem_cons_self) hs) (fun r t ht => ?_) fun _ _ ht => ht
    rw [wp_bind]
    exact wp_mono (ih (fun a ha => hgroups a (List.mem_cons_of_mem _ ha)) ht) (fun _ _ hu => hu)
      fun _ _ hu => hu

end all

/-! ## Deleting a group by its rows -/

section delete

variable (K : KeyStore M.toOpenMls C)

/-- **A group is made of its rows**: without them it is not there, and the others are as before. -/
def KeyStore.GroupsAreRows : Prop :=
  ∀ db id bytes, C.toVec (K.groupId id) = .ok bytes → ∀ other g,
    M.stored (K.withTables (withoutGroup bytes (K.tables db)) db) other = some g →
      other ≠ id ∧ M.stored db other = some g

variable {K}

/-- The group is gone, and nothing else was changed. -/
structure WithoutGroup (groupId : String) (s t : Session M.toOpenMls) : Prop where
  beside : t.beside = s.beside
  stored : ∀ other g, M.stored t.store other = some g →
    other ≠ groupId ∧ M.stored s.store other = some g

theorem deleteRows_withoutGroup (hK : K.GroupsAreRows) (halone : ∀ t, env.others t = [])
    (s : Session M.toOpenMls) : wp (deleteRows K env groupId) s
      (fun _ => WithoutGroup groupId s) fun _ => Undone s := by
  have hawait : (s.await env).store = s.store := Session.await_store_of_alone halone s
  rw [deleteRows, wp_unowned]
  refine Lib.wp_transaction (fun _ _ => ⟨hawait, rfl⟩) fun _ => ?_
  rw [wp_onWorld, wp_onTables]
  refine wp_mono (deleteGroupById_store _ _) ?_ fun _ _ _ => ⟨hawait, rfl⟩
  rintro _ t ⟨bytes, hid, ht⟩
  refine ⟨fun _ _ => ⟨hawait, rfl⟩, fun _ => ⟨rfl, fun other g hg => ?_⟩⟩
  change M.stored (K.withTables t.store (s.await env).store) other = some g at hg
  rw [ht] at hg
  rw [← hawait]
  exact hK _ _ _ hid other g hg

/-- **Deleting by id** takes the group away or does nothing. -/
theorem sqliteDeleteGroup_withoutGroup (hK : K.GroupsAreRows) (halone : ∀ t, env.others t = [])
    (recoverable : String → Bool) (s : Session M.toOpenMls) :
    wp (SqliteProvider.deleteGroup K env recoverable groupId) s
      (fun _ => WithoutGroup groupId s) fun _ => Undone s := by
  rw [SqliteProvider.deleteGroup, wp_bind, wp_attempt]
  refine wp_mono (deleteRows_withoutGroup hK halone s) (fun _ t ht => ht) fun e t ht => ?_
  refine wp_ite (fun _ => ?_) fun _ => ht
  rw [wp_mapError]
  refine wp_mono (deleteRows_withoutGroup hK halone t) (fun _ u hu => ?_)
    fun _ u hu => ⟨hu.store.trans ht.store, hu.beside.trans ht.beside⟩
  refine ⟨hu.beside.trans ht.beside, fun other g hg => ?_⟩
  rw [← ht.store]
  exact hu.stored other g hg

theorem deleteGroup_tracked (hK : K.GroupsAreRows) (halone : ∀ t, env.others t = [])
    (recoverable : String → Bool) (hs : Tracked s) :
    wp (UqMls.deleteGroup K env recoverable groupId) s (fun _ => Tracked) fun _ => Tracked := by
  rw [UqMls.deleteGroup, wp_bind, wp_mapError]
  refine wp_mono (sqliteDeleteGroup_withoutGroup hK halone recoverable s) (fun _ t ht => ?_)
    fun _ _ ht => ht.tracked hs
  have htracked : Tracked t := by
    intro other hnone g hg
    rw [ht.beside] at hnone
    exact hs other hnone g (ht.stored other g hg).2
  have hafter : ∀ u, Noted groupId t u → Tracked u := fun u hu =>
    Moved.tracked_of_noted ⟨rfl, fun _ _ => rfl, fun _ g hg => absurd rfl (ht.stored groupId g hg).1⟩
      htracked hu
  exact wp_mono (deleteStatus_noted groupId t) (fun _ => hafter) fun _ => hafter

end delete

/-! ## Runs -/

variable (contentType) in
/-- **The calls that leave no commit pending without a record**: proposals are not cleared while a
commit is pending; where nothing is recorded the proposals among operation messages are followed by
a commit; and no message of a batch that is tagged as a commit is a proposal. -/
def Call.Safe (s : Session M.toOpenMls) : Call M → Prop
  | .clearPendingProposals groupId => Idle M groupId s.store
  | .processOperationMessage groupId message =>
    endsInProposal contentType [message] = true → ¬Unrecorded groupId s.beside
  | .processManyOperationMessages groupId messages =>
    endsInProposal contentType messages = true → ¬Unrecorded groupId s.beside
  | .processAllMessages _ groups =>
    ∀ args ∈ groups, ∀ msg ∈ args.messages, NoProposals contentType msg
  | _ => True

variable (env) in
/-- **The states that calls lead to** that fulfil `P`, with what they leave pending recorded. -/
inductive Reached (K : KeyStore M.toOpenMls C) (recoverable : String → Bool)
    (P : Session M.toOpenMls → Call M → Prop) (s₀ : Session M.toOpenMls) :
    Session M.toOpenMls → Prop
  | start : Reached K recoverable P s₀ s₀
  | call {s : Session M.toOpenMls} (c : Call M) : Reached K recoverable P s₀ s →
    c.Recorded env s → P s c → Reached K recoverable P s₀ (final ((c.run env K recoverable).run s))

section run

variable {K : KeyStore M.toOpenMls C} {recoverable : String → Bool}

/-- The result of a call is dropped. -/
theorem wp_dropped {x : Action M.toOpenMls α} {P : Session M.toOpenMls → Prop}
    (hx : wp x s (fun _ => P) fun _ => P) :
    wp ((fun _ => ()) <$> x) s (fun _ => P) fun _ => P := by
  rw [map_eq_pure_bind, wp_bind]
  exact hx

variable (h : M.StoresGroups) (hM : M.KeepsCommits contentType) (halone : ∀ t, env.others t = [])
include h hM halone

omit hM in
/-- **Operation messages** of a group. -/
theorem operationMessages_tracked {x : GroupAction M.toOpenMls α} (messages loaded : List Bytes)
    (hs : Tracked s)
    (hsafe : endsInProposal contentType messages = true → ¬Unrecorded groupId s.beside)
    (hx : ∀ pending u, AtIdle groupId s.beside s.store pending u → wp x u
      (fun _ => AtIdle groupId s.beside s.store (messages.foldl (commitAfter contentType) pending))
      fun _ u => u.world.beside = s.beside) :
    wp (onGroup env groupId loaded x) s (fun _ => Tracked) fun _ => Tracked := by
  have hbefore : (!decide (Unrecorded groupId s.beside)) = false → Idle M groupId s.store :=
    fun hnone => hs groupId (by simpa using hnone)
  refine wp_mono (onGroup_moved h halone _ hbefore fun u hu _ => hx _ u hu)
    (fun _ t ht => ht.tracked hs fun hnone => ?_) fun _ t ht => ht.tracked hs
  rw [decide_eq_true hnone]
  exact Bool.eq_false_iff.mpr fun hends => hsafe hends hnone

omit halone in
theorem processManyOperationMessages_idle {b : GroupStatuses} {db : M.Db} (messages : List Bytes)
    (pending : Bool) (u : Owning M.Group (Session M.toOpenMls)) (hu : AtIdle groupId b db pending u) :
    wp (processManyOperationMessages env messages) u
      (fun _ => AtIdle groupId b db (messages.foldl (commitAfter contentType) pending))
      fun _ u => u.world.beside = b := by
  rw [processManyOperationMessages, wp_bind]
  exact wp_mono (processManyLoop_idle h hM messages none hu) (fun _ _ ht => ht) fun _ _ ht => ht

/-- **One call**, whatever failures hit it. -/
theorem Call.run_tracked (hK : K.GroupsAreRows) (c : Call M) (hs : Tracked s)
    (hrecorded : c.Recorded env s) (hsafe : c.Safe contentType s) :
    wp (c.run env K recoverable) s (fun _ => Tracked) fun _ => Tracked := by
  cases c with
  | createGroup clientId groupId config publicKey =>
    exact recording_insert_tracked hs
      (newGroup_moved h hM halone clientId groupId config publicKey s) (by decide) hrecorded
  | addMembers groupId keyPackages =>
    refine wp_dropped (recording_tracked hs (onGroup_moved_of_stays h halone ?_)
      (recordUpdate_noted groupId) hrecorded)
    exact signing_stays fun signer => addMembers_stays hM signer keyPackages
  | removeMembers groupId memberIds =>
    refine wp_dropped (recording_insert_tracked hs (onGroup_moved_of_stays h halone ?_) (by decide)
      hrecorded)
    exact signing_stays fun signer => removeMembers_stays hM signer memberIds
  | readd groupId memberIds keyPackages =>
    exact wp_dropped (recording_insert_tracked hs
      (readdUnlessPending_moved h hM halone groupId memberIds keyPackages s) (by decide) hrecorded)
  | updateLeafNode groupId =>
    refine wp_dropped (recording_insert_tracked hs (onGroup_moved_of_stays h halone ?_) (by decide)
      hrecorded)
    exact signing_stays fun signer => updateLeafNode_stays hM signer
  | processOperationMessage groupId message =>
    exact wp_dropped (operationMessages_tracked h halone [message] [message] hs hsafe
      fun _ _ hu => processOperationMessage_idle h hM message hu)
  | processManyOperationMessages groupId messages =>
    exact wp_dropped (operationMessages_tracked h halone messages messages hs hsafe
      (processManyOperationMessages_idle h hM messages))
  | mergePendingCommit groupId =>
    exact settlingBy_tracked h halone true hs (fun hfalse => nomatch hfalse)
      fun u hu _ => use_idle hM.changes_mergePendingCommit hM.calms_mergePendingCommit hu.1
  | clearPendingCommit groupId =>
    exact settlingBy_tracked h halone true hs (fun hfalse => nomatch hfalse)
      fun u hu _ => use_idle hM.changes_clearPendingCommit hM.calms_clearPendingCommit hu.1
  | clearPendingProposals groupId =>
    exact settlingBy_tracked h halone false hs (fun _ => hsafe)
      fun u hu hsynced => use_keepsIdle hM.changes_clearPendingProposals
        hM.keepsIdle_clearPendingProposals hu hsynced
  | processWelcome welcome config =>
    show wp (UqMls.processWelcome env welcome config) s _ _
    rw [UqMls.processWelcome, wp_bind, wp_mapError]
    exact processWelcome_tracked h hM halone welcome config hs
  | processAllMessages config groups =>
    exact wp_dropped (processAllMessages_tracked h hM halone config groups hsafe hs)
  | deleteGroup groupId => exact deleteGroup_tracked hK halone recoverable hs

end run

/-- **In every state that safe calls lead to** no commit is pending where none is recorded. -/
theorem tracked_of_reached (M : CommitMls) {contentType : M.ProtocolMessage → ContentType}
    (h : M.StoresGroups) (hM : M.KeepsCommits contentType) {C : Codec} (K : KeyStore M.toOpenMls C)
    (hK : K.GroupsAreRows) (recoverable : String → Bool) (env : Surroundings M.toOpenMls)
    (halone : ∀ t, env.others t = []) {s₀ s : Session M.toOpenMls} (h₀ : Tracked s₀)
    (hs : Reached env K recoverable (Call.Safe contentType) s₀ s) : Tracked s := by
  induction hs with
  | start => exact h₀
  | call c _ hrecorded hsafe ih =>
    exact final_of_wp (Call.run_tracked h hM halone hK c ih hrecorded hsafe)

end KChat.Mls
